import Circuitry.Hdl.Code
import Circuitry.Kind

/-!
The module table: what each module declares, instantiates and runs, by module key in increasing
order. An entry comes into being when something is first recorded for its key.
-/

namespace Circuitry

structure Declaration where
  name : String
  kind : Kind
  width : Int
  literal : String
  signed : Bool
  deriving DecidableEq

structure Instance where
  name : String
  target : String
  deriving DecidableEq

structure EnumConstant where
  type : String
  label : String
  ordinal : Nat
  deriving DecidableEq

@[ext]
structure Entry where
  atoms : List Declaration := []
  instances : List Instance := []
  enums : List EnumConstant := []
  code : Code := .empty

structure Table where
  rows : List (String × Entry) := []
  ordered : (rows.map Prod.fst).Pairwise (· < ·) := by exact .nil

namespace Entry

def addAtom (a : Declaration) (e : Entry) : Entry := { e with atoms := e.atoms ++ [a] }

def addInstance (i : Instance) (e : Entry) : Entry := { e with instances := e.instances ++ [i] }

def addConstant (e : Entry) (c : EnumConstant) : Entry :=
  if c ∈ e.enums then e else { e with enums := e.enums ++ [c] }

def addEnum (type : String) (labels : List String) (e : Entry) : Entry :=
  labels.zipIdx.foldl (fun e (label, ordinal) => e.addConstant { type, label, ordinal }) e

def setCode (code : Option Code) (e : Entry) : Entry := { e with code := code.getD .empty }

end Entry

namespace Table

/-- Change the row of a key, which is put in its place if it is new. -/
def alter (f : Entry → Entry) (key : String) : List (String × Entry) → List (String × Entry)
  | [] => [(key, f {})]
  | (k, e) :: rows =>
    if key = k then (k, f e) :: rows
    else if key < k then (key, f {}) :: (k, e) :: rows
    else (k, e) :: alter f key rows

theorem mem_keys_alter {f : Entry → Entry} {key k : String} {rows : List (String × Entry)} :
    k ∈ (alter f key rows).map Prod.fst ↔ k = key ∨ k ∈ rows.map Prod.fst := by
  induction rows with
  | nil => simp [alter]
  | cons row rows ih =>
    simp only [alter]
    split
    · next h => simp [h]
    · split
      · simp
      · simp only [List.map_cons, List.mem_cons, ih]
        exact or_left_comm

theorem ordered_alter {f : Entry → Entry} {key : String} {rows : List (String × Entry)}
    (h : (rows.map Prod.fst).Pairwise (· < ·)) :
    ((alter f key rows).map Prod.fst).Pairwise (· < ·) := by
  induction rows with
  | nil => simp [alter]
  | cons row rows ih =>
    obtain ⟨first, rest⟩ := List.pairwise_cons.mp h
    simp only [alter]
    split
    · exact h
    · next ne =>
      split
      · next lt =>
        refine List.pairwise_cons.mpr ⟨fun k hk => ?_, h⟩
        rcases List.mem_cons.mp hk with rfl | hk
        · exact lt
        · exact String.lt_trans lt (first k hk)
      · next ge =>
        refine List.pairwise_cons.mpr ⟨fun k hk => ?_, ih rest⟩
        rcases mem_keys_alter.mp hk with rfl | hk
        · exact Std.lt_of_le_of_ne (String.not_lt.mp ge) (Ne.symm ne)
        · exact first k hk

def update (t : Table) (key : String) (f : Entry → Entry) : Table :=
  ⟨alter f key t.rows, ordered_alter t.ordered⟩

def keys (t : Table) : List String := t.rows.map Prod.fst

def get? (t : Table) (key : String) : Option Entry := t.rows.lookup key

theorem lookup_row (k : String) (row : String × Entry) (rows : List (String × Entry)) :
    (row :: rows).lookup k = if k = row.1 then some row.2 else rows.lookup k := by
  rw [List.lookup_cons]
  by_cases h : k = row.1
  · simp [h]
  · simp [h, beq_false_of_ne h]

theorem lookup_eq_none_of_lt {k : String} {rows : List (String × Entry)}
    (h : ∀ other ∈ rows.map Prod.fst, k < other) : rows.lookup k = none := by
  rw [List.lookup_eq_none_iff]
  intro row mem
  simpa using String.ne_of_lt (h row.1 (List.mem_map_of_mem mem))

theorem lookup_alter {f : Entry → Entry} {key k : String} {rows : List (String × Entry)}
    (h : (rows.map Prod.fst).Pairwise (· < ·)) :
    (alter f key rows).lookup k =
      if k = key then some (f ((rows.lookup key).getD {})) else rows.lookup k := by
  induction rows with
  | nil => simp [alter, lookup_row]
  | cons row rows ih =>
    obtain ⟨first, rest⟩ := List.pairwise_cons.mp h
    simp only [alter]
    split
    · next same => by_cases hk : k = row.1 <;> simp [lookup_row, same, hk]
    · next ne =>
      split
      · next lt =>
        have absent : rows.lookup key = none :=
          lookup_eq_none_of_lt fun other mem => String.lt_trans lt (first other mem)
        simp [lookup_row, ne, absent]
      · by_cases hk : k = key
        · subst hk
          simp [lookup_row, ih rest, ne]
        · simp [lookup_row, ih rest, hk]

theorem get?_update (t : Table) (key k : String) (f : Entry → Entry) :
    (t.update key f).get? k = if k = key then some (f ((t.get? key).getD {})) else t.get? k :=
  lookup_alter t.ordered

theorem mem_iff_lookup {key : String} {e : Entry} {rows : List (String × Entry)}
    (h : (rows.map Prod.fst).Pairwise (· < ·)) : (key, e) ∈ rows ↔ rows.lookup key = some e := by
  induction rows with
  | nil => simp
  | cons row rows ih =>
    obtain ⟨first, rest⟩ := List.pairwise_cons.mp h
    rw [List.mem_cons, ih rest, lookup_row]
    by_cases hk : key = row.1
    · subst hk
      simp [lookup_eq_none_of_lt first, Prod.ext_iff, eq_comm]
    · simp [hk, Prod.ext_iff]

theorem mem_rows_iff (t : Table) (key : String) (e : Entry) :
    (key, e) ∈ t.rows ↔ t.get? key = some e :=
  mem_iff_lookup t.ordered

def touch (t : Table) (key : String) : Table := t.update key id

def addAtom (t : Table) (key : String) (a : Declaration) : Table := t.update key (·.addAtom a)

def addInstance (t : Table) (key : String) (i : Instance) : Table :=
  t.update key (·.addInstance i)

def setCode (t : Table) (key : String) (code : Option Code) : Table :=
  t.update key (·.setCode code)

def addEnums (t : Table) (key : String) (d : Descriptor) : Table :=
  d.enums.foldl (fun t (type, labels) => t.update key (·.addEnum type labels)) t

end Table

end Circuitry
