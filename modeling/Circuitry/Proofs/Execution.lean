import Circuitry.Proofs.Closure
import Circuitry.Proofs.Settling
import Mathlib.Algebra.Group.Nat.Defs

/-!
What a code body does when its statements are run in order, each assignment taking effect before the
next statement. Operators lose nothing; a value is cut to the declared width of the signal that takes
it. The simulation gives every name of a module a value, and the code agrees with it if running the
code changes none of them.
-/

namespace Circuitry

abbrev Valuation := String → Option Nat

namespace Entry

def width? (e : Entry) (name : String) : Option Nat :=
  ((e.declared.map fun d => (d.name, d.width)).lookup name).map Int.toNat

def ordinal? (e : Entry) (label : String) : Option Nat :=
  (e.enums.map fun c => (c.label, c.ordinal)).lookup label

def put (e : Entry) (σ : Valuation) (target : String) (v : Nat) : Option Valuation :=
  (e.width? target).map fun w => Function.update σ target (some (v % 2 ^ w))

end Entry

namespace Expr

def unaryValue? (op : String) (bits : Option Nat) (v : Nat) : Option Nat :=
  match op with
  | "&" => bits.map fun w => if v % 2 ^ w = 2 ^ w - 1 then 1 else 0
  | "|" => some (if v = 0 then 0 else 1)
  | "!" => some (if v = 0 then 1 else 0)
  | _ => none

/-- A binary operator on numbers. Those that can fall below zero have no number here. -/
def binaryValue? (op : String) (x y : Nat) : Option Nat :=
  match op with
  | "+" => some (x + y)
  | "*" => some (x * y)
  | "&" => some (x &&& y)
  | "|" => some (x ||| y)
  | "^" => some (x ^^^ y)
  | "==" => some (if x = y then 1 else 0)
  | "!=" => some (if x = y then 0 else 1)
  | _ => none

mutual

def width? (e : Entry) : Expr → Option Nat
  | .ref name => e.width? name
  | .lit w _ _ => some w.toNat
  | .index .. => some 1
  | .slice _ hi lo => some (hi - lo + 1).toNat
  | .concat parts => partsWidth? e parts
  | .hole | .enum _ | .unary .. | .binary .. => none

def partsWidth? (e : Entry) : List Expr → Option Nat
  | [] => some 0
  | x :: xs => return (← x.width? e) + (← partsWidth? e xs)

end

mutual

/-- The number that an expression stands for. What depends on the width or the sign of its surroundings
has none. -/
def value? (e : Entry) (σ : Valuation) : Expr → Option Nat
  | .hole => none
  | .ref name => σ name
  | .lit w v signed => if signed then none else some (Width.truncate w v).toNat
  | .enum label => e.ordinal? label
  | .unary op x => do unaryValue? op (x.width? e) (← x.value? e σ)
  | .binary op x y => do binaryValue? op (← x.value? e σ) (← y.value? e σ)
  | .index x bit => return (← x.value? e σ) / 2 ^ bit.toNat % 2
  | .slice x hi lo => return (← x.value? e σ) / 2 ^ lo.toNat % 2 ^ (hi - lo + 1).toNat
  | .concat parts => partsValue? e σ parts

def partsValue? (e : Entry) (σ : Valuation) : List Expr → Option Nat
  | [] => some 0
  | x :: xs => do
    let high := (← x.value? e σ) % 2 ^ (← x.width? e)
    return high * 2 ^ (← partsWidth? e xs) + (← partsValue? e σ xs)

end

end Expr

def Link.run (e : Entry) (σ : Valuation) (l : Link) : Option Valuation :=
  if l.direction = .both then some σ else do e.put σ l.target (← σ l.source)

namespace Stmt

mutual

def run (e : Entry) (σ : Valuation) : Stmt → Option Valuation
  | .assign target value => do e.put σ target (← value.value? e σ)
  | .cond test yes no => do if (← test.value? e σ) = 0 then runAll e σ no else runAll e σ yes
  | .case subject items default => do
    runItems e σ (← subject.value? e σ) (runAll e σ default) items
  | .comment _ => some σ
  | .links ls => ls.foldlM (Link.run e) σ

def runAll (e : Entry) (σ : Valuation) : List Stmt → Option Valuation
  | [] => some σ
  | s :: ss => do runAll e (← s.run e σ) ss

def runItems (e : Entry) (σ : Valuation) (v : Nat) (otherwise : Option Valuation) :
    List (Expr × List Stmt) → Option Valuation
  | [] => otherwise
  | (label, body) :: items => do
    if (← label.value? e σ) = v then runAll e σ body else runItems e σ v otherwise items

end

variable {e : Entry} {σ : Valuation}

theorem runAll_cons {τ : Valuation} {s : Stmt} (h : s.run e σ = some τ) (ss : List Stmt) :
    runAll e σ (s :: ss) = runAll e τ ss := by
  rw [runAll, h]
  rfl

theorem runAll_eq_self {body : List Stmt} (h : ∀ s ∈ body, s.run e σ = some σ) :
    runAll e σ body = some σ := by
  induction body with
  | nil => rfl
  | cons s body ih =>
    obtain ⟨first, rest⟩ := List.forall_mem_cons.mp h
    rw [runAll_cons first, ih rest]

theorem run_links_eq_self {ls : List Link} (h : ∀ l ∈ ls, l.run e σ = some σ) :
    run e σ (.links ls) = some σ := by
  rw [run]
  induction ls with
  | nil => rfl
  | cons l ls ih =>
    obtain ⟨first, rest⟩ := List.forall_mem_cons.mp h
    rw [List.foldlM_cons, first]
    exact ih rest

theorem run_assign {t : String} {x : Expr} {w v : Nat} (hw : e.width? t = some w)
    (hx : x.value? e σ = some v) :
    run e σ (.assign t x) = some (Function.update σ t (some (v % 2 ^ w))) := by
  simp [run, hx, Entry.put, hw]

theorem run_case {x : Expr} {items : List (Expr × List Stmt)} {default : List Stmt} {v : Nat}
    (h : x.value? e σ = some v) :
    run e σ (.case x items default) = runItems e σ v (runAll e σ default) items := by
  rw [run, h]
  rfl

theorem runItems_cons {label : Expr} {u : Nat} (h : label.value? e σ = some u) (v : Nat)
    (otherwise : Option Valuation) (body : List Stmt) (items : List (Expr × List Stmt)) :
    runItems e σ v otherwise ((label, body) :: items) =
      if u = v then runAll e σ body else runItems e σ v otherwise items := by
  rw [runItems, h]
  rfl

theorem run_cond_assign {t : String} {test x : Expr} {w c v : Nat} (u : Nat) (hw : e.width? t = some w)
    (htest : test.value? e (Function.update σ t (some u)) = some c)
    (hx : x.value? e (Function.update σ t (some u)) = some v)
    (held : σ t = some (if c = 0 then u else v % 2 ^ w)) :
    run e (Function.update σ t (some u)) (.cond test [.assign t x] []) = some σ := by
  rw [run, htest]
  change (if c = 0 then _ else _) = _
  split at held
  · next zero => rw [if_pos zero, runAll, ← held, Function.update_eq_self]
  · next nonzero =>
    rw [if_neg nonzero, runAll_cons (run_assign hw hx), runAll, Function.update_idem, ← held,
      Function.update_eq_self]

end Stmt

/-- A name stands for a signal: it is declared with the width of the signal and has its value. -/
structure Denotes (e : Entry) (σ : Valuation) (st : State) (name : String) (g : Signal) : Prop where
  width : e.width? name = some g.width.toNat
  value : σ name = some (st.val.get g.net).toNat

namespace Denotes

variable {e : Entry} {σ : Valuation} {st : State} {t n : String} {g g' : Signal}

theorem put_self (h : Denotes e σ st t g) {v : Nat}
    (held : (st.val.get g.net).toNat = v % 2 ^ g.width.toNat) : e.put σ t v = some σ := by
  rw [Entry.put, h.width, Option.map_some, ← held, ← h.value, Function.update_eq_self]

theorem run_assign (h : Denotes e σ st t g) {x : Expr} {v : Nat} (hx : x.value? e σ = some v)
    (held : (st.val.get g.net).toNat = v % 2 ^ g.width.toNat) :
    Stmt.run e σ (.assign t x) = some σ := by
  rw [Stmt.run, hx]
  exact h.put_self held

theorem update (h : Denotes e σ st n g) (ne : n ≠ t) (u : Option Nat) :
    Denotes e (Function.update σ t u) st n g where
  width := h.width
  value := by rw [Function.update_of_ne ne, h.value]

theorem value?_ref (h : Denotes e σ st n g) :
    (Expr.ref n).value? e σ = some (st.val.get g.net).toNat := by
  rw [Expr.value?, h.value]

end Denotes

namespace Item

def named : Path × Item → List (String × Atom)
  | (u, .atom a) => [(u.flat, a)]
  | (u, .module _ fs) => (Block.fieldPorts fs).map fun x => (u.flat ++ "$" ++ x.1.flat, x.2)

theorem columns_declarations (x : Path × Item) :
    (declarations x).map (fun d => (d.name, d.width)) = (named x).map fun y => (y.1, y.2.width) := by
  obtain ⟨u, a | ⟨c, fs⟩⟩ := x
  · rfl
  · simp [declarations, named, Declaration.stub, Atom.declaration]

end Item

theorem lookup_of_mem {β : Type} {l : List (String × β)} (nodup : (l.map Prod.fst).Nodup)
    {name : String} {b : β} (h : (name, b) ∈ l) : l.lookup name = some b := by
  obtain ⟨before, after, rfl⟩ := List.append_of_mem h
  rw [List.map_append, List.map_cons, List.nodup_middle, List.nodup_cons, List.mem_append] at nodup
  rw [List.lookup_eq_some_iff]
  refine ⟨before, after, rfl, ?_⟩
  intro row mem
  have fresh : row.1 ≠ name := fun same => nodup.1 (.inl (List.mem_map.mpr ⟨row, mem, same⟩))
  simpa using fresh.symm

def Block.namedAtoms : Block → List (String × Atom)
  | .atom _ => []
  | .composite _ fs => (fieldItems fs).flatMap Item.named

namespace Scope

def named (s : Scope) : List (String × Atom) := s.block.namedAtoms

def valuation (s : Scope) (st : State) : Valuation := fun name =>
  (s.named.lookup name).bind fun a => (a.val? st).map UInt64.toNat

/-- Running the code of the module changes none of the values of the simulation. -/
def Agrees (s : Scope) (st : State) : Prop :=
  ∀ body, s.code = .combinatorial body →
    ∀ top, Stmt.runAll (s.entry top) (s.valuation st) body = some (s.valuation st)

theorem columns_atoms (top : String) (s : Scope) :
    (s.entry top).atoms.map (fun d => (d.name, d.width)) = s.named.map fun y => (y.1, y.2.width) := by
  simp only [atoms_entry, named, block, Block.namedAtoms, items, List.map_flatMap,
    Item.columns_declarations]

theorem columns_entry (top : String) (s : Scope) :
    (s.entry top).declared.map (fun d => (d.name, d.width)) =
      s.named.map fun y => (y.1, y.2.width) := by
  have same (ds : List Declaration) :
      (ds.map Declaration.asNet).map (fun d => (d.name, d.width)) = ds.map fun d => (d.name, d.width) := by
    rw [List.map_map]
    apply List.map_congr_left
    intro d _
    simp only [Function.comp_apply, Declaration.asNet]
    split <;> rfl
  rw [Entry.declared]
  split
  · rw [same, columns_atoms]
  · exact columns_atoms top s

theorem nodup_named {s : Scope} (hnames : Block.fieldsWellNamed s.fields = true) :
    (s.named.map Prod.fst).Nodup := by
  have names := congrArg (List.map Prod.fst) (columns_atoms "" s)
  rw [List.map_map, List.map_map] at names
  exact names ▸ nodup_atoms "" hnames

theorem denotes {s : Scope} (hnames : Block.fieldsWellNamed s.fields = true) (top : String)
    (st : State) {name : String} {g : Signal} (h : (name, .signal g) ∈ s.named) :
    Denotes (s.entry top) (s.valuation st) st name g where
  width := by
    rw [Entry.width?, columns_entry]
    rw [lookup_of_mem (b := g.width)]
    · rfl
    · rw [List.map_map]
      exact nodup_named hnames
    · exact List.mem_map.mpr ⟨_, h, rfl⟩
  value := by
    rw [valuation, lookup_of_mem (nodup_named hnames) h]
    rfl

theorem ordinal?_entry {s : Scope} (cs : List EnumConstant)
    (h : (s.notes "").flatMap Note.constants = cs) (top label : String) :
    (s.entry top).ordinal? label = (cs.eraseDups.map fun c => (c.label, c.ordinal)).lookup label := by
  rw [Entry.ordinal?, enums_entry, h]

theorem agrees_of_names {s : Scope} {st : State} {body : List Stmt} {names : List (String × Signal)}
    (hnames : Block.fieldsWellNamed s.fields = true) (code : s.code = .combinatorial body)
    (named : s.named = names.map fun row => (row.1, .signal row.2))
    (runs : ∀ top, (∀ row ∈ names, Denotes (s.entry top) (s.valuation st) st row.1 row.2) →
      Stmt.runAll (s.entry top) (s.valuation st) body = some (s.valuation st)) : s.Agrees st := by
  intro body' code' top
  obtain rfl : body = body' := Code.combinatorial.inj (code.symm.trans code')
  apply runs
  intro row mem
  apply denotes hnames
  rw [named]
  exact List.mem_map.mpr ⟨row, mem, rfl⟩

theorem Agrees.below {s : Scope} {st : State} (h : s.Agrees st) (name : String) :
    (s.below name).Agrees st := by
  intro body code top
  rw [entry_below]
  exact h body code _

end Scope

namespace Block

/-- Every assignment of the block holds. -/
def AtRest (b : Block) (st : State) : Prop :=
  ∀ d ∈ b.updateAll.steps, ∀ x, d.Assigns x →
    st.val.get d.target.net = Width.truncate d.target.width (x.eval st.val.get)

def Faithful (b : Block) (st : State) : Prop := b.AtRest st → ∀ s ∈ b.scopes, s.Agrees st

variable {c : Composite} {fs : List (Field × Block)} {st : State}

namespace AtRest

variable {b : Block} {e : Entry} {σ : Valuation} {t n : String} {g g' : Signal}

theorem put (rest : b.AtRest st) {x : Word Nat} (hd : .put g x ∈ b.updateAll.steps) :
    st.val.get g.net = Width.truncate g.width (x.eval st.val.get) :=
  rest _ hd _ (.put g x)

theorem flag (rest : b.AtRest st) (hw : 0 < g.width) {x : Word Nat}
    (hd : .flag g x ∈ b.updateAll.steps) :
    st.val.get g.net = Width.truncate g.width (if x.eval st.val.get = 0 then 0 else 1) :=
  rest _ hd _ (.flag g x hw)

theorem put_copy (rest : b.AtRest st) (ht : Denotes e σ st t g) (hw : 0 < g.width)
    (hd : .put g (.var g'.net) ∈ b.updateAll.steps) :
    e.put σ t (st.val.get g'.net).toNat = some σ := by
  apply ht.put_self
  rw [rest.put hd, Width.toNat_truncate (Int.le_of_lt hw)]
  rfl

section Copy

variable (rest : b.AtRest st) (ht : Denotes e σ st t g) (hn : Denotes e σ st n g') (hw : 0 < g.width)
  (hd : .put g (.var g'.net) ∈ b.updateAll.steps)

include rest ht hn hw hd

theorem run_copy : Stmt.run e σ (.assign t (.ref n)) = some σ := by
  rw [Stmt.run, hn.value?_ref]
  exact rest.put_copy ht hw hd

theorem run_link {l : Link} (direction : l.direction ≠ .both) (target : l.target = t)
    (source : l.source = n) : l.run e σ = some σ := by
  rw [Link.run, if_neg direction, source, hn.value, target]
  exact rest.put_copy ht hw hd

end Copy

end AtRest

theorem steps_field_subset {x : Field × Block} (hx : x ∈ fs) (h : (updateFields fs).fault = none) :
    x.2.updateAll.steps ⊆ (updateFields fs).steps := by
  induction fs with
  | nil => cases hx
  | cons y fs ih =>
    have faults : (y.2.updateAll.fault.or (updateFields fs).fault) = none :=
      (Script.fault_append _ _).symm.trans h
    obtain ⟨first, others⟩ := Option.or_eq_none_iff.mp faults
    have steps : (updateFields (y :: fs)).steps = y.2.updateAll.steps ++ (updateFields fs).steps :=
      Script.steps_append_of_fault_eq_none first
    rw [steps]
    rcases List.mem_cons.mp hx with rfl | hx
    · exact List.subset_append_left _ _
    · exact List.Subset.trans (ih hx others) (List.subset_append_right _ _)

theorem AtRest.field (h : (composite c fs).AtRest st) (opened : c.isClosed = false)
    (updates : (composite c fs).updateAll.fault = none) {x : Field × Block} (hx : x ∈ fs) :
    x.2.AtRest st := by
  have whole : (composite c fs).updateAll = c.update.append (updateFields fs) := by
    rw [updateAll, opened]
    rfl
  rw [whole, Script.fault_append, Option.or_eq_none_iff] at updates
  intro d hd
  apply h d
  rw [whole, Script.steps_append_of_fault_eq_none updates.1]
  exact List.mem_append_right _ (steps_field_subset hx updates.2 hd)

theorem faithful_of_fields (opened : c.isClosed = false)
    (updates : (composite c fs).updateAll.fault = none)
    (own : (composite c fs).AtRest st → Scope.Agrees ⟨[], c, fs⟩ st)
    (inside : ∀ x ∈ fs, x.2.Faithful st) : (composite c fs).Faithful st := by
  intro rest
  refine forall_mem_scopes (fun _ name h => h.below name) (own rest) ?_
  intro x hx
  exact inside x hx (rest.field opened updates hx)

theorem faithful_of_scopes_eq_nil {b : Block} (h : b.scopes = []) : b.Faithful st := by
  intro _ s hs
  simp [h] at hs

end Block

end Circuitry
