import Circuitry.Proofs.Layout
import Mathlib.Algebra.Ring.Int.Defs
import Mathlib.Data.List.Nodup

namespace Circuitry

inductive Heading where
  | parameters
  | constants
  | stubs
  | locals
  deriving DecidableEq

namespace Heading

def title : Heading → String
  | .parameters => "Module arguments"
  | .constants => "Constant declarations"
  | .stubs => "Stub signals"
  | .locals => "Local signals"

def all : List Heading := [.parameters, .constants, .stubs, .locals]

/-- The headings of a module around external cores. -/
def outer : List Heading := [.parameters, .constants]

end Heading

def Kind.heading? : Kind → Option Heading
  | .input | .output | .inout | .passthrough => some .parameters
  | .constant => some .constants
  | .stubInput | .stubOutput => some .stubs
  | .inner => some .locals
  | .unlisted => none

namespace Heading

variable {hs : List Heading} {ds : List Declaration}

def select (h : Heading) (ds : List Declaration) : List Declaration :=
  ds.filter (·.kind.heading? = some h)

def isUnder (hs : List Heading) (d : Declaration) : Bool := hs.any (d.kind.heading? = some ·)

theorem flatMap_select_cons_of_ne {d : Declaration}
    (h : ∀ g ∈ hs, d.kind.heading? ≠ some g) :
    hs.flatMap (select · (d :: ds)) = hs.flatMap (select · ds) :=
  List.flatMap_congr fun g hg => List.filter_cons_of_neg (by simpa using h g hg)

/-- Different headings take the atoms that stand under one of them apart, without loss and without
repetition. -/
theorem perm_flatMap_select (hs : List Heading) (distinct : hs.Nodup) (ds : List Declaration) :
    (hs.flatMap (select · ds)).Perm (ds.filter (isUnder hs)) := by
  induction ds with
  | nil => simp [select]
  | cons d ds ih =>
    by_cases headed : isUnder hs d = true
    · rw [List.filter_cons_of_pos headed]
      obtain ⟨h, hh, own⟩ := List.any_eq_true.mp headed
      have own := of_decide_eq_true own
      obtain ⟨before, after, rfl⟩ := List.append_of_mem hh
      have absent := (List.nodup_cons.mp (List.nodup_middle.mp distinct)).1
      rw [List.mem_append, not_or] at absent
      have others {gs : List Heading} (absent : h ∉ gs) :
          ∀ g ∈ gs, d.kind.heading? ≠ some g := by
        rintro g hg same
        exact absent (Option.some.inj (own.symm.trans same) ▸ hg)
      have found : select h (d :: ds) = d :: select h ds :=
        List.filter_cons_of_pos (decide_eq_true own)
      rw [List.flatMap_append, List.flatMap_cons] at ih ⊢
      rw [flatMap_select_cons_of_ne (others absent.1), flatMap_select_cons_of_ne (others absent.2),
        found]
      exact List.perm_middle.trans (ih.cons d)
    · rw [List.filter_cons_of_neg headed, flatMap_select_cons_of_ne]
      · exact ih
      · exact fun g hg same => headed (List.any_eq_true.mpr ⟨g, hg, decide_eq_true same⟩)

theorem isParameter_eq (k : Kind) : k.isParameter = decide (k.heading? = some parameters) := by
  cases k <;> rfl

theorem isConstant_eq (k : Kind) : decide (k = .constant) = decide (k.heading? = some constants) := by
  cases k <;> rfl

theorem isStub_eq (k : Kind) : k.isStub = decide (k.heading? = some stubs) := by
  cases k <;> rfl

theorem isInner_eq (k : Kind) : decide (k = .inner) = decide (k.heading? = some locals) := by
  cases k <;> rfl

theorem isUnder_all {d : Declaration} (h : d.kind ≠ .unlisted) : isUnder all d = true := by
  rw [isUnder]
  cases kind : d.kind with
  | unlisted => exact absurd kind h
  | _ => rfl

theorem isUnder_outer (d : Declaration) :
    isUnder outer d = (d.kind.isParameter || d.kind = .constant) := by
  rw [isUnder]
  cases d.kind <;> rfl

theorem heading?_asNet (d : Declaration) : d.asNet.kind.heading? = d.kind.heading? := by
  rw [Declaration.asNet]
  split
  · next h =>
    rw [h]
    rfl
  · rfl

theorem select_asNet (h : Heading) (ds : List Declaration) :
    h.select (ds.map Declaration.asNet) = (h.select ds).map Declaration.asNet := by
  simp only [select, List.filter_map, Function.comp_def, heading?_asNet]

end Heading

namespace Declaration

def range (d : Declaration) : String :=
  if d.width = 1 then "" else " [" ++ Numeral.decimal (Width.wrap (d.width - 1)) ++ ":0]"

theorem range_eq_empty_iff (d : Declaration) : d.range = "" ↔ d.width = 1 := by
  rw [range]
  split
  · next h => simp [h]
  · next h => simp [h]

theorem text_eq (d : Declaration) (h : d.kind ≠ .constant) :
    d.text = d.kind.keyword ++ (if d.signed then " signed" else "") ++ d.range ++ " " ++ d.name ++
      ";" := by
  by_cases one : d.width = 1
  · simp [text, range, h, one, String.append_assoc]
  · simp [text, range, h, one, String.append_assoc]

theorem keyword_asNet (d : Declaration) : d.asNet.kind.keyword ≠ "output reg" := by
  rw [asNet]
  split
  · exact (by decide : Kind.passthrough.keyword ≠ "output reg")
  · next other =>
    cases h : d.kind with
    | output => exact absurd h other
    | _ => simp [Kind.keyword]

end Declaration

namespace Entry

def under (e : Entry) (h : Heading) : List Declaration := h.select e.declared

theorem parameters_eq (e : Entry) : e.parameters = e.under .parameters := by
  simp only [parameters, under, Heading.select, Heading.isParameter_eq]

theorem constants_eq (e : Entry) : e.constants = e.under .constants := by
  simp only [constants, under, Heading.select, Heading.isConstant_eq]

theorem stubs_eq (e : Entry) : e.stubs = e.under .stubs := by
  simp only [stubs, under, Heading.select, Heading.isStub_eq]

theorem locals_eq (e : Entry) : e.locals = e.under .locals := by
  simp only [locals, under, Heading.select, Heading.isInner_eq]

theorem under_of_plain {e : Entry} (plain : e.code.isWrapper = false) (h : Heading) :
    e.under h = h.select e.atoms := by
  rw [under, declared, plain]
  rfl

theorem under_of_wrapper {e : Entry} (wrapper : e.code.isWrapper = true) (h : Heading) :
    e.under h = (h.select e.atoms).map Declaration.asNet := by
  rw [under, declared, if_pos wrapper, Heading.select_asNet]

end Entry

namespace Table

def headed (e : Entry) (h : Heading) : String × List String :=
  (h.title, (e.under h).map Declaration.text)

theorem sections_eq (t : Table) (e : Entry) :
    t.sections e = Heading.outer.map (headed e) ++
      (if e.code.isWrapper then [] else
        ("Enums", e.enums.map EnumConstant.text) :: [.stubs, .locals].map (headed e) ++
          [("Sub module instances", e.instances.map fun i => i.text ((t.get? i.target).getD {}))]) ++
      e.codeSection := by
  simp only [sections, e.parameters_eq, e.constants_eq, e.stubs_eq, e.locals_eq]
  rfl

/-- A module declares each of its atoms once, under the heading of its kind and in the order in which
they were recorded; wrapped code leaves the parameters, as nets, and the constants. The header lists
the parameters as they are declared, and a declaration has a bit range unless it is a single bit. -/
theorem atoms_declared (t : Table) (key : String) (e : Entry)
    (kinds : ∀ a ∈ e.atoms, a.kind ≠ .unlisted) :
    t.moduleText key e = leadText e ++ page key ((e.under .parameters).map (·.name))
        (Heading.outer.map (headed e) ++
          (if e.code.isWrapper then [] else
            ("Enums", e.enums.map EnumConstant.text) :: [.stubs, .locals].map (headed e) ++
              [("Sub module instances",
                e.instances.map fun i => i.text ((t.get? i.target).getD {}))]) ++
          e.codeSection) ∧
      ((key, e) ∈ t.emitted →
        ∃ before after, t.text = before ++ t.moduleText key e ++ after) ∧
      (e.code.isWrapper = false →
        (∀ h, e.under h = h.select e.atoms) ∧ (Heading.all.flatMap e.under).Perm e.atoms) ∧
      (e.code.isWrapper = true →
        (∀ h, e.under h = (h.select e.atoms).map Declaration.asNet) ∧
          (Heading.outer.flatMap e.under).Perm
            ((e.atoms.filter fun a => a.kind.isParameter || a.kind = .constant).map
              Declaration.asNet) ∧
          ∀ d ∈ e.under .parameters, d.kind.keyword ≠ "output reg") ∧
      ∀ h, ∀ d ∈ e.under h, d.kind ≠ .constant →
        d.text = d.kind.keyword ++ (if d.signed then " signed" else "") ++ d.range ++ " " ++ d.name ++
            ";" ∧
          (d.range = "" ↔ d.width = 1) ∧
          (d.width ≠ 1 →
            d.range = " [" ++ Numeral.decimal (Width.wrap (d.width - 1)) ++ ":0]") ∧
          (-2 ^ 63 < d.width → d.width ≤ 2 ^ 63 → Width.wrap (d.width - 1) = d.width - 1) := by
  refine ⟨?_, exists_text_of_emitted, fun plain => ?_, fun wrapper => ?_, ?_⟩
  · rw [moduleText_eq, e.parameters_eq, sections_eq]
  · have own : e.under = fun h => h.select e.atoms := funext (e.under_of_plain plain)
    have taken := Heading.perm_flatMap_select Heading.all (by decide) e.atoms
    rw [List.filter_eq_self.mpr fun a ha => Heading.isUnder_all (kinds a ha)] at taken
    exact ⟨congrFun own, own ▸ taken⟩
  · refine ⟨e.under_of_wrapper wrapper, ?_, ?_⟩
    · have own : e.under = fun h => (h.select e.atoms).map Declaration.asNet :=
        funext (e.under_of_wrapper wrapper)
      have taken := Heading.perm_flatMap_select Heading.outer (by decide) e.atoms
      rw [funext Heading.isUnder_outer] at taken
      rw [own, ← List.map_flatMap]
      exact taken.map Declaration.asNet
    · intro d hd
      rw [e.under_of_wrapper wrapper] at hd
      obtain ⟨a, -, rfl⟩ := List.mem_map.mp hd
      exact a.keyword_asNet
  · intro h d _ other
    exact ⟨d.text_eq other, d.range_eq_empty_iff, fun wide => if_neg wide,
      fun low high => Width.wrap_eq_self (by omega) (by omega)⟩

def assorted (code : Code) : Entry where
  atoms :=
    [{ name := "n", kind := .inner, width := 4, literal := "", signed := true },
      { name := "q", kind := .output, width := 8, literal := "", signed := false },
      { name := "m$x", kind := .stubInput, width := 1, literal := "", signed := false },
      { name := "k", kind := .constant, width := 4, literal := "4'h2", signed := false },
      { name := "a", kind := .input, width := 1, literal := "", signed := false },
      { name := "q", kind := .output, width := 8, literal := "", signed := false }]
  code

theorem atoms_declared_assorted :
    (∀ a ∈ (assorted .empty).atoms, a.kind ≠ .unlisted) ∧
      (Heading.all.flatMap (assorted .empty).under).Perm (assorted .empty).atoms ∧
      ((assorted .empty).under .parameters).map Declaration.text =
        ["output reg [7:0] q;", "input wire a;", "output reg [7:0] q;"] ∧
      (∀ d ∈ (assorted (.wrapper "" "")).under .parameters, d.kind.keyword ≠ "output reg") ∧
      (Heading.outer.flatMap (assorted (.wrapper "" "")).under).map Declaration.text =
        ["output wire [7:0] q;", "input wire a;", "output wire [7:0] q;", "localparam k = 4'h2;"] := by
  have kinds : ∀ a ∈ (assorted .empty).atoms, a.kind ≠ .unlisted := by decide
  obtain ⟨-, -, plain, -, -⟩ := atoms_declared {} "m" (assorted .empty) kinds
  obtain ⟨-, -, -, wrapper, -⟩ := atoms_declared {} "m" (assorted (.wrapper "" "")) kinds
  exact ⟨kinds, (plain rfl).2, by decide +kernel, (wrapper rfl).2.2, by decide +kernel⟩

end Table

end Circuitry
