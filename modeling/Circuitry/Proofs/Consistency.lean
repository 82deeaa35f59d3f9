import Circuitry.Generation
import Circuitry.Proofs.Findings

namespace Circuitry

/-- The body of the module assigns an input atom that stands directly in it, under the name which
the groups around the atom give it. -/
def Scope.DrivesInput (s : Scope) : Prop :=
  ∃ body group label a, s.code = .combinatorial body ∧ (group ++ [label], .atom a) ∈ s.items ∧
    a.kind = .input ∧ Path.qualify group label ∈ Stmt.targets body

theorem Code.mem_targets {c : Code} {name : String} :
    name ∈ c.targets ↔ ∃ body, c = .combinatorial body ∧ name ∈ Stmt.targets body := by
  cases c <;> simp [targets]

theorem Scope.driven_eq_nil_iff {s : Scope} :
    Block.driven s.code s.fields = [] ↔ ¬ s.DrivesInput := by
  simp only [Block.driven, List.filter_eq_nil_iff, decide_eq_true_eq, Block.mem_fieldInputs_iff,
    List.nil_append, Code.mem_targets]
  constructor
  · rintro none ⟨body, group, label, a, code, item, kind, assigned⟩
    exact none _ ⟨group, label, a, item, kind, rfl⟩ ⟨body, code, assigned⟩
  · rintro none name ⟨group, label, a, item, kind, rfl⟩ ⟨body, code, assigned⟩
    exact none ⟨body, group, label, a, code, item, kind, assigned⟩

theorem Block.mem_leaves_iff {b : Block} {name : String} (h : (b.walk name).fault = none)
    {a : Atom} : a ∈ b.leaves ↔ ∃ label, .atom label a ∈ (b.walk name).steps := by
  rw [← atoms_walk h, List.mem_filterMap]
  constructor
  · rintro ⟨e, he, same⟩
    cases e <;> cases same
    exact ⟨_, he⟩
  · rintro ⟨label, he⟩
    exact ⟨_, he, rfl⟩

namespace Generation

variable {root : Block} {st : State} {top : String}

theorem check_eq (htop : top ≠ "") (h : (root.walk top).fault = none) :
    (check (some root) st top).result =
      match root.findings st [] [] top with
      | [] => .ok ()
      | i :: is => .error (.issues (i :: is)) := by
  rw [check, if_neg htop]
  simp only [Block.issues_eq h]
  cases root.findings st [] [] top <;> rfl

/-- A circuit that can be walked passes exactly if every atom met on the walk is connected and no
module drives an input of its own; if it does not pass, the issues are the findings of the tree. -/
theorem check_reports (root : Block) (st : State) (top : String) (htop : top ≠ "")
    (h : (root.walk top).fault = none) :
    ((check (some root) st top).result = .ok () ↔
        (∀ label a, .atom label a ∈ (root.walk top).steps → a.connected st = true) ∧
          ∀ s ∈ root.scopes, ¬ s.DrivesInput) ∧
      ((check (some root) st top).result ≠ .ok () →
        (check (some root) st top).result = .error (.issues (root.findings st [] [] top))) := by
  have spec : root.findings st [] [] top = [] ↔ _ := Block.findings_eq_nil_iff
  simp only [Scope.driven_eq_nil_iff, Block.mem_leaves_iff h, forall_exists_index] at spec
  rw [check_eq htop h, forall_comm, ← spec]
  cases root.findings st [] [] top <;> simp

def faulty : Block :=
  let bit (net : Nat) (kind : Kind) : Block := .signal { net, kind, width := 1, type := .bits 1 }
  let cell : Block :=
    .named { typeName := "Cell", boundary := .scope,
             code := some (.combinatorial [.assign "x" (.ref "y")]) }
      [("x", bit 1 .input), ("y", bit 2 .output)]
  .named { typeName := "Top", boundary := .scope,
           code := some (.combinatorial
             [.cond (.ref "g$a") [] [.assign "g$a" (.ref "m$y"), .assign "m$x" (.ref "g$a")]]) }
    [("m", cell), ("g", .named { typeName := "Group", boundary := .group } [("a", bit 0 .input)])]

theorem check_reports_faulty :
    let st := (({} : State).mark 0).mark 1
    "t" ≠ "" ∧ (faulty.walk "t").fault = none ∧
      (check (some faulty) st "t").result = .error (.issues
        [⟨.openSignal, "t$m", "y"⟩, ⟨.writesToInput, "t$m", "x"⟩,
          ⟨.writesToInput, "t", "g$a"⟩]) := by
  intro st
  have htop : "t" ≠ "" := by decide
  obtain ⟨passes, reports⟩ := check_reports faulty st "t" htop rfl
  refine ⟨htop, rfl, reports fun passed => ?_⟩
  have met : .atom "y" (.signal { net := 2, kind := .output, width := 1, type := .bits 1 }) ∈
      (faulty.walk "t").steps := .tail _ (.tail _ (.tail _ (.head _)))
  have connected := (passes.mp passed).1 _ _ met
  exact absurd connected (by decide)

end Generation

end Circuitry
