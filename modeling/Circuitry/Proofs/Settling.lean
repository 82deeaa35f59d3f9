import Circuitry.Block.Member
import Circuitry.Proofs.Stepping
import Mathlib.Data.List.Chain
import Mathlib.Data.Nat.Find

/-!
Circuits of assignments. Where each net has at most one assignment and no net depends on itself, the
assignments have one solution for the given values of the other nets, and settling finds it: a net
keeps its value once the nets that it depends on keep theirs, so the longest path of dependencies
bounds the number of steps.
-/

namespace Circuitry

namespace Width

theorem truncate_zero (w : Int) : truncate w 0 = 0 := by simp [truncate]

theorem truncate_one {w : Int} (h : 0 < w) : truncate w 1 = 1 := by
  apply UInt64.toNat.inj
  rw [toNat_truncate (by omega)]
  apply Nat.mod_eq_of_lt
  have : w.toNat ≠ 0 := by omega
  exact Nat.one_lt_two_pow this

end Width

namespace Word

theorem exists_choice {nets : List Nat} (n : Nat) (x : UInt64 → Word Nat)
    (h : ∀ c, (x c).reads ⊆ nets) (cs : List UInt64) :
    ∃ y : Word Nat, y.reads ⊆ n :: nets ∧
      ∀ v : Nat → UInt64, v n ∈ cs → y.eval v = (x (v n)).eval v := by
  induction cs with
  | nil => exact ⟨.lit 0, List.nil_subset _, by simp⟩
  | cons c cs ih =>
    obtain ⟨y, hy, rest⟩ := ih
    refine ⟨.ite (.eq (.var n) (.lit c)) (x c) y, ?_, ?_⟩
    · have hx := List.Subset.trans (h c) (List.subset_cons_self n nets)
      simp only [reads, List.append_nil, List.append_assoc, List.append_subset]
      exact ⟨by simp, hx, hy⟩
    · intro v mem
      by_cases hc : v n = c
      · simp [eval, hc]
      · simp [eval, hc, rest v (List.mem_of_ne_of_mem hc mem)]

/-- Words leave out no function of the values of finitely many nets. -/
theorem exists_eval_eq (nets : List Nat) (f : (Nat → UInt64) → UInt64)
    (h : ∀ v w : Nat → UInt64, (∀ n ∈ nets, v n = w n) → f v = f w) :
    ∃ x : Word Nat, x.reads ⊆ nets ∧ ∀ v, x.eval v = f v := by
  induction nets generalizing f with
  | nil => exact ⟨.lit (f fun _ => 0), List.nil_subset _, fun v => h _ v (by simp)⟩
  | cons n nets ih =>
    have fixed : ∀ c, ∃ x : Word Nat,
        x.reads ⊆ nets ∧ ∀ v, x.eval v = f (Function.update v n c) := by
      intro c
      apply ih
      intro v w same
      apply h
      intro m hm
      by_cases hn : m = n
      · simp [hn]
      · simpa [hn] using same m (List.mem_of_ne_of_mem hn hm)
    choose x hx eval using fixed
    obtain ⟨y, hy, choice⟩ := exists_choice n x hx ((List.range (2 ^ 64)).map UInt64.ofNat)
    refine ⟨y, hy, ?_⟩
    intro v
    have listed : v n ∈ (List.range (2 ^ 64)).map UInt64.ofNat :=
      List.mem_map.mpr ⟨(v n).toNat, List.mem_range.mpr (v n).toNat_lt, UInt64.ofNat_toNat⟩
    rw [choice v listed, eval, Function.update_eq_self]

end Word

namespace Drive

inductive Assigns : Drive → Word Nat → Prop
  | put (t : Signal) (x : Word Nat) : Assigns (.put t x) x
  | flag (t : Signal) (x : Word Nat) (width : 0 < t.width) :
      Assigns (.flag t x) (.ite x (.lit 1) (.lit 0))

theorem Assigns.isLatch {d : Drive} {x : Word Nat} (h : d.Assigns x) : d.isLatch = false := by
  cases h <;> rfl

theorem Assigns.write?_eq {d : Drive} {x : Word Nat} (h : d.Assigns x) (v : Nat → UInt64)
    (n : Nat) :
    d.write? v n =
      if d.target.net = n then some (Width.truncate d.target.width (x.eval v)) else none := by
  cases h with
  | put t x => rfl
  | flag t x width =>
    by_cases hx : x.eval v = 0 <;>
      simp [write?, target, Word.eval, hx, Width.truncate_zero, Width.truncate_one width]

end Drive

namespace Block

/-- Updates are assignments, at most one for each net. A shared block may repeat its own. -/
structure Combinational (b : Block) : Prop where
  updates : b.updateAll.fault = none
  walks : (b.walk "").fault = none
  assigns : ∀ d ∈ b.updateAll.steps, ∃ x, d.Assigns x
  single : ∀ d ∈ b.updateAll.steps, ∀ d' ∈ b.updateAll.steps,
    d.target.net = d'.target.net → d = d'

def Feeds (b : Block) (n m : Nat) : Prop :=
  ∃ d ∈ b.updateAll.steps, ∃ x, d.Assigns x ∧ n ∈ x.reads ∧ d.target.net = m

def Driven (b : Block) (n : Nat) : Prop := ∃ d ∈ b.updateAll.steps, d.target.net = n

/-- No path of dependencies has more than `depth` edges. -/
def DepthAtMost (b : Block) (depth : Nat) : Prop :=
  ∀ path : List Nat, path.IsChain b.Feeds → path.length ≤ depth + 1

/-- Values that satisfy every assignment. A net without one has its next value, and a net that the
circuit does not hold keeps its value. -/
structure Solves (b : Block) (st : State) (v : Nat → UInt64) : Prop where
  driven : ∀ d ∈ b.updateAll.steps, ∀ x, d.Assigns x → d.target.net ∈ b.nets →
    v d.target.net = Width.truncate d.target.width (x.eval v)
  undriven : ∀ n ∈ b.nets, ¬ b.Driven n → v n = st.next.get n
  outside : ∀ n ∉ b.nets, v n = st.val.get n

/-- No path of dependencies that ends at the net has more than `k` edges. -/
def AtLevel (b : Block) (k n : Nat) : Prop :=
  ∀ path : List Nat, (path ++ [n]).IsChain b.Feeds → path.length ≤ k

variable {b : Block} {st : State}

theorem DepthAtMost.atLevel {depth : Nat} (h : b.DepthAtMost depth) (n : Nat) :
    b.AtLevel depth n := by
  intro path chain
  have := h _ chain
  simpa using this

theorem AtLevel.source {k n m : Nat} (h : b.AtLevel k n) (feeds : b.Feeds m n) :
    ∃ j, k = j + 1 ∧ b.AtLevel j m := by
  have longer : ∀ path : List Nat, (path ++ [m]).IsChain b.Feeds → path.length + 1 ≤ k := by
    intro path chain
    have whole : (path ++ [m] ++ [n]).IsChain b.Feeds := by
      rw [List.isChain_append]
      exact ⟨chain, List.isChain_singleton n, by simpa using feeds⟩
    simpa using h (path ++ [m]) whole
  have pos : 0 + 1 ≤ k := longer [] (List.isChain_singleton m)
  refine ⟨k - 1, by omega, ?_⟩
  intro path chain
  have := longer path chain
  omega

theorem AtLevel.induct {motive : Nat → Nat → Prop}
    (step : ∀ k n, (∀ m, b.Feeds m n → ∃ j, k = j + 1 ∧ motive j m) → motive k n) {k n : Nat}
    (h : b.AtLevel k n) : motive k n := by
  induction k generalizing n with
  | zero =>
    apply step
    intro m feeds
    obtain ⟨j, hj, -⟩ := h.source feeds
    omega
  | succ k ih =>
    apply step
    intro m feeds
    obtain ⟨j, hj, hm⟩ := h.source feeds
    obtain rfl : k = j := by omega
    exact ⟨k, rfl, ih hm⟩

theorem depthAtMost_of_levels {depth : Nat} (level : Nat → Nat)
    (h : ∀ n m, b.Feeds n m → level n < level m ∧ level m ≤ depth) : b.DepthAtMost depth := by
  intro path chain
  cases path with
  | nil => exact Nat.zero_le _
  | cons n rest =>
    have room : rest = [] ∨ level n + rest.length ≤ depth := by
      induction rest generalizing n with
      | nil => exact .inl rfl
      | cons m rest ih =>
        obtain ⟨feeds, chain⟩ := List.isChain_cons_cons.mp chain
        obtain ⟨lt, le⟩ := h n m feeds
        right
        rcases ih m chain with rfl | le' <;> simp only [List.length_cons, List.length_nil] <;> omega
    rcases room with rfl | le <;> simp only [List.length_cons, List.length_nil] <;> omega

namespace Combinational

variable (hb : b.Combinational)

include hb

theorem get_next_advance (st : State) (n : Nat) :
    (b.advance st).next.get n =
      (b.updateAll.steps.filterMap (Drive.write? st.val.get n)).getLast?.getD (st.next.get n) := by
  rw [next_advance hb.updates hb.walks]
  apply Drive.get_next_foldl_run
  intro d hd latch
  obtain ⟨x, hx⟩ := hb.assigns d hd
  simp [hx.isLatch] at latch

theorem next_driven {d : Drive} (hd : d ∈ b.updateAll.steps) {x : Word Nat} (hx : d.Assigns x)
    (st : State) :
    (b.advance st).next.get d.target.net = Width.truncate d.target.width (x.eval st.val.get) := by
  rw [hb.get_next_advance]
  have only : ∀ y ∈ b.updateAll.steps.filterMap (Drive.write? st.val.get d.target.net),
      y = Width.truncate d.target.width (x.eval st.val.get) := by
    intro y hy
    obtain ⟨d', hd', write⟩ := List.mem_filterMap.mp hy
    have target := Drive.target_of_write? (Option.isSome_of_eq_some write)
    obtain rfl := hb.single d' hd' d hd target
    rw [hx.write?_eq, if_pos rfl] at write
    exact (Option.some.inj write).symm
  have written : Width.truncate d.target.width (x.eval st.val.get) ∈
      b.updateAll.steps.filterMap (Drive.write? st.val.get d.target.net) :=
    List.mem_filterMap.mpr ⟨d, hd, by rw [hx.write?_eq, if_pos rfl]⟩
  cases last : (b.updateAll.steps.filterMap (Drive.write? st.val.get d.target.net)).getLast? with
  | none =>
    rw [List.getLast?_eq_none_iff.mp last] at written
    cases written
  | some y => exact only y (List.mem_of_getLast? last)

theorem next_undriven {n : Nat} (h : ¬ b.Driven n) (st : State) :
    (b.advance st).next.get n = st.next.get n := by
  have none : b.updateAll.steps.filterMap (Drive.write? st.val.get n) = [] := by
    rw [List.filterMap_eq_nil_iff]
    intro d hd
    cases write : d.write? st.val.get n with
    | none => rfl
    | some y => exact absurd ⟨d, hd, Drive.target_of_write? (Option.isSome_of_eq_some write)⟩ h
  rw [hb.get_next_advance, none]
  rfl

theorem next_iterate_undriven {n : Nat} (h : ¬ b.Driven n) (i : Nat) (st : State) :
    (b.advance^[i] st).next.get n = st.next.get n := by
  induction i with
  | zero => rfl
  | succ i ih => rw [Function.iterate_succ_apply', hb.next_undriven h, ih]

theorem val_iterate_outside {n : Nat} (h : n ∉ b.nets) (i : Nat) (st : State) :
    (b.advance^[i] st).val.get n = st.val.get n := by
  induction i with
  | zero => rfl
  | succ i ih =>
    rw [Function.iterate_succ_apply', get_val_advance hb.updates hb.walks, if_neg h, ih]

theorem stable {k n : Nat} (level : b.AtLevel k n) (i : Nat) (hi : k < i) :
    (b.advance^[i + 1] st).val.get n = (b.advance^[i] st).val.get n := by
  refine AtLevel.induct
    (motive := fun k n => ∀ i, k < i →
      (b.advance^[i + 1] st).val.get n = (b.advance^[i] st).val.get n) ?_ level i hi
  clear level hi i k n
  intro k n sources i hi
  obtain ⟨i, rfl⟩ : ∃ j, i = j + 1 := ⟨i - 1, by omega⟩
  by_cases inside : n ∈ b.nets
  · rw [Function.iterate_succ_apply', get_val_advance hb.updates hb.walks, if_pos inside,
      Function.iterate_succ_apply', get_val_advance hb.updates hb.walks (b.advance^[i] st),
      if_pos inside]
    by_cases driven : b.Driven n
    · obtain ⟨d, hd, rfl⟩ := driven
      obtain ⟨x, hx⟩ := hb.assigns d hd
      rw [hb.next_driven hd hx, hb.next_driven hd hx]
      congr 1
      apply Word.eval_congr
      intro m hm
      obtain ⟨j, rfl, settled⟩ := sources m ⟨d, hd, x, hx, hm, rfl⟩
      rw [← Function.iterate_succ_apply' b.advance]
      exact settled i (by omega)
    · exact hb.next_undriven driven _
  · rw [Function.iterate_succ_apply', get_val_advance hb.updates hb.walks, if_neg inside]

theorem solution_unique {depth : Nat} (hdepth : b.DepthAtMost depth) {v w : Nat → UInt64}
    (hv : b.Solves st v) (hw : b.Solves st w) : v = w := by
  funext n
  refine AtLevel.induct (motive := fun _ n => v n = w n) ?_ (hdepth.atLevel n)
  intro k n sources
  by_cases inside : n ∈ b.nets
  · by_cases driven : b.Driven n
    · obtain ⟨d, hd, rfl⟩ := driven
      obtain ⟨x, hx⟩ := hb.assigns d hd
      rw [hv.driven d hd x hx inside, hw.driven d hd x hx inside]
      congr 1
      apply Word.eval_congr
      intro m hm
      obtain ⟨j, -, same⟩ := sources m ⟨d, hd, x, hx, hm, rfl⟩
      exact same
    · rw [hv.undriven n inside driven, hw.undriven n inside driven]
  · rw [hv.outside n inside, hw.outside n inside]

theorem solves_of_quiet (i : Nat) (quiet : (b.step (b.advance^[i] st)).2 = .ok 0) :
    b.Solves st (b.advance^[i + 1] st).val.get := by
  have same : (b.advance^[i + 1] st).val.get = (b.advance^[i] st).val.get := by
    funext n
    rw [Function.iterate_succ_apply']
    exact (step_eq_zero_iff hb.updates hb.walks).mp quiet n
  constructor
  · intro d hd x hx inside
    rw [same, ← hb.next_driven hd hx, ← same, Function.iterate_succ_apply',
      get_val_advance hb.updates hb.walks, if_pos inside]
  · intro n inside driven
    rw [Function.iterate_succ_apply', get_val_advance hb.updates hb.walks, if_pos inside,
      hb.next_undriven driven, hb.next_iterate_undriven driven]
  · intro n outside
    exact hb.val_iterate_outside outside (i + 1) st

end Combinational

theorem settleWithin_of_quiet (updates : b.updateAll.fault = none)
    (walks : (b.walk "").fault = none) {n i : Nat} (hi : i < n)
    (quiet : (b.step (b.advance^[i] st)).2 = .ok 0) :
    ∃ j, b.settleWithin n st = (b.advance^[j + 1] st, .settled) ∧
      (b.step (b.advance^[j] st)).2 = .ok 0 := by
  classical
  have ends : ∃ i, (b.step (b.advance^[i] st)).2 = .ok 0 := ⟨i, quiet⟩
  have first := Nat.find_spec ends
  refine ⟨Nat.find ends, ?_, first⟩
  rw [settleWithin_eq_settled_iff]
  refine ⟨Nat.find ends, lt_of_le_of_lt (Nat.find_min' ends quiet) hi, ?_, ?_⟩
  · intro j hj
    have moved := Nat.find_min ends hj
    rw [step_eq updates walks] at moved
    cases count : (b.nets.foldl State.commitNet (b.updated (b.advance^[j] st), 0)).2 with
    | zero => exact absurd (by simp [count]) moved
    | succ k => exact ⟨k, by rw [step_eq updates walks]; simp [count]⟩
  · rw [Function.iterate_succ_apply']
    exact Prod.ext rfl first

theorem Combinational.settles (hb : b.Combinational) {depth : Nat} (hdepth : b.DepthAtMost depth)
    {limit : Int} (hlimit : (depth : Int) + 2 ≤ limit) (st : State) :
    ∃ final, b.settle limit st = (final, none) ∧ b.Solves st final.val.get := by
  have quiet : (b.step (b.advance^[depth + 1] st)).2 = .ok 0 := by
    rw [step_eq_zero_iff hb.updates hb.walks]
    intro n
    rw [← Function.iterate_succ_apply' b.advance]
    exact hb.stable (hdepth.atLevel n) (depth + 1) (by omega)
  have within : depth + 1 < stepLimit limit := by
    rw [stepLimit, if_neg (by omega)]
    omega
  obtain ⟨j, settled, last⟩ := settleWithin_of_quiet hb.updates hb.walks within quiet
  exact ⟨_, (settle_eq_none_iff limit).mpr settled, hb.solves_of_quiet j last⟩

/-- An acyclic circuit of assignments settles, within two steps more than its depth, to the one
solution of its assignments, which does not depend on the values that the driven nets had before. -/
theorem settle_solves (b : Block) (depth : Nat) (limit : Int) (st : State) (hb : b.Combinational)
    (hdepth : b.DepthAtMost depth) (hlimit : (depth : Int) + 2 ≤ limit) :
    ∃ final, b.settle limit st = (final, none) ∧ b.Solves st final.val.get ∧
      (∀ v, b.Solves st v → v = final.val.get) ∧
      ∀ st', (∀ n ∈ b.nets, ¬ b.Driven n → st'.next.get n = st.next.get n) →
        (∀ n ∉ b.nets, st'.val.get n = st.val.get n) →
        ∃ final', b.settle limit st' = (final', none) ∧ final'.val.get = final.val.get := by
  obtain ⟨final, settled, solves⟩ := hb.settles hdepth hlimit st
  refine ⟨final, settled, solves, fun v hv => hb.solution_unique hdepth hv solves, ?_⟩
  intro st' next val
  obtain ⟨final', settled', solves'⟩ := hb.settles hdepth hlimit st'
  refine ⟨final', settled', hb.solution_unique hdepth ?_ solves⟩
  constructor
  · exact solves'.driven
  · intro n inside undriven
    rw [solves'.undriven n inside undriven, next n inside undriven]
  · intro n outside
    rw [solves'.outside n outside, val n outside]

def adderChain : Block :=
  let word (net : Nat) (width : Int) : Signal := { net, kind := .inner, width, type := .bits width }
  let sum : Block :=
    .named { typeName := "Sum", boundary := .group,
             update := .ofList [.put (word 1 3) (.add (.var 0) (.lit 9))] }
      [("s", .signal (word 1 3))]
  .named { typeName := "Top", boundary := .scope,
           update := .ofList [.flag (word 2 1) (.eq (.var 1) (.lit 3))] }
    [("a", .signal (word 0 4)), ("sum", sum), ("again", sum), ("z", .signal (word 2 1))]

theorem mem_adderChain {d : Drive} (h : d ∈ adderChain.updateAll.steps) :
    d = .flag { net := 2, kind := .inner, width := 1, type := .bits 1 } (.eq (.var 1) (.lit 3)) ∨
      d = .put { net := 1, kind := .inner, width := 3, type := .bits 3 }
        (.add (.var 0) (.lit 9)) := by
  rcases h with _ | ⟨_, _ | ⟨_, _ | ⟨_, ⟨⟩⟩⟩⟩
  · exact .inl rfl
  · exact .inr rfl
  · exact .inr rfl

theorem adderChain_combinational : adderChain.Combinational where
  updates := rfl
  walks := rfl
  assigns := by
    intro d hd
    rcases mem_adderChain hd with rfl | rfl
    · exact ⟨_, .flag _ _ (by decide)⟩
    · exact ⟨_, .put _ _⟩
  single := by
    intro d hd d' hd' same
    rcases mem_adderChain hd with rfl | rfl
    · rcases mem_adderChain hd' with rfl | rfl
      · rfl
      · cases same
    · rcases mem_adderChain hd' with rfl | rfl
      · cases same
      · rfl

theorem settle_solves_adderChain :
    let st : State :=
      { val := (({} : Store UInt64).set 1 5).set 2 1, next := ({} : Store UInt64).set 0 10 }
    adderChain.Combinational ∧ adderChain.DepthAtMost 2 ∧
      ∃ final, adderChain.settle 4 st = (final, none) ∧ final.val.get 0 = 10 ∧
        final.val.get 1 = 3 ∧ final.val.get 2 = 1 := by
  intro st
  have depth : adderChain.DepthAtMost 2 := by
    refine depthAtMost_of_levels id ?_
    rintro n m ⟨d, hd, x, hx, hn, rfl⟩
    rcases mem_adderChain hd with rfl | rfl <;> cases hx <;> simp_all [Word.reads, Drive.target]
  obtain ⟨final, settled, solves, -, -⟩ :=
    settle_solves adderChain 2 4 st adderChain_combinational depth (by decide)
  have a : final.val.get 0 = 10 := by
    refine solves.undriven 0 (by decide) ?_
    rintro ⟨d, hd, same⟩
    rcases mem_adderChain hd with rfl | rfl <;> cases same
  have s : final.val.get 1 = 3 := by
    have := solves.driven _ (.tail _ (.head _)) _ (.put _ _) (by decide)
    simp only [Word.eval, a] at this
    exact this
  have z : final.val.get 2 = 1 := by
    have := solves.driven _ (.head _) _ (.flag _ _ (by decide)) (by decide)
    simp only [Word.eval, s] at this
    exact this
  exact ⟨adderChain_combinational, depth, final, settled, a, s, z⟩

end Block

end Circuitry
