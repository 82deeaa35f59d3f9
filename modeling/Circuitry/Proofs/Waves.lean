import Circuitry.Proofs.Synchronous

/-!
How the values of a circuit run through its steps. A clock edge moves down a line of wires by one wire
a step, a register takes its input over in the step at which the edge arrives, and a net is steady from
the step after the nets that it depends on.
-/

namespace Circuitry

namespace Width

@[simp] theorem truncate_one_toUInt64 (level : Bool) :
    truncate 1 level.toUInt64 = level.toUInt64 := by
  cases level <;> rfl

end Width

theorem toUInt64_eq_zero_iff {level : Bool} : level.toUInt64 = 0 ↔ level = false := by
  cases level <;> decide

/-- The wave leaves one level for another at step `t`, or keeps it if they are the same. -/
def Turn (f : Nat → UInt64) (t : Nat) (old new : Bool) : Prop :=
  ∀ i, f i = (if i < t then old else new).toUInt64

namespace Turn

variable {f g : Nat → UInt64} {t : Nat} {old new : Bool}

theorem after (h : Turn f t old new) {i : Nat} (hi : t ≤ i) : f i = new.toUInt64 := by
  rw [h i, if_neg (by omega)]

theorem copied (h : Turn f t old new) (start : g 0 = old.toUInt64)
    (step : ∀ i, g (i + 1) = Width.truncate 1 (f i)) : Turn g (t + 1) old new := by
  intro i
  cases i with
  | zero => rw [start, if_pos (Nat.succ_pos t)]
  | succ i => simp only [step, h i, Width.truncate_one_toUInt64, Nat.succ_lt_succ_iff]

end Turn

/-- The wave leaves the opposite level for the given one at step `t`, and keeps it. -/
def Edge (f : Nat → UInt64) (t : Nat) (level : Bool) : Prop :=
  ∀ i, f i = (if i < t then !level else level).toUInt64

namespace Edge

variable {f g : Nat → UInt64} {t : Nat} {level : Bool}

theorem turn (h : Edge f t level) : Turn f t (!level) level := h

theorem after (h : Edge f t level) {i : Nat} (hi : t ≤ i) : f i = level.toUInt64 :=
  h.turn.after hi

theorem before (h : Edge f t level) {i : Nat} (hi : i < t) : f i = (!level).toUInt64 := by
  rw [h i, if_pos hi]

theorem copied (h : Edge f t level) (start : g 0 = (!level).toUInt64)
    (step : ∀ i, g (i + 1) = Width.truncate 1 (f i)) : Edge g (t + 1) level :=
  h.turn.copied start step

end Edge

namespace Drive

def feeds : Drive → List (Nat × Nat)
  | .put t x | .flag t x => x.reads.map (·, t.net)
  | .putIf .. | .latch .. => []

def assigns : Drive → Bool
  | .put .. => true
  | .flag t _ => 0 < t.width
  | .putIf .. | .latch .. => false

theorem exists_assigns {d : Drive} (h : d.assigns = true) : ∃ x, d.Assigns x := by
  cases d with
  | put t x => exact ⟨x, .put t x⟩
  | flag t x => exact ⟨_, .flag t x (of_decide_eq_true h)⟩
  | _ => cases h

theorem Assigns.mem_feeds {d : Drive} {x : Word Nat} (h : d.Assigns x) {n : Nat}
    (hn : n ∈ x.reads) : (n, d.target.net) ∈ d.feeds := by
  cases h with
  | put t x => exact List.mem_map_of_mem hn
  | flag t x width =>
    simp only [Word.reads, List.append_nil] at hn
    exact List.mem_map_of_mem hn

end Drive

namespace Block

/-- The value of a net after each number of steps. -/
def wave (b : Block) (st : State) (n i : Nat) : UInt64 := (b.advance^[i] st).val.get n

/-- From step `t` on, no step changes the net. -/
def Steady (b : Block) (st : State) (t n : Nat) : Prop :=
  ∀ i, t ≤ i → b.wave st n (i + 1) = b.wave st n i

theorem Steady.mono {b : Block} {st : State} {t u n : Nat} (h : b.Steady st t n) (htu : t ≤ u) :
    b.Steady st u n :=
  fun i hi => h i (Nat.le_trans htu hi)

namespace Synchronous

variable {b : Block} (hb : b.Synchronous) {st : State}

include hb

theorem wave_succ {d : Drive} {x : Word Nat} (hd : d ∈ b.updateAll.steps) (hx : d.Assigns x)
    (i : Nat) :
    b.wave st d.target.net (i + 1) =
      Width.truncate d.target.width (x.eval fun n => b.wave st n i) := by
  rw [wave, Function.iterate_succ_apply', hb.val_advance_assigns hd hx]
  rfl

theorem wave_put {s : Signal} {x : Word Nat} (hd : .put s x ∈ b.updateAll.steps) (i : Nat) :
    b.wave st s.net (i + 1) = Width.truncate s.width (x.eval fun n => b.wave st n i) :=
  hb.wave_succ hd (.put s x) i

theorem wave_flag {s : Signal} {x : Word Nat} (hd : .flag s x ∈ b.updateAll.steps)
    (width : s.width = 1) (i : Nat) :
    b.wave st s.net (i + 1) = (x.eval (fun n => b.wave st n i) != 0).toUInt64 := by
  have assigned := @wave_succ b hb st _ _ hd (.flag s x (by omega)) i
  refine assigned.trans ?_
  rw [Drive.target, width, Word.eval]
  by_cases zero : x.eval (fun n => b.wave st n i) = 0
  · rw [if_pos zero, zero]
    exact Width.truncate_one_toUInt64 false
  · rw [if_neg zero, bne_iff_ne.mpr zero]
    exact Width.truncate_one_toUInt64 true

theorem wave_eq_next {n : Nat} (hn : n ∈ b.nets) (i : Nat) :
    b.wave st n (i + 1) = (b.advance^[i + 1] st).next.get n := by
  rw [wave, Function.iterate_succ_apply', hb.val_advance_mem hn]

theorem next_iterate_undriven {n : Nat} (h : ∀ d ∈ b.updateAll.steps, d.target.net ≠ n) (i : Nat) :
    (b.advance^[i] st).next.get n = st.next.get n := by
  induction i with
  | zero => rfl
  | succ i ih => rw [Function.iterate_succ_apply', hb.next_advance_undriven h, ih]

theorem wave_undriven {n : Nat} (hn : n ∈ b.nets)
    (h : ∀ d ∈ b.updateAll.steps, d.target.net ≠ n) (i : Nat) :
    b.wave st n (i + 1) = st.next.get n := by
  rw [hb.wave_eq_next hn, hb.next_iterate_undriven h]

section Register

variable {cell t : Nat} {clock d q : Signal} (hd : .latch cell clock d q ∈ b.updateAll.steps)

include hd

section Turn

variable {old new : Bool} (turn : Turn (b.wave st clock.net) t old new)
  (seen : st.clock.get cell = old)

include turn seen

theorem clock_turned (i : Nat) :
    (b.advance^[i] st).clock.get cell = if i < t + 1 then old else new := by
  cases i with
  | zero => rw [if_pos (Nat.succ_pos t)]; exact seen
  | succ i =>
    have saw := hb.clock_advance_latch hd (b.advance^[i] st)
    rw [Function.iterate_succ_apply', saw, show (b.advance^[i] st).val.get clock.net = _ from turn i]
    simp only [Nat.succ_lt_succ_iff]
    split
    · cases old <;> rfl
    · cases new <;> rfl

theorem next_turned (i : Nat) :
    (b.advance^[i] st).next.get q.net =
      if (old = false ∧ new = true) ∧ t < i then Width.truncate q.width (b.wave st d.net t)
      else st.next.get q.net := by
  induction i with
  | zero => simp
  | succ i ih =>
    have rises : ((b.advance^[i] st).val.get clock.net ≠ 0 ∧
        (b.advance^[i] st).clock.get cell = false) ↔ (old = false ∧ new = true) ∧ i = t := by
      rw [show (b.advance^[i] st).val.get clock.net = _ from turn i,
        hb.clock_turned hd turn seen i, Ne, toUInt64_eq_zero_iff]
      rcases Nat.lt_trichotomy i t with h | h | h
      · simp [h, Nat.lt_succ_of_lt h, h.ne]
      · simp [h, and_comm]
      · simp [h.not_gt, h.ne', show ¬ i < t + 1 by omega]
    rw [Function.iterate_succ_apply', hb.next_advance_latch hd, if_congr rises rfl rfl, ih]
    by_cases now : (old = false ∧ new = true) ∧ i = t
    · obtain ⟨up, rfl⟩ := now
      simp [up, wave]
    · rw [if_neg now]
      refine if_congr ⟨fun h => ⟨h.1, by omega⟩, fun h => ⟨h.1, ?_⟩⟩ rfl rfl
      have : i ≠ t := fun same => now ⟨h.1, same⟩
      omega

theorem wave_turned (whole : st.val.get q.net = st.next.get q.net) (i : Nat) :
    b.wave st q.net i =
      if (old = false ∧ new = true) ∧ t < i then Width.truncate q.width (b.wave st d.net t)
      else st.val.get q.net := by
  cases i with
  | zero => simp [wave]
  | succ i =>
    have inside : q.net ∈ b.nets := hb.held _ hd
    rw [whole, ← hb.next_turned hd turn seen, hb.wave_eq_next inside]

end Turn

section Edge

variable {level : Bool} (edge : Edge (b.wave st clock.net) t level)
  (seen : st.clock.get cell = !level)

include edge seen

theorem clock_register (i : Nat) :
    (b.advance^[i] st).clock.get cell = if i < t + 1 then !level else level :=
  hb.clock_turned hd edge.turn seen i

theorem wave_register (whole : st.val.get q.net = st.next.get q.net) (i : Nat) :
    b.wave st q.net i =
      if level = true ∧ t < i then Width.truncate q.width (b.wave st d.net t) else st.val.get q.net := by
  rw [hb.wave_turned hd edge.turn seen whole]
  simp

end Edge

end Register

theorem steady_of_levels (level : Nat → Nat) (pos : ∀ n, 0 < level n)
    (feeds : ∀ x ∈ b.updateAll.steps.flatMap Drive.feeds, level x.1 < level x.2)
    (held : ∀ d ∈ b.updateAll.steps.filter (!·.assigns),
      b.Steady st (level d.target.net) d.target.net) (n : Nat) : b.Steady st (level n) n := by
  induction hk : level n using Nat.strong_induction_on generalizing n with
  | _ k ih =>
  subst hk
  intro i hi
  have now := pos n
  obtain ⟨i, rfl⟩ : ∃ j, i = j + 1 := ⟨i - 1, by omega⟩
  by_cases inside : n ∈ b.nets
  · by_cases driven : ∃ d ∈ b.updateAll.steps, d.target.net = n
    · obtain ⟨d, hd, rfl⟩ := driven
      by_cases assigned : d.assigns = true
      · obtain ⟨x, hx⟩ := Drive.exists_assigns assigned
        have same : ∀ m ∈ x.reads, b.wave st m (i + 1) = b.wave st m i := by
          intro m hm
          have lt : level m < level d.target.net :=
            feeds _ (List.mem_flatMap.mpr ⟨d, hd, hx.mem_feeds hm⟩)
          exact ih _ lt m rfl i (by omega)
        rw [hb.wave_succ hd hx, hb.wave_succ hd hx, Word.eval_congr x same]
      · exact held d (List.mem_filter.mpr ⟨hd, by simpa using assigned⟩) (i + 1) hi
    · have undriven : ∀ d ∈ b.updateAll.steps, d.target.net ≠ n := by simpa using driven
      rw [hb.wave_undriven inside undriven, hb.wave_undriven inside undriven]
  · rw [wave, Function.iterate_succ_apply', get_val_advance hb.updates hb.walks, if_neg inside, wave]

theorem settle_of_steady {t : Nat} {limit : Int} (ht : t < stepLimit limit)
    (steady : ∀ n, b.Steady st t n) : b.settle limit st = (b.advance^[t + 1] st, none) := by
  apply hb.registersOwned.settle_of_quiet ht
  rw [step_eq_zero_iff hb.updates hb.walks]
  intro n
  rw [← Function.iterate_succ_apply' b.advance t st]
  exact steady n t (Nat.le_refl t)

end Synchronous

end Block

end Circuitry
