import Circuitry.Proofs.Parts
import Circuitry.Proofs.Waves
import Mathlib.Algebra.Group.Nat.Defs

namespace Circuitry

namespace State

def setAll (st : State) (inputs : List (Signal × UInt64)) : State :=
  inputs.foldl (fun st x => st.setNext x.1 x.2) st

variable (st : State) (inputs : List (Signal × UInt64))

@[simp] theorem val_setAll : (st.setAll inputs).val = st.val := by
  induction inputs generalizing st with
  | nil => rfl
  | cons x inputs ih => exact ih (st.setNext x.1 x.2)

@[simp] theorem clock_setAll : (st.setAll inputs).clock = st.clock := by
  induction inputs generalizing st with
  | nil => rfl
  | cons x inputs ih => exact ih (st.setNext x.1 x.2)

@[simp] theorem get_next_setNext (s : Signal) (v : UInt64) (n : Nat) :
    (st.setNext s v).next.get n = if s.net = n then Width.truncate s.width v else st.next.get n :=
  Store.get_set ..

end State

namespace Block

def play (b : Block) (limit : Int) : List (List (Signal × UInt64)) → State → State × Option Failure
  | [], st => (st, none)
  | inputs :: rest, st =>
    match b.settle limit (st.setAll inputs) with
    | (st, none) => b.play limit rest st
    | (st, some e) => (st, some e)

variable {b : Block} {limit : Int} {st mid st' : State}

theorem play_cons {inputs : List (Signal × UInt64)} {rest : List (List (Signal × UInt64))}
    (h : b.settle limit (st.setAll inputs) = (mid, none)) :
    b.play limit (inputs :: rest) st = b.play limit rest mid := by
  rw [play, h]

theorem play_append {xs ys : List (List (Signal × UInt64))}
    (h : b.play limit xs st = (mid, none)) : b.play limit (xs ++ ys) st = b.play limit ys mid := by
  induction xs generalizing st with
  | nil =>
    cases h
    rfl
  | cons inputs xs ih =>
    rw [play] at h
    split at h
    · next next settled =>
      rw [List.cons_append, play_cons settled]
      exact ih h
    · cases h

end Block

namespace FlipFlop

def stimulus (x : FlipFlop) (input : Bool × UInt64) : List (Signal × UInt64) :=
  [(x.clock, input.1.toUInt64), (x.d, input.2)]

def level (inputs : List (Bool × UInt64)) (j : Nat) : Bool := (inputs[j]?.map Prod.fst).getD false

/-- The clock is high in the `j`-th input, and was not high before it. -/
def Rises (inputs : List (Bool × UInt64)) (j : Nat) : Prop :=
  level inputs j = true ∧ (j = 0 ∨ level inputs (j - 1) = false)

instance (inputs : List (Bool × UInt64)) (j : Nat) : Decidable (Rises inputs j) :=
  inferInstanceAs (Decidable (_ ∧ _))

/-- The clock rises in the `j`-th input, and in no later one of the first `i`. -/
def LastRise (inputs : List (Bool × UInt64)) (i j : Nat) : Prop :=
  j < i ∧ Rises inputs j ∧ ∀ k, j < k → k < i → ¬ Rises inputs k

/-- The word is what a register of the width holds after the first `i` inputs. -/
structure Holds (width : Int) (inputs : List (Bool × UInt64)) (i : Nat) (q : UInt64) : Prop where
  latched : ∀ j, LastRise inputs i j → ∀ c d, inputs[j]? = some (c, d) → q = Width.truncate width d
  cleared : (∀ j < i, ¬ Rises inputs j) → q = 0

/-- The register has seen the level at which its clock stands, and holds a word. -/
structure Rests (x : FlipFlop) (level : Bool) (q : UInt64) (st : State) : Prop where
  clock : st.val.get x.clock.net = level.toUInt64
  seen : st.clock.get x.cell = level
  held : st.val.get x.q.net = q
  holds : st.next.get x.q.net = q

section Inputs

variable {width : Int} {inputs : List (Bool × UInt64)} {i : Nat} {q : UInt64}

theorem Holds.start : Holds width inputs 0 0 where
  latched := fun _ last => absurd last.1 (Nat.not_lt_zero _)
  cleared := fun _ => rfl

def before (inputs : List (Bool × UInt64)) (i : Nat) : Bool :=
  if i = 0 then false else level inputs (i - 1)

theorem rises_iff : Rises inputs i ↔ before inputs i = false ∧ level inputs i = true := by
  rw [Rises, before]
  by_cases first : i = 0 <;> simp [first, and_comm]

theorem before_succ {c : Bool} {d : UInt64} (h : inputs[i]? = some (c, d)) :
    before inputs (i + 1) = c := by
  simp [before, level, h]

theorem Holds.next (hq : Holds width inputs i q) {c : Bool} {d : UInt64}
    (h : inputs[i]? = some (c, d)) :
    Holds width inputs (i + 1)
      (if before inputs i = false ∧ c = true then Width.truncate width d else q) := by
  have rises : Rises inputs i ↔ before inputs i = false ∧ c = true := by
    simp [rises_iff, level, h]
  rw [← if_congr rises rfl rfl]
  by_cases now : Rises inputs i
  · rw [if_pos now]
    constructor
    · rintro j ⟨hj, -, last⟩ c' d' h'
      obtain rfl : j = i := by
        by_contra ne
        exact last i (by omega) (Nat.lt_succ_self i) now
      cases h.symm.trans h'
      rfl
    · intro none
      exact absurd now (none i (Nat.lt_succ_self i))
  · rw [if_neg now]
    constructor
    · rintro j ⟨hj, rise, last⟩
      have ne : j ≠ i := fun same => now (same ▸ rise)
      exact hq.latched j ⟨by omega, rise, fun k low high => last k low (Nat.lt_succ_of_lt high)⟩
    · intro none
      exact hq.cleared fun j hj => none j (Nat.lt_succ_of_lt hj)

end Inputs

structure Poised (x : FlipFlop) (old new : Bool) (q d : UInt64) (st : State) : Prop
    extends Rests x old q st where
  turned : st.next.get x.clock.net = new.toUInt64
  given : st.next.get x.d.net = d

section Step

variable {net cell : Nat} {width : Int} {x : FlipFlop} (hx : x = placed net cell width)
  {old new : Bool} {q d : UInt64} {st : State}

include hx

theorem wave_input {s : Signal} (hs : s.net ∈ x.block.nets) (ne : x.q.net ≠ s.net) (i : Nat) :
    x.block.wave st s.net (i + 1) = st.next.get s.net := by
  have hb : x.block.Synchronous := hx ▸ synchronous net cell width
  apply hb.wave_undriven hs
  intro d hd
  obtain rfl := List.mem_singleton.mp hd
  exact ne

theorem Rests.poised (h : Rests x old q st) (new : Bool) (d : UInt64) :
    Poised x old new q (Width.truncate width d) (st.setAll (x.stimulus (new, d))) where
  clock := by rw [State.val_setAll, h.clock]
  seen := by rw [State.clock_setAll, h.seen]
  held := by rw [State.val_setAll, h.held]
  holds := by
    rw [← h.holds, hx]
    simp [State.setAll, stimulus, placed, Signal.placed]
  turned := by
    rw [hx]
    simp [State.setAll, stimulus, placed, Signal.placed]
  given := by
    rw [hx]
    simp [State.setAll, stimulus, placed, Signal.placed]

theorem Poised.turn (h : Poised x old new q d st) : Turn (x.block.wave st x.clock.net) 1 old new := by
  intro i
  cases i with
  | zero => exact h.clock
  | succ i =>
    rw [wave_input hx (.head _) (by rw [hx]; simp [placed, Signal.placed]), h.turned,
      if_neg (by omega)]

theorem Poised.wave_q (h : Poised x old new q d st) (i : Nat) :
    x.block.wave st x.q.net i =
      if (old = false ∧ new = true) ∧ 1 < i then Width.truncate width d else q := by
  have hb : x.block.Synchronous := hx ▸ synchronous net cell width
  have data : x.block.wave st x.d.net 1 = d := by
    rw [wave_input hx (.tail _ (.head _)) (by rw [hx]; simp [placed, Signal.placed]), h.given]
  have start : st.val.get x.q.net = q := h.held
  have wide : x.q.width = width := by rw [hx]; rfl
  rw [hb.wave_turned (.head _) (h.turn hx) h.seen (h.held.trans h.holds.symm), data, start, wide]

theorem Poised.steady (h : Poised x old new q d st) (n : Nat) : x.block.Steady st 2 n := by
  have hb : x.block.Synchronous := hx ▸ synchronous net cell width
  have register : x.block.Steady st 2 x.q.net := by
    intro i hi
    simp [h.wave_q hx, show 1 < i by omega, show 1 < i + 1 by omega]
  refine (hb.steady_of_levels (fun n => if n = x.q.net then 2 else 1) (fun n => ?_) ?_ ?_ n).mono ?_
  · split <;> omega
  · exact List.forall_mem_nil _
  · intro r hr
    obtain rfl := List.mem_singleton.mp (List.mem_of_mem_filter hr)
    simpa [Drive.target] using register
  · split <;> omega

theorem Rests.settles (h : Rests x old q st) (new : Bool) (d : UInt64) :
    ∃ st', x.block.settle 0 (st.setAll (x.stimulus (new, d))) = (st', none) ∧
      Rests x new (if old = false ∧ new = true then Width.truncate width d else q) st' := by
  have hb : x.block.Synchronous := hx ▸ synchronous net cell width
  have poised := h.poised hx new d
  have held : x.block.wave (st.setAll (x.stimulus (new, d))) x.q.net 3 = _ := poised.wave_q hx 3
  simp only [Width.truncate_truncate, show 1 < 3 from by decide, and_true] at held
  refine ⟨_, hb.settle_of_steady (by decide) (poised.steady hx), ?_, ?_, held, ?_⟩
  · exact (poised.turn hx).after (by decide)
  · exact (hb.clock_turned (.head _) (poised.turn hx) poised.seen 3).trans (if_neg (by decide))
  · exact (hb.wave_eq_next (.tail _ (.tail _ (.head _))) 2).symm.trans held

end Step

section Run

variable {net cell : Nat} {width : Int} {inputs : List (Bool × UInt64)}

theorem Rests.plays (i : Nat) (hi : i ≤ inputs.length) :
    ∃ st q, (placed net cell width).block.play 0
        ((inputs.take i).map (placed net cell width).stimulus) {} = (st, none) ∧
      Rests (placed net cell width) (before inputs i) q st ∧ Holds width inputs i q := by
  induction i with
  | zero =>
    refine ⟨{}, 0, rfl, ⟨?_, ?_, ?_, ?_⟩, .start⟩ <;> exact Store.get_empty _
  | succ i ih =>
    obtain ⟨st, q, played, rests, holds⟩ := ih (by omega)
    obtain ⟨⟨c, d⟩, found⟩ : ∃ input, inputs[i]? = some input :=
      ⟨_, List.getElem?_eq_getElem (by omega)⟩
    obtain ⟨st', settled, rests'⟩ := rests.settles rfl c d
    refine ⟨st', _, ?_, before_succ found ▸ rests', holds.next found⟩
    rw [List.take_add_one, List.map_append, Block.play_append played, found]
    simp only [Option.toList_some, List.map_cons, List.map_nil]
    rw [Block.play_cons settled]
    rfl

end Run

/-- A new register settles after each of any number of inputs. After it the register holds the word
that came when the clock last rose, cut off at the width of the register, or zero if the clock never
rose. -/
theorem latches_last_rise (width : Int) (hwidth : 1 ≤ width) (inputs : List (Bool × UInt64))
    (s : Supply) :
    ∃ x s', make width s = .ok (x, s') ∧ ∀ i ≤ inputs.length, ∃ st,
      x.block.play 0 ((inputs.take i).map x.stimulus) {} = (st, none) ∧
        (∀ j, LastRise inputs i j → ∀ c d, inputs[j]? = some (c, d) →
          (st.val.get x.q.net).toNat = d.toNat % 2 ^ (min width 64).toNat) ∧
        ((∀ j < i, ¬ Rises inputs j) → st.val.get x.q.net = 0) := by
  refine ⟨_, _, make_eq hwidth s, fun i hi => ?_⟩
  obtain ⟨st, q, played, rests, holds⟩ :=
    @Rests.plays s.nets s.cells width inputs i hi
  refine ⟨st, played, fun j last c d found => ?_, fun none => ?_⟩
  · rw [rests.held, holds.latched j last c d found, Width.toNat_truncate_min (by omega)]
    rfl
  · rw [rests.held, holds.cleared none]

theorem latches_last_rise_wide :
    let inputs : List (Bool × UInt64) :=
      [(true, 300), (true, 7), (false, 7), (true, 513), (false, 8)]
    1 ≤ (8 : Int) ∧ 4 ≤ inputs.length ∧ LastRise inputs 4 3 ∧
      ∃ x s', make 8 {} = .ok (x, s') ∧
        ∃ st, x.block.play 0 ((inputs.take 4).map x.stimulus) {} = (st, none) ∧
          (st.val.get x.q.net).toNat = 1 := by
  intro inputs
  obtain ⟨x, s', made, runs⟩ := latches_last_rise 8 (by decide) inputs {}
  obtain ⟨st, played, latched, -⟩ := runs 4 (by decide)
  have last : LastRise inputs 4 3 := by
    refine ⟨by decide, by decide, ?_⟩
    intro k low high
    omega
  exact ⟨by decide, by decide, last, x, s', made, st, played, latched 3 last _ _ rfl⟩

end FlipFlop

end Circuitry
