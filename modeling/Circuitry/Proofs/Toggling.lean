import Circuitry.Proofs.Latching
import Mathlib.Algebra.GroupWithZero.Nat

namespace Circuitry

namespace Blinker

def cycle (x : Blinker) (tick : Bool) : List (List (Signal × UInt64)) :=
  [[(x.tick, tick.toUInt64)], [(x.clock, 1)], [(x.clock, 0)]]

/-- The loop is at rest in a state, and the register has seen the level that the clock leaves for
another. The tick is about to be at its level. -/
structure Poised (x : Blinker) (old new tick on : Bool) (st : State) : Prop where
  clock : st.val.get x.clock.net = old.toUInt64
  turned : st.next.get x.clock.net = new.toUInt64
  copied : st.val.get x.register.clock.net = old.toUInt64
  seen : st.clock.get x.register.cell = old
  ticks : st.next.get x.tick.net = tick.toUInt64
  held : st.val.get x.register.q.net = on.toUInt64
  holds : st.next.get x.register.q.net = on.toUInt64
  state : st.val.get x.state.net = on.toUInt64
  led : st.val.get x.led.net = on.toUInt64

def toggled (old new tick on : Bool) : Bool := if old = false ∧ new = true then on ^^ tick else on

def depth : Nat → Nat
  | 0 => 4
  | 3 | 5 => 5
  | 4 => 2
  | 6 => 3
  | _ => 1

theorem depth_bounds (n : Nat) : 0 < depth n ∧ depth n ≤ 5 := by
  unfold depth
  split <;> decide

section Step

variable {net cell : Nat} {x : Blinker} (hx : x = placed net cell) {old new tick on : Bool}
  {st : State}

include hx

theorem wave_input {s : Signal} (hs : s ∈ [x.clock, x.tick]) (i : Nat) :
    x.block.wave st s.net (i + 1) = st.next.get s.net := by
  have hb : x.block.Synchronous := hx ▸ synchronous net cell
  have place : s.net ∈ [net + 1, net + 2] ∧ s.net ∈ x.block.nets := by
    subst hx
    simp only [List.mem_cons, List.not_mem_nil, or_false] at hs
    rcases hs with rfl | rfl
    · exact ⟨.head _, .head _⟩
    · exact ⟨.tail _ (.head _), .tail _ (.head _)⟩
  apply hb.wave_undriven place.2
  intro d hd
  have targets : d.target.net ∈ [net + 4, net, net + 3, net + 5, net + 6] := by
    subst hx
    exact List.mem_map_of_mem (f := (·.target.net)) hd
  have inputs := place.1
  simp only [List.mem_cons, List.not_mem_nil, or_false] at inputs targets
  omega

theorem Poised.wave_tick (h : Poised x old new tick on st) (i : Nat) :
    x.block.wave st x.tick.net (i + 1) = tick.toUInt64 := by
  rw [wave_input hx (.tail _ (.head _)), h.ticks]

theorem Poised.turn (h : Poised x old new tick on st) :
    Turn (x.block.wave st x.clock.net) 1 old new := by
  intro i
  cases i with
  | zero => exact h.clock
  | succ i => rw [wave_input hx (.head _), h.turned, if_neg (by omega)]

theorem Poised.turn_register (h : Poised x old new tick on st) :
    Turn (x.block.wave st x.register.clock.net) 2 old new := by
  have hb : x.block.Synchronous := hx ▸ synchronous net cell
  have bit : x.register.clock.width = 1 := by rw [hx]; rfl
  refine (h.turn hx).copied h.copied fun i => ?_
  rw [hb.wave_put (List.mem_of_getElem? (i := 0) rfl), bit]
  rfl

theorem wave_state (i : Nat) :
    x.block.wave st x.state.net (i + 1) = Width.truncate 1 (x.block.wave st x.register.q.net i) := by
  have hb : x.block.Synchronous := hx ▸ synchronous net cell
  have bit : x.state.width = 1 := by rw [hx]; rfl
  rw [hb.wave_put (List.mem_of_getElem? (i := 1) rfl), bit]
  rfl

theorem wave_led (i : Nat) :
    x.block.wave st x.led.net (i + 1) = (x.block.wave st x.state.net i != 0).toUInt64 := by
  have hb : x.block.Synchronous := hx ▸ synchronous net cell
  have bit : x.led.width = 1 := by rw [hx]; rfl
  exact hb.wave_flag (List.mem_of_getElem? (i := 2) rfl) bit i

theorem Poised.wave_q (h : Poised x old new tick on st) (i : Nat) :
    x.block.wave st x.register.q.net i =
      (if 2 < i then toggled old new tick on else on).toUInt64 := by
  have hb : x.block.Synchronous := hx ▸ synchronous net cell
  have held := hb.wave_turned (List.mem_of_getElem? (i := 4) rfl) (h.turn_register hx) h.seen
    (h.held.trans h.holds.symm)
  have start : st.val.get x.register.q.net = on.toUInt64 := h.held
  have state : x.block.wave st x.state.net 1 = on.toUInt64 := by
    rw [wave_state hx, held, if_neg (by omega), start, Width.truncate_one_toUInt64]
  have data : x.block.wave st x.register.d.net 2 = (on ^^ tick).toUInt64 := by
    have bit : x.register.d.width = 1 := by rw [hx]; rfl
    rw [hb.wave_put (List.mem_of_getElem? (i := 3) rfl), nextState, bit]
    simp only [Word.eval, h.wave_tick hx, state, toUInt64_eq_zero_iff]
    clear h held start state
    revert tick on
    decide
  have bit : x.register.q.width = 1 := by rw [hx]; rfl
  rw [held, data, start, bit, Width.truncate_one_toUInt64, toggled]
  by_cases rises : old = false ∧ new = true <;> by_cases later : 2 < i <;> simp [rises, later]

theorem Poised.steady (h : Poised x old new tick on st) (n : Nat) : x.block.Steady st 5 n := by
  have hb : x.block.Synchronous := hx ▸ synchronous net cell
  have register : x.block.Steady st 3 x.register.q.net := by
    intro i hi
    simp [h.wave_q hx, show 2 < i by omega, show 2 < i + 1 by omega]
  refine (hb.steady_of_levels (fun n => depth (n - net)) (fun n => (depth_bounds _).1) ?_ ?_ n).mono
    (depth_bounds _).2
  · have feeds : x.block.updateAll.steps.flatMap Drive.feeds =
        [(net + 1, net + 4), (net + 6, net + 0), (net + 0, net + 3), (net + 2, net + 5),
          (net + 0, net + 5), (net + 0, net + 5)] := by
      subst hx
      rfl
    rw [feeds]
    simp only [List.forall_mem_cons, Nat.add_sub_cancel_left]
    exact ⟨by decide, by decide, by decide, by decide, by decide, by decide, List.forall_mem_nil _⟩
  · have registers : x.block.updateAll.steps.filter (!·.assigns) =
        [.latch x.register.cell x.register.clock x.register.d x.register.q] := by
      subst hx
      rfl
    have level : depth (x.register.q.net - net) = 3 := by
      have offset : x.register.q.net - net = 6 := by
        rw [hx]
        exact Nat.add_sub_cancel_left net 6
      rw [offset]
      rfl
    rw [registers, List.forall_mem_singleton]
    exact level ▸ register

variable {limit : Int} (ample : 5 < stepLimit limit)

include ample

theorem Poised.settles (h : Poised x old new tick on st) :
    ∃ st', x.block.settle limit st = (st', none) ∧
      Poised x new new tick (toggled old new tick on) st' := by
  have hb : x.block.Synchronous := hx ▸ synchronous net cell
  have latch : .latch x.register.cell x.register.clock x.register.d x.register.q ∈
      x.block.updateAll.steps := List.mem_of_getElem? (i := 4) rfl
  have wave (i : Nat) (hi : 2 < i) :
      x.block.wave st x.register.q.net i = (toggled old new tick on).toUInt64 := by
    rw [h.wave_q hx, if_pos hi]
  have state (i : Nat) (hi : 2 < i) :
      x.block.wave st x.state.net (i + 1) = (toggled old new tick on).toUInt64 := by
    rw [wave_state hx, wave i hi, Width.truncate_one_toUInt64]
  refine ⟨_, hb.settle_of_steady ample (h.steady hx), ?_⟩
  constructor
  · exact (h.turn hx).after (by decide)
  · exact (hb.wave_eq_next (.head _) 5).symm.trans ((h.turn hx).after (by decide))
  · exact (h.turn_register hx).after (by decide)
  · exact (hb.clock_turned latch (h.turn_register hx) h.seen 6).trans (if_neg (by decide))
  · exact (hb.wave_eq_next (.tail _ (.head _)) 5).symm.trans (h.wave_tick hx 5)
  · exact wave 6 (by decide)
  · exact (hb.wave_eq_next (hb.held _ latch) 5).symm.trans (wave 6 (by decide))
  · exact state 5 (by decide)
  · refine (wave_led hx 5).trans ?_
    rw [state 4 (by decide)]
    cases toggled old new tick on <;> rfl

omit ample in
theorem Poised.set_clock (h : Poised x old new tick on st) (level : Bool) :
    Poised x old level tick on (st.setAll [(x.clock, level.toUInt64)]) where
  clock := h.clock
  turned := by
    rw [hx]
    simp [State.setAll, placed, Signal.placed]
  copied := h.copied
  seen := h.seen
  ticks := by
    rw [← h.ticks, hx]
    simp [State.setAll, placed, Signal.placed]
  held := h.held
  holds := by
    rw [← h.holds, hx]
    simp [State.setAll, placed, FlipFlop.placed, Signal.placed]
  state := h.state
  led := h.led

omit ample in
theorem Poised.set_tick (h : Poised x old new tick on st) (level : Bool) :
    Poised x old new level on (st.setAll [(x.tick, level.toUInt64)]) where
  clock := h.clock
  turned := by
    rw [← h.turned, hx]
    simp [State.setAll, placed, Signal.placed]
  copied := h.copied
  seen := h.seen
  ticks := by
    rw [hx]
    simp [State.setAll, placed, Signal.placed]
  held := h.held
  holds := by
    rw [← h.holds, hx]
    simp [State.setAll, placed, FlipFlop.placed, Signal.placed]
  state := h.state
  led := h.led

theorem Poised.cycle {before : Bool} (h : Poised x false false before on st) (tick : Bool) :
    ∃ st', x.block.play limit (x.cycle tick) st = (st', none) ∧
      Poised x false false tick (on ^^ tick) st' := by
  obtain ⟨ready, settled, poised⟩ := (h.set_tick hx tick).settles hx ample
  obtain ⟨high, settled', poised'⟩ := (poised.set_clock hx true).settles hx ample
  obtain ⟨low, settled'', poised''⟩ := (poised'.set_clock hx false).settles hx ample
  refine ⟨low, ?_, poised''⟩
  rw [Blinker.cycle, Block.play_cons settled]
  exact (Block.play_cons settled').trans (Block.play_cons settled'')

theorem Poised.cycles (ticks : List Bool) {before : Bool} (h : Poised x false false before on st) :
    ∃ st' last, x.block.play limit (ticks.flatMap x.cycle) st = (st', none) ∧
      Poised x false false last (ticks.foldl xor on) st' := by
  induction ticks generalizing before on st with
  | nil => exact ⟨st, before, rfl, h⟩
  | cons tick ticks ih =>
    obtain ⟨mid, played, poised⟩ := h.cycle hx ample tick
    obtain ⟨st', last, rest, poised'⟩ := ih poised
    refine ⟨st', last, ?_, poised'⟩
    rw [List.flatMap_cons, Block.play_append played, rest]

end Step

theorem poised_start (net cell : Nat) : Poised (placed net cell) false false false false {} := by
  constructor <;> exact Store.get_empty _

theorem toNat_foldl_xor (ticks : List Bool) (on : Bool) :
    (ticks.foldl xor on).toNat = (on.toNat + (ticks.map Bool.toNat).sum) % 2 := by
  induction ticks generalizing on with
  | nil => cases on <;> rfl
  | cons tick ticks ih =>
    have toggle : (on ^^ tick).toNat = (on.toNat + tick.toNat) % 2 := by
      cases on <;> cases tick <;> rfl
    rw [List.foldl_cons, ih, toggle, Nat.mod_add_mod, List.map_cons, List.sum_cons, Nat.add_assoc]

/-- A new blinker settles throughout any number of cycles. Its state and its led then say whether the
number of cycles with a tick is odd. -/
theorem follows_ticks (limit : Int) (ample : 5 < stepLimit limit) (ticks : List Bool) (s : Supply) :
    ∃ x s', make s = .ok (x, s') ∧
      ∃ st, x.block.play limit (ticks.flatMap x.cycle) {} = (st, none) ∧
        (st.val.get x.led.net).toNat = (ticks.map Bool.toNat).sum % 2 ∧
        st.val.get x.state.net = st.val.get x.led.net := by
  obtain ⟨st, last, played, poised⟩ :=
    (poised_start s.nets s.cells).cycles rfl ample ticks
  refine ⟨_, _, make_eq s, st, played, ?_, poised.state.trans poised.led.symm⟩
  have bit (level : Bool) : level.toUInt64.toNat = level.toNat := by cases level <;> rfl
  rw [poised.led, bit, toNat_foldl_xor, Bool.toNat_false, Nat.zero_add]

theorem follows_ticks_default :
    5 < stepLimit 0 ∧
      ∃ x s', make {} = .ok (x, s') ∧
        ∃ st, x.block.play 0 ([true, false, true, true].flatMap x.cycle) {} = (st, none) ∧
          (st.val.get x.led.net).toNat = 1 ∧ st.val.get x.state.net = st.val.get x.led.net :=
  ⟨by decide, follows_ticks 0 (by decide) [true, false, true, true] {}⟩

end Blinker

end Circuitry
