import Circuitry.Proofs.Parts
import Circuitry.Proofs.Waves
import Circuitry.Simulation.Bench
import Mathlib.Algebra.Group.Nat.Defs
import Mathlib.Data.Nat.Bits

/-!
The blinking design divides its clock. An edge of the clock reaches the registers seven steps after the
pin, along two branches of the same length, so both registers take over what was computed before the
edge; four steps later nothing moves any more. A cycle therefore counts one up, and toggles the led
exactly when the count was full.
-/

namespace Circuitry

namespace Blinky

def clockTree (x : Blinky) : List (Signal × Nat) :=
  [(x.clockP, 1), (x.buffer.p, 2), (x.buffer.out, 3), (x.generator.clockIn, 4),
    (x.generator.clockOut, 5), (x.divider.clock, 6), (x.blinker.clock, 6),
    (x.divider.register.clock, 7), (x.blinker.register.clock, 7)]

def pin (x : Blinky) : ClockPin := { pin := x.clockP, complement := some x.clockN }

/-- The clock stands at a level, both registers have seen it, and they hold a count and a state. The
complement of the clock is down when the clock is up; it may be down together with it at the start. -/
structure Stands (x : Blinky) (level : Bool) (q : UInt64) (on : Bool) (st : State) : Prop where
  clock : ∀ e ∈ x.clockTree, st.val.get e.1.net = level.toUInt64
  complement : level = true → st.val.get x.clockN.net = 0
  inverted : level = true → st.val.get x.buffer.n.net = 0
  divider : st.clock.get x.divider.register.cell = level
  blinker : st.clock.get x.blinker.register.cell = level
  count : st.val.get x.divider.register.q.net = q
  counts : st.next.get x.divider.register.q.net = q
  state : st.val.get x.blinker.register.q.net = on.toUInt64
  states : st.next.get x.blinker.register.q.net = on.toUInt64

structure Shows (x : Blinky) (q : UInt64) (on : Bool) (st : State) : Prop where
  locked : st.val.get x.locked.net = 1
  count : st.val.get x.divider.count.net = q
  led : st.val.get x.led.net = on.toUInt64

def levels : List Nat :=
  [1, 1, 11, 2, 2, 2, 3, 4, 5, 1, 6, 2, 9, 7, 9, 8, 9, 6, 10, 10, 7, 11, 8]

def depth (o : Nat) : Nat := levels.getD o 1

theorem depth_bounds (o : Nat) : 0 < depth o ∧ depth o ≤ 11 := by
  have all : ∀ k ∈ levels, 0 < k ∧ k ≤ 11 := by decide
  rw [depth, List.getD_eq_getElem?_getD]
  cases found : levels[o]? with
  | none => simp
  | some k => exact all k (List.mem_of_getElem? found)

def wiring : List (Nat × Nat) :=
  [(0, 4), (1, 5), (6, 7), (8, 10), (9, 11), (8, 17), (12, 18), (19, 2), (9, 3), (4, 6), (5, 6), (7, 8),
    (10, 13), (11, 14), (15, 14), (15, 14), (15, 12), (17, 20), (22, 16), (16, 19), (18, 21), (16, 21),
    (16, 21)]

theorem feeds_placed (net cell : Nat) (width : Int) :
    (placed net cell width).block.updateAll.steps.flatMap Drive.feeds =
      wiring.map fun e => (net + e.1, net + e.2) :=
  rfl

theorem undriven_placed {net cell o : Nat} {width : Int} (ho : o ∉ driven) :
    ∀ d ∈ (placed net cell width).block.updateAll.steps, d.target.net ≠ net + o := by
  intro d hd same
  have mem := List.mem_map_of_mem (f := (·.target.net)) hd
  rw [targets_placed, List.mem_map] at mem
  obtain ⟨o', ho', same'⟩ := mem
  have : o' = o := by omega
  exact ho (this ▸ ho')

section Phase

variable {x : Blinky} {net cell : Nat} {width : Int} (hx : x = placed net cell width)
  {level on : Bool} {q : UInt64} {st : State}

include hx

theorem next_drive (n : Nat) :
    (x.pin.drive level st).next.get n =
      if n = x.clockP.net then level.toUInt64
      else if n = x.clockN.net then (!level).toUInt64 else st.next.get n := by
  subst hx
  have bit : ∀ b : Bool, Width.truncate 1 (if b then 1 else 0) = b.toUInt64 := by decide
  have flipped : (if level then 0 else 1 : UInt64) = if !level then 1 else 0 := by
    cases level <;> rfl
  simp only [pin, ClockPin.drive, State.setNext, Store.get_set, placed, Signal.placed, flipped, bit]
  by_cases first : n = net
  · simp [first]
  · by_cases second : n = net + 1
    · simp [second]
    · simp [first, second, Ne.symm first, Ne.symm second]

theorem next_drive_of_lt {n : Nat} (hn : x.clockN.net < n) :
    (x.pin.drive level st).next.get n = st.next.get n := by
  have first : x.clockP.net < x.clockN.net := by rw [hx]; exact Nat.lt_succ_self net
  rw [next_drive hx, if_neg (by omega), if_neg (by omega)]

theorem wave_clockP (i : Nat) :
    x.block.wave (x.pin.drive level st) x.clockP.net (i + 1) = level.toUInt64 := by
  have hb : x.block.Synchronous := hx ▸ synchronous net cell width
  rw [hb.wave_undriven, next_drive hx, if_pos rfl]
  · subst hx
    exact .head _
  · subst hx
    exact undriven_placed (o := 0) (by decide)

theorem wave_clockN (i : Nat) :
    x.block.wave (x.pin.drive level st) x.clockN.net (i + 1) = (!level).toUInt64 := by
  have hb : x.block.Synchronous := hx ▸ synchronous net cell width
  rw [hb.wave_undriven, next_drive hx, if_neg, if_pos rfl]
  · subst hx
    exact Nat.succ_ne_self net
  · subst hx
    exact .tail _ (.head _)
  · subst hx
    exact undriven_placed (o := 1) (by decide)

theorem wave_generated (i : Nat) : x.block.wave st x.generator.locked.net (i + 1) = 1 := by
  have hb : x.block.Synchronous := hx ▸ synchronous net cell width
  rw [hb.wave_put (List.mem_of_getElem? (i := 11) rfl), hx]
  exact Width.truncate_one_toUInt64 true

theorem wave_locked (i : Nat) : x.block.wave st x.locked.net (i + 2) = 1 := by
  have hb : x.block.Synchronous := hx ▸ synchronous net cell width
  rw [hb.wave_put (List.mem_of_getElem? (i := 8) rfl), Word.eval, wave_generated hx, hx]
  exact Width.truncate_one_toUInt64 true

theorem wave_enable (i : Nat) : x.block.wave st x.divider.enable.net (i + 2) = 1 := by
  have hb : x.block.Synchronous := hx ▸ synchronous net cell width
  rw [hb.wave_put (List.mem_of_getElem? (i := 4) rfl), Word.eval, wave_generated hx, hx]
  exact Width.truncate_one_toUInt64 true

variable {i : Nat}

theorem wave_count (fits : Width.truncate width q = q)
    (held : x.block.wave st x.divider.register.q.net i = q) :
    x.block.wave st x.divider.count.net (i + 1) = q := by
  have hb : x.block.Synchronous := hx ▸ synchronous net cell width
  rw [hb.wave_put (List.mem_of_getElem? (i := 14) rfl), Word.eval, held, hx]
  exact fits

theorem wave_tick (shown : x.block.wave st x.divider.count.net i = q) :
    x.block.wave st x.blinker.tick.net (i + 1) = (decide (q = Width.mask width)).toUInt64 := by
  have hb : x.block.Synchronous := hx ▸ synchronous net cell width
  have same : x.divider.count.width = width := by rw [hx]; rfl
  rw [hb.wave_flag (List.mem_of_getElem? (i := 6) rfl) (by rw [hx]; rfl)]
  simp only [Word.eval, shown, same]
  by_cases full : q = Width.mask width <;> simp [full]

theorem wave_state (held : x.block.wave st x.blinker.register.q.net i = on.toUInt64) :
    x.block.wave st x.blinker.state.net (i + 1) = on.toUInt64 := by
  have hb : x.block.Synchronous := hx ▸ synchronous net cell width
  rw [hb.wave_put (List.mem_of_getElem? (i := 17) rfl), Word.eval, held, hx]
  exact Width.truncate_one_toUInt64 on

theorem wave_led (held : x.block.wave st x.blinker.register.q.net i = on.toUInt64) :
    x.block.wave st x.led.net (i + 3) = on.toUInt64 := by
  have hb : x.block.Synchronous := hx ▸ synchronous net cell width
  rw [hb.wave_put (List.mem_of_getElem? (i := 7) rfl), Word.eval,
    hb.wave_flag (List.mem_of_getElem? (i := 18) rfl) (by rw [hx]; rfl), Word.eval,
    wave_state hx held, hx]
  cases on <;> exact Width.truncate_one_toUInt64 _

theorem wave_toggle {tick : Bool}
    (ticks : x.block.wave st x.blinker.tick.net i = tick.toUInt64)
    (state : x.block.wave st x.blinker.state.net i = on.toUInt64) :
    x.block.wave st x.blinker.register.d.net (i + 1) = (on ^^ tick).toUInt64 := by
  have hb : x.block.Synchronous := hx ▸ synchronous net cell width
  have bit : x.blinker.register.d.width = 1 := by rw [hx]; rfl
  rw [hb.wave_put (List.mem_of_getElem? (i := 19) rfl), Blinker.nextState, bit]
  simp only [Word.eval, ticks, state, toUInt64_eq_zero_iff]
  clear ticks state
  revert tick on
  decide

variable (h : Stands x (!level) q on st)

include h

theorem Stands.edge_copied {s : Signal} {n t : Nat} (tree : (s, t + 1) ∈ x.clockTree)
    (bit : s.width = 1) (drive : .put s (.var n) ∈ x.block.updateAll.steps)
    (edge : Edge (x.block.wave (x.pin.drive level st) n) t level) :
    Edge (x.block.wave (x.pin.drive level st) s.net) (t + 1) level := by
  have hb : x.block.Synchronous := hx ▸ synchronous net cell width
  apply edge.copied
  · exact h.clock _ tree
  · intro i
    rw [hb.wave_put drive, bit]
    rfl

theorem Stands.edge_clockP : Edge (x.block.wave (x.pin.drive level st) x.clockP.net) 1 level := by
  intro i
  cases i with
  | zero => exact h.clock _ (.head _)
  | succ i => rw [wave_clockP hx, if_neg (by omega)]

theorem Stands.edge_out
    (edge : Edge (x.block.wave (x.pin.drive level st) x.buffer.p.net) 2 level) :
    Edge (x.block.wave (x.pin.drive level st) x.buffer.out.net) 3 level := by
  have hb : x.block.Synchronous := hx ▸ synchronous net cell width
  have inverted : ∀ i, x.block.wave (x.pin.drive level st) x.buffer.p.net i ≠ 0 →
      x.block.wave (x.pin.drive level st) x.buffer.n.net i = 0 := by
    intro i up
    have copy : ∀ i, x.block.wave (x.pin.drive level st) x.buffer.n.net (i + 1) = _ :=
      hb.wave_put (List.mem_of_getElem? (i := 1) rfl)
    cases level with
    | true =>
      -- The clock rises: its complement came down a step before the clock came up.
      have late : ¬ i < 2 := fun early => up (edge.before early)
      obtain ⟨i, rfl⟩ : ∃ j, i = j + 2 := ⟨i - 2, by omega⟩
      rw [copy, Word.eval, wave_clockN hx, hx]
      exact Width.truncate_zero 1
    | false =>
      have early : i < 2 := by
        by_contra late
        exact up (edge.after (by omega))
      cases i with
      | zero => exact h.inverted rfl
      | succ i =>
        obtain rfl : i = 0 := by omega
        have down : x.block.wave (x.pin.drive false st) x.clockN.net 0 = 0 := h.complement rfl
        rw [copy, Word.eval, down, Width.truncate_zero]
  apply edge.copied
  · exact h.clock _ (List.mem_of_getElem? (i := 2) rfl)
  · intro i
    rw [hb.wave_flag (List.mem_of_getElem? (i := 9) rfl) (by rw [hx]; rfl)]
    by_cases zero : x.block.wave (x.pin.drive level st) x.buffer.p.net i = 0
    · simp only [Word.eval, zero, if_true, Width.truncate_zero]
      rfl
    · simp only [Word.eval, zero, if_false, inverted i zero, if_true]
      rw [edge i, toUInt64_eq_zero_iff, Bool.not_eq_false] at zero
      rw [edge i, zero]
      exact (Width.truncate_one_toUInt64 true).symm

theorem Stands.edges :
    ∀ e ∈ x.clockTree, Edge (x.block.wave (x.pin.drive level st) e.1.net) e.2 level := by
  have p := h.edge_copied hx (List.mem_of_getElem? (i := 1) rfl) (by rw [hx]; rfl)
    (List.mem_of_getElem? (i := 0) rfl) (h.edge_clockP hx)
  have out := h.edge_out hx p
  have clockIn := h.edge_copied hx (List.mem_of_getElem? (i := 3) rfl) (by rw [hx]; rfl)
    (List.mem_of_getElem? (i := 2) rfl) out
  have clockOut := h.edge_copied hx (List.mem_of_getElem? (i := 4) rfl) (by rw [hx]; rfl)
    (List.mem_of_getElem? (i := 10) rfl) clockIn
  have divider := h.edge_copied hx (List.mem_of_getElem? (i := 5) rfl) (by rw [hx]; rfl)
    (List.mem_of_getElem? (i := 3) rfl) clockOut
  have blinker := h.edge_copied hx (List.mem_of_getElem? (i := 6) rfl) (by rw [hx]; rfl)
    (List.mem_of_getElem? (i := 5) rfl) clockOut
  have counts := h.edge_copied hx (List.mem_of_getElem? (i := 7) rfl) (by rw [hx]; rfl)
    (List.mem_of_getElem? (i := 12) rfl) divider
  have blinks := h.edge_copied hx (List.mem_of_getElem? (i := 8) rfl) (by rw [hx]; rfl)
    (List.mem_of_getElem? (i := 16) rfl) blinker
  simp only [clockTree, List.forall_mem_cons]
  exact ⟨h.edge_clockP hx, p, out, clockIn, clockOut, divider, blinker, counts, blinks,
    List.forall_mem_nil _⟩

theorem Stands.wave_divider (i : Nat) :
    x.block.wave (x.pin.drive level st) x.divider.register.q.net i =
      if level = true ∧ 7 < i then Width.truncate width (q + 1) else q := by
  have hb : x.block.Synchronous := hx ▸ synchronous net cell width
  have later : x.clockN.net < x.divider.register.q.net := by
    rw [hx]
    exact Nat.lt_add_of_pos_right (by decide : 0 < 14)
  have held := hb.wave_register (List.mem_of_getElem? (i := 15) rfl)
    (h.edges hx _ (List.mem_of_getElem? (i := 7) rfl)) h.divider
    ((h.count.trans h.counts.symm).trans (next_drive_of_lt hx later).symm)
  have start : (x.pin.drive level st).val.get x.divider.register.q.net = q := h.count
  have before : x.block.wave (x.pin.drive level st) x.divider.register.q.net 6 = q := by
    rw [held, if_neg (by omega), start]
  have data : x.block.wave (x.pin.drive level st) x.divider.register.d.net 7 =
      Width.truncate width (q + 1) := by
    have wide : x.divider.register.d.width = width := by rw [hx]; rfl
    rw [hb.wave_put (List.mem_of_getElem? (i := 13) rfl), wide]
    simp only [Word.eval, wave_enable hx, before]
    rfl
  have wide : x.divider.register.q.width = width := by rw [hx]; rfl
  rw [held, data, start, wide, Width.truncate_truncate]

theorem Stands.wave_blinker (fits : Width.truncate width q = q) (i : Nat) :
    x.block.wave (x.pin.drive level st) x.blinker.register.q.net i =
      (if level = true ∧ 7 < i then on ^^ decide (q = Width.mask width) else on).toUInt64 := by
  have hb : x.block.Synchronous := hx ▸ synchronous net cell width
  have later : x.clockN.net < x.blinker.register.q.net := by
    rw [hx]
    exact Nat.lt_add_of_pos_right (by decide : 0 < 21)
  have held := hb.wave_register (List.mem_of_getElem? (i := 20) rfl)
    (h.edges hx _ (List.mem_of_getElem? (i := 8) rfl)) h.blinker
    ((h.state.trans h.states.symm).trans (next_drive_of_lt hx later).symm)
  have start : (x.pin.drive level st).val.get x.blinker.register.q.net = on.toUInt64 := h.state
  have before : x.block.wave (x.pin.drive level st) x.blinker.register.q.net 5 = on.toUInt64 := by
    rw [held, if_neg (by omega), start]
  have count : x.block.wave (x.pin.drive level st) x.divider.register.q.net 4 = q := by
    rw [h.wave_divider hx, if_neg (by omega)]
  have data := wave_toggle hx (wave_tick hx (wave_count hx fits count)) (wave_state hx before)
  have bit : x.blinker.register.q.width = 1 := by rw [hx]; rfl
  rw [held, data, start, bit, Width.truncate_one_toUInt64]
  split <;> rfl

theorem Stands.steady (fits : Width.truncate width q = q) (n : Nat) :
    x.block.Steady (x.pin.drive level st) 11 n := by
  have hb : x.block.Synchronous := hx ▸ synchronous net cell width
  have divider : x.block.Steady (x.pin.drive level st) 8 x.divider.register.q.net := by
    intro i hi
    simp [h.wave_divider hx, show 7 < i by omega, show 7 < i + 1 by omega]
  have blinker : x.block.Steady (x.pin.drive level st) 8 x.blinker.register.q.net := by
    intro i hi
    simp [h.wave_blinker hx fits, show 7 < i by omega, show 7 < i + 1 by omega]
  refine (hb.steady_of_levels (fun n => depth (n - net)) (fun n => (depth_bounds _).1) ?_ ?_ n).mono
    (depth_bounds _).2
  · have deeper : ∀ e ∈ wiring, depth e.1 < depth e.2 := by decide
    subst hx
    rw [feeds_placed, List.forall_mem_map]
    intro e he
    simpa only [Nat.add_sub_cancel_left] using deeper e he
  · subst hx
    have registers : (placed net cell width).block.updateAll.steps.filter (!·.assigns) =
        let r := (placed net cell width).divider.register
        let r' := (placed net cell width).blinker.register
        [.latch r.cell r.clock r.d r.q, .latch r'.cell r'.clock r'.d r'.q] := rfl
    have later : depth (net + 15 - net) = 8 ∧ depth (net + 22 - net) = 8 := by
      simp only [Nat.add_sub_cancel_left]
      decide
    simp only [registers, List.forall_mem_cons]
    refine ⟨?_, ?_, List.forall_mem_nil _⟩
    · exact later.1 ▸ divider
    · exact later.2 ▸ blinker

theorem Stands.settles (fits : Width.truncate width q = q) :
    let q' := if level = true then Width.truncate width (q + 1) else q
    let on' := if level = true then on ^^ decide (q = Width.mask width) else on
    ∃ st', x.block.settle 0 (x.pin.drive level st) = (st', none) ∧ Stands x level q' on' st' ∧
      Shows x q' on' st' := by
  intro q' on'
  have hb : x.block.Synchronous := hx ▸ synchronous net cell width
  have fits' : Width.truncate width q' = q' := by
    cases level with
    | true => exact Width.truncate_truncate width (q + 1)
    | false => exact fits
  have count (i : Nat) (hi : 7 < i) :
      x.block.wave (x.pin.drive level st) x.divider.register.q.net i = q' := by
    simp [h.wave_divider hx, hi, q']
  have state (i : Nat) (hi : 7 < i) :
      x.block.wave (x.pin.drive level st) x.blinker.register.q.net i = on'.toUInt64 := by
    simp [h.wave_blinker hx fits, hi, on']
  have divider : .latch x.divider.register.cell x.divider.register.clock x.divider.register.d
      x.divider.register.q ∈ x.block.updateAll.steps := List.mem_of_getElem? (i := 15) rfl
  have blinker : .latch x.blinker.register.cell x.blinker.register.clock x.blinker.register.d
      x.blinker.register.q ∈ x.block.updateAll.steps := List.mem_of_getElem? (i := 20) rfl
  refine ⟨_, hb.settle_of_steady (by decide) (h.steady hx fits), ?_, ?_⟩
  · constructor
    · intro e he
      have near : ∀ e ∈ x.clockTree, e.2 ≤ 12 := by simp [clockTree]
      exact (h.edges hx e he).after (near e he)
    · intro up
      exact (wave_clockN hx 11).trans (by rw [up]; rfl)
    · intro up
      refine (hb.wave_put (List.mem_of_getElem? (i := 1) rfl) 11).trans ?_
      rw [Word.eval, wave_clockN hx, up]
      exact Width.truncate_zero _
    · exact hb.clock_register divider (h.edges hx _ (List.mem_of_getElem? (i := 7) rfl)) h.divider 12
    · exact hb.clock_register blinker (h.edges hx _ (List.mem_of_getElem? (i := 8) rfl)) h.blinker 12
    · exact count 12 (by decide)
    · exact (hb.wave_eq_next (hb.held _ divider) 11).symm.trans (count 12 (by decide))
    · exact state 12 (by decide)
    · exact (hb.wave_eq_next (hb.held _ blinker) 11).symm.trans (state 12 (by decide))
  · exact ⟨wave_locked hx 10, wave_count hx fits' (count 11 (by decide)),
      wave_led hx (state 9 (by decide))⟩

end Phase

section Cycles

variable {net cell : Nat} {width : Int} {q : UInt64} {on : Bool} {st : State}

theorem Stands.cycle (h : Stands (placed net cell width) (!true) q on st)
    (fits : Width.truncate width q = q) :
    ∃ st', (placed net cell width).block.cycle (placed net cell width).pin 0 st = (st', none) ∧
      Stands (placed net cell width) false (Width.truncate width (q + 1))
        (on ^^ decide (q = Width.mask width)) st' ∧
      Shows (placed net cell width) (Width.truncate width (q + 1))
        (on ^^ decide (q = Width.mask width)) st' := by
  obtain ⟨high, settles, stands, -⟩ := h.settles rfl fits
  have stands : Stands (placed net cell width) (!false) _ _ high := stands
  obtain ⟨low, settles', stands', shows⟩ :=
    stands.settles rfl (Width.truncate_truncate width (q + 1))
  refine ⟨low, ?_, stands', shows⟩
  rw [Block.cycle, settles]
  exact settles'

def countAfter (n j : Nat) : UInt64 := .ofNat (j % 2 ^ n)

def onAfter (n j : Nat) : Bool := (j / 2 ^ n).bodd

variable {n : Nat} (hn : n ≤ 64)

include hn

theorem toNat_countAfter (j : Nat) : (countAfter n j).toNat = j % 2 ^ n := by
  have room : 2 ^ n ≤ 2 ^ 64 := Nat.pow_le_pow_right (by decide) hn
  have small : j % 2 ^ n < 2 ^ n := Nat.mod_lt j (Nat.two_pow_pos n)
  rw [countAfter, UInt64.toNat_ofNat']
  exact Nat.mod_eq_of_lt (Nat.lt_of_lt_of_le small room)

theorem countAfter_fits (j : Nat) : Width.truncate n (countAfter n j) = countAfter n j := by
  apply UInt64.toNat_inj.mp
  rw [Width.toNat_truncate (Int.natCast_nonneg n), toNat_countAfter hn]
  exact Nat.mod_mod j (2 ^ n)

theorem countAfter_succ (j : Nat) : Width.truncate n (countAfter n j + 1) = countAfter n (j + 1) := by
  apply UInt64.toNat_inj.mp
  rw [Width.toNat_truncate_add (Int.natCast_nonneg n) (by omega), toNat_countAfter hn,
    toNat_countAfter hn]
  exact Nat.mod_add_mod ..

theorem countAfter_eq_mask_iff (j : Nat) : countAfter n j = Width.mask n ↔ 2 ^ n ∣ j + 1 := by
  have mask : (Width.mask n).toNat = 2 ^ n - 1 := by
    rcases Nat.lt_or_eq_of_le hn with lt | rfl
    · exact Width.toNat_mask_of_lt (Int.natCast_nonneg n) (by omega)
    · rfl
  have small : j % 2 ^ n < 2 ^ n := Nat.mod_lt j (Nat.two_pow_pos n)
  rw [← UInt64.toNat_inj, toNat_countAfter hn, mask, Nat.dvd_iff_mod_eq_zero, ← Nat.mod_add_mod]
  constructor
  · intro full
    rw [show j % 2 ^ n + 1 = 2 ^ n by omega, Nat.mod_self]
  · intro zero
    by_contra ne
    rw [Nat.mod_eq_of_lt (by omega)] at zero
    omega

theorem onAfter_succ (j : Nat) :
    (onAfter n j ^^ decide (countAfter n j = Width.mask n)) = onAfter n (j + 1) := by
  rw [onAfter, onAfter, Nat.succ_div, Nat.bodd_add]
  by_cases full : 2 ^ n ∣ j + 1
  · simp [full, (countAfter_eq_mask_iff hn j).mpr full]
  · simp [full, mt (countAfter_eq_mask_iff hn j).mp full]

theorem Stands.cycles (k : Nat) {j : Nat} {st : State}
    (h : Stands (placed net cell n) false (countAfter n j) (onAfter n j) st) :
    ∃ st', (placed net cell n).block.cycles (placed net cell n).pin 0
        [(placed net cell n).locked, (placed net cell n).divider.count, (placed net cell n).led] k st =
        (st', .ok ((List.range' (j + 1) k).map fun i =>
          [1, countAfter n i, (onAfter n i).toUInt64])) ∧
      (0 < k → Shows (placed net cell n) (countAfter n (j + k)) (onAfter n (j + k)) st') := by
  induction k generalizing j st with
  | zero => exact ⟨st, rfl, fun h => absurd h (Nat.lt_irrefl 0)⟩
  | succ k ih =>
    obtain ⟨mid, cycle, stands, shows⟩ := h.cycle (countAfter_fits hn j)
    rw [countAfter_succ hn, onAfter_succ hn] at stands shows
    obtain ⟨st', rest, last⟩ := ih stands
    have moved : j + (k + 1) = j + 1 + k := by omega
    refine ⟨st', ?_, fun _ => ?_⟩
    · rw [Block.cycles, cycle]
      simp only [rest, List.map_cons, List.map_nil, shows.locked, shows.count, shows.led,
        List.range'_succ]
    · rw [moved]
      rcases Nat.eq_zero_or_pos k with rfl | pos
      · obtain rfl : mid = st' := congrArg Prod.fst rest
        exact shows
      · exact last pos

end Cycles

theorem stands_start (net cell : Nat) (width : Int) :
    Stands (placed net cell width) false 0 false {} where
  clock := fun _ _ => Store.get_empty _
  complement := nofun
  inverted := nofun
  divider := Store.get_empty _
  blinker := Store.get_empty _
  count := Store.get_empty _
  counts := Store.get_empty _
  state := Store.get_empty _
  states := Store.get_empty _

/-- Over any number of cycles from the start, each of which settles, the design counts the cycles modulo
the capacity of its divider, and the led shows the parity of the times that the divider was full. -/
theorem divides_clock (n k : Nat) (hn : 1 ≤ n) (hn' : n ≤ 64) (s : Supply) :
    ∃ x s', Blinky.make n s = .ok (x, s') ∧
      ∃ st, x.block.cycles { pin := x.clockP, complement := some x.clockN } 0
          [x.locked, x.divider.count, x.led] k {} =
          (st, .ok ((List.range' 1 k).map fun j =>
            [1, .ofNat (j % 2 ^ n), .ofNat (j / 2 ^ n % 2)])) ∧
        (1 ≤ k →
          st.val.get x.locked.net = 1 ∧
          (st.val.get x.divider.count.net).toNat = k % 2 ^ n ∧
          (st.val.get x.led.net).toNat = k / 2 ^ n % 2) := by
  have led (j : Nat) : (onAfter n j).toUInt64 = .ofNat (j / 2 ^ n % 2) := by
    rw [onAfter, Nat.mod_two_of_bodd]
    cases (j / 2 ^ n).bodd <;> rfl
  have start : Stands (placed s.nets s.cells n) false (countAfter n 0) (onAfter n 0) {} := by
    rw [countAfter, onAfter, Nat.zero_mod, Nat.zero_div]
    exact stands_start s.nets s.cells n
  obtain ⟨st, cycles, shows⟩ := start.cycles hn' k
  refine ⟨_, _, make_eq (by omega) s, st, ?_, ?_⟩
  · simp only [led, Nat.zero_add] at cycles
    exact cycles
  · intro hk
    obtain ⟨locked, count, on⟩ := shows hk
    rw [Nat.zero_add] at count on
    refine ⟨locked, ?_, ?_⟩
    · rw [count, toNat_countAfter hn']
    · rw [on, led, UInt64.toNat_ofNat', Nat.mod_eq_of_lt]
      omega

theorem divides_clock_two :
    (1 ≤ 2 ∧ 2 ≤ 64) ∧
      ∃ x s', Blinky.make 2 {} = .ok (x, s') ∧
        ∃ st, x.block.cycles { pin := x.clockP, complement := some x.clockN } 0
            [x.locked, x.divider.count, x.led] 5 {} =
            (st, .ok [[1, 1, 0], [1, 2, 0], [1, 3, 0], [1, 0, 1], [1, 1, 1]]) ∧
          st.val.get x.locked.net = 1 ∧ (st.val.get x.divider.count.net).toNat = 1 ∧
            (st.val.get x.led.net).toNat = 1 := by
  obtain ⟨x, s', made, st, cycles, shows⟩ := divides_clock 2 5 (by decide) (by decide) {}
  exact ⟨by decide, x, s', made, st, cycles, shows (by decide)⟩

end Blinky

end Circuitry
