import Circuitry.Proofs.Latching
import Mathlib.Algebra.GroupWithZero.Nat

namespace Circuitry

namespace Counter

def cycle (x : Counter) (enable : Bool) : List (List (Signal × UInt64)) :=
  [[(x.enable, enable.toUInt64)], [(x.clock, 1)], [(x.clock, 0)]]

/-- The register has seen the level that the clock leaves for another, and the counter shows what the
register holds. The enable input is about to be at its level. -/
structure Poised (x : Counter) (old new enable : Bool) (q : UInt64) (st : State) : Prop where
  clock : st.val.get x.clock.net = old.toUInt64
  turned : st.next.get x.clock.net = new.toUInt64
  copied : st.val.get x.register.clock.net = old.toUInt64
  seen : st.clock.get x.register.cell = old
  enabled : st.next.get x.enable.net = enable.toUInt64
  held : st.val.get x.register.q.net = q
  holds : st.next.get x.register.q.net = q
  shown : st.val.get x.count.net = q

def countNext (width : Int) (old new enable : Bool) (q : UInt64) : UInt64 :=
  if old = false ∧ new = true then Width.truncate width (q + enable.toUInt64) else q

def depth : Nat → Nat
  | 2 | 4 => 4
  | 3 => 2
  | 5 => 3
  | _ => 1

theorem depth_bounds (n : Nat) : 0 < depth n ∧ depth n ≤ 4 := by
  unfold depth
  split <;> decide

section Step

variable {net cell : Nat} {width : Int} {x : Counter} (hx : x = placed net cell width)
  {old new enable : Bool} {q : UInt64} {st : State}

include hx

theorem wave_input {s : Signal} (hs : s ∈ [x.clock, x.enable]) (i : Nat) :
    x.block.wave st s.net (i + 1) = st.next.get s.net := by
  have hb : x.block.Synchronous := hx ▸ synchronous net cell width
  have low : s.net < net + 2 ∧ s.net ∈ x.block.nets := by
    subst hx
    simp only [List.mem_cons, List.not_mem_nil, or_false] at hs
    rcases hs with rfl | rfl
    · exact ⟨Nat.lt_add_of_pos_right (by decide), .head _⟩
    · exact ⟨Nat.lt_succ_self _, .tail _ (.head _)⟩
  apply hb.wave_undriven low.2
  intro d hd
  have targets : d.target.net ∈ [net + 3, net + 4, net + 2, net + 5] := by
    subst hx
    exact List.mem_map_of_mem (f := (·.target.net)) hd
  simp only [List.mem_cons, List.not_mem_nil, or_false] at targets
  omega

theorem Poised.wave_enable (h : Poised x old new enable q st) (i : Nat) :
    x.block.wave st x.enable.net (i + 1) = enable.toUInt64 := by
  rw [wave_input hx (.tail _ (.head _)), h.enabled]

theorem Poised.turn (h : Poised x old new enable q st) :
    Turn (x.block.wave st x.clock.net) 1 old new := by
  intro i
  cases i with
  | zero => exact h.clock
  | succ i => rw [wave_input hx (.head _), h.turned, if_neg (by omega)]

theorem Poised.turn_register (h : Poised x old new enable q st) :
    Turn (x.block.wave st x.register.clock.net) 2 old new := by
  have hb : x.block.Synchronous := hx ▸ synchronous net cell width
  have wide : x.register.clock.width = 1 := by rw [hx]; rfl
  refine (h.turn hx).copied h.copied fun i => ?_
  rw [hb.wave_put (List.mem_of_getElem? (i := 0) rfl), wide]
  rfl

theorem Poised.wave_q (h : Poised x old new enable q st) (i : Nat) :
    x.block.wave st x.register.q.net i =
      if (old = false ∧ new = true) ∧ 2 < i then Width.truncate width (q + enable.toUInt64)
      else q := by
  have hb : x.block.Synchronous := hx ▸ synchronous net cell width
  have held := hb.wave_turned (List.mem_of_getElem? (i := 3) rfl) (h.turn_register hx) h.seen
    (h.held.trans h.holds.symm)
  have start : st.val.get x.register.q.net = q := h.held
  have before : x.block.wave st x.register.q.net 1 = q := by
    rw [held, if_neg (by omega), start]
  have data : x.block.wave st x.register.d.net 2 = Width.truncate width (q + enable.toUInt64) := by
    have wide : x.register.d.width = width := by rw [hx]; rfl
    rw [hb.wave_put (List.mem_of_getElem? (i := 1) rfl), wide]
    simp only [Word.eval, h.wave_enable hx, before]
    cases enable with
    | false => exact congrArg (Width.truncate width) (UInt64.add_zero q).symm
    | true => rfl
  have wide : x.register.q.width = width := by rw [hx]; rfl
  rw [held, data, start, wide, Width.truncate_truncate]

theorem Poised.steady (h : Poised x old new enable q st) (n : Nat) : x.block.Steady st 4 n := by
  have hb : x.block.Synchronous := hx ▸ synchronous net cell width
  have register : x.block.Steady st 3 x.register.q.net := by
    intro i hi
    simp [h.wave_q hx, show 2 < i by omega, show 2 < i + 1 by omega]
  refine (hb.steady_of_levels (fun n => depth (n - net)) (fun n => (depth_bounds _).1) ?_ ?_ n).mono
    (depth_bounds _).2
  · have feeds : x.block.updateAll.steps.flatMap Drive.feeds =
        [(net + 0, net + 3), (net + 1, net + 4), (net + 5, net + 4), (net + 5, net + 4),
          (net + 5, net + 2)] := by
      subst hx
      rfl
    rw [feeds]
    simp only [List.forall_mem_cons, Nat.add_sub_cancel_left]
    exact ⟨by decide, by decide, by decide, by decide, by decide, List.forall_mem_nil _⟩
  · have registers : x.block.updateAll.steps.filter (!·.assigns) =
        [.latch x.register.cell x.register.clock x.register.d x.register.q] := by
      subst hx
      rfl
    have level : depth (x.register.q.net - net) = 3 := by
      have offset : x.register.q.net - net = 5 := by
        rw [hx]
        exact Nat.add_sub_cancel_left net 5
      rw [offset]
      rfl
    rw [registers, List.forall_mem_singleton]
    exact level ▸ register

theorem Poised.settles (h : Poised x old new enable q st) (fits : Width.truncate width q = q) :
    ∃ st', x.block.settle 0 st = (st', none) ∧
      Poised x new new enable (countNext width old new enable q) st' := by
  have hb : x.block.Synchronous := hx ▸ synchronous net cell width
  have inside : x.clock.net ∈ x.block.nets := .head _
  have fits' : Width.truncate width (countNext width old new enable q) =
      countNext width old new enable q := by
    rw [countNext]
    split
    · exact Width.truncate_truncate ..
    · exact fits
  have wave (i : Nat) (hi : 2 < i) :
      x.block.wave st x.register.q.net i = countNext width old new enable q := by
    simp only [h.wave_q hx, hi, and_true, countNext]
  refine ⟨_, hb.settle_of_steady (by decide) (h.steady hx), ?_⟩
  constructor
  · exact (h.turn hx).after (by decide)
  · exact (hb.wave_eq_next inside 4).symm.trans ((h.turn hx).after (by decide))
  · exact (h.turn_register hx).after (by decide)
  · exact (hb.clock_turned (List.mem_of_getElem? (i := 3) rfl) (h.turn_register hx) h.seen 5).trans
      (if_neg (by decide))
  · exact (hb.wave_eq_next (.tail _ (.head _)) 4).symm.trans (h.wave_enable hx 4)
  · exact wave 5 (by decide)
  · exact (hb.wave_eq_next (hb.held _ (List.mem_of_getElem? (i := 3) rfl)) 4).symm.trans
      (wave 5 (by decide))
  · have wide : x.count.width = width := by rw [hx]; rfl
    refine (hb.wave_put (List.mem_of_getElem? (i := 2) rfl) 4).trans ?_
    rw [Word.eval, wave 4 (by decide), wide, fits']

theorem Poised.set_clock (h : Poised x old new enable q st) (level : Bool) :
    Poised x old level enable q (st.setAll [(x.clock, level.toUInt64)]) where
  clock := h.clock
  turned := by
    rw [hx]
    simp [State.setAll, placed, Signal.placed]
  copied := h.copied
  seen := h.seen
  enabled := by
    rw [← h.enabled, hx]
    simp [State.setAll, placed, Signal.placed]
  held := h.held
  holds := by
    rw [← h.holds, hx]
    simp only [State.setAll, List.foldl_cons, List.foldl_nil, State.get_next_setNext]
    exact if_neg (Nat.ne_of_lt (Nat.lt_add_of_pos_right (by decide : 0 < 5)))
  shown := h.shown

theorem Poised.set_enable (h : Poised x old new enable q st) (level : Bool) :
    Poised x old new level q (st.setAll [(x.enable, level.toUInt64)]) where
  clock := h.clock
  turned := by
    rw [← h.turned, hx]
    simp [State.setAll, placed, Signal.placed]
  copied := h.copied
  seen := h.seen
  enabled := by
    rw [hx]
    simp [State.setAll, placed, Signal.placed]
  held := h.held
  holds := by
    rw [← h.holds, hx]
    simp [State.setAll, placed, FlipFlop.placed, Signal.placed]
  shown := h.shown

theorem Poised.cycle {before : Bool} (h : Poised x false false before q st)
    (fits : Width.truncate width q = q) (enable : Bool) :
    ∃ st', x.block.play 0 (x.cycle enable) st = (st', none) ∧
      Poised x false false enable (Width.truncate width (q + enable.toUInt64)) st' := by
  obtain ⟨ready, settled, poised⟩ := (h.set_enable hx enable).settles hx fits
  obtain ⟨high, settled', poised'⟩ := (poised.set_clock hx true).settles hx fits
  obtain ⟨low, settled'', poised''⟩ :=
    (poised'.set_clock hx false).settles hx (Width.truncate_truncate ..)
  refine ⟨low, ?_, poised''⟩
  rw [Counter.cycle, Block.play_cons settled]
  exact (Block.play_cons settled').trans (Block.play_cons settled'')

end Step

theorem poised_start (net cell : Nat) (width : Int) :
    Poised (placed net cell width) false false false 0 {} := by
  constructor <;> exact Store.get_empty _

theorem Poised.cycles {net cell : Nat} {width : Int} (low : 0 ≤ width) (high : width ≤ 64)
    (enables : List Bool) {before : Bool} {q : UInt64} {st : State}
    (h : Poised (placed net cell width) false false before q st)
    (fits : Width.truncate width q = q) :
    ∃ st', (placed net cell width).block.play 0
        (enables.flatMap (placed net cell width).cycle) st = (st', none) ∧
      (st'.val.get (placed net cell width).count.net).toNat =
        (q.toNat + (enables.map Bool.toNat).sum) % 2 ^ width.toNat := by
  induction enables generalizing before q st with
  | nil =>
    refine ⟨st, rfl, ?_⟩
    rw [h.shown, ← fits, Width.toNat_truncate low]
    simp
  | cons enable enables ih =>
    obtain ⟨mid, played, poised⟩ := h.cycle rfl fits enable
    obtain ⟨st', rest, counted⟩ := ih poised (Width.truncate_truncate ..)
    refine ⟨st', ?_, ?_⟩
    · rw [List.flatMap_cons, Block.play_append played, rest]
    · have bit : enable.toUInt64.toNat = enable.toNat := by cases enable <;> rfl
      have next : (Width.truncate width (q + enable.toUInt64)).toNat =
          (q.toNat + enable.toNat) % 2 ^ width.toNat :=
        bit ▸ Width.toNat_truncate_add low high q enable.toUInt64
      rw [counted, next, Nat.mod_add_mod, List.map_cons, List.sum_cons, Nat.add_assoc]

/-- A new counter settles throughout any number of cycles, and then shows how many of them found it
enabled, modulo its capacity. -/
theorem counts_enabled (width : Int) (low : 1 ≤ width) (high : width ≤ 64) (enables : List Bool)
    (s : Supply) :
    ∃ x s', make width s = .ok (x, s') ∧
      ∃ st, x.block.play 0 (enables.flatMap x.cycle) {} = (st, none) ∧
        (st.val.get x.count.net).toNat = (enables.map Bool.toNat).sum % 2 ^ width.toNat := by
  obtain ⟨st, played, counted⟩ :=
    (poised_start s.nets s.cells width).cycles (by omega) high enables (UInt64.zero_and)
  refine ⟨_, _, make_eq (by omega) s, st, played, ?_⟩
  rw [counted, UInt64.toNat_zero, Nat.zero_add]

theorem counts_enabled_wrapped :
    (1 ≤ (2 : Int) ∧ (2 : Int) ≤ 64) ∧
      ∃ x s', make 2 {} = .ok (x, s') ∧
        ∃ st, x.block.play 0 ([true, true, false, true, true, true].flatMap x.cycle) {} = (st, none) ∧
          (st.val.get x.count.net).toNat = 1 :=
  ⟨by decide, counts_enabled 2 (by decide) (by decide) [true, true, false, true, true, true] {}⟩

end Counter

end Circuitry
