import Circuitry.Proofs.Settling
import Circuitry.Proofs.Stability
import Mathlib.Data.List.Nodup

namespace Circuitry

namespace Drive

variable {ds : List Drive} {d : Drive} {n : Nat}

theorem get_next_run_of_ne (h : d.target.net ≠ n) (st : State) :
    (d.run st).next.get n = st.next.get n := by
  rcases next_run_cases d st with ⟨next, -⟩ | ⟨x, next, -⟩
  · rw [next]
  · rw [next, Store.get_set_of_ne h]

theorem get_clock_run_of_ne {cell : Nat} (h : d.cell? ≠ some cell) (st : State) :
    (d.run st).clock.get cell = st.clock.get cell := by
  cases d with
  | latch own clock x q =>
    have ne : own ≠ cell := fun same => h (congrArg some same)
    simp only [run]
    split <;> simp [State.setNext, Store.get_set_of_ne ne]
  | _ => rw [clock_run rfl]

theorem get_next_foldl_run_of_ne (h : ∀ d ∈ ds, d.target.net ≠ n) (st : State) :
    (ds.foldl run st).next.get n = st.next.get n := by
  induction ds generalizing st with
  | nil => rfl
  | cons d ds ih =>
    obtain ⟨first, rest⟩ := List.forall_mem_cons.mp h
    rw [List.foldl_cons, ih rest, get_next_run_of_ne first]

theorem get_clock_foldl_run_of_ne {cell : Nat} (h : ∀ d ∈ ds, d.cell? ≠ some cell) (st : State) :
    (ds.foldl run st).clock.get cell = st.clock.get cell := by
  induction ds generalizing st with
  | nil => rfl
  | cons d ds ih =>
    obtain ⟨first, rest⟩ := List.forall_mem_cons.mp h
    rw [List.foldl_cons, ih rest, get_clock_run_of_ne first]

theorem get_next_latch (cell : Nat) (clock x q : Signal) (st : State) :
    ((latch cell clock x q).run st).next.get q.net =
      if st.val.get clock.net ≠ 0 ∧ st.clock.get cell = false then
        Width.truncate q.width (st.val.get x.net)
      else st.next.get q.net := by
  by_cases high : st.val.get clock.net = 0 <;> cases seen : st.clock.get cell <;>
    simp [run, high, seen, State.setNext]

theorem get_next_run_congr {st st' : State} (val : st'.val = st.val)
    (next : st'.next.get d.target.net = st.next.get d.target.net)
    (clock : ∀ cell, d.cell? = some cell → st'.clock.get cell = st.clock.get cell) :
    (d.run st').next.get d.target.net = (d.run st).next.get d.target.net := by
  cases d with
  | latch cell clk x q =>
    change (run st' (latch cell clk x q)).next.get q.net = (run st (latch cell clk x q)).next.get q.net
    rw [get_next_latch, get_next_latch, val, clock cell rfl]
    exact if_congr Iff.rfl rfl next
  | _ => rw [get_next_run (by rintro ⟨⟩), get_next_run (by rintro ⟨⟩), val, next]

section Single

variable (targets : (ds.map (·.target.net)).Nodup) (cells : (ds.filterMap cell?).Nodup)
  (hd : d ∈ ds)

include targets cells hd

theorem get_next_foldl_run_mem (st : State) :
    (ds.foldl run st).next.get d.target.net = (d.run st).next.get d.target.net := by
  obtain ⟨before, after, rfl⟩ := List.append_of_mem hd
  simp only [List.map_append, List.map_cons, List.nodup_middle, List.nodup_cons, List.mem_append,
    List.mem_map, not_or, not_exists, not_and] at targets
  obtain ⟨⟨earlier, later⟩, -⟩ := targets
  rw [List.foldl_append, List.foldl_cons, get_next_foldl_run_of_ne later]
  apply get_next_run_congr
  · exact val_foldl_run before st
  · exact get_next_foldl_run_of_ne earlier st
  · intro cell own
    simp only [List.filterMap_append, List.filterMap_cons, own, List.nodup_middle, List.nodup_cons,
      List.mem_append, List.mem_filterMap, not_or, not_exists, not_and] at cells
    exact get_clock_foldl_run_of_ne cells.1.1 st

omit targets in
theorem get_clock_foldl_run_mem {cell : Nat} {clock x q : Signal} (hlatch : d = latch cell clock x q)
    (st : State) : (ds.foldl run st).clock.get cell = (st.val.get clock.net != 0) := by
  subst hlatch
  obtain ⟨before, after, rfl⟩ := List.append_of_mem hd
  simp only [List.filterMap_append, List.filterMap_cons, cell?, List.nodup_middle, List.nodup_cons,
    List.mem_append, List.mem_filterMap, not_or, not_exists, not_and] at cells
  rw [List.foldl_append, List.foldl_cons, get_clock_foldl_run_of_ne cells.1.2,
    (latched_run (latch cell clock x q) _).1, val_run, val_foldl_run]

end Single

end Drive

namespace Block

/-- Each net has at most one drive, which drives a net of the circuit, and each register has a cell of
its own. -/
structure Synchronous (b : Block) : Prop where
  updates : b.updateAll.fault = none
  walks : (b.walk "").fault = none
  targets : (b.updateAll.steps.map (·.target.net)).Nodup
  cells : (b.updateAll.steps.filterMap Drive.cell?).Nodup
  held : ∀ d ∈ b.updateAll.steps, d.target.net ∈ b.nets

namespace Synchronous

variable {b : Block} (hb : b.Synchronous)

include hb

theorem registersOwned : b.RegistersOwned where
  output := by
    intro r hr latch d hd same
    exact List.inj_on_of_nodup_map hb.targets hd hr same
  cell := by
    intro r hr latch d hd same
    have apart := List.pairwise_filterMap.mp hb.cells
    have : Std.Symm fun d d' : Drive =>
        ∀ c, d.cell? = some c → ∀ c', d'.cell? = some c' → c ≠ c' :=
      ⟨fun _ _ h _ hx _ hy => (h _ hy _ hx).symm⟩
    by_contra ne
    cases r with
    | latch cell clock x q => exact apart.forall hd hr ne cell same cell rfl rfl
    | _ => cases latch

theorem next_advance_mem {d : Drive} (hd : d ∈ b.updateAll.steps) (st : State) :
    (b.advance st).next.get d.target.net = (d.run st).next.get d.target.net := by
  rw [next_advance hb.updates hb.walks]
  exact Drive.get_next_foldl_run_mem hb.targets hb.cells hd st

theorem val_advance_mem {n : Nat} (hn : n ∈ b.nets) (st : State) :
    (b.advance st).val.get n = (b.advance st).next.get n := by
  rw [get_val_advance hb.updates hb.walks, if_pos hn]

theorem val_advance_assigns {d : Drive} {x : Word Nat} (hd : d ∈ b.updateAll.steps)
    (hx : d.Assigns x) (st : State) :
    (b.advance st).val.get d.target.net = Width.truncate d.target.width (x.eval st.val.get) := by
  rw [hb.val_advance_mem (hb.held d hd), hb.next_advance_mem hd,
    Drive.get_next_run (by simp [hx.isLatch]), hx.write?_eq, if_pos rfl]
  rfl

theorem next_advance_latch {cell : Nat} {clock x q : Signal}
    (hd : .latch cell clock x q ∈ b.updateAll.steps) (st : State) :
    (b.advance st).next.get q.net =
      if st.val.get clock.net ≠ 0 ∧ st.clock.get cell = false then
        Width.truncate q.width (st.val.get x.net)
      else st.next.get q.net :=
  (hb.next_advance_mem hd st).trans (Drive.get_next_latch cell clock x q st)

theorem clock_advance_latch {cell : Nat} {clock x q : Signal}
    (hd : .latch cell clock x q ∈ b.updateAll.steps) (st : State) :
    (b.advance st).clock.get cell = (st.val.get clock.net != 0) := by
  rw [clock_advance hb.updates hb.walks]
  exact Drive.get_clock_foldl_run_mem hb.cells hd rfl st

theorem next_advance_undriven {n : Nat} (h : ∀ d ∈ b.updateAll.steps, d.target.net ≠ n)
    (st : State) : (b.advance st).next.get n = st.next.get n := by
  rw [next_advance hb.updates hb.walks]
  exact Drive.get_next_foldl_run_of_ne h st

theorem assigned_of_quiet {st : State} (quiet : (b.step st).2 = .ok 0) {d : Drive} {x : Word Nat}
    (hd : d ∈ b.updateAll.steps) (hx : d.Assigns x) :
    st.val.get d.target.net = Width.truncate d.target.width (x.eval st.val.get) := by
  rw [← hb.val_advance_assigns hd hx, (step_eq_zero_iff hb.updates hb.walks).mp quiet]

end Synchronous

variable {b : Block} {st : State}

theorem RegistersOwned.iterate_of_quiet (hb : b.RegistersOwned) {i j : Nat} (hij : i < j)
    (quiet : (b.step (b.advance^[i] st)).2 = .ok 0) : b.advance^[j] st = b.advance^[i + 1] st := by
  have fixed : b.advance (b.advance^[i + 1] st) = b.advance^[i + 1] st := by
    have stays := hb.step_advance quiet
    rw [Function.iterate_succ_apply']
    rw [advance, stays]
  obtain ⟨k, rfl⟩ : ∃ k, j = k + (i + 1) := ⟨j - (i + 1), by omega⟩
  rw [Function.iterate_add_apply, Function.iterate_fixed fixed]

theorem RegistersOwned.settle_of_quiet (hb : b.RegistersOwned) {limit : Int} {i : Nat}
    (hi : i < stepLimit limit) (quiet : (b.step (b.advance^[i] st)).2 = .ok 0) :
    b.settle limit st = (b.advance^[i + 1] st, none) := by
  obtain ⟨updates, walks⟩ := step_ok quiet
  obtain ⟨j, settled, last⟩ := settleWithin_of_quiet updates walks hi quiet
  have same : b.advance^[j + 1] st = b.advance^[i + 1] st := by
    rcases Nat.lt_or_ge i (j + 1) with h | h
    · exact hb.iterate_of_quiet h quiet
    · exact (hb.iterate_of_quiet (by omega) last).symm
  rw [settle_eq_none_iff, settled, same]

end Block

end Circuitry
