import Circuitry.Proofs.Catalogue
import Circuitry.Proofs.Waves
import Mathlib.Algebra.GroupWithZero.Nat

/-!
The port sets of a fan-out, from any state and with any inputs. Data and its validity go down through
the stage, readiness goes up through it, each in three steps after the inputs; what the twelve signals
of a port set come to depends on the three inputs of that set alone.
-/

namespace Circuitry

/-- The values of the signals of a block, and those that are to come, are no wider than the signals. -/
def State.Within (st : State) (b : Block) : Prop :=
  ∀ s, Atom.signal s ∈ b.leaves →
    Width.truncate s.width (st.val.get s.net) = st.val.get s.net ∧
      Width.truncate s.width (st.next.get s.net) = st.next.get s.net

namespace State

def putAll (st : State) (inputs : List (Signal × Option UInt64)) : State :=
  inputs.foldl (fun st x => x.2.elim st (st.setNext x.1)) st

variable {inputs : List (Signal × Option UInt64)} {n : Nat}

theorem next_putAll_of_ne (h : ∀ x ∈ inputs, x.1.net ≠ n) (st : State) :
    (st.putAll inputs).next.get n = st.next.get n := by
  induction inputs generalizing st with
  | nil => rfl
  | cons x inputs ih =>
    obtain ⟨first, rest⟩ := List.forall_mem_cons.mp h
    refine (ih rest (x.2.elim st (st.setNext x.1))).trans ?_
    cases x.2 with
    | none => rfl
    | some v => exact Store.get_set_of_ne first ..

theorem next_putAll (apart : (inputs.map (·.1.net)).Nodup) {s : Signal} {v : Option UInt64}
    (h : (s, v) ∈ inputs) (st : State) :
    (st.putAll inputs).next.get s.net = v.elim (st.next.get s.net) (Width.truncate s.width) := by
  obtain ⟨before, after, rfl⟩ := List.append_of_mem h
  simp only [List.map_append, List.map_cons, List.nodup_middle, List.nodup_cons, List.mem_append,
    List.mem_map, not_or, not_exists, not_and] at apart
  obtain ⟨⟨earlier, later⟩, -⟩ := apart
  have start := next_putAll_of_ne earlier st
  rw [putAll, List.foldl_append, List.foldl_cons]
  refine (next_putAll_of_ne later _).trans ?_
  cases v with
  | none => exact start
  | some v => exact Store.get_set_self ..

end State

theorem Width.truncate_elim (width : Int) (old : UInt64) (h : truncate width old = old)
    (v : Option UInt64) :
    truncate width (v.elim old (truncate width)) = v.elim old (truncate width) := by
  cases v with
  | none => exact h
  | some v => exact truncate_truncate ..

namespace PortSet

def signals (p : PortSet) : List Signal :=
  [p.port.data, p.port.valid, p.port.ready, p.out.data, p.out.valid, p.out.ready,
    p.stage.input.data, p.stage.input.valid, p.stage.input.ready,
    p.stage.output.data, p.stage.output.valid, p.stage.output.ready]

structure Stimulus where
  data : Option UInt64 := none
  valid : Option UInt64 := none
  ready : Option UInt64 := none

def inputs (p : PortSet) (c : Stimulus) : List (Signal × Option UInt64) :=
  [(p.port.data, c.data), (p.port.valid, c.valid), (p.out.ready, c.ready)]

/-- The inputs of a port set have come to what was put on them, or was to come before; the stream that
goes out is the one that comes in with one added to its data, and the port is ready when the stream
that goes out is. -/
structure Transfers (p : PortSet) (width : Int) (c : Stimulus) (st final : State) : Prop where
  givenData : final.val.get p.port.data.net =
    c.data.elim (st.next.get p.port.data.net) (Width.truncate width)
  givenValid : final.val.get p.port.valid.net =
    c.valid.elim (st.next.get p.port.valid.net) (Width.truncate 1)
  givenReady : final.val.get p.out.ready.net =
    c.ready.elim (st.next.get p.out.ready.net) (Width.truncate 1)
  data : (final.val.get p.out.data.net).toNat =
    ((final.val.get p.port.data.net).toNat + 1) % 2 ^ width.toNat
  valid : final.val.get p.out.valid.net = final.val.get p.port.valid.net
  ready : final.val.get p.port.ready.net = final.val.get p.out.ready.net

/-- What the signals come to, by what the inputs are. -/
def outcome (width : Int) (data valid ready : UInt64) : List UInt64 :=
  let word := Width.truncate width
  let bit := Width.truncate 1
  [data, valid, bit (bit (bit ready)), word (word (word data + 1)), bit (bit (bit valid)), ready,
    word data, bit valid, bit (bit ready), word (word data + 1), bit (bit valid), bit ready]

theorem exists_signal (net : Nat) (width : Int) {o : Nat} (ho : o < 12) :
    ∃ s ∈ (placed net width).signals, s.net = net + o := by
  have nets : (placed net width).signals.map (·.net) = (List.range 12).map (net + ·) := rfl
  have mem : net + o ∈ (placed net width).signals.map (·.net) :=
    nets ▸ List.mem_map_of_mem (List.mem_range.mpr ho)
  exact List.mem_map.mp mem

end PortSet

namespace Fanout

def inputs (x : Fanout) (c : Nat → PortSet.Stimulus) : List (Signal × Option UInt64) :=
  x.sets.zipIdx.flatMap fun (p, i) => p.inputs (c i)

def run (x : Fanout) (st : State) (c : Nat → PortSet.Stimulus) : State × Option Failure :=
  x.block.settle 0 (st.putAll (x.inputs c))

/-- The states are the same at every port set but one. -/
def AgreeBeside (x : Fanout) (j : Nat) (st st' : State) : Prop :=
  ∀ i ≠ j, ∀ p : PortSet, x.sets[i]? = some p → ∀ s ∈ p.signals,
    st.val.get s.net = st'.val.get s.net ∧ st.next.get s.net = st'.next.get s.net

section Inputs

variable (net count : Nat) (width : Int) (c : Nat → PortSet.Stimulus)

theorem inputs_placed :
    (placed net count width).inputs c =
      (List.range count).flatMap fun i => (PortSet.placed (net + 12 * i) width).inputs (c i) := by
  have numbered : (placed net count width).sets.zipIdx =
      (List.range count).map fun i => (PortSet.placed (net + 12 * i) width, i) := by
    apply List.ext_getElem
    · simp [placed]
    · intro i h h'
      simp [placed]
  rw [inputs, numbered, List.flatMap_map]

theorem nodup_inputs : (((placed net count width).inputs c).map (·.1.net)).Nodup := by
  have nets (i : Nat) : ((PortSet.placed (net + 12 * i) width).inputs (c i)).map (·.1.net) =
      [net + 12 * i, net + 12 * i + 1, net + 12 * i + 5] := rfl
  rw [inputs_placed, List.map_flatMap, List.nodup_flatMap]
  simp only [nets]
  refine ⟨fun i _ => by simp, List.nodup_range.imp fun {i j} ne => ?_⟩
  simp only [Function.onFun, List.disjoint_cons_left, List.disjoint_nil_left, List.mem_cons,
    List.not_mem_nil, or_false, and_true]
  omega

end Inputs

section Placed

variable {net count : Nat} {width : Int} {i : Nat} (hi : i < count) {st : State}

include hi

theorem mem_port_drives {d : Drive} (hd : d ∈ PortSet.drives (net + 12 * i) width) :
    d ∈ (placed net count width).block.updateAll.steps := by
  rw [updateAll_placed]
  exact List.mem_append_left _ (List.mem_flatMap.mpr ⟨i, List.mem_range.mpr hi, hd⟩)

theorem mem_stage_drives {d : Drive} (hd : d ∈ Increment.drives (net + 12 * i + 6) width) :
    d ∈ (placed net count width).block.updateAll.steps := by
  rw [updateAll_placed]
  exact List.mem_append_right _ (List.mem_flatMap.mpr ⟨i, List.mem_range.mpr hi, hd⟩)

theorem signal_mem_leaves {s : Signal} (hs : s ∈ (PortSet.placed (net + 12 * i) width).signals) :
    Atom.signal s ∈ (placed net count width).block.leaves := by
  have inside := List.mem_range.mpr hi
  have mem : Atom.signal s ∈ (Stream.placedSink (net + 12 * i) width).sinkBlock.leaves
      ++ (Stream.placedSource (net + 12 * i + 3) width).sourceBlock.leaves
      ++ (Increment.placed (net + 12 * i + 6) width).block.leaves :=
    List.mem_map_of_mem (f := Atom.signal) hs
  rw [leaves_placed]
  simp only [List.mem_append, List.mem_flatMap] at mem ⊢
  exact mem.imp (Or.imp (⟨i, inside, ·⟩) (⟨i, inside, ·⟩)) (⟨i, inside, ·⟩)

theorem wave_input {o : Nat} (ho : o ∈ [0, 1, 5]) (k : Nat) :
    (placed net count width).block.wave st (net + 12 * i + o) (k + 1) =
      st.next.get (net + 12 * i + o) := by
  simp only [List.mem_cons, List.not_mem_nil, or_false] at ho
  apply (synchronous net count width).wave_undriven
  · obtain ⟨s, hs, place⟩ := PortSet.exists_signal (net + 12 * i) width (show o < 12 by omega)
    rw [Block.mem_nets (walk_placed net count width "")]
    exact ⟨s, signal_mem_leaves hi hs, place⟩
  · intro d hd
    rw [updateAll_placed] at hd
    simp only [Script.ofList, List.mem_append, List.mem_flatMap] at hd
    rcases hd with ⟨j, -, hd⟩ | ⟨j, -, hd⟩
    · have target : d.target.net ∈ [net + 12 * j + 6, net + 12 * j + 7, net + 12 * j + 2,
          net + 12 * j + 3, net + 12 * j + 4, net + 12 * j + 11] :=
        List.mem_map_of_mem (f := (·.target.net)) hd
      simp only [List.mem_cons, List.not_mem_nil, or_false] at target
      omega
    · have target : d.target.net ∈ [net + 12 * j + 9, net + 12 * j + 10, net + 12 * j + 8] :=
        List.mem_map_of_mem (f := (·.target.net)) hd
      simp only [List.mem_cons, List.not_mem_nil, or_false] at target
      omega

theorem wave_signals (k : Nat) :
    (PortSet.placed (net + 12 * i) width).signals.map
        (fun s => (placed net count width).block.wave st s.net (k + 4)) =
      PortSet.outcome width (st.next.get (net + 12 * i)) (st.next.get (net + 12 * i + 1))
        (st.next.get (net + 12 * i + 5)) := by
  have hb := synchronous net count width
  let f (o k : Nat) : UInt64 := (placed net count width).block.wave st (net + 12 * i + o) k
  have data (k : Nat) : f 0 (k + 1) = st.next.get (net + 12 * i) := wave_input hi (by decide) k
  have valid (k : Nat) : f 1 (k + 1) = st.next.get (net + 12 * i + 1) := wave_input hi (by decide) k
  have ready (k : Nat) : f 5 (k + 1) = st.next.get (net + 12 * i + 5) := wave_input hi (by decide) k
  have port {n : Nat} {d : Drive} (hd : (PortSet.drives (net + 12 * i) width)[n]? = some d) :
      d ∈ (placed net count width).block.updateAll.steps :=
    mem_port_drives hi (List.mem_of_getElem? hd)
  have stage {n : Nat} {d : Drive} (hd : (Increment.drives (net + 12 * i + 6) width)[n]? = some d) :
      d ∈ (placed net count width).block.updateAll.steps :=
    mem_stage_drives hi (List.mem_of_getElem? hd)
  have stageData : ∀ k, f 6 (k + 1) = Width.truncate width (f 0 k) := hb.wave_put (port (n := 0) rfl)
  have stageValid : ∀ k, f 7 (k + 1) = Width.truncate 1 (f 1 k) := hb.wave_put (port (n := 1) rfl)
  have portReady : ∀ k, f 2 (k + 1) = Width.truncate 1 (f 8 k) := hb.wave_put (port (n := 2) rfl)
  have outData : ∀ k, f 3 (k + 1) = Width.truncate width (f 9 k) := hb.wave_put (port (n := 3) rfl)
  have outValid : ∀ k, f 4 (k + 1) = Width.truncate 1 (f 10 k) := hb.wave_put (port (n := 4) rfl)
  have stageReady : ∀ k, f 11 (k + 1) = Width.truncate 1 (f 5 k) := hb.wave_put (port (n := 5) rfl)
  have sum : ∀ k, f 9 (k + 1) = Width.truncate width (f 6 k + 1) := hb.wave_put (stage (n := 0) rfl)
  have passed : ∀ k, f 10 (k + 1) = Width.truncate 1 (f 7 k) := hb.wave_put (stage (n := 1) rfl)
  have back : ∀ k, f 8 (k + 1) = Width.truncate 1 (f 11 k) := hb.wave_put (stage (n := 2) rfl)
  change [f 0 (k + 4), f 1 (k + 4), f 2 (k + 4), f 3 (k + 4), f 4 (k + 4), f 5 (k + 4), f 6 (k + 4),
    f 7 (k + 4), f 8 (k + 4), f 9 (k + 4), f 10 (k + 4), f 11 (k + 4)] = _
  simp only [data, valid, ready, stageData, stageValid, stageReady, sum, passed, back, portReady,
    outData, outValid, PortSet.outcome]

omit hi in
theorem steady (n : Nat) : (placed net count width).block.Steady st 4 n := by
  have hb := synchronous net count width
  intro k hk
  obtain ⟨k, rfl⟩ : ∃ j, k = j + 4 := ⟨k - 4, by omega⟩
  by_cases inside : n ∈ (placed net count width).block.nets
  · obtain ⟨s, hs, rfl⟩ := (Block.mem_nets (walk_placed net count width "")).mp inside
    obtain ⟨_, same, i, hi, o, ho, place⟩ := exists_offset net count width hs
    obtain rfl := Atom.signal.inj same
    obtain ⟨s, hs, net_eq⟩ := PortSet.exists_signal (net + 12 * i) width ho
    have both := @wave_signals net count width i hi st (k + 1)
    rw [← wave_signals hi k] at both
    rw [place, ← net_eq, Nat.add_right_comm k 4 1]
    exact List.map_inj_left.mp both s hs
  · rw [Block.wave, Function.iterate_succ_apply', Block.get_val_advance hb.updates hb.walks,
      if_neg inside, Block.wave]

end Placed

section Run

variable (net count : Nat) (width : Int) (st : State) (c : Nat → PortSet.Stimulus)

theorem run_placed :
    (placed net count width).run st c =
      ((placed net count width).block.advance^[5]
        (st.putAll ((placed net count width).inputs c)), none) :=
  (synchronous net count width).settle_of_steady (by decide) steady

theorem signals_run {i : Nat} (hi : i < count) :
    (PortSet.placed (net + 12 * i) width).signals.map
        (fun s => ((placed net count width).run st c).1.val.get s.net) =
      PortSet.outcome width
        ((c i).data.elim (st.next.get (net + 12 * i)) (Width.truncate width))
        ((c i).valid.elim (st.next.get (net + 12 * i + 1)) (Width.truncate 1))
        ((c i).ready.elim (st.next.get (net + 12 * i + 5)) (Width.truncate 1)) := by
  let start : State := st.putAll ((placed net count width).inputs c)
  have put {s : Signal} {v : Option UInt64}
      (h : (s, v) ∈ (PortSet.placed (net + 12 * i) width).inputs (c i)) :
      start.next.get s.net = v.elim (st.next.get s.net) (Width.truncate s.width) := by
    apply State.next_putAll (nodup_inputs net count width c)
    rw [inputs_placed]
    exact List.mem_flatMap.mpr ⟨i, List.mem_range.mpr hi, h⟩
  have data : start.next.get (net + 12 * i) = _ := put (.head _)
  have valid : start.next.get (net + 12 * i + 1) = _ := put (.tail _ (.head _))
  have ready : start.next.get (net + 12 * i + 5) = _ := put (.tail _ (.tail _ (.head _)))
  have settled := @wave_signals net count width i hi start 1
  rw [data, valid, ready] at settled
  rw [run_placed]
  exact settled

theorem getElem?_sets {i : Nat} {p : PortSet} (h : (placed net count width).sets[i]? = some p) :
    i < count ∧ p = .placed (net + 12 * i) width := by
  simp only [placed, List.getElem?_map, Option.map_eq_some_iff, List.getElem?_eq_some_iff,
    List.getElem_range, List.length_range] at h
  obtain ⟨j, ⟨hj, rfl⟩, rfl⟩ := h
  exact ⟨hj, rfl⟩

end Run

variable {net count : Nat} {width : Int} {st : State} {c : Nat → PortSet.Stimulus} in
theorem transfers_placed (low : 0 ≤ width) (high : width ≤ 64)
    (within : st.Within (placed net count width).block) {i : Nat} {p : PortSet}
    (hp : (placed net count width).sets[i]? = some p) :
    p.Transfers width (c i) st ((placed net count width).run st c).1 := by
  obtain ⟨hi, rfl⟩ := getElem?_sets net count width hp
  have signals := signals_run net count width st c hi
  simp only [PortSet.signals, PortSet.outcome, List.map_cons, List.map_nil, List.cons.injEq] at signals
  obtain ⟨data, valid, portReady, outData, outValid, ready, -⟩ := signals
  have next {n : Nat} {s : Signal} (hs : (PortSet.placed (net + 12 * i) width).signals[n]? = some s) :=
    (within s (signal_mem_leaves hi (List.mem_of_getElem? hs))).2
  have fitsData := Width.truncate_elim width (st.next.get (net + 12 * i)) (next (n := 0) rfl) (c i).data
  have fitsValid := Width.truncate_elim 1 (st.next.get (net + 12 * i + 1)) (next (n := 1) rfl)
    (c i).valid
  have fitsReady := Width.truncate_elim 1 (st.next.get (net + 12 * i + 5)) (next (n := 5) rfl)
    (c i).ready
  refine ⟨data, valid, ready, ?_, ?_, ?_⟩
  · rw [outData, data, fitsData, Width.truncate_truncate, Width.toNat_truncate_add low high]
    rfl
  · rw [outValid, valid, fitsValid, fitsValid, fitsValid]
  · rw [portReady, ready, fitsReady, fitsReady, fitsReady]

theorem run_eq_beside {net count : Nat} {width : Int} {st st' : State} {c c' : Nat → PortSet.Stimulus}
    {j : Nat}
    (agree : (placed net count width).AgreeBeside j st st') (same : ∀ i ≠ j, c i = c' i) {i : Nat}
    (ne : i ≠ j) {p : PortSet} (hp : (placed net count width).sets[i]? = some p) :
    ∀ s ∈ p.signals, ((placed net count width).run st c).1.val.get s.net =
      ((placed net count width).run st' c').1.val.get s.net := by
  obtain ⟨hi, rfl⟩ := getElem?_sets net count width hp
  have next {o : Nat} (ho : o < 12) :
      st.next.get (net + 12 * i + o) = st'.next.get (net + 12 * i + o) := by
    obtain ⟨s, hs, place⟩ := PortSet.exists_signal (net + 12 * i) width ho
    exact place ▸ (agree i ne _ hp s hs).2
  have data : st.next.get (net + 12 * i) = st'.next.get (net + 12 * i) := next (o := 0) (by decide)
  apply List.map_inj_left.mp
  rw [signals_run net count width st c hi, signals_run net count width st' c' hi, same i ne, data,
    next (o := 1) (by decide), next (o := 5) (by decide)]

/-- A new fan-out settles from every state within the widths of its signals, whatever is put on its
inputs. Each of its port sets then passes the stream through its stage, and comes to the same values
in two runs that differ in the state or the inputs of another port set. -/
theorem transfers_streams (count width : Int) (nonneg : 0 ≤ count) (low : 1 ≤ width)
    (high : width ≤ 64) (s : Supply) :
    ∃ x s', make count width s = .ok (x, s') ∧ x.sets.length = count ∧
      (∀ st c, st.Within x.block → (x.run st c).2 = none ∧
        ∀ (i : Nat) (p : PortSet), x.sets[i]? = some p →
          p.Transfers width (c i) st (x.run st c).1) ∧
      ∀ st st' c c' j, x.AgreeBeside j st st' → (∀ i ≠ j, c i = c' i) →
        ∀ i ≠ j, ∀ p : PortSet, x.sets[i]? = some p → ∀ s ∈ p.signals,
          (x.run st c).1.val.get s.net = (x.run st' c').1.val.get s.net := by
  refine ⟨_, _, make_eq nonneg (by omega) s, ?_, fun st c within => ⟨?_, ?_⟩, ?_⟩
  · simp [placed, Int.toNat_of_nonneg nonneg]
  · rw [run_placed]
  · exact fun i p hp => transfers_placed (by omega) high within hp
  · intro st st' c c' j agree same i ne p hp
    exact run_eq_beside agree same ne hp

theorem transfers_streams_two :
    let c (i : Nat) : PortSet.Stimulus := if i = 1 then { data := some 3 } else { data := some 15 }
    let c' (i : Nat) : PortSet.Stimulus := if i = 1 then { ready := some 1 } else { data := some 15 }
    (0 ≤ (2 : Int) ∧ 1 ≤ (4 : Int) ∧ (4 : Int) ≤ 64) ∧
      ∃ x s' p q, make 2 4 {} = .ok (x, s') ∧ x.sets = [p, q] ∧ ({} : State).Within x.block ∧
        (x.run {} c).2 = none ∧
        ((x.run {} c).1.val.get p.out.data.net).toNat = 0 ∧
        ((x.run {} c).1.val.get q.out.data.net).toNat = 4 ∧
        (x.run {} c').1.val.get q.port.ready.net = 1 ∧
        ∀ s ∈ p.signals, (x.run {} c).1.val.get s.net = (x.run {} c').1.val.get s.net := by
  intro c c'
  obtain ⟨x, s', made, two, settles, beside⟩ :=
    transfers_streams 2 4 (by decide) (by decide) (by decide) {}
  obtain ⟨p, q, sets⟩ := List.length_eq_two.mp (Int.ofNat_inj.mp two)
  have first : x.sets[0]? = some p := by rw [sets]; rfl
  have second : x.sets[1]? = some q := by rw [sets]; rfl
  have within : ({} : State).Within x.block := by
    intro s _
    exact ⟨Width.truncate_zero _, Width.truncate_zero _⟩
  obtain ⟨settled, transfers⟩ := settles {} c within
  have full := transfers 0 p first
  have three := transfers 1 q second
  have ready := (settles {} c' within).2 1 q second
  refine ⟨by decide, x, s', p, q, made, sets, within, settled, ?_, ?_, ?_, ?_⟩
  · rw [full.data, full.givenData]
    change ((Width.truncate 4 15).toNat + 1) % 2 ^ 4 = 0
    decide
  · rw [three.data, three.givenData]
    change ((Width.truncate 4 3).toNat + 1) % 2 ^ 4 = 4
    decide
  · rw [ready.ready, ready.givenReady]
    exact Width.truncate_one (by decide)
  · refine beside {} {} c c' 1 (fun _ _ _ _ _ _ => ⟨rfl, rfl⟩) ?_ 0 (by decide) p first
    intro i ne
    simp only [c, c', if_neg ne]

end Fanout

end Circuitry
