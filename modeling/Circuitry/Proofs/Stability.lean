import Circuitry.Library.Clocked
import Circuitry.Proofs.Stepping

/-!
Settled circuits stay as they are. A step that changes no value may still have been seen by the
registers, which remember the level of their clocks; after it every register has seen the present
level, so that a further step writes what is there already, in values, next values and clock levels.
-/

namespace Circuitry

namespace Drive

def cell? : Drive → Option Nat
  | .latch cell .. => some cell
  | _ => none

/-- A register has seen the present level of its clock. -/
def Latched (st : State) : Drive → Prop
  | .latch cell clock _ _ =>
    st.clock.get cell = (st.val.get clock.net != 0) ∧ cell < st.clock.size
  | _ => True

theorem clock_run {d : Drive} (h : d.isLatch = false) (st : State) :
    (d.run st).clock = st.clock := by
  cases d with
  | put t x => rfl
  | putIf test t x => simp only [run]; split <;> rfl
  | flag t x => rfl
  | latch cell clock x q => cases h

theorem Latched.congr {st st' : State} {d : Drive} (h : d.Latched st)
    (val : st'.val.get = st.val.get) (clock : st'.clock = st.clock) : d.Latched st' := by
  cases d with
  | latch cell clk x q =>
    rw [Latched, val, clock]
    exact h
  | _ => trivial

theorem latched_run (d : Drive) (st : State) : d.Latched (d.run st) := by
  cases d with
  | latch cell clock x q =>
    constructor
    · rw [val_run]
      simp [run]
    · simp only [run, Store.size_set]
      omega
  | _ => trivial

theorem Latched.run {st : State} {d r : Drive} (h : r.Latched st)
    (own : r.isLatch = true → d.cell? = r.cell? → d = r) : r.Latched (d.run st) := by
  cases d with
  | latch cell clock x q =>
    cases r with
    | latch cell' clock' x' q' =>
      by_cases same : cell = cell'
      · rw [own rfl (by rw [cell?, cell?, same])]
        exact latched_run _ st
      · obtain ⟨seen, held⟩ := h
        constructor
        · rw [val_run, ← seen]
          simp only [Drive.run]
          split <;> simp [State.setNext, Store.get_set, same]
        · simp only [Drive.run]
          split <;> simp only [State.setNext, Store.size_set] <;> omega
    | _ => trivial
  | _ => exact h.congr (by rw [val_run]) (clock_run rfl st)

theorem latched_foldl_run {ds : List Drive} {r : Drive} (hr : r ∈ ds)
    (own : r.isLatch = true → ∀ d ∈ ds, d.cell? = r.cell? → d = r) (st : State) :
    r.Latched (ds.foldl run st) := by
  obtain ⟨before, after, rfl⟩ := List.append_of_mem hr
  rw [List.foldl_append, List.foldl_cons]
  refine List.foldlRecOn (motive := r.Latched) after run (latched_run r _) ?_
  intro st h d hd
  exact h.run fun latch => own latch d (List.mem_append_right _ (.tail _ hd))

theorem run_eq_self {st : State} {r : Drive} (latch : r.isLatch = true) (h : r.Latched st) :
    r.run st = st := by
  cases r with
  | latch cell clock x q =>
    obtain ⟨seen, held⟩ := h
    simp [run, seen, Store.set_eq_self held seen]
  | _ => cases latch

theorem foldl_run_latched {ds : List Drive} {st : State}
    (h : ∀ d ∈ ds, d.isLatch = true → d.Latched st) :
    ds.foldl run st = (ds.filter (!·.isLatch)).foldl run st := by
  induction ds generalizing st with
  | nil => rfl
  | cons d ds ih =>
    obtain ⟨first, rest⟩ := List.forall_mem_cons.mp h
    cases latch : d.isLatch with
    | true =>
      rw [List.foldl_cons, run_eq_self latch (first latch), ih rest]
      simp [latch]
    | false =>
      rw [List.foldl_cons, ih]
      · simp [latch]
      · intro d' hd' latch'
        exact (rest d' hd' latch').congr (by rw [val_run]) (clock_run latch st)

theorem size_next_run (d : Drive) (st : State) : st.next.size ≤ (d.run st).next.size := by
  rcases next_run_cases d st with ⟨next, -⟩ | ⟨x, next, -⟩
  · exact Nat.le_of_eq (by rw [next])
  · rw [next, Store.size_set]
    exact Nat.le_max_left _ _

theorem lt_size_next_run {d : Drive} {st : State}
    (h : (d.write? st.val.get d.target.net).isSome = true) :
    d.target.net < (d.run st).next.size := by
  rcases next_run_cases d st with ⟨-, write⟩ | ⟨x, next, -⟩
  · rw [write] at h
    cases h
  · rw [next, Store.size_set]
    omega

theorem lt_size_next_foldl_run {ds : List Drive} {d : Drive} (hd : d ∈ ds) {st : State}
    (h : (d.write? st.val.get d.target.net).isSome = true) :
    d.target.net < (ds.foldl run st).next.size := by
  obtain ⟨before, after, rfl⟩ := List.append_of_mem hd
  rw [List.foldl_append, List.foldl_cons]
  refine List.foldlRecOn (motive := fun st => d.target.net < st.next.size) after run ?_ ?_
  · exact lt_size_next_run (by rw [val_foldl_run]; exact h)
  · exact fun st held d' _ => Nat.lt_of_lt_of_le held (size_next_run d' st)

theorem size_next_foldl_run_eq {ds : List Drive} {st : State}
    (latches : ∀ d ∈ ds, d.isLatch = false)
    (held : ∀ d ∈ ds, (d.write? st.val.get d.target.net).isSome = true →
      d.target.net < st.next.size) :
    (ds.foldl run st).next.size = st.next.size := by
  induction ds generalizing st with
  | nil => rfl
  | cons d ds ih =>
    have first : (d.run st).next.size = st.next.size := by
      rcases next_run_cases d st with ⟨next, -⟩ | ⟨x, next, latch | write⟩
      · rw [next]
      · simp [latches d (.head _)] at latch
      · have := held d (.head _) (by rw [write]; rfl)
        rw [next, Store.size_set]
        omega
    rw [List.foldl_cons, ih, first]
    · exact fun d' hd' => latches d' (.tail _ hd')
    · rw [val_run, first]
      exact fun d' hd' => held d' (.tail _ hd')

theorem clock_foldl_run {ds : List Drive} (latches : ∀ d ∈ ds, d.isLatch = false) (st : State) :
    (ds.foldl run st).clock = st.clock := by
  induction ds generalizing st with
  | nil => rfl
  | cons d ds ih =>
    rw [List.foldl_cons, ih (fun d' hd' => latches d' (.tail _ hd')),
      clock_run (latches d (.head _))]

theorem filterMap_filter_latch (ds : List Drive) (v : Nat → UInt64) (n : Nat) :
    (ds.filter (!·.isLatch)).filterMap (write? v n) = ds.filterMap (write? v n) := by
  rw [List.filterMap_filter]
  congr 1
  funext d
  cases d <;> rfl

theorem foldl_run_eq_self {ds : List Drive} {st : State}
    (latched : ∀ d ∈ ds, d.isLatch = true → d.Latched st)
    (written : ∀ n,
      (ds.filterMap (write? st.val.get n)).getLast?.getD (st.next.get n) = st.next.get n)
    (held : ∀ d ∈ ds, (d.write? st.val.get d.target.net).isSome = true →
      d.target.net < st.next.size) :
    ds.foldl run st = st := by
  rw [foldl_run_latched latched]
  have latches : ∀ d ∈ ds.filter (!·.isLatch), d.isLatch = false := by
    intro d hd
    simpa using (List.mem_filter.mp hd).2
  have next : ((ds.filter (!·.isLatch)).foldl run st).next = st.next := by
    apply Store.ext_get
    · exact size_next_foldl_run_eq latches fun d hd => held d (List.mem_filter.mp hd).1
    · intro n
      rw [get_next_foldl_run, filterMap_filter_latch, written]
      intro d hd latch
      simp [latches d hd] at latch
  have val := val_foldl_run (ds.filter (!·.isLatch)) st
  have marked := marked_foldl_run (ds.filter (!·.isLatch)) st
  have clock := clock_foldl_run latches st
  cases h : (ds.filter (!·.isLatch)).foldl run st
  simp_all

end Drive

namespace State

theorem lt_size_commitAll {ns : List Nat} {n : Nat} (hn : n ∈ ns) (acc : State × Nat) :
    n < (ns.foldl commitNet acc).1.val.size := by
  obtain ⟨before, after, rfl⟩ := List.append_of_mem hn
  rw [List.foldl_append, List.foldl_cons]
  refine List.foldlRecOn (motive := fun acc => n < acc.1.val.size) after commitNet ?_ ?_
  · simp only [commitNet, Store.size_set]
    omega
  · intro acc held m _
    simp only [commitNet, Store.size_set]
    omega

theorem commitAll_eq_self {ns : List Nat} {acc : State × Nat}
    (h : ∀ n ∈ ns, acc.1.val.get n = acc.1.next.get n ∧ n < acc.1.val.size) :
    ns.foldl commitNet acc = acc := by
  induction ns with
  | nil => rfl
  | cons n ns ih =>
    obtain ⟨⟨same, held⟩, rest⟩ := List.forall_mem_cons.mp h
    have first : commitNet acc n = acc := by
      simp [commitNet, same, Store.set_eq_self held same]
    rw [List.foldl_cons, first, ih rest]

end State

namespace Block

/-- No drive but a register writes its output, or uses its cell. A shared register may repeat its
own drive. -/
structure RegistersOwned (b : Block) : Prop where
  output : ∀ r ∈ b.updateAll.steps, r.isLatch = true → ∀ d ∈ b.updateAll.steps,
    d.target.net = r.target.net → d = r
  cell : ∀ r ∈ b.updateAll.steps, r.isLatch = true → ∀ d ∈ b.updateAll.steps,
    d.cell? = r.cell? → d = r

variable {b : Block} {st st' : State}

theorem RegistersOwned.written (hb : b.RegistersOwned) (st : State) (n : Nat) :
    (b.updateAll.steps.filterMap (Drive.write? st.val.get n)).getLast?.getD
        ((b.updated st).next.get n) = (b.updated st).next.get n := by
  by_cases register : ∃ r ∈ b.updateAll.steps, r.isLatch = true ∧ r.target.net = n
  · obtain ⟨r, hr, latch, rfl⟩ := register
    have none : b.updateAll.steps.filterMap (Drive.write? st.val.get r.target.net) = [] := by
      rw [List.filterMap_eq_nil_iff]
      intro d hd
      rw [← Option.not_isSome_iff_eq_none]
      intro write
      obtain rfl := hb.output r hr latch d hd (Drive.target_of_write? write)
      cases d with
      | latch => cases write
      | _ => cases latch
    rw [none]
    rfl
  · rw [updated, Drive.get_next_foldl_run]
    · cases (b.updateAll.steps.filterMap (Drive.write? st.val.get n)).getLast? <;> rfl
    · exact fun d hd latch same => register ⟨d, hd, latch, same⟩

theorem RegistersOwned.step_advance (hb : b.RegistersOwned) (quiet : (b.step st).2 = .ok 0) :
    b.step (b.advance st) = (b.advance st, .ok 0) := by
  obtain ⟨updates, walks⟩ := step_ok quiet
  have val : (b.advance st).val.get = st.val.get := by
    funext n
    exact (step_eq_zero_iff updates walks).mp quiet n
  have next := next_advance updates walks st
  have clock := clock_advance updates walks st
  have update : b.updated (b.advance st) = b.advance st := by
    apply Drive.foldl_run_eq_self
    · intro r hr latch
      refine (Drive.latched_foldl_run hr (hb.cell r hr) st).congr ?_ clock
      rw [val, Drive.val_foldl_run]
    · intro n
      rw [val, next]
      exact hb.written st n
    · intro d hd write
      rw [next]
      exact Drive.lt_size_next_foldl_run hd (val ▸ write)
  rw [step_eq updates walks, update, State.commitAll_eq_self]
  intro n hn
  constructor
  · rw [get_val_advance updates walks, if_pos hn]
  · rw [advance, step_eq updates walks]
    exact State.lt_size_commitAll hn _

/-- A circuit that has settled does nothing in any further step, so that it settles again at once. A
larger limit makes no difference to one that settles, and a circuit that does not settle changes the
value of a signal in every step. -/
theorem settled_stable (b : Block) (hb : b.RegistersOwned) (limit : Int) (st st' : State) :
    (b.settle limit st = (st', none) →
      (∀ i, b.step (b.advance^[i] st') = (st', .ok 0)) ∧
        (∀ limit', b.settle limit' st' = (st', none)) ∧
        ∀ limit', 0 < limit → limit ≤ limit' → b.settle limit' st = (st', none)) ∧
      ∀ k, b.settle limit st = (st', some (.unsettled k)) → ∀ i < stepLimit limit,
        ∃ s, Atom.signal s ∈ b.leaves ∧
          (b.advance^[i + 1] st).val.get s.net ≠ (b.advance^[i] st).val.get s.net := by
  constructor
  · intro settled
    rw [settle_eq_none_iff, settleWithin_eq_settled_iff] at settled
    obtain ⟨i, hi, moves, last⟩ := settled
    have reached : b.advance (b.advance^[i] st) = st' := by rw [advance, last]
    have again : b.step st' = (st', .ok 0) := reached ▸ hb.step_advance (by rw [last])
    have stays : b.advance st' = st' := by rw [advance, again]
    refine ⟨?_, ?_, ?_⟩
    · intro i
      rw [Function.iterate_fixed stays, again]
    · intro limit'
      rw [settle_eq_none_iff, settleWithin_eq_settled_iff]
      refine ⟨0, ?_, by simp, again⟩
      rw [stepLimit]
      split <;> omega
    · intro limit' pos le
      rw [settle_eq_none_iff, settleWithin_eq_settled_iff]
      refine ⟨i, Nat.lt_of_lt_of_le hi ?_, moves, last⟩
      rw [stepLimit, stepLimit, if_neg (by omega), if_neg (by omega)]
      omega
  · intro k unsettled i hi
    obtain ⟨k, moves⟩ := moves_of_unsettled (settleWithin_of_settle unsettled) i hi
    rw [Function.iterate_succ_apply']
    exact exists_changed moves

def toggleRegister : FlipFlop where
  clock := { net := 1, kind := .input, width := 1, type := .bits 1 }
  d := { net := 2, kind := .input, width := 1, type := .bits 1 }
  q := { net := 3, kind := .output, width := 1, type := .bits 1 }
  cell := 0

def toggle : Block :=
  let clock : Signal := { net := 0, kind := .input, width := 1, type := .bits 1 }
  let seen : Signal := { net := 4, kind := .output, width := 1, type := .bits 1 }
  let r := toggleRegister
  .named
    { typeName := "Toggle"
      boundary := .scope
      update := .ofList
        [.put r.clock (.var 0), .put r.d (.compl (.var 3)), .putIf (.var 3) seen (.lit 1)] }
    [("clock", .signal clock), ("ff", r.block), ("same", r.block), ("seen", .signal seen)]

def toggleStart : State :=
  ({} : State).setNext { net := 0, kind := .input, width := 1, type := .bits 1 } 1

theorem mem_toggle {d : Drive} (h : d ∈ toggle.updateAll.steps) :
    d = .latch 0 toggleRegister.clock toggleRegister.d toggleRegister.q ∨
      d.isLatch = false ∧ d.cell? = none ∧ d.target.net ≠ 3 := by
  rcases h with _ | ⟨_, _ | ⟨_, _ | ⟨_, _ | ⟨_, _ | ⟨_, ⟨⟩⟩⟩⟩⟩⟩
  · exact .inr ⟨rfl, rfl, by decide⟩
  · exact .inr ⟨rfl, rfl, by decide⟩
  · exact .inr ⟨rfl, rfl, by decide⟩
  · exact .inl rfl
  · exact .inl rfl

theorem toggle_registersOwned : toggle.RegistersOwned where
  output := by
    intro r hr latch d hd same
    obtain rfl | ⟨other, -, -⟩ := mem_toggle hr
    · obtain rfl | ⟨-, -, target⟩ := mem_toggle hd
      · rfl
      · exact absurd same target
    · simp [other] at latch
  cell := by
    intro r hr latch d hd same
    obtain rfl | ⟨other, -, -⟩ := mem_toggle hr
    · obtain rfl | ⟨-, none, -⟩ := mem_toggle hd
      · rfl
      · rw [none] at same
        cases same
    · simp [other] at latch

theorem settled_stable_toggle :
    toggle.RegistersOwned ∧
      (∃ final, toggle.settle 5 toggleStart = (final, none) ∧
        (∀ i, toggle.step (toggle.advance^[i] final) = (final, .ok 0)) ∧
        toggle.settle 9 toggleStart = (final, none) ∧
        (final.val.get 3, final.val.get 4, final.clock.get 0) = (1, 1, true)) ∧
      ∃ late, toggle.settle 4 toggleStart = (late, some (.unsettled 4)) ∧
        ∀ i < 4, ∃ s, Atom.signal s ∈ toggle.leaves ∧
          (toggle.advance^[i + 1] toggleStart).val.get s.net ≠
            (toggle.advance^[i] toggleStart).val.get s.net := by
  have settled : toggle.settle 5 toggleStart = (_, none) := Prod.ext rfl (by rfl)
  have unsettled : toggle.settle 4 toggleStart = (_, some (.unsettled 4)) := Prod.ext rfl (by rfl)
  obtain ⟨stable, -, longer⟩ := (settled_stable toggle toggle_registersOwned 5 _ _).1 settled
  have changes := (settled_stable toggle toggle_registersOwned 4 _ _).2 4 unsettled
  refine ⟨toggle_registersOwned, ⟨_, settled, stable, longer 9 (by decide) (by decide), ?_⟩,
    _, unsettled, changes⟩
  rfl

end Block

end Circuitry
