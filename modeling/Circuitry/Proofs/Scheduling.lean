import Circuitry.Proofs.Delivery
import Mathlib.Algebra.GroupWithZero.Nat

/-!
Designs generated by tasks that run side by side. A task starts when there is room for it, makes the
text of its design, writes it and keeps its result in a place of its own; in between, any other task may
take a step. Whatever the order of the steps, they come to what one task after the other comes to.
-/

namespace Circuitry.Command

/-! ### Tasks -/

inductive Stage where
  | waiting
  | started
  | generated (result : Except Failure String)
  | finished (result : Except Miss String)
  | abandoned

namespace Stage

def running : Stage → Bool
  | started | generated _ => true
  | waiting | finished _ | abandoned => false

def ended : Stage → Bool
  | finished _ | abandoned => true
  | waiting | started | generated _ => false

def left : Stage → Nat
  | waiting => 3
  | started => 2
  | generated _ => 1
  | finished _ | abandoned => 0

def result? : Stage → Option (Except Miss String)
  | finished result => some result
  | waiting | started | generated _ | abandoned => none

/-- The task has come this far with its design as if the design were alone on the volume. -/
def Lawful (s : Settings) (v₀ : Volume) (d : Design) : Stage → Prop
  | waiting | started => True
  | generated r => r = (d.generate s.top s.unchecked).result
  | finished result => result = (generateOne s v₀ d).2.2
  | abandoned => False

def log (s : Settings) (v₀ : Volume) (d : Design) : Stage → List Log.Message
  | waiting | started | abandoned => []
  | generated _ => tagged d (d.generate s.top s.unchecked).log
  | finished _ => (generateOne s v₀ d).2.1

end Stage

/-- Tasks on one volume, one for each selected design. The first task that gives up cancels the pool. -/
structure Pool where
  tasks : List (Design × Stage)
  cancelled : Bool := false
  volume : Volume
  log : List Log.Message := []

/-- How many tasks may run at a time: as many as the settings say, or one for each processor. -/
def limit (s : Settings) (processors count : Nat) : Nat :=
  min (if s.jobs ≤ 0 then processors else s.jobs.toNat) count

theorem exists_split_of_getElem? {α : Type} {l : List α} {i : Nat} {a : α} (h : l[i]? = some a) :
    ∃ before after, l = before ++ a :: after ∧ ∀ x, l.set i x = before ++ x :: after := by
  obtain ⟨inside, rfl⟩ := List.getElem?_eq_some_iff.mp h
  refine ⟨l.take i, l.drop (i + 1), ?_, fun x => ?_⟩
  · rw [List.cons_getElem_drop_succ, List.take_append_drop]
  · rw [List.set_eq_take_append_cons_drop, if_pos inside]

namespace Pool

def start (ds : List Design) (v : Volume) : Pool where
  tasks := ds.map fun d => (d, .waiting)
  volume := v

def put (p : Pool) (i : Nat) (t : Design × Stage) (v : Volume) (log : List Log.Message) : Pool :=
  { p with tasks := p.tasks.set i t, volume := v, log := p.log ++ log }

/-- One step of the `i`-th task, if it can take one. -/
def advance (s : Settings) (room : Nat) (p : Pool) (i : Nat) : Option Pool :=
  match p.tasks[i]? with
  | some (d, .waiting) =>
    if p.tasks.countP (·.2.running) < room then some (p.put i (d, .started) p.volume []) else none
  | some (d, .started) =>
    if p.cancelled then some { p.put i (d, .abandoned) p.volume [] with cancelled := true }
    else
      let r := d.generate s.top s.unchecked
      some (p.put i (d, .generated r.result) p.volume (tagged d r.log))
  | some (d, .generated r) =>
    let (v, log, result) := deliver s p.volume d r
    some (p.put i (d, .finished result) v log)
  | some (_, .finished _) | some (_, .abandoned) | none => none

def run (s : Settings) (room : Nat) : Pool → List Nat → Option Pool
  | p, [] => some p
  | p, i :: order => (p.advance s room i).bind fun p => p.run s room order

def complete (p : Pool) : Bool := p.tasks.all (·.2.ended)

def results (p : Pool) : List (Design × Except Miss String) :=
  p.tasks.filterMap fun (d, stage) => stage.result?.map fun result => (d, result)

def left (p : Pool) : Nat := (p.tasks.map (·.2.left)).sum

section Steps

variable {s : Settings} {room : Nat} {p p' : Pool} {i : Nat}

theorem advance_cases (h : p.advance s room i = some p') :
    ∃ d, (p.tasks[i]? = some (d, .waiting) ∧ p' = p.put i (d, .started) p.volume []) ∨
      (p.tasks[i]? = some (d, .started) ∧ p.cancelled = true ∧
        p' = { p.put i (d, .abandoned) p.volume [] with cancelled := true }) ∨
      (p.tasks[i]? = some (d, .started) ∧ p.cancelled = false ∧
        p' = p.put i (d, .generated (d.generate s.top s.unchecked).result) p.volume
          (tagged d (d.generate s.top s.unchecked).log)) ∨
      ∃ r, p.tasks[i]? = some (d, .generated r) ∧
        p' = p.put i (d, .finished (deliver s p.volume d r).2.2) (deliver s p.volume d r).1
          (deliver s p.volume d r).2.1 := by
  rw [advance] at h
  split at h
  · rename_i d found
    split at h
    · exact ⟨d, .inl ⟨found, (Option.some.inj h).symm⟩⟩
    · cases h
  · rename_i d found
    split at h
    · rename_i stopped
      exact ⟨d, .inr (.inl ⟨found, stopped, (Option.some.inj h).symm⟩)⟩
    · rename_i going
      exact ⟨d, .inr (.inr (.inl ⟨found, by simpa using going, (Option.some.inj h).symm⟩))⟩
  · rename_i d r found
    exact ⟨d, .inr (.inr (.inr ⟨r, found, (Option.some.inj h).symm⟩))⟩
  all_goals cases h

end Steps

/-! ### What every order keeps -/

/-- Some steps from the start, the tasks are where they would be if each had a volume to itself. -/
structure Faithful (s : Settings) (v₀ : Volume) (ds : List Design) (order : List Nat) (p : Pool) :
    Prop where
  designs : p.tasks.map (·.1) = ds
  going : p.cancelled = false
  lawful : ∀ t ∈ p.tasks, t.2.Lawful s v₀ t.1
  written : Written s v₀ p.volume fun d => ∃ result, (d, .finished result) ∈ p.tasks
  steps : ∀ i, order.count i + p.tasks[i]?.elim 3 (·.2.left) = 3
  logged : p.log.Perm (p.tasks.flatMap fun t => t.2.log s v₀ t.1)

namespace Faithful

variable {s : Settings} {v₀ : Volume} {ds designs : List Design} {order : List Nat} {room i : Nat}
  {p p' : Pool}

theorem start (s : Settings) (v : Volume) (ds : List Design) : Faithful s v ds [] (Pool.start ds v) where
  designs := by simp [Pool.start, Function.comp_def]
  going := rfl
  lawful := by simp [Pool.start, Stage.Lawful]
  written := (Written.refl s v).congr (by simp [Pool.start])
  steps i := by cases h : ds[i]? <;> simp [Pool.start, h, Stage.left]
  logged := by simp [Pool.start, Stage.log]

theorem put (h : Faithful s v₀ ds order p) {d : Design} {stage stage' : Stage} {v : Volume}
    {log : List Log.Message} (found : p.tasks[i]? = some (d, stage))
    (hleft : stage.left = stage'.left + 1) (hlawful : stage'.Lawful s v₀ d)
    (hlog : stage'.log s v₀ d = stage.log s v₀ d ++ log)
    (hwritten : Written s v₀ v fun d' => ∃ r, (d', .finished r) ∈ p.tasks.set i (d, stage')) :
    Faithful s v₀ ds (order ++ [i]) (p.put i (d, stage') v log) where
  designs := by
    have at_i : (p.tasks.map (·.1))[i]? = some d := by simp [found]
    obtain ⟨inside, same⟩ := List.getElem?_eq_some_iff.mp at_i
    rw [Pool.put, List.map_set, ← h.designs]
    exact (congrArg _ same.symm).trans (List.set_getElem_self inside)
  going := h.going
  lawful t ht := by
    obtain ht | rfl := List.mem_or_eq_of_mem_set ht
    · exact h.lawful t ht
    · exact hlawful
  written := hwritten
  steps j := by
    have before := h.steps j
    have inside := (List.getElem?_eq_some_iff.mp found).1
    by_cases here : i = j
    · subst here
      rw [found] at before
      simp only [Option.elim_some] at before
      simp only [Pool.put, List.count_append, List.count_singleton_self, List.getElem?_set_self inside,
        Option.elim_some]
      omega
    · have none : [i].count j = 0 := List.count_eq_zero.mpr (by simpa using Ne.symm here)
      simp only [Pool.put, List.count_append, none, List.getElem?_set_ne here]
      exact before
  logged := by
    obtain ⟨before, after, tasks, changed⟩ := exists_split_of_getElem? found
    have logged := h.logged.append_right log
    rw [tasks, List.flatMap_append, List.flatMap_cons, List.append_assoc, List.append_assoc] at logged
    rw [Pool.put, changed, List.flatMap_append, List.flatMap_cons, hlog, List.append_assoc]
    exact logged.trans ((List.perm_append_comm.append_left _).append_left _)

theorem finished_set {tasks : List (Design × Stage)} {d : Design} {stage stage' : Stage}
    (found : tasks[i]? = some (d, stage)) (hstage : stage.result? = none) (d' : Design) :
    (∃ r, (d', Stage.finished r) ∈ tasks.set i (d, stage')) ↔
      (d' = d ∧ ∃ r, stage' = .finished r) ∨ ∃ r, (d', Stage.finished r) ∈ tasks := by
  constructor
  · rintro ⟨r, mem⟩
    obtain mem | same := List.mem_or_eq_of_mem_set mem
    · exact .inr ⟨r, mem⟩
    · obtain ⟨rfl, rfl⟩ := Prod.mk.inj same
      exact .inl ⟨rfl, r, rfl⟩
  · rintro (⟨rfl, r, rfl⟩ | ⟨r, mem⟩)
    · exact ⟨r, List.mem_set (List.getElem?_eq_some_iff.mp found).1 _⟩
    · obtain ⟨before, after, split, changed⟩ := exists_split_of_getElem? found
      have other : (d', Stage.finished r) ≠ (d, stage) := by
        intro same
        obtain ⟨-, rfl⟩ := Prod.mk.inj same
        cases hstage
      rw [split, List.mem_append, List.mem_cons, or_iff_right_of_imp (absurd · other)] at mem
      exact ⟨r, by rw [changed, List.mem_append, List.mem_cons]; exact mem.imp_right .inr⟩

theorem mem_designs (h : Faithful s v₀ ds order p) {t : Design × Stage} (ht : t ∈ p.tasks) : t.1 ∈ ds :=
  h.designs ▸ List.mem_map_of_mem ht

theorem advance (h : Faithful s v₀ ds order p) (hs : s.outputDir ≠ "") (apart : Design.Apart designs)
    (hds : ds ⊆ designs) (step : p.advance s room i = some p') :
    Faithful s v₀ ds (order ++ [i]) p' := by
  obtain ⟨d, ⟨found, rfl⟩ | ⟨found, stopped, rfl⟩ | ⟨found, -, rfl⟩ | ⟨r, found, rfl⟩⟩ :=
    advance_cases step
  · refine h.put found rfl trivial rfl (h.written.congr fun d' => ?_)
    simp [finished_set found rfl]
  · exact absurd (h.going.symm.trans stopped) (by decide)
  · refine h.put found rfl rfl rfl (h.written.congr fun d' => ?_)
    simp [finished_set found rfl]
  · have mem := List.mem_of_getElem? found
    have inside : ∀ d', (∃ r, (d', Stage.finished r) ∈ p.tasks) → d' ∈ designs :=
      fun d' ⟨r, mem⟩ => hds (h.mem_designs mem)
    obtain rfl : r = (d.generate s.top s.unchecked).result := h.lawful _ mem
    obtain ⟨written, same⟩ := h.written.deliver hs apart inside (hds (h.mem_designs mem))
    refine h.put found rfl ?_ ?_ (written.congr fun d' => ?_)
    · rw [Stage.Lawful, generateOne_eq, same]
    · rw [Stage.log, Stage.log, generateOne_eq, same]
    · simp [finished_set found rfl]

theorem run (h : Faithful s v₀ ds order p) (hs : s.outputDir ≠ "") (apart : Design.Apart designs)
    (hds : ds ⊆ designs) {more : List Nat} (steps : p.run s room more = some p') :
    Faithful s v₀ ds (order ++ more) p' := by
  induction more generalizing p order with
  | nil =>
    obtain rfl := Option.some.inj steps
    rwa [List.append_nil]
  | cons i more ih =>
    obtain ⟨q, step, rest⟩ := Option.bind_eq_some_iff.mp steps
    have further := ih (h.advance hs apart hds step) rest
    rwa [List.append_assoc] at further

end Faithful

end Pool

/-! ### The command -/

end Circuitry.Command
