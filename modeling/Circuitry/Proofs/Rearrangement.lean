import Circuitry.Proofs.Parts
import Mathlib.Data.Finset.Card
import Mathlib.Data.List.Permutation

/-!
The order of the blocks in a circuit. An update runs the hooks of the composites one after the other. A
hook computes next values from current values, or is a register, and what it leaves at the nets and the
cell that it touches is the same whatever other hooks run around it, and however often it runs itself.
So a step depends on the hooks and signals that a circuit has, and not on their order.
-/

namespace Circuitry

namespace Drive

variable {u v : List Drive} {st st' st'' : State}

/-- What the update of a single block does: it writes functions of current values, or it is a register. -/
inductive IsHook : List Drive → Prop where
  | functions {u : List Drive} (h : ∀ d ∈ u, d.isLatch = false) : IsHook u
  | register (cell : Nat) (clock d q : Signal) : IsHook [.latch cell clock d q]

structure Agree (u : List Drive) (st st' : State) : Prop where
  val : st'.val = st.val
  next : ∀ d ∈ u, st'.next.get d.target.net = st.next.get d.target.net
  clock : ∀ d ∈ u, ∀ cell, d.cell? = some cell → st'.clock.get cell = st.clock.get cell

/-- No drive of the one hook writes a net or uses a cell of the other. -/
def Apart (u v : List Drive) : Prop :=
  ∀ d ∈ u, ∀ e ∈ v, d.target.net ≠ e.target.net ∧ ∀ cell, d.cell? = some cell → e.cell? ≠ some cell

theorem Agree.refl (u : List Drive) (st : State) : Agree u st st where
  val := rfl
  next := fun _ _ => rfl
  clock := fun _ _ _ _ => rfl

theorem Agree.trans (h : Agree u st st') (h' : Agree u st' st'') : Agree u st st'' where
  val := h'.val.trans h.val
  next := fun d hd => (h'.next d hd).trans (h.next d hd)
  clock := fun d hd cell own => (h'.clock d hd cell own).trans (h.clock d hd cell own)

theorem Agree.symm (h : Agree u st st') : Agree u st' st where
  val := h.val.symm
  next := fun d hd => (h.next d hd).symm
  clock := fun d hd cell own => (h.clock d hd cell own).symm

theorem Apart.agree (h : Apart u v) (st : State) : Agree u st (v.foldl run st) where
  val := val_foldl_run v st
  next := fun d hd => get_next_foldl_run_of_ne (fun e he => (h d hd e he).1.symm) st
  clock := fun d hd cell own =>
    get_clock_foldl_run_of_ne (fun e he => (h d hd e he).2 cell own) st

theorem cell?_of_function {d : Drive} (h : d.isLatch = false) : d.cell? = none := by
  cases d with
  | latch => cases h
  | _ => rfl

theorem get_next_functions (h : ∀ d ∈ u, d.isLatch = false) (n : Nat) (st : State) :
    (u.foldl run st).next.get n =
      (u.filterMap (write? st.val.get n)).getLast?.getD (st.next.get n) := by
  apply get_next_foldl_run
  intro d hd latch
  simp [h d hd] at latch

theorem get_clock_latch (cell : Nat) (clock d q : Signal) (st : State) :
    ((latch cell clock d q).run st).clock.get cell = (st.val.get clock.net != 0) := by
  rw [(latched_run (latch cell clock d q) st).1, val_run]

theorem IsHook.congr (hu : IsHook u) (h : Agree u st st') :
    Agree u (u.foldl run st) (u.foldl run st') := by
  cases hu with
  | functions latchFree =>
    constructor
    · rw [val_foldl_run, val_foldl_run, h.val]
    · intro d hd
      rw [get_next_functions latchFree, get_next_functions latchFree, h.val, h.next d hd]
    · intro d hd cell own
      simp [cell?_of_function (latchFree d hd)] at own
  | register cell clk x q =>
    have seen : st'.clock.get cell = st.clock.get cell := h.clock _ (.head _) cell rfl
    refine ⟨?_, ?_, ?_⟩
    · rw [val_foldl_run, val_foldl_run, h.val]
    · rw [List.forall_mem_singleton]
      refine (get_next_latch cell clk x q st').trans (.trans ?_ (get_next_latch cell clk x q st).symm)
      rw [h.val, seen]
      exact if_congr Iff.rfl rfl (h.next _ (.head _))
    · rw [List.forall_mem_singleton]
      rintro cell' ⟨⟩
      refine (get_clock_latch cell clk x q st').trans (.trans ?_ (get_clock_latch cell clk x q st).symm)
      rw [h.val]

theorem IsHook.again (hu : IsHook u) (st : State) :
    Agree u (u.foldl run st) (u.foldl run (u.foldl run st)) := by
  cases hu with
  | functions latchFree =>
    constructor
    · exact val_foldl_run u _
    · intro d hd
      rw [get_next_functions latchFree, val_foldl_run, get_next_functions latchFree]
      cases (u.filterMap (write? st.val.get d.target.net)).getLast? <;> rfl
    · intro d hd cell own
      simp [cell?_of_function (latchFree d hd)] at own
  | register cell clk x q =>
    have still := run_eq_self rfl (latched_run (latch cell clk x q) st)
    have same : [latch cell clk x q].foldl run ([latch cell clk x q].foldl run st) =
        [latch cell clk x q].foldl run st := still
    rw [same]
    exact .refl _ _

section Run

variable {us : List (List Drive)} (hooks : ∀ u ∈ us, IsHook u)
  (apart : ∀ u ∈ us, ∀ v ∈ us, u = v ∨ Apart u v)

include hooks apart

theorem agree_foldl_run_rest (hu : u ∈ us) {vs : List (List Drive)} (hvs : vs ⊆ us)
    (h : Agree u (u.foldl run st) st') : Agree u (u.foldl run st) (vs.flatten.foldl run st') := by
  induction vs generalizing st' with
  | nil => exact h
  | cons v vs ih =>
    obtain ⟨hv, rest⟩ := List.cons_subset.mp hvs
    rw [List.flatten_cons, List.foldl_append]
    apply ih rest
    rcases apart u hu v hv with rfl | other
    · exact ((hooks u hu).again st).trans ((hooks u hu).congr h)
    · exact h.trans (other.agree st')

theorem agree_foldl_run (hu : u ∈ us) (st : State) :
    Agree u (u.foldl run st) (us.flatten.foldl run st) := by
  obtain ⟨before, after, split, first⟩ := List.eq_append_cons_of_mem hu
  have early : ∀ vs ⊆ before, Agree u st (vs.flatten.foldl run st) := by
    intro vs
    induction vs using List.reverseRecOn with
    | nil => exact fun _ => .refl u st
    | append_singleton vs v ih =>
      intro hvs
      obtain ⟨hvs, hv⟩ := List.append_subset.mp hvs
      have hv : v ∈ before := hv (List.mem_singleton_self v)
      have other : Apart u v := by
        refine (apart u hu v (split ▸ List.mem_append_left _ hv)).resolve_left ?_
        rintro rfl
        exact first hv
      rw [List.flatten_append, List.foldl_append]
      exact (ih hvs).trans (by simpa using other.agree _)
  rw [split, List.flatten_append, List.foldl_append, List.flatten_cons, List.foldl_append]
  apply agree_foldl_run_rest hooks apart hu
  · rw [split]
    exact fun v hv => List.mem_append_right _ (.tail _ hv)
  · exact (hooks u hu).congr (early before (List.Subset.refl _))

end Run

end Drive

/-- No signal and no register tells the states apart. -/
structure State.Same (st st' : State) : Prop where
  val : ∀ n, st'.val.get n = st.val.get n
  next : ∀ n, st'.next.get n = st.next.get n
  clock : ∀ cell, st'.clock.get cell = st.clock.get cell

namespace Drive

variable {us vs : List (List Drive)}

theorem same_foldl_run (hooks : ∀ u ∈ us, IsHook u) (apart : ∀ u ∈ us, ∀ v ∈ us, u = v ∨ Apart u v)
    (same : ∀ u, u ∈ vs ↔ u ∈ us) (st : State) :
    State.Same (us.flatten.foldl run st) (vs.flatten.foldl run st) := by
  have agree : ∀ u ∈ us, Agree u (us.flatten.foldl run st) (vs.flatten.foldl run st) := by
    intro u hu
    have other : Agree u (u.foldl run st) (vs.flatten.foldl run st) :=
      agree_foldl_run (fun v hv => hooks v ((same v).mp hv))
        (fun v hv w hw => apart v ((same v).mp hv) w ((same w).mp hw)) ((same u).mpr hu) st
    exact (agree_foldl_run hooks apart hu st).symm.trans other
  constructor
  · intro n
    rw [val_foldl_run, val_foldl_run]
  · intro n
    by_cases written : ∃ u ∈ us, ∃ d ∈ u, d.target.net = n
    · obtain ⟨u, hu, d, hd, rfl⟩ := written
      exact (agree u hu).next d hd
    · have untouched : ∀ ws : List (List Drive), (∀ u ∈ ws, u ∈ us) →
          (ws.flatten.foldl run st).next.get n = st.next.get n := by
        intro ws sub
        apply get_next_foldl_run_of_ne
        intro d hd eq
        obtain ⟨u, hu, hd⟩ := List.mem_flatten.mp hd
        exact written ⟨u, sub u hu, d, hd, eq⟩
      rw [untouched us fun _ => id, untouched vs fun u => (same u).mp]
  · intro cell
    by_cases used : ∃ u ∈ us, ∃ d ∈ u, d.cell? = some cell
    · obtain ⟨u, hu, d, hd, own⟩ := used
      exact (agree u hu).clock d hd cell own
    · have untouched : ∀ ws : List (List Drive), (∀ u ∈ ws, u ∈ us) →
          (ws.flatten.foldl run st).clock.get cell = st.clock.get cell := by
        intro ws sub
        apply get_clock_foldl_run_of_ne
        intro d hd eq
        obtain ⟨u, hu, hd⟩ := List.mem_flatten.mp hd
        exact used ⟨u, sub u hu, d, hd, eq⟩
      rw [untouched us fun _ => id, untouched vs fun u => (same u).mp]

end Drive

def Composite.Runs (c : Composite) : Prop := c.isClosed = false ∧ c.update.fault = none

namespace Block

mutual

def composites : Block → List Composite
  | .atom _ => []
  | .composite c fs => c :: fieldComposites fs

def fieldComposites : List (Field × Block) → List Composite
  | [] => []
  | (_, b) :: fs => b.composites ++ fieldComposites fs

end

theorem fieldComposites_eq (fs : List (Field × Block)) :
    fieldComposites fs = fs.flatMap fun x => x.2.composites := by
  induction fs with
  | nil => rfl
  | cons x fs ih => rw [fieldComposites, ih, List.flatMap_cons]

theorem faultless_fields (fs : List (Field × Block)) :
    (updateFields fs).fault = none ∧ (walkFields fs).fault = none ↔
      ∀ c ∈ fieldComposites fs, c.Runs := by
  induction fs using induction_fields with
  | nil => simp [updateFields, fieldComposites, Script.done]
  | atom f a fs ih =>
    rw [fault_walkFields_atom]
    exact ih
  | composite f c inner fs ihInner ih =>
    rw [fault_walkFields_composite, fieldComposites, composites, List.cons_append,
      List.forall_mem_cons, List.forall_mem_append, ← ihInner, ← ih, Composite.Runs]
    cases opened : c.isClosed with
    | true => simp
    | false => simp [updateFields, updateAll, opened]; tauto

theorem steps_updateFields {fs : List (Field × Block)} (h : ∀ c ∈ fieldComposites fs, c.Runs) :
    (updateFields fs).steps = (fieldComposites fs).flatMap (·.update.steps) := by
  induction fs using induction_fields with
  | nil => rfl
  | atom f a fs ih => exact ih h
  | composite f c inner fs ihInner ih =>
    rw [fieldComposites, composites, List.cons_append, List.forall_mem_cons,
      List.forall_mem_append] at h
    obtain ⟨⟨opened, own⟩, hinner, hfs⟩ := h
    obtain ⟨faultless, -⟩ := (faultless_fields inner).mpr hinner
    rw [updateFields, updateAll, fieldComposites, composites]
    simp [Script.append, opened, own, faultless, ihInner hinner, ih hfs]

variable {b b' : Block} {st : State}

theorem faultless_iff :
    b.updateAll.fault = none ∧ (b.walk "").fault = none ↔ ∀ c ∈ b.composites, c.Runs := by
  have alone := faultless_fields [({ member := "", label := "" }, b)]
  simpa [updateFields, fieldComposites, Script.done] using alone

theorem steps_updateAll (h : ∀ c ∈ b.composites, c.Runs) :
    b.updateAll.steps = (b.composites.map (·.update.steps)).flatten := by
  obtain ⟨updates, -⟩ := faultless_iff.mpr h
  have alone := @steps_updateFields [({ member := "", label := "" }, b)]
    (by simpa [fieldComposites] using h)
  simpa [updateFields, fieldComposites, List.flatMap_def] using alone

theorem step_ok_iff : (∃ k, (b.step st).2 = .ok k) ↔ ∀ c ∈ b.composites, c.Runs := by
  rw [← faultless_iff]
  constructor
  · rintro ⟨k, h⟩
    exact step_ok h
  · rintro ⟨updates, walks⟩
    exact ⟨_, by rw [step_eq updates walks]⟩

theorem count_step {k : Nat} (h : (b.step st).2 = .ok k) :
    k = (b.nets.toFinset.filter fun n => (b.step st).1.val.get n ≠ st.val.get n).card := by
  obtain ⟨updates, walks⟩ := step_ok h
  have count : (b.step st).2 = .ok (b.nets.foldl State.commitNet (b.updated st, 0)).2 := by
    rw [step_eq updates walks]
  rw [count, State.count_commitAll, Nat.zero_add] at h
  obtain rfl := Except.ok.inj h
  congr 1
  ext n
  rw [Finset.mem_filter, Finset.mem_filter]
  refine and_congr_right fun hn => ?_
  have moved := get_val_advance updates walks st n
  rw [if_pos (List.mem_toFinset.mp hn), next_advance updates walks] at moved
  rw [show (b.step st).1.val.get n = _ from moved, updated, Drive.val_foldl_run]
  exact ne_comm

/-- Each composite is a register or writes functions of current values, and what writes a net or uses a
cell is one hook, which may stand at several places of the tree. -/
structure Orderly (b : Block) : Prop where
  hooks : ∀ c ∈ b.composites, Drive.IsHook c.update.steps
  nets : ∀ c ∈ b.composites, ∀ c' ∈ b.composites, ∀ d ∈ c.update.steps, ∀ d' ∈ c'.update.steps,
    d.target.net = d'.target.net → c.update.steps = c'.update.steps
  cells : ∀ c ∈ b.composites, ∀ c' ∈ b.composites, ∀ d ∈ c.update.steps, ∀ d' ∈ c'.update.steps,
    ∀ cell, d.cell? = some cell → d'.cell? = some cell → c.update.steps = c'.update.steps

theorem Orderly.apart (hb : b.Orderly) {c c' : Composite} (hc : c ∈ b.composites)
    (hc' : c' ∈ b.composites) :
    c.update.steps = c'.update.steps ∨ Drive.Apart c.update.steps c'.update.steps := by
  refine or_iff_not_imp_left.mpr fun ne d hd d' hd' => ⟨fun same => ?_, fun cell own own' => ?_⟩
  · exact ne (hb.nets c hc c' hc' d hd d' hd' same)
  · exact ne (hb.cells c hc c' hc' d hd d' hd' cell own own')

structure SameParts (b b' : Block) : Prop where
  composites : ∀ c, c ∈ b'.composites ↔ c ∈ b.composites
  leaves : ∀ a, a ∈ b'.leaves ↔ a ∈ b.leaves

theorem Orderly.step_same (hb : b.Orderly) (h : b.SameParts b') {k : Nat}
    (ok : (b.step st).2 = .ok k) : (b'.step st).2 = .ok k ∧ State.Same (b.step st).1 (b'.step st).1 := by
  have runs := step_ok_iff.mp ⟨k, ok⟩
  have runs' : ∀ c ∈ b'.composites, c.Runs := fun c hc => runs c ((h.composites c).mp hc)
  obtain ⟨updates, walks⟩ := faultless_iff.mpr runs
  obtain ⟨updates', walks'⟩ := faultless_iff.mpr runs'
  have updated : State.Same (b.updated st) (b'.updated st) := by
    rw [Block.updated, Block.updated, steps_updateAll runs, steps_updateAll runs']
    apply Drive.same_foldl_run
    · exact List.forall_mem_map.mpr hb.hooks
    · simp only [List.forall_mem_map]
      exact fun c hc c' hc' => hb.apart hc hc'
    · intro u
      simp only [List.mem_map, h.composites]
  have nets : ∀ n, n ∈ b'.nets ↔ n ∈ b.nets := by
    intro n
    simp only [mem_nets walks, mem_nets walks', h.leaves]
  have same : State.Same (b.step st).1 (b'.step st).1 := by
    constructor
    · intro n
      change (b'.advance st).val.get n = (b.advance st).val.get n
      rw [get_val_advance updates walks, get_val_advance updates' walks', next_advance updates walks,
        next_advance updates' walks', updated.next]
      simp only [nets]
    · intro n
      change (b'.advance st).next.get n = (b.advance st).next.get n
      rw [next_advance updates walks, next_advance updates' walks', updated.next]
    · intro cell
      change (b'.advance st).clock.get cell = (b.advance st).clock.get cell
      rw [clock_advance updates walks, clock_advance updates' walks', updated.clock]
  refine ⟨?_, same⟩
  obtain ⟨k', ok'⟩ : ∃ k', (b'.step st).2 = .ok k' := step_ok_iff.mpr runs'
  have finset : b'.nets.toFinset = b.nets.toFinset := by
    ext n
    rw [List.mem_toFinset, List.mem_toFinset, nets]
  rw [ok', count_step ok, count_step ok', finset]
  simp only [same.val]

inductive Contains : Block → Block → Prop where
  | itself (b : Block) : Contains b b
  | inside {c : Composite} {fs : List (Field × Block)} {f : Field} {x y : Block}
      (h : (f, x) ∈ fs) (deeper : Contains x y) : Contains (.composite c fs) y

/-- The sub-blocks of composites at any depth change places, under whatever names, and shared blocks
turn up at further places. -/
inductive Rearranges (shared : Block → Prop) : Block → Block → Prop where
  | refl (b : Block) : Rearranges shared b b
  | trans {a b c : Block} (first : Rearranges shared a b) (then_ : Rearranges shared b c) :
      Rearranges shared a c
  | permute {c : Composite} {fs gs : List (Field × Block)}
      (h : (fs.map Prod.snd).Perm (gs.map Prod.snd)) :
      Rearranges shared (.composite c fs) (.composite c gs)
  | inside {c : Composite} {before after : List (Field × Block)} {f : Field} {x y : Block}
      (h : Rearranges shared x y) :
      Rearranges shared (.composite c (before ++ (f, x) :: after))
        (.composite c (before ++ (f, y) :: after))
  | revisit {c : Composite} {fs : List (Field × Block)} (f : Field) {x : Block} (h : shared x) :
      Rearranges shared (.composite c fs) (.composite c ((f, x) :: fs))

def Rearranged (b b' : Block) : Prop := Rearranges b.Contains b b'

section Collected

-- Either of the two things that a tree has: its composites and its atoms.
variable {α : Type} {collect : Block → List α} {own : Composite → List α}
  (collects : ∀ c fs, collect (.composite c fs) = own c ++ fs.flatMap fun x => collect x.2)

include collects

theorem mem_collected {c : Composite} {fs : List (Field × Block)} {a : α} :
    a ∈ collect (.composite c fs) ↔ a ∈ own c ∨ a ∈ (fs.map Prod.snd).flatMap collect := by
  rw [collects, List.mem_append, List.flatMap_map]

theorem mem_collected_field (c : Composite) (before after : List (Field × Block)) (f : Field)
    (x : Block) (a : α) :
    a ∈ collect (.composite c (before ++ (f, x) :: after)) ↔
      a ∈ collect (.composite c (before ++ after)) ∨ a ∈ collect x := by
  simp only [mem_collected collects, List.map_append, List.map_cons, List.flatMap_append,
    List.flatMap_cons, List.mem_append]
  tauto

theorem Contains.collected {x : Block} (h : b.Contains x) : collect x ⊆ collect b := by
  induction h with
  | itself b => exact List.Subset.refl _
  | inside h deeper ih =>
    intro a ha
    exact (mem_collected collects).mpr
      (.inr (List.mem_flatMap.mpr ⟨_, List.mem_map_of_mem h, ih ha⟩))

theorem Rearranges.collected {shared : Block → Prop} {root : Block}
    (within : ∀ x, shared x → collect x ⊆ collect root) (h : Rearranges shared b b') :
    collect b ⊆ collect b' ∧ ∀ a ∈ collect b', a ∈ collect b ∨ a ∈ collect root := by
  induction h with
  | refl b => exact ⟨List.Subset.refl _, fun _ => .inl⟩
  | trans first then_ ih ih' =>
    refine ⟨List.Subset.trans ih.1 ih'.1, fun a ha => ?_⟩
    exact (ih'.2 a ha).elim (ih.2 a) .inr
  | @permute c fs gs h =>
    have same (a : α) : a ∈ collect (.composite c fs) ↔ a ∈ collect (.composite c gs) := by
      rw [mem_collected collects, mem_collected collects, (h.flatMap_right collect).mem_iff]
    exact ⟨fun a => (same a).mp, fun a ha => .inl ((same a).mpr ha)⟩
  | @inside c before after f x y h ih =>
    have field := mem_collected_field collects c before after f
    constructor
    · intro a ha
      exact (field y a).mpr (((field x a).mp ha).imp_right fun deep => ih.1 deep)
    · intro a ha
      rcases (field y a).mp ha with around | deep
      · exact .inl ((field x a).mpr (.inl around))
      · exact (ih.2 a deep).imp_left fun deep => (field x a).mpr (.inr deep)
  | @revisit c fs f x h =>
    have field := mem_collected_field collects c [] fs f x
    refine ⟨fun a ha => (field a).mpr (.inl ha), fun a ha => ?_⟩
    exact ((field a).mp ha).imp_right fun again => within x h again

theorem Rearranged.collected (h : b.Rearranged b') (a : α) : a ∈ collect b' ↔ a ∈ collect b := by
  obtain ⟨kept, known⟩ := Rearranges.collected collects (fun x hx => hx.collected collects) h
  exact ⟨fun ha => (known a ha).elim id id, fun ha => kept ha⟩

end Collected

theorem Rearranged.sameParts (h : b.Rearranged b') : b.SameParts b' where
  composites := by
    have collects (c : Composite) (fs : List (Field × Block)) :
        (Block.composite c fs).composites = [c] ++ fs.flatMap fun x => x.2.composites := by
      rw [composites, fieldComposites_eq]
      rfl
    exact h.collected collects
  leaves := by
    have collects (c : Composite) (fs : List (Field × Block)) :
        (Block.composite c fs).leaves = [] ++ fs.flatMap fun x => x.2.leaves := by
      rw [leaves, fieldLeaves_eq]
      rfl
    exact h.collected collects

theorem eq_of_nodup_flatten {α β : Type} {us : List (List α)} {g : α → Option β}
    (h : (us.flatten.filterMap g).Nodup) {u v : List α} (hu : u ∈ us) (hv : v ∈ us) {d e : α}
    (hd : d ∈ u) (he : e ∈ v) {x : β} (first : g d = some x) (second : g e = some x) : u = v := by
  rw [List.filterMap_flatten, List.nodup_flatten, List.pairwise_map] at h
  by_contra ne
  have : Std.Symm fun u v : List α => List.Disjoint (u.filterMap g) (v.filterMap g) :=
    ⟨fun _ _ => List.Disjoint.symm⟩
  exact h.2.forall hu hv ne (List.mem_filterMap.mpr ⟨d, hd, first⟩)
    (List.mem_filterMap.mpr ⟨e, he, second⟩)

theorem Synchronous.orderly (hb : b.Synchronous)
    (hooks : ∀ c ∈ b.composites, Drive.IsHook c.update.steps) : b.Orderly := by
  have steps := steps_updateAll (faultless_iff.mp ⟨hb.updates, hb.walks⟩)
  have targets := hb.targets
  have cells := hb.cells
  rw [steps] at targets cells
  rw [← List.filterMap_eq_map] at targets
  have inside {c : Composite} (hc : c ∈ b.composites) :
      c.update.steps ∈ b.composites.map (·.update.steps) := List.mem_map_of_mem hc
  constructor
  · exact hooks
  · intro c hc c' hc' d hd d' hd' same
    exact eq_of_nodup_flatten targets (inside hc) (inside hc') hd hd' rfl
      (congrArg some same.symm)
  · intro c hc c' hc' d hd d' hd' cell own own'
    exact eq_of_nodup_flatten cells (inside hc) (inside hc') hd hd' own own'

end Block

def Drive.isHook : List Drive → Bool
  | [.latch ..] => true
  | u => u.all (!·.isLatch)

theorem Drive.isHook_of_all {u : List Drive} (h : u.all (!·.isLatch) = true) : isHook u = true := by
  unfold isHook
  split
  · rfl
  · exact h

theorem Drive.IsHook.of_isHook {u : List Drive} (h : isHook u = true) : IsHook u := by
  unfold isHook at h
  split at h
  · exact .register ..
  · exact .functions fun d hd => by simpa using List.all_eq_true.mp h d hd

theorem Part.isHook (p : Part) (net cell : Nat) :
    ∀ c ∈ (p.placed net cell).composites, Drive.IsHook c.update.steps := by
  suffices all : (p.placed net cell).composites.all (Drive.isHook ·.update.steps) = true from
    fun c hc => .of_isHook (List.all_eq_true.mp all c hc)
  cases p with
  | fanout n w =>
    have inside : ∀ x ∈ Fanout.fields net n.toNat w,
        x.2.composites.all (Drive.isHook ·.update.steps) = true :=
      Fanout.forall_mem_fields (fun _ _ => rfl) (fun _ _ => rfl) fun _ _ => rfl
    have own : Drive.isHook (Fanout.placed net n.toNat w).composite.update.steps = true := by
      rw [Fanout.update_placed]
      apply Drive.isHook_of_all
      simp [Script.ofList, PortSet.drives, Drive.isLatch]
    rw [placed, Fanout.block_placed, Block.composites, Block.fieldComposites_eq, List.all_cons, own,
      List.all_flatMap, Bool.true_and, List.all_eq_true]
    exact inside
  | _ => rfl

theorem Part.orderly (p : Part) (net cell : Nat) : (p.placed net cell).Orderly :=
  (p.synchronous net cell).orderly (p.isHook net cell)

namespace Block

variable {b b' : Block}

/-- A step does not depend on the order of the blocks, nor on how often a shared block is met: it does
the same to all signals and registers, or breaks off in either order, and returns the number of the
signals whose values it changes. -/
theorem step_rearranged (hb : b.Orderly) (h : b.Rearranged b') (st : State) :
    ((∃ k, (b'.step st).2 = .ok k) ↔ ∃ k, (b.step st).2 = .ok k) ∧
      ∀ k, (b.step st).2 = .ok k →
        (b'.step st).2 = .ok k ∧ State.Same (b.step st).1 (b'.step st).1 ∧
          k = (b.nets.toFinset.filter fun n => (b.step st).1.val.get n ≠ st.val.get n).card := by
  constructor
  · rw [step_ok_iff, step_ok_iff]
    simp only [h.sameParts.composites]
  · intro k ok
    obtain ⟨ok', same⟩ := hb.step_same h.sameParts ok
    exact ⟨ok', same, count_step ok⟩

def turned : Block → Block
  | .atom a => .atom a
  | .composite c fs => .composite c (fs.getLast?.toList ++ fs.reverse)

theorem rearranged_turned (b : Block) : b.Rearranged b.turned := by
  cases b with
  | atom a => exact .refl _
  | composite c fs =>
    have reversed : (fs.map Prod.snd).Perm (fs.reverse.map Prod.snd) :=
      (List.reverse_perm fs).symm.map Prod.snd
    rw [turned]
    cases last : fs.getLast? with
    | none => exact .permute reversed
    | some x =>
      have held : (Block.composite c fs).Contains x.2 :=
        .inside (List.mem_of_getLast? last) (.itself x.2)
      exact Rearranges.trans (.permute reversed) (.revisit x.1 held)

def risen : State := { val := (({} : Store UInt64).set 3 1).set 4 3 }

theorem step_rearranged_turned :
    let b := (Part.counter 2).placed 0 0
    (b.Orderly ∧ b.Rearranged b.turned) ∧
      (b.turned.step risen).2 = .ok 3 ∧ State.Same (b.step risen).1 (b.turned.step risen).1 ∧
        ((b.turned.step risen).1.val.get 5, (b.turned.step risen).1.clock.get 0) = (3, true) := by
  intro b
  have orderly : b.Orderly := (Part.counter 2).orderly 0 0
  have moves : (b.step risen).2 = .ok 3 := by cbv
  obtain ⟨ok, same, -⟩ := (step_rearranged orderly b.rearranged_turned risen).2 3 moves
  exact ⟨⟨orderly, b.rearranged_turned⟩, ok, same, by cbv⟩

end Block

end Circuitry
