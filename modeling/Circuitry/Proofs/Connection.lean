import Circuitry.Proofs.Duplex
import Circuitry.Proofs.Independence

namespace Circuitry

namespace State

variable {ns ms : List Nat} {st : State}

theorem size_marked_foldl_mark_le_iff (ns : List Nat) (st : State) (k : Nat) :
    (ns.foldl mark st).marked.size ≤ k ↔ st.marked.size ≤ k ∧ ∀ n ∈ ns, n < k := by
  induction ns generalizing st with
  | nil => simp
  | cons n ns ih =>
    rw [List.foldl_cons, ih, mark, Store.size_set, Nat.max_le, List.forall_mem_cons, and_assoc]
    exact Iff.rfl

theorem foldl_mark_congr (same : ∀ n, n ∈ ns ↔ n ∈ ms) (st : State) :
    ns.foldl mark st = ms.foldl mark st := by
  have marked : (ns.foldl mark st).marked = (ms.foldl mark st).marked := by
    apply Store.ext_get
    · apply Nat.le_antisymm
      · rw [size_marked_foldl_mark_le_iff]
        have bound := (size_marked_foldl_mark_le_iff ms st _).mp le_rfl
        exact ⟨bound.1, fun n hn => bound.2 n ((same n).mp hn)⟩
      · rw [size_marked_foldl_mark_le_iff]
        have bound := (size_marked_foldl_mark_le_iff ns st _).mp le_rfl
        exact ⟨bound.1, fun n hn => bound.2 n ((same n).mpr hn)⟩
    · intro n
      rw [Bool.eq_iff_iff, get_marked_foldl_mark, get_marked_foldl_mark, same]
  rw [foldl_mark_eq ns, foldl_mark_eq ms, marked]

end State

theorem Atom.connected_foldl_mark (a : Atom) (ns : List Nat) (st : State) :
    a.connected (ns.foldl State.mark st) = true ↔
      a.connected st = true ∨ ∃ n ∈ a.mark, n ∈ ns := by
  cases a with
  | signal s => simp [connected, mark, State.get_marked_foldl_mark, or_comm]
  | constant c => simp [connected]
  | foreign f =>
    simp only [connected, mark, Bool.or_eq_true, State.get_marked_foldl_mark, List.mem_singleton,
      exists_eq_left]
    tauto

namespace Operation

def marks (root : Block) : Operation → List Nat
  | .connectAll => root.connectAll.steps
  | .connectInputs => root.connectInputs.steps
  | .linkConnect parent child => (parent.linkConnect child).steps
  | _ => []

variable {root : Block} {op : Operation} {ops ops' : List Operation}

theorem act_eq (h : op.isSimulation = false) (st : State) :
    op.act root st = (op.marks root).foldl State.mark st := by
  cases op <;> first | rfl | cases h

theorem foldl_act_eq (h : ∀ op ∈ ops, op.isSimulation = false) (st : State) :
    ops.foldl (act root) st = (ops.flatMap (marks root)).foldl State.mark st := by
  induction ops generalizing st with
  | nil => rfl
  | cons op ops ih =>
    obtain ⟨first, rest⟩ := List.forall_mem_cons.mp h
    rw [List.foldl_cons, ih rest, act_eq first, List.flatMap_cons, List.foldl_append]

theorem foldl_act_congr (h : ∀ op ∈ ops, op.isSimulation = false)
    (h' : ∀ op ∈ ops', op.isSimulation = false) (same : ∀ op, op ∈ ops ↔ op ∈ ops') (st : State) :
    ops.foldl (act root) st = ops'.foldl (act root) st := by
  rw [foldl_act_eq h, foldl_act_eq h']
  apply State.foldl_mark_congr
  intro n
  simp only [List.mem_flatMap, same]

end Operation

/-- The second list is the first without some of the missing drivers. -/
structure Issue.Resolved (is is' : List Issue) : Prop where
  sublist : is'.Sublist is
  others : ∀ k ≠ .openSignal, is'.filter (·.kind = k) = is.filter (·.kind = k)

namespace Issue.Resolved

variable {is is' js js' : List Issue}

theorem refl (is : List Issue) : Resolved is is where
  sublist := List.Sublist.refl is
  others := fun _ _ => rfl

theorem append (h : Resolved is is') (h' : Resolved js js') : Resolved (is ++ js) (is' ++ js') where
  sublist := h.sublist.append h'.sublist
  others := fun k hk => by rw [List.filter_append, List.filter_append, h.others k hk, h'.others k hk]

theorem openSignal (module signal : String) : Resolved [⟨.openSignal, module, signal⟩] [] where
  sublist := List.nil_sublist _
  others := fun k hk => by simp [hk.symm]

end Issue.Resolved

namespace Checker

structure Resolved (c c' : Checker) : Prop where
  tracker : c'.tracker = c.tracker
  frames : c'.frames = c.frames
  issues : Issue.Resolved c.issues c'.issues

variable {st st' : State} {c c' : Checker}

theorem Resolved.path (h : c.Resolved c') : c'.path = c.path := congrArg Tracker.path h.tracker

theorem Resolved.group (h : c.Resolved c') : c'.group = c.group := congrArg Tracker.group h.tracker

variable (grown : ∀ a : Atom, a.connected st = true → a.connected st' = true)

include grown

theorem Resolved.atom (h : c.Resolved c') (name : String) (a : Atom) :
    (c.atom st name a).Resolved (c'.atom st' name a) where
  tracker := h.tracker
  frames := by simp only [Checker.atom, h.group, h.frames]
  issues := by
    simp only [Checker.atom, h.path, h.group]
    cases before : a.connected st with
    | true => simpa [grown a before] using h.issues
    | false =>
      cases a.connected st' with
      | true => simpa using h.issues.append (.openSignal c.path.flat (c.group.qualify name))
      | false => exact h.issues.append (.refl _)

theorem Resolved.visit (h : c.Resolved c') (e : Event) :
    (c.visit st e).Resolved (c'.visit st' e) := by
  have tracker : (c'.visit st' e).tracker = (c.visit st e).tracker := by
    rw [tracker_visit, tracker_visit, h.tracker]
  cases e with
  | atom name a => exact h.atom grown name a
  | enter name code => exact ⟨tracker, congrArg (_ :: ·) h.frames, h.issues⟩
  | openGroup name => exact ⟨tracker, h.frames, h.issues⟩
  | closeGroup name => exact ⟨tracker, h.frames, h.issues⟩
  | leave name =>
    refine ⟨tracker, ?_, ?_⟩
    · simp only [Checker.visit, leave_eq, h.frames]
    · simp only [Checker.visit, leave_eq, h.path, h.frames]
      exact h.issues.append (.refl _)

theorem Resolved.visitAll (h : c.Resolved c') (es : List Event) :
    (c.visitAll st es).Resolved (c'.visitAll st' es) := by
  induction es generalizing c c' with
  | nil => exact h
  | cons e es ih => exact ih (h.visit grown e)

end Checker

theorem Block.issues_resolved {root : Block} {st st' : State}
    (grown : ∀ a : Atom, a.connected st = true → a.connected st' = true) {top : String}
    {is : List Issue} (h : root.issues st top = .ok is) :
    ∃ is', root.issues st' top = .ok is' ∧ Issue.Resolved is is' := by
  rw [issues] at h
  cases walked : (root.walk top).toExcept with
  | error f => rw [walked] at h; cases h
  | ok es =>
    rw [walked] at h
    obtain rfl := Except.ok.inj h
    have both := Checker.Resolved.visitAll grown (c := {}) ⟨rfl, rfl, .refl []⟩ es
    exact ⟨_, by rw [issues, walked]; rfl, both.issues⟩

/-! ### Positions of a walk -/

theorem Path.length_eq_one_iff {top : String} {p : Path} (h : [top] <+: p) :
    p.length = 1 ↔ p.flat = top := by
  obtain ⟨q, rfl⟩ := h
  cases q with
  | nil => simp
  | cons x q =>
    have longer := length_flat_cons top (List.cons_ne_nil x q)
    simp only [List.singleton_append, List.length_cons]
    constructor
    · omega
    · intro same
      rw [same] at longer
      omega

namespace Event

/-- With `k` modules open inside the one in which they start, the events stay inside it, but for
leaving it at the end. -/
def Inside : Nat → List Event → Prop
  | _, [] => True
  | k, .enter _ _ :: es => Inside (k + 1) es
  | 0, .leave _ :: es => es = []
  | k + 1, .leave _ :: es => Inside k es
  | k, .openGroup _ :: es => Inside k es
  | k, .atom _ _ :: es => Inside k es
  | k, .closeGroup _ :: es => Inside k es

def outside : Event → List Nat
  | .atom _ a => if a.kind = .input ∨ a.kind = .inout then a.mark else []
  | _ => []

end Event

namespace Tracker

def encounters (t : Tracker) : List Event → List (Tracker × Event)
  | [] => []
  | e :: es => (t, e) :: (t.follow e).encounters es

variable {t : Tracker} {es : List Event} {k : Nat}

theorem mem_encounters {u : Tracker} {e : Event} :
    (u, e) ∈ t.encounters es ↔
      ∃ before after, es = before ++ e :: after ∧ before.foldl follow t = u := by
  induction es generalizing t with
  | nil => simp [encounters]
  | cons x es ih =>
    rw [encounters, List.mem_cons, ih]
    constructor
    · rintro (first | ⟨before, after, rfl, rfl⟩)
      · obtain ⟨rfl, rfl⟩ := Prod.mk.inj first
        exact ⟨[], es, rfl, rfl⟩
      · exact ⟨x :: before, after, rfl, rfl⟩
    · rintro ⟨before, after, split, rfl⟩
      cases before with
      | nil =>
        obtain ⟨rfl, rfl⟩ := List.cons.inj split
        exact .inl rfl
      | cons y before =>
        obtain ⟨rfl, rest⟩ := List.cons.inj split
        exact .inr ⟨before, after, rest, rfl⟩

theorem prefix_of_mem_encounters {p : Path} (inside : Event.Inside k es) (hp : p <+: t.path)
    (length : t.path.length = p.length + k) : ∀ s ∈ t.encounters es, p <+: s.1.path := by
  induction es generalizing t k with
  | nil => simp [encounters]
  | cons e es ih =>
    rw [encounters, List.forall_mem_cons]
    refine ⟨hp, ?_⟩
    cases e with
    | enter name code =>
      refine ih inside (hp.trans (List.prefix_append _ _)) ?_
      simp [follow, Tracker.enter, Path.push, length]
      omega
    | leave name =>
      cases k with
      | zero =>
        obtain rfl : es = [] := inside
        simp [encounters]
      | succ k =>
        have popped : t.path.pop.length = p.length + k := by simp [Path.pop, length]
        have kept : p <+: t.path.pop :=
          List.prefix_of_prefix_length_le hp (List.dropLast_prefix _) (by omega)
        rw [← path_leave] at popped kept
        exact ih inside kept popped
    | openGroup name => exact ih inside hp length
    | atom name a => exact ih inside hp length
    | closeGroup name => exact ih inside hp length

theorem outsideNets_eq (inside : Event.Inside k es) (length : k < t.path.length) :
    Block.outsideNets t.path.length es =
      (t.encounters es).flatMap fun s => if s.1.path.length = 1 then s.2.outside else [] := by
  induction es generalizing t k with
  | nil => rfl
  | cons e es ih =>
    rw [encounters, List.flatMap_cons]
    cases e with
    | enter name code =>
      have pushed : (t.enter name).path.length = t.path.length + 1 := by
        simp [Tracker.enter, Path.push]
      rw [follow, ← ih inside (by omega), pushed]
      simp [Block.outsideNets, Event.outside]
    | leave name =>
      cases k with
      | zero =>
        obtain rfl : es = [] := inside
        simp [encounters, Block.outsideNets, Event.outside]
      | succ k =>
        have popped : t.leave.path.length + 1 = t.path.length := by
          simp [path_leave, Path.pop]
          omega
        rw [follow, ← ih inside (by omega), ← popped]
        simp [Block.outsideNets, Event.outside]
    | atom name a =>
      have depth : (t.path.length : Int) = 1 ↔ t.path.length = 1 := by omega
      rw [follow, ← ih inside length, Block.outsideNets]
      simp only [Event.outside, ite_and, depth]
    | openGroup name =>
      rw [follow, ← ih inside (by exact length)]
      simp [Block.outsideNets, Event.outside, openGroup]
    | closeGroup name =>
      rw [follow, ← ih inside (by exact length)]
      simp [Block.outsideNets, Event.outside, closeGroup]

end Tracker

namespace Block

@[simp] theorem steps_append_ofList_cons (e : Event) (s : Script Event) :
    (Script.append (.ofList [e]) s).steps = e :: s.steps := rfl

theorem inside_walkFields (fs : List (Field × Block)) {k : Nat} {rest : Script Event}
    (h : Event.Inside k rest.steps) : Event.Inside k ((walkFields fs).append rest).steps := by
  induction fs using induction_boundaries generalizing k rest with
  | nil => simpa using h
  | atom f a fs ih =>
    rw [walkFields, walk, Script.append_eq, Script.append_assoc]
    exact ih h
  | scope f c inner fs hc ihInner ih =>
    simp only [walkFields, walk, Script.append_eq, Script.append_assoc, Composite.opening,
      Composite.closing, hc, steps_append_ofList_cons]
    cases c.isClosed with
    | true => trivial
    | false =>
      refine ihInner (k := k + 1) ?_
      exact ih h
  | group f c inner fs hc ihInner ih =>
    simp only [walkFields, walk, Script.append_eq, Script.append_assoc, Composite.opening,
      Composite.closing, hc, steps_append_ofList_cons]
    cases c.isClosed with
    | true => trivial
    | false =>
      refine ihInner (k := k) ?_
      exact ih h

theorem outsideNets_concat (d : Int) (es : List Event) (name : String) :
    outsideNets d (es ++ [.leave name]) = outsideNets d es := by
  induction es generalizing d with
  | nil => rfl
  | cons e es ih => cases e <;> simp [outsideNets, ih]

def contents (c : Composite) (fs : List (Field × Block)) : Script Event :=
  if c.isClosed then .fail (.unsupportedComposite c.typeName) else walkFields fs

theorem inside_contents (c : Composite) (fs : List (Field × Block)) (name : String) :
    Event.Inside 0 ((contents c fs).append (.ofList [.leave name])).steps := by
  rw [contents]
  cases c.isClosed with
  | true => trivial
  | false => exact inside_walkFields fs rfl

section Root

variable {c : Composite} {fs : List (Field × Block)} (hc : c.boundary = .scope)

include hc

theorem steps_walk_scope (name : String) :
    ((composite c fs).walk name).steps =
      .enter name c.code :: ((contents c fs).append (.ofList [.leave name])).steps := by
  simp only [walk, contents, Script.append_eq, Script.append_assoc, steps_append_ofList_cons,
    Composite.opening, Composite.closing, hc]

theorem steps_connectInputs (name : String) :
    (composite c fs).connectInputs.steps = outsideNets 0 ((composite c fs).walk name).steps := by
  have ending (s : Script Event) (last : String) :
      outsideNets 1 (s.append (.ofList [.leave last])).steps = outsideNets 1 s.steps := by
    cases broken : s.fault with
    | some f => simp [Script.append, broken]
    | none => rw [Script.steps_append_of_fault_eq_none broken, Script.ofList, outsideNets_concat]
  simp only [connectInputs, steps_walk_scope hc, outsideNets, Int.zero_add, ending]

theorem mem_connectInputs {n : Nat} (top : String) :
    n ∈ (composite c fs).connectInputs.steps ↔
      ∃ s ∈ ({} : Tracker).encounters ((composite c fs).walk top).steps,
        s.1.path.flat = top ∧ n ∈ s.2.outside := by
  let t : Tracker := ({} : Tracker).enter top
  have entered : t.path = [top] := rfl
  have inside := inside_contents c fs top
  have nets : outsideNets 1 _ = _ := Tracker.outsideNets_eq inside (t := t) (by simp [entered])
  have paths := Tracker.prefix_of_mem_encounters inside (p := [top]) (t := t)
    (by simp [entered]) (by simp [entered])
  rw [steps_connectInputs hc top, steps_walk_scope hc, outsideNets, Tracker.encounters, Int.zero_add,
    nets, List.mem_flatMap, List.exists_mem_cons_iff]
  constructor
  · rintro ⟨s, met, hn⟩
    split at hn
    · next one => exact .inr ⟨s, met, (Path.length_eq_one_iff (paths s met)).mp one, hn⟩
    · cases hn
  · rintro (⟨-, none⟩ | ⟨s, met, key, hn⟩)
    · cases none
    · exact ⟨s, met, by rwa [if_pos ((Path.length_eq_one_iff (paths s met)).mpr key)]⟩

end Root

end Block

/-! ### Declarations of the root -/

namespace Builder

theorem tracker_visitAll (b : Builder) (es : List Event) :
    (b.visitAll es).tracker = es.foldl Tracker.follow b.tracker := by
  induction es generalizing b with
  | nil => rfl
  | cons e es ih => rw [visitAll_cons, ih, tracker_visit, List.foldl_cons]

def atomsAt (b : Builder) (key : String) : List Declaration := ((b.table.get? key).getD {}).atoms

/-- Meeting the event adds the declaration to the entry of the key. -/
def Adds (b : Builder) (e : Event) (key : String) (d : Declaration) : Prop :=
  ∃ ds, (b.visit e).atomsAt key = b.atomsAt key ++ ds ∧ d ∈ ds

theorem atomsAt_visit (b : Builder) (e : Event) (key : String) :
    (b.visit e).atomsAt key =
      b.atomsAt key ++ (notes key (e.records b.tracker)).filterMap Note.atom? := by
  rw [atomsAt, table_visit, Table.get?_foldl_record]
  cases notes key (e.records b.tracker) with
  | nil => simp [Entry.after, atomsAt]
  | cons n ns => rfl

theorem adds_iff {b : Builder} {e : Event} {key : String} {d : Declaration} :
    b.Adds e key d ↔ (key, .atom d) ∈ e.records b.tracker := by
  simp [Adds, atomsAt_visit, Note.atom?_eq_some, mem_notes]

end Builder

/-- At an occurrence of the atom the builder records the declaration under the key. -/
inductive Block.Declares (root : Block) (top : String) (a : Atom) (key : String) (d : Declaration) :
    Prop
  | occurrence (before : List Event) (name : String) (x : Atom) (after : List Event)
    (met : (root.walk top).steps = before ++ .atom name x :: after) (same : x.mark = a.mark)
    (adds : (({} : Builder).visitAll before).Adds (.atom name x) key d) : root.Declares top a key d

def Declaration.IsInward (d : Declaration) : Prop := d.kind = .input ∨ d.kind = .inout

theorem Atom.mem_records_of_isInward {a : Atom} {path : Path} {name key : String} {d : Declaration}
    (h : d.IsInward) :
    (key, .atom d) ∈ a.records path name ↔ path.flat = key ∧ d = a.declaration name := by
  have stub (inst : String) : d ≠ (a.declaration name).stub inst := by
    rintro rfl
    have stubbed := (a.declaration name).kind.isStub_stub
    rcases h with h | h <;> rw [Declaration.stub] at h <;> simp_all [Kind.isStub]
  rw [← mem_notes, notes_records]
  simp [stub]

theorem Atom.mark_eq_of_mem {a x : Atom} {n : Nat} (ha : n ∈ a.mark) (hx : n ∈ x.mark) :
    x.mark = a.mark := by
  have single (b : Atom) (hb : n ∈ b.mark) : b.mark = [n] := by
    cases b <;> simp_all [mark]
  rw [single x hx, single a ha]

theorem Atom.exists_mem_mark {a : Atom} (h : a.kind ≠ .constant) : ∃ n, n ∈ a.mark := by
  cases a with
  | signal s => exact ⟨s.net, by simp [mark]⟩
  | constant c => exact absurd rfl h
  | foreign f => exact ⟨f.net, by simp [mark]⟩

theorem Block.mem_connectInputs_iff {root : Block} (scope : root.isScope = true) (top : String)
    (a : Atom) :
    (∃ n ∈ a.mark, n ∈ root.connectInputs.steps) ↔ ∃ d, root.Declares top a top d ∧ d.IsInward := by
  cases root with
  | atom x => cases scope
  | composite c fs =>
    have hc : c.boundary = .scope := of_decide_eq_true scope
    simp only [mem_connectInputs hc top]
    constructor
    · rintro ⟨n, own, ⟨u, e⟩, met, key, outside⟩
      obtain ⟨before, after, steps, rfl⟩ := Tracker.mem_encounters.mp met
      cases e with
      | atom name x =>
        rw [Event.outside] at outside
        split at outside
        · next inward =>
          let d := x.declaration ((before.foldl Tracker.follow {}).qualify name)
          have same : x.mark = a.mark := Atom.mark_eq_of_mem own outside
          refine ⟨d, ⟨before, name, x, after, steps, same, ?_⟩, inward⟩
          rw [Builder.adds_iff, Builder.tracker_visitAll]
          exact (Atom.mem_records_of_isInward (d := d) inward).mpr ⟨key, rfl⟩
        · cases outside
      | _ => cases outside
    · rintro ⟨d, ⟨before, name, x, after, steps, marks, adds⟩, inward⟩
      rw [Builder.adds_iff, Builder.tracker_visitAll] at adds
      obtain ⟨key, rfl⟩ := (Atom.mem_records_of_isInward inward).mp adds
      obtain ⟨n, hn⟩ : ∃ n, n ∈ x.mark := Atom.exists_mem_mark (by
        intro constant
        rcases inward with h | h <;> simp [Atom.declaration, constant] at h)
      refine ⟨n, marks ▸ hn, _, Tracker.mem_encounters.mpr ⟨before, after, steps, rfl⟩, key, ?_⟩
      rw [Event.outside, if_pos (by exact inward)]
      exact hn

/-- Of a circuit whose root is a module: connecting the inputs connects just the atoms that the builder
records as inward declarations of the root, wherever else they stand. Connecting twice is connecting
once, two ways of connecting commute, and no connection is undone; what the check finds after any
number of them is what it found before, but for missing drivers that there no longer are. -/
theorem Block.connection_order_free (root : Block) (scope : root.isScope = true) :
    (∀ top st a, a.connected (Operation.connectInputs.act root st) = true ↔
      a.connected st = true ∨ ∃ d, root.Declares top a top d ∧ d.IsInward) ∧
    (∀ op op' : Operation, op.isSimulation = false → op'.isSimulation = false → ∀ st,
      op.act root (op.act root st) = op.act root st ∧
        op'.act root (op.act root st) = op.act root (op'.act root st)) ∧
    ∀ ops : List Operation, (∀ op ∈ ops, op.isSimulation = false) → ∀ st,
      (∀ a : Atom, a.connected st = true → a.connected (ops.foldl (Operation.act root) st) = true) ∧
        ∀ top is, root.issues st top = .ok is →
          ∃ is', root.issues (ops.foldl (Operation.act root) st) top = .ok is' ∧
            Issue.Resolved is is' := by
  refine ⟨fun top st a => ?_, fun op op' h h' st => ⟨?_, ?_⟩, fun ops h st => ?_⟩
  · rw [← mem_connectInputs_iff scope]
    exact a.connected_foldl_mark _ st
  · have once : [op, op].foldl (Operation.act root) st = [op].foldl (Operation.act root) st :=
      Operation.foldl_act_congr (by simp [h]) (by simp [h]) (by simp) st
    exact once
  · have turned : [op, op'].foldl (Operation.act root) st = [op', op].foldl (Operation.act root) st :=
      Operation.foldl_act_congr (by simp [h, h']) (by simp [h, h']) (by simp [or_comm]) st
    exact turned
  · have grown (a : Atom) (before : a.connected st = true) :
        a.connected (ops.foldl (Operation.act root) st) = true := by
      rw [Operation.foldl_act_eq h, a.connected_foldl_mark]
      exact .inl before
    exact ⟨grown, fun top is found => issues_resolved grown found⟩

theorem Block.connection_order_free_buffer :
    let root : Block := .buffer 0 false (.ofList [1]) .done
    let x : Atom := .signal { net := 0, kind := .input, width := 4, type := .bits 4 }
    let ops : List Operation := [.connectInputs, .connectAll, .connectInputs]
    let missing (name : String) : Issue := ⟨.openSignal, "t", name⟩
    root.isScope = true ∧ x.connected (Operation.connectInputs.act root {}) = true ∧
      Operation.connectAll.act root (Operation.connectInputs.act root {}) =
        Operation.connectInputs.act root (Operation.connectAll.act root {}) ∧
      root.issues {} "t" = .ok [missing "x", missing "y", missing "z"] ∧
      root.issues (ops.foldl (Operation.act root) {}) "t" = .ok [missing "z"] ∧
      Issue.Resolved [missing "x", missing "y", missing "z"] [missing "z"] := by
  intro root x ops missing
  obtain ⟨inputs, orders, grown⟩ := connection_order_free root rfl
  have declared : root.Declares "t" x "t" (x.declaration "x") :=
    ⟨[_], "x", x, _, rfl, rfl,
      Builder.adds_iff.mpr ((Atom.mem_records_of_isInward (.inl rfl)).mpr ⟨rfl, rfl⟩)⟩
  have marked := (inputs "t" {} x).mpr (.inr ⟨_, declared, .inl rfl⟩)
  have commuted := (orders .connectInputs .connectAll rfl rfl {}).2
  obtain ⟨-, checks⟩ := grown ops (by decide) {}
  have opened : root.issues {} "t" = .ok [missing "x", missing "y", missing "z"] := rfl
  obtain ⟨is, found, resolved⟩ := checks "t" _ opened
  have remaining : (root.issues (ops.foldl (Operation.act root) {}) "t").toOption =
      some [missing "z"] := by
    decide +kernel
  rw [found] at remaining
  rw [Option.some.inj remaining] at found resolved
  exact ⟨rfl, marked, commuted, opened, found, resolved⟩

end Circuitry
