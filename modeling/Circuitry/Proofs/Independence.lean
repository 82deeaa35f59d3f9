import Circuitry.Block.Connect
import Circuitry.Generation
import Circuitry.Library.Fanout
import Circuitry.Proofs.Stepping

/-!
What generation and the check look at. A bare circuit has lost its nets, its own connections and
its behaviour, so nothing can be looked up for it in a state: two circuits that are the same when
bare have the same source text, whatever was done to them. The check looks at the connections
besides, and simulation leaves these alone.
-/

namespace Circuitry

namespace Script

variable {α β : Type}

theorem map_append (f : α → β) (s t : Script α) :
    (append s t).map f = append (s.map f) (t.map f) := by
  cases s with | mk xs fault => cases fault <;> simp [append, map]

theorem toExcept_map (f : α → β) (s : Script α) :
    (s.map f).toExcept = s.toExcept.map (List.map f) := by
  cases s with | mk xs fault => cases fault <;> rfl

end Script

/-! ### Bare circuits -/

def Signal.bare (s : Signal) : Signal := { s with net := 0 }

/-- An atom without the place in a state where its values and its connection are kept. -/
def Atom.bare : Atom → Atom
  | .signal s => .signal s.bare
  | .constant c => .constant c
  | .foreign f => .foreign { f with net := 0, driven := false }

def Composite.bare (c : Composite) : Composite := { c with connect := .done, update := .done }

def Stream.bare (s : Stream) : Stream := ⟨s.data.bare, s.valid.bare, s.ready.bare⟩

def Event.bare : Event → Event
  | .atom name a => .atom name a.bare
  | e => e

namespace Block

mutual

def bare : Block → Block
  | .atom a => .atom a.bare
  | .composite c fs => .composite c.bare (bareFields fs)

def bareFields : List (Field × Block) → List (Field × Block)
  | [] => []
  | (f, b) :: fs => (f, b.bare) :: bareFields fs

end

theorem opening_bare (c : Composite) (name : String) :
    c.bare.opening name = (c.opening name).bare := by
  simp only [Composite.opening, Composite.bare]
  split <;> rfl

theorem closing_bare (c : Composite) (name : String) :
    c.bare.closing name = (c.closing name).bare := by
  simp only [Composite.closing, Composite.bare]
  split <;> rfl

theorem walkFields_bare (fs : List (Field × Block)) :
    walkFields (bareFields fs) = (walkFields fs).map Event.bare := by
  induction fs using induction_fields with
  | nil => rfl
  | atom f a fs ih =>
    rw [bareFields, bare, walkFields, walkFields, ih, Script.append_eq, Script.append_eq,
      Script.map_append]
    rfl
  | composite f c inner fs ihInner ih =>
    rw [bareFields, bare, walkFields, walkFields, ih, walk, walk, ihInner, opening_bare,
      closing_bare]
    simp only [Script.append_eq, Script.map_append]
    cases h : c.isClosed <;> simp [Composite.bare, h] <;> rfl

theorem walk_bare (b : Block) (name : String) :
    b.bare.walk name = (b.walk name).map Event.bare := by
  have walked := walkFields_bare [({ member := name, label := name }, b)]
  simpa [bareFields] using walked

theorem pairLinks_bare (owner other : String) (fs : List (Field × Block)) :
    pairLinks owner other (bareFields fs) = pairLinks owner other fs := by
  induction fs using induction_fields generalizing owner other with
  | nil => rfl
  | atom f a fs ih =>
    cases a with
    | signal s =>
      simp only [bareFields, bare, Atom.bare, pairLinks, ih]
      rfl
    | _ => simp only [bareFields, bare, Atom.bare, pairLinks, ih]
  | composite f c inner fs ihInner ih =>
    simp only [bareFields, bare, Composite.bare, pairLinks, fieldLinks, ihInner, ih]

theorem fieldLinks_bare (owner other : String) (b : Block) :
    b.bare.fieldLinks owner other = b.fieldLinks owner other := by
  cases b with
  | atom a => rfl
  | composite c fs => simp only [bare, Composite.bare, fieldLinks, pairLinks_bare]

end Block

def PortSet.bare (p : PortSet) : Stream × Stream := (p.port.bare, p.out.bare)

theorem PortSet.body_congr {p q : PortSet} (h : p.bare = q.bare) (i : Nat) :
    p.body i = q.body i := by
  have port : p.port.sinkBlock.bare = q.port.sinkBlock.bare :=
    congrArg (fun s => s.1.block Stream.sinkType) h
  have out : p.out.sourceBlock.bare = q.out.sourceBlock.bare :=
    congrArg (fun s => s.2.block Stream.sourceType) h
  simp only [body, ← Block.fieldLinks_bare _ _ p.port.sinkBlock,
    ← Block.fieldLinks_bare _ _ p.out.sourceBlock, port, out, Block.fieldLinks_bare]

theorem Fanout.body_congr {x y : Fanout} (h : x.sets.map PortSet.bare = y.sets.map PortSet.bare) :
    x.body = y.body := by
  have sets : ∀ (ps qs : List PortSet) (k : Nat), ps.map PortSet.bare = qs.map PortSet.bare →
      (ps.zipIdx k).flatMap (fun x => x.1.body x.2) =
        (qs.zipIdx k).flatMap fun x => x.1.body x.2 := by
    intro ps
    induction ps with
    | nil =>
      intro qs k same
      rw [List.map_eq_nil_iff.mp same.symm]
    | cons p ps ih =>
      intro qs k same
      obtain ⟨q, rest, rfl, first, tail⟩ := List.map_eq_cons_iff.mp same.symm
      simp only [List.zipIdx_cons, List.flatMap_cons, PortSet.body_congr first.symm k,
        ih rest (k + 1) tail.symm]
  exact sets x.sets y.sets 0 h

namespace Builder

theorem visit_bare (b : Builder) (e : Event) : b.visit e.bare = b.visit e := by
  cases e with
  | atom name a => cases a <;> rfl
  | _ => rfl

theorem visitAll_bare (b : Builder) (es : List Event) :
    b.visitAll (es.map Event.bare) = b.visitAll es := by
  simp only [visitAll, List.foldl_map, visit_bare]

end Builder

theorem Block.table_bare (b : Block) (top : String) : b.bare.table top = b.table top := by
  rw [table, table, walk_bare, Script.toExcept_map]
  cases (b.walk top).toExcept with
  | error f => rfl
  | ok es => simp only [Except.map, Builder.visitAll_bare]

theorem Generation.unchecked_bare (b : Block) (top : String) :
    unchecked (some b.bare) top = unchecked (some b) top := by
  simp only [unchecked, Block.table_bare]

/-! ### The check -/

@[simp] theorem Atom.kind_bare (a : Atom) : a.bare.kind = a.kind := by
  cases a <;> rfl

def Event.connected? (st : State) (e : Event) : Option Bool := e.atom?.map (Atom.connected st)

theorem Event.isSome_connected? (st : State) (e : Event) :
    (e.connected? st).isSome = e.bare.atom?.isSome := by
  cases e <;> rfl

namespace Checker

variable {st st' : State}

theorem visit_congr (c : Checker) {e e' : Event} (bare : e.bare = e'.bare)
    (connected : e.connected? st = e'.connected? st') : c.visit st e = c.visit st' e' := by
  cases e with
  | atom name a =>
    cases e' with
    | atom name' a' =>
      obtain ⟨rfl, same⟩ := Event.atom.inj bare
      have kind : a.kind = a'.kind := by rw [← a.kind_bare, same, a'.kind_bare]
      have flag : a.connected st = a'.connected st' := Option.some.inj connected
      simp only [visit, atom, kind, flag]
    | _ => cases bare
  | enter name code => cases e' <;> cases bare; rfl
  | openGroup name => cases e' <;> cases bare; rfl
  | closeGroup name => cases e' <;> cases bare; rfl
  | leave name => cases e' <;> cases bare; rfl

theorem visitAll_congr (c : Checker) {es es' : List Event}
    (bare : es.map Event.bare = es'.map Event.bare)
    (connected : es.filterMap (Event.connected? st) = es'.filterMap (Event.connected? st')) :
    c.visitAll st es = c.visitAll st' es' := by
  induction es generalizing c es' with
  | nil =>
    rw [List.map_eq_nil_iff.mp bare.symm]
    rfl
  | cons e es ih =>
    obtain ⟨e', rest, rfl, first, tail⟩ := List.map_eq_cons_iff.mp bare.symm
    have atoms : (e.connected? st).isSome = (e'.connected? st').isSome := by
      rw [Event.isSome_connected?, Event.isSome_connected?, first]
    have flags : e.connected? st = e'.connected? st' ∧
        es.filterMap (Event.connected? st) = rest.filterMap (Event.connected? st') := by
      rw [List.filterMap_cons, List.filterMap_cons] at connected
      cases he : e.connected? st <;> cases he' : e'.connected? st' <;> simp_all
    exact (congrArg (visitAll st · es) (visit_congr c first.symm flags.1)).trans
      (ih (c.visit st' e') tail.symm flags.2)

end Checker

def Block.connections (b : Block) (st : State) : List Bool := b.leaves.map (Atom.connected st)

theorem Block.issues_congr {b b' : Block} {st st' : State} (bare : b.bare = b'.bare)
    (connected : b.connections st = b'.connections st') (top : String) :
    b.issues st top = b'.issues st' top := by
  have walks : (b.walk top).map Event.bare = (b'.walk top).map Event.bare := by
    rw [← walk_bare, ← walk_bare, bare]
  obtain ⟨steps, fault⟩ := Script.mk.inj walks
  cases h : (b.walk top).fault with
  | some f => simp [issues, Script.toExcept, ← fault, h, Except.map]
  | none =>
    have flags : (b.walk top).steps.filterMap (Event.connected? st) =
        (b'.walk top).steps.filterMap (Event.connected? st') := by
      rw [connections, connections, ← atoms_walk h, ← atoms_walk (fault ▸ h),
        List.map_filterMap, List.map_filterMap] at connected
      exact connected
    simp [issues, Script.toExcept, ← fault, h, Except.map, Checker.visitAll_congr {} steps flags]

theorem Generation.check_congr {b b' : Block} {st st' : State} (bare : b.bare = b'.bare)
    (connected : b.connections st = b'.connections st') (top : String) :
    check (some b) st top = check (some b') st' top := by
  simp only [check, Block.issues_congr bare connected top]

/-! ### Circuits in use -/

/-- What can be done to a circuit in use. -/
inductive Operation where
  | set (s : Signal) (v : UInt64)
  | flag (s : Signal) (b : Bool)
  | step
  | settle (limit : Int)
  | link (parent child : Block)
  | connectAll
  | connectInputs
  | linkConnect (parent child : Block)

namespace Operation

def act (root : Block) (st : State) : Operation → State
  | .set s v => st.setNext s v
  | .flag s b => st.setFlag s b
  | .step => (root.step st).1
  | .settle limit => (root.settle limit st).1
  | .link parent child => ((parent.link child).perform Drive.run st).1
  | .connectAll => (root.connectAll.perform State.mark st).1
  | .connectInputs => (root.connectInputs.perform State.mark st).1
  | .linkConnect parent child => ((parent.linkConnect child).perform State.mark st).1

def isSimulation : Operation → Bool
  | .set .. | .flag .. | .step | .settle _ | .link .. => true
  | .connectAll | .connectInputs | .linkConnect .. => false

end Operation

namespace State

theorem marked_commitAll (ns : List Nat) (acc : State × Nat) :
    (ns.foldl commitNet acc).1.marked = acc.1.marked := by
  induction ns generalizing acc with
  | nil => rfl
  | cons n ns ih => rw [List.foldl_cons, ih]; rfl

end State

namespace Block

theorem marked_step (b : Block) (st : State) : (b.step st).1.marked = st.marked := by
  have update := Drive.marked_foldl_run b.updateAll.steps st
  have commit := State.marked_commitAll ((b.walk "").steps.filterMap Event.net?)
    (b.updateAll.steps.foldl Drive.run st, 0)
  rw [← State.foldl_commitCounted] at commit
  simp only [step, Script.perform]
  cases b.updateAll.fault with
  | some f => exact update
  | none => cases (b.walk "").fault <;> exact commit.trans update

theorem marked_settleWithin (b : Block) (n : Nat) (st : State) :
    (b.settleWithin n st).1.marked = st.marked := by
  induction n generalizing st with
  | zero => rfl
  | succ n ih =>
    have first := marked_step b st
    rw [settleWithin]
    split
    · next st' h => rwa [h] at first
    · next st' k h =>
      rw [h] at first
      exact (ih st').trans first
    · next st' f h => rwa [h] at first

theorem marked_settle (b : Block) (limit : Int) (st : State) :
    (b.settle limit st).1.marked = st.marked := by
  have within := marked_settleWithin b (stepLimit limit) st
  rw [settle]
  split <;> simp_all

end Block

theorem Operation.marked_act (root : Block) (st : State) {op : Operation}
    (h : op.isSimulation = true) : (op.act root st).marked = st.marked := by
  cases op with
  | set s v => rfl
  | flag s b => rfl
  | step => exact root.marked_step st
  | settle limit => exact root.marked_settle limit st
  | link parent child => exact Drive.marked_foldl_run (parent.link child).steps st
  | connectAll => cases h
  | connectInputs => cases h
  | linkConnect parent child => cases h

/-- A circuit with what it remembers. -/
structure Session where
  root : Block
  state : State

namespace Session

def run (s : Session) (ops : List Operation) : Session :=
  { s with state := ops.foldl (Operation.act s.root) s.state }

def generate (s : Session) (top : String) : Report String :=
  Generation.unchecked (some s.root) top

def check (s : Session) (top : String) : Report Unit :=
  Generation.check (some s.root) s.state top

def connections (s : Session) : List Bool := s.root.connections s.state

theorem connections_run (s : Session) {ops : List Operation}
    (h : ∀ op ∈ ops, op.isSimulation = true) : (s.run ops).connections = s.connections := by
  have marked : (ops.foldl (Operation.act s.root) s.state).marked = s.state.marked := by
    refine List.foldlRecOn (motive := fun st : State => st.marked = s.state.marked) ops _ rfl ?_
    intro st same op hop
    rw [Operation.marked_act _ _ (h op hop), same]
  apply List.map_congr_left
  intro a _
  cases a <;> simp [Atom.connected, run, marked]

end Session

/-- Circuits that are the same when bare have one source text, whatever was done to them, and the
same code for their wiring. They have the same issues if their atoms are connected alike, and
simulation changes no connection. -/
theorem Generation.independent_of_state (s s' : Session) (same : s.root.bare = s'.root.bare)
    (ops ops' : List Operation) (top : String) :
    (s.run ops).generate top = (s'.run ops').generate top ∧
      (∀ owner other, (s.run ops).root.fieldLinks owner other =
        (s'.run ops').root.fieldLinks owner other) ∧
      (∀ x y : Fanout, x.sets.map PortSet.bare = y.sets.map PortSet.bare → x.body = y.body) ∧
      ((s.run ops).connections = (s'.run ops').connections →
        (s.run ops).check top = (s'.run ops').check top) ∧
      ((∀ op ∈ ops, op.isSimulation = true) →
        (s.run ops).connections = s.connections ∧ (s.run ops).check top = s.check top) := by
  refine ⟨?_, ?_, fun x y => Fanout.body_congr,
    fun connected => check_congr same connected top, ?_⟩
  · change unchecked (some s.root) top = unchecked (some s'.root) top
    rw [← unchecked_bare s.root, same, unchecked_bare]
  · intro owner other
    change s.root.fieldLinks owner other = s'.root.fieldLinks owner other
    rw [← Block.fieldLinks_bare _ _ s.root, same, Block.fieldLinks_bare]
  · intro simulation
    have connections := s.connections_run simulation
    exact ⟨connections, check_congr rfl connections top⟩

def Block.buffer (net : Nat) (driven : Bool) (connect : Script Nat) (update : Script Drive) :
    Block :=
  .named
    { typeName := "Buffer"
      boundary := .scope
      code := some (.combinatorial [.assign "y" (.ref "x")])
      connect, update }
    [("x", .signal { net, kind := .input, width := 4, type := .bits 4 }),
      ("y", .signal { net := net + 1, kind := .output, width := 4, type := .bits 4 }),
      ("z", .atom (.foreign
        { typeName := "Pad", net := net + 2, kind := .output, width := 1, signed := false
          literal := "", driven, type := .bits 1 }))]

def Session.working : Session where
  root := .buffer 0 false (.ofList [1, 2])
    (.ofList [.put { net := 1, kind := .output, width := 4, type := .bits 4 } (.var 0)])
  state := {}

def Session.resting : Session where
  root := .buffer 5 true .done .done
  state := (({} : State).mark 5).mark 6

theorem Generation.independent_of_state_buffer :
    let input : Signal := { net := 0, kind := .input, width := 4, type := .bits 4 }
    let simulation : List Operation := [.set input 19, .step, .settle 5, .flag input true]
    let ops : List Operation := simulation ++ [.connectAll, .connectInputs]
    Session.working.root.bare = Session.resting.root.bare ∧
      (Session.working.run ops).generate "t" = Session.resting.generate "t" ∧
      (Session.working.run ops).state.val.get 1 = 3 ∧
      (Session.working.run ops).check "t" = Session.resting.check "t" ∧
      (Session.working.run simulation).check "t" = Session.working.check "t" ∧
      (Session.working.check "t").result =
        .error (.issues
          [⟨.openSignal, "t", "x"⟩, ⟨.openSignal, "t", "y"⟩, ⟨.openSignal, "t", "z"⟩]) := by
  intro input simulation ops
  have same : Session.working.root.bare = Session.resting.root.bare := rfl
  obtain ⟨text, -, -, checks, -⟩ :=
    independent_of_state Session.working Session.resting same ops [] "t"
  obtain ⟨-, -, -, -, simulated⟩ :=
    independent_of_state Session.working Session.resting same simulation [] "t"
  have connected : (Session.working.run ops).connections = Session.resting.connections := by
    decide +kernel
  have copied : (Session.working.run ops).state.val.get 1 = 3 := by decide +kernel
  exact ⟨same, text, copied, checks connected, (simulated (by decide)).2, rfl⟩

end Circuitry
