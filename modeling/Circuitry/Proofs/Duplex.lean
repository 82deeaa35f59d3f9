import Circuitry.Block.Linking
import Circuitry.Proofs.Closure
import Circuitry.Proofs.Naming
import Circuitry.Proofs.Synchronous
import Mathlib.Data.List.Flatten

namespace Circuitry

theorem Script.ofList_append {α : Type} (xs ys : List α) :
    append (ofList xs) (ofList ys) = ofList (xs ++ ys) := rfl

structure Terminal where
  name : String
  signal : Signal

/-- The link of a signal to a signal of the facing instance. -/
structure Wire where
  link : Link
  near : Terminal
  far : Terminal
  made : link = near.signal.link link.field link.owner link.other
  near_name : near.name = Path.join link.owner link.field
  far_name : far.name = Path.join link.other link.field

namespace Wire

def ends? (w : Wire) : Option (Terminal × Terminal) :=
  match w.link.direction with
  | .forward => some (w.far, w.near)
  | .backward => some (w.near, w.far)
  | _ => none

def nets (w : Wire) : List Nat := [w.near.signal.net, w.far.signal.net]

theorem ends?_eq (w : Wire) :
    w.ends? = match w.near.signal.kind with
      | .input => some (w.far, w.near)
      | .output => some (w.near, w.far)
      | _ => none := by
  rw [ends?, w.made]
  cases hkind : w.near.signal.kind <;> simp [Signal.link, hkind]

theorem target_eq (w : Wire) : w.link.target = w.ends?.elim "" (·.1.name) := by
  rw [Link.target, ends?]
  cases w.link.direction with
  | forward => exact w.far_name.symm
  | backward => exact w.near_name.symm
  | both => rfl
  | unlisted code => rfl

theorem source_eq (w : Wire) : w.link.source = w.ends?.elim "" (·.2.name) := by
  rw [Link.source, ends?]
  cases w.link.direction with
  | forward => exact w.near_name.symm
  | backward => exact w.far_name.symm
  | both => rfl
  | unlisted code => rfl

theorem mem_drives {w : Wire} {d : Drive} :
    d ∈ w.near.signal.linkDrives w.far.signal ↔
      ∃ t s, w.ends? = some (t, s) ∧ d = .put t.signal (.var s.signal.net) := by
  rw [ends?_eq, Signal.linkDrives]
  cases w.near.signal.kind <;> simp [eq_comm]

theorem targets_sublist (w : Wire) :
    ((w.near.signal.linkDrives w.far.signal).map (·.target.net)).Sublist w.nets := by
  rw [Signal.linkDrives, nets]
  cases w.near.signal.kind <;> simp [Drive.target]

theorem mem_marks {w : Wire} {n : Nat} :
    n ∈ w.near.signal.linkMarks w.far.signal ↔
      (∃ t s, w.ends? = some (t, s) ∧ t.signal.net = n) ∨
        w.near.signal.kind = .inout ∧ n ∈ w.nets := by
  rw [ends?_eq, Signal.linkMarks]
  cases w.near.signal.kind <;> simp [nets, eq_comm]

end Wire

namespace Block

mutual

/-- Two instances of one duplex type with the same members present: every member is a signal or
again duplex, and is held as such. -/
inductive Twin : Block → Block → Prop
  | signal (s t : Signal) : Twin (.atom (.signal s)) (.atom (.signal t))
  | composite {c d : Composite} {fs gs : List (Field × Block)} (type : c.typeName = d.typeName)
    (duplex : c.duplex = true) (near : c.isClosed = false) (far : d.isClosed = false)
    (fields : FieldTwins fs gs) : Twin (.composite c fs) (.composite d gs)

inductive FieldTwins : List (Field × Block) → List (Field × Block) → Prop
  | nil : FieldTwins [] []
  | cons {f g : Field} {x y : Block} {fs gs : List (Field × Block)} (near : f.direct = true)
    (far : g.direct = true) (member : f.member = g.member) (first : Twin x y)
    (rest : FieldTwins fs gs) : FieldTwins ((f, x) :: fs) ((g, y) :: gs)

end

mutual

def terminals (name : String) : Block → List Terminal
  | .atom (.signal s) => [⟨name, s⟩]
  | .atom _ => []
  | .composite _ fs => fieldTerminals name fs

def fieldTerminals (name : String) : List (Field × Block) → List Terminal
  | [] => []
  | (f, x) :: fs => x.terminals (Path.join name f.member) ++ fieldTerminals name fs

end

mutual

def wires (name owner other : String) : Block → Block → List Wire
  | .atom (.signal s), .atom (.signal t) =>
    [⟨s.link name owner other, ⟨Path.join owner name, s⟩, ⟨Path.join other name, t⟩, rfl, rfl, rfl⟩]
  | .composite _ fs, .composite _ gs =>
    fieldWires (Path.join owner name) (Path.join other name) fs gs
  | _, _ => []

def fieldWires (owner other : String) : List (Field × Block) → List (Field × Block) → List Wire
  | (f, x) :: fs, (_, y) :: gs => x.wires f.member owner other y ++ fieldWires owner other fs gs
  | _, _ => []

end

variable {α : Type} {fs gs : List (Field × Block)} {a b : Block}

mutual

theorem Twin.near_wires (name owner other : String) : ∀ {a b : Block}, a.Twin b →
    (a.wires name owner other b).map (·.near) = a.terminals (Path.join owner name)
  | _, _, .signal s t => by simp [wires, terminals]
  | _, _, .composite _ _ _ _ fields => by
    rw [wires, terminals, fields.near_wires]

theorem FieldTwins.near_wires (owner other : String) : ∀ {fs gs : List (Field × Block)},
    FieldTwins fs gs → (fieldWires owner other fs gs).map (·.near) = fieldTerminals owner fs
  | _, _, .nil => by simp [fieldWires, fieldTerminals]
  | _, _, .cons _ _ member first rest => by
    rw [fieldWires, fieldTerminals, List.map_append, first.near_wires, rest.near_wires]

end

mutual

theorem Twin.far_wires (name owner other : String) : ∀ {a b : Block}, a.Twin b →
    (a.wires name owner other b).map (·.far) = b.terminals (Path.join other name)
  | _, _, .signal s t => by simp [wires, terminals]
  | _, _, .composite _ _ _ _ fields => by
    rw [wires, terminals, fields.far_wires]

theorem FieldTwins.far_wires (owner other : String) : ∀ {fs gs : List (Field × Block)},
    FieldTwins fs gs → (fieldWires owner other fs gs).map (·.far) = fieldTerminals other gs
  | _, _, .nil => by simp [fieldWires, fieldTerminals]
  | _, _, .cons _ _ member first rest => by
    rw [fieldWires, fieldTerminals, List.map_append, first.far_wires, rest.far_wires, member]

end

theorem Twin.isDuplex : a.Twin b → a.isDuplex = true
  | .signal _ _ => rfl
  | .composite _ duplex _ _ _ => duplex

theorem Twin.typeName : a.Twin b → a.typeName = b.typeName
  | .signal _ _ => rfl
  | .composite type _ _ _ _ => type

theorem linkPairs_cons (wire : Signal → Signal → List α) (f g : Field) (x y : Block) :
    linkPairs wire ((f, x) :: fs) ((g, y) :: gs) =
      (if !(f.direct && x.isDuplex) then .done
        else if !(g.direct && x.typeName = y.typeName) then .fail .fieldTypesDiffer
        else x.linkWith wire y) ++ linkPairs wire fs gs := by
  cases x with
  | atom s => cases s <;> cases y with
    | atom t => cases t <;> rfl
    | composite => rfl
  | composite => cases y <;> rfl

theorem pairLinks_cons (owner other : String) (f : Field) (x : Block) :
    pairLinks owner other ((f, x) :: fs) =
      ((x.links? f.member owner other).getD .done) ++ pairLinks owner other fs := by
  cases x with
  | atom s => cases s <;> rfl
  | composite c inner => cases hc : c.duplex <;> simp [pairLinks, links?, hc]

theorem FieldTwins.length_eq {fs gs : List (Field × Block)} :
    FieldTwins fs gs → fs.length = gs.length
  | .nil => rfl
  | .cons _ _ _ _ rest => congrArg (· + 1) rest.length_eq

mutual

theorem Twin.linkWith (name owner other : String) (wire : Signal → Signal → List α) :
    ∀ {a b : Block}, a.Twin b → a.linkWith wire b =
      .ofList ((a.wires name owner other b).flatMap fun w => wire w.near.signal w.far.signal)
  | _, _, .signal s t => by simp [Block.linkWith, wires]
  | _, _, .composite type _ near far fields => by
    have pairs := fields.linkPairs (Path.join owner name) (Path.join other name) wire
    simp [Block.linkWith, linkFields, wires, pairs, type, near, far, fields.length_eq]

theorem FieldTwins.linkPairs (owner other : String) (wire : Signal → Signal → List α) :
    ∀ {fs gs : List (Field × Block)}, FieldTwins fs gs → Block.linkPairs wire fs gs =
      .ofList ((fieldWires owner other fs gs).flatMap fun w => wire w.near.signal w.far.signal)
  | _, _, .nil => by simp [Block.linkPairs, fieldWires]; rfl
  | _, _, .cons near far _ first rest => by
    rw [linkPairs_cons, fieldWires, List.flatMap_append, ← Script.ofList_append,
      ← rest.linkPairs owner other, ← first.linkWith _ owner other]
    simp [near, far, first.isDuplex, first.typeName]

end

mutual

theorem Twin.links? (name owner other : String) : ∀ {a b : Block}, a.Twin b →
    a.links? name owner other = some (.ofList ((a.wires name owner other b).map (·.link)))
  | _, _, .signal s t => by simp [Block.links?, wires]
  | _, _, .composite _ duplex near _ fields => by
    simp [Block.links?, wires, duplex, fieldLinks, near, fields.pairLinks]

theorem FieldTwins.pairLinks (owner other : String) : ∀ {fs gs : List (Field × Block)},
    FieldTwins fs gs → Block.pairLinks owner other fs =
      .ofList ((fieldWires owner other fs gs).map (·.link))
  | _, _, .nil => by simp [Block.pairLinks, fieldWires]; rfl
  | _, _, .cons _ _ _ first rest => by
    rw [pairLinks_cons, first.links?, fieldWires, List.map_append, ← Script.ofList_append,
      ← rest.pairLinks]
    rfl

end

mutual

theorem nets_terminals (name : String) : ∀ a : Block,
    (a.terminals name).map (·.signal.net) = a.leaves.filterMap Atom.net?
  | .atom (.signal s) => by simp [terminals, leaves, Atom.net?]
  | .atom (.constant c) => by simp [terminals, leaves, Atom.net?]
  | .atom (.foreign f) => by simp [terminals, leaves, Atom.net?]
  | .composite c fs => by rw [terminals, leaves, nets_fieldTerminals name fs]

theorem nets_fieldTerminals (name : String) : ∀ fs : List (Field × Block),
    (fieldTerminals name fs).map (·.signal.net) = (fieldLeaves fs).filterMap Atom.net?
  | [] => by simp [fieldTerminals, fieldLeaves]
  | (f, x) :: fs => by
    rw [fieldTerminals, fieldLeaves, List.map_append, List.filterMap_append,
      nets_terminals _ x, nets_fieldTerminals name fs]

end

theorem Twin.nodup_nets (twin : a.Twin b)
    (apart : ((a.leaves ++ b.leaves).filterMap Atom.net?).Nodup) (name owner other : String) :
    ((a.wires name owner other b).flatMap Wire.nets).Nodup := by
  have near := nets_terminals (Path.join owner name) a
  have far := nets_terminals (Path.join other name) b
  rw [← twin.near_wires, List.map_map] at near
  rw [← twin.far_wires, List.map_map] at far
  rw [List.filterMap_append, ← near, ← far, ← List.flatMap_pure_eq_map,
    ← List.flatMap_pure_eq_map] at apart
  exact (List.flatMap_append_perm _ _ _).nodup_iff.mp apart

end Block

namespace Wire

variable {ws : List Wire}

def drives (ws : List Wire) : List Drive :=
  ws.flatMap fun w => w.near.signal.linkDrives w.far.signal

theorem nodup_targets (apart : (ws.flatMap nets).Nodup) :
    ((drives ws).map (·.target.net)).Nodup := by
  rw [drives, List.map_flatMap]
  exact apart.sublist (List.Sublist.flatMap_right ws fun w _ => w.targets_sublist)

theorem put_of_mem_drives {d : Drive} (h : d ∈ drives ws) :
    ∃ w ∈ ws, ∃ t s, w.ends? = some (t, s) ∧ d = .put t.signal (.var s.signal.net) := by
  obtain ⟨w, hw, hd⟩ := List.mem_flatMap.mp h
  exact ⟨w, hw, mem_drives.mp hd⟩

theorem next_of_driven (apart : (ws.flatMap nets).Nodup) {w : Wire} (hw : w ∈ ws) {t s : Terminal}
    (ends : w.ends? = some (t, s)) (st : State) :
    ((drives ws).foldl Drive.run st).next.get t.signal.net =
      Width.truncate t.signal.width (st.val.get s.signal.net) := by
  have driven : Drive.put t.signal (.var s.signal.net) ∈ drives ws :=
    List.mem_flatMap.mpr ⟨w, hw, mem_drives.mpr ⟨t, s, ends, rfl⟩⟩
  have cells : (drives ws).filterMap Drive.cell? = [] := by
    rw [List.filterMap_eq_nil_iff]
    intro d hd
    obtain ⟨-, -, t, s, -, rfl⟩ := put_of_mem_drives hd
    rfl
  have last := Drive.get_next_foldl_run_mem (nodup_targets apart) (cells ▸ List.nodup_nil) driven st
  refine last.trans ?_
  simp [Drive.run, Drive.target, State.setNext, Word.eval]

theorem next_of_undriven {n : Nat}
    (h : ∀ w ∈ ws, ∀ t s, w.ends? = some (t, s) → t.signal.net ≠ n) (st : State) :
    ((drives ws).foldl Drive.run st).next.get n = st.next.get n := by
  refine Drive.get_next_foldl_run_of_ne (fun d hd => ?_) st
  obtain ⟨w, hw, t, s, ends, rfl⟩ := put_of_mem_drives hd
  exact h w hw t s ends

theorem clock_drives (st : State) : ((drives ws).foldl Drive.run st).clock = st.clock := by
  refine Drive.clock_foldl_run (fun d hd => ?_) st
  obtain ⟨-, -, t, s, -, rfl⟩ := put_of_mem_drives hd
  rfl

def marks (ws : List Wire) : List Nat :=
  ws.flatMap fun w => w.near.signal.linkMarks w.far.signal

theorem mem_marks_iff {n : Nat} :
    n ∈ marks ws ↔ ∃ w ∈ ws, (∃ t s, w.ends? = some (t, s) ∧ t.signal.net = n) ∨
      w.near.signal.kind = .inout ∧ n ∈ w.nets := by
  simp only [marks, List.mem_flatMap, mem_marks]

end Wire

theorem State.foldl_mark_eq (ns : List Nat) (st : State) :
    ns.foldl mark st = { st with marked := (ns.foldl mark st).marked } := by
  induction ns generalizing st with
  | nil => rfl
  | cons n ns ih => rw [List.foldl_cons, ih]; rfl

namespace Block

variable {a b : Block}

theorem Twin.perform_link (twin : a.Twin b) (name owner other : String) (st : State) :
    (a.link b).perform Drive.run st =
      ((Wire.drives (a.wires name owner other b)).foldl Drive.run st, none) := by
  rw [link, twin.linkWith name owner other]
  rfl

theorem Twin.perform_linkConnect (twin : a.Twin b) (name owner other : String) (st : State) :
    (a.linkConnect b).perform State.mark st =
      ((Wire.marks (a.wires name owner other b)).foldl State.mark st, none) := by
  rw [linkConnect, twin.linkWith name owner other]
  rfl

/-- For two instances of one duplex type that share no signal there is one list of wires, whose ends
are the signals of the two instances in order. The links that are written are those of the wires,
and name the driven and the driving end. Linking gives each driven end the value of the driving end,
cut to its width; connecting marks each driven end and both ends of an inout; and neither does
anything else. -/
theorem wiring_agrees (twin : a.Twin b)
    (apart : ((a.leaves ++ b.leaves).filterMap Atom.net?).Nodup) (name owner other : String)
    (st : State) :
    ∃ wires : List Wire,
      a.links? name owner other = some (.ofList (wires.map (·.link))) ∧
      wires.map (·.near) = a.terminals (Path.join owner name) ∧
      wires.map (·.far) = b.terminals (Path.join other name) ∧
      (∀ w ∈ wires, w.link.target = w.ends?.elim "" (·.1.name) ∧
        w.link.source = w.ends?.elim "" (·.2.name)) ∧
      (∃ after, (a.link b).perform Drive.run st = (after, none) ∧
        (∀ w ∈ wires, ∀ t s, w.ends? = some (t, s) →
          after.next.get t.signal.net =
            Width.truncate t.signal.width (st.val.get s.signal.net)) ∧
        (∀ n, (∀ w ∈ wires, ∀ t s, w.ends? = some (t, s) → t.signal.net ≠ n) →
          after.next.get n = st.next.get n) ∧
        after.val = st.val ∧ after.marked = st.marked ∧ after.clock = st.clock) ∧
      ∃ after, (a.linkConnect b).perform State.mark st = (after, none) ∧
        (∀ n, after.marked.get n = true ↔ st.marked.get n = true ∨
          ∃ w ∈ wires, (∃ t s, w.ends? = some (t, s) ∧ t.signal.net = n) ∨
            w.near.signal.kind = .inout ∧ n ∈ w.nets) ∧
        after.val = st.val ∧ after.next = st.next ∧ after.clock = st.clock := by
  have nodup := twin.nodup_nets apart name owner other
  refine ⟨a.wires name owner other b, twin.links? name owner other,
    twin.near_wires name owner other, twin.far_wires name owner other,
    fun w _ => ⟨w.target_eq, w.source_eq⟩, ?simulated, ?connected⟩
  case simulated =>
    refine ⟨_, twin.perform_link name owner other st, ?_, ?_, Drive.val_foldl_run _ st,
      Drive.marked_foldl_run _ st, Wire.clock_drives st⟩
    · intro w hw t s ends
      exact Wire.next_of_driven nodup hw ends st
    · intro n undriven
      exact Wire.next_of_undriven undriven st
  case connected =>
    refine ⟨_, twin.perform_linkConnect name owner other st, ?_, ?_, ?_, ?_⟩
    · intro n
      rw [State.get_marked_foldl_mark, Wire.mem_marks_iff, or_comm]
    all_goals rw [State.foldl_mark_eq]

def nestedBus (net : Nat) : Block :=
  let port (member : String) (n : Nat) (kind : Kind) (width : Int) : Field × Block :=
    ({ member, label := member }, signal { net := net + n, kind, width, type := .bits width })
  .composite { typeName := "*bus", boundary := .group, duplex := true }
    [port "lo" 0 .input 4, port "pad_0" 1 .inout 1, port "pad_1" 2 .inout 1,
      ({ member := "sub", label := "sub" },
        .composite { typeName := "*pair", boundary := .group, duplex := true }
          [port "hi" 3 .output 2, port "aux" 4 .inner 1])]

theorem wiring_agrees_nestedBus :
    let start : State := { val := (({} : Store UInt64).set 0 31).set 8 63 }
    (nestedBus 0).Twin (nestedBus 5) ∧
      (((nestedBus 0).leaves ++ (nestedBus 5).leaves).filterMap Atom.net?).Nodup ∧
      ∃ (wires : List Wire) (after : State),
        (nestedBus 0).links? "p" "" "u" = some (.ofList (wires.map (·.link))) ∧
        wires.map (·.near.name) = ["p$lo", "p$pad_0", "p$pad_1", "p$sub$hi", "p$sub$aux"] ∧
        ((nestedBus 0).link (nestedBus 5)).perform Drive.run start = (after, none) ∧
        ∀ w ∈ wires, ∀ t s, w.ends? = some (t, s) →
          after.next.get t.signal.net =
            Width.truncate t.signal.width (start.val.get s.signal.net) := by
  intro start
  have twin : (nestedBus 0).Twin (nestedBus 5) :=
    .composite rfl rfl rfl rfl <| .cons rfl rfl rfl (.signal _ _) <|
      .cons rfl rfl rfl (.signal _ _) <| .cons rfl rfl rfl (.signal _ _) <|
      .cons rfl rfl rfl (.composite rfl rfl rfl rfl <| .cons rfl rfl rfl (.signal _ _) <|
        .cons rfl rfl rfl (.signal _ _) .nil) .nil
  have apart : (((nestedBus 0).leaves ++ (nestedBus 5).leaves).filterMap Atom.net?).Nodup := by
    decide
  obtain ⟨wires, links, near, -, -, ⟨after, linked, driven, -⟩, -⟩ :=
    wiring_agrees twin apart "p" "" "u" start
  have names := congrArg (List.map (·.name)) near
  rw [List.map_map] at names
  exact ⟨twin, apart, wires, after, links, names, linked, driven⟩

end Block

end Circuitry
