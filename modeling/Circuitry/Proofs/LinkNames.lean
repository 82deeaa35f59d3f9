import Circuitry.Proofs.Duplex

namespace Circuitry

def Field.isNamed (f : Field) : Bool := decide (f.label = f.member ∧ f.member ≠ "")

namespace Builder

def recorded? (b : Builder) : Event → Option Declaration
  | .atom name (.signal s) =>
    ((b.visit (.atom name (.signal s))).table.get? b.path.flat).bind (·.atoms.getLast?)
  | _ => none

def recordedSignals (b : Builder) : List Event → List Declaration
  | [] => []
  | e :: es => (b.recorded? e).toList ++ (b.visit e).recordedSignals es

theorem recorded?_signal (b : Builder) (name : String) (s : Signal) :
    b.recorded? (.atom name (.signal s)) =
      some ((Atom.signal s).declaration (b.group.qualify name)) := by
  simp [recorded?, visit, atom, Table.addAtom, Table.get?_update, Entry.addAtom]

theorem recordedSignals_append (b : Builder) (es es' : List Event) :
    b.recordedSignals (es ++ es') =
      b.recordedSignals es ++ (b.visitAll es).recordedSignals es' := by
  induction es generalizing b with
  | nil => rfl
  | cons e es ih => simp [recordedSignals, ih, visitAll_cons]

theorem recordedSignals_openGroup (b : Builder) (name : String) (es : List Event) :
    b.recordedSignals (.openGroup name :: es) = (b.openGroup name).recordedSignals es := rfl

theorem recordedSignals_closeGroup (b : Builder) (name : String) (es : List Event) :
    b.recordedSignals (.closeGroup name :: es) = b.closeGroup.recordedSignals es := rfl

end Builder

namespace Block

mutual

/-- Every composite is a duplex group, and every field goes by the name of its member. -/
def isBus : Block → Bool
  | .atom _ => true
  | .composite c fs => decide (c.boundary = .group) && c.duplex && busFields fs

def busFields : List (Field × Block) → Bool
  | [] => true
  | (f, b) :: fs => f.isNamed && b.isBus && busFields fs

end

variable {f : Field} {c : Composite} {b : Block} {inner fs : List (Field × Block)}

theorem busFields_cons :
    busFields ((f, b) :: fs) = true ↔
      (f.label = f.member ∧ f.member ≠ "") ∧ b.isBus = true ∧ busFields fs = true := by
  simp only [busFields, Field.isNamed, Bool.and_eq_true, decide_eq_true_eq, and_assoc]

theorem isBus_composite :
    (composite c fs).isBus = true ↔
      c.boundary = .group ∧ c.duplex = true ∧ busFields fs = true := by
  simp only [isBus, Bool.and_eq_true, decide_eq_true_eq, and_assoc]

theorem isSome_links? {x : Block} (h : x.isDuplex = true) (name owner other : String) :
    (x.links? name owner other).isSome = true := by
  cases x with
  | atom a => cases a <;> simp_all [isDuplex, links?]
  | composite c fs => simp_all [isDuplex, links?]

theorem fault_pairLinks (h : busFields fs = true) (owner other : String) :
    (pairLinks owner other fs).fault = (walkFields fs).fault := by
  induction fs using induction_fields generalizing owner other with
  | nil => simp [pairLinks, Script.done]
  | atom f a fs ih =>
    obtain ⟨-, -, hfs⟩ := busFields_cons.mp h
    rw [pairLinks_cons, fault_walkFields_atom, ← ih hfs owner other]
    cases a <;> simp [links?, Script.ofList, Script.done]
  | composite f c inner fs ihInner ih =>
    obtain ⟨-, hbus, hfs⟩ := busFields_cons.mp h
    obtain ⟨-, duplex, hinner⟩ := isBus_composite.mp hbus
    rw [pairLinks_cons, links?, if_pos duplex, fieldLinks, walkFields, walk]
    cases hclosed : c.isClosed
    · simp [Script.ofList, ihInner hinner, ih hfs]
    · simp [Script.ofList, Script.fail]

theorem names_pairLinks (h : busFields fs = true) (whole : (walkFields fs).fault = none)
    (owner other : String) :
    (pairLinks owner other fs).steps.map (fun l => Path.join l.owner l.field) =
        (fieldTerminals owner fs).map (·.name) ∧
      (pairLinks owner other fs).steps.map (fun l => Path.join l.other l.field) =
        (fieldTerminals other fs).map (·.name) := by
  induction fs using induction_fields generalizing owner other with
  | nil => simp [pairLinks, fieldTerminals, Script.done]
  | atom f a fs ih =>
    obtain ⟨-, -, hfs⟩ := busFields_cons.mp h
    rw [fault_walkFields_atom] at whole
    obtain ⟨near, far⟩ := ih hfs whole owner other
    rw [pairLinks_cons]
    cases a <;> simp [links?, Script.ofList, Script.done, Script.append, fieldTerminals, terminals,
      Signal.link, near, far]
  | composite f c inner fs ihInner ih =>
    obtain ⟨-, hbus, hfs⟩ := busFields_cons.mp h
    obtain ⟨-, duplex, hinner⟩ := isBus_composite.mp hbus
    obtain ⟨opened, wholeInner, wholeRest⟩ := fault_walkFields_composite.mp whole
    have unbroken := (fault_pairLinks hinner (Path.join owner f.member)
      (Path.join other f.member)).trans wholeInner
    obtain ⟨nearInner, farInner⟩ :=
      ihInner hinner wholeInner (Path.join owner f.member) (Path.join other f.member)
    obtain ⟨near, far⟩ := ih hfs wholeRest owner other
    simp [pairLinks_cons, links?, duplex, fieldLinks, opened, Script.append, unbroken,
      fieldTerminals, terminals, nearInner, farInner, near, far]

theorem names_recordedSignals (h : busFields fs = true) (whole : (walkFields fs).fault = none)
    (b : Builder) (hgroup : ∀ s ∈ b.group, s ≠ "") :
    (b.recordedSignals (walkFields fs).steps).map (·.name) =
      (fieldTerminals b.group.flat fs).map (·.name) := by
  induction fs using induction_fields generalizing b with
  | nil => simp [Builder.recordedSignals, fieldTerminals, Script.done]
  | atom f a fs ih =>
    obtain ⟨⟨label, -⟩, -, hfs⟩ := busFields_cons.mp h
    rw [fault_walkFields_atom] at whole
    have rest := ih hfs whole (b.visit (.atom f.label a)) hgroup
    rw [steps_walkFields_atom, Builder.recordedSignals, List.map_append, rest]
    cases a with
    | signal s =>
      rw [Builder.recorded?_signal]
      simp [fieldTerminals, terminals, Atom.declaration, Path.qualify, label, Builder.visit,
        Builder.atom]
    | constant c => simp [fieldTerminals, terminals, Builder.recorded?, Builder.visit, Builder.atom]
    | foreign x => simp [fieldTerminals, terminals, Builder.recorded?, Builder.visit, Builder.atom]
  | composite f c inner fs ihInner ih =>
    obtain ⟨⟨label, named⟩, hbus, hfs⟩ := busFields_cons.mp h
    obtain ⟨boundary, -, hinner⟩ := isBus_composite.mp hbus
    obtain ⟨-, wholeInner, wholeRest⟩ := fault_walkFields_composite.mp whole
    have segments : ∀ s ∈ b.group.push f.label, s ≠ "" := by
      simpa [Path.push, or_imp, forall_and, label, named] using hgroup
    -- The group is named as an atom would be in its place.
    have flat : (b.group.push f.label).flat = Path.join b.group.flat f.member := by
      rw [← label, ← Path.qualify, Path.qualify_eq_flat hgroup, Path.push]
    have nested := ihInner hinner wholeInner (b.openGroup f.label) segments
    have rest (t : Table) := ih hfs wholeRest { b with table := t } hgroup
    rw [steps_walkFields_composite whole, Composite.opening, Composite.closing, boundary,
      Builder.recordedSignals_append, Builder.recordedSignals_openGroup, Builder.visitAll_cons,
      Builder.visitAll_walkFields _ _ wholeInner, Builder.recordedSignals_closeGroup,
      List.map_append, nested]
    simp only [Builder.visit, Builder.openGroup, Builder.closeGroup, Path.pop_push, rest]
    simp [fieldTerminals, terminals, flat]

variable {x : Block} {name : String}

/-- In a bus of any depth a link under a name has its end on the owner's side called as the walk of
the bus under that name records the signal, inside groups that flatten to the owner; and the same
holds of the other side. Links break off where the walk does. -/
theorem links_name_recorded (bus : x.isBus = true) (duplex : x.isDuplex = true) (named : name ≠ "")
    (this that : String) :
    ∃ links, x.links? name this that = some links ∧ links.fault = (x.walk name).fault ∧
      (links.fault = none → ∀ b : Builder, (∀ s ∈ b.group, s ≠ "") →
        (b.group.flat = this →
          links.steps.map (fun l => Path.join l.owner l.field) =
            (b.recordedSignals (x.walk name).steps).map (·.name)) ∧
        (b.group.flat = that →
          links.steps.map (fun l => Path.join l.other l.field) =
            (b.recordedSignals (x.walk name).steps).map (·.name))) := by
  let field : Field := { member := name, label := name }
  have fields : busFields [(field, x)] = true :=
    busFields_cons.mpr ⟨⟨rfl, named⟩, bus, rfl⟩
  obtain ⟨links, hlinks⟩ := Option.isSome_iff_exists.mp (isSome_links? duplex name this that)
  have alone : pairLinks this that [(field, x)] = links := by
    rw [pairLinks_cons, hlinks, pairLinks]
    simp
  have fault := fault_pairLinks fields this that
  rw [alone, walkFields_singleton] at fault
  refine ⟨links, hlinks, fault, fun whole b hgroup => ?_⟩
  have unbroken : (walkFields [(field, x)]).fault = none := by
    rw [walkFields_singleton, ← fault, whole]
  obtain ⟨near, far⟩ := names_pairLinks fields unbroken this that
  have recorded := names_recordedSignals fields unbroken b hgroup
  rw [alone] at near far
  rw [walkFields_singleton] at recorded
  exact ⟨fun this => by rw [near, recorded, this], fun that => by rw [far, recorded, that]⟩

def taggedBus : Block :=
  .composite { typeName := "*tagged", boundary := .group, duplex := true }
    [({ member := "id", label := "id" }, constant { width := 8, value := 7 }),
      ({ member := "bus_0", label := "bus_0" }, nestedBus 0)]

theorem links_name_recorded_taggedBus :
    let b : Builder := { path := ["top", "m"], group := ["g", "h"], saved := [[], []] }
    taggedBus.isBus = true ∧ taggedBus.isDuplex = true ∧ (taggedBus.walk "p").fault = none ∧
      ∃ links, taggedBus.links? "p" "g$h" "u" = some (.ofList links) ∧
        links.map (fun l => Path.join l.owner l.field) =
          ["g$h$p$bus_0$lo", "g$h$p$bus_0$pad_0", "g$h$p$bus_0$pad_1", "g$h$p$bus_0$sub$hi",
            "g$h$p$bus_0$sub$aux"] ∧
        links.map (fun l => Path.join l.owner l.field) =
          (b.recordedSignals (taggedBus.walk "p").steps).map (·.name) := by
  intro b
  have bus : taggedBus.isBus = true := by decide
  have duplex : taggedBus.isDuplex = true := rfl
  obtain ⟨links, hlinks, -, names⟩ :=
    links_name_recorded bus duplex (by decide : "p" ≠ "") "g$h" "u"
  obtain rfl := Option.some.inj hlinks
  refine ⟨bus, duplex, rfl, _, rfl, ?_, (names rfl b (by decide)).1 rfl⟩
  decide

end Block

end Circuitry
