import Circuitry.Block.Connect
import Circuitry.Proofs.Composition
import Circuitry.Proofs.Drivers

/-!
Circuits that leave nothing open. When every signal is marked by its own design or as an input of the
root, and the code of every module assigns exactly the signals that are left to it, the check finds
nothing and the text can be written.
-/

namespace Circuitry

inductive Mention where
  | signal (name : String)
  | label (label : String)
  deriving DecidableEq

namespace Expr

mutual

def mentions : Expr → List Mention
  | .ref name => [.signal name]
  | .enum label => [.label label]
  | .hole | .lit .. => []
  | .unary _ x | .index x _ | .slice x _ _ => x.mentions
  | .binary _ x y => x.mentions ++ y.mentions
  | .concat parts => partMentions parts

def partMentions : List Expr → List Mention
  | [] => []
  | x :: xs => x.mentions ++ partMentions xs

end

end Expr

namespace Stmt

mutual

def mentions : Stmt → List Mention
  | .assign _ value => value.mentions
  | .cond test yes no => test.mentions ++ bodyMentions yes ++ bodyMentions no
  | .case subject items default =>
    subject.mentions ++ itemMentions items ++ bodyMentions default
  | .comment _ => []
  | .links ls => ((ls.map Link.source).filter (· ≠ "")).map .signal

def bodyMentions : List Stmt → List Mention
  | [] => []
  | s :: ss => s.mentions ++ bodyMentions ss

def itemMentions : List (Expr × List Stmt) → List Mention
  | [] => []
  | (label, body) :: items => label.mentions ++ bodyMentions body ++ itemMentions items

end

theorem bodyMentions_eq (body : List Stmt) : bodyMentions body = body.flatMap mentions := by
  induction body with
  | nil => rfl
  | cons s body ih => rw [bodyMentions, ih, List.flatMap_cons]

end Stmt

def Entry.declares (e : Entry) : Mention → Bool
  | .signal name => name ∈ e.declared.map (·.name)
  | .label label => label ∈ e.enums.map (·.label)

/-- The names that a module has to assign for an item: its outputs and inner signals, and the inputs of
the modules in it. -/
def Item.sinks : Path × Item → List String
  | (u, .atom a) => if a.kind = .output ∨ a.kind = .inner then [u.flat] else []
  | (u, .module _ fs) =>
    ((Block.fieldPorts fs).filter (·.2.kind = .input)).map fun x => u.flat ++ "$" ++ x.1.flat

/-- A place in a module, or the port of a module in it. -/
abbrev Spot := Path × Option Path

def Spot.name : Spot → String
  | (u, none) => u.flat
  | (u, some v) => u.flat ++ "$" ++ v.flat

namespace Item

def sinkSpots : Path × Item → List Spot
  | (u, .atom a) => if a.kind = .output ∨ a.kind = .inner then [(u, none)] else []
  | (u, .module _ fs) => ((Block.fieldPorts fs).filter (·.2.kind = .input)).map fun x => (u, some x.1)

def spots : Path × Item → List Spot
  | (u, .atom _) => [(u, none)]
  | (u, .module _ fs) => (Block.fieldPorts fs).map fun x => (u, some x.1)

theorem sinks_eq (x : Path × Item) : sinks x = (sinkSpots x).map Spot.name := by
  obtain ⟨u, a | ⟨c, fs⟩⟩ := x
  · simp only [sinks, sinkSpots]
    split <;> rfl
  · simp [sinks, sinkSpots, Spot.name]

theorem names_declarations (x : Path × Item) :
    (declarations x).map (·.name) = (spots x).map Spot.name := by
  obtain ⟨u, a | ⟨c, fs⟩⟩ := x
  · rfl
  · simp [declarations, spots, Spot.name, Declaration.stub, Atom.declaration]

end Item

/-- What closing a module depends on: what its code assigns and reads, if it has any, what it has to
assign, and what it declares. Nets and widths play no part. -/
structure Outline where
  complete : Bool
  code : Option (List String × List Mention)
  sinks : List Spot
  names : List Spot
  labels : List String

namespace Outline

def declares (o : Outline) : Mention → Bool
  | .signal name => name ∈ o.names.map Spot.name
  | .label label => label ∈ o.labels

/-- Every name that is assigned is a sink and every sink is assigned, and what is read is declared. -/
def seals (o : Outline) : Bool :=
  o.complete && match o.code with
    | some (assigned, mentions) =>
      (assigned.filter (· ≠ "")).all (· ∈ o.sinks.map Spot.name)
        && (o.sinks.map Spot.name).all (· ∈ assigned.filter (· ≠ ""))
        && mentions.all o.declares
    | none => true

end Outline

namespace Scope

def sinks (s : Scope) : List String := s.items.flatMap Item.sinks

structure Sealed (s : Scope) : Prop where
  complete : s.code.complete = true
  targets : ∀ body, s.code = .combinatorial body → ∀ name, name ∈ Stmt.targets body ↔ name ∈ s.sinks
  mentions : ∀ body, s.code = .combinatorial body → ∀ top, ∀ m ∈ Stmt.bodyMentions body,
    (s.entry top).declares m = true

theorem enums_entry (top : String) (s : Scope) :
    (s.entry top).enums = ((s.notes "").flatMap Note.constants).eraseDups := by
  have own (x : Path × Item) :
      (Item.notes (s.key top) x).flatMap Note.constants = (Item.notes "" x).flatMap Note.constants := by
    obtain ⟨u, a | ⟨c, fs⟩⟩ := x <;> rfl
  simp [entry, Entry.extend, notes, List.flatMap_cons, List.flatMap_assoc, own]

def outline (s : Scope) : Outline where
  complete := s.code.complete
  code := match s.code with
    | .combinatorial body => some (Stmt.bodyAssigned body, Stmt.bodyMentions body)
    | _ => none
  sinks := s.items.flatMap Item.sinkSpots
  names := s.items.flatMap Item.spots
  labels := ((s.notes "").flatMap Note.constants).map (·.label)

theorem sinks_outline (s : Scope) : s.outline.sinks.map Spot.name = s.sinks := by
  rw [outline, List.map_flatMap, sinks]
  exact List.flatMap_congr fun x _ => (Item.sinks_eq x).symm

theorem names_outline (s : Scope) (top : String) :
    s.outline.names.map Spot.name = (s.entry top).atoms.map (·.name) := by
  simp only [outline, atoms_entry, List.map_flatMap, Item.names_declarations]

theorem sealed_of_outline {s : Scope} (h : s.outline.seals = true) : s.Sealed := by
  rw [Outline.seals, Bool.and_eq_true] at h
  obtain ⟨complete, code⟩ := h
  rw [sinks_outline] at code
  refine ⟨complete, ?_, ?_⟩
  · intro body hbody name
    have own : s.outline.code = some (Stmt.bodyAssigned body, Stmt.bodyMentions body) := by
      simp only [outline, hbody]
    simp only [own, Bool.and_eq_true, List.all_eq_true, decide_eq_true_eq] at code
    rw [Stmt.targets, List.mem_eraseDups]
    exact ⟨code.1.1 name, code.1.2 name⟩
  · intro body hbody top m hm
    have own : s.outline.code = some (Stmt.bodyAssigned body, Stmt.bodyMentions body) := by
      simp only [outline, hbody]
    simp only [own, Bool.and_eq_true, List.all_eq_true] at code
    have found := code.2 m hm
    cases m with
    | signal name =>
      rw [Outline.declares, s.names_outline top] at found
      rw [Entry.declares, Entry.declared, code_entry, hbody]
      exact found
    | label label =>
      simpa only [Entry.declares, enums_entry, List.mem_map, List.mem_eraseDups, Outline.declares,
        outline] using found

theorem entry_below (top name : String) (s : Scope) :
    (s.below name).entry top = s.entry (Path.flat [top, name]) := by
  have key : (s.below name).key top = s.key (Path.flat [top, name]) :=
    (Path.flat_flat_cons (List.cons_ne_nil top [name]) s.trail).symm
  rw [entry, entry, notes_below, key]

theorem Sealed.below {s : Scope} (h : s.Sealed) (name : String) : (s.below name).Sealed where
  complete := h.complete
  targets := h.targets
  mentions := by
    intro body hbody top m hm
    rw [entry_below]
    exact h.mentions body hbody _ m hm

theorem exists_declaration_of_mem_inputs {s : Scope} (top : String)
    (hnames : Block.fieldsWellNamed s.fields = true) {name : String}
    (h : name ∈ Block.fieldInputs [] s.fields) :
    ∃ d ∈ (s.entry top).atoms, d.name = name ∧ d.kind = .input := by
  obtain ⟨u, a, hx, kind, rfl⟩ := (Block.mem_fieldInputs_flat hnames).mp h
  refine ⟨a.declaration u.flat, ?_, rfl, kind⟩
  rw [atoms_entry]
  exact List.mem_flatMap_of_mem hx (List.mem_singleton.mpr rfl)

theorem exists_declaration_of_mem_sinks {s : Scope} (top : String) {name : String}
    (h : name ∈ s.sinks) : ∃ d ∈ (s.entry top).atoms, d.name = name ∧ d.kind ≠ .input := by
  obtain ⟨⟨u, a | ⟨c, fs⟩⟩, hx, hname⟩ := List.mem_flatMap.mp h
  · simp only [Item.sinks] at hname
    split at hname
    · next kind =>
      obtain rfl := List.mem_singleton.mp hname
      refine ⟨a.declaration u.flat, ?_, rfl, ?_⟩
      · rw [atoms_entry]
        exact List.mem_flatMap_of_mem hx (List.mem_singleton.mpr rfl)
      · intro input
        have : a.kind = .input := input
        simp [this] at kind
    · cases hname
  · obtain ⟨⟨v, a⟩, hport, rfl⟩ := List.mem_map.mp hname
    refine ⟨(a.declaration v.flat).stub u.flat, ?_, rfl, ?_⟩
    · rw [atoms_entry]
      exact List.mem_flatMap_of_mem hx (List.mem_map_of_mem (List.mem_of_mem_filter hport))
    · intro input
      have stub := Kind.isStub_stub a.kind
      have : a.kind.stub = .input := input
      simp [this, Kind.isStub] at stub

theorem Sealed.driven_eq_nil {s : Scope} (h : s.Sealed)
    (hnames : Block.fieldsWellNamed s.fields = true) : Block.driven s.code s.fields = [] := by
  rw [List.eq_nil_iff_forall_not_mem]
  intro name mem
  obtain ⟨input, assigned⟩ := List.mem_filter.mp mem
  have assigned : name ∈ s.code.targets := of_decide_eq_true assigned
  cases code : s.code with
  | combinatorial body =>
    rw [code] at assigned
    obtain ⟨d, hd, same, kind⟩ :=
      exists_declaration_of_mem_sinks "" ((h.targets body code name).mp assigned)
    obtain ⟨d', hd', same', kind'⟩ := exists_declaration_of_mem_inputs "" hnames input
    have names := (List.nodup_append.mp (nodup_names "" hnames)).2.1
    obtain rfl := List.inj_on_of_nodup_map names hd hd' (same.trans same'.symm)
    exact kind kind'
  | _ => simp [code, Code.targets] at assigned

end Scope

theorem State.get_marked_foldl_mark (ns : List Nat) (st : State) (n : Nat) :
    (ns.foldl mark st).marked.get n = true ↔ n ∈ ns ∨ st.marked.get n = true := by
  induction ns generalizing st with
  | nil => simp
  | cons m ns ih =>
    rw [List.foldl_cons, ih, mark, Store.get_set, List.mem_cons]
    by_cases same : m = n
    · simp [same]
    · simp [same, Ne.symm same]

namespace Block

def inputMarks : Path × Item → List Nat
  | (_, .atom a) => if a.kind = .input ∨ a.kind = .inout then a.mark else []
  | (_, .module ..) => []

theorem outsideNets_walkFields {fs : List (Field × Block)} (h : (walkFields fs).fault = none)
    {d : Int} (hd : 0 < d) (es : List Event) :
    outsideNets d ((walkFields fs).steps ++ es) =
      (if d = 1 then (fieldItems fs).flatMap inputMarks else []) ++ outsideNets d es := by
  induction fs using induction_boundaries generalizing d es with
  | nil => simp [Script.done]
  | atom f a fs ih =>
    rw [fault_walkFields_atom] at h
    rw [steps_walkFields_atom, List.cons_append, outsideNets, ih h hd, fieldItems_atom,
      List.flatMap_cons]
    by_cases root : d = 1
    · simp [root, inputMarks]
    · simp [root]
  | scope f c inner fs hc ihInner ih =>
    obtain ⟨-, hinner, hfs⟩ := fault_walkFields_composite.mp h
    have opening : c.opening f.label = .enter f.label c.code := by rw [Composite.opening, hc]
    have closing : c.closing f.label = .leave f.label := by rw [Composite.closing, hc]
    have deeper : d + 1 ≠ 1 := by omega
    rw [steps_walkFields_composite h, opening, closing, List.cons_append, List.cons_append,
      List.append_assoc, List.cons_append, outsideNets, ihInner hinner (by omega), if_neg deeper,
      List.nil_append, outsideNets, Int.add_sub_cancel, ih hfs hd, fieldItems_scope hc]
    rfl
  | group f c inner fs hc ihInner ih =>
    obtain ⟨-, hinner, hfs⟩ := fault_walkFields_composite.mp h
    have within : ((fieldItems inner).map fun x => (f.label :: x.1, x.2)).flatMap inputMarks =
        (fieldItems inner).flatMap inputMarks := by
      rw [List.flatMap_map]
      apply List.flatMap_congr
      rintro ⟨u, a | ⟨c, fs⟩⟩ - <;> rfl
    have opening : c.opening f.label = .openGroup f.label := by rw [Composite.opening, hc]
    have closing : c.closing f.label = .closeGroup f.label := by rw [Composite.closing, hc]
    rw [steps_walkFields_composite h, opening, closing, List.cons_append, List.cons_append,
      List.append_assoc, List.cons_append]
    simp only [outsideNets, ihInner hinner hd, ih hfs hd, fieldItems_group hc, List.flatMap_append,
      within]
    by_cases root : d = 1 <;> simp [root]

theorem connectInputs_eq {c : Composite} {fs : List (Field × Block)} (hc : c.boundary = .scope)
    (h : ((composite c fs).walk "").fault = none) :
    (composite c fs).connectInputs = .ofList ((fieldItems fs).flatMap inputMarks) := by
  have whole : (walkFields [({ member := "", label := "" }, .composite c fs)]).fault = none := by
    simpa using h
  have steps := steps_walkFields_composite whole
  obtain ⟨-, hinner, -⟩ := fault_walkFields_composite.mp whole
  rw [walkFields_singleton] at steps
  simp only [connectInputs, h, steps, Composite.opening, Composite.closing, hc, List.cons_append,
    outsideNets]
  rw [outsideNets_walkFields hinner (by decide)]
  simp [outsideNets, Script.ofList, Script.done]

/-- A circuit whose signals are all marked and whose modules are sealed. -/
structure Closed (b : Block) : Prop where
  scope : b.isScope = true
  named : b.wellNamed = true
  walks : (b.walk "").fault = none
  connects : b.connectAll.fault = none
  marked : ∀ a ∈ b.leaves, ∃ s, a = .signal s ∧ s.net ∈ b.connectAll.steps ++ b.connectInputs.steps
  sealed : ∀ s ∈ b.scopes, s.Sealed

theorem forall_mem_scopes {P : Scope → Prop} {c : Composite} {fs : List (Field × Block)}
    (below : ∀ s name, P s → P (s.below name)) (own : P ⟨[], c, fs⟩)
    (inside : ∀ x ∈ fs, ∀ s ∈ x.2.scopes, P s) : ∀ s ∈ (composite c fs).scopes, P s := by
  have fields : ∀ s ∈ fieldScopes fs, P s := by
    intro s hs
    rw [fieldScopes_eq] at hs
    obtain ⟨x, hx, hs⟩ := List.mem_flatMap.mp hs
    obtain ⟨r, hr, rfl⟩ := List.mem_map.mp hs
    exact below r x.1.label (inside x hx r hr)
  rw [scopes]
  split
  · exact List.forall_mem_cons.mpr ⟨own, fields⟩
  · exact fields

theorem sealed_of_fields {c : Composite} {fs : List (Field × Block)} (own : Scope.Sealed ⟨[], c, fs⟩)
    (inside : ∀ x ∈ fs, ∀ s ∈ x.2.scopes, s.Sealed) : ∀ s ∈ (composite c fs).scopes, s.Sealed :=
  forall_mem_scopes (fun _ name h => h.below name) own inside

theorem fault_walk_eq (b : Block) (name name' : String) :
    (b.walk name).fault = (b.walk name').fault := by
  cases b with
  | atom a => rfl
  | composite c fs => simp [walk, Script.ofList]

namespace Closed

variable {b : Block} (hb : b.Closed) {top : String} (htop : top ≠ "")

include hb

theorem walks_as (name : String) : (b.walk name).fault = none :=
  (fault_walk_eq b name "").trans hb.walks

theorem connected (st : State) :
    ∀ a ∈ b.leaves, a.connected ((b.connectAll ++ b.connectInputs).perform State.mark st).1 = true := by
  intro a ha
  obtain ⟨s, rfl, marked⟩ := hb.marked a ha
  have steps : (b.connectAll ++ b.connectInputs).steps = _ :=
    Script.steps_append_of_fault_eq_none hb.connects
  rw [Script.perform, steps, Atom.connected, State.get_marked_foldl_mark]
  exact .inl marked

theorem perform_connect (st : State) :
    ((b.connectAll ++ b.connectInputs).perform State.mark st).2 = none := by
  change (Script.append _ _).fault = none
  rw [Script.fault_append, hb.connects]
  exact hb.walks

theorem issues_eq_nil {st : State} (connected : ∀ a ∈ b.leaves, a.connected st = true) (top : String) :
    b.issues st top = .ok [] := by
  rw [issues_eq (hb.walks_as top), findings_eq_nil_iff.mpr]
  refine ⟨connected, ?_⟩
  intro s hs
  exact (hb.sealed s hs).driven_eq_nil (wellNamed_of_mem_scopes hb.scope hb.named hs)

include htop

theorem exists_render : ∃ t, b.table top = .ok t ∧ t.render = .ok t.text := by
  have table := table_of_fault (hb.walks_as top)
  refine ⟨_, table, ?_⟩
  have complete : ∀ row ∈ (({} : Builder).visitAll (b.walk top).steps).table.emitted,
      row.2.code.complete = true := by
    rintro ⟨key, e⟩ emitted
    obtain ⟨s, hs, -, rfl⟩ := exists_scope_of_emitted hb.scope hb.named htop table emitted
    rw [Scope.code_entry]
    exact (hb.sealed s hs).complete
  simp only [Table.render, unresolved_of_table table, List.all_eq_true.mpr complete, if_true]

theorem generates (st : State) :
    ∃ st' t, (b.connectAll ++ b.connectInputs).perform State.mark st = (st', none) ∧
      (Generation.check (some b) st' top).result = .ok () ∧ b.table top = .ok t ∧
      (Generation.checked (some b) st' top).result = .ok t.text := by
  obtain ⟨t, table, render⟩ := hb.exists_render htop
  have issues := hb.issues_eq_nil (hb.connected st) top
  have passed : Generation.check (some b)
      ((b.connectAll ++ b.connectInputs).perform State.mark st).1 top = { result := .ok () } := by
    simp only [Generation.check, htop, if_false, issues]
  refine ⟨_, t, Prod.ext rfl (hb.perform_connect st), ?_, table, ?_⟩
  · rw [passed]
  · rw [Generation.checked, passed]
    exact Generation.unchecked_of_render htop table render

theorem entry_of_code {t : Table} (table : b.table top = .ok t) {s : Scope} (hs : s ∈ b.scopes)
    {body : List Stmt} (code : s.code = .combinatorial body) :
    ∃ e, t.get? (s.key top) = some e ∧ e.code = .combinatorial body ∧
      (∀ name, name ∈ Stmt.targets body ↔ name ∈ s.sinks) ∧
      ∀ m ∈ Stmt.bodyMentions body, e.declares m = true := by
  refine ⟨s.entry top, get?_scope_key hb.scope hb.named htop table hs, ?_, ?_, ?_⟩
  · rw [Scope.code_entry, code]
  · exact (hb.sealed s hs).targets body code
  · exact (hb.sealed s hs).mentions body code top

end Closed

end Block

end Circuitry
