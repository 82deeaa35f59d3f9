import Circuitry.Proofs.Closure
import Circuitry.Proofs.Numerals
import Circuitry.Proofs.Parts

namespace Circuitry

theorem Stmt.bodyComplete_eq (body : List Stmt) : bodyComplete body = body.all complete := by
  induction body with
  | nil => rfl
  | cons s body ih => rw [bodyComplete, ih, List.all_cons]

namespace Block

theorem fieldsWellNamed_of_forall {fs : List (Field × Block)}
    (h : ∀ x ∈ fs, Path.IsSegment x.1.label ∧ x.2.wellNamed = true)
    (nodup : (fs.map (·.1.label)).Nodup) : fieldsWellNamed fs = true := by
  induction fs with
  | nil => rfl
  | cons x fs ih =>
    obtain ⟨⟨segment, named⟩, rest⟩ := List.forall_mem_cons.mp h
    obtain ⟨fresh, nodup⟩ := List.nodup_cons.mp nodup
    exact fieldsWellNamed_cons.mpr ⟨segment, fresh, named, ih rest nodup⟩

theorem sealed_of_scopes_eq_nil {b : Block} (h : b.scopes = []) : ∀ s ∈ b.scopes, s.Sealed := by
  simp [h]

inductive Inside (P : Block → Prop) : List (Field × Block) → Prop
  | nil : Inside P []
  | plain {f : Field} {b : Block} {fs : List (Field × Block)} (none : b.scopes = [])
      (rest : Inside P fs) : Inside P ((f, b) :: fs)
  | part {f : Field} {b : Block} {fs : List (Field × Block)} (first : P b)
      (rest : Inside P fs) : Inside P ((f, b) :: fs)

theorem Inside.forall_mem {P Q : Block → Prop} {fs : List (Field × Block)} (h : Inside P fs)
    (none : ∀ b : Block, b.scopes = [] → Q b) (some : ∀ b, P b → Q b) : ∀ x ∈ fs, Q x.2 := by
  induction h with
  | nil => simp
  | plain empty rest ih => exact List.forall_mem_cons.mpr ⟨none _ empty, ih⟩
  | part first rest ih => exact List.forall_mem_cons.mpr ⟨some _ first, ih⟩

theorem closed_of_offsets {c : Composite} {fs : List (Field × Block)} (net : Nat)
    (nets marks : List Nat) (scope : c.boundary = .scope)
    (named : fieldsWellNamed fs = true) (walks : ((composite c fs).walk "").fault = none)
    (connects : (composite c fs).connectAll.fault = none)
    (leaves : (fieldLeaves fs).map Atom.net? = nets.map fun o => some (net + o))
    (marked : (composite c fs).connectAll.steps ++ (composite c fs).connectInputs.steps =
      marks.map (net + ·)) (covered : nets ⊆ marks) {o : Outline}
    (outlined : Scope.outline ⟨[], c, fs⟩ = o) (sealed : o.seals = true)
    (inside : Inside Closed fs) : (composite c fs).Closed where
  scope := decide_eq_true scope
  named := named
  walks := walks
  connects := connects
  marked := by
    intro a ha
    have mem := List.mem_map_of_mem (f := Atom.net?) ha
    rw [Block.leaves, leaves] at mem
    obtain ⟨o, ho, same⟩ := List.mem_map.mp mem
    cases a with
    | signal s =>
      obtain same : net + o = s.net := Option.some.inj same
      rw [marked]
      exact ⟨s, rfl, same ▸ List.mem_map_of_mem (covered ho)⟩
    | constant c => cases same
    | foreign f => cases same
  sealed := sealed_of_fields (Scope.sealed_of_outline (outlined ▸ sealed))
    (inside.forall_mem (fun _ => sealed_of_scopes_eq_nil) fun _ closed => closed.sealed)

end Block

namespace Adder

def outline : Outline where
  complete := true
  code := some (Stmt.bodyAssigned body, Stmt.bodyMentions body)
  sinks := [(["sum"], none)]
  names := [(["a"], none), (["b"], none), (["sum"], none)]
  labels := []

theorem closed (net : Nat) (width : Int) : (placed net width).block.Closed :=
  Block.closed_of_offsets net [0, 1, 2] [2, 0, 1] rfl rfl rfl rfl rfl rfl (by decide)
    (rfl : _ = outline) (by decide +kernel) (.plain rfl (.plain rfl (.plain rfl .nil)))

end Adder

namespace FlipFlop

def outline : Outline where
  complete := true
  code := none
  sinks := [(["q"], none)]
  names := [(["clock"], none), (["d"], none), (["q"], none)]
  labels := []

theorem closed (net cell : Nat) (width : Int) : (placed net cell width).block.Closed :=
  Block.closed_of_offsets net [0, 1, 2] [2, 0, 1] rfl rfl rfl rfl rfl rfl (by decide)
    (rfl : _ = outline) (by decide +kernel) (.plain rfl (.plain rfl (.plain rfl .nil)))

end FlipFlop

namespace Counter

def outline : Outline where
  complete := true
  code := some (Stmt.bodyAssigned (body 1), Stmt.bodyMentions (body 1))
  sinks := [(["count"], none), (["ff"], some ["clock"]), (["ff"], some ["d"])]
  names := [(["clock"], none), (["enable"], none), (["count"], none), (["ff"], some ["clock"]),
    (["ff"], some ["d"]), (["ff"], some ["q"])]
  labels := []

theorem closed (net cell : Nat) (width : Int) : (placed net cell width).block.Closed :=
  Block.closed_of_offsets net [0, 1, 2, 3, 4, 5] [3, 4, 2, 5, 0, 1] rfl rfl rfl rfl rfl rfl
    (by decide) (rfl : _ = outline) (by decide +kernel)
    (.plain rfl (.plain rfl (.plain rfl (.part (FlipFlop.closed _ _ _) .nil))))

end Counter

namespace Increment

def outline : Outline where
  complete := true
  code := some (Stmt.bodyAssigned (body 1), Stmt.bodyMentions (body 1))
  sinks := [(["in", "ready"], none), (["out", "data"], none), (["out", "valid"], none)]
  names := [(["in", "data"], none), (["in", "valid"], none), (["in", "ready"], none),
    (["out", "data"], none), (["out", "valid"], none), (["out", "ready"], none)]
  labels := []

theorem closed (net : Nat) (width : Int) : (placed net width).block.Closed :=
  Block.closed_of_offsets net [0, 1, 2, 3, 4, 5] [3, 4, 2, 0, 1, 5] rfl rfl rfl rfl rfl rfl
    (by decide) (rfl : _ = outline) (by decide +kernel) (.plain rfl (.plain rfl .nil))

end Increment

namespace Blinker

def outline : Outline where
  complete := true
  code := some (Stmt.bodyAssigned body, Stmt.bodyMentions body)
  sinks := [(["led"], none), (["state"], none), (["ff"], some ["clock"]), (["ff"], some ["d"])]
  names := [(["clock"], none), (["tick"], none), (["led"], none), (["state"], none),
    (["ff"], some ["clock"]), (["ff"], some ["d"]), (["ff"], some ["q"])]
  labels := [stateType.label "Off", stateType.label "On"]

theorem closed (net cell : Nat) : (placed net cell).block.Closed :=
  Block.closed_of_offsets net [1, 2, 3, 0, 4, 5, 6] [4, 5, 0, 3, 6, 1, 2] rfl rfl rfl rfl rfl rfl
    (by decide) (rfl : _ = outline) (by decide +kernel)
    (.plain rfl (.plain rfl (.plain rfl (.plain rfl (.part (FlipFlop.closed _ _ _) .nil)))))

end Blinker

namespace ClockGenerator

def outline : Outline where
  complete := true
  code := none
  sinks := [(["clock_out"], none), (["locked"], none)]
  names := [(["clock_in"], none), (["clock_out"], none), (["locked"], none)]
  labels := []

theorem closed (net : Nat) : (placed net).block.Closed :=
  Block.closed_of_offsets net [0, 1, 2] [1, 2, 0] rfl rfl rfl rfl rfl rfl (by decide)
    (rfl : _ = outline) (by decide +kernel) (.plain rfl (.plain rfl (.plain rfl .nil)))

end ClockGenerator

namespace DiffInput

def outline : Outline where
  complete := true
  code := none
  sinks := [(["out"], none)]
  names := [(["p"], none), (["n"], none), (["out"], none)]
  labels := []

theorem closed (net : Nat) : (placed net).block.Closed :=
  Block.closed_of_offsets net [0, 1, 2] [2, 0, 1] rfl rfl rfl rfl rfl rfl (by decide)
    (rfl : _ = outline) (by decide +kernel) (.plain rfl (.plain rfl (.plain rfl .nil)))

end DiffInput

namespace Blinky

def outline : Outline where
  complete := true
  code := some (Stmt.bodyAssigned body, Stmt.bodyMentions body)
  sinks := [(["led"], none), (["locked"], none), (["clkbuf"], some ["p"]), (["clkbuf"], some ["n"]),
    (["pll"], some ["clock_in"]), (["div"], some ["clock"]), (["div"], some ["enable"]),
    (["blink"], some ["clock"]), (["blink"], some ["tick"])]
  names := [(["clock_p"], none), (["clock_n"], none), (["led"], none), (["locked"], none),
    (["clkbuf"], some ["p"]), (["clkbuf"], some ["n"]), (["clkbuf"], some ["out"]),
    (["pll"], some ["clock_in"]), (["pll"], some ["clock_out"]), (["pll"], some ["locked"]),
    (["div"], some ["clock"]), (["div"], some ["enable"]), (["div"], some ["count"]),
    (["blink"], some ["clock"]), (["blink"], some ["tick"]), (["blink"], some ["led"])]
  labels := [Blinker.stateType.label "Off", Blinker.stateType.label "On"]

theorem closed (net cell : Nat) (width : Int) : (placed net cell width).block.Closed :=
  Block.closed_of_offsets net
    [0, 1, 2, 3, 4, 5, 6, 7, 8, 9, 10, 11, 12, 13, 14, 15, 17, 18, 19, 16, 20, 21, 22]
    [4, 5, 7, 10, 11, 17, 18, 2, 3, 6, 8, 9, 13, 14, 12, 15, 20, 21, 16, 19, 22, 0, 1] rfl rfl rfl rfl
    rfl rfl (by decide) (rfl : _ = outline) (by decide +kernel)
    (.plain rfl (.plain rfl (.plain rfl (.plain rfl (.part (DiffInput.closed _)
      (.part (ClockGenerator.closed _) (.part (Counter.closed _ _ _)
        (.part (Blinker.closed _ _) .nil))))))))

end Blinky

theorem Value.indexed_ne_empty (name : String) (i : Nat) : Value.indexed name i ≠ "" := by
  simp [Value.indexed]

theorem Path.join_of_ne_empty {base : String} (h : base ≠ "") (name : String) :
    join base name = base ++ "$" ++ name := by
  rw [join, if_neg h]

namespace PortSet

def sinks (i : Nat) : List Spot :=
  let port := Value.indexed "ports" i
  let out := Value.indexed "outs" i
  let stage := Value.indexed "stages" i
  [([stage], some ["in", "data"]), ([stage], some ["in", "valid"]), ([port, "ready"], none),
    ([out, "data"], none), ([out, "valid"], none), ([stage], some ["out", "ready"])]

def sources (i : Nat) : List Spot :=
  let port := Value.indexed "ports" i
  let out := Value.indexed "outs" i
  let stage := Value.indexed "stages" i
  [([port, "data"], none), ([port, "valid"], none), ([stage], some ["in", "ready"]),
    ([stage], some ["out", "data"]), ([stage], some ["out", "valid"]), ([out, "ready"], none)]

variable (net : Nat) (width : Int) (i : Nat)

theorem name_outer (place name : String) : Spot.name ([place, name], none) = place ++ "$" ++ name := by
  rw [Spot.name, Path.flat_cons (List.cons_ne_nil _ _), Path.flat_singleton]

theorem name_inner (place group name : String) :
    Spot.name ([place], some [group, name]) = place ++ "$" ++ group ++ "$" ++ name := by
  rw [Spot.name, Path.flat_singleton, Path.flat_cons (List.cons_ne_nil _ _), Path.flat_singleton]
  simp only [String.append_assoc]

theorem join_indexed (array name : String) :
    Path.join (Value.indexed array i) name = Value.indexed array i ++ "$" ++ name :=
  Path.join_of_ne_empty (Value.indexed_ne_empty array i) name

theorem join_joined (base group name : String) :
    Path.join (base ++ "$" ++ group) name = base ++ "$" ++ group ++ "$" ++ name :=
  Path.join_of_ne_empty (by simp) name

theorem assigned_body :
    Stmt.bodyAssigned ((placed net width).body i) = (sinks i).map Spot.name := by
  have written : Stmt.bodyAssigned ((placed net width).body i) =
      let port := Value.indexed "ports" i
      let out := Value.indexed "outs" i
      let stage := Value.indexed "stages" i
      [Path.join (Path.join stage "in") "data", Path.join (Path.join stage "in") "valid",
        Path.join port "ready", Path.join out "data", Path.join out "valid",
        Path.join (Path.join stage "out") "ready"] := rfl
  simp only [written, join_indexed, join_joined, sinks, List.map_cons, List.map_nil, name_outer,
    name_inner]

theorem mentions_body :
    Stmt.bodyMentions ((placed net width).body i) = (sources i).map fun x => .signal x.name := by
  let port := Value.indexed "ports" i
  let out := Value.indexed "outs" i
  let stage := Value.indexed "stages" i
  have read : Stmt.bodyMentions ((placed net width).body i) =
      (([Path.join port "data", Path.join port "valid", Path.join (Path.join stage "in") "ready"].filter
        (· ≠ "")).map .signal) ++
      (([Path.join (Path.join stage "out") "data", Path.join (Path.join stage "out") "valid",
        Path.join out "ready"].filter (· ≠ "")).map .signal ++ []) := rfl
  rw [read]
  simp [port, out, stage, join_indexed, join_joined, sources, name_outer, name_inner]

theorem name_ne_empty {x : Spot} (h : x ∈ sinks i ∨ x ∈ sources i) : x.name ≠ "" := by
  simp only [sinks, sources, List.mem_cons, List.not_mem_nil, or_false] at h
  rcases h with (rfl | rfl | rfl | rfl | rfl | rfl) | (rfl | rfl | rfl | rfl | rfl | rfl) <;>
    simp [name_outer, name_inner]

end PortSet

namespace Fanout

variable (net count : Nat) (width : Int)

theorem body_placed :
    (placed net count width).body =
      (List.range count).flatMap fun i => (PortSet.placed (net + 12 * i) width).body i := by
  have numbered : (placed net count width).sets.zipIdx =
      (List.range count).map fun i => (PortSet.placed (net + 12 * i) width, i) := by
    apply List.ext_getElem
    · simp [placed]
    · intro i h h'
      simp [placed]
  rw [body, numbered, List.flatMap_map]

theorem assigned_placed :
    Stmt.bodyAssigned (placed net count width).body =
      (List.range count).flatMap fun i => (PortSet.sinks i).map Spot.name := by
  rw [body_placed, Stmt.bodyAssigned_eq, List.flatMap_assoc]
  apply List.flatMap_congr
  intro i _
  rw [← Stmt.bodyAssigned_eq, PortSet.assigned_body]

theorem mentions_placed :
    Stmt.bodyMentions (placed net count width).body =
      (List.range count).flatMap fun i => (PortSet.sources i).map fun x => .signal x.name := by
  rw [body_placed, Stmt.bodyMentions_eq, List.flatMap_assoc]
  apply List.flatMap_congr
  intro i _
  rw [← Stmt.bodyMentions_eq, PortSet.mentions_body]

theorem complete_placed : Stmt.bodyComplete (placed net count width).body = true := by
  rw [body_placed, Stmt.bodyComplete_eq, List.all_flatMap, List.all_eq_true]
  intro i _
  rfl

def outer : Scope := ⟨[], (placed net count width).composite, fields net count width⟩

theorem fieldItems_fields :
    Block.fieldItems (fields net count width) =
      (List.range count).flatMap (fun i =>
        let s := Stream.placedSink (net + 12 * i) width
        let name := Value.indexed "ports" i
        [([name, "data"], .atom (.signal s.data)), ([name, "valid"], .atom (.signal s.valid)),
          ([name, "ready"], .atom (.signal s.ready))])
      ++ (List.range count).flatMap (fun i =>
        let s := Stream.placedSource (net + 12 * i + 3) width
        let name := Value.indexed "outs" i
        [([name, "data"], .atom (.signal s.data)), ([name, "valid"], .atom (.signal s.valid)),
          ([name, "ready"], .atom (.signal s.ready))])
      ++ (List.range count).flatMap (fun i => (Increment.placed (net + 12 * i + 6) width).block.items.map
          fun x => (Value.indexed "stages" i :: x.1, x.2)) := by
  rw [Block.fieldItems_eq]
  simp only [fields, array, List.flatMap_append, List.flatMap_map]
  rfl

theorem mem_sinks_outline {x : Spot} :
    x ∈ (outer net count width).outline.sinks ↔ ∃ i < count, x ∈ PortSet.sinks i := by
  have spots : (outer net count width).outline.sinks =
      (List.range count).flatMap (fun i => [([Value.indexed "ports" i, "ready"], none)])
        ++ (List.range count).flatMap (fun i =>
          [([Value.indexed "outs" i, "data"], none), ([Value.indexed "outs" i, "valid"], none)])
        ++ (List.range count).flatMap (fun i =>
          [([Value.indexed "stages" i], some ["in", "data"]),
            ([Value.indexed "stages" i], some ["in", "valid"]),
            ([Value.indexed "stages" i], some ["out", "ready"])]) := by
    change (Block.fieldItems (fields net count width)).flatMap Item.sinkSpots = _
    rw [fieldItems_fields, List.flatMap_append, List.flatMap_append, List.flatMap_assoc,
      List.flatMap_assoc, List.flatMap_assoc]
    rfl
  rw [spots]
  simp only [List.mem_append, List.mem_flatMap, List.mem_range, PortSet.sinks, ← exists_or,
    ← and_or_left, List.mem_cons, List.not_mem_nil, or_false]
  apply exists_congr
  intro i
  apply and_congr_right
  intro _
  tauto

theorem mem_names_outline {x : Spot} {i : Nat} (hi : i < count) (h : x ∈ PortSet.sources i) :
    x ∈ (outer net count width).outline.names := by
  have spots : (outer net count width).outline.names =
      (List.range count).flatMap (fun i =>
        let name := Value.indexed "ports" i
        [([name, "data"], none), ([name, "valid"], none), ([name, "ready"], none)])
      ++ (List.range count).flatMap (fun i =>
        let name := Value.indexed "outs" i
        [([name, "data"], none), ([name, "valid"], none), ([name, "ready"], none)])
      ++ (List.range count).flatMap (fun i =>
        let name := Value.indexed "stages" i
        [([name], some ["in", "data"]), ([name], some ["in", "valid"]), ([name], some ["in", "ready"]),
          ([name], some ["out", "data"]), ([name], some ["out", "valid"]),
          ([name], some ["out", "ready"])]) := by
    change (Block.fieldItems (fields net count width)).flatMap Item.spots = _
    rw [fieldItems_fields, List.flatMap_append, List.flatMap_append, List.flatMap_assoc,
      List.flatMap_assoc, List.flatMap_assoc]
    rfl
  rw [spots]
  simp only [List.mem_append, List.mem_flatMap, List.mem_range, ← exists_or, ← and_or_left]
  refine ⟨i, hi, ?_⟩
  simp only [PortSet.sources, List.mem_cons, List.not_mem_nil, or_false] at h ⊢
  tauto

theorem sealed_outer : (outer net count width).Sealed where
  complete := complete_placed net count width
  targets := by
    rintro body ⟨⟩ name
    rw [Stmt.targets, List.mem_eraseDups, List.mem_filter, assigned_placed, ← Scope.sinks_outline]
    simp only [List.mem_map, mem_sinks_outline, List.mem_flatMap, List.mem_range]
    constructor
    · rintro ⟨⟨i, hi, x, hx, same⟩, -⟩
      exact ⟨x, ⟨i, hi, hx⟩, same⟩
    · rintro ⟨x, ⟨i, hi, hx⟩, rfl⟩
      exact ⟨⟨i, hi, x, hx, rfl⟩, by simpa using PortSet.name_ne_empty i (.inl hx)⟩
  mentions := by
    rintro body ⟨⟩ top m hm
    rw [mentions_placed] at hm
    obtain ⟨i, hi, hm⟩ := List.mem_flatMap.mp hm
    obtain ⟨x, hx, rfl⟩ := List.mem_map.mp hm
    have mem := mem_names_outline net count width (List.mem_range.mp hi) hx
    have named := List.mem_map_of_mem (f := Spot.name) mem
    rw [Scope.names_outline _ top] at named
    rw [Entry.declares, Entry.declared, Scope.code_entry]
    exact decide_eq_true named

theorem connectAll_placed :
    (placed net count width).block.connectAll = .ofList
      ((List.range count).flatMap (fun i =>
        [net + 12 * i + 6, net + 12 * i + 7, net + 12 * i + 2, net + 12 * i + 3, net + 12 * i + 4,
          net + 12 * i + 11])
      ++ (List.range count).flatMap fun i =>
        [net + 12 * i + 9, net + 12 * i + 10, net + 12 * i + 8]) := by
  have own : (placed net count width).composite.connect = .ofList ((List.range count).flatMap fun i =>
      [net + 12 * i + 6, net + 12 * i + 7, net + 12 * i + 2, net + 12 * i + 3, net + 12 * i + 4,
        net + 12 * i + 11]) := by
    change Script.flatten ((placed net count width).sets.map PortSet.connect) = _
    rw [map_sets_placed, Script.flatten_eq, List.flatMap_map]
    · rfl
    · rw [List.forall_mem_map]
      exact fun _ _ => rfl
  have sinks : (List.range count).flatMap (fun i =>
      (Stream.placedSink (net + 12 * i) width).sinkBlock.connectAll.steps) = [] :=
    List.flatMap_eq_nil_iff.mpr fun _ _ => rfl
  have sources : (List.range count).flatMap (fun i =>
      (Stream.placedSource (net + 12 * i + 3) width).sourceBlock.connectAll.steps) = [] :=
    List.flatMap_eq_nil_iff.mpr fun _ _ => rfl
  rw [block_placed, Block.connectAll, own, Block.connectFields_eq]
  · simp only [fields, array, List.flatMap_append, List.flatMap_map, sinks, sources]
    rfl
  · exact forall_mem_fields (fun _ _ => rfl) (fun _ _ => rfl) fun _ _ => rfl

theorem connectInputs_placed :
    (placed net count width).block.connectInputs = .ofList
      ((List.range count).flatMap (fun i => [net + 12 * i, net + 12 * i + 1])
        ++ (List.range count).flatMap fun i => [net + 12 * i + 5]) := by
  have walks := walk_placed net count width ""
  rw [block_placed] at walks ⊢
  rw [Block.connectInputs_eq rfl walks, fieldItems_fields, List.flatMap_append, List.flatMap_append,
    List.flatMap_assoc, List.flatMap_assoc, List.flatMap_assoc]
  have stages : (List.range count).flatMap (fun i => ((Increment.placed (net + 12 * i + 6) width).block.items.map
      fun x => (Value.indexed "stages" i :: x.1, x.2)).flatMap Block.inputMarks) = [] :=
    List.flatMap_eq_nil_iff.mpr fun _ _ => rfl
  rw [stages, List.append_nil]
  rfl

theorem exists_offset {a : Atom} (h : a ∈ (placed net count width).block.leaves) :
    ∃ s, a = .signal s ∧ ∃ i < count, ∃ o < 12, s.net = net + 12 * i + o := by
  rw [leaves_placed] at h
  simp only [List.mem_append, List.mem_flatMap, List.mem_range] at h
  rcases h with (⟨i, hi, h⟩ | ⟨i, hi, h⟩) | ⟨i, hi, h⟩
  · rcases h with _ | ⟨_, _ | ⟨_, _ | ⟨_, ⟨⟩⟩⟩⟩
    · exact ⟨_, rfl, i, hi, 0, by decide, rfl⟩
    · exact ⟨_, rfl, i, hi, 1, by decide, rfl⟩
    · exact ⟨_, rfl, i, hi, 2, by decide, rfl⟩
  · rcases h with _ | ⟨_, _ | ⟨_, _ | ⟨_, ⟨⟩⟩⟩⟩
    · exact ⟨_, rfl, i, hi, 3, by decide, rfl⟩
    · exact ⟨_, rfl, i, hi, 4, by decide, rfl⟩
    · exact ⟨_, rfl, i, hi, 5, by decide, rfl⟩
  · rcases h with _ | ⟨_, _ | ⟨_, _ | ⟨_, _ | ⟨_, _ | ⟨_, _ | ⟨_, ⟨⟩⟩⟩⟩⟩⟩⟩
    · exact ⟨_, rfl, i, hi, 6, by decide, rfl⟩
    · exact ⟨_, rfl, i, hi, 7, by decide, rfl⟩
    · exact ⟨_, rfl, i, hi, 8, by decide, rfl⟩
    · exact ⟨_, rfl, i, hi, 9, by decide, rfl⟩
    · exact ⟨_, rfl, i, hi, 10, by decide, rfl⟩
    · exact ⟨_, rfl, i, hi, 11, by decide, rfl⟩

theorem marked_offset {i o : Nat} (hi : i < count) (ho : o < 12) :
    net + 12 * i + o ∈ (placed net count width).block.connectAll.steps
      ++ (placed net count width).block.connectInputs.steps := by
  rw [connectAll_placed, connectInputs_placed]
  simp only [Script.ofList, List.mem_append, List.mem_flatMap, List.mem_range, ← exists_or,
    ← and_or_left]
  refine ⟨i, hi, ?_⟩
  simp only [List.mem_cons, List.not_mem_nil, or_false]
  omega

theorem indexed_injective (name : String) : Function.Injective (Value.indexed name) := by
  intro i j h
  have numerals : i.repr = j.repr := by simpa [Value.indexed] using h
  exact Numeral.repr_injective numerals

theorem isSegment_indexed {name : String} (h : '$' ∉ name.toList) (i : Nat) :
    Path.IsSegment (Value.indexed name i) := by
  refine ⟨Value.indexed_ne_empty name i, ?_⟩
  have digits : '$' ∉ i.repr.toList := by
    intro mem
    rw [Nat.toList_repr] at mem
    have digit : '$'.isDigit = true := Nat.isDigit_of_mem_toDigits (by decide) (by decide) mem
    exact absurd digit (by decide)
  simpa [Value.indexed, String.toList_append, h] using digits

theorem wellNamed_placed : (placed net count width).block.wellNamed = true := by
  rw [block_placed]
  apply Block.fieldsWellNamed_of_forall
  · exact forall_mem_fields (fun i _ => ⟨isSegment_indexed (by decide) i, rfl⟩)
      (fun i _ => ⟨isSegment_indexed (by decide) i, rfl⟩)
      fun i _ => ⟨isSegment_indexed (by decide) i, rfl⟩
  · have labels : (fields net count width).map (·.1.label) =
        (List.range count).map (Value.indexed "ports") ++ (List.range count).map (Value.indexed "outs")
          ++ (List.range count).map (Value.indexed "stages") := by
      simp only [fields, array, List.map_append, List.map_map]
      rfl
    have apart : ∀ i j, Value.indexed "ports" i ≠ Value.indexed "outs" j ∧
        Value.indexed "ports" i ≠ Value.indexed "stages" j ∧
        Value.indexed "outs" i ≠ Value.indexed "stages" j := by
      intro i j
      simp [Value.indexed, ← String.toList_inj]
    have nodup (name : String) : ((List.range count).map (Value.indexed name)).Nodup :=
      List.nodup_range.map (indexed_injective name)
    rw [labels, List.nodup_append', List.nodup_append', List.disjoint_append_left]
    refine ⟨⟨nodup _, nodup _, ?_⟩, nodup _, ?_, ?_⟩
    all_goals
      simp only [List.Disjoint, List.mem_map, forall_exists_index, and_imp]
      rintro _ i _ rfl j _ same
    · exact (apart i j).1 same.symm
    · exact (apart i j).2.1 same.symm
    · exact (apart i j).2.2 same.symm

theorem closed : (placed net count width).block.Closed where
  scope := rfl
  named := wellNamed_placed net count width
  walks := walk_placed net count width ""
  connects := by rw [connectAll_placed]; rfl
  marked := by
    intro a ha
    obtain ⟨s, rfl, i, hi, o, ho, same⟩ := exists_offset net count width ha
    exact ⟨s, rfl, same ▸ marked_offset net count width hi ho⟩
  sealed := by
    rw [block_placed]
    apply Block.sealed_of_fields (sealed_outer net count width)
    exact forall_mem_fields (fun _ _ => Block.sealed_of_scopes_eq_nil rfl)
      (fun _ _ => Block.sealed_of_scopes_eq_nil rfl)
      fun i _ => (Increment.closed (net + 12 * i + 6) width).sealed

end Fanout

namespace Part

theorem closed (p : Part) (net cell : Nat) : (p.placed net cell).Closed := by
  cases p with
  | adder w => exact Adder.closed net w
  | flipFlop w => exact FlipFlop.closed net cell w
  | counter w => exact Counter.closed net cell w
  | increment w => exact Increment.closed net w
  | blinker => exact Blinker.closed net cell
  | blinky w => exact Blinky.closed net cell w
  | fanout n w => exact Fanout.closed net n.toNat w
  | clockGenerator => exact ClockGenerator.closed net
  | diffInput => exact DiffInput.closed net

/-- Every part of the library passes the check once it is connected, and its text can be written. In each
of its modules with structured code, the code assigns exactly the module's outputs, its inner signals and
the inputs of the modules in it, and names nothing that the module does not declare. -/
theorem generates_closed (p : Part) (h : p.Valid) (supply : Supply) (st : State) (top : String)
    (htop : top ≠ "") :
    ∃ b supply', p.build supply = .ok (b, supply') ∧
      ∃ st' t, (b.connectAll ++ b.connectInputs).perform State.mark st = (st', none) ∧
        (Generation.check (some b) st' top).result = .ok () ∧ b.table top = .ok t ∧
        (Generation.checked (some b) st' top).result = .ok t.text ∧
        ∀ s ∈ b.scopes, ∀ body, s.code = .combinatorial body →
          ∃ e, t.get? (s.key top) = some e ∧ e.code = .combinatorial body ∧
            (∀ name, name ∈ Stmt.targets body ↔ name ∈ s.sinks) ∧
            ∀ m ∈ Stmt.bodyMentions body, e.declares m = true := by
  obtain ⟨supply', built⟩ := build_eq h supply
  have closed := p.closed supply.nets supply.cells
  obtain ⟨st', t, connected, checked, table, text⟩ := closed.generates htop st
  refine ⟨_, supply', built, st', t, connected, checked, table, text, ?_⟩
  intro s hs body code
  exact closed.entry_of_code htop table hs code

theorem generates_closed_fanout :
    (fanout 1 8).Valid ∧ "t" ≠ "" ∧
      ∃ b supply', (fanout 1 8).build {} = .ok (b, supply') ∧
        ∃ st' t, (b.connectAll ++ b.connectInputs).perform State.mark {} = (st', none) ∧
          (Generation.check (some b) st' "t").result = .ok () ∧ b.table "t" = .ok t ∧
          (Generation.checked (some b) st' "t").result = .ok t.text ∧
          ∃ s ∈ b.scopes, ∃ body, s.code = .combinatorial body ∧
            s.sinks = ["ports_0$ready", "outs_0$data", "outs_0$valid", "stages_0$in$data",
              "stages_0$in$valid", "stages_0$out$ready"] ∧
            ∃ e, t.get? (s.key "t") = some e ∧
              (∀ name, name ∈ Stmt.targets body ↔ name ∈ s.sinks) ∧
              ∀ m ∈ Stmt.bodyMentions body, e.declares m = true := by
  have valid : (fanout 1 8).Valid := ⟨by decide, by decide⟩
  obtain ⟨b, supply', built, st', t, connected, checked, table, text, modules⟩ :=
    generates_closed (fanout 1 8) valid {} {} "t" (by decide)
  obtain ⟨rfl, -⟩ : (fanout 1 8).placed 0 0 = b ∧ _ = supply' := Prod.mk.inj (Except.ok.inj built)
  obtain ⟨e, found, -, targets, mentions⟩ := modules _ (.head _) _ rfl
  exact ⟨valid, by decide, _, supply', built, st', t, connected, checked, table, text, _, .head _, _,
    rfl, by decide +kernel, e, found, targets, mentions⟩

/-- The sum of the widest operands would need a width beyond the largest: there is no such adder. -/
theorem adder_widest : (1 : Int) ≤ 2 ^ 63 - 1 ∧
    (adder (2 ^ 63 - 1)).build {} = .error (.signalWidth (-2 ^ 63)) := by
  refine ⟨by decide, ?_⟩
  rfl

end Part

end Circuitry
