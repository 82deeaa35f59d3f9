import Circuitry.Block.Connect
import Circuitry.Library.Adder
import Circuitry.Library.Blinky
import Circuitry.Library.Fanout
import Circuitry.Proofs.Synchronous
import Mathlib.Algebra.Group.Int.Defs

namespace Circuitry

def Signal.placed (net : Nat) (kind : Kind) (width : Int) : Signal :=
  { net, kind, width, type := .bits width }

namespace Build

variable {α β : Type}

theorem bind_apply {m : Build α} {s s' : Supply} {a : α} (h : m s = .ok (a, s'))
    (f : α → Build β) : (m >>= f) s = f a s' := by
  simp [bind, StateT.bind, h, Except.bind]

theorem input_eq {width : Int} (h : 0 < width) (s : Supply) :
    input width s = .ok (.placed s.nets .input width, { s with nets := s.nets + 1 }) := by
  have valid : ¬ width ≤ 0 := by omega
  simp [input, signal, freshNet, Signal.plain, Signal.typed, Kind.isSignal, valid]
  rfl

theorem output_eq {width : Int} (h : 0 < width) (s : Supply) :
    output width s = .ok (.placed s.nets .output width, { s with nets := s.nets + 1 }) := by
  have valid : ¬ width ≤ 0 := by omega
  simp [output, signal, freshNet, Signal.plain, Signal.typed, Kind.isSignal, valid]
  rfl

end Build

namespace FlipFlop

def placed (net cell : Nat) (width : Int) : FlipFlop where
  clock := .placed net .input 1
  d := .placed (net + 1) .input width
  q := .placed (net + 2) .output width
  cell := cell

theorem make_eq {width : Int} (h : 0 < width) (s : Supply) :
    make width s =
      .ok (placed s.nets s.cells width, { nets := s.nets + 3, cells := s.cells + 1 }) := by
  rw [make, Build.bind_apply (Build.input_eq Int.one_pos s), Build.bind_apply (Build.input_eq h _),
    Build.bind_apply (Build.output_eq h _)]
  rfl

end FlipFlop

namespace Adder

def placed (net : Nat) (width : Int) : Adder where
  a := .placed net .input width
  b := .placed (net + 1) .input width
  sum := .placed (net + 2) .output (Width.wrap (width + 1))

theorem make_eq {width : Int} (h : 0 < width) (hsum : 0 < Width.wrap (width + 1)) (s : Supply) :
    make width s = .ok (placed s.nets width, { s with nets := s.nets + 3 }) := by
  rw [make, Build.bind_apply (Build.input_eq h s), Build.bind_apply (Build.input_eq h _),
    Build.bind_apply (Build.output_eq hsum _)]
  rfl

end Adder

namespace Counter

def placed (net cell : Nat) (width : Int) : Counter where
  width := width
  clock := .placed net .input 1
  enable := .placed (net + 1) .input 1
  count := .placed (net + 2) .output width
  register := .placed (net + 3) cell width

theorem make_eq {width : Int} (h : 0 < width) (s : Supply) :
    make width s =
      .ok (placed s.nets s.cells width, { nets := s.nets + 6, cells := s.cells + 1 }) := by
  rw [make, Build.bind_apply (Build.input_eq Int.one_pos s),
    Build.bind_apply (Build.input_eq Int.one_pos _), Build.bind_apply (Build.output_eq h _),
    Build.bind_apply (FlipFlop.make_eq h _)]
  rfl

end Counter

namespace Blinker

def placed (net cell : Nat) : Blinker where
  state := { net, kind := .inner, width := 1, type := stateType }
  clock := .placed (net + 1) .input 1
  tick := .placed (net + 2) .input 1
  led := .placed (net + 3) .output 1
  register := .placed (net + 4) cell 1

theorem make_eq (s : Supply) :
    make s = .ok (placed s.nets s.cells, { nets := s.nets + 7, cells := s.cells + 1 }) := rfl

end Blinker

namespace ClockGenerator

def placed (net : Nat) : ClockGenerator where
  clockIn := .placed net .input 1
  clockOut := .placed (net + 1) .output 1
  locked := .placed (net + 2) .output 1

theorem make_eq (s : Supply) : make s = .ok (placed s.nets, { s with nets := s.nets + 3 }) := rfl

end ClockGenerator

namespace DiffInput

def placed (net : Nat) : DiffInput where
  p := .placed net .input 1
  n := .placed (net + 1) .input 1
  out := .placed (net + 2) .output 1

theorem make_eq (s : Supply) : make s = .ok (placed s.nets, { s with nets := s.nets + 3 }) := rfl

end DiffInput

namespace Blinky

def placed (net cell : Nat) (width : Int) : Blinky where
  clockP := .placed net .input 1
  clockN := .placed (net + 1) .input 1
  led := .placed (net + 2) .output 1
  locked := .placed (net + 3) .output 1
  buffer := .placed (net + 4)
  generator := .placed (net + 7)
  divider := .placed (net + 10) cell width
  blinker := .placed (net + 16) (cell + 1)

theorem make_eq {width : Int} (h : 0 < width) (s : Supply) :
    make width s =
      .ok (placed s.nets s.cells width, { nets := s.nets + 23, cells := s.cells + 2 }) := by
  rw [make, Build.bind_apply (Build.input_eq Int.one_pos s),
    Build.bind_apply (Build.input_eq Int.one_pos _),
    Build.bind_apply (Build.output_eq Int.one_pos _),
    Build.bind_apply (Build.output_eq Int.one_pos _), Build.bind_apply (DiffInput.make_eq _),
    Build.bind_apply (ClockGenerator.make_eq _), Build.bind_apply (Counter.make_eq h _),
    Build.bind_apply (Blinker.make_eq _)]
  rfl

end Blinky

namespace Stream

def placedSink (net : Nat) (width : Int) : Stream where
  data := .placed net .input width
  valid := .placed (net + 1) .input 1
  ready := .placed (net + 2) .output 1

def placedSource (net : Nat) (width : Int) : Stream where
  data := .placed net .output width
  valid := .placed (net + 1) .output 1
  ready := .placed (net + 2) .input 1

variable {width : Int} (h : 0 < width) (s : Supply)

include h

theorem sink_eq : sink width s = .ok (placedSink s.nets width, { s with nets := s.nets + 3 }) := by
  rw [sink, Build.bind_apply (Build.input_eq h s), Build.bind_apply (Build.input_eq Int.one_pos _),
    Build.bind_apply (Build.output_eq Int.one_pos _)]
  rfl

theorem source_eq :
    source width s = .ok (placedSource s.nets width, { s with nets := s.nets + 3 }) := by
  rw [source, Build.bind_apply (Build.output_eq h s),
    Build.bind_apply (Build.output_eq Int.one_pos _), Build.bind_apply (Build.input_eq Int.one_pos _)]
  rfl

end Stream

namespace Increment

def placed (net : Nat) (width : Int) : Increment where
  width := width
  input := .placedSink net width
  output := .placedSource (net + 3) width

theorem make_eq {width : Int} (h : 0 < width) (s : Supply) :
    make width s = .ok (placed s.nets width, { s with nets := s.nets + 6 }) := by
  rw [make, Build.bind_apply (Stream.sink_eq h s), Build.bind_apply (Stream.source_eq h _)]
  rfl

end Increment

namespace PortSet

def placed (net : Nat) (width : Int) : PortSet where
  port := .placedSink net width
  out := .placedSource (net + 3) width
  stage := .placed (net + 6) width

theorem make_eq {width : Int} (h : 0 < width) (s : Supply) :
    make width s = .ok (placed s.nets width, { s with nets := s.nets + 12 }) := by
  rw [make, Build.bind_apply (Stream.sink_eq h s), Build.bind_apply (Stream.source_eq h _),
    Build.bind_apply (Increment.make_eq h _)]
  rfl

end PortSet

namespace Fanout

def placed (net count : Nat) (width : Int) : Fanout where
  sets := (List.range count).map fun i => .placed (net + 12 * i) width

theorem makeSets_eq {width : Int} (h : 0 < width) (count : Nat) (s : Supply) :
    makeSets width count s =
      .ok ((placed s.nets count width).sets, { s with nets := s.nets + 12 * count }) := by
  induction count generalizing s with
  | zero => rfl
  | succ count ih =>
    rw [makeSets, Build.bind_apply (PortSet.make_eq h s), Build.bind_apply (ih _)]
    have shift : ∀ i, s.nets + 12 + 12 * i = s.nets + 12 * (i + 1) := fun i => by omega
    simp [placed, List.range_succ_eq_map, shift]
    rfl

theorem make_eq {count width : Int} (hcount : 0 ≤ count) (h : 0 < width) (s : Supply) :
    make count width s =
      .ok (placed s.nets count.toNat width, { s with nets := s.nets + 12 * count.toNat }) := by
  rw [make, if_neg (by omega), Build.bind_apply (makeSets_eq h count.toNat s)]
  rfl

end Fanout

namespace Block

theorem updateFields_eq {fs : List (Field × Block)} (h : ∀ x ∈ fs, x.2.updateAll.fault = none) :
    updateFields fs = .ofList (fs.flatMap fun x => x.2.updateAll.steps) := by
  induction fs with
  | nil => rfl
  | cons x fs ih =>
    obtain ⟨first, rest⟩ := List.forall_mem_cons.mp h
    rw [updateFields, ih rest]
    simp [Script.append, first, Script.ofList]

theorem connectFields_eq {fs : List (Field × Block)} (h : ∀ x ∈ fs, x.2.connectAll.fault = none) :
    connectFields fs = .ofList (fs.flatMap fun x => x.2.connectAll.steps) := by
  induction fs with
  | nil => rfl
  | cons x fs ih =>
    obtain ⟨first, rest⟩ := List.forall_mem_cons.mp h
    rw [connectFields, ih rest]
    simp [Script.append, first, Script.ofList]

theorem synchronous_of_offsets {b : Block} (net cell : Nat) (targets cells nets : List Nat)
    (updates : b.updateAll.fault = none) (walks : (b.walk "").fault = none)
    (htargets : b.updateAll.steps.map (·.target.net) = targets.map (net + ·))
    (hcells : b.updateAll.steps.filterMap Drive.cell? = cells.map (cell + ·))
    (hnets : b.nets = nets.map (net + ·)) (nodup : targets.Nodup) (nodup' : cells.Nodup)
    (held : targets ⊆ nets) : b.Synchronous where
  updates := updates
  walks := walks
  targets := by
    rw [htargets]
    exact nodup.map fun _ _ => Nat.add_left_cancel
  cells := by
    rw [hcells]
    exact nodup'.map fun _ _ => Nat.add_left_cancel
  held := by
    intro d hd
    have mem : d.target.net ∈ targets.map (net + ·) := htargets ▸ List.mem_map_of_mem hd
    rw [hnets]
    exact List.map_subset _ held mem

end Block

theorem Script.flatten_eq {α : Type} {ss : List (Script α)} (h : ∀ s ∈ ss, s.fault = none) :
    flatten ss = .ofList (ss.flatMap steps) := by
  induction ss with
  | nil => rfl
  | cons s ss ih =>
    obtain ⟨first, rest⟩ := List.forall_mem_cons.mp h
    rw [flatten, ih rest]
    simp [append, first, ofList]

theorem Adder.synchronous (net : Nat) (width : Int) : (placed net width).block.Synchronous :=
  Block.synchronous_of_offsets net 0 [2] [] [0, 1, 2] rfl rfl rfl rfl rfl (by decide) (by decide)
    (by decide)

theorem FlipFlop.synchronous (net cell : Nat) (width : Int) :
    (placed net cell width).block.Synchronous :=
  Block.synchronous_of_offsets net cell [2] [0] [0, 1, 2] rfl rfl rfl rfl rfl (by decide) (by decide)
    (by decide)

theorem Counter.synchronous (net cell : Nat) (width : Int) :
    (placed net cell width).block.Synchronous :=
  Block.synchronous_of_offsets net cell [3, 4, 2, 5] [0] [0, 1, 2, 3, 4, 5] rfl rfl rfl rfl rfl
    (by decide) (by decide) (by decide)

theorem Increment.synchronous (net : Nat) (width : Int) : (placed net width).block.Synchronous :=
  Block.synchronous_of_offsets net 0 [3, 4, 2] [] [0, 1, 2, 3, 4, 5] rfl rfl rfl rfl rfl
    (by decide) (by decide) (by decide)

theorem Blinker.synchronous (net cell : Nat) : (placed net cell).block.Synchronous :=
  Block.synchronous_of_offsets net cell [4, 0, 3, 5, 6] [0] [1, 2, 3, 0, 4, 5, 6]
    rfl rfl rfl rfl rfl (by decide) (by decide) (by decide)

theorem ClockGenerator.synchronous (net : Nat) : (placed net).block.Synchronous :=
  Block.synchronous_of_offsets net 0 [1, 2] [] [0, 1, 2] rfl rfl rfl rfl rfl (by decide)
    (by decide) (by decide)

theorem DiffInput.synchronous (net : Nat) : (placed net).block.Synchronous :=
  Block.synchronous_of_offsets net 0 [2] [] [0, 1, 2] rfl rfl rfl rfl rfl (by decide) (by decide)
    (by decide)

def Blinky.driven : List Nat :=
  [4, 5, 7, 10, 11, 17, 18, 2, 3, 6, 8, 9, 13, 14, 12, 15, 20, 16, 19, 21, 22]

theorem Blinky.targets_placed (net cell : Nat) (width : Int) :
    (placed net cell width).block.updateAll.steps.map (·.target.net) = driven.map (net + ·) :=
  rfl

theorem Blinky.synchronous (net cell : Nat) (width : Int) :
    (placed net cell width).block.Synchronous :=
  Block.synchronous_of_offsets net cell driven [0, 1]
    [0, 1, 2, 3, 4, 5, 6, 7, 8, 9, 10, 11, 12, 13, 14, 15, 17, 18, 19, 16, 20, 21, 22]
    rfl rfl (targets_placed net cell width) rfl rfl (by decide) (by decide) (by decide)

def Increment.drives (net : Nat) (width : Int) : List Drive :=
  [.put (.placed (net + 3) .output width) (.add (.var net) (.lit 1)),
    .put (.placed (net + 4) .output 1) (.var (net + 1)),
    .put (.placed (net + 2) .output 1) (.var (net + 5))]

def PortSet.drives (net : Nat) (width : Int) : List Drive :=
  [.put (.placed (net + 6) .input width) (.var net),
    .put (.placed (net + 7) .input 1) (.var (net + 1)),
    .put (.placed (net + 2) .output 1) (.var (net + 8)),
    .put (.placed (net + 3) .output width) (.var (net + 9)),
    .put (.placed (net + 4) .output 1) (.var (net + 10)),
    .put (.placed (net + 11) .input 1) (.var (net + 5))]

namespace Fanout

def composite (x : Fanout) : Composite where
  typeName := "*hwlib.Fanout"
  boundary := .scope
  code := some (.combinatorial x.body)
  connect := .flatten (x.sets.map PortSet.connect)
  update := .flatten (x.sets.map PortSet.update)

def field (name : String) (i : Nat) : Field :=
  { member := Value.indexed name i, label := Value.indexed name i }

def array (name : String) (count : Nat) (block : Nat → Block) : List (Field × Block) :=
  (List.range count).map fun i => (field name i, block i)

variable (net count : Nat) (width : Int)

def fields : List (Field × Block) :=
  array "ports" count (fun i => (Stream.placedSink (net + 12 * i) width).sinkBlock)
    ++ array "outs" count (fun i => (Stream.placedSource (net + 12 * i + 3) width).sourceBlock)
    ++ array "stages" count (fun i => (Increment.placed (net + 12 * i + 6) width).block)

theorem map_indexedBlocks (name : String) (block : Nat → Block) :
    (indexedBlocks name ((List.range count).map block)).map
        (fun x => (({ member := x.1, label := x.1 } : Field), x.2)) =
      array name count block := by
  apply List.ext_getElem
  · simp [indexedBlocks, array]
  · intro i h h'
    simp [indexedBlocks, array, field]

variable {net count width} in
theorem forall_mem_fields {P : Field × Block → Prop}
    (ports : ∀ i < count, P (field "ports" i, (Stream.placedSink (net + 12 * i) width).sinkBlock))
    (outs : ∀ i < count,
      P (field "outs" i, (Stream.placedSource (net + 12 * i + 3) width).sourceBlock))
    (stages : ∀ i < count,
      P (field "stages" i, (Increment.placed (net + 12 * i + 6) width).block)) :
    ∀ x ∈ fields net count width, P x := by
  simp only [fields, array, List.forall_mem_append, List.forall_mem_map, List.mem_range]
  exact ⟨⟨ports, outs⟩, stages⟩

theorem map_sets_placed {α : Type} (f : PortSet → α) :
    (placed net count width).sets.map f =
      (List.range count).map fun i => f (.placed (net + 12 * i) width) :=
  List.map_map ..

theorem block_placed :
    (placed net count width).block =
      .composite (placed net count width).composite (fields net count width) := by
  rw [block, Block.named, List.map_append, List.map_append]
  simp only [map_sets_placed (α := Block), map_indexedBlocks]
  rfl

theorem leaves_placed :
    (placed net count width).block.leaves =
      (List.range count).flatMap (fun i => (Stream.placedSink (net + 12 * i) width).sinkBlock.leaves)
        ++ (List.range count).flatMap
          (fun i => (Stream.placedSource (net + 12 * i + 3) width).sourceBlock.leaves)
        ++ (List.range count).flatMap
          (fun i => (Increment.placed (net + 12 * i + 6) width).block.leaves) := by
  rw [block_placed, Block.leaves, Block.fieldLeaves_eq]
  simp only [fields, array, List.flatMap_append, List.flatMap_map]

theorem walk_placed (name : String) : ((placed net count width).block.walk name).fault = none := by
  have inside : (Block.walkFields (fields net count width)).fault = none :=
    Block.fault_walkFields_of_forall
      (forall_mem_fields (fun _ _ => rfl) (fun _ _ => rfl) fun _ _ => rfl)
  rw [block_placed, Block.walk]
  simp [inside, composite, Script.ofList]

theorem update_placed :
    (placed net count width).composite.update =
      .ofList ((List.range count).flatMap fun i => PortSet.drives (net + 12 * i) width) := by
  change Script.flatten ((placed net count width).sets.map PortSet.update) = _
  rw [map_sets_placed, Script.flatten_eq, List.flatMap_map]
  · rfl
  · rw [List.forall_mem_map]
    exact fun _ _ => rfl

theorem updateAll_placed :
    (placed net count width).block.updateAll = .ofList
      ((List.range count).flatMap (fun i => PortSet.drives (net + 12 * i) width)
        ++ (List.range count).flatMap fun i => Increment.drives (net + 12 * i + 6) width) := by
  have sinks : (List.range count).flatMap (fun i =>
      (Stream.placedSink (net + 12 * i) width).sinkBlock.updateAll.steps) = [] :=
    List.flatMap_eq_nil_iff.mpr fun _ _ => rfl
  have sources : (List.range count).flatMap (fun i =>
      (Stream.placedSource (net + 12 * i + 3) width).sourceBlock.updateAll.steps) = [] :=
    List.flatMap_eq_nil_iff.mpr fun _ _ => rfl
  rw [block_placed, Block.updateAll, update_placed, Block.updateFields_eq]
  · simp only [fields, array, List.flatMap_append, List.flatMap_map, sinks, sources]
    rfl
  · exact forall_mem_fields (fun _ _ => rfl) (fun _ _ => rfl) fun _ _ => rfl

theorem synchronous : (placed net count width).block.Synchronous where
  updates := by rw [updateAll_placed]; rfl
  walks := walk_placed net count width ""
  targets := by
    rw [updateAll_placed]
    simp only [Script.ofList, List.map_append, List.map_flatMap, List.nodup_append', List.nodup_flatMap]
    refine ⟨⟨fun i _ => ?_, ?_⟩, ⟨fun i _ => ?_, ?_⟩, ?_⟩
    · simp [PortSet.drives, Drive.target, Signal.placed]
    · refine List.nodup_range.imp fun {i j} ne => ?_
      simp [PortSet.drives, Drive.target, Signal.placed, Function.onFun]
      omega
    · simp [Increment.drives, Drive.target, Signal.placed]
    · refine List.nodup_range.imp fun {i j} ne => ?_
      simp [Increment.drives, Drive.target, Signal.placed, Function.onFun]
      omega
    · intro n
      simp [PortSet.drives, Increment.drives, Drive.target, Signal.placed]
      omega
  cells := by
    have none : (placed net count width).block.updateAll.steps.filterMap Drive.cell? = [] := by
      rw [updateAll_placed, Script.ofList, List.filterMap_append, List.filterMap_flatMap,
        List.filterMap_flatMap, List.append_eq_nil_iff, List.flatMap_eq_nil_iff,
        List.flatMap_eq_nil_iff]
      exact ⟨fun _ _ => rfl, fun _ _ => rfl⟩
    rw [none]
    exact List.nodup_nil
  held := by
    intro d hd
    rw [Block.mem_nets (walk_placed net count width ""), leaves_placed]
    refine ⟨d.target, ?_, rfl⟩
    rw [updateAll_placed] at hd
    simp only [Script.ofList, List.mem_append, List.mem_flatMap] at hd ⊢
    rcases hd with ⟨i, hi, hd⟩ | ⟨i, hi, hd⟩
    · simp [PortSet.drives] at hd
      rcases hd with rfl | rfl | rfl | rfl | rfl | rfl
      · exact .inr ⟨i, hi, .head _⟩
      · exact .inr ⟨i, hi, .tail _ (.head _)⟩
      · exact .inl (.inl ⟨i, hi, .tail _ (.tail _ (.head _))⟩)
      · exact .inl (.inr ⟨i, hi, .head _⟩)
      · exact .inl (.inr ⟨i, hi, .tail _ (.head _)⟩)
      · exact .inr ⟨i, hi, .tail _ (.tail _ (.tail _ (.tail _ (.tail _ (.head _)))))⟩
    · simp [Increment.drives] at hd
      rcases hd with rfl | rfl | rfl
      · exact .inr ⟨i, hi, .tail _ (.tail _ (.tail _ (.head _)))⟩
      · exact .inr ⟨i, hi, .tail _ (.tail _ (.tail _ (.tail _ (.head _))))⟩
      · exact .inr ⟨i, hi, .tail _ (.tail _ (.head _))⟩

end Fanout

inductive Part where
  | adder (width : Int)
  | flipFlop (width : Int)
  | counter (width : Int)
  | increment (width : Int)
  | blinker
  | blinky (width : Int)
  | fanout (count width : Int)
  | clockGenerator
  | diffInput

namespace Part

def build : Part → Build Block
  | adder w => return (← Adder.make w).block
  | flipFlop w => return (← FlipFlop.make w).block
  | counter w => return (← Counter.make w).block
  | increment w => return (← Increment.make w).block
  | blinker => return (← Blinker.make).block
  | blinky w => return (← Blinky.make w).block
  | fanout n w => return (← Fanout.make n w).block
  | clockGenerator => return (← ClockGenerator.make).block
  | diffInput => return (← DiffInput.make).block

/-- The parameters that make sense: an adder needs room for the width of its sum. -/
def Valid : Part → Prop
  | adder w => 1 ≤ w ∧ w < 2 ^ 63 - 1
  | flipFlop w | counter w | increment w | blinky w => 1 ≤ w
  | fanout n w => 0 ≤ n ∧ 1 ≤ w
  | blinker | clockGenerator | diffInput => True

def placed (net cell : Nat) : Part → Block
  | adder w => (Adder.placed net w).block
  | flipFlop w => (FlipFlop.placed net cell w).block
  | counter w => (Counter.placed net cell w).block
  | increment w => (Increment.placed net w).block
  | blinker => (Blinker.placed net cell).block
  | blinky w => (Blinky.placed net cell w).block
  | fanout n w => (Fanout.placed net n.toNat w).block
  | clockGenerator => (ClockGenerator.placed net).block
  | diffInput => (DiffInput.placed net).block

theorem build_eq {p : Part} (h : p.Valid) (s : Supply) :
    ∃ s', p.build s = .ok (p.placed s.nets s.cells, s') := by
  cases p with
  | adder w =>
    obtain ⟨low, high⟩ := h
    have sum : Width.wrap (w + 1) = w + 1 := Width.wrap_eq_self (by omega) (by omega)
    exact ⟨_, Build.bind_apply (Adder.make_eq low (by omega) s) _⟩
  | flipFlop w => exact ⟨_, Build.bind_apply (FlipFlop.make_eq h s) _⟩
  | counter w => exact ⟨_, Build.bind_apply (Counter.make_eq h s) _⟩
  | increment w => exact ⟨_, Build.bind_apply (Increment.make_eq h s) _⟩
  | blinker => exact ⟨_, Build.bind_apply (Blinker.make_eq s) _⟩
  | blinky w => exact ⟨_, Build.bind_apply (Blinky.make_eq h s) _⟩
  | fanout n w => exact ⟨_, Build.bind_apply (Fanout.make_eq h.1 h.2 s) _⟩
  | clockGenerator => exact ⟨_, Build.bind_apply (ClockGenerator.make_eq s) _⟩
  | diffInput => exact ⟨_, Build.bind_apply (DiffInput.make_eq s) _⟩

theorem synchronous (p : Part) (net cell : Nat) : (p.placed net cell).Synchronous := by
  cases p with
  | adder w => exact Adder.synchronous net w
  | flipFlop w => exact FlipFlop.synchronous net cell w
  | counter w => exact Counter.synchronous net cell w
  | increment w => exact Increment.synchronous net w
  | blinker => exact Blinker.synchronous net cell
  | blinky w => exact Blinky.synchronous net cell w
  | fanout n w => exact Fanout.synchronous net n.toNat w
  | clockGenerator => exact ClockGenerator.synchronous net
  | diffInput => exact DiffInput.synchronous net

end Part

end Circuitry
