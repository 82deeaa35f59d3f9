import Circuitry.Block.Member
import Circuitry.Library.Adder

namespace Circuitry

structure PortSet where
  port : Stream
  out : Stream
  stage : Increment

namespace PortSet

def make (width : Int) : Build PortSet :=
  return { port := ← Stream.sink width, out := ← Stream.source width, stage := ← Increment.make width }

def connect (p : PortSet) : Script Nat :=
  p.port.sinkBlock.linkConnect p.stage.input.sinkBlock
    ++ p.out.sourceBlock.linkConnect p.stage.output.sourceBlock

def update (p : PortSet) : Script Drive :=
  p.port.sinkBlock.link p.stage.input.sinkBlock ++ p.out.sourceBlock.link p.stage.output.sourceBlock

def body (i : Nat) (p : PortSet) : List Stmt :=
  let stage := Value.indexed "stages" i
  [.comment ("port set " ++ i.repr),
    .links (p.port.sinkBlock.fieldLinks (Value.indexed "ports" i) (Path.join stage "in")).steps,
    .links (p.out.sourceBlock.fieldLinks (Value.indexed "outs" i) (Path.join stage "out")).steps]

end PortSet

structure Fanout where
  sets : List PortSet

namespace Fanout

def makeSets (width : Int) : Nat → Build (List PortSet)
  | 0 => return []
  | n + 1 => return (← PortSet.make width) :: (← makeSets width n)

def make (count width : Int) : Build Fanout :=
  if count < 0 then throw (.negativeCount count) else return { sets := ← makeSets width count.toNat }

def body (x : Fanout) : List Stmt := x.sets.zipIdx.flatMap fun (p, i) => p.body i

def indexedBlocks (name : String) (bs : List Block) : List (String × Block) :=
  bs.zipIdx.map fun (b, i) => (Value.indexed name i, b)

def block (x : Fanout) : Block :=
  .named
    { typeName := "*hwlib.Fanout"
      boundary := .scope
      code := some (.combinatorial x.body)
      connect := .flatten (x.sets.map PortSet.connect)
      update := .flatten (x.sets.map PortSet.update) }
    (indexedBlocks "ports" (x.sets.map (·.port.sinkBlock))
      ++ indexedBlocks "outs" (x.sets.map (·.out.sourceBlock))
      ++ indexedBlocks "stages" (x.sets.map (·.stage.block)))

end Fanout

end Circuitry
