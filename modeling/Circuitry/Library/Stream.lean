import Circuitry.Block.Linking
import Circuitry.Block.Member

namespace Circuitry

structure Stream where
  data : Signal
  valid : Signal
  ready : Signal

namespace Stream

def sourceType : String := "*hwlib.Source"

def sinkType : String := "*hwlib.Sink"

def source (width : Int) : Build Stream :=
  return { data := ← .output width, valid := ← .output 1, ready := ← .input 1 }

def sink (width : Int) : Build Stream :=
  return { data := ← .input width, valid := ← .input 1, ready := ← .output 1 }

def block (typeName : String) (s : Stream) : Block :=
  .named { typeName, boundary := .group, duplex := true }
    [("data", .signal s.data), ("valid", .signal s.valid), ("ready", .signal s.ready)]

def sourceBlock (s : Stream) : Block := s.block sourceType

def sinkBlock (s : Stream) : Block := s.block sinkType

def ofBlock (typeName : String) : Block → Except Fault Stream
  | .composite c [(_, .atom (.signal data)), (_, .atom (.signal valid)), (_, .atom (.signal ready))] =>
    if c.typeName = typeName then .ok { data, valid, ready } else .error .wrongBlock
  | _ => .error .wrongBlock

def ofSource : Block → Except Fault Stream := ofBlock sourceType

def ofSink : Block → Except Fault Stream := ofBlock sinkType

def joinDrives (src snk : Stream) : List Drive :=
  [.put snk.data (.var src.data.net), .put snk.valid (.var src.valid.net),
    .put src.ready (.var snk.ready.net)]

def joinMarks (src snk : Stream) : List Nat := [snk.data.net, snk.valid.net, src.ready.net]

def joinLinks (source : Block) (sourceName sinkName : String) : Script Link :=
  (source.fieldLinks sourceName sinkName).map Link.flip

end Stream

end Circuitry
