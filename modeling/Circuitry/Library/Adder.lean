import Circuitry.Library.Stream

namespace Circuitry

structure Adder where
  a : Signal
  b : Signal
  sum : Signal

namespace Adder

def make (width : Int) : Build Adder :=
  return { a := ← .input width, b := ← .input width, sum := ← .output (Width.wrap (width + 1)) }

def body : List Stmt := [.assign "sum" (.binary "+" (.ref "a") (.ref "b"))]

def block (x : Adder) : Block :=
  .named
    { typeName := "*hwlib.Adder"
      boundary := .scope
      code := some (.combinatorial body)
      connect := .ofList [x.sum.net]
      update := .ofList [.put x.sum (.add (.var x.a.net) (.var x.b.net))] }
    [("a", .signal x.a), ("b", .signal x.b), ("sum", .signal x.sum)]

end Adder

structure Increment where
  width : Int
  input : Stream
  output : Stream

namespace Increment

def make (width : Int) : Build Increment :=
  return { width, input := ← Stream.sink width, output := ← Stream.source width }

def body (width : Int) : List Stmt :=
  [.assign "out$data" (.binary "+" (.ref "in$data") (.lit width 1 false)),
    .assign "out$valid" (.ref "in$valid"),
    .assign "in$ready" (.ref "out$ready")]

def block (x : Increment) : Block :=
  .named
    { typeName := "*hwlib.Increment"
      boundary := .scope
      code := some (.combinatorial (body x.width))
      connect := .ofList [x.output.data.net, x.output.valid.net, x.input.ready.net]
      update := .ofList
        [.put x.output.data (.add (.var x.input.data.net) (.lit 1)),
          .put x.output.valid (.var x.input.valid.net),
          .put x.input.ready (.var x.output.ready.net)] }
    [("in", x.input.sinkBlock), ("out", x.output.sourceBlock)]

end Increment

end Circuitry
