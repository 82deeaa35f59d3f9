import Circuitry.Block.Member

namespace Circuitry

/-- `cell` remembers the clock level of the last update. -/
structure FlipFlop where
  clock : Signal
  d : Signal
  q : Signal
  cell : Nat

namespace FlipFlop

def make (width : Int) : Build FlipFlop :=
  return { clock := ← .input 1, d := ← .input width, q := ← .output width, cell := ← .freshCell }

def block (x : FlipFlop) : Block :=
  .named
    { typeName := "*hwlib.DFF"
      boundary := .scope
      code := some (.custom "always @(posedge clock) q <= d;")
      connect := .ofList [x.q.net]
      update := .ofList [.latch x.cell x.clock x.d x.q] }
    [("clock", .signal x.clock), ("d", .signal x.d), ("q", .signal x.q)]

end FlipFlop

structure Counter where
  width : Int
  clock : Signal
  enable : Signal
  count : Signal
  register : FlipFlop

namespace Counter

def make (width : Int) : Build Counter :=
  return { width, clock := ← .input 1, enable := ← .input 1, count := ← .output width,
           register := ← FlipFlop.make width }

def body (width : Int) : List Stmt :=
  [.assign "ff$clock" (.ref "clock"),
    .assign "ff$d" (.ref "ff$q"),
    .cond (.ref "enable") [.assign "ff$d" (.binary "+" (.ref "ff$q") (.lit width 1 false))] [],
    .assign "count" (.ref "ff$q")]

def block (x : Counter) : Block :=
  let r := x.register
  .named
    { typeName := "*hwlib.Counter"
      boundary := .scope
      code := some (.combinatorial (body x.width))
      connect := .ofList [r.clock.net, r.d.net, x.count.net]
      update := .ofList
        [.put r.clock (.var x.clock.net),
          .put r.d (.ite (.var x.enable.net) (.add (.var r.q.net) (.lit 1)) (.var r.q.net)),
          .put x.count (.var r.q.net)] }
    [("clock", .signal x.clock), ("enable", .signal x.enable), ("count", .signal x.count),
      ("ff", r.block)]

end Counter

structure Blinker where
  clock : Signal
  tick : Signal
  led : Signal
  state : Signal
  register : FlipFlop

namespace Blinker

def stateType : Descriptor := .ofVariants "BlinkState" ["Off", "On"]

def make : Build Blinker := do
  let net ← Build.freshNet
  let state ← liftM (Signal.ofEnum net .inner stateType)
  return { state, clock := ← .input 1, tick := ← .input 1, led := ← .output 1,
           register := ← FlipFlop.make state.width }

def body : List Stmt :=
  let off := Expr.enum (stateType.label "Off")
  let on := Expr.enum (stateType.label "On")
  [.assign "ff$clock" (.ref "clock"),
    .assign "state" (.ref "ff$q"),
    .assign "ff$d" (.ref "state"),
    .case (.ref "state")
      [(off, [.assign "led" (.lit 1 0 false), .cond (.ref "tick") [.assign "ff$d" on] []]),
        (on, [.assign "led" (.lit 1 1 false), .cond (.ref "tick") [.assign "ff$d" off] []])]
      [.assign "led" (.lit 1 0 false)]]

def nextState (x : Blinker) : Word Nat :=
  .ite (.var x.tick.net) (.eq (.var x.state.net) (.lit 0)) (.var x.state.net)

def block (x : Blinker) : Block :=
  let r := x.register
  .named
    { typeName := "*hwlib.Blinker"
      boundary := .scope
      code := some (.combinatorial body)
      connect := .ofList [r.clock.net, r.d.net, x.state.net, x.led.net]
      update := .ofList
        [.put r.clock (.var x.clock.net), .put x.state (.var r.q.net),
          .flag x.led (.var x.state.net), .put r.d x.nextState] }
    [("clock", .signal x.clock), ("tick", .signal x.tick), ("led", .signal x.led),
      ("state", .signal x.state), ("ff", r.block)]

end Blinker

end Circuitry
