import Circuitry.Library.Clocked
import Circuitry.Library.Vendor

namespace Circuitry

structure Blinky where
  clockP : Signal
  clockN : Signal
  led : Signal
  locked : Signal
  buffer : DiffInput
  generator : ClockGenerator
  divider : Counter
  blinker : Blinker

namespace Blinky

def make (width : Int) : Build Blinky :=
  return { clockP := ← .input 1, clockN := ← .input 1, led := ← .output 1, locked := ← .output 1,
           buffer := ← DiffInput.make, generator := ← ClockGenerator.make,
           divider := ← Counter.make width, blinker := ← Blinker.make }

def body : List Stmt :=
  [.assign "clkbuf$p" (.ref "clock_p"),
    .assign "clkbuf$n" (.ref "clock_n"),
    .assign "pll$clock_in" (.ref "clkbuf$out"),
    .assign "div$clock" (.ref "pll$clock_out"),
    .assign "div$enable" (.ref "pll$locked"),
    .assign "blink$clock" (.ref "pll$clock_out"),
    .assign "blink$tick" (.unary "&" (.ref "div$count")),
    .assign "led" (.ref "blink$led"),
    .assign "locked" (.ref "pll$locked")]

def block (x : Blinky) : Block :=
  .named
    { typeName := "*hwlib.Blinky"
      boundary := .scope
      code := some (.combinatorial body)
      connect := .ofList
        [x.buffer.p.net, x.buffer.n.net, x.generator.clockIn.net, x.divider.clock.net,
          x.divider.enable.net, x.blinker.clock.net, x.blinker.tick.net, x.led.net, x.locked.net]
      update := .ofList
        [.put x.buffer.p (.var x.clockP.net),
          .put x.buffer.n (.var x.clockN.net),
          .put x.generator.clockIn (.var x.buffer.out.net),
          .put x.divider.clock (.var x.generator.clockOut.net),
          .put x.divider.enable (.var x.generator.locked.net),
          .put x.blinker.clock (.var x.generator.clockOut.net),
          .flag x.blinker.tick
            (.eq (.var x.divider.count.net) (.lit (Width.mask x.divider.count.width))),
          .put x.led (.var x.blinker.led.net),
          .put x.locked (.var x.generator.locked.net)] }
    [("clock_p", .signal x.clockP), ("clock_n", .signal x.clockN), ("led", .signal x.led),
      ("locked", .signal x.locked), ("clkbuf", x.buffer.block), ("pll", x.generator.block),
      ("div", x.divider.block), ("blink", x.blinker.block)]

end Blinky

end Circuitry
