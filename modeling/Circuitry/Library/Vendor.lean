import Circuitry.Block.Member

namespace Circuitry

/-- In simulation the output clock follows the input clock, and the generator is always locked. -/
structure ClockGenerator where
  clockIn : Signal
  clockOut : Signal
  locked : Signal

namespace ClockGenerator

def make : Build ClockGenerator :=
  return { clockIn := ← .input 1, clockOut := ← .output 1, locked := ← .output 1 }

def declaration : String :=
  "\n".intercalate
    ["(* blackbox *)",
      "module vendor_pll(clock_in, clock_out, locked);",
      "    input clock_in;",
      "    output clock_out;",
      "    output locked;",
      "endmodule"]

def block (x : ClockGenerator) : Block :=
  .named
    { typeName := "*hwlib.PLL"
      boundary := .scope
      code := some (.blackbox "vendor_pll" declaration)
      connect := .ofList [x.clockOut.net, x.locked.net]
      update := .ofList [.put x.clockOut (.var x.clockIn.net), .put x.locked (.lit 1)] }
    [("clock_in", .signal x.clockIn), ("clock_out", .signal x.clockOut),
      ("locked", .signal x.locked)]

end ClockGenerator

structure DiffInput where
  p : Signal
  n : Signal
  out : Signal

namespace DiffInput

def make : Build DiffInput :=
  return { p := ← .input 1, n := ← .input 1, out := ← .output 1 }

def declaration : String :=
  "\n".intercalate
    ["(* blackbox *)",
      "module IBUFDS(I, IB, O);",
      "    input I;",
      "    input IB;",
      "    output O;",
      "endmodule"]

def block (x : DiffInput) : Block :=
  .named
    { typeName := "*hwlib.DiffInput"
      boundary := .scope
      code := some (.wrapper "IBUFDS ibuf(.I(p), .IB(n), .O(out));" declaration)
      connect := .ofList [x.out.net]
      update := .ofList [.flag x.out (.ite (.var x.p.net) (.eq (.var x.n.net) (.lit 0)) (.lit 0))] }
    [("p", .signal x.p), ("n", .signal x.n), ("out", .signal x.out)]

end DiffInput

end Circuitry
