import Circuitry.Text.Lines

namespace Circuitry

namespace Text

def isBlank (c : Char) : Bool :=
  let n := c.toNat
  (0x09 ≤ n && n ≤ 0x0d) || n == 0x20 || n == 0x85 || n == 0xa0 || n == 0x1680
    || (0x2000 ≤ n && n ≤ 0x200a) || n == 0x2028 || n == 0x2029 || n == 0x202f
    || n == 0x205f || n == 0x3000

def trimBlank (s : String) : String := String.ofList (trimBoth isBlank s.toList)

end Text

namespace Inspect

def declaredName (line : List Char) : Option String :=
  (Text.afterLead "module ".toList line).map fun rest => String.ofList (rest.takeWhile (· ≠ '('))

def moduleNames (text : String) : List String :=
  (Text.splitLines text.toList).filterMap declaredName

/-- The text of a module from its header to its end line. Only the first place where the header
stands counts, and it has to start a line. -/
def moduleBody (text name : String) : String :=
  match Text.breakOn ("module " ++ name ++ "(").toList text.toList with
  | none => ""
  | some (before, rest) =>
    if before.getLast?.getD '\n' ≠ '\n' then ""
    else
      let ending := "endmodule // " ++ name ++ "\n"
      match Text.breakOn ending.toList rest with
      | none => ""
      | some (body, _) => String.ofList body ++ ending

def countLines (text line : String) : Nat :=
  (Text.lines text).countP (Text.trimBlank · = line)

end Inspect

end Circuitry
