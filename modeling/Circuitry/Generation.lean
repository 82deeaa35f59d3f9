import Circuitry.Log
import Circuitry.Netlist.Builder
import Circuitry.Netlist.Check
import Circuitry.Netlist.Verilog

namespace Circuitry

structure Report (α : Type) where
  log : List Log.Message := []
  result : Except Failure α

namespace Generation

def defaultTop : String := "top"

def debug (text top key : String) (value : Int) : Log.Message :=
  { level := .debug, text, fields := [("top", top), (key, Numeral.decimal value)] }

def check (root : Option Block) (st : State) (top : String) : Report Unit :=
  if top = "" then { result := .error .emptyTop }
  else match root with
    | none => { result := .error (.fault .missingBlock) }
    | some b => match b.issues st top with
      | .error f => { result := .error (.fault f) }
      | .ok [] => { result := .ok () }
      | .ok is =>
        { log := [debug "circuit check failed" top "issues" is.length]
          result := .error (.issues is) }

def unchecked (root : Option Block) (top : String) : Report String :=
  match root with
  | none => { result := .error .missingRoot }
  | some b =>
    if top = "" then { result := .error .emptyTop }
    else match b.table top with
      | .error f => { result := .error (.fault f) }
      | .ok t =>
        let traversed := debug "circuit traversed" top "modules" (t.rows.length - 1)
        match t.render with
        | .error (.fault f) => { log := [traversed], result := .error (.fault f) }
        | .error e => { log := [traversed], result := .error (.generating top e) }
        | .ok text =>
          { log := [traversed, debug "verilog rendered" top "bytes" text.utf8ByteSize]
            result := .ok text }

def checked (root : Option Block) (st : State) (top : String) : Report String :=
  match check root st top with
  | { log, result := .error e } => { log, result := .error e }
  | { log, result := .ok () } =>
    let r := unchecked root top
    { r with log := log ++ r.log }

end Generation

end Circuitry
