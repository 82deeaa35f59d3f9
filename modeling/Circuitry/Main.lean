import Circuitry.Command

namespace Circuitry

namespace Program

def leading (path : String) : List String :=
  let ns := Volume.names path
  let lead := if Volume.isRooted path then "/" else ""
  (List.range ns.length).map fun k => lead ++ "/".intercalate (ns.take (k + 1))

def look (v : Volume) (path : String) : IO Volume :=
  (leading path).foldlM (fun v (p : String) => do
    try
      let real ← IO.FS.realPath p
      let place := Volume.cleanNames true [] (v.start p ++ Volume.names p)
      if ← real.isDir then return { v with dirs := v.dirs ++ [place] }
      else if ← real.pathExists then return v.put place (← IO.FS.readFile real)
      else return v
    catch _ => return v) v

def envNames : List String :=
  ["HWGEN_OUTPUT_DIR", "HWGEN_TOP", "HWGEN_UNCHECKED", "HWGEN_JOBS", "HWGEN_LOG_LEVEL"]

def relevant (env : List (String × String)) (v : Volume) (args : List String) : List String :=
  match Command.Line.read args with
  | .error _ => []
  | .ok line =>
    match Settings.load v env line.flags.config line.flags with
    | .error _ => []
    | .ok s => s.outputDir :: Design.catalogue.map (Command.target s)

def configFiles (args : List String) : List String :=
  let asked := match Command.Line.read args with
    | .ok line => [line.flags.config]
    | .error _ => []
  asked ++ Settings.extensions.map ("hwgen." ++ ·)

def store (before after : Volume) : IO Unit := do
  let path (place : List String) : String := "/" ++ "/".intercalate place
  for d in after.dirs do
    unless before.dirs.contains d do IO.FS.createDirAll (path d)
  for (place, content) in after.files do
    unless before.files.contains (place, content) do IO.FS.writeFile (path place) content

end Program

end Circuitry

open Circuitry in
def main (args : List String) : IO UInt32 := do
  let home := Volume.names (← IO.currentDir).toString
  let env ← Program.envNames.filterMapM fun n => return (← IO.getEnv n).map (n, ·)
  let v ← (Program.configFiles args).foldlM Program.look (Volume.ofFiles home [])
  let v ← (Program.relevant env v args).foldlM Program.look v
  let out := Command.run Design.catalogue env v args
  Program.store v out.volume
  IO.print out.stdout
  IO.eprint out.stderr
  match out.error with
  | none => return 0
  | some e =>
    IO.eprintln ("error: " ++ e.message.getD "invalid flag or configuration")
    return 1
