namespace Circuitry

namespace Settings

namespace Toml

inductive Use where
  | value
  | table
  | listTable
  deriving DecidableEq

/-- A name in use, by its path from the root. A closed table takes no more dotted keys. -/
structure Entry where
  path : List String
  use : Use
  closed : Bool := false
  fresh : Bool := false

structure Keys where
  current : List String := []
  entries : List Entry := []

namespace Keys

def find? (k : Keys) (path : List String) : Option Entry := k.entries.find? (·.path = path)

def add (k : Keys) (e : Entry) : Keys := { k with entries := k.entries ++ [e] }

def leading (path : List String) : List (List String) :=
  (List.range (path.length - 1)).map fun n => path.take (n + 1)

def passKey (k : Keys) (path : List String) : Option Keys :=
  match k.find? path with
  | none => some (k.add { path, use := .table, fresh := true })
  | some e => if e.use = .table && !e.closed then some k else none

def addValue (k : Keys) (key : List String) : Option Keys :=
  match (leading key).foldlM (fun k path => k.passKey (k.current ++ path)) k with
  | none => none
  | some k =>
    let path := k.current ++ key
    if (k.find? path).isSome then none else some (k.add { path, use := .value, fresh := true })

def leave (k : Keys) : Keys :=
  { k with entries := k.entries.map fun e =>
      if e.fresh && k.current.isPrefixOf e.path then { e with closed := true, fresh := false }
      else e }

def passHeader (k : Keys) (path : List String) : Option Keys :=
  match k.find? path with
  | none => some (k.add { path, use := .table })
  | some e => if e.use = .value then none else some k

def openTable (k : Keys) (path : List String) : Option Keys :=
  match (leading path).foldlM passHeader k.leave with
  | none => none
  | some k =>
    let k := { k with current := path }
    match k.find? path with
    | none => some (k.add { path, use := .table, closed := true })
    | some e =>
      if e.use = .table && !e.closed then
        some { k with entries := k.entries.map fun e =>
          if e.path = path then { e with closed := true } else e }
      else none

def openNext (k : Keys) (path : List String) : Option Keys :=
  match (leading path).foldlM passHeader k.leave with
  | none => none
  | some k =>
    let k := { k with current := path }
    match k.find? path with
    | none => some (k.add { path, use := .listTable, closed := true })
    | some e =>
      if e.use = .listTable then
        some { k with entries := k.entries.filter fun e => !path.isPrefixOf e.path || e.path = path }
      else none

end Keys

end Toml

end Settings

end Circuitry
