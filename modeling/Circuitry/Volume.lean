import Circuitry.Text.Lines

namespace Circuitry

structure Volume where
  home : List String := []
  dirs : List (List String) := []
  files : List (List String × String) := []

namespace Volume

inductive Error where
  | notFound
  | notDirectory
  | isDirectory
  | taken
  | tooLong
  | illegal

def Error.text : Error → String
  | .notFound => "no such file or directory"
  | .notDirectory => "not a directory"
  | .isDirectory => "is a directory"
  | .taken => "file exists"
  | .tooLong => "file name too long"
  | .illegal => "invalid argument"

structure Failure where
  action : String
  path : String
  error : Error

def Failure.text (f : Failure) : String := f.action ++ " " ++ f.path ++ ": " ++ f.error.text

def names (path : String) : List String :=
  ((Text.split '/' path.toList).filter (· ≠ [])).map String.ofList

def isRooted (path : String) : Bool := path.toList.head? == some '/'

def endsInSlash (path : String) : Bool := path.toList.getLast? == some '/'

def nameLimit : Nat := 255

def pathLimit : Nat := 4095

def pathError? (path : String) : Option Error :=
  if path = "" then some .notFound
  else if path.toList.contains '\x00' then some .illegal
  else if path.utf8ByteSize > pathLimit then some .tooLong
  else none

def cleanNames (rooted : Bool) : List String → List String → List String
  | acc, [] => acc.reverse
  | acc, "." :: ns => cleanNames rooted acc ns
  | acc, ".." :: ns =>
    match acc with
    | [] => if rooted then cleanNames rooted [] ns else cleanNames rooted [".."] ns
    | ".." :: _ => cleanNames rooted (".." :: acc) ns
    | _ :: up => cleanNames rooted up ns
  | acc, n :: ns => cleanNames rooted (n :: acc) ns

def clean (path : String) : String :=
  let ns := cleanNames (isRooted path) [] (names path)
  let text := "/".intercalate ns
  if isRooted path then "/" ++ text else if text = "" then "." else text

def join (base name : String) : String :=
  clean (if base = "" then name else if name = "" then base else base ++ "/" ++ name)

def isDir (v : Volume) (place : List String) : Bool := place == [] || v.dirs.contains place

def file? (v : Volume) (place : List String) : Option String := v.files.lookup place

def holds (v : Volume) (place : List String) : Bool := v.isDir place || (v.file? place).isSome

/-- Follow names from a place. Every place on the way has to be there, and all but the last have to
be directories. A name is looked at only in a directory. -/
def follow (v : Volume) : List String → List String → Except Error (List String)
  | place, [] => .ok place
  | place, n :: ns =>
    if !v.isDir place then .error .notDirectory
    else if n = "." then v.follow place ns
    else if n = ".." then v.follow place.dropLast ns
    else if n.utf8ByteSize > nameLimit then .error .tooLong
    else if v.holds (place ++ [n]) then v.follow (place ++ [n]) ns
    else .error .notFound

def start (v : Volume) (path : String) : List String := if isRooted path then [] else v.home

def resolve (v : Volume) (path : String) : Except Error (List String) :=
  match pathError? path with
  | some e => .error e
  | none =>
    match v.follow (v.start path) (names path) with
    | .error e => .error e
    | .ok place =>
      if endsInSlash path && !v.isDir place then .error .notDirectory else .ok place

def resolveParent (v : Volume) (path : String) : Except Error (List String × String) :=
  match pathError? path, (names path).reverse with
  | some e, _ => .error e
  | none, [] => .error .taken
  | none, last :: up =>
    match v.follow (v.start path) up.reverse with
    | .error e => .error e
    | .ok place => if v.isDir place then .ok (place, last) else .error .notDirectory

def read (v : Volume) (path : String) : Except Failure String :=
  match v.resolve path with
  | .error e => .error ⟨"open", path, e⟩
  | .ok place =>
    match v.file? place with
    | some content => .ok content
    | none => .error ⟨"read", path, .isDirectory⟩

def isFile (v : Volume) (path : String) : Bool :=
  match v.resolve path with
  | .ok place => (v.file? place).isSome
  | .error _ => false

def dirAt? (v : Volume) (path : String) : Option (List String) :=
  match v.resolve path with
  | .ok place => if v.isDir place then some place else none
  | .error _ => none

def put (v : Volume) (place : List String) (content : String) : Volume :=
  { v with files := v.files.filter (·.1 ≠ place) ++ [(place, content)] }

def write (v : Volume) (path content : String) : Except Failure Volume :=
  match v.resolveParent path with
  | .error .taken => .error ⟨"open", path, .isDirectory⟩
  | .error e => .error ⟨"open", path, e⟩
  | .ok (place, name) =>
    if name = "." || name = ".." || endsInSlash path || v.isDir (place ++ [name]) then
      .error ⟨"open", path, .isDirectory⟩
    else if name.utf8ByteSize > nameLimit then .error ⟨"open", path, .tooLong⟩
    else .ok (v.put (place ++ [name]) content)

def makeDir (v : Volume) (parent : List String) (path : String) :
    Except Failure (Volume × List String) :=
  match pathError? path, (names path).getLast? with
  | some e, _ => .error ⟨"mkdir", path, e⟩
  | none, none => .error ⟨"mkdir", path, .taken⟩
  | none, some name =>
    let place := parent ++ [name]
    if name = "." || name = ".." || v.holds place then .error ⟨"mkdir", path, .taken⟩
    else if name.utf8ByteSize > nameLimit then .error ⟨"mkdir", path, .tooLong⟩
    else .ok ({ v with dirs := v.dirs ++ [place] }, place)

/-- The path above, as written: trailing slashes, the last name and one slash taken off. -/
def above (path : String) : String :=
  String.ofList (((path.toList.reverse.dropWhile (· = '/')).dropWhile (· ≠ '/')).drop 1).reverse

/-- Make a directory and those above it, and tell where it is. What was made before a failure
stays. `fuel` bounds the number of names. -/
def makeDirs : Nat → Volume → String → Volume × Except Failure (List String)
  | 0, v, path => (v, .error ⟨"mkdir", path, .notFound⟩)
  | n + 1, v, path =>
    match v.resolve path with
    | .ok place => (v, if v.isDir place then .ok place else .error ⟨"mkdir", path, .notDirectory⟩)
    | .error _ =>
      match if above path = "" then (v, .ok (v.start path)) else makeDirs n v (above path) with
      | (v, .error f) => (v, .error f)
      | (v, .ok parent) =>
        match v.makeDir parent path with
        | .ok (v, place) => (v, .ok place)
        | .error f => (v, (v.dirAt? path).elim (.error f) .ok)

def makePath (v : Volume) (path : String) : Volume × Option Failure :=
  match v.makeDirs (path.length + 1) path with
  | (v, .ok _) => (v, none)
  | (v, .error f) => (v, some f)

def ofFiles (home : List String) (files : List (String × String)) : Volume :=
  let places := files.map fun (path, content) => (home ++ names path, content)
  let heads := places.flatMap fun (place, _) =>
    (List.range place.length).map fun k => place.take k
  let homes := (List.range (home.length + 1)).map fun k => home.take k
  { home, dirs := (homes ++ heads).eraseDups, files := places }

def homeFiles (v : Volume) : List (String × String) :=
  v.files.filterMap fun (place, content) =>
    if v.home.isPrefixOf place then some ("/".intercalate (place.drop v.home.length), content)
    else none

end Volume

end Circuitry
