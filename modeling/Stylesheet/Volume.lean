import Stylesheet.Fault
import Stylesheet.Path

set_option autoImplicit false

namespace Stylesheet

/-- A moment, in seconds since 1970 and nanoseconds after that second. -/
structure Time where
  seconds : Int
  nanoseconds : Nat
  deriving DecidableEq, Repr

/-- The names that lead from the root of a volume to a node. -/
abbrev Location := List Text

inductive Node where
  | file (bytes : List UInt8) (modified : Time)
  | directory (modified : Time)
  | link (target : Path)
  deriving DecidableEq, Repr

/-- A finite tree of directories, files and symbolic links, and a working directory in it. -/
structure Volume where
  /-- The nodes below the root. -/
  nodes : List (Location × Node)
  workingDirectory : Location
  deriving DecidableEq, Repr

namespace Volume

/-- The longest name, in bytes. -/
def maxNameLength : Nat := 255

/-- A path that is looked up at once is shorter than this, in bytes. -/
def pathLimit : Nat := 4096

/-- How many links are followed on the way to a node. -/
def maxLinks : Nat := 40

/-- The node at a location. The root is always a directory. -/
def node? (v : Volume) (location : Location) : Option Node :=
  if location = [] then some (.directory ⟨0, 0⟩) else v.nodes.lookup location

def isDirectory (v : Volume) (location : Location) : Bool :=
  match v.node? location with
  | some (.directory _) => true
  | _ => false

/-- What is looked up, and what a name that is not there leads to: an error for a reader, and for
a writer a new file if the name is the last one. -/
inductive Purpose where
  | read
  | write
  deriving DecidableEq, Repr

/-- Looks up segments from a location, with a function that goes on after a link. What a segment is
looked up in has to be a directory, and links are followed wherever they stand. -/
def walkWith (v : Volume) (purpose : Purpose)
    (follow : Location → List Text → Except Fault Location) :
    Location → List Text → Except Fault Location
  | location, [] => .ok location
  | location, segment :: rest =>
    if !v.isDirectory location then .error .notDirectory
    else if segment = [] || segment = ['.'] then v.walkWith purpose follow location rest
    else if segment = ['.', '.'] then v.walkWith purpose follow location.dropLast rest
    else if purpose = .write && rest ≠ [] && rest.all List.isEmpty then .error .isDirectory
    else if maxNameLength < Text.byteLength segment then .error .nameTooLong
    else
      match v.node? (location ++ [segment]) with
      | some (.link target) =>
        follow (if target.isAbsolute then [] else location) (target.segments ++ rest)
      | some _ => v.walkWith purpose follow (location ++ [segment]) rest
      | none =>
        if purpose = .write && rest = [] then .ok (location ++ [segment]) else .error .notFound

/-- Looks up segments from a location, following so many links. -/
def walk (v : Volume) (purpose : Purpose) : Nat → Location → List Text → Except Fault Location
  | 0 => v.walkWith purpose fun _ _ => .error .tooManyLinks
  | links + 1 => v.walkWith purpose (v.walk purpose links)

/-- The location that a path leads to, however long the path is. -/
def reach (v : Volume) (purpose : Purpose) (path : Path) : Except Fault Location :=
  if path.text.contains '\x00' then .error .nullCharacter
  else if path.text = [] then .error .notFound
  else v.walk purpose maxLinks (if path.isAbsolute then [] else v.workingDirectory) path.segments

/-- The location that a path leads to, if the path is not too long to be looked up at once. -/
def locate (v : Volume) (purpose : Purpose) (path : Path) : Except Fault Location :=
  if path.text.contains '\x00' then .error .nullCharacter
  else if pathLimit ≤ Text.byteLength path.text then .error .nameTooLong
  else v.reach purpose path

def pathOf (location : Location) : Path := ⟨'/' :: ['/'].intercalate location⟩

/-- The path of what a path leads to, without links, `.` and `..`. The path is looked up step by
step, so it may be of any length. -/
def canonical (v : Volume) (path : Path) : Except Fault Path := do
  return pathOf (← v.reach .read path)

def read (v : Volume) (path : Path) : Except Fault (List UInt8) := do
  match v.node? (← v.locate .read path) with
  | some (.file bytes _) => return bytes
  | some (.directory _) => .error .isDirectory
  | _ => .error .notFound

def readText (v : Volume) (path : Path) : Except Fault Text := do
  match Text.decode (← v.read path) with
  | some text => return text
  | none => .error .invalidText

def modified (v : Volume) (path : Path) : Except Fault Time := do
  match v.node? (← v.locate .read path) with
  | some (.file _ time) | some (.directory time) => return time
  | _ => .error .notFound

/-- Puts a node at a location, in the place of what was there. -/
def put (v : Volume) (location : Location) (node : Node) : Volume :=
  { v with nodes := (location, node) :: v.nodes.filter (·.1 ≠ location) }

def erase (v : Volume) (location : Location) : Volume :=
  { v with nodes := v.nodes.filter (·.1 ≠ location) }

/-- Writes a file, whether or not it is there. -/
def write (v : Volume) (path : Path) (bytes : List UInt8) (now : Time) : Except Fault Volume := do
  let location ← v.locate .write path
  if v.isDirectory location then .error .isDirectory
  return v.put location (.file bytes now)

/-- Puts a node at a location together with the directories that lead to it. -/
def add (v : Volume) (location : Location) (node : Node) (now : Time) : Volume :=
  let parents := (List.range location.length).map (location.take ·)
  let made := parents.foldl
    (fun v parent => if (v.node? parent).isSome then v else v.put parent (.directory now)) v
  made.put location node

end Volume

end Stylesheet
