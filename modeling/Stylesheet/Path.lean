import Stylesheet.Text.Utf8

set_option autoImplicit false

namespace Stylesheet

/-- A path is kept as it was written. -/
structure Path where
  text : Text
  deriving DecidableEq, Repr

namespace Path

def ofString (s : String) : Path := ⟨s.toList⟩

def render (p : Path) : String := String.ofList p.text

def isAbsolute (p : Path) : Bool := p.text.head? = some '/'

/-- The parts of a path between slashes, of which some are empty. -/
def segments (p : Path) : List Text := p.text.splitOn '/'

/-- A path in a directory. An absolute path stays what it is. -/
def join (directory path : Path) : Path :=
  if path.isAbsolute then path
  else if directory.text = [] || directory.text.getLast? = some '/' then
    ⟨directory.text ++ path.text⟩
  else ⟨directory.text ++ '/' :: path.text⟩

/-- A part of a path that counts. -/
inductive Component where
  | root
  /-- A leading `.`. -/
  | current
  /-- A `..`. -/
  | parent
  | name (text : Text)
  deriving DecidableEq, Repr

/-- The component that a segment stands for. Empty segments stand for none, nor does a `.`, except
one that leads a relative path. -/
def component? (leads : Bool) (segment : Text) : Option Component :=
  if segment = [] then none
  else if segment = ['.'] then (if leads then some .current else none)
  else if segment = ['.', '.'] then some .parent
  else some (.name segment)

/-- The segments after the root, each with the component it stands for. -/
def body (p : Path) : List (Text × Option Component) :=
  if p.isAbsolute then p.segments.tail.map fun s => (s, component? false s)
  else match p.segments with
    | [] => []
    | s :: rest => (s, component? true s) :: rest.map fun s => (s, component? false s)

/-- The components of a path. Two paths are taken for the same one if these are equal: repeated
slashes, a slash at the end, and a `.` that does not lead do not count. -/
def components (p : Path) : List Component :=
  (if p.isAbsolute then [.root] else []) ++ p.body.filterMap Prod.snd

/-- The segments up to the last one that stands for a component. -/
def dropIdle (segments : List (Text × Option Component)) : List (Text × Option Component) :=
  (segments.reverse.dropWhile (·.2.isNone)).reverse

/-- The path up to its last component, which is left out; `none` when there is no component but
the root. -/
def parent? (p : Path) : Option Path :=
  let used := dropIdle p.body
  if used = [] then none
  else
    let kept := ['/'].intercalate ((dropIdle used.dropLast).map Prod.fst)
    some ⟨if p.isAbsolute then '/' :: kept else kept⟩

def directory (p : Path) : Path := p.parent?.getD (ofString ".")

/-- The name of a file: the last component, if that is a name. -/
def fileName? (p : Path) : Option Text :=
  match p.components.getLast? with
  | some (.name text) => some text
  | _ => none

/-- What follows the last dot of the file's name. A dot at its start does not count. -/
def extension? (p : Path) : Option Text := do
  let name ← p.fileName?
  let reversed := name.reverse
  let stem := (reversed.dropWhile (· ≠ '.')).tail
  if stem = [] then none else some (reversed.takeWhile (· ≠ '.')).reverse

end Path

end Stylesheet
