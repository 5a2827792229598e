import Stylesheet.Json.Reader
import Stylesheet.Options
import Stylesheet.Volume

set_option autoImplicit false

namespace Stylesheet

namespace Options

open Json

/-- Options of which some are given. -/
structure Given where
  directory : Option Text
  minify : Option Bool
  deriving DecidableEq, Repr

def Given.none : Given := ⟨Option.none, Option.none⟩

/-- How many fields can still be given. -/
def Given.missing (given : Given) : Nat :=
  (if given.directory.isNone then 1 else 0) + (if given.minify.isNone then 1 else 0)

def Given.complete (given : Given) : Options :=
  ⟨(given.directory.map Path.mk).getD default.directory, given.minify.getD default.minify⟩

def nextElement {α : Type} (first : Bool) (value : Text → Reading α) (t : Text) :
    Reading (Option α) :=
  let read (t : Text) : Reading (Option α) := (value t).map fun (a, rest) => (some a, rest)
  match skipBlanks t with
  | [] => .error .truncated
  | ']' :: t => .ok (Option.none, ']' :: t)
  | c :: t =>
    if first then read (c :: t)
    else if c = ',' then
      match skipBlanks t with
      | [] => .error .truncated
      | ']' :: _ => .error .malformed
      | t => read t
    else .error .malformed

def closeArray (t : Text) : Except Defect Text :=
  match skipBlanks t with
  | [] => .error .truncated
  | ']' :: t => .ok t
  | _ => .error .malformed

/-- Reads an array of options after its opening bracket. -/
def array (t : Text) : Except Defect (Given × Text) := do
  let (directory, t) ← nextElement true stringValue t
  if directory.isNone then return (.none, ← closeArray t)
  let (minify, t) ← nextElement false boolValue t
  return (⟨directory, minify⟩, ← closeArray t)

def fieldColon (t : Text) : Except Defect Text :=
  match skipBlanks t with
  | [] => .error .truncated
  | ':' :: t => .ok t
  | _ => .error .malformed

/-- Reads the value of a field. It may not be unknown or given before. -/
def fieldValue (given : Given) (name : Text) (t : Text) :
    Except Defect (Given × Text) :=
  if name = "directory".toList && given.directory.isNone then do
    let (directory, t) ← stringValue (← fieldColon t)
    return ({ given with directory := some directory }, t)
  else if name = "minify".toList && given.minify.isNone then do
    let (minify, t) ← boolValue (← fieldColon t)
    return ({ given with minify := some minify }, t)
  else .error .mismatched

/-- Reads a field, where its name has to start. -/
def field (given : Given) (t : Text) : Except Defect (Given × Text) :=
  match skipBlanks t with
  | [] => .error .truncated
  | '"' :: t => do
    let (name, t) ← string t
    fieldValue given name t
  | _ => .error .malformed

/-- Reads what follows a field: the end of the object, or a comma and more fields, at most so
many. -/
def moreFields : Nat → Given → Text → Reading Given
  | count, given, t =>
    match skipBlanks t with
    | [] => .error .truncated
    | '}' :: t => .ok (given, t)
    | ',' :: t =>
      match field given t with
      | .error defect => .error defect
      | .ok (given, t) =>
        match count with
        | 0 => .error .mismatched
        | count + 1 => moreFields count given t
    | _ => .error .malformed

/-- Reads an object of options after its opening brace. -/
def object (t : Text) : Except Defect (Given × Text) :=
  match skipBlanks t with
  | [] => .error .truncated
  | '}' :: t => .ok (.none, t)
  | t => do
    let (given, t) ← field .none t
    moreFields given.missing given t

/-- Reads options from JSON text: an object with the fields `directory` and `minify`, each at most
once, or the array of the two values in this order. What is left out keeps its default. -/
def ofJson (t : Text) : Except Defect Options :=
  let reading := match skipBlanks t with
    | '[' :: t => array t
    | '{' :: t => object t
    | t => .error (misfit t)
  (finish reading).map Given.complete

end Options

inductive OptionsError where
  | unreadable (path : Path) (fault : Fault)
  | invalid (path : Path) (defect : Json.Defect)
  deriving DecidableEq, Repr

namespace OptionsError

def invalidPreface (path : Path) : String := s!"invalid JSON in config '{path.render}': "

def message : OptionsError → String
  | unreadable path fault => s!"failed to read config '{path.render}': {fault.message}"
  | invalid path defect => invalidPreface path ++ defect.describe

end OptionsError

/-- Loads options from a file. A relative directory is relative to the file. -/
def Options.ofFile (volume : Volume) (path : Path) : Except OptionsError Options :=
  match volume.readText path with
  | .error fault => .error (.unreadable path fault)
  | .ok text =>
    match Options.ofJson text with
    | .error defect => .error (.invalid path defect)
    | .ok options =>
      if options.directory.isAbsolute then .ok options
      else match path.parent? with
        | some parent => .ok { options with directory := parent.join options.directory }
        | none => .ok options

end Stylesheet
