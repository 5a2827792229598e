import Stylesheet.Cache

set_option autoImplicit false

namespace Stylesheet

inductive Change where
  /-- It changed, and has been quiet since. -/
  | settled
  /-- It is still changing. -/
  | ongoing
  deriving DecidableEq, Repr

structure Event where
  path : Path
  change : Change
  deriving DecidableEq, Repr

/-- Whether one of the events says that a file has changed. Paths are compared by components. -/
def reportsChange (events : List Event) (input : Path) : Bool :=
  events.any fun event => event.change = .settled && event.path.components = input.components

inductive Destination where
  | standard
  | file (path : Path)
  deriving DecidableEq, Repr

structure WriteError where
  path : Path
  fault : Fault
  deriving DecidableEq, Repr

def WriteError.message (e : WriteError) : String :=
  s!"failed to write {e.path.render}: {e.fault.message}"

/-- The volume and the standard output after something was written. A line break ends what is
written to standard output, and nothing is added to a file. -/
def Destination.write (destination : Destination) (volume : Volume) (text : Text) (now : Time) :
    Except WriteError (Volume × Text) :=
  match destination with
  | standard => .ok (volume, text ++ ['\n'])
  | file path =>
    match volume.write path (Text.encode text) now with
    | .error fault => .error ⟨path, fault⟩
    | .ok volume => .ok (volume, [])

structure Recompiled where
  cache : Cache
  volume : Volume
  /-- What was written to standard output. -/
  printed : Text
  /-- Why nothing was written. -/
  problem : Option Problem
  deriving DecidableEq, Repr

/-- Compiles a stylesheet through a cache and writes the output. A stylesheet that does not
compile is no error, and nothing is written for it. -/
def recompile (cache : Cache) (volume : Volume) (input : Path) (output : Destination)
    (options : Options) (now : Time) : Except (WriteError × Cache) Recompiled :=
  match cache.load volume options input with
  | (.error problem, cache) => .ok ⟨cache, volume, [], some problem⟩
  | (.ok style, cache) =>
    match output.write volume style.css now with
    | .error e => .error (e, cache)
    | .ok (volume, printed) => .ok ⟨cache, volume, printed, none⟩

end Stylesheet
