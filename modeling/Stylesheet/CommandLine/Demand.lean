import Stylesheet.CommandLine.Run

set_option autoImplicit false

namespace Stylesheet

/-- The files whose contents differ from those of another volume. -/
def Volume.changes (after before : Volume) : List (Location × List UInt8) :=
  after.nodes.filterMap fun (location, node) =>
    match node with
    | .file bytes _ => if before.node? location = some node then none else some (location, bytes)
    | _ => none

def Volume.fileDirectories (v : Volume) : List Path :=
  (v.nodes.filterMap fun (location, node) =>
    match node with
    | .file _ _ => some (Volume.pathOf location.dropLast)
    | _ => none).eraseDups

/-- The images that a text still refers to. -/
def Image.targets (css : Text) : List Path :=
  (Text.pieces Image.referenceLength css).filterMap fun piece =>
    match piece with
    | .plain _ => none
    | .found reference =>
      let path : Path := ⟨Image.target reference⟩
      if Image.isRemote path.text || (Image.mediaType? path).isNone then none else some path

namespace CommandLine

def Failure.path? : Failure → Option Path
  | .compilation (.unreadableImport path _ _) | .compilation (.unreadable path _)
  | .options (.unreadable path _) | .unreadable path _ => some path
  | .unwritable error => some error.path
  | _ => none

/-- The files that may be missing from a volume, after a run that failed or left images as
references in what it printed or wrote. -/
def wanted (before after : Volume) (printed : Text) (failure : Option Failure) : List Path :=
  let written := (after.changes before).filterMap fun (_, bytes) => Text.decode bytes
  let images := (printed :: written).flatMap Image.targets
  (failure.bind Failure.path?).toList ++
    before.fileDirectories.flatMap fun directory => images.map directory.join

def Command.paths : Command → List Path
  | .build request | .watch request _ =>
    request.input :: request.output.toList ++ request.config.toList
  | .tokens input => [input]

def Outcome.wanted (outcome : Outcome) (before : Volume) : List Path :=
  let failure := match outcome.ending with
    | .failed failure => some failure
    | _ => none
  CommandLine.wanted before outcome.volume outcome.printed failure

def Watching.wanted (result : Except Failure (Watching × Recompiled)) (before : Volume) :
    List Path :=
  match result with
  | .error failure => CommandLine.wanted before before [] (some failure)
  | .ok (_, recompiled) =>
    CommandLine.wanted before recompiled.volume recompiled.printed
      (recompiled.problem.map .compilation)

end CommandLine

end Stylesheet
