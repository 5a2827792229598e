import Stylesheet.CommandLine.Demand

set_option autoImplicit false

namespace Stylesheet.Program

open CommandLine

/-- The time given to new files of the volume. The disk keeps the real one. -/
def now : Time := ⟨0, 0⟩

/-- The volume that knows nothing but the working directory. -/
def here : IO Volume := do
  let location := (Path.ofString (← IO.currentDir).toString).segments.filter (!·.isEmpty)
  return { (⟨[], []⟩ : Volume).add location (.directory now) now with workingDirectory := location }

/-- Where an absolute path without links leads. -/
def locationOf (path : Path) : Location := path.segments.filter (!·.isEmpty)

/-- Reads what is on the disk at a location, unless that is known. -/
partial def look (volume : Volume) (location : Location) : IO Volume := do
  if (volume.node? location).isSome then return volume
  let name := (Volume.pathOf location).render
  try
    let entry ← ((← IO.currentDir) / name).symlinkMetadata
    let time : Time := ⟨entry.modified.sec, entry.modified.nsec.toNat⟩
    match entry.type with
    | .dir => return volume.add location (.directory time) time
    | .symlink =>
      let target := Path.ofString (← IO.FS.realPath name).toString
      look (volume.add location (.link target) time) (locationOf target)
    | _ => return volume.add location (.file (← IO.FS.readBinFile name).toList time) time
  catch _ => return volume

/-- Reads what is on the disk along a path. -/
def explore (volume : Volume) (path : Path) : IO Volume := do
  let start := if path.isAbsolute then [] else volume.workingDirectory
  let (volume, _) ← path.segments.foldlM (fun (volume, location) segment => do
    if segment = [] || segment = ['.'] then return (volume, location)
    if segment = ['.', '.'] then return (volume, location.dropLast)
    let next := location ++ [segment]
    let volume ← look volume next
    match volume.node? next with
    | some (.link target) => return (volume, locationOf target)
    | _ => return (volume, next)) (volume, start)
  return volume

/-- Tries something on a volume, again and again until it needs no more files. -/
partial def settle {α : Type} (volume : Volume) (attempt : Volume → α)
    (wanted : α → Volume → List Path) : IO (Volume × α) := do
  let result := attempt volume
  let more ← (wanted result volume).foldlM explore volume
  if more.nodes.length = volume.nodes.length then return (volume, result)
  else settle more attempt wanted

def deliver (before after : Volume) (printed : Text) : IO Unit := do
  IO.print (String.ofList printed)
  for (location, bytes) in after.changes before do
    IO.FS.writeBinFile (Volume.pathOf location).render ⟨bytes.toArray⟩

def report (failure : Failure) : IO UInt32 := do
  IO.eprintln s!"error: {failure.message}"
  return 1

/-- Carries out a command on a volume that holds what is known of the disk. When the command turns
out to need more files, these are read and it is carried out again. Only then is anything printed or
written. -/
def once (arguments : List Text) (paths : List Path) : IO UInt32 := do
  let volume ← paths.foldlM explore (← here)
  let (before, outcome) ← settle volume (perform · arguments now) Outcome.wanted
  deliver before outcome.volume outcome.printed
  match outcome.ending with
  | .success => return 0
  | .failed failure => report failure
  | .refused error =>
    IO.eprintln error.message
    return 2

/-- Compiles a stylesheet again whenever the time at which it was written changes. -/
partial def follow (watching : Watching) (known : Option Time) (debounce : Nat) : IO UInt32 := do
  IO.sleep (UInt32.ofNat (min debounce (Nat.pow 2 31)))
  let volume ← explore (← here) watching.input
  let current := (volume.modified watching.input).toOption
  if current = known then follow watching known debounce
  else
    let (before, result) ← settle volume
      (watching.next · [⟨watching.input, .settled⟩] now) Watching.wanted
    match result with
    | .error failure => report failure
    | .ok (watching, recompiled) =>
      deliver before recompiled.volume recompiled.printed
      if let some problem := recompiled.problem then IO.eprintln problem.message
      follow watching current debounce

def watch (request : Request) (debounce : Nat) : IO UInt32 := do
  let volume ← (Command.watch request debounce).paths.foldlM explore (← here)
  let (before, result) ← settle volume (Watching.start · request now) Watching.wanted
  match result with
  | .error failure => report failure
  | .ok (watching, recompiled) =>
    deliver before recompiled.volume recompiled.printed
    if let some problem := recompiled.problem then IO.eprintln problem.message
    follow watching (before.modified watching.input).toOption debounce

end Stylesheet.Program

def main (arguments : List String) : IO UInt32 := do
  let arguments := arguments.map String.toList
  match Stylesheet.CommandLine.read arguments with
  | .ok ⟨.watch request debounce, _⟩ => Stylesheet.Program.watch request debounce
  | .ok invocation => Stylesheet.Program.once arguments invocation.command.paths
  | .error _ => Stylesheet.Program.once arguments []
