import Stylesheet.CommandLine.Arguments
import Stylesheet.Options.File
import Stylesheet.Token.Listing
import Stylesheet.Watch

set_option autoImplicit false

namespace Stylesheet.CommandLine

inductive Failure where
  | compilation (problem : Problem)
  | scan (error : ScanError)
  | options (error : OptionsError)
  | unreadable (path : Path) (fault : Fault)
  | unwritable (error : WriteError)
  deriving DecidableEq, Repr

def Failure.message : Failure → String
  | compilation problem => problem.message
  | scan error => error.message
  | options error => error.message
  | unreadable path fault => s!"failed to read {path.render}: {fault.message}"
  | unwritable error => error.message

structure Done where
  volume : Volume
  printed : Text
  deriving DecidableEq, Repr

def Request.destination (request : Request) : Destination :=
  match request.output with
  | some path => .file path
  | none => .standard

/-- The options of a request: those of its file, and `minify` if that was asked for. -/
def Request.options (volume : Volume) (request : Request) : Except Failure Options := do
  let options ← match request.config with
    | some path => (Options.ofFile volume path).mapError Failure.options
    | none => .ok .default
  return if request.minify then { options with minify := true } else options

def write (destination : Destination) (volume : Volume) (text : Text) (now : Time) :
    Except Failure Done := do
  let (volume, printed) ← (destination.write volume text now).mapError Failure.unwritable
  return ⟨volume, printed⟩

def build (volume : Volume) (request : Request) (now : Time) : Except Failure Done := do
  let options ← request.options volume
  let css ← (compileFile volume options request.input).mapError Failure.compilation
  write request.destination volume css now

def listTokens (volume : Volume) (input : Path) (now : Time) : Except Failure Done := do
  let source ← (volume.readText input).mapError (Failure.unreadable input)
  let tokens ← (scan source).mapError Failure.scan
  write .standard volume (Token.listing tokens) now

structure Watching where
  input : Path
  options : Options
  destination : Destination
  cache : Cache
  deriving DecidableEq, Repr

namespace Watching

def compileAgain (watching : Watching) (volume : Volume) (now : Time) :
    Except Failure (Watching × Recompiled) :=
  match Stylesheet.recompile watching.cache volume watching.input watching.destination
      watching.options now with
  | .error (error, _) => .error (.unwritable error)
  | .ok recompiled => .ok ({ watching with cache := recompiled.cache }, recompiled)

/-- Starts to watch a stylesheet, which is compiled at once. -/
def start (volume : Volume) (request : Request) (now : Time) :
    Except Failure (Watching × Recompiled) := do
  let options ← request.options volume
  let input ← (volume.canonical request.input).mapError (Failure.unreadable request.input)
  compileAgain ⟨input, options, request.destination, .empty⟩ volume now

/-- Goes on after events. A stylesheet that is gone loses its entry. -/
def next (watching : Watching) (volume : Volume) (events : List Event) (now : Time) :
    Except Failure (Watching × Recompiled) :=
  let idle (cache : Cache) : Watching × Recompiled :=
    ({ watching with cache }, ⟨cache, volume, [], none⟩)
  if !reportsChange events watching.input then .ok (idle watching.cache)
  else if (volume.modified watching.input).isOk then watching.compileAgain volume now
  else .ok (idle (watching.cache.erase watching.input))

end Watching

/-- Carries out a command. To watch a stylesheet starts with compiling it. -/
def run (volume : Volume) (command : Command) (now : Time) : Except Failure Done :=
  match command with
  | .build request => build volume request now
  | .tokens input => listTokens volume input now
  | .watch request _ =>
    (Watching.start volume request now).map fun (_, recompiled) =>
      ⟨recompiled.volume, recompiled.printed⟩

def version : String := "csslike 0.1.0"

def help : String :=
  "Compiler for nested, variable-aware stylesheets.\n\n" ++
  "Usage: csslike [-v]... build <INPUT> [-o <OUTPUT>] [--minify] [--config <CONFIG>]\n" ++
  "       csslike [-v]... watch <INPUT> [-o <OUTPUT>] [--minify] [--config <CONFIG>]\n" ++
  "                             [--debounce-ms <DEBOUNCE_MS>]\n" ++
  "       csslike [-v]... tokens <INPUT>\n" ++
  "       csslike help | --help | --version"

def UsageError.message : UsageError → String
  | nothingGiven => help
  | missingCommand => "error: a command is needed: build, watch or tokens"
  | unknownCommand => "error: unknown command"
  | helpRequested => help
  | versionRequested => version
  | missingInput => "error: an input is needed"
  | unknownArgument => "error: unexpected argument"
  | repeatedOption => "error: an option is given twice"
  | unneededValue => "error: an option takes no value"
  | missingValue => "error: a value is missing"
  | invalidNumber => "error: a number is not valid"

inductive Ending where
  | success
  | failed (failure : Failure)
  /-- The arguments ask for nothing that can be carried out. -/
  | refused (error : UsageError)
  deriving DecidableEq, Repr

def Ending.code : Ending → Nat
  | success => 0
  | failed _ => 1
  | refused _ => 2

structure Outcome where
  volume : Volume
  printed : Text
  ending : Ending
  deriving DecidableEq, Repr

/-- Runs the program. Help and the version are printed where they are asked for. -/
def perform (volume : Volume) (arguments : List Text) (now : Time) : Outcome :=
  match read arguments with
  | .error .helpRequested => ⟨volume, help.toList ++ ['\n'], .success⟩
  | .error .versionRequested => ⟨volume, version.toList ++ ['\n'], .success⟩
  | .error error => ⟨volume, [], .refused error⟩
  | .ok invocation =>
    match run volume invocation.command now with
    | .error failure => ⟨volume, [], .failed failure⟩
    | .ok done => ⟨done.volume, done.printed, .success⟩

end Stylesheet.CommandLine
