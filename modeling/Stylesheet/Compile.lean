import Stylesheet.Compact
import Stylesheet.Options
import Stylesheet.Progress

set_option autoImplicit false

namespace Stylesheet

/-- Compiles tokens to raw output at a depth, and gives the scope at their end. -/
def compileRaw (importer : Importer) (setting : Setting) (depth : Nat) (scope : Scope)
    (tokens : List Token) : Except Problem (Text × Scope) := do
  (← tokens.foldlM (Progress.step importer setting) (.start scope depth)).finish

/-- Imports that may be nested so many levels deep. A chain of imports holds no file twice, so as
many levels as there are files are enough: at level zero every file that can be read is in the
chain already, and is refused. -/
def importing : Nat → Importer
  | levels, setting, target, line, depth, scope =>
    match Sheet.readImport setting.volume setting.chain setting.directory target line with
    | .error problem => .error problem
    | .ok sheet =>
      match levels with
      | 0 => .error (.recursiveImport sheet.path line)
      | levels + 1 =>
        match scan sheet.source with
        | .error error => .error (.scan error)
        | .ok tokens =>
          compileRaw (importing levels)
            { setting with directory := sheet.directory, chain := sheet.path :: setting.chain }
            depth scope tokens

def Setting.importer (setting : Setting) : Importer := importing setting.volume.nodes.length

def Options.print (options : Options) (raw : Text) : Text :=
  if options.minify then compact (Layout.finish raw) else Layout.finish raw

/-- Compiles tokens while the files of a chain are being compiled. -/
def compileIn (volume : Volume) (chain : List Path) (options : Options) (tokens : List Token) :
    Except Problem Text := do
  let setting : Setting := ⟨volume, options.directory, chain⟩
  let (raw, _) ← compileRaw setting.importer setting 0 .empty tokens
  return options.print raw

def compileTokens (volume : Volume) (options : Options) (tokens : List Token) :
    Except Problem Text :=
  compileIn volume [] options tokens

def compile (volume : Volume) (options : Options) (source : Text) : Except Problem Text :=
  match scan source with
  | .error error => .error (.scan error)
  | .ok tokens => compileTokens volume options tokens

/-- Compiles a stylesheet on a volume. Imports and images are looked up in its directory. -/
def compileFile (volume : Volume) (options : Options) (path : Path) : Except Problem Text :=
  match Sheet.read volume path with
  | .error problem => .error problem
  | .ok sheet =>
    match scan sheet.source with
    | .error error => .error (.scan error)
    | .ok tokens =>
      compileIn volume [sheet.path] { options with directory := sheet.directory } tokens

end Stylesheet
