import Stylesheet.Draft
import Stylesheet.Sheet
import Stylesheet.Trait

set_option autoImplicit false

namespace Stylesheet

/-- The names of the at-rules that have a meaning. -/
inductive Keyword where
  | declare
  | define
  | mixin
  | load
  deriving DecidableEq, Repr

def Keyword.text : Keyword → Text
  | declare => ['@', 'v', 'a', 'r']
  | define => ['@', 't', 'r', 'a', 'i', 't']
  | mixin => ['@', 'm', 'i', 'x', 'i', 'n']
  | load => ['@', 'i', 'm', 'p', 'o', 'r', 't']

/-- A block that is open, and the draft that was interrupted when it was opened. -/
structure OpenBlock where
  heading : Heading
  line : Nat
  outer : Draft
  deriving DecidableEq, Repr

structure OpenTrait where
  name : Text
  params : List Text
  /-- The declarations so far. -/
  body : List Declaration
  line : Nat
  deriving DecidableEq, Repr

/-- The variables and traits that are in force. -/
structure Scope where
  bindings : Variables
  traits : Traits
  deriving DecidableEq, Repr

def Scope.empty : Scope := ⟨.empty, .empty⟩

/-- The state between two tokens. The tokens are read once, from left to right, with a draft for the
innermost open block and a stack of the drafts around it. A declaration sees the variables and
traits of the tokens before it, wherever these stand. -/
structure Progress where
  scope : Scope
  /-- The draft of the innermost block, or of the stylesheet when none is open. -/
  draft : Draft
  /-- The open blocks, innermost first. -/
  blocks : List OpenBlock
  /-- The trait that is being defined, inside all open blocks. -/
  definition : Option OpenTrait
  deriving DecidableEq, Repr

/-- What stays the same while the tokens of one stylesheet are compiled. -/
structure Setting where
  volume : Volume
  /-- The directory in which imports and images are looked up. -/
  directory : Path
  /-- The files that are being compiled, innermost first. -/
  chain : List Path
  deriving DecidableEq, Repr

/-- Compiles the file that an import names, for a line and a depth. -/
abbrev Importer := Setting → Path → (line depth : Nat) → Scope → Except Problem (Text × Scope)

namespace Progress

def start (scope : Scope) (depth : Nat) : Progress := ⟨scope, .start ⟨none, depth⟩, [], none⟩

/-- Adds a piece that is not a block. -/
def write (p : Progress) (text : Text) : Progress := { p with draft := p.draft.write text }

def lineDepth (p : Progress) : Nat := p.draft.place.lineDepth

def openBlock (p : Progress) (heading : Heading) (place : Place) (line : Nat) : Progress :=
  { p with draft := .start place, blocks := ⟨heading, line, p.draft⟩ :: p.blocks }

def openRule (p : Progress) (selector : Text) (line : Nat) : Progress :=
  p.openBlock .rule (p.draft.place.insideRule selector) line

def openAtRule (p : Progress) (name params : Text) (line : Nat) : Progress :=
  p.openBlock (.atRule (Layout.header name params)) p.draft.place.insideAtRule line

def openTrait (p : Progress) (header : Text) (line : Nat) : Except Problem Progress :=
  match Call.ofText? header with
  | none => .error (.unnamedTrait header line)
  | some call => .ok { p with definition := some ⟨call.name, Trait.paramsOf call, [], line⟩ }

/-- Closes the innermost block and adds its text to the one around it. -/
def closeBlock (p : Progress) (token : Token) : Except Problem Progress :=
  match p.blocks with
  | [] => .error (.unexpectedToken token)
  | block :: rest =>
    .ok { p with draft := block.outer.writeBlock (p.draft.render block.heading), blocks := rest }

/-- A token inside the definition of a trait, which holds nothing but declarations. -/
def stepTrait (setting : Setting) (p : Progress) (t : OpenTrait) (token : Token) :
    Except Problem Progress :=
  match token with
  | .property key value _ =>
    .ok { p with definition := some { t with body := t.body ++ [⟨key, value⟩] } }
  | .close _ =>
    let traits := p.scope.traits.define ⟨t.name, t.params, t.body, setting.directory⟩
    .ok { p with scope := { p.scope with traits }, definition := none }
  | _ => .error (.unexpectedToken token)

/-- Declares a variable. What is declared without a name is ignored. -/
def declare (p : Progress) (params : Text) (line : Nat) : Except Problem Progress :=
  let name := params.takeWhile (!Text.isBlank ·)
  let value := Text.trim (params.dropWhile (!Text.isBlank ·))
  if name = [] then .ok p
  else if value = [] then .error (.emptyVariable name line)
  else do
    let value ← p.scope.bindings.substitute line value
    return { p with scope := { p.scope with bindings := p.scope.bindings.set name value } }

/-- Writes the declarations of a trait. Their images are looked up where it was defined. -/
def mixIn (setting : Setting) (p : Progress) (params : Text) (line : Nat) :
    Except Problem Progress :=
  match Call.ofText? params with
  | none => .error (.undeclaredMixin params line)
  | some call =>
    match p.scope.traits.get? call.name with
    | none => .error (.undeclaredMixin call.name line)
    | some definition => do
      let arguments ← call.argumentList.mapM (p.scope.bindings.substitute line)
      let declarations ← definition.instantiate arguments p.scope.bindings line
      return p.write (declarations.flatMap fun d =>
        Layout.declaration d.key (Image.inlineAll setting.volume definition.directory d.value)
          p.lineDepth)

/-- Writes what an import refers to in its place. -/
def load (importer : Importer) (setting : Setting) (p : Progress) (params : Text) (line : Nat) :
    Except Problem Progress :=
  match ImportSource.ofText params with
  | .address url => .ok (p.write (Layout.statement Keyword.load.text url p.lineDepth))
  | .file target => do
    let (text, scope) ← importer setting target line p.lineDepth p.scope
    return { p with scope }.write text

def statement (importer : Importer) (setting : Setting) (p : Progress) (name params : Text)
    (line : Nat) : Except Problem Progress :=
  if name = Keyword.declare.text then p.declare params line
  else if name = Keyword.mixin.text then p.mixIn setting params line
  else if name = Keyword.load.text then p.load importer setting params line
  else .ok (p.write (Layout.statement name params p.lineDepth))

def writeProperty (setting : Setting) (p : Progress) (key value : Text) (line : Nat) :
    Except Problem Progress := do
  let value ← p.scope.bindings.substitute line value
  return p.write
    (Layout.declaration key (Image.inlineAll setting.volume setting.directory value) p.lineDepth)

def step (importer : Importer) (setting : Setting) (p : Progress) (token : Token) :
    Except Problem Progress :=
  match p.definition with
  | some definition => p.stepTrait setting definition token
  | none =>
    match token with
    | .rule selector line => .ok (p.openRule selector line)
    | .atBlock name params line =>
      if name = Keyword.define.text then p.openTrait params line
      else .ok (p.openAtRule name params line)
    | .statement name params line => p.statement importer setting name params line
    | .property key value line => p.writeProperty setting key value line
    | .comment text _ => .ok (p.write (Layout.comment text p.lineDepth))
    | .close _ => p.closeBlock token

/-- The output and the scope, if nothing is left open. -/
def finish (p : Progress) : Except Problem (Text × Scope) :=
  match p.definition, p.blocks with
  | some definition, _ => .error (.unclosedBlock definition.line)
  | none, block :: _ => .error (.unclosedBlock block.line)
  | none, [] => .ok (p.draft.body, p.scope)

end Progress

end Stylesheet
