import Stylesheet.Path

set_option autoImplicit false

namespace Stylesheet.CommandLine

inductive UsageError where
  /-- There is nothing to do. -/
  | nothingGiven
  | missingCommand
  | unknownCommand
  | helpRequested
  | versionRequested
  | missingInput
  | unknownArgument
  | repeatedOption
  | unneededValue
  | missingValue
  | invalidNumber
  deriving DecidableEq, Repr

inductive Verb where
  | build
  | watch
  | tokens
  deriving DecidableEq, Repr

def Verb.ofText? (t : Text) : Option Verb :=
  if t = "build".toList then some .build
  else if t = "watch".toList then some .watch
  else if t = "tokens".toList then some .tokens
  else none

def helpWord : Text := "help".toList

/-- What is compiled, and how. -/
structure Request where
  input : Path
  output : Option Path
  minify : Bool
  config : Option Path
  deriving DecidableEq, Repr

inductive Command where
  | build (request : Request)
  /-- Compiles whenever the input changes, after so many quiet milliseconds. -/
  | watch (request : Request) (debounce : Nat)
  | tokens (input : Path)
  deriving DecidableEq, Repr

structure Invocation where
  command : Command
  verbosity : Nat
  deriving DecidableEq, Repr

/-- The options, of which some take a value. -/
inductive Switch where
  | output
  | config
  | debounce
  | minify
  | verbose
  | help
  | version
  deriving DecidableEq, Repr

namespace Switch

def takesValue : Switch → Bool
  | output | config | debounce => true
  | _ => false

/-- The options that a verb knows; `none` stands for what comes before the verb. -/
def known : Option Verb → List Switch
  | none => [verbose, help, version]
  | some .tokens => [verbose, help]
  | some .build => [output, config, minify, verbose, help]
  | some .watch => [output, config, debounce, minify, verbose, help]

def long : Switch → Text
  | output => "output".toList
  | config => "config".toList
  | debounce => "debounce-ms".toList
  | minify => "minify".toList
  | verbose => "verbose".toList
  | help => "help".toList
  | version => "version".toList

def short? : Switch → Option Char
  | output => some 'o'
  | verbose => some 'v'
  | help => some 'h'
  | version => some 'V'
  | _ => none

def ofLong? (verb : Option Verb) (name : Text) : Option Switch :=
  (known verb).find? (·.long = name)

def ofShort? (verb : Option Verb) (letter : Char) : Option Switch :=
  (known verb).find? (·.short? = some letter)

end Switch

/-- How an argument reads where options are allowed. -/
inductive Argument where
  | separator
  | long (name : Text) (value : Option Text)
  | short (letters : Text)
  | plain (text : Text)
  deriving DecidableEq, Repr

/-- Splits a long option at its first equals sign. -/
def Argument.ofLong (t : Text) : Argument :=
  match t.dropWhile (· ≠ '=') with
  | [] => .long t none
  | _ :: value => .long (t.takeWhile (· ≠ '=')) (some value)

def Argument.ofText : Text → Argument
  | ['-', '-'] => .separator
  | '-' :: '-' :: t => .ofLong t
  | ['-'] => .plain ['-']
  | '-' :: letters => .short letters
  | t => .plain t

/-- What was read last and is not taken up yet. A value or an input is taken up when the next
argument is read, so an unknown option right after it is reported first. -/
inductive Pending where
  | input (text : Text)
  /-- An option that takes a value, and the value if it has been read. -/
  | option (switch : Switch) (value : Option Text)
  deriving DecidableEq, Repr

/-- What the arguments read so far say. -/
structure Gathered where
  input : Option Text
  output : Option Text
  config : Option Text
  debounce : Option Nat
  minify : Bool
  /-- How often more messages were asked for, if at all. -/
  verbose : Option Nat
  pending : Option Pending
  /-- Whether nothing that follows is an option. -/
  plainOnly : Bool
  deriving DecidableEq, Repr

def maxDebounce : Nat := Nat.pow 2 64 - 1

def maxVerbosity : Nat := 255

/-- A whole number in decimal digits, perhaps with a plus sign. -/
def milliseconds? (t : Text) : Option Nat :=
  let digits := match t with
    | '+' :: t => t
    | t => t
  if digits = [] || !digits.all Char.isDigit then none
  else
    let n := digits.foldl (fun n c => n * 10 + (c.toNat - '0'.toNat)) 0
    if n ≤ maxDebounce then some n else none

namespace Gathered

def nothing : Gathered := ⟨none, none, none, none, false, none, none, false⟩

/-- Takes up a path for an option that may be given once. -/
def onePath (given : Option Text) (value : Text) : Except UsageError (Option Text) :=
  if given.isSome then .error .repeatedOption
  else if value = [] then .error .missingValue
  else .ok (some value)

def assign (g : Gathered) (switch : Switch) (value : Text) : Except UsageError Gathered :=
  match switch with
  | .output => (onePath g.output value).map fun output => { g with output }
  | .config => (onePath g.config value).map fun config => { g with config }
  | .debounce =>
    if g.debounce.isSome then .error .repeatedOption
    else match milliseconds? value with
      | some n => .ok { g with debounce := some n }
      | none => .error .invalidNumber
  | _ => .error .unneededValue

def settle (g : Gathered) : Except UsageError Gathered :=
  let settled := { g with pending := none }
  match g.pending with
  | none => .ok settled
  | some (.input text) =>
    if text = [] then .error .missingValue else .ok { settled with input := some text }
  | some (.option _ none) => .error .missingValue
  | some (.option switch (some value)) => settled.assign switch value

def flag (g : Gathered) (switch : Switch) : Except UsageError Gathered := do
  let g ← g.settle
  match switch with
  | .minify => if g.minify then .error .repeatedOption else return { g with minify := true }
  | .verbose => return { g with verbose := some (min maxVerbosity (g.verbose.getD 0 + 1)) }
  | .help => .error .helpRequested
  | .version => .error .versionRequested
  | _ => .error .missingValue

/-- An option that takes a value, with the value if that is attached. -/
def valued (g : Gathered) (switch : Switch) (value : Option Text) : Except UsageError Gathered := do
  let g ← g.settle
  match value with
  | some value => g.assign switch value
  | none => return { g with pending := some (.option switch none) }

def long (g : Gathered) (verb : Option Verb) (name : Text) (value : Option Text) :
    Except UsageError Gathered :=
  match Switch.ofLong? verb name with
  | none => .error .unknownArgument
  | some switch =>
    if switch.takesValue then g.valued switch value
    else if value.isSome then .error .unneededValue
    else g.flag switch

/-- Short options that are joined. What follows one that takes a value is its value, after an
equals sign if there is one. -/
def short (g : Gathered) (verb : Option Verb) : Text → Except UsageError Gathered
  | [] => .ok g
  | letter :: rest =>
    match Switch.ofShort? verb letter with
    | none => .error .unknownArgument
    | some switch =>
      if switch.takesValue then
        match rest with
        | [] => g.valued switch none
        | '=' :: value => g.valued switch (some value)
        | value => g.valued switch (some value)
      else
        match g.flag switch with
        | .error e => .error e
        | .ok g => g.short verb rest

def hasInput (g : Gathered) : Bool :=
  g.input.isSome || match g.pending with
    | some (.input _) => true
    | _ => false

/-- The option that waits for its value. -/
def awaiting? (g : Gathered) : Option Switch :=
  match g.pending with
  | some (.option switch none) => some switch
  | _ => none

/-- An argument that is no option and no value: the input. -/
def plain (g : Gathered) (text : Text) : Except UsageError Gathered :=
  if g.hasInput then .error .unknownArgument
  else (g.settle).map fun g => { g with pending := some (.input text) }

def step (verb : Verb) (g : Gathered) (text : Text) : Except UsageError Gathered :=
  if g.plainOnly then g.plain text
  else
    match Argument.ofText text with
    | .separator => .ok { g with plainOnly := true }
    | .long name value => g.long (some verb) name value
    | .short letters => g.short (some verb) letters
    | .plain text =>
      match g.awaiting? with
      | some switch => .ok { g with pending := some (.option switch (some text)) }
      | none => g.plain text

/-- The command that the arguments after a verb ask for. -/
def command (g : Gathered) (verb : Verb) : Except UsageError Command :=
  match g.input with
  | none => .error .missingInput
  | some input =>
    let request : Request := ⟨⟨input⟩, g.output.map Path.mk, g.minify, g.config.map Path.mk⟩
    match verb with
    | .build => .ok (.build request)
    | .watch => .ok (.watch request (g.debounce.getD 100))
    | .tokens => .ok (.tokens request.input)

end Gathered

/-- Reads the arguments after a verb. The verbosity asked for there replaces the one asked for
before. -/
def afterVerb (before : Option Nat) (verb : Verb) (arguments : List Text) :
    Except UsageError Invocation := do
  let g ← arguments.foldlM (Gathered.step verb) .nothing
  let g ← g.settle
  return ⟨← g.command verb, (g.verbose.or before).getD 0⟩

/-- What the arguments after `help` ask for: the name of one command at most. -/
def helpOn (arguments : List Text) : UsageError :=
  match arguments with
  | [] => .helpRequested
  | [name] =>
    if (Verb.ofText? name).isSome || name = helpWord then .helpRequested else .unknownCommand
  | _ => .unknownCommand

/-- Reads arguments up to the verb, and then what follows it. -/
def readFrom (g : Gathered) : List Text → Except UsageError Invocation
  | [] => .error (if g.verbose.isSome then .missingCommand else .nothingGiven)
  | text :: rest =>
    if g.plainOnly then
      .error (if (Verb.ofText? text).isSome || text = helpWord then .unknownArgument
        else .unknownCommand)
    else
      match Argument.ofText text with
      | .separator => readFrom { g with plainOnly := true } rest
      | .long name value =>
        match g.long none name value with
        | .error e => .error e
        | .ok g => readFrom g rest
      | .short letters =>
        match g.short none letters with
        | .error e => .error e
        | .ok g => readFrom g rest
      | .plain text =>
        match Verb.ofText? text with
        | some verb => afterVerb g.verbose verb rest
        | none => .error (if text = helpWord then helpOn rest else .unknownCommand)

def read (arguments : List Text) : Except UsageError Invocation := readFrom .nothing arguments

end Stylesheet.CommandLine
