import Stylesheet.Position
import Stylesheet.Token

set_option autoImplicit false

namespace Stylesheet

/-- What the reader can be inside of. -/
inductive Construct where
  /-- The body of a rule. -/
  | rule
  /-- The body of an at-rule. -/
  | atBlock
  /-- An at-rule, up to its brace or semicolon. -/
  | header
  /-- The right-hand side of a declaration. -/
  | value
  | singleQuoted
  | doubleQuoted
  | comment
  deriving DecidableEq, Repr

namespace Construct

/-- Strings and comments, in which every character stands for itself. -/
def isVerbatim : Construct → Bool
  | singleQuoted | doubleQuoted | comment => true
  | _ => false

def isBlock : Construct → Bool
  | rule | atBlock => true
  | _ => false

def describe : Construct → String
  | rule => "rule block"
  | atBlock => "at-rule block"
  | header => "at-rule"
  | value => "property value"
  | singleQuoted | doubleQuoted => "string"
  | comment => "comment"

end Construct

inductive ScanError where
  | controlCharacter (c : Char) (position : Position)
  | unterminated (construct : Construct) (line : Nat)
  deriving DecidableEq, Repr

namespace ScanError

def line : ScanError → Nat
  | controlCharacter _ position => position.line
  | unterminated _ line => line

/-- A control character between quotes: its code in hexadecimal, `\0` for the null character. -/
def quoteControl (c : Char) : String :=
  if c.toNat = 0 then "'\\0'"
  else "'\\u\x7b" ++ String.ofList (Nat.toDigits 16 c.toNat) ++ "\x7d'"

def message : ScanError → String
  | controlCharacter c position =>
    "control character " ++ quoteControl c ++ " found at " ++ position.render
  | unterminated construct line =>
    "unterminated " ++ construct.describe ++ " opened on line " ++ toString line

end ScanError

/-- The part that a character plays outside escapes and comment marks. -/
inductive Mark where
  /-- A line break, a tab, or another layout character that reads as a space. -/
  | layout
  | space
  | openBrace
  | closeBrace
  | colon
  | semicolon
  | atSign
  | quote (string : Construct)
  | control
  | plain
  deriving DecidableEq, Repr

def Mark.of (c : Char) : Mark :=
  if c = '\n' || c = '\t' || c = '\x0b' || c = '\x0c' then .layout
  else if c = ' ' then .space
  else if c = '{' then .openBrace
  else if c = '}' then .closeBrace
  else if c = ':' then .colon
  else if c = ';' then .semicolon
  else if c = '@' then .atSign
  else if c = '"' then .quote .doubleQuoted
  else if c = '\'' then .quote .singleQuoted
  else if c.toNat < 0x20 then .control
  else .plain

/-- A construct that has not ended, with the line on which it was opened. -/
structure Frame where
  construct : Construct
  line : Nat
  deriving DecidableEq, Repr

/-- The state of the reader. A selector, an at-rule and a declaration cannot be told apart at their
first character: `a:hover {` opens a rule and `color: red;` declares a property. The reader keeps
the text since the last token pending and a stack of the constructs it is inside of. A colon in the
body of a rule starts a value, and a brace that turns up before the value ends makes a selector of
the key and the value; in the body of an at-rule the next delimiter decides beforehand. -/
structure Scan where
  position : Position
  /-- The text since the last token, latest character first. -/
  pending : Text
  /-- The name of the at-rule, or the key of the declaration, that is being read. -/
  key : Option Text
  /-- The pending text that was set aside at the start of the comment that is being read. -/
  aside : Option Text
  /-- The constructs that are open, innermost first. -/
  frames : List Frame
  /-- The tokens read so far, latest first. -/
  tokens : List Token
  deriving DecidableEq, Repr

namespace Scan

def start : Scan := ⟨.start, [], none, none, [], []⟩

def top (s : Scan) : Option Construct := s.frames.head?.map Frame.construct

def inVerbatim (s : Scan) : Bool := s.top.any Construct.isVerbatim

def text (s : Scan) : Text := Text.trim s.pending.reverse

def advance (s : Scan) (c : Char) : Scan := { s with position := s.position.advance c }

def write (s : Scan) (c : Char) : Scan := { s with pending := c :: s.pending }

def clear (s : Scan) : Scan := { s with pending := [] }

def emit (s : Scan) (token : Token) : Scan := { s with tokens := token :: s.tokens }

def enter (s : Scan) (construct : Construct) : Scan :=
  { s with frames := ⟨construct, s.position.line⟩ :: s.frames }

def leave (s : Scan) : Scan := { s with frames := s.frames.tail }

/-- A space. The first one in an at-rule ends its name. -/
def blank (s : Scan) : Scan :=
  if s.top = some .header && s.key.isNone then
    { s with key := some s.pending.reverse, pending := [' '] }
  else s.write ' '

def headerParts (s : Scan) : Text × Text :=
  match s.key with
  | some name => (Text.trim name, s.text)
  | none => (s.text, [])

def endStatement (s : Scan) : Scan :=
  { s with key := none, pending := [] }.emit
    (.statement s.headerParts.1 s.headerParts.2 s.position.line) |>.leave

/-- Ends a declaration. One without a key is dropped. -/
def endProperty (s : Scan) : Scan :=
  let key := Text.trim (s.key.getD [])
  let done := { s with key := none, pending := [] }.leave
  if key = [] then done else done.emit (.property key s.text s.position.line)

/-- Opens a rule whose selector is the pending text. -/
def enterRule (s : Scan) : Scan :=
  (s.clear.emit (.rule s.text s.position.line)).enter .rule

def enterAtBlock (s : Scan) : Scan :=
  ({ s with key := none, pending := [] }.emit
    (.atBlock s.headerParts.1 s.headerParts.2 s.position.line)).leave.enter .atBlock

/-- The key, the colon and the value so far become the pending text: they were a selector. -/
def reclassify (s : Scan) : Scan :=
  { s with key := none, pending := s.pending ++ ':' :: (s.key.getD []).reverse }.leave

def openBrace (s : Scan) : Scan :=
  match s.top with
  | some .header => s.enterAtBlock
  | some .value => s.reclassify.enterRule
  | some .singleQuoted | some .doubleQuoted | some .comment => s.write '{'
  | _ => s.enterRule

/-- Ends the declaration or the at-rule that is being read. -/
def endClause (s : Scan) : Scan :=
  match s.top with
  | some .value => s.endProperty
  | some .header => s.endStatement
  | _ => s

/-- Closes a block. A brace that closes nothing is a token as well. -/
def closeBlock (s : Scan) : Scan :=
  let closed := s.clear.emit (.close s.position.line)
  if s.top.any Construct.isBlock then closed.leave else closed

def closeBrace (s : Scan) : Scan :=
  if s.inVerbatim then s.write '}' else s.endClause.closeBlock

/-- Whether the next delimiter of a text opens a block. -/
def opensBlock (rest : Text) : Bool :=
  rest.find? (fun c => c = ';' || c = '}' || c = '{') = some '{'

/-- The pending text becomes the key of a declaration. -/
def startValue (s : Scan) : Scan :=
  { s with key := some s.pending.reverse, pending := [] }.enter .value

def colon (s : Scan) (rest : Text) : Scan :=
  match s.top with
  | some .rule => s.startValue
  | some .atBlock => if opensBlock rest then s.write ':' else s.startValue
  | _ => s.write ':'

def semicolon (s : Scan) : Scan :=
  if s.inVerbatim then s.write ';' else s.endClause.clear

def atSign (s : Scan) : Scan :=
  match s.top with
  | none | some .rule | some .atBlock => { s with key := none, pending := ['@'] }.enter .header
  | _ => s.write '@'

def quote (s : Scan) (c : Char) (string : Construct) : Scan :=
  match s.top with
  | some .comment => s.write c
  | some .singleQuoted | some .doubleQuoted =>
    if s.top = some string then s.leave.write c else s.write c
  | _ => (s.enter string).write c

/-- One character that is not read together with the next one. -/
def single (s : Scan) (c : Char) (rest : Text) : Except ScanError Scan :=
  let s := s.advance c
  match Mark.of c with
  | .layout => .ok (if s.inVerbatim then s.write c else s.blank)
  | .space => .ok s.blank
  | .openBrace => .ok s.openBrace
  | .closeBrace => .ok s.closeBrace
  | .colon => .ok (s.colon rest)
  | .semicolon => .ok s.semicolon
  | .atSign => .ok s.atSign
  | .quote string => .ok (s.quote c string)
  | .control => .error (.controlCharacter c s.position)
  | .plain => .ok (s.write c)

/-- A comment sets the pending text aside. -/
def openComment (s : Scan) : Scan :=
  { s with aside := some s.pending, pending := [] }.enter .comment

def closeComment (s : Scan) : Scan :=
  { s.emit (.comment s.text s.position.line) with
    pending := s.aside.getD [], aside := none }.leave

/-- Two characters that are read together: an escape, or a mark that opens or closes a comment. -/
def pair? (s : Scan) (c d : Char) : Option Scan :=
  let after := (s.advance c).advance d
  if c = '\\' then some ((after.write c).write d)
  else if c = '/' && d = '*' && !s.inVerbatim then some after.openComment
  else if c = '*' && d = '/' && s.top = some .comment then some after.closeComment
  else none

def run (s : Scan) : Text → Except ScanError Scan
  | [] => .ok s
  | [c] => s.single c []
  | c :: d :: rest =>
    match s.pair? c d with
    | some s => s.run rest
    | none =>
      match s.single c (d :: rest) with
      | .error e => .error e
      | .ok s => s.run (d :: rest)

/-- The tokens, if nothing is left open. Pending text is dropped. -/
def finish (s : Scan) : Except ScanError (List Token) :=
  match s.frames with
  | [] => .ok s.tokens.reverse
  | frame :: _ => .error (.unterminated frame.construct frame.line)

end Scan

def scan (source : Text) : Except ScanError (List Token) :=
  (Scan.start.run (Text.unifyLineEnds source)).bind Scan.finish

end Stylesheet
