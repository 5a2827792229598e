import Stylesheet.Json.Magnitude
import Stylesheet.Text.Utf8

set_option autoImplicit false

namespace Stylesheet.Json

/-- What is wrong with a text that should be JSON of some shape. -/
inductive Defect where
  /-- It is not JSON. -/
  | malformed
  /-- It ends too early. -/
  | truncated
  /-- It is JSON of another shape. -/
  | mismatched
  deriving DecidableEq, Repr

def Defect.describe : Defect → String
  | malformed => "the text is not JSON"
  | truncated => "the text ends too early"
  | mismatched => "a value or a field does not belong here"

/-- A value and the text after it, which every reader of a text gives back. -/
abbrev Reading (α : Type) := Except Defect (α × Text)

def isBlank (c : Char) : Bool := c = ' ' || c = '\n' || c = '\t' || c = '\r'

def skipBlanks (t : Text) : Text := t.dropWhile isBlank

def hexValue? (c : Char) : Option Nat :=
  if '0' ≤ c && c ≤ '9' then some (c.toNat - '0'.toNat)
  else if 'a' ≤ c && c ≤ 'f' then some (c.toNat - 'a'.toNat + 10)
  else if 'A' ≤ c && c ≤ 'F' then some (c.toNat - 'A'.toNat + 10)
  else none

def hexNumber? (a b c d : Char) : Option Nat := do
  return (((← hexValue? a) * 16 + (← hexValue? b)) * 16 + (← hexValue? c)) * 16 + (← hexValue? d)

/-- The character that a backslash and a letter stand for. -/
def escaped? (c : Char) : Option Char :=
  match c with
  | '"' => some '"'
  | '\\' => some '\\'
  | '/' => some '/'
  | 'b' => some '\x08'
  | 'f' => some '\x0c'
  | 'n' => some '\n'
  | 'r' => some '\r'
  | 't' => some '\t'
  | _ => none

def isLeading (n : Nat) : Bool := 0xD800 ≤ n && n ≤ 0xDBFF

def isTrailing (n : Nat) : Bool := 0xDC00 ≤ n && n ≤ 0xDFFF

/-- The defect of a text that should hold four hexadecimal digits and holds fewer characters. -/
def shortHex (t : Text) : Defect := if Text.byteLength t < 4 then .truncated else .malformed

/-- The defect of a text that should hold the second half of a surrogate pair and does not. -/
def shortPair : Text → Defect
  | [] | ['\\'] => .truncated
  | '\\' :: 'u' :: t => shortHex t
  | _ => .malformed

/-- Puts a character in front of a string that was read. -/
def cons (c : Char) : Reading Text → Reading Text
  | .ok (t, rest) => .ok (c :: t, rest)
  | .error defect => .error defect

/-- Reads a string after its opening quote. -/
def string : Text → Reading Text
  | [] => .error .truncated
  | '"' :: rest => .ok ([], rest)
  | '\\' :: 'u' :: a :: b :: c :: d :: rest =>
    match hexNumber? a b c d with
    | none => .error .malformed
    | some high =>
      if isTrailing high then .error .malformed
      else if isLeading high then
        match rest with
        | '\\' :: 'u' :: e :: f :: g :: h :: rest =>
          match hexNumber? e f g h with
          | none => .error .malformed
          | some low =>
            if isTrailing low then
              cons (Char.ofNat ((high - 0xD800) * 0x400 + (low - 0xDC00) + 0x10000)) (string rest)
            else .error .malformed
        | _ => .error (shortPair rest)
      else cons (Char.ofNat high) (string rest)
  | '\\' :: 'u' :: rest => .error (shortHex rest)
  | ['\\'] => .error .truncated
  | '\\' :: c :: rest =>
    match escaped? c with
    | some c => cons c (string rest)
    | none => .error .malformed
  | c :: rest => if c.toNat < 0x20 then .error .malformed else cons c (string rest)

/-- Reads what is left of a word. -/
def word : (left : Text) → Text → Except Defect Text
  | [], t => .ok t
  | _ :: _, [] => .error .truncated
  | c :: left, d :: t => if c = d then word left t else .error .malformed

def digits (t : Text) : Text × Text := (t.takeWhile Char.isDigit, t.dropWhile Char.isDigit)

/-- Splits off digits of which there has to be at least one. -/
def someDigits (t : Text) : Reading Text :=
  match t with
  | [] => .error .truncated
  | c :: _ => if c.isDigit then .ok (digits t) else .error .malformed

/-- Reads the exponent of a number, after its `e`. -/
def exponent (t : Text) : Reading Int :=
  match t with
  | '-' :: t => (someDigits t).map fun (ds, rest) => (-(digitsValue ds : Int), rest)
  | '+' :: t => (someDigits t).map fun (ds, rest) => ((digitsValue ds : Int), rest)
  | t => (someDigits t).map fun (ds, rest) => ((digitsValue ds : Int), rest)

/-- Reads the digits before the point: `0`, or digits that do not start with it. -/
def wholeDigits (t : Text) : Reading Text :=
  match t with
  | '0' :: c :: rest => if c.isDigit then .error .malformed else .ok (['0'], c :: rest)
  | t => someDigits t

/-- Reads the point and the digits after it, if they are there. -/
def fractionDigits (t : Text) : Reading Text :=
  match t with
  | '.' :: t => someDigits t
  | t => .ok ([], t)

/-- Reads a number after its sign, and refuses one that is too large. -/
def number (t : Text) : Except Defect Text := do
  let (whole, t) ← wholeDigits t
  let (fraction, t) ← fractionDigits t
  let (e, t) ← match t with
    | 'e' :: t | 'E' :: t => exponent t
    | t => .ok (0, t)
  if (Decimal.ofDigits whole fraction e).isHuge then .error .malformed else return t

/-- What is wrong with a value that starts here and is of no expected kind. A scalar is read to
its end first. -/
def misfit (t : Text) : Defect :=
  let after {α : Type} (read : Except Defect α) : Defect :=
    match read with
    | .ok _ => .mismatched
    | .error defect => defect
  match t with
  | [] => .truncated
  | 'n' :: t => after (word "ull".toList t)
  | 't' :: t => after (word "rue".toList t)
  | 'f' :: t => after (word "alse".toList t)
  | '-' :: t => after (number t)
  | '"' :: t => after (string t)
  | '[' :: _ | '{' :: _ => .mismatched
  | c :: _ => if c.isDigit then after (number t) else .malformed

def stringValue (t : Text) : Reading Text :=
  match skipBlanks t with
  | '"' :: t => string t
  | t => .error (misfit t)

def boolValue (t : Text) : Reading Bool :=
  match skipBlanks t with
  | 't' :: t => (word "rue".toList t).map (true, ·)
  | 'f' :: t => (word "alse".toList t).map (false, ·)
  | t => .error (misfit t)

/-- Nothing but blanks may follow a whole text. -/
def finish {α : Type} : Reading α → Except Defect α
  | .ok (a, rest) => if skipBlanks rest = [] then .ok a else .error .malformed
  | .error defect => .error defect

end Stylesheet.Json
