import Stylesheet.Text.Alphanumeric
import Stylesheet.Text.Commas

set_option autoImplicit false

namespace Stylesheet

/-- A name, and the text between its parentheses unless that is empty. -/
structure Call where
  name : Text
  arguments : Option Text
  deriving DecidableEq, Repr

namespace Call

def isNameChar (c : Char) : Bool := Text.isAlphanumeric c || c = '_' || c = '-'

/-- What stands between a first and a last character of a text. -/
def between? (first last : Char) (t : Text) : Option Text :=
  match t with
  | c :: inner =>
    if c = first && inner.getLast? = some last then some inner.dropLast else none
  | [] => none

/-- Reads a call. It starts with a name; anything but parentheses after the name is ignored. -/
def ofText? (text : Text) : Option Call :=
  let text := Text.trim text
  let name := text.takeWhile isNameChar
  if name = [] then none
  else
    let rest := Text.trim (text.dropWhile isNameChar)
    some ⟨name, ((between? '(' ')' rest).map Text.trim).filter (!·.isEmpty)⟩

/-- Whether parentheses close inside a text that were not opened in it, starting at a depth. -/
def closesEarly : Nat → Text → Bool
  | _, [] => false
  | depth, c :: t =>
    if c = '(' then closesEarly (depth + 1) t
    else if c = ')' then
      match depth with
      | 0 => true
      | depth + 1 => closesEarly depth t
    else closesEarly depth t

/-- An argument without the pair of parentheses around it, if there is one. -/
def unwrapped (argument : Text) : Text :=
  match between? '(' ')' argument with
  | some inner => if closesEarly 0 inner then argument else Text.trim inner
  | none => argument

/-- The arguments of a list: its parts between top-level commas. One pair of parentheses around an
argument keeps its commas together and is not part of it. -/
def readList (list : Text) : List Text :=
  (Text.splitCommas list).map fun part => unwrapped (Text.trim part)

def argumentList (call : Call) : List Text := (call.arguments.map readList).getD []

end Call

end Stylesheet
