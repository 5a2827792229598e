import Stylesheet.Text.Basic

set_option autoImplicit false

namespace Stylesheet.Text

/-- What a reader of a list knows about the characters before the current one. -/
structure Nesting where
  depth : Nat
  quote : Option Char
  escaped : Bool
  deriving DecidableEq, Repr

namespace Nesting

def top : Nesting := ⟨0, none, false⟩

def isTop (n : Nesting) : Bool := n.depth == 0 && n.quote.isNone && !n.escaped

/-- After one more character. A backslash escapes the next character, also inside quotes; a
closing bracket without a partner does not count. -/
def next (n : Nesting) (c : Char) : Nesting :=
  if n.escaped then { n with escaped := false }
  else if c = '\\' then { n with escaped := true }
  else match n.quote with
    | some q => if c = q then { n with quote := none } else n
    | none =>
      if c = '"' || c = '\'' then { n with quote := some c }
      else if c = '(' || c = '[' then { n with depth := n.depth + 1 }
      else if c = ')' || c = ']' then { n with depth := n.depth - 1 }
      else n

end Nesting

/-- Divides a text at its commas, of which only those at the top count. -/
def splitCommasFrom (n : Nesting) : Text → List Text
  | [] => [[]]
  | c :: t =>
    if c = ',' && n.isTop then [] :: splitCommasFrom (n.next c) t
    else (splitCommasFrom (n.next c) t).modifyHead (c :: ·)

/-- The parts of a text between its top-level commas. -/
def splitCommas (t : Text) : List Text := splitCommasFrom .top t

end Stylesheet.Text
