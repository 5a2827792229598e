import Stylesheet.Text.Basic

set_option autoImplicit false

namespace Stylesheet

/-- The line and the column of the character read last. Lines and columns count from one, so
column zero stands before the first character of a line. -/
structure Position where
  line : Nat
  column : Nat
  deriving DecidableEq, Repr

namespace Position

def start : Position := ⟨1, 0⟩

def advance (p : Position) (c : Char) : Position :=
  if c = '\n' then ⟨p.line + 1, 0⟩ else ⟨p.line, p.column + 1⟩

def after (p : Position) (t : Text) : Position := t.foldl advance p

/-- The starting position and the one after each character. -/
def trail (p : Position) : Text → List Position
  | [] => [p]
  | c :: t => p :: trail (p.advance c) t

def render (p : Position) : String := s!"{p.line}:{p.column}"

end Position

end Stylesheet
