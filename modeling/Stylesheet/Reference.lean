import Stylesheet.Text.WordChar

set_option autoImplicit false

namespace Stylesheet.Reference

def isNameChar (c : Char) : Bool := Text.isWordChar c || c = '-'

/-- The length of the reference at the start of a text; a dollar sign alone is none. -/
def length : Text → Nat
  | '$' :: t =>
    match Text.countWhile isNameChar t with
    | 0 => 0
    | n => n + 1
  | _ => 0

/-- The text of a piece, when a reference may fail to resolve. -/
def resolvePiece {ε : Type} (lookup : Text → Except ε Text) : Text.Piece → Except ε Text
  | .plain c => .ok [c]
  | .found name => lookup name

/-- Puts the value of every reference in its place, left to right. Values are not read again. -/
def resolve {ε : Type} (lookup : Text → Except ε Text) (t : Text) : Except ε Text := do
  let parts ← (Text.pieces length t).mapM (resolvePiece lookup)
  return parts.flatten

end Stylesheet.Reference
