import Stylesheet.Text.Basic

set_option autoImplicit false

namespace Stylesheet.Text

/-- Whether a code point lies in one of the closed intervals of an increasing table. -/
def inRanges : List (Nat × Nat) → Nat → Bool
  | [], _ => false
  | (low, high) :: rest, n => if n < low then false else if n ≤ high then true else inRanges rest n

end Stylesheet.Text
