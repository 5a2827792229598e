import Stylesheet.Text.Basic

set_option autoImplicit false

namespace Stylesheet.Json

def digitValue (c : Char) : Nat := c.toNat - '0'.toNat

def digitsValue (t : Text) : Nat := t.foldl (fun n c => n * 10 + digitValue c) 0

/-- A whole number times a power of ten. -/
structure Decimal where
  significand : Nat
  exponent : Int
  deriving DecidableEq, Repr

namespace Decimal

def significandLimit : Nat := Nat.pow 2 64

/-- Appends digits to a significand until one does not fit, and gives back the digits from there
on. -/
def append (significand : Nat) : Text → Nat × Text
  | [] => (significand, [])
  | c :: t =>
    let next := significand * 10 + digitValue c
    if next < significandLimit then append next t else (significand, c :: t)

/-- The number with some digits before and after the point, times a power of ten. A digit before
the point that does not fit multiplies by ten, and one after the point has no effect. -/
def ofDigits (whole fraction : Text) (exponent : Int) : Decimal :=
  let (significand, excess) := append 0 whole
  let (significand, dropped) := append significand fraction
  ⟨significand, exponent + excess.length - (fraction.length - dropped.length : Nat)⟩

/-- The nearest number with at most 53 significant bits. Halfway between two of them, it is the one
with the even significand. -/
def nearest (n : Nat) : Nat :=
  let unit := Nat.pow 2 (n.log2 - 52)
  let below := n / unit
  let excess := 2 * (n % unit)
  if unit < excess || (excess = unit && below % 2 = 1) then (below + 1) * unit else below * unit

/-- The least number that is rounded to infinity. -/
def infinite : Nat := Nat.pow 2 1024 - Nat.pow 2 970

/-- Whether the product of the significand and the power of ten, each rounded, is infinite. A power
of ten that is infinite itself makes every significand but zero too large. -/
def isHuge (d : Decimal) : Bool :=
  if d.significand = 0 || d.exponent < 0 then false
  else if 308 < d.exponent then true
  else infinite ≤ nearest d.significand * nearest (Nat.pow 10 d.exponent.toNat)

end Decimal

end Stylesheet.Json
