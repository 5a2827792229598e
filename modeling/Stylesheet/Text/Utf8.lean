import Stylesheet.Text.Basic

set_option autoImplicit false

namespace Stylesheet.Text

def encode (t : Text) : List UInt8 := t.flatMap String.utf8EncodeChar

def byteLength (t : Text) : Nat := (encode t).length

/-- The bytes that follow the first one of a character. -/
def isContinuation (b : UInt8) : Bool := 0x80 ≤ b && b ≤ 0xBF

/-- The six bits that a following byte carries. -/
def continuationBits (b : UInt8) : Nat := b.toNat - 0x80

/-- The text of a list of bytes. Each character has to be written in as few bytes as it can, and a
surrogate is no character. -/
def decode : List UInt8 → Option Text
  | [] => some []
  | a :: rest =>
    if a < 0x80 then (Char.ofNat a.toNat :: ·) <$> decode rest
    else if 0xC2 ≤ a && a ≤ 0xDF then
      match rest with
      | b :: rest =>
        if isContinuation b then
          (Char.ofNat ((a.toNat - 0xC0) * 0x40 + continuationBits b) :: ·) <$> decode rest
        else none
      | _ => none
    else if 0xE0 ≤ a && a ≤ 0xEF then
      match rest with
      | b :: c :: rest =>
        let code := (a.toNat - 0xE0) * 0x1000 + continuationBits b * 0x40 + continuationBits c
        if isContinuation b && isContinuation c && 0x800 ≤ code && !(0xD800 ≤ code && code ≤ 0xDFFF)
        then (Char.ofNat code :: ·) <$> decode rest
        else none
      | _ => none
    else if 0xF0 ≤ a && a ≤ 0xF4 then
      match rest with
      | b :: c :: d :: rest =>
        let code := (a.toNat - 0xF0) * 0x40000 + continuationBits b * 0x1000 +
          continuationBits c * 0x40 + continuationBits d
        if isContinuation b && isContinuation c && isContinuation d && 0x10000 ≤ code &&
          code ≤ 0x10FFFF
        then (Char.ofNat code :: ·) <$> decode rest
        else none
      | _ => none
    else none

end Stylesheet.Text
