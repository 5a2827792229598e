import Stylesheet.Base64

set_option autoImplicit false

namespace Stylesheet.Base64

/-- The signs, in the order of the bits that they stand for. -/
def alphabet : Text := "ABCDEFGHIJKLMNOPQRSTUVWXYZabcdefghijklmnopqrstuvwxyz0123456789+/".toList

def value? (c : Char) : Option Nat := alphabet.idxOf? c

def number? (signs : Text) : Option Nat := do
  return (← signs.mapM value?).foldl (fun n bits => n * 64 + bits) 0

/-- The bytes of a group of four signs, of which only the last one of a text has padding. -/
def group? (a b c d : Char) : Option (List UInt8) :=
  if d ≠ '=' then do
    let n ← number? [a, b, c, d]
    return [.ofNat (n / 65536), .ofNat (n / 256), .ofNat n]
  else if c ≠ '=' then do
    let n ← number? [a, b, c]
    if n % 4 = 0 then return [.ofNat (n / 1024), .ofNat (n / 4)] else none
  else do
    let n ← number? [a, b]
    if n % 16 = 0 then return [.ofNat (n / 16)] else none

def decode : Text → Option (List UInt8)
  | [] => some []
  | a :: b :: c :: d :: rest => do
    if d = '=' && rest ≠ [] then none
    else return (← group? a b c d) ++ (← decode rest)
  | _ => none

theorem value?_digit {n : Nat} (small : n < 64) : value? (digit n) = some n := by
  have all : ∀ n < 64, value? (digit n) = some n := by decide
  exact all n small

theorem digit_ne_padding {n : Nat} (small : n < 64) : digit n ≠ '=' := by
  have all : ∀ n < 64, digit n ≠ '=' := by decide
  exact all n small

theorem digit_mem_alphabet (n : Nat) : digit n ∈ alphabet := by
  have all : ∀ n ≤ 63, digit n ∈ alphabet := by decide +kernel
  by_cases small : n ≤ 63
  · exact all n small
  · have last : digit n = '/' := by
      unfold digit
      rw [if_neg (by omega), if_neg (by omega), if_neg (by omega), if_neg (by omega)]
    rw [last]
    decide

/-- Only signs and padding are written. -/
theorem encode_subset (bytes : List UInt8) : encode bytes ⊆ '=' :: alphabet := by
  have sign (n : Nat) : digit n ∈ '=' :: alphabet := List.mem_cons_of_mem _ (digit_mem_alphabet n)
  have padding : '=' ∈ '=' :: alphabet := List.mem_cons_self
  fun_induction encode bytes with
  | case1 => exact List.nil_subset _
  | case2 a => simp only [List.cons_subset, sign, padding, List.nil_subset, and_self]
  | case3 a b => simp only [List.cons_subset, sign, padding, List.nil_subset, and_self]
  | case4 a b c rest ih => simpa only [List.cons_subset, sign, true_and] using ih

theorem mapM_value?_digit {ns : List Nat} (small : ∀ n ∈ ns, n < 64) :
    (ns.map digit).mapM value? = some ns := by
  induction ns with
  | nil => rfl
  | cons n ns ih =>
    obtain ⟨first, later⟩ := List.forall_mem_cons.mp small
    rw [List.map_cons, List.mapM_cons, value?_digit first, ih later]
    rfl

/-- Signs are read as the digits of a number. -/
theorem number?_digits (ns : List Nat) (small : ∀ n ∈ ns, n < 64) :
    number? (ns.map digit) = some (ns.foldl (fun n bits => n * 64 + bits) 0) := by
  rw [number?, mapM_value?_digit small]
  rfl

theorem ofNat_eq {n : Nat} {b : UInt8} (same : n % 256 = b.toNat) : UInt8.ofNat n = b := by
  apply UInt8.toNat_inj.mp
  rw [UInt8.toNat_ofNat']
  exact same

theorem group?_three (a b c : UInt8) :
    group? (digit (a.toNat / 4)) (digit (a.toNat % 4 * 16 + b.toNat / 16))
      (digit (b.toNat % 16 * 4 + c.toNat / 64)) (digit (c.toNat % 64)) = some [a, b, c] := by
  have boundA := a.toNat_lt
  have boundB := b.toNat_lt
  have boundC := c.toNat_lt
  have read := number?_digits [a.toNat / 4, a.toNat % 4 * 16 + b.toNat / 16,
    b.toNat % 16 * 4 + c.toNat / 64, c.toNat % 64] (by simp; omega)
  have unpadded : digit (c.toNat % 64) ≠ '=' := digit_ne_padding (by omega)
  simp only [List.map_cons, List.map_nil, List.foldl_cons, List.foldl_nil] at read
  rw [group?, if_pos unpadded, read]
  refine congrArg some ?_
  rw [ofNat_eq (b := a) (by omega), ofNat_eq (b := b) (by omega), ofNat_eq (b := c) (by omega)]

theorem group?_two (a b : UInt8) :
    group? (digit (a.toNat / 4)) (digit (a.toNat % 4 * 16 + b.toNat / 16))
      (digit (b.toNat % 16 * 4)) '=' = some [a, b] := by
  have boundA := a.toNat_lt
  have boundB := b.toNat_lt
  have read := number?_digits [a.toNat / 4, a.toNat % 4 * 16 + b.toNat / 16, b.toNat % 16 * 4]
    (by simp; omega)
  have unpadded : digit (b.toNat % 16 * 4) ≠ '=' := digit_ne_padding (by omega)
  simp only [List.map_cons, List.map_nil, List.foldl_cons, List.foldl_nil] at read
  rw [group?, if_neg (by simp), if_pos unpadded, read, Option.bind_eq_bind, Option.bind_some,
    if_pos (by omega), ofNat_eq (b := a) (by omega), ofNat_eq (b := b) (by omega)]
  rfl

theorem group?_one (a : UInt8) :
    group? (digit (a.toNat / 4)) (digit (a.toNat % 4 * 16)) '=' '=' = some [a] := by
  have boundA := a.toNat_lt
  have read := number?_digits [a.toNat / 4, a.toNat % 4 * 16] (by simp; omega)
  simp only [List.map_cons, List.map_nil, List.foldl_cons, List.foldl_nil] at read
  rw [group?, if_neg (by simp), if_neg (by simp), read, Option.bind_eq_bind, Option.bind_some,
    if_pos (by omega), ofNat_eq (b := a) (by omega)]
  rfl

/-- What is read is what was written. -/
theorem decode_encode (bytes : List UInt8) : decode (encode bytes) = some bytes := by
  fun_induction encode bytes with
  | case1 => rfl
  | case2 a => simp [decode, group?_one]
  | case3 a b => simp [decode, group?_two]
  | case4 a b c rest ih =>
    have unpadded : digit (c.toNat % 64) ≠ '=' := digit_ne_padding (by omega)
    simp [decode, unpadded, group?_three, ih]

example : decode "Zm9vYmE=".toList = some [102, 111, 111, 98, 97] := by decide

end Stylesheet.Base64
