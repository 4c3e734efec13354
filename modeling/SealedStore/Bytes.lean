/-!
# Byte strings

A byte string is a list of bytes, so that every statement about content is a
statement about lists. This module holds what the rest of the library writes
with them: big-endian numbers of a fixed width, bytewise exclusive or, and
lower-case hexadecimal text.

What is proved:
  1. `length_ofNat` — a number written in `n` bytes has exactly `n` bytes.
  2. `length_xor` — exclusive or is as long as the shorter operand.
  3. `xor_xor_cancel` — masking twice with the same bytes gives the bytes back.
-/

namespace SealedStore

abbrev Bytes := List UInt8

namespace Bytes

def ofText (s : String) : Bytes := s.toUTF8.toList

/-! ## Numbers -/

/-- The number a byte string spells, most significant byte first. -/
def toNat (b : Bytes) : Nat := b.foldl (fun n x => n * 256 + x.toNat) 0

/-- The last `width` bytes of a number, most significant first. -/
def ofNat : (width n : Nat) → Bytes
  | 0, _ => []
  | width + 1, n => ofNat width (n / 256) ++ [UInt8.ofNat (n % 256)]

theorem length_ofNat (width n : Nat) : (ofNat width n).length = width := by
  induction width generalizing n with
  | zero => rfl
  | succ w ih => simp [ofNat, ih]

/-- The fewest bytes that hold a number; zero takes none. -/
def widthOf (n : Nat) : Nat := if n = 0 then 0 else Nat.log2 n / 8 + 1

/-! ## Masks -/

/-- Bytewise exclusive or, as far as both operands reach. -/
def xor (a b : Bytes) : Bytes := List.zipWith (fun x y => x ^^^ y) a b

theorem length_xor (a b : Bytes) : (xor a b).length = min a.length b.length := by
  simp [xor]

theorem xor_xor_cancel (a m : Bytes) (h : a.length ≤ m.length) : xor (xor a m) m = a := by
  induction a generalizing m with
  | nil => rfl
  | cons x a ih =>
    cases m with
    | nil => simp at h
    | cons y m =>
      have hx : (x ^^^ y) ^^^ y = x := by rw [UInt8.xor_assoc, UInt8.xor_self, UInt8.xor_zero]
      have := ih m (by simpa using h)
      simp only [xor, List.zipWith_cons_cons] at this ⊢
      rw [hx, this]

/-! ## Blocks -/

/-- The string in pieces of `size` bytes, the last one possibly shorter. -/
def blocks (size : Nat) (b : Bytes) : List Bytes :=
  (List.range ((b.length + size - 1) / size)).foldl
    (fun (acc : List Bytes × Bytes) _ => (acc.2.take size :: acc.1, acc.2.drop size)) ([], b)
    |>.1.reverse

/-! ## Hexadecimal text -/

def hexDigit (n : Nat) : Char := "0123456789abcdef".toList.getD n '0'

/-- Two lower-case hexadecimal digits for each byte. -/
def toHex (b : Bytes) : String :=
  String.ofList (b.flatMap fun x => [hexDigit (x.toNat / 16), hexDigit (x.toNat % 16)])

def hexValue? (c : Char) : Option Nat :=
  if '0' ≤ c ∧ c ≤ '9' then some (c.toNat - 48)
  else if 'a' ≤ c ∧ c ≤ 'f' then some (c.toNat - 87)
  else if 'A' ≤ c ∧ c ≤ 'F' then some (c.toNat - 55)
  else none

def ofHexChars? : List Char → Option Bytes
  | [] => some []
  | [_] => none
  | hi :: lo :: rest =>
    match hexValue? hi, hexValue? lo, ofHexChars? rest with
    | some h, some l, some tail => some (UInt8.ofNat (h * 16 + l) :: tail)
    | _, _, _ => none

def ofHex? (s : String) : Option Bytes := ofHexChars? s.toList

end Bytes

end SealedStore
