import SealedStore.Bytes
import SealedStore.Text.Quoted
/-!
# Base64

Writing is the standard form with padding. Reading is lenient: a character
outside the alphabet is skipped, a text ends at the padding that completes a
group of four, and padding anywhere else is skipped too. Only a text that
stops inside a group, or that holds a character beyond ASCII, is refused.
-/

namespace SealedStore.Base64

inductive Fault where
  /-- The first run of characters beyond ASCII reaches from `first` to `last`
  and starts with `c`. -/
  | notAscii (c : Char) (first last : Nat)
  /-- The last group holds one of the `count` data characters. -/
  | loneCharacter (count : Nat)
  | padding
  deriving DecidableEq

def escapedChar (c : Char) : String :=
  String.ofList <|
    if c.toNat < 0x100 then '\\' :: 'x' :: Text.hexDigits 2 c.toNat
    else if c.toNat < 0x10000 then '\\' :: 'u' :: Text.hexDigits 4 c.toNat
    else '\\' :: 'U' :: Text.hexDigits 8 c.toNat

def Fault.message : Fault → String
  | .notAscii c first last =>
    if first = last then
      s!"'ascii' codec can't encode character '{escapedChar c}' in position {first}: " ++
        "ordinal not in range(128)"
    else s!"'ascii' codec can't encode characters in position {first}-{last}: ordinal not in range(128)"
  | .loneCharacter count =>
    s!"Invalid base64-encoded string: number of data characters ({count}) cannot be 1 more than " ++
      "a multiple of 4"
  | .padding => "Incorrect padding"

/-! ## The alphabet -/

def digit (n : Nat) : Char :=
  if n < 26 then Char.ofNat (65 + n)
  else if n < 52 then Char.ofNat (71 + n)
  else if n < 62 then Char.ofNat (n - 4)
  else if n = 62 then '+' else '/'

def value? (c : Char) : Option Nat :=
  if 'A' ≤ c ∧ c ≤ 'Z' then some (c.toNat - 65)
  else if 'a' ≤ c ∧ c ≤ 'z' then some (c.toNat - 71)
  else if '0' ≤ c ∧ c ≤ '9' then some (c.toNat + 4)
  else if c = '+' then some 62
  else if c = '/' then some 63
  else none

/-! ## Writing -/

def encodeChars : Bytes → List Char
  | a :: b :: c :: rest =>
    digit (a.toNat / 4) :: digit (a.toNat % 4 * 16 + b.toNat / 16) ::
      digit (b.toNat % 16 * 4 + c.toNat / 64) :: digit (c.toNat % 64) :: encodeChars rest
  | [a, b] =>
    [digit (a.toNat / 4), digit (a.toNat % 4 * 16 + b.toNat / 16), digit (b.toNat % 16 * 4), '=']
  | [a] => [digit (a.toNat / 4), digit (a.toNat % 4 * 16), '=', '=']
  | [] => []

def encode (b : Bytes) : String := String.ofList (encodeChars b)

/-! ## Reading -/

/-- How far the current group of four has been read, with the bits that do not
fill a byte yet. -/
inductive Phase where
  | empty
  | one (bits : Nat)
  | two (bits : Nat) (padded : Bool)
  | three (bits : Nat)

/-- Reads on from inside a group; `count` data characters came before. -/
def decodeFrom : Phase → (count : Nat) → List Char → Except Fault Bytes
  | .empty, _, [] => .ok []
  | .one _, count, [] => .error (.loneCharacter count)
  | .two _ _, _, [] => .error .padding
  | .three _, _, [] => .error .padding
  | phase, count, c :: rest =>
    if c = '=' then
      match phase with
      | .two bits false => decodeFrom (.two bits true) count rest
      | .two _ true | .three _ => .ok []
      -- Padding is passed over where a group has no byte yet.
      | _ => decodeFrom phase count rest
    else match value? c with
      | none => decodeFrom phase count rest
      | some v =>
        match phase with
        | .empty => decodeFrom (.one v) (count + 1) rest
        | .one bits =>
          (decodeFrom (.two (v % 16) false) (count + 1) rest).map
            (UInt8.ofNat (bits * 4 + v / 16) :: ·)
        | .two bits _ =>
          (decodeFrom (.three (v % 4)) (count + 1) rest).map
            (UInt8.ofNat (bits * 16 + v / 4) :: ·)
        | .three bits =>
          (decodeFrom .empty (count + 1) rest).map (UInt8.ofNat (bits * 64 + v) :: ·)

def isAscii (c : Char) : Bool := c.toNat < 128

/-- The first run of characters beyond ASCII. -/
def notAscii? (s : List Char) : Option Fault :=
  let ascii := s.takeWhile isAscii
  match s.dropWhile isAscii with
  | [] => none
  | c :: rest =>
    some (.notAscii c ascii.length (ascii.length + (rest.takeWhile (!isAscii ·)).length))

def decode (text : String) : Except Fault Bytes :=
  match notAscii? text.toList with
  | some fault => .error fault
  | none => decodeFrom .empty 0 text.toList

end SealedStore.Base64
