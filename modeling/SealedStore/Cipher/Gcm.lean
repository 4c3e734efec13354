import SealedStore.Cipher.Aes
/-!
# AES-GCM by position

Counter mode masks byte `i` of a text with byte `i` of a keystream that
depends on key and nonce alone. The text is therefore encrypted and decrypted
by the same function, piece by piece from any position, and the pieces never
influence each other. The tag is a hash of the whole ciphertext and of the
associated data, masked with the keystream block before the first.

What is proved:
  1. `length_block` — a keystream block has 16 bytes.
  2. `length_tag` — a tag has 16 bytes.
  3. `length_crypt`, `crypt_crypt` — encrypting keeps the length, and doing it
     twice gives the text back.
-/

namespace SealedStore.Gcm

/-! ## The field of 2¹²⁸ elements -/

/-- A field element; bit 0 of the polynomial is the top bit of `hi`. -/
structure Element where
  hi : UInt64
  lo : UInt64
  deriving DecidableEq

def Element.zero : Element := ⟨0, 0⟩

def Element.add (a b : Element) : Element := ⟨a.hi ^^^ b.hi, a.lo ^^^ b.lo⟩

/-- Multiplication by the polynomial x. -/
def Element.shift (a : Element) : Element :=
  let carried : Element := ⟨a.hi >>> 1, a.lo >>> 1 ||| a.hi <<< 63⟩
  if a.lo &&& 1 = 0 then carried else ⟨carried.hi ^^^ 0xe100000000000000, carried.lo⟩

/-- The sum of shifts of `v` that the `n` top bits of `bits` select, added to
`acc`, with the shift that comes next. -/
def Element.select : (n : Nat) → (bits : UInt64) → (acc v : Element) → Element × Element
  | 0, _, acc, v => (acc, v)
  | n + 1, bits, acc, v =>
    select n (bits <<< 1) (if bits >>> 63 = 0 then acc else acc.add v) v.shift

def Element.mul (x y : Element) : Element :=
  let (acc, v) := Element.select 64 x.hi Element.zero y
  (Element.select 64 x.lo acc v).1

def Element.ofBytes (b : Bytes) : Element :=
  let block := b ++ List.replicate (16 - b.length) 0
  ⟨(Bytes.toNat (block.take 8)).toUInt64, (Bytes.toNat (block.drop 8)).toUInt64⟩

def Element.toBytes (a : Element) : Bytes :=
  Bytes.ofNat 8 a.hi.toNat ++ Bytes.ofNat 8 a.lo.toNat

/-- The hash of a text under `h`, continued from `start`; the last block is
filled up with zeros. -/
def hash (h start : Element) (text : Bytes) : Element :=
  (Bytes.blocks 16 text).foldl (fun y b => (y.add (Element.ofBytes b)).mul h) start

/-! ## Counter mode -/

/-- A cipher ready for use: round keys, the hash key and the block that
precedes the first counter. -/
structure Context where
  schedule : Array UInt32
  hashKey : Element
  preCounter : Bytes

/-- Prepares a cipher. A nonce of 12 bytes is followed by the counter one; any
other nonce is hashed together with its length. -/
def context (key nonce : Bytes) : Context :=
  let schedule := Aes.expand key
  let h := Element.ofBytes (Aes.encrypt schedule (List.replicate 16 0))
  let start :=
    if nonce.length = 12 then nonce ++ [0, 0, 0, 1]
    else (hash h (hash h Element.zero nonce) (Bytes.ofNat 16 (nonce.length * 8))).toBytes
  ⟨schedule, h, start⟩

/-- The counter block `n` steps after the pre-counter; only its last four
bytes count, and they wrap around. -/
def Context.counter (c : Context) (n : Nat) : Bytes :=
  c.preCounter.take 12 ++ Bytes.ofNat 4 (Bytes.toNat (c.preCounter.drop 12) + n)

def Context.block (c : Context) (n : Nat) : Bytes := Aes.encrypt c.schedule (c.counter (n + 1))

theorem length_block (c : Context) (n : Nat) : (c.block n).length = 16 := Aes.length_encrypt _ _

/-- The `count` bytes of the keystream from position `start`. -/
def Context.keystream (c : Context) (start count : Nat) : Bytes :=
  (((List.range' (start / 16) ((start % 16 + count + 15) / 16)).flatMap c.block).drop
    (start % 16)).take count

/-- Encrypts, or decrypts, a piece of text that begins at position `start`. -/
def Context.crypt (c : Context) (start : Nat) (piece : Bytes) : Bytes :=
  Bytes.xor piece (c.keystream start piece.length)

theorem length_keystream (c : Context) (start count : Nat) :
    (c.keystream start count).length = count := by
  rw [Context.keystream, List.length_take, List.length_drop, List.length_flatMap]
  simp only [length_block, List.map_const', List.sum_replicate_nat, List.length_range']
  omega

theorem length_crypt (c : Context) (start : Nat) (piece : Bytes) :
    (c.crypt start piece).length = piece.length := by
  rw [Context.crypt, Bytes.length_xor, length_keystream, Nat.min_self]

theorem crypt_crypt (c : Context) (start : Nat) (piece : Bytes) :
    c.crypt start (c.crypt start piece) = piece := by
  have h : (c.crypt start piece).length = piece.length := length_crypt c start piece
  rw [Context.crypt, h, Context.crypt]
  exact Bytes.xor_xor_cancel _ _ (Nat.le_of_eq (length_keystream c start _).symm)

/-- The tag of a whole ciphertext and its associated data. -/
def Context.tag (c : Context) (aad ciphertext : Bytes) : Bytes :=
  let lengths := Bytes.ofNat 8 (aad.length * 8) ++ Bytes.ofNat 8 (ciphertext.length * 8)
  let s := hash c.hashKey (hash c.hashKey (hash c.hashKey Element.zero aad) ciphertext) lengths
  Bytes.xor s.toBytes (Aes.encrypt c.schedule c.preCounter)

theorem length_tag (c : Context) (aad ciphertext : Bytes) : (c.tag aad ciphertext).length = 16 := by
  simp [Context.tag, Bytes.length_xor, Element.toBytes, Bytes.length_ofNat, Aes.length_encrypt]

end SealedStore.Gcm
