import SealedStore.Cipher.Aes
import SealedStore.Cipher.Des
import SealedStore.Cipher.Rc2
/-!
# Cipher block chaining

The mode that protects a private key under a password: each block is masked
with the ciphertext block before it, and the text is filled up to whole blocks
with bytes that hold their own number.

What is proved:
  1. `unfill?_fill` — removing the filling gives the text back.
-/

namespace SealedStore

/-- A block cipher under a key. -/
structure BlockCipher where
  size : Nat
  encrypt : Bytes → Bytes
  decrypt : Bytes → Bytes

namespace BlockCipher

def aes (key : Bytes) : BlockCipher :=
  let k := Aes.expand key
  ⟨16, Aes.encrypt k, Aes.decrypt k⟩

def tripleDes (key : Bytes) : BlockCipher :=
  let s := Des.schedule key
  ⟨8, Des.encrypt s, Des.decrypt s⟩

/-- RC2 with keys of an effective length in bits. -/
def rc2 (bits : Nat) (key : Bytes) : BlockCipher :=
  let k := Rc2.expand bits key
  ⟨8, Rc2.encrypt k, Rc2.decrypt k⟩

end BlockCipher

namespace Cbc

/-- Encrypts blocks in order, each masked with the one before. -/
def chain (c : BlockCipher) : (previous : Bytes) → List Bytes → List Bytes
  | _, [] => []
  | previous, b :: rest =>
    let e := c.encrypt (Bytes.xor b previous)
    e :: chain c e rest

def unchain (c : BlockCipher) : (previous : Bytes) → List Bytes → List Bytes
  | _, [] => []
  | previous, e :: rest => Bytes.xor (c.decrypt e) previous :: unchain c e rest

/-- Fills up to whole blocks; a text of whole blocks gains one block. -/
def fill (size : Nat) (text : Bytes) : Bytes :=
  let n := size - text.length % size
  text ++ List.replicate n (UInt8.ofNat n)

/-- Removes the filling, or refuses a text that does not carry one. -/
def unfill? (size : Nat) (text : Bytes) : Option Bytes :=
  match text.getLast? with
  | none => none
  | some last =>
    let n := last.toNat
    if 1 ≤ n ∧ n ≤ size ∧ n ≤ text.length ∧ (text.drop (text.length - n)).all (· == last) then
      some (text.take (text.length - n))
    else none

theorem unfill?_fill {size : Nat} (h : 0 < size) (hs : size < 256) (text : Bytes) :
    unfill? size (fill size text) = some text := by
  have hm := Nat.mod_lt text.length h
  have hn : (UInt8.ofNat (size - text.length % size)).toNat = size - text.length % size := by
    rw [UInt8.toNat_ofNat']
    omega
  have hl : (fill size text).getLast? = some (UInt8.ofNat (size - text.length % size)) := by
    rw [fill, List.getLast?_append, List.getLast?_replicate, if_neg (by omega)]
    rfl
  have hd : (fill size text).length - (size - text.length % size) = text.length := by
    simp [fill]
  simp only [unfill?, hl, hn, hd]
  simp [fill]
  omega

def encrypt (c : BlockCipher) (iv text : Bytes) : Bytes :=
  (chain c iv (Bytes.blocks c.size (fill c.size text))).flatten

/-- Decrypts whole blocks and removes the filling. -/
def decrypt? (c : BlockCipher) (iv text : Bytes) : Option Bytes :=
  if text.length % c.size = 0 then
    unfill? c.size (unchain c iv (Bytes.blocks c.size text)).flatten
  else none

end Cbc

end SealedStore
