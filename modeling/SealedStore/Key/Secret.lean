import SealedStore.Cipher.Gcm
import SealedStore.Program
/-!
# Secret keys

The bytes of an AES key, for content or for other keys. A key of content is
wrapped under a master key of 32 bytes: a nonce is followed by the encrypted
key and a tag, which also covers associated data.

What is proved:
  1. `length_wrapWith` — wrapping adds 28 bytes.
-/

namespace SealedStore

/-- The bytes of an AES key. -/
structure SecretKey where
  material : Bytes
  deriving DecidableEq

inductive KeySize where
  | bits128
  | bits192
  | bits256
  deriving DecidableEq, Repr, Inhabited

namespace KeySize

def bytes : KeySize → Nat
  | .bits128 => 16
  | .bits192 => 24
  | .bits256 => 32

def bits (s : KeySize) : Nat := s.bytes * 8

def all : List KeySize := [.bits128, .bits192, .bits256]

def ofBytes? (n : Int) : Option KeySize := all.find? fun s => (s.bytes : Int) == n

def ofBits? (n : Int) : Option KeySize := all.find? fun s => (s.bits : Int) == n

theorem ofBytes?_bytes (s : KeySize) : ofBytes? s.bytes = some s := by cases s <;> rfl

theorem ofBits?_bits (s : KeySize) : ofBits? s.bits = some s := by cases s <;> rfl

end KeySize

def nonceSize : Nat := 12

def tagSize : Nat := 16

namespace SecretKey
variable {I : Interface}

def summary : String := "SecureKey([REDACTED])"

def size? (k : SecretKey) : Option KeySize := KeySize.ofBytes? k.material.length

/-! ## Making keys -/

def fresh (size : KeySize) : Program I SecretKey := do
  return ⟨← Program.secret size.bytes⟩

/-- Draws a key of a number of bytes, if AES has keys of that length. -/
def generate (size : Int) : Attempt I SecretKey :=
  match KeySize.ofBytes? size with
  | none => throw (.key (.unknownSize size))
  | some s => Attempt.always (fresh s)

/-! ## Wrapping -/

/-- A key wrapped under `master` with a nonce. -/
def wrapWith (master dataKey : SecretKey) (nonce aad : Bytes) : Bytes :=
  let cipher := Gcm.context master.material nonce
  let encrypted := cipher.crypt 0 dataKey.material
  nonce ++ encrypted ++ cipher.tag aad encrypted

def wrap (master dataKey : SecretKey) (aad : Bytes) : Attempt I Bytes :=
  if master.material.length ≠ 32 then throw (.key (.wrongLength master.material.length))
  else Attempt.always do return wrapWith master dataKey (← Program.secret nonceSize) aad

def unwrap (master : SecretKey) (blob aad : Bytes) : Except KeyFault SecretKey :=
  if master.material.length ≠ 32 then .error (.wrongLength master.material.length)
  else if blob.length < nonceSize + tagSize then .error (.blobTooShort blob.length)
  else
    let cipher := Gcm.context master.material (blob.take nonceSize)
    let encrypted := (blob.drop nonceSize).take (blob.length - nonceSize - tagSize)
    if cipher.tag aad encrypted = blob.drop (blob.length - tagSize) then
      .ok ⟨cipher.crypt 0 encrypted⟩
    else .error .notAuthentic

theorem length_wrapWith (master dataKey : SecretKey) (nonce aad : Bytes) (h : nonce.length = nonceSize) :
    (wrapWith master dataKey nonce aad).length = dataKey.material.length + 28 := by
  simp only [wrapWith, List.length_append, h, Gcm.length_tag, Gcm.length_crypt, nonceSize]
  omega

end SecretKey

/-! ## Content in pieces -/

namespace Gcm

/-- Prepares a cipher that encrypts content under a nonce of any usual length. -/
def encryptor (key : SecretKey) (nonce : Bytes) : Except Error Context :=
  match key.size? with
  | none => .error (.key (.wrongLength key.material.length))
  | some _ =>
    if nonce.length < 8 ∨ 128 < nonce.length then .error (.value .nonceLength)
    else .ok (context key.material nonce)

/-- Prepares a cipher that decrypts content; its nonce has 12 bytes. -/
def decryptor (key : SecretKey) (nonce : Bytes) : Except KeyFault Context :=
  match key.size? with
  | none => .error (.wrongLength key.material.length)
  | some _ =>
    if nonce.length ≠ nonceSize then .error (.wrongNonce nonce.length)
    else .ok (context key.material nonce)

def Context.cryptPieces (c : Context) : (start : Nat) → List Bytes → List Bytes
  | _, [] => []
  | start, p :: rest => c.crypt start p :: c.cryptPieces (start + p.length) rest

def Context.check (c : Context) (ciphertext tag : Bytes) : Except Error Unit :=
  if tag.length < tagSize then .error (.value .tagTooShort)
  else if tagSize < tag.length then .error (.value .tagTooLong)
  else if c.tag [] ciphertext = tag then .ok ()
  else .error .badTag

end Gcm

end SealedStore
