import SealedStore.Der
import SealedStore.Hash.Sha1
import SealedStore.Number.Prime
/-!
# RSA keys and OAEP

A private key with its public half, and encryption under the public half with
OAEP over SHA-256 with an empty label: a message is masked together with a
random seed before the modular power, so that decrypting anything that was not
so made is noticed.
-/

namespace SealedStore.Rsa
open Number (isPrime powMod)

/-- A private key: modulus, exponents, the two primes, and the values that
speed up decryption. -/
structure Key where
  modulus : Nat
  publicExponent : Nat
  privateExponent : Nat
  prime1 : Nat
  prime2 : Nat
  exponent1 : Nat
  exponent2 : Nat
  coefficient : Nat
  deriving DecidableEq

/-- The parts of a key belong together: the modulus is the product of two odd
primes, the exponents undo each other, and the other values follow. -/
def Key.Consistent (k : Key) : Prop :=
  k.prime1 % 2 = 1 ∧ k.prime2 % 2 = 1 ∧ k.modulus = k.prime1 * k.prime2 ∧
  1 < k.publicExponent ∧ k.publicExponent % 2 = 1 ∧
  k.publicExponent * k.privateExponent % (k.prime1 - 1).lcm (k.prime2 - 1) = 1 ∧
  k.exponent1 = k.privateExponent % (k.prime1 - 1) ∧
  k.exponent2 = k.privateExponent % (k.prime2 - 1) ∧
  k.coefficient < k.prime1 ∧ k.coefficient * k.prime2 % k.prime1 = 1 ∧
  isPrime k.prime1 = true ∧ isPrime k.prime2 = true

instance (k : Key) : Decidable k.Consistent := by unfold Key.Consistent; infer_instance

def Key.size (k : Key) : Nat := Bytes.widthOf k.modulus

/-! ## Public identity -/

def idRsa : Der.ObjectId := [1, 2, 840, 113549, 1, 1, 1]

def algorithm : Bytes := Der.sequence [Der.object idRsa, Der.null]

def Key.publicInfo (k : Key) : Bytes :=
  Der.sequence [algorithm,
    Der.bits (Der.sequence [Der.integer k.modulus, Der.integer k.publicExponent])]

def Key.fingerprint (k : Key) : String := Sha1.hex k.publicInfo

/-! ## OAEP -/

/-- A mask of `length` bytes grown from a seed. -/
def mask (seed : Bytes) (length : Nat) : Bytes :=
  ((List.range ((length + 31) / 32)).flatMap fun i =>
    Sha256.digest (seed ++ Bytes.ofNat 4 i)).take length

/-- The longest message a key encrypts. -/
def Key.capacity (k : Key) : Nat := k.size - 66

/-- The public exponent stays below the modulus, which has at most 16384 bits. A
modulus of more than 3072 bits takes exponents of at most 64. -/
def Key.SuitsEncryption (k : Key) : Prop :=
  k.publicExponent < k.modulus ∧ k.modulus.log2 < 16384 ∧
    (k.modulus.log2 < 3072 ∨ k.publicExponent.log2 < 64)

instance (k : Key) : Decidable k.SuitsEncryption := by unfold Key.SuitsEncryption; infer_instance

/-- Encrypts a message with a seed of 32 bytes; `none` if the key does not suit
encryption or the message is too long for it. -/
def Key.encrypt? (k : Key) (seed message : Bytes) : Option Bytes :=
  if k.size < 66 ∨ k.capacity < message.length ∨ ¬k.SuitsEncryption then none
  else
    let zeros := List.replicate (k.capacity - message.length) 0
    let data := Sha256.digest [] ++ zeros ++ 1 :: message
    let maskedData := Bytes.xor data (mask seed data.length)
    let maskedSeed := Bytes.xor seed (mask maskedData 32)
    let number := Bytes.toNat (maskedSeed ++ maskedData)
    some (Bytes.ofNat k.size (powMod number k.publicExponent k.modulus))

def unpad? (block : Bytes) : Option Bytes :=
  let maskedData := block.drop 32
  let seed := Bytes.xor (block.take 32) (mask maskedData 32)
  let data := Bytes.xor maskedData (mask seed maskedData.length)
  match (data.drop 32).dropWhile (· == 0) with
  | 1 :: message => if data.take 32 == Sha256.digest [] then some message else none
  | _ => none

/-- Decrypts a message; `none` if it was not made with this key's public half. -/
def Key.decrypt? (k : Key) (ciphertext : Bytes) : Option Bytes :=
  if k.size < 66 ∨ ciphertext.length ≠ k.size ∨ k.modulus ≤ Bytes.toNat ciphertext then none
  else
    match Bytes.ofNat k.size (powMod (Bytes.toNat ciphertext) k.privateExponent k.modulus) with
    | 0 :: block => unpad? block
    | _ => none

end SealedStore.Rsa
