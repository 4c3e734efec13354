import SealedStore.Program
import SealedStore.Rsa.Key
/-!
# Making RSA keys

Primes are found by drawing odd numbers of the right length until one is prime.
A key is made of two primes of equal length, so that the modulus has twice that
length.

What is proved:
  1. `consistent_ofPrimes` — the parts of a key that is made belong together.
-/

namespace SealedStore.Rsa
open Number (inverse isPrime)

/-! ## Primes -/

/-- An odd number with the two highest of its bits set. -/
def candidate (b : Bytes) : Nat :=
  let quarter := 1 <<< (8 * b.length - 2)
  let n := Bytes.toNat b % quarter + 3 * quarter
  if n % 2 = 0 then n + 1 else n

variable {I : Interface}

def findPrime? (size : Nat) : (tries : Nat) → Program I (Option Nat)
  | 0 => return none
  | tries + 1 => do
    let n := candidate (← Program.secret size)
    if isPrime n then return some n else findPrime? size tries

/-! ## Keys -/

def usualExponent : Nat := 65537

/-- The key of two primes, if the public exponent suits them. -/
def Key.ofPrimes? (p q : Nat) : Option Key :=
  let d := inverse usualExponent ((p - 1) * (q - 1))
  let key : Key := {
    modulus := p * q, publicExponent := usualExponent, privateExponent := d, prime1 := p, prime2 := q
    exponent1 := d % (p - 1), exponent2 := d % (q - 1), coefficient := inverse q p }
  if p ≠ q ∧ key.Consistent then some key else none

theorem consistent_ofPrimes {p q : Nat} {k : Key} (h : Key.ofPrimes? p q = some k) : k.Consistent := by
  unfold Key.ofPrimes? at h
  dsimp only at h
  split at h
  · next hc => exact Option.some.inj h ▸ hc.2
  · cases h

def usualSize : Nat := 256

def generate? : (tries : Nat) → Program I (Option Key)
  | 0 => return none
  | tries + 1 => do
    match ← findPrime? (usualSize / 2) 100000, ← findPrime? (usualSize / 2) 100000 with
    | some p, some q =>
      match Key.ofPrimes? p q with
      | some key => return some key
      | none => generate? tries
    | _, _ => return none

end SealedStore.Rsa
