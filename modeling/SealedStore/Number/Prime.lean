import SealedStore.Hash.Sha256
import SealedStore.Number.Modular
/-!
# Primes

Whether a number is prime is decided by small divisors and by the test of
Miller and Rabin. The bases of the test are digests of the number, so that the
answer depends on the number alone and yet no list of bases is known to pass
that a composite number could be made for.

What is proved:
  1. `isPrime_eq_false_of_dvd` — a multiple of a small prime is no prime, unless
     it is small itself.
-/

namespace SealedStore.Number

/-- The largest odd divisor, and how often two divides. -/
def splitTwos (n : Nat) : Nat × Nat :=
  if _h : n ≠ 0 ∧ n % 2 = 0 then
    let (odd, twos) := splitTwos (n / 2)
    (odd, twos + 1)
  else (n, 0)
termination_by n
decreasing_by omega

/-- Whether an odd number passes the test of Miller and Rabin for a base. -/
def passes (n base : Nat) : Bool :=
  let (odd, twos) := splitTwos (n - 1)
  let first := powMod base odd n
  first == 1 || ((List.range twos).foldl (fun acc _ => (acc.1 || acc.2 == n - 1, acc.2 * acc.2 % n))
    (false, first)).1

def smallPrimes : List Nat := [
  2, 3, 5, 7, 11, 13, 17, 19, 23, 29, 31, 37, 41, 43, 47, 53, 59, 61, 67, 71, 73, 79, 83, 89, 97]

def baseCount : Nat := 8

/-- A base between two and the number less two. -/
def base (n i : Nat) : Nat :=
  Bytes.toNat (Sha256.digest (Bytes.ofNat (Bytes.widthOf n) n ++ [UInt8.ofNat i])) % (n - 3) + 2

/-- Whether a number is prime, but for a negligible share of composite ones. -/
def isPrime (n : Nat) : Bool :=
  if n ≤ 97 then smallPrimes.contains n
  else smallPrimes.all (fun p => n % p != 0) && (List.range baseCount).all fun i => passes n (base n i)

theorem isPrime_eq_false_of_dvd {n p : Nat} (hp : p ∈ smallPrimes) (hn : 97 < n) (h : n % p = 0) :
    isPrime n = false := by
  have hs : (smallPrimes.all fun p => n % p != 0) = false := by
    rw [List.all_eq_false]
    exact ⟨p, hp, by simp [h]⟩
  simp [isPrime, Nat.not_le.mpr hn, hs]

end SealedStore.Number
