import SealedStore.Bytes
/-!
# Numbers with a binary exponent

A finite floating point number is a mantissa times a power of two. Its text in
decimals is worked out from these two numbers alone.

What is proved:
  1. `mantissa_lt` — a mantissa has at most 53 bits.
-/

namespace SealedStore.Decimal

/-- A number `mantissa * 2 ^ exponent` with a sign. -/
structure Binary where
  negative : Bool
  mantissa : Nat
  exponent : Int
  deriving DecidableEq

inductive Class where
  | finite (value : Binary)
  | infinite (negative : Bool)
  | undefined
  deriving DecidableEq

/-- The bit in front of a mantissa, which is not written. -/
def leadingBit : Nat := 1 <<< 52

/-- Takes the bits of a floating point number apart. -/
def classify (bits : UInt64) : Class :=
  let n : Nat := bits.toNat
  let negative : Bool := n / leadingBit / 2048 == 1
  let biased : Nat := n / leadingBit % 2048
  let fraction : Nat := n % leadingBit
  if biased = 2047 then (if fraction = 0 then .infinite negative else .undefined)
  else if biased = 0 then .finite ⟨negative, fraction, -1074⟩
  else .finite ⟨negative, leadingBit + fraction, (biased : Int) - 1075⟩

theorem mantissa_lt {bits : UInt64} {b : Binary} (h : classify bits = .finite b) :
    b.mantissa < 2 * leadingBit := by
  unfold classify at h
  have hf : bits.toNat % leadingBit < leadingBit := Nat.mod_lt _ (by decide)
  dsimp only at h
  split at h
  · split at h <;> cases h
  · split at h
    · cases h
      show bits.toNat % leadingBit < 2 * leadingBit
      omega
    · cases h
      show leadingBit + bits.toNat % leadingBit < 2 * leadingBit
      omega

def Binary.quotient (b : Binary) : Nat × Nat :=
  (b.mantissa <<< b.exponent.toNat, 1 <<< (-b.exponent).toNat)

def infinityText (negative : Bool) : String := if negative then "-inf" else "inf"

def undefinedText : String := "nan"

end SealedStore.Decimal
