import SealedStore.Bytes
/-!
# Powers and inverses modulo a number

What keys of all kinds compute with.

What is proved:
  1. `powMod_eq` — a modular power is the remainder of the power.
-/

namespace SealedStore.Number

/-! ## Powers -/

/-- The power of `base` modulo `m`: the base times the square of the power
whose exponent is half as large. -/
def powMod (base exponent m : Nat) : Nat :=
  if _h : exponent = 0 then 1 % m
  else
    let root := powMod base (exponent / 2) m
    let square := root * root % m
    if exponent % 2 = 1 then square * base % m else square
termination_by exponent
decreasing_by omega

theorem powMod_eq (base exponent m : Nat) : powMod base exponent m = Nat.pow base exponent % m := by
  induction exponent using Nat.strongRecOn with
  | ind e ih =>
    rw [powMod]
    split
    · next h => simp [h]
    · next h =>
      have half : Nat.pow base (e / 2) * Nat.pow base (e / 2) = Nat.pow base (2 * (e / 2)) := by
        rw [Nat.two_mul]
        exact (Nat.pow_add ..).symm
      simp only [ih (e / 2) (by omega), ← Nat.mul_mod, half]
      split
      · have hodd : 2 * (e / 2) + 1 = e := by omega
        have hsucc : Nat.pow base (2 * (e / 2)) * base = Nat.pow base (2 * (e / 2) + 1) := rfl
        rw [Nat.mod_mul_mod, hsucc, hodd]
      · congr 2
        omega

/-! ## Inverses -/

/-- The coefficient of the second number in the greatest common divisor. -/
def bezout (r₀ r₁ : Nat) (s₀ s₁ : Int) : Int :=
  match r₁ with
  | 0 => s₀
  | r + 1 => bezout (r + 1) (r₀ % (r + 1)) s₁ (s₀ - (r₀ / (r + 1) : Nat) * s₁)
termination_by r₁
decreasing_by exact Nat.mod_lt _ (Nat.succ_pos r)

/-- The inverse of a number modulo another, if there is one. -/
def inverse (a m : Nat) : Nat := ((bezout m (a % m) 0 1) % m).toNat

end SealedStore.Number
