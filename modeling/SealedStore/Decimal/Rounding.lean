import SealedStore.Bytes
/-!
# Rounding quotients

What is proved:
  1. `roundHalfEven_mul` — an exact quotient is not changed.
  2. `roundHalfEven_near` — the rounded quotient is within half a unit.
  3. `significant_of_log2_lt` — a number with few enough bits is not changed.
-/

namespace SealedStore.Decimal

def roundHalfEven (num den : Nat) : Nat :=
  let q := num / den
  let twice := 2 * (num % den)
  if den < twice ∨ (twice = den ∧ q % 2 = 1) then q + 1 else q

theorem roundHalfEven_mul (n : Nat) {den : Nat} (h : 0 < den) : roundHalfEven (n * den) den = n := by
  simp only [roundHalfEven, Nat.mul_div_cancel _ h, Nat.mul_mod_left]
  have : ¬ (den < 2 * 0 ∨ 2 * 0 = den ∧ n % 2 = 1) := by omega
  rw [if_neg this]

theorem roundHalfEven_near (num : Nat) {den : Nat} (h : 0 < den) :
    2 * num ≤ 2 * (roundHalfEven num den * den) + den ∧
      2 * (roundHalfEven num den * den) ≤ 2 * num + den := by
  have hd : num / den * den + num % den = num := Nat.div_add_mod' num den
  have hm : num % den < den := Nat.mod_lt _ h
  unfold roundHalfEven
  dsimp only
  split
  · next hc =>
    rw [Nat.add_mul, Nat.one_mul]
    constructor <;> omega
  · next hc => constructor <;> omega

/-- The nearest number with at most so many significant bits, a half to the
even one. -/
def significant (bits n : Nat) : Nat :=
  let unit := 1 <<< (n.log2 + 1 - bits)
  roundHalfEven n unit * unit

theorem significant_of_log2_lt {bits n : Nat} (h : n.log2 < bits) : significant bits n = n := by
  have hz : n.log2 + 1 - bits = 0 := by omega
  have hr := roundHalfEven_mul n Nat.one_pos
  rw [Nat.mul_one] at hr
  rw [significant, hz, Nat.shiftLeft_zero, hr, Nat.mul_one]

/-- A one with so many zeros in decimals. -/
def tens (places : Nat) : Nat := Nat.pow 10 places

def precision : Nat := 53

/-- The integer that a floating point number holds in place of `n`, unless that
is too large for one. -/
def held? (n : Int) : Option Int :=
  let size := significant precision n.natAbs
  if size < 1 <<< 1024 then some (n.sign * size) else none

end SealedStore.Decimal
