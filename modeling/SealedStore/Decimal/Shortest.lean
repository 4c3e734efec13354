import SealedStore.Decimal.Fixed
/-!
# The fewest decimals that read back

Of all decimal numbers that are nearer to a floating point number than to any
other, the text shows one with the fewest digits, and of those the nearest. It
is positional from 10⁻⁴ up to 10¹⁶ and has an exponent beyond.

What is proved:
  1. `inside_exact` — a number lies between its own bounds.
-/

namespace SealedStore.Decimal

/-- A positive number `digits * 10 ^ exponent`. -/
structure Scaled where
  digits : Nat
  exponent : Int
  deriving DecidableEq

/-- Two numbers `x` and `y`, such that `a * 10 ^ e` is to `num / den` as `a * x`
is to `y`. -/
def scaleBoth (e : Int) (num den : Nat) : Nat × Nat :=
  if 0 ≤ e then (tens e.toNat * den, num) else (den, num * tens (-e).toNat)

/-- The bounds of the numbers that are read as `b`, in quarters of the unit of
its mantissa, and whether they belong to it. -/
def Binary.bounds (b : Binary) : Nat × Nat × Bool :=
  let low := if b.mantissa = leadingBit && -1074 < b.exponent then 4 * b.mantissa - 1 else 4 * b.mantissa - 2
  (low, 4 * b.mantissa + 2, b.mantissa % 2 == 0)

/-- Whether a decimal number is read as `b`. -/
def Binary.reads (b : Binary) (s : Scaled) : Bool :=
  let (low, high, closed) := b.bounds
  let unit : Nat × Nat := (1 <<< b.exponent.toNat, 4 <<< (-b.exponent).toNat)
  let scaled (quarters : Nat) : Nat × Nat := scaleBoth s.exponent (quarters * unit.1) unit.2
  let (x, l) := scaled low
  let (_, h) := scaled high
  if closed then l ≤ s.digits * x && s.digits * x ≤ h else l < s.digits * x && s.digits * x < h

/-- The power of ten of the first digit of a quotient that is not zero. -/
def firstPower (num den : Nat) : Int :=
  let guess : Int := (Nat.toDigits 10 num).length - (Nat.toDigits 10 den).length
  let (x, y) := scaleBoth guess num den
  if x ≤ y then guess else guess - 1

/-- The decimal number with `count` digits that is nearest to `b` among those
that are read as `b`. -/
def Binary.withDigits? (b : Binary) (count : Nat) : Option Scaled :=
  let (num, den) := b.quotient
  let exponent := firstPower num den + 1 - count
  let (x, y) := scaleBoth exponent num den
  -- The nearest number may fall outside the bounds, on the side where they are closer.
  let near := roundHalfEven y x
  let other := if near * x ≤ y then near + 1 else near - 1
  [near, other].map (Scaled.mk · exponent) |>.find? b.reads

/-- The shortest decimal number that is read as `b`. -/
def Binary.shortest (b : Binary) : Scaled :=
  ((List.range' 1 17).findSome? b.withDigits?).getD ⟨b.mantissa, 0⟩

def trimZeros (digits : List Char) : List Char := (digits.reverse.dropWhile (· == '0')).reverse

def exponentText (e : Int) : String :=
  (if e < 0 then "e-" else "e+") ++ padLeft 2 '0' (toString e.natAbs)

def Scaled.text (s : Scaled) : String :=
  let all := Nat.toDigits 10 s.digits
  let digits := trimZeros all
  let point : Int := all.length + s.exponent
  if -4 < point && point ≤ 16 then
    if point ≤ 0 then "0." ++ String.ofList (List.replicate (-point).toNat '0' ++ digits)
    else
      let whole := digits.take point.toNat
      let rest := digits.drop point.toNat
      String.ofList (whole ++ List.replicate (point.toNat - whole.length) '0') ++ "." ++
        (if rest.isEmpty then "0" else String.ofList rest)
  else
    let fraction := digits.drop 1
    String.ofList (digits.take 1) ++ (if fraction.isEmpty then "" else "." ++ String.ofList fraction) ++
      exponentText (point - 1)

def Binary.shortestText (b : Binary) : String :=
  (if b.negative then "-" else "") ++ (if b.mantissa = 0 then "0.0" else b.shortest.text)

def shortest (x : Float) : String :=
  match classify x.toBits with
  | .finite b => b.shortestText
  | .infinite negative => infinityText negative
  | .undefined => undefinedText

theorem inside_exact (b : Binary) (h : 0 < b.mantissa) :
    b.bounds.1 < 4 * b.mantissa ∧ 4 * b.mantissa < b.bounds.2.1 := by
  unfold Binary.bounds
  constructor
  · simp only
    split <;> omega
  · simp only
    omega

end SealedStore.Decimal
