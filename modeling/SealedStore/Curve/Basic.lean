import SealedStore.Bytes
import SealedStore.Number.Modular
/-!
# Elliptic curves

Points with two coordinates in a finite field form a group, in which a secret
number times a base point is the public half of a key. The field has a prime
number of elements, or its elements are polynomials over the two bits, written
as numbers.

What is proved:
  1. `add_zero`, `zero_add` — the point at infinity changes nothing.
  2. `times_add_self` — twice a number of times is the double of so many times.
-/

namespace SealedStore.Curve

/-! ## Coordinates -/

/-- The field of the coordinates: the remainders modulo a prime, or those modulo
an irreducible polynomial over the two bits. -/
inductive Coordinates where
  | prime (p : Nat)
  | binary (polynomial : Nat)
  deriving DecidableEq

namespace Coordinates

/-- The product of polynomials, by the bits of the second from the top. -/
def productModulo (polynomial x y : Nat) : Nat :=
  (List.range (y.log2 + 1)).reverse.foldl (fun acc i =>
    let double := acc <<< 1
    let reduced := if double.testBit polynomial.log2 then double ^^^ polynomial else double
    if y.testBit i then reduced ^^^ x else reduced) 0

/-- What makes `u` into one, given that `g` times the element is `u` and `h`
times it is `v`: the longer of `u` and `v` is shortened by the other. -/
def invertFrom : (fuel u v g h : Nat) → Nat
  | 0, _, _, g, _ => g
  | fuel + 1, u, v, g, h =>
    if u ≤ 1 then g
    else if u.log2 < v.log2 then invertFrom fuel v u h g
    else
      let n := u.log2 - v.log2
      invertFrom fuel (u ^^^ v <<< n) v (g ^^^ h <<< n) h

def add : Coordinates → Nat → Nat → Nat
  | prime p, x, y => (x + y) % p
  | binary _, x, y => x ^^^ y

def sub : Coordinates → Nat → Nat → Nat
  | prime p, x, y => (x + (p - y)) % p
  | binary _, x, y => x ^^^ y

def mul : Coordinates → Nat → Nat → Nat
  | prime p, x, y => x * y % p
  | binary f, x, y => productModulo f x y

def div (k : Coordinates) (x y : Nat) : Nat :=
  match k with
  | prime p => x * Number.inverse y p % p
  | binary f => productModulo f x (invertFrom (4 * f.log2) y f 1 0)

def width : Coordinates → Nat
  | prime p => Bytes.widthOf p
  | binary f => (f.log2 + 7) / 8

end Coordinates

/-! ## Points -/

/-- A point: two coordinates, or the point at infinity. -/
inductive Point where
  | infinity
  | affine (x y : Nat)
  deriving DecidableEq

end Curve

/-- A curve: y² = x³ + ax + b over a prime field, y² + xy = x³ + ax² + b over a
binary one; a base point, and how often it is added up to come to infinity. -/
structure Curve where
  coordinates : Curve.Coordinates
  a : Nat
  b : Nat
  baseX : Nat
  baseY : Nat
  order : Nat

namespace Curve

def base (c : Curve) : Point := .affine c.baseX c.baseY

/-- Whether a point lies on the curve. -/
def contains (c : Curve) : Point → Bool
  | .infinity => true
  | .affine x y =>
    let k := c.coordinates
    let square := k.mul x x
    match k with
    | .prime _ => k.mul y y == k.add (k.add (k.mul square x) (k.mul c.a x)) c.b
    | .binary _ =>
      k.add (k.mul y y) (k.mul x y) == k.add (k.add (k.mul square x) (k.mul c.a square)) c.b

/-- The slope of the line through two points, or of the tangent at a point. A
line that meets infinity has none. -/
def slope? (c : Curve) (x₁ y₁ x₂ y₂ : Nat) : Option Nat :=
  let k := c.coordinates
  if x₁ ≠ x₂ then some (k.div (k.sub y₂ y₁) (k.sub x₂ x₁))
  else if y₁ ≠ y₂ then none
  else match k with
    | .prime _ =>
      if y₁ = 0 then none
      else
        let square := k.mul x₁ x₁
        some (k.div (k.add (k.add square (k.add square square)) c.a) (k.add y₁ y₁))
    | .binary _ => if x₁ = 0 then none else some (k.add x₁ (k.div y₁ x₁))

/-- The sum of two points: the third point of their line, reflected. -/
def add (c : Curve) : Point → Point → Point
  | .infinity, q => q
  | p, .infinity => p
  | .affine x₁ y₁, .affine x₂ y₂ =>
    match c.slope? x₁ y₁ x₂ y₂ with
    | none => .infinity
    | some s =>
      let k := c.coordinates
      match k with
      | .prime _ =>
        let x := k.sub (k.sub (k.mul s s) x₁) x₂
        .affine x (k.sub (k.mul s (k.sub x₁ x)) y₁)
      | .binary _ =>
        let x := k.add (k.add (k.mul s s) s) (k.add (k.add x₁ x₂) c.a)
        .affine x (k.add (k.add (k.mul s (k.add x₁ x)) x) y₁)

theorem zero_add (c : Curve) (p : Point) : c.add .infinity p = p := rfl

theorem add_zero (c : Curve) (p : Point) : c.add p .infinity = p := by
  cases p <;> rfl

def times (c : Curve) (n : Nat) (p : Point) : Point :=
  if _h : n = 0 then .infinity
  else
    let half := c.times (n / 2) p
    let twice := c.add half half
    if n % 2 = 1 then c.add twice p else twice
termination_by n
decreasing_by omega

theorem times_add_self (c : Curve) {n : Nat} (h : 0 < n) (p : Point) :
    c.times (2 * n) p = c.add (c.times n p) (c.times n p) := by
  rw [times, dif_neg (by omega)]
  simp

/-! ## Encodings -/

/-- The bit that tells a point from its reflection. -/
def sign (c : Curve) (x y : Nat) : Nat :=
  match c.coordinates with
  | .prime _ => y % 2
  | .binary _ => if x = 0 then 0 else c.coordinates.div y x % 2

/-- The byte strings that stand for a point with coordinates: both of them, the
first with the sign, or both with the sign. -/
def encodings (c : Curve) (x y : Nat) : List Bytes :=
  let write := Bytes.ofNat c.coordinates.width
  let mark (form : Nat) := UInt8.ofNat (form + c.sign x y)
  [4 :: write x ++ write y, mark 2 :: write x, mark 6 :: write x ++ write y]

/-! ## Keys -/

/-- The public half of a secret number: a number below the order, but not zero. -/
def public? (c : Curve) (secret : Nat) : Option (Nat × Nat) :=
  if secret = 0 ∨ c.order ≤ secret then none
  else match c.times secret c.base with
    | .infinity => none
    | .affine x y => some (x, y)

end Curve

end SealedStore
