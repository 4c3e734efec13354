import SealedStore.Decimal.Binary
import SealedStore.Decimal.Rounding
/-!
# A fixed number of decimals

The exact value of a floating point number, rounded to a number of decimals; a
half goes to the even neighbour. The sign of a zero is kept.
-/

namespace SealedStore.Decimal

def padLeft (width : Nat) (c : Char) (s : String) : String :=
  String.ofList (List.replicate (width - s.length) c ++ s.toList)

/-- A number of units of the last decimal as text. -/
def fixedDigits (places units : Nat) : String :=
  if places = 0 then toString units
  else toString (units / tens places) ++ "." ++ padLeft places '0' (toString (units % tens places))

def Binary.fixed (b : Binary) (places : Nat) : String :=
  let (num, den) := b.quotient
  (if b.negative then "-" else "") ++ fixedDigits places (roundHalfEven (num * tens places) den)

def fixed (places : Nat) (x : Float) : String :=
  match classify x.toBits with
  | .finite b => b.fixed places
  | .infinite negative => infinityText negative
  | .undefined => undefinedText

end SealedStore.Decimal
