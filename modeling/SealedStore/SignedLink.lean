import SealedStore.Decimal.Rounding
import SealedStore.Error
import SealedStore.Hash.Hmac
import SealedStore.Text.Base64
import SealedStore.Text.Percent
import SealedStore.Text.Upper
/-!
# Signed links

A link that lets its holder make one kind of request on one object until a
given second. The verb, the second and the escaped address are signed with a
secret key; the link shows everything but the secret and the verb.

What is proved:
  1. `inCalendar_iff` — the calendar ends where the year 1 begins and the year
     9999 is over.
  2. `expirySeconds_mul` — an instant on a full second expires in that second.
-/

namespace SealedStore

/-! ## Calendar -/

/-- The year that a day falls in, counted in days from the first of January
1970, in the proleptic Gregorian calendar. -/
def yearOfDay (day : Int) : Int :=
  let z := day + 719468
  let era := z.fdiv 146097
  let dayOfEra := z.fmod 146097
  let yearOfEra :=
    -- The leap days passed so far are taken out before years of 365 days are counted.
    (dayOfEra - dayOfEra.fdiv 1460 + dayOfEra.fdiv 36524 - dayOfEra.fdiv 146096).fdiv 365
  let dayOfYear := dayOfEra - (365 * yearOfEra + yearOfEra.fdiv 4 - yearOfEra.fdiv 100)
  yearOfEra + era * 400 + (if 306 ≤ dayOfYear then 1 else 0)

theorem yearOfDay_eq (day : Int) :
    ∃ era dayOfEra yearOfEra : Int,
      day + 719468 = 146097 * era + dayOfEra ∧ 0 ≤ dayOfEra ∧ dayOfEra < 146097 ∧
      yearOfEra = (dayOfEra - dayOfEra / 1460 + dayOfEra / 36524 - dayOfEra / 146096) / 365 ∧
      yearOfDay day = yearOfEra + era * 400 +
        (if 306 ≤ dayOfEra - (365 * yearOfEra + yearOfEra / 4 - yearOfEra / 100) then 1 else 0) := by
  have hdiv : ∀ a n : Int, 0 ≤ n → a.fdiv n = a / n := fun a _ h => Int.fdiv_eq_ediv_of_nonneg a h
  refine ⟨(day + 719468) / 146097, (day + 719468) % 146097, _, by omega, by omega, by omega, rfl, ?_⟩
  simp (disch := decide) only [yearOfDay, hdiv, Int.fmod_eq_emod_of_nonneg]

theorem one_le_yearOfDay_iff (day : Int) : 1 ≤ yearOfDay day ↔ -719162 ≤ day := by
  obtain ⟨era, dayOfEra, yearOfEra, hday, hpos, hlt, hyear, heq⟩ := yearOfDay_eq day
  rw [heq]
  -- Only in the era of the year 1 does the day decide.
  rcases Int.lt_trichotomy era 0 with hera | rfl | hera
  · omega
  · omega
  · omega

theorem yearOfDay_le_iff (day : Int) : yearOfDay day ≤ 9999 ↔ day ≤ 2932896 := by
  obtain ⟨era, dayOfEra, yearOfEra, hday, hpos, hlt, hyear, heq⟩ := yearOfDay_eq day
  rw [heq]
  rcases Int.lt_trichotomy era 24 with hera | rfl | hera
  · omega
  · omega
  · omega

/-- Microseconds from 1970 on, within the years of the calendar. -/
def inCalendar (micros : Int) : Bool :=
  let year := yearOfDay (micros.fdiv 86400000000)
  1 ≤ year && year ≤ 9999

theorem inCalendar_iff (micros : Int) :
    inCalendar micros = true ↔ -62135596800000000 ≤ micros ∧ micros < 253402300800000000 := by
  have hday : micros.fdiv 86400000000 = micros / 86400000000 := Int.fdiv_eq_ediv_of_nonneg _ (by decide)
  simp only [inCalendar, Bool.and_eq_true, decide_eq_true_eq, one_le_yearOfDay_iff, yearOfDay_le_iff, hday]
  omega

/-- What a clock shows, in microseconds from 1970 on. The clock is ahead of
universal time by its zone; without one it goes by the time of the machine,
which is not known near the ends of the calendar. -/
structure Moment where
  wall : Int
  ahead : Except ValueFault Int
  valid : inCalendar wall = true

/-- A moment in universal time, if the calendar has it there. -/
def Moment.instant (m : Moment) : Except Error Int := do
  let instant := m.wall - (← m.ahead.mapError .value)
  if inCalendar instant then return instant else throw (.overflow .date)

def fitsWord (bits : Nat) (n : Int) : Bool :=
  let bound : Nat := 1 <<< (bits - 1)
  n < bound && -(bound : Int) ≤ n

/-- A second of universal time, if the calendar has it. The second itself has
64 bits at most, and its year, counted from 1900, has 32. -/
def momentOfSecond (second : Int) : Except Error Moment :=
  let year := yearOfDay (second.fdiv 86400)
  if !fitsWord 64 second then .error (.overflow .instant)
  else if !fitsWord 32 (year - 1900) then .error (.io yearTooLarge)
  else if valid : inCalendar (second * 1000000) then
    .ok { wall := second * 1000000, ahead := .ok 0, valid }
  else .error (.value (.yearOutOfRange (year.bmod UInt32.size)))

/-- The moment so many seconds after another; seconds are kept as floating
point numbers. -/
def momentAfter (second lifetime : Int) : Except Error Moment :=
  match (Decimal.held? lifetime).bind fun l => Decimal.held? (second + l) with
  | some later => momentOfSecond later
  | none => .error (.overflow .integer)

/-! ## Requests -/

structure LinkSigner where
  endpoint : String
  accessKey : String
  secretKey : String

/-- A request for a link. -/
structure LinkRequest where
  method : String
  target : Identity
  expiration : Moment

namespace LinkRequest
open Decimal (roundHalfEven roundHalfEven_mul)

/-! ## The second -/

/-- The integer part of a quotient that is first rounded to 53 significant
bits, as long as the integer part itself has no more. -/
def wholePart (num den : Nat) : Nat :=
  let places := 52 - (num / den).log2
  -- One bit of the quotient stands for each place, so that 53 of them are left.
  roundHalfEven (num <<< places) den >>> places

/-- The second an instant falls in, counted towards 1970. -/
def expirySeconds (expiration : Int) : Int :=
  expiration.sign * wholePart expiration.natAbs 1000000

theorem wholePart_mul (n : Nat) {den : Nat} (h : 0 < den) : wholePart (n * den) den = n := by
  simp only [wholePart]
  rw [Nat.shiftLeft_eq, Nat.mul_right_comm, roundHalfEven_mul _ h, Nat.shiftRight_eq_div_pow]
  exact Nat.mul_div_cancel _ (Nat.two_pow_pos _)

theorem expirySeconds_mul (seconds : Int) : expirySeconds (seconds * 1000000) = seconds := by
  have hs : (seconds * 1000000).sign = seconds.sign := by
    rw [Int.sign_mul]
    exact Int.mul_one _
  have ha : (seconds * 1000000).natAbs = seconds.natAbs * 1000000 := by
    rw [Int.natAbs_mul]
    rfl
  rw [expirySeconds, hs, ha, wholePart_mul _ (by omega), Int.sign_mul_natAbs]

/-! ## The link -/

def resource (r : LinkRequest) : String :=
  "/" ++ r.target.bucket ++ "/" ++ Percent.encodePath r.target.key

/-- The text that is signed. -/
def signedText (r : LinkRequest) (second : Int) : String :=
  Text.upper r.method ++ "\n\n\n" ++ toString second ++ "\n" ++ r.resource

def signature (s : LinkSigner) (r : LinkRequest) (second : Int) : String :=
  Base64.encode (hmac .sha1 (Bytes.ofText s.secretKey) (Bytes.ofText (r.signedText second)))

def parameters (s : LinkSigner) (r : LinkRequest) (second : Int) : List (String × String) :=
  [("AWSAccessKeyId", s.accessKey), ("Expires", toString second), ("Signature", r.signature s second)]

def linkUntil (s : LinkSigner) (r : LinkRequest) (second : Int) : String :=
  s.endpoint ++ r.resource ++ "?" ++ Percent.query (r.parameters s second)

/-- The second in which the link expires. -/
def second (r : LinkRequest) : Except Error Int := r.expiration.instant.map expirySeconds

/-- The signed link. -/
def link (s : LinkSigner) (r : LinkRequest) : Except Error String := r.second.map (r.linkUntil s)

end LinkRequest

end SealedStore
