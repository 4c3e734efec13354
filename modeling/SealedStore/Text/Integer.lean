import SealedStore.Text.Blank
import SealedStore.Text.Digit
import SealedStore.Text.Quoted
/-!
# Reading decimal integers

An integer is an optional sign and digits of any script, with single
underscores allowed between digits and blanks allowed around the whole. A text
of ASCII characters only admits ASCII blanks; the information separators are
never admitted. At most 4300 digits are read.
-/

namespace SealedStore.Integer

inductive Fault where
  | notInteger (text : String)
  | tooManyDigits (count : Nat)
  deriving DecidableEq

def Fault.message : Fault → String
  | .notInteger text =>
    "invalid literal for int() with base 10: " ++ ((Text.quoted text).take 200).toString
  | .tooManyDigits count =>
    s!"Exceeds the limit (4300 digits) for integer string conversion: value has {count} digits; " ++
      "use sys.set_int_max_str_digits() to increase the limit"

/-- The most digits that are read. -/
def maxDigits : Nat := 4300

def isSpace (c : Char) : Bool := c == ' ' || (9 ≤ c.toNat && c.toNat ≤ 13)

/-- The ASCII character that a character of any script counts as. -/
def fold (c : Char) : Char :=
  if c.toNat < 127 then c
  else if Text.isBlank c then ' '
  else match Text.digitValue? c with
    | some d => Char.ofNat (48 + d)
    | none => '?'

/-- Removes a sign and says whether it was a minus. -/
def splitSign : List Char → Bool × List Char
  | '+' :: rest => (false, rest)
  | '-' :: rest => (true, rest)
  | rest => (false, rest)

def isDigitOrBar (c : Char) : Bool := c.isDigit || c == '_'

/-- Whether every underscore of a run stands between two digits. -/
def barsBetweenDigits : (afterDigit : Bool) → List Char → Bool
  | afterDigit, [] => afterDigit
  | afterDigit, c :: rest =>
    if c = '_' then afterDigit && barsBetweenDigits false rest else barsBetweenDigits true rest

def value (run : List Char) : Nat :=
  (run.filter Char.isDigit).foldl (fun n c => n * 10 + (c.toNat - 48)) 0

def read (text : String) : Except Fault Int :=
  let (negative, unsigned) := splitSign ((text.toList.map fold).dropWhile isSpace)
  let run := unsigned.takeWhile isDigitOrBar
  let rest := unsigned.dropWhile isDigitOrBar
  let digits := (run.filter Char.isDigit).length
  -- Digits are counted before what follows them is looked at.
  if !barsBetweenDigits false run then .error (.notInteger text)
  else if digits > maxDigits then .error (.tooManyDigits digits)
  else if !rest.all isSpace then .error (.notInteger text)
  else .ok (if negative then -(value run : Int) else value run)

end SealedStore.Integer
