import SealedStore.Decimal.Fixed
import SealedStore.Error
/-!
# The benchmark's report

The texts a benchmark prints: banners, measured times and rates, and a table
of rates at the end. A rate is a count over a duration that is at least a
nanosecond.
-/

namespace SealedStore.Benchmark

/-! ## Measures -/

/-- Durations count as this many seconds at least. -/
def leastDuration : Float := 1e-9

def rate (count : Int) (duration : Float) : Except Error Float :=
  match Decimal.held? count with
  | some total => .ok (Float.ofInt total / (if duration < leastDuration then leastDuration else duration))
  | none => .error (.overflow .integer)

structure Rates where
  write : Float
  read : Float
  rekey : Float

def Rates.entries (r : Rates) : List (String × Float) :=
  [("write", r.write), ("read", r.read), ("rekey", r.rekey)]

def milliseconds (duration : Float) : String := Decimal.fixed 3 (duration * 1000) ++ "ms"

def rateText (r : Float) : String := Decimal.fixed 2 r ++ " ops/sec"

/-! ## Lines -/

def row (n : Nat) (c : Char) : String := String.ofList (List.replicate n c)

def padRight (width : Nat) (s : String) : String := s ++ row (width - s.length) ' '

def banner (title : String) : List String :=
  let edge := "+" ++ row 68 '-' ++ "+"
  [edge, "|  " ++ padRight 66 title ++ "|", edge]

def heading (title : String) : List String :=
  [row 70 '=', row 20 ' ' ++ title, row 70 '=', ""]

def performance (duration : Float) (r : Float) : List String :=
  ["[PERF] Time: " ++ milliseconds duration ++ " | Rate: " ++ rateText r, ""]

def tableRow (entry : String × Float) : String :=
  let number := Decimal.fixed 2 entry.2
  "|  " ++ padRight 18 (entry.1.capitalize ++ ":") ++ number ++ " ops/sec" ++
    row (38 - number.length) ' ' ++ "|"

def table (r : Rates) : List String :=
  let blank := "|" ++ row 68 ' ' ++ "|"
  ["", "+- Performance Summary " ++ row 45 '-' ++ "+", blank] ++ r.entries.map tableRow ++
    [blank, "+" ++ row 68 '-' ++ "+"]

def configuration (count : Int) (bits : Nat) : List String :=
  ["", "Test Configuration:", s!"  - Total objects tested: {count}",
    s!"  - Crypto: AES-{bits}-GCM content, RSA-OAEP wrapped keys",
    "  - Write path: PUT temp -> COPY final -> DELETE temp", ""]

end SealedStore.Benchmark
