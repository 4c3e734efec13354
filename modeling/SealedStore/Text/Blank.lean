/-!
# Blank characters

The characters that trimming removes: white space of every kind, the four
information separators included.
-/

namespace SealedStore.Text

def blanks : List Nat := [
  9, 10, 11, 12, 13, 28, 29, 30, 31, 32, 133, 160, 5760, 8192, 8193, 8194, 8195, 8196, 8197, 8198,
  8199, 8200, 8201, 8202, 8232, 8233, 8239, 8287, 12288]

def isBlank (c : Char) : Bool := blanks.contains c.toNat

/-- White space alone, without the information separators. -/
def isSpace (c : Char) : Bool := isBlank c && !(28 ≤ c.toNat && c.toNat ≤ 31)

/-- A text without the signs of a class at its two ends. -/
def trimBy {α : Type} (inClass : α → Bool) (s : List α) : List α :=
  ((s.dropWhile inClass).reverse.dropWhile inClass).reverse

def trim (s : List Char) : List Char := trimBy isBlank s

end SealedStore.Text
