import SealedStore.Bytes
import SealedStore.Text.Printable
/-!
# Quoted text

The form in which messages show a text a caller supplied: between quotes, with
a backslash in front of the quote and of itself, and with every character that
does not stand for itself written by its number. A text that holds an
apostrophe and no double quote stands between double quotes, any other between
apostrophes.
-/

namespace SealedStore.Text

/-- `width` lower-case hexadecimal digits. -/
def hexDigits (width n : Nat) : List Char :=
  (List.range width).map fun i => Bytes.hexDigit (n >>> (4 * (width - 1 - i)) % 16)

def quotedChar (quote c : Char) : List Char :=
  if c = quote ∨ c = '\\' then ['\\', c]
  else if c = '\n' then ['\\', 'n']
  else if c = '\r' then ['\\', 'r']
  else if c = '\t' then ['\\', 't']
  else if isPrintable c then [c]
  else if c.toNat < 0x100 then '\\' :: 'x' :: hexDigits 2 c.toNat
  else if c.toNat < 0x10000 then '\\' :: 'u' :: hexDigits 4 c.toNat
  else '\\' :: 'U' :: hexDigits 8 c.toNat

def quoteOf (s : List Char) : Char := if '\'' ∈ s ∧ '"' ∉ s then '"' else '\''

def quoted (s : String) : String :=
  let q := quoteOf s.toList
  String.ofList (q :: s.toList.flatMap (quotedChar q) ++ [q])

end SealedStore.Text
