import SealedStore.Bytes
/-!
# Percent-encoding

A text in a link is its UTF-8 bytes, with every byte that is not one of the
admitted characters written as a percent sign and two upper-case hexadecimal
digits. A path admits the slash, a query does not and writes a space as a plus
sign.
-/

namespace SealedStore.Percent

/-- Letters, digits and the four marks that are never written by number. -/
def isUnreserved (b : UInt8) : Bool :=
  let c := Char.ofNat b.toNat
  c.isAlphanum || c == '_' || c == '.' || c == '-' || c == '~'

def escape (b : UInt8) : List Char :=
  '%' :: [b.toNat / 16, b.toNat % 16].map fun n => (Bytes.hexDigit n).toUpper

def pathByte (b : UInt8) : List Char :=
  if isUnreserved b || b == 47 then [Char.ofNat b.toNat] else escape b

def queryByte (b : UInt8) : List Char :=
  if isUnreserved b then [Char.ofNat b.toNat] else if b == 32 then ['+'] else escape b

def encodePath (s : String) : String := String.ofList ((Bytes.ofText s).flatMap pathByte)

def encodeQuery (s : String) : String := String.ofList ((Bytes.ofText s).flatMap queryByte)

def query (entries : List (String × String)) : String :=
  "&".intercalate (entries.map fun e => encodeQuery e.1 ++ "=" ++ encodeQuery e.2)

end SealedStore.Percent
