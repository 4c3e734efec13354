import SealedStore.Text.Blank
import SealedStore.Text.Quoted
/-!
# Raw texts

A text from outside is a row of bytes that is read as UTF-8. A byte that belongs
to no character stays in the text as a stray, and so the bytes can be given back.
But a text with strays has no encoding of its own.

What is proved:
  1. `RawText.toText_ofText`, `RawText.eq_ofText_of_toText` — the texts without
     strays are the texts.
  2. `RawText.encode_ofText`, `RawText.encode_stray` — they have an encoding, and
     the others have none.
-/

namespace SealedStore

/-- A character, or a byte from 128 on that belongs to none. -/
inductive Sign where
  | char (c : Char)
  | stray (low : Fin 128)
  deriving DecidableEq

/-- A text that may have strays. -/
abbrev RawText := List Sign

namespace Sign

def char? : Sign → Option Char
  | .char c => some c
  | .stray _ => none

def isChar (s : Sign) : Bool := s.char?.isSome

def isBlank : Sign → Bool
  | .char c => Text.isBlank c
  | .stray _ => false

def size : Sign → Nat
  | .char c => c.utf8Size
  | .stray _ => 1

def escaped (low : Fin 128) : List Char := '\\' :: 'u' :: Text.hexDigits 4 (0xdc80 + low)

def quoted (quote : Char) : Sign → List Char
  | .char c => Text.quotedChar quote c
  | .stray low => escaped low

end Sign

namespace RawText

/-- Why a text has no encoding: its first run of strays reaches from `first` to
`last` and starts with `low`. -/
structure Unencodable where
  low : Fin 128
  first : Nat
  last : Nat
  deriving DecidableEq

def Unencodable.message (fault : Unencodable) : String :=
  let first := fault.first
  let last := fault.last
  if first = last then
    "'utf-8' codec can't encode character '" ++ String.ofList (Sign.escaped fault.low) ++
      s!"' in position {first}: surrogates not allowed"
  else s!"'utf-8' codec can't encode characters in position {first}-{last}: surrogates not allowed"

def ofText (s : String) : RawText := s.toList.map .char

/-- The characters, if there are no strays behind so many signs. -/
def chars (before : Nat) : RawText → Except Unencodable (List Char)
  | [] => .ok []
  | .char c :: rest => (chars (before + 1) rest).map (c :: ·)
  -- The run that is refused ends before the next character.
  | .stray low :: rest =>
    .error { low, first := before, last := before + (rest.takeWhile (!·.isChar)).length }

/-- The text, if there are no strays. -/
def toText (s : RawText) : Except Unencodable String := (s.chars 0).map String.ofList

def encode (s : RawText) : Except Unencodable Bytes := s.toText.map Bytes.ofText

def size : RawText → Nat
  | [] => 0
  | sign :: rest => sign.size + size rest

def trim (s : RawText) : RawText := Text.trimBy Sign.isBlank s

/-! ## In messages -/

/-- The text with a mark in the place of strays. -/
def shown (s : RawText) : String := String.ofList (s.map fun sign => sign.char?.getD '\ufffd')

def quoted (s : RawText) : String :=
  let q := Text.quoteOf (s.filterMap Sign.char?)
  String.ofList (q :: s.flatMap (Sign.quoted q) ++ [q])

/-! ## Texts without strays -/

theorem chars_map_char (l : List Char) (before : Nat) : chars before (l.map .char) = .ok l := by
  induction l generalizing before with
  | nil => rfl
  | cons c rest ih =>
    rw [List.map_cons, chars, ih]
    rfl

theorem eq_map_char_of_chars {s : RawText} {before : Nat} {l : List Char} (h : s.chars before = .ok l) :
    s = l.map .char := by
  induction s generalizing before l with
  | nil =>
    obtain rfl := Except.ok.inj h
    rfl
  | cons sign rest ih =>
    cases sign with
    | stray low => cases h
    | char c =>
      rw [chars] at h
      cases hrest : chars (before + 1) rest with
      | error fault =>
        rw [hrest] at h
        cases h
      | ok found =>
        rw [hrest] at h
        obtain rfl := Except.ok.inj h
        rw [List.map_cons, ← ih hrest]

theorem toText_ofText (s : String) : (ofText s).toText = .ok s := by
  rw [toText, ofText, chars_map_char]
  exact congrArg Except.ok String.ofList_toList

theorem eq_ofText_of_toText {s : RawText} {text : String} (h : s.toText = .ok text) : s = ofText text := by
  unfold toText at h
  cases hchars : s.chars 0 with
  | error fault =>
    rw [hchars] at h
    cases h
  | ok l =>
    rw [hchars] at h
    obtain rfl := Except.ok.inj h
    rw [ofText, String.toList_ofList]
    exact eq_map_char_of_chars hchars

theorem encode_ofText (s : String) : (ofText s).encode = .ok (Bytes.ofText s) := by
  rw [encode, toText_ofText]
  rfl

theorem encode_stray {s : RawText} (h : ∀ text, s ≠ ofText text) : ∃ fault, s.encode = .error fault := by
  unfold encode
  cases htext : s.toText with
  | ok text => exact absurd (eq_ofText_of_toText htext) (h text)
  | error fault => exact ⟨fault, rfl⟩

end RawText

end SealedStore
