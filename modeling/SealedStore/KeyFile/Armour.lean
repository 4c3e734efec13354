import SealedStore.Text.Base64
import SealedStore.Text.Blank
import SealedStore.Text.Pieces
/-!
# Armoured text

Key material travels as Base64 between a line that begins a block and a line
that ends it, both naming what the block holds. Lines with a name, a colon and
a value may stand before the Base64, with an empty line after them. Text around
blocks is ignored, but one malformed block spoils the whole text.

What is proved:
  1. `length_readFrame?` — reading a block leaves less text than there was.
-/

namespace SealedStore.Armour

/-- One block: what it holds, its headers, and the bytes. -/
structure Block where
  label : String
  headers : List (List Char × List Char) := []
  content : Bytes

/-! ## Writing -/

/-- The characters in lines of 64, each ended by a newline. -/
def lines : (fuel : Nat) → List Char → List Char
  | 0, _ => []
  | _ + 1, [] => []
  | fuel + 1, s => s.take 64 ++ '\n' :: lines fuel (s.drop 64)

def render (label : String) (content : Bytes) : String :=
  let body := Base64.encodeChars content
  s!"-----BEGIN {label}-----\n{String.ofList (lines body.length body)}-----END {label}-----\n"

/-! ## Cutting a text at a mark -/

/-- Looks for `mark`, of which `left` is still to come. A character that breaks
off a partial match is not taken for the beginning of another one. -/
def seek (mark : List Char) : (left seen s : List Char) → Option (List Char × List Char)
  | [], seen, s => some ((seen.drop mark.length).reverse, s)
  | _ :: _, _, [] => none
  | m :: left, seen, c :: s => seek mark (if c = m then left else mark) (c :: seen) s

def cut? (mark : String) (s : List Char) : Option (List Char × List Char) :=
  seek mark.toList mark.toList [] s

theorem length_seek {mark left seen s before rest : List Char}
    (h : seek mark left seen s = some (before, rest)) : rest.length + min left.length 1 ≤ s.length := by
  induction s generalizing left seen with
  | nil =>
    cases left with
    | nil =>
      simp only [seek, Option.some.injEq, Prod.mk.injEq] at h
      simp [← h.2]
    | cons m left => simp [seek] at h
  | cons c s ih =>
    cases left with
    | nil =>
      simp only [seek, Option.some.injEq, Prod.mk.injEq] at h
      simp [← h.2]
    | cons m left =>
      have := ih h
      simp only [List.length_cons]
      omega

theorem length_cut? {mark : String} {s before rest : List Char} (h : cut? mark s = some (before, rest)) :
    rest.length ≤ s.length :=
  Nat.le_of_add_right_le (length_seek h)

/-! ## Blocks -/

/-- A block as it stands in the text. -/
structure Frame where
  label : List Char
  body : List Char
  endLabel : List Char

def isLineBlank (c : Char) : Bool := c == ' ' || c == '\n' || c == '\r' || c == '\t'

def readFrame? (s : List Char) : Option (Frame × List Char) :=
  (cut? "-----BEGIN " s).bind fun (_, s) =>
    (cut? "-----" s).bind fun (label, s) =>
      (cut? "-----END " (s.dropWhile isLineBlank)).bind fun (body, s) =>
        (cut? "-----" s).map fun (endLabel, s) => (⟨label, body, endLabel⟩, s.dropWhile isLineBlank)

theorem length_readFrame? {s rest : List Char} {f : Frame} (h : readFrame? s = some (f, rest)) :
    rest.length < s.length := by
  simp only [readFrame?, Option.bind_eq_some_iff, Option.map_eq_some_iff, Prod.exists, Prod.mk.injEq] at h
  obtain ⟨_, a, ha, _, b, hb, _, c, hc, _, d, hd, -, rfl⟩ := h
  have h1 := length_seek ha
  have h2 := length_cut? hb
  have h3 := length_cut? hc
  have h4 := length_cut? hd
  have h5 := (b.dropWhile_sublist isLineBlank).length_le
  have h6 := (d.dropWhile_sublist isLineBlank).length_le
  -- The first mark is not empty, so that to find it takes a character.
  have h7 : min "-----BEGIN ".toList.length 1 = 1 := rfl
  omega

def frames (s : List Char) : List Frame :=
  match _h : readFrame? s with
  | none => []
  | some (f, rest) => f :: frames rest
termination_by s.length
decreasing_by exact length_readFrame? _h

/-- The headers of a block and its Base64. An empty line ends the headers. -/
def splitHeaders (body : List Char) : List Char × List Char :=
  match cut? "\n\n" body, cut? "\r\n\r\n" body with
  | some parts, _ | none, some parts => parts
  | none, none => ([], body)

def textLines (s : List Char) : List (List Char) :=
  let ended := Text.pieces '\n' s
  let kept := if ended.getLast? = some [] then ended.dropLast else ended
  kept.map fun line => if line.getLast? = some '\r' then line.dropLast else line

def readHeader? (line : List Char) : Option (List Char × List Char) :=
  match line.dropWhile (· != ':') with
  | [] => none
  | _ :: value =>
    some (Text.trimBy Text.isSpace (line.takeWhile (· != ':')), Text.trimBy Text.isSpace value)

/-- Base64 with nothing to skip but white space: what is read writes back. -/
def readContent? (data : List Char) : Option Bytes :=
  let text := data.filter fun c => !Text.isSpace c
  match Base64.decode (String.ofList text) with
  | .ok b => if Base64.encodeChars b == text then some b else none
  | .error _ => none

/-- The block a frame holds. Both of its lines name the same. -/
def Frame.block? (f : Frame) : Option Block := do
  let (headers, data) := splitHeaders f.body
  let headers ← (textLines headers).mapM readHeader?
  let content ← readContent? data
  if f.label = f.endLabel ∧ f.label ≠ [] then some ⟨String.ofList f.label, headers, content⟩ else none

def blocks? (s : String) : Option (List Block) := (frames s.toList).mapM Frame.block?

/-- The value of a header; the last one of a name counts. -/
def Block.header? (b : Block) (name : String) : Option String :=
  (b.headers.reverse.lookup name.toList).map String.ofList

end SealedStore.Armour
