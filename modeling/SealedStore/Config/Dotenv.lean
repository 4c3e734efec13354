import SealedStore.Table
import SealedStore.Text.Raw
/-!
# Settings files

A settings file assigns values to names, one assignment a line:

    export NAME = value  # comment

A value may stand in single or double quotes, which may hold line breaks and
escapes; without quotes it ends at the line or at a blank before `#`, and
blanks around it are dropped. A name without an equals sign is given no value.
A line that fits no rule is skipped from where it stops fitting. Afterwards
`${NAME}` and `${NAME:-default}` in a value are replaced by the value of the
name, where a name that is set outside the file keeps that value. The file is a
text, but what is set outside may be raw.
-/

namespace SealedStore.Dotenv
open Text (isBlank)

/-- A blank that does not end a line. -/
def isInnerBlank (c : Char) : Bool := isBlank c && c != '\n' && c != '\r'

def isLineEnd (c : Char) : Bool := c == '\n' || c == '\r'

/-- Reads from the front, or stops with what is left at that point. -/
abbrev Reader (α : Type) := List Char → Except (List Char) (α × List Char)

/-! ## Pieces -/

def unifyLineEnds : List Char → List Char
  | '\r' :: '\n' :: rest => '\n' :: unifyLineEnds rest
  | '\r' :: rest => '\n' :: unifyLineEnds rest
  | c :: rest => c :: unifyLineEnds rest
  | [] => []

def skipLine (s : List Char) : List Char := (s.dropWhile fun c => !isLineEnd c).drop 1

def skipExport (s : List Char) : List Char :=
  match s with
  | 'e' :: 'x' :: 'p' :: 'o' :: 'r' :: 't' :: c :: rest =>
    if isInnerBlank c then rest.dropWhile isInnerBlank else s
  | _ => s

/-- The name of an assignment; none in front of a comment. -/
def name : Reader (Option String) := fun s =>
  match s with
  | '#' :: _ => .ok (none, s)
  | '\'' :: rest =>
    match rest.takeWhile (· != '\''), rest.dropWhile (· != '\'') with
    | c :: cs, _ :: after => .ok (some (String.ofList (c :: cs)), after)
    | _, _ => .error s
  | _ =>
    let isName (c : Char) : Bool := c != '=' && c != '#' && !isBlank c
    match s.takeWhile isName with
    | [] => .error s
    | cs => .ok (some (String.ofList cs), s.dropWhile isName)

/-- The text up to the first quote that no backslash precedes, and what
follows that quote. -/
def untilBareQuote (quote : Char) : (previous : Char) → List Char → Option (List Char × List Char)
  | _, [] => none
  | previous, c :: rest =>
    if c = quote && previous != '\\' then some ([], rest)
    else (untilBareQuote quote c rest).map fun (inside, after) => (c :: inside, after)

/-- The text up to the last quote, and what follows it. -/
def untilLastQuote (quote : Char) : List Char → Option (List Char × List Char)
  | [] => none
  | c :: rest =>
    match untilLastQuote quote rest with
    | some (inside, after) => some (c :: inside, after)
    | none => if c = quote then some ([], rest) else none

/-- The text inside quotes. A quote behind a backslash only ends it if there is
no other. -/
def quoted (quote : Char) (s : List Char) : Option (List Char × List Char) :=
  (untilBareQuote quote quote s).or (untilLastQuote quote s)

def unescape (escapes : List (Char × Char)) : List Char → List Char
  | '\\' :: c :: rest =>
    match escapes.lookup c with
    | some meaning => meaning :: unescape escapes rest
    | none => '\\' :: unescape escapes (c :: rest)
  | c :: rest => c :: unescape escapes rest
  | [] => []

def singleQuoteEscapes : List (Char × Char) := [('\\', '\\'), ('\'', '\'')]

def doubleQuoteEscapes : List (Char × Char) :=
  [('\\', '\\'), ('\'', '\''), ('"', '"'), ('a', '\x07'), ('b', '\x08'), ('f', '\x0c'),
    ('n', '\n'), ('r', '\r'), ('t', '\t'), ('v', '\x0b')]

def dropComment : List Char → List Char
  | [] => []
  | c :: rest =>
    -- A sign inside a word begins no comment.
    if isBlank c && (rest.dropWhile isBlank).head? == some '#' then []
    else c :: dropComment rest

def trimEnd (s : List Char) : List Char := (s.reverse.dropWhile isBlank).reverse

def value : Reader String := fun s =>
  match s with
  | '\'' :: rest =>
    match quoted '\'' rest with
    | some (inside, after) => .ok (String.ofList (unescape singleQuoteEscapes inside), after)
    | none => .error s
  | '"' :: rest =>
    match quoted '"' rest with
    | some (inside, after) => .ok (String.ofList (unescape doubleQuoteEscapes inside), after)
    | none => .error s
  | _ =>
    let line := s.takeWhile fun c => !isLineEnd c
    .ok (String.ofList (trimEnd (dropComment line)), s.dropWhile fun c => !isLineEnd c)

def lineEnd : Reader Unit := fun s =>
  let s :=
    match s.dropWhile isInnerBlank with
    | '#' :: rest => rest.dropWhile fun c => !isLineEnd c
    | _ => s
  match s.dropWhile isInnerBlank with
  | [] => .ok ((), [])
  | c :: rest => if isLineEnd c then .ok ((), rest) else .error s

/-- One assignment. -/
def assignment : Reader (Option (String × Option String)) := fun s => do
  let (key, s) ← name (skipExport s)
  let s := s.dropWhile isInnerBlank
  let (assigned, s) ← (match s with
    | '=' :: rest => do
      let (v, s) ← value (rest.dropWhile isInnerBlank)
      return (some v, s)
    | _ => .ok (none, s))
  let ((), s) ← lineEnd s
  return (key.map fun k => (k, assigned), s)

def assignmentsUpTo : (limit : Nat) → List Char → List (String × Option String)
  | 0, _ => []
  | limit + 1, s =>
    match s.dropWhile isBlank with
    | [] => []
    | s =>
      match assignment s with
      | .ok (found, rest) => found.toList ++ assignmentsUpTo limit rest
      | .error rest => assignmentsUpTo limit (skipLine rest)

/-- The assignments of a text in order. Each takes at least one character. -/
def assignments (text : String) : List (String × Option String) :=
  let s := unifyLineEnds text.toList
  assignmentsUpTo s.length s

/-! ## References -/

/-- A reference to a name at the front, with the default it brings. -/
def reference? (s : List Char) : Option (String × String × List Char) :=
  match s with
  | '$' :: '{' :: rest =>
    let isName (c : Char) : Bool := c != '}' && c != ':'
    let name := String.ofList (rest.takeWhile isName)
    match rest.dropWhile isName with
    | '}' :: after => some (name, "", after)
    | ':' :: '-' :: more =>
      match more.dropWhile (· != '}') with
      | _ :: after => some (name, String.ofList (more.takeWhile (· != '}')), after)
      | [] => none
    | _ => none
  | _ => none

/-- Replaces references, in a text of at most `limit` characters. -/
def expandUpTo (find : String → Option RawText) : (limit : Nat) → List Char → RawText
  | 0, s => s.map .char
  | limit + 1, s =>
    match reference? s, s with
    | some (name, default, after), _ =>
      -- What is put in is not searched for references again.
      (find name).getD (.ofText default) ++ expandUpTo find limit after
    | none, c :: rest => .char c :: expandUpTo find limit rest
    | none, [] => []

def expand (find : String → Option RawText) (v : String) : RawText :=
  expandUpTo find v.toList.length v.toList

/-- What a file sets, given what is set outside it. A reference sees the
outside first, then what the file has set so far. -/
def settings (outside : Table String RawText) (text : String) : Table String (Option RawText) :=
  (assignments text).foldl (fun found (name, v) =>
    let find (n : String) : Option RawText := (outside.get? n).or ((found.get? n).map (·.getD []))
    found.insert name (v.map (expand find))) Table.empty

end SealedStore.Dotenv
