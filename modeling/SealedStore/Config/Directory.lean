import SealedStore.Error
import SealedStore.Table
import SealedStore.Text.Pieces
/-!
# The working directory

Files by name, relative to the directory a program works in. A path is first
brought into its shortest form, which messages show: repeated slashes and
single dots go, double dots stay. It is then followed component by component.
-/

namespace SealedStore

/-- A path: what it begins with, and its components. -/
structure Path where
  root : String
  components : List RawText
  deriving DecidableEq

namespace Path

/-- A path in shortest form. Exactly two slashes in front stay two. -/
def ofRaw (text : RawText) : Path where
  root :=
    match text with
    | .char '/' :: .char '/' :: .char '/' :: _ => "/"
    | .char '/' :: .char '/' :: _ => "//"
    | .char '/' :: _ => "/"
    | _ => ""
  components := (Text.pieces (.char '/') text).filter fun c => c ≠ [] && c ≠ [.char '.']

def toRaw (p : Path) : RawText :=
  if p.root = "" && p.components.isEmpty then [.char '.']
  else .ofText p.root ++ [.char '/'].intercalate p.components

end Path

abbrev FileReader := Path → Except FileFault String

/-- The files of a directory by name; a name without content is a directory. -/
structure Directory where
  entries : Table RawText (Option String) := Table.empty

namespace Directory

inductive Place where
  | inside (names : List RawText)
  | outside

def maxComponent : Nat := 255

def maxPath : Nat := 4095

def nameOf (names : List RawText) : RawText := [.char '/'].intercalate names

def parent : RawText := [.char '.', .char '.']

/-- A directory is named, or something inside it is. -/
def isDirectory (d : Directory) (names : List RawText) : Bool :=
  names.isEmpty || d.entries.get? (nameOf names) = some none ||
    d.entries.keys.any (nameOf names ++ [Sign.char '/']).isPrefixOf

/-- Follows the components of a path to the content at its end. -/
def follow (d : Directory) (path : RawText) : Place → List RawText → Except FileFault String
  | _, [] => .error (.directory path)
  | .outside, c :: rest =>
    -- Nothing is known of what lies outside, and only `..` leads on from there.
    if c = parent then follow d path .outside rest
    else .error (if maxComponent < c.size then .nameTooLong path else .absent path)
  | .inside names, c :: rest =>
    if c = parent then follow d path (if names.isEmpty then .outside else .inside names.dropLast) rest
    else if maxComponent < c.size then .error (.nameTooLong path)
    else
      let reached := names ++ [c]
      if d.isDirectory reached then follow d path (.inside reached) rest
      else match d.entries.get? (nameOf reached), rest with
        | some (some content), [] => .ok content
        | some (some _), _ => .error (.notDirectory path)
        | _, _ => .error (.absent path)

def read (d : Directory) : FileReader := fun p =>
  if maxPath < p.toRaw.size then .error (.nameTooLong p.toRaw)
  else follow d p.toRaw (if p.root = "" then .inside [] else .outside) p.components

end Directory

end SealedStore
