import SealedStore.ByteRange
import SealedStore.Error
import SealedStore.Hash.Md5
import SealedStore.Program
/-!
# Storage

A store of objects and of uploads in parts, in memory. Every object that is
stored gets a time and a version of its own; its length and, unless it is
copied or put together from parts, its ETag follow from its content.

`StorageCall` is what programs may ask of any store.

What is proved:
  1. `length_overwrite` — how long a content is after a write inside it.
  2. `get?_store`, `get?_store_other` — what storing changes.
-/

namespace SealedStore

/-- A content with what is stored beside it. -/
structure StoredObject where
  content : Bytes
  metadata : Metadata
  acl : AccessList := {}
  versionId : Option String := none
  deriving DecidableEq, Inhabited

/-- An upload that has been started: where it goes and the parts so far, each
with its ETag. -/
structure Upload where
  target : Identity
  metadata : Metadata
  acl : Option AccessList
  parts : Table Int (String × Bytes) := Table.empty
  deriving DecidableEq

/-- What can be asked of a store. -/
inductive StorageCall where
  | put (target : Identity) (content : Bytes) (metadata : Option Metadata)
      (acl : Option AccessList) (offset : Option Int)
  | get (target : Identity)
  | copy (source target : Identity) (metadata : Option Metadata) (acl : Option AccessList)
  | delete (target : Identity)
  | acl (target : Identity)
  | list (bucket start : String)
  | initiate (target : Identity) (metadata : Option Metadata) (acl : Option AccessList)
  | uploadPart (uploadId : String) (number : Int) (content : Bytes)
  | complete (uploadId : String) (parts : List PartTag)
  | abort (uploadId : String)
  | now
  deriving DecidableEq

abbrev StorageCall.Result : StorageCall → Type
  | .put _ _ _ _ _ | .get _ | .copy _ _ _ _ | .complete _ _ => StoredObject
  | .delete _ | .abort _ => Unit
  | .acl _ => AccessList
  | .list _ _ => List String
  | .initiate _ _ _ | .uploadPart _ _ _ => String
  | .now => Int

abbrev StorageInterface : Interface where
  Call := StorageCall
  Reply c := Except Error c.Result

def StorageCall.send (c : StorageCall) : Attempt StorageInterface c.Result :=
  ExceptT.mk (Program.invoke (I := StorageInterface) c)

/-! ## Positions inside a content -/

/-- A position of a content of `length` bytes; a negative one counts from the
end. -/
def position (length : Nat) (i : Int) : Nat :=
  if i < 0 then (length + i).toNat else min i.toNat length

/-- A content with other bytes in it from a position on. A gap is filled with
zeros. -/
def overwrite (content : Bytes) (offset : Int) (piece : Bytes) : Bytes :=
  let current := content ++ List.replicate (offset.toNat - content.length) 0
  current.take (position current.length offset) ++ piece ++
    current.drop (position current.length (offset + piece.length))

theorem length_overwrite (content piece : Bytes) (offset : Nat) :
    (overwrite content offset piece).length = max content.length (offset + piece.length) := by
  simp only [overwrite, position, List.length_append, List.length_take, List.length_drop,
    List.length_replicate, Int.toNat_natCast]
  have h₁ : ¬ (offset : Int) < 0 := by omega
  have h₂ : ¬ (offset : Int) + (piece.length : Int) < 0 := by omega
  simp only [h₁, h₂, if_false]
  have h₃ : ((offset : Int) + (piece.length : Int)).toNat = offset + piece.length := by omega
  rw [h₃]
  omega

/-! ## The store -/

/-- Objects, uploads, the time of the last store, and the number of versions
and uploads that were given a name. -/
structure Storage where
  objects : Table Identity StoredObject := Table.empty
  uploads : Table String Upload := Table.empty
  clock : Int := 0
  issued : Nat := 0

namespace Storage

def tick (s : Storage) : Int × Storage := (s.clock + 1, { s with clock := s.clock + 1 })

def nameOf (n : Nat) : String :=
  let digits := Nat.toDigits 16 n
  String.ofList (List.replicate (32 - digits.length) '0' ++ digits)

def issue (s : Storage) : String × Storage :=
  (nameOf (s.issued + 1), { s with issued := s.issued + 1 })

/-- Stores an object under a time and a version of its own. An ETag that is not
given, or is empty, is the digest of the content. -/
def store (s : Storage) (target : Identity) (content : Bytes) (metadata : Option Metadata)
    (acl : Option AccessList) (etag : Option String) : StoredObject × Storage :=
  let (time, s) := s.tick
  let (version, s) := s.issue
  let object : StoredObject := {
    content
    metadata := { metadata.getD {} with
      contentLength := some content.length
      etag := some ((etag.filter (!·.isEmpty)).getD (Md5.hex content))
      lastModified := some time }
    acl := acl.getD {}
    versionId := some version }
  (object, { s with objects := s.objects.insert target object })

theorem get?_store (s : Storage) (target : Identity) (content : Bytes) (metadata : Option Metadata)
    (acl : Option AccessList) (etag : Option String) :
    (s.store target content metadata acl etag).2.objects.get? target =
      some (s.store target content metadata acl etag).1 := by
  simp [store, tick, issue, Table.get?_insert]

theorem get?_store_other (s : Storage) {target other : Identity} (h : target ≠ other)
    (content : Bytes) (metadata : Option Metadata) (acl : Option AccessList) (etag : Option String) :
    (s.store target content metadata acl etag).2.objects.get? other = s.objects.get? other := by
  simp [store, tick, issue, Table.get?_insert, h]

def find (s : Storage) (target : Identity) : Except Error StoredObject :=
  match s.objects.get? target with
  | some object => .ok object
  | none => .error (.notFound target)

def contains (s : Storage) (target : Identity) : Bool := s.objects.contains target

def findUpload (s : Storage) (uploadId : String) : Except Error Upload :=
  match s.uploads.get? uploadId with
  | some upload => .ok upload
  | none => .error (.storage (.noSuchUpload uploadId))

/-- Changes what is stored at an address, under the time and version that it
has. -/
def amend (s : Storage) (target : Identity) (change : StoredObject → StoredObject) : Storage :=
  match s.objects.get? target with
  | some object => { s with objects := s.objects.insert target (change object) }
  | none => s

/-! ## What calls do -/

/-- Writes an object, or a piece of it at an offset. A piece keeps the metadata
and access list that are there unless it brings others. -/
def put (s : Storage) (target : Identity) (content : Bytes) (metadata : Option Metadata)
    (acl : Option AccessList) (offset : Option Int) : StoredObject × Storage :=
  match offset with
  | none => s.store target content metadata acl none
  | some offset =>
    let existing := s.objects.get? target
    let before := (existing.map StoredObject.content).getD []
    s.store target (overwrite before offset content)
      (metadata.or (existing.map StoredObject.metadata))
      (acl.or (existing.map StoredObject.acl)) none

/-- Copies content and ETag. Metadata are copied too unless others are given;
an access list is not. -/
def copy (s : Storage) (source target : Identity) (metadata : Option Metadata)
    (acl : Option AccessList) : Except Error (StoredObject × Storage) := do
  let object ← s.find source
  return s.store target object.content (some (metadata.getD object.metadata)) acl object.metadata.etag

def delete (s : Storage) (target : Identity) : Storage :=
  { s with objects := s.objects.erase target }

def list (s : Storage) (bucket start : String) : List String :=
  (s.objects.keys.filterMap fun i =>
    if i.bucket = bucket && i.key.startsWith start then some i.key else none).mergeSort
    fun a b => decide (a ≤ b)

def inventory (s : Storage) : List (Identity × StoredObject) :=
  s.objects.entries.mergeSort fun a b =>
    if a.1.bucket = b.1.bucket then decide (a.1.key ≤ b.1.key) else decide (a.1.bucket ≤ b.1.bucket)

def initiate (s : Storage) (target : Identity) (metadata : Option Metadata)
    (acl : Option AccessList) : String × Storage :=
  let (uploadId, s) := s.issue
  (uploadId, { s with
    uploads := s.uploads.insert uploadId { target, metadata := metadata.getD {}, acl } })

/-- Keeps a part; a later part with its number replaces it. -/
def uploadPart (s : Storage) (uploadId : String) (number : Int) (content : Bytes) :
    Except Error (String × Storage) := do
  let upload ← s.findUpload uploadId
  let etag := Md5.hex content
  return (etag, { s with
    uploads := s.uploads.insert uploadId { upload with parts := upload.parts.insert number (etag, content) } })

def partContent (upload : Upload) (uploadId : String) (part : PartTag) : Except Error Bytes :=
  match upload.parts.get? part.number with
  | some (etag, content) =>
    if etag = part.etag then .ok content else .error (.storage (.invalidPart part.number uploadId))
  | none => .error (.storage (.invalidPart part.number uploadId))

def partsEtag (contents : List Bytes) : String :=
  Md5.hex (contents.flatMap Md5.digest) ++ "-" ++ toString contents.length

/-- Puts the listed parts together in the order of their numbers. -/
def complete (s : Storage) (uploadId : String) (parts : List PartTag) :
    Except Error (StoredObject × Storage) := do
  let upload ← s.findUpload uploadId
  let ordered := parts.mergeSort fun a b => decide (a.number ≤ b.number)
  let contents ← ordered.mapM (partContent upload uploadId)
  -- No part is refused from here on.
  let s := { s with uploads := s.uploads.erase uploadId }
  return s.store upload.target contents.flatten (some upload.metadata) upload.acl
    (some (partsEtag contents))

def abort (s : Storage) (uploadId : String) : Except Error Storage := do
  let _ ← s.findUpload uploadId
  return { s with uploads := s.uploads.erase uploadId }

/-- The reply and the store after a step that may fail; a failure changes
nothing. -/
def settle {α : Type} (s : Storage) : Except Error (α × Storage) → Except Error α × Storage
  | .ok (a, after) => (.ok a, after)
  | .error e => (.error e, s)

def serve : Program.Service StorageInterface Storage
  | .put target content metadata acl offset, s =>
    let (object, after) := s.put target content metadata acl offset
    (.ok object, after)
  | .get target, s => (s.find target, s)
  | .copy source target metadata acl, s => s.settle (s.copy source target metadata acl)
  | .delete target, s => (.ok (), s.delete target)
  | .acl target, s => ((s.find target).map StoredObject.acl, s)
  | .list bucket start, s => (.ok (s.list bucket start), s)
  | .initiate target metadata acl, s =>
    let (uploadId, after) := s.initiate target metadata acl
    (.ok uploadId, after)
  | .uploadPart uploadId number content, s => s.settle (s.uploadPart uploadId number content)
  | .complete uploadId parts, s => s.settle (s.complete uploadId parts)
  | .abort uploadId, s => s.settle ((s.abort uploadId).map fun after => ((), after))
  | .now, s =>
    let (time, after) := s.tick
    (.ok time, after)

end Storage

end SealedStore
