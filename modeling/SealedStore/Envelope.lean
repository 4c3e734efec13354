import SealedStore.Key.Ring
/-!
# Envelopes

What has to be known to decrypt an object, apart from the master key: it
travels in the user metadata, under names with a prefix of their own. An
object is encrypted exactly if its metadata name an encryption mode, and every
such mode begins alike; all other objects are plain.

What is proved:
  1. `modeOf?_eq_some_iff` — when an object is encrypted.
-/

namespace SealedStore

/-- The fields of an encrypted object. -/
structure Envelope where
  mode : String
  wrappedKey : Bytes
  masterKeyId : String
  iv : Bytes
  size : Option Int := none
  sha256 : Option String := none
  deriving DecidableEq

namespace Envelope

/-! ## Names -/

def namePrefix : String := "envelope-"

def modeName : String := "envelope-mode"
def keyName : String := "envelope-key"
def keyIdName : String := "envelope-key-id"
def ivName : String := "envelope-iv"
def sizeName : String := "envelope-unencrypted-size"
def sha256Name : String := "envelope-unencrypted-sha256"

/-- What every encryption mode begins with. -/
def modePrefix : String := "ENC:"

def aesGcm : String := "ENC:AES/GCM/NoPadding"

/-! ## Reading -/

def modeOf? (m : UserMetadata) : Option String :=
  (m.get? modeName).filter fun mode => mode.startsWith modePrefix

def isEncrypted (m : UserMetadata) : Bool := (modeOf? m).isSome

theorem modeOf?_eq_some_iff (m : UserMetadata) (mode : String) :
    modeOf? m = some mode ↔ m.get? modeName = some mode ∧ mode.startsWith modePrefix := by
  simp [modeOf?, Option.filter_eq_some_iff]

def field (m : UserMetadata) (name : String) : Except TransformFault String :=
  match m.get? name with
  | some text => .ok text
  | none => .error (.missingField name)

def bytesField (m : UserMetadata) (name : String) : Except TransformFault Bytes := do
  match Base64.decode (← field m name) with
  | .ok b => return b
  | .error fault => throw (.malformedField (.base64 fault))

/-- The field that holds the size of the content, if it is there. -/
def sizeField (m : UserMetadata) : Except TransformFault (Option Int) :=
  match m.get? sizeName with
  | none => .ok none
  | some text =>
    match Integer.read text with
    | .ok n => .ok (some n)
    | .error fault => .error (.malformedField (.integer fault))

def fields (mode : String) (m : UserMetadata) : Except TransformFault Envelope := do
  let wrappedKey ← bytesField m keyName
  let masterKeyId ← field m keyIdName
  let iv ← bytesField m ivName
  let size ← sizeField m
  return { mode, wrappedKey, masterKeyId, iv, size, sha256 := m.get? sha256Name }

def read (m : UserMetadata) : Except Error Envelope :=
  match modeOf? m with
  | none => .error (.notEncrypted none)
  | some mode => (fields mode m).mapError .transform

/-! ## Writing -/

def entries (e : Envelope) : List (String × String) :=
  [(modeName, e.mode), (keyName, Base64.encode e.wrappedKey), (keyIdName, e.masterKeyId),
    (ivName, Base64.encode e.iv)] ++
  (e.size.map fun n => (sizeName, toString n)).toList ++
  (e.sha256.map fun d => (sha256Name, d)).toList

def toUserMetadata (e : Envelope) : UserMetadata := ⟨e.entries⟩

/-- The metadata without any field. -/
def strip (m : UserMetadata) : UserMetadata := m.filterKeys fun name => !name.startsWith namePrefix

end Envelope

end SealedStore
