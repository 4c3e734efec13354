import SealedStore.Stream.Basic
/-!
# Encryption of contents

A ring of master keys and a key length decide how new content is encrypted and
which encrypted content can be read. Every content gets a key of its own, which
is wrapped by the current master key; any key of the ring unwraps. Giving an
object another master key wraps its key anew and leaves the content alone.

What is proved:
  1. `requireMode_eq_ok_iff` — whose content a ring can read.
-/

namespace SealedStore

/-- A ring of master keys and the length of keys for new content. -/
structure Encryption where
  ring : KeyRing MasterKey
  keySize : KeySize := .bits256

namespace Encryption
variable {I : Interface}

def make (ring : KeyRing MasterKey) (bits : Int) : Except ConfigFault Encryption :=
  match KeySize.ofBits? bits with
  | some keySize => .ok { ring, keySize }
  | none => .error (.keySize bits)

/-! ## Whose content can be read -/

/-- The mode is the one in use, and the ring holds the master key. -/
def canDecode (e : Encryption) (mode : String) (m : UserMetadata) : Bool :=
  mode == Envelope.aesGcm && (m.get? Envelope.keyIdName).any e.ring.contains

def requireMode (e : Encryption) (m : UserMetadata) : Except Error String :=
  match Envelope.modeOf? m with
  | none => .error (.notEncrypted none)
  | some mode =>
    if e.canDecode mode m then .ok mode
    else .error (.cannotUnwrap (.modeOrKey mode (m.get? Envelope.keyIdName)))

theorem requireMode_eq_ok_iff (e : Encryption) (m : UserMetadata) (mode : String) :
    e.requireMode m = .ok mode ↔ Envelope.modeOf? m = some mode ∧ e.canDecode mode m = true := by
  unfold requireMode
  split
  · next h => simp [h]
  · next found h =>
    by_cases hc : e.canDecode found m = true
    · simp only [hc, if_true, Except.ok.injEq, h, Option.some.injEq]
      constructor
      · rintro rfl
        exact ⟨rfl, hc⟩
      · exact fun hm => hm.1
    · simp only [hc, h, Option.some.injEq]
      constructor
      · intro he
        cases he
      · rintro ⟨rfl, hm⟩
        exact absurd hm hc

def encodedLength (n : Int) : Int := n + tagSize

/-! ## Wrapping and unwrapping -/

/-- Wraps a key by the current master key. -/
def wrapCurrent (e : Encryption) (dataKey : SecretKey) : Attempt I Bytes :=
  tryCatch (e.ring.current.wrap dataKey) fun
    | .key fault => throw (.transform (.notWrapped fault))
    | other => throw other

def unwrap (e : Encryption) (envelope : Envelope) : Except Error SecretKey :=
  match e.ring.get? envelope.masterKeyId with
  | none => .error (.cannotUnwrap (.unknownKey envelope.masterKeyId))
  | some master =>
    match master.unwrap envelope.wrappedKey with
    | .error fault => .error (.transform (.notUnwrapped fault))
    | .ok dataKey =>
      match dataKey.size? with
      | none => .error (.transform (.dataKeyLength dataKey.material.length))
      | some _ => .ok dataKey

/-! ## Streams -/

def newEncoder (e : Encryption) : Attempt I Encoder := do
  let iv ← Attempt.always (Program.secret nonceSize)
  let dataKey ← Attempt.always (SecretKey.fresh e.keySize)
  let wrappedKey ← e.wrapCurrent dataKey
  return { mode := Envelope.aesGcm, wrappedKey, masterKeyId := e.ring.current.keyId, iv, dataKey }

/-- The encrypted form of a content. Its source stays open when it is closed. -/
def encode (e : Encryption) (source : Stream) : Attempt I Stream := do
  let encoder ← e.newEncoder
  return source.layered { stage := .encode encoder, closesSource := false }

def decoder (e : Encryption) (m : UserMetadata) : Except Error Decoder := do
  let envelope ← Envelope.read m
  if envelope.mode ≠ Envelope.aesGcm then throw (.cannotUnwrap (.mode envelope.mode))
  let dataKey ← e.unwrap envelope
  if envelope.iv.length ≠ nonceSize then
    throw (.transform (.noDecryption (.wrongNonce envelope.iv.length)))
  return { dataKey, envelope }

def decode (e : Encryption) (source : Stream) (m : UserMetadata) : Except Error Stream :=
  (e.decoder m).map fun d => source.layered { stage := .decode d }

/-! ## Rekeying -/

/-- The entries that change when an object is given the current master key. -/
def rekey (e : Encryption) (m : UserMetadata) : Attempt I UserMetadata := do
  let envelope ← Attempt.of (Envelope.read m)
  let current := e.ring.current.keyId
  if envelope.masterKeyId = current then throw (.alreadyCurrent current)
  let dataKey ← Attempt.of (e.unwrap envelope)
  let wrapped ← e.wrapCurrent dataKey
  return ⟨[(Envelope.keyName, Base64.encode wrapped), (Envelope.keyIdName, current)]⟩

end Encryption

end SealedStore
