import SealedStore.Client.Basic
import SealedStore.Detour
/-!
# Encrypting clients

A client that encrypts what it writes and decrypts what it reads. The
envelope of an object is only known once its content has been read, so every
write goes over a temporary object and is published by a copy with the full
metadata. Rekeying goes the same way and leaves the content as it is. Whatever
cannot be done to encrypted content is refused before the store is called.

What is proved:
  1. `filters_eq` — where the codec stands among the filters.
-/

namespace SealedStore

/-- How contents are encrypted, and how temporary objects are named. -/
structure EncryptionSettings where
  encryption : Encryption
  tempSuffix : String := ".temp"

/-- Settings with a suffix that may not be empty and a key length that AES
has. -/
def EncryptionSettings.make (ring : KeyRing MasterKey) (bits : Int) (tempSuffix : String) :
    Except ConfigFault EncryptionSettings :=
  if tempSuffix.isEmpty then .error .emptySuffix
  else (Encryption.make ring bits).map fun encryption => { encryption, tempSuffix }

structure RekeyResult where
  target : Identity
  rekeyed : Bool
  oldKeyId : String
  newKeyId : String
  deriving DecidableEq

/-- A client whose filters encrypt and decrypt. -/
structure EncryptingClient where
  base : Client
  encryption : EncryptionSettings

namespace EncryptingClient

/-! ## Filters -/

def isChecksum : Filter → Bool
  | .checksum => true
  | _ => false

/-- The codec stands in front of every checksum filter, or at the end if there
is none. -/
def withCodec (encryption : Encryption) (filters : List Filter) : List Filter :=
  if filters.any isChecksum then
    filters.flatMap fun f => if isChecksum f then [.codec encryption, f] else [f]
  else filters ++ [.codec encryption]

def make (encryption : EncryptionSettings) (settings : ClientSettings) (filters : List Filter) :
    EncryptingClient where
  base := { settings, filters := withCodec encryption.encryption filters }
  encryption := encryption

theorem filters_eq (encryption : EncryptionSettings) (settings : ClientSettings) :
    (make encryption settings Filter.default).base.filters =
      [.logging, .codec encryption.encryption, .checksum] := rfl

/-! ## Writing -/

/-- The write of the encrypted content to its temporary place. -/
def tempRequest (p : Put) (temp : Identity) (metadata : Metadata) : Request where
  target := temp
  operation := .put (some metadata) none none
  entity := some (p.entity.getD default)
  contentLength := if p.entity.isSome then p.contentLength else some 0
  properties := { encode := true, userMetadata := some metadata.user }

/-- Encrypts and stores an object. The metadata that come back are those that
were stored: the caller's, with the envelope. -/
def put (c : EncryptingClient) (p : Put) :
    Program StorageInterface (Except Error WriteResult × Put) := do
  if p.range.isSome then return (.error (.unsupported (.partialUpdate p.target)), p)
  else
    let detour : Detour WriteResult := Detour.start p.target c.encryption.tempSuffix
    let metadata := p.metadata.getD {}
    -- The write runs first: what has become of its entity is handed back in any case.
    let (stored, sent) ← c.base.handle (tempRequest p detour.temp metadata)
    let enriched := { metadata with user := sent.properties.userMetadata.getD metadata.user }
    let steps : DetourStep StorageInterface WriteResult WriteResult := do
      let _ ← Detour.attempt (Attempt.of stored)
      Detour.written
      let result ← Detour.attempt (c.base.copy detour.temp p.target (some enriched) p.acl)
      Detour.published result
      return { result with metadata := some enriched }
    let (result, _) ← Detour.travel c.base.delete detour steps
    return (result.mapError (·.toError p.target detour.temp),
      { p with entity := p.entity.bind fun _ => sent.entity })

/-! ## Reading -/

def get (c : EncryptingClient) (target : Identity) (range : Option ByteRange) : StorageTask ObjectContent := do
  if range.isSome then throw (.unsupported (.partialRead target))
  let response ← c.base.execute { target, operation := .get none, properties := { decode := true } }
  return { body := response.entity.getD default, metadata := response.metadata.getD {} }

def read (c : EncryptingClient) (target : Identity) : StorageTask Bytes := do
  let content ← c.get target none
  Attempt.of content.read.1

def copy (c : EncryptingClient) (source target : Identity) (metadata : Option Metadata)
    (acl : Option AccessList) : StorageTask WriteResult :=
  if metadata.isSome then throw (.unsupported .copyReplacingMetadata)
  else c.base.copy source target none acl

/-! ## Rekeying -/

/-- What changes in the metadata of an object; `none` if nothing has to. -/
def rekeyEntries (c : EncryptingClient) (target : Identity) (m : UserMetadata) :
    StorageTask (Option UserMetadata) :=
  tryCatch (some <$> c.encryption.encryption.rekey m) fun
    | .alreadyCurrent _ => return none
    | .transform fault => throw (.transform (.notRekeyed target fault))
    | other => throw other

/-- The name of the master key of an object that this client can read. -/
def readableKeyId (c : EncryptingClient) (target : Identity) (m : UserMetadata) : Except Error String :=
  match Envelope.modeOf? m, m.get? Envelope.keyIdName with
  | none, _ => .error (.notEncrypted (some target))
  | some mode, keyId =>
    match keyId, c.encryption.encryption.canDecode mode m with
    | some id, true => .ok id
    | _, _ => .error (.cannotUnwrap (.modeOrKey mode keyId))

/-- Wraps the key of an object by the current master key. -/
def rekey (c : EncryptingClient) (target : Identity) : StorageTask RekeyResult := do
  let metadata ← c.base.metadata target
  let oldKeyId ← Attempt.of (c.readableKeyId target metadata.user)
  match ← c.rekeyEntries target metadata.user with
  | none =>
    Attempt.always (Program.report (.alreadyCurrent target oldKeyId))
    return { target, rekeyed := false, oldKeyId, newKeyId := oldKeyId }
  | some entries =>
    let newMetadata := { metadata with user := metadata.user.merge entries }
    -- A copy drops the access list, which the second one has to bring back.
    let acl ← c.base.acl target
    let detour : Detour WriteResult := Detour.start target c.encryption.tempSuffix
    let steps : DetourStep StorageInterface WriteResult Unit := do
      let _ ← Detour.attempt (c.base.copy target detour.temp none none)
      Detour.written
      Detour.published (← Detour.attempt (c.base.copy detour.temp target (some newMetadata) (some acl)))
    let (result, _) ← Attempt.always (Detour.travel c.base.delete detour steps)
    Attempt.of (result.mapError (·.toError target detour.temp))
    let newKeyId := c.encryption.encryption.ring.current.keyId
    Attempt.always (Program.report (.rekeyed target oldKeyId newKeyId))
    return { target, rekeyed := true, oldKeyId, newKeyId }

/-! ## What is refused -/

def setMetadata : StorageTask Unit := throw (.unsupported .metadataUpdate)

def link : Except Error String := .error (.unsupported .presignedLink)

/-- The instant is worked out before the link is refused. -/
def linkFromNow (c : EncryptingClient) : StorageTask String := do
  let _ ← c.base.linkExpiry
  throw (.unsupported .presignedLink)

def multipart {α : Type} : StorageTask α := throw (.unsupported .multipart)

end EncryptingClient

end SealedStore
