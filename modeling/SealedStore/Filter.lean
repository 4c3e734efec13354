import SealedStore.Chain
import SealedStore.Encryption
/-!
# Filters

The three filters of the library. One logs every call that is answered. One
compares the digest of written and read content with the ETag that storage
reports. One encrypts entities and decrypts responses, for requests that ask
for it; it has to stand in front of the checksum filter, so that digests are
those of the encrypted content. A filter that replaces the entity puts the
former one back, as far as it was read, whatever the outcome.

What is proved:
  1. `isDigest_iff` — which ETags are digests of a content.
-/

namespace SealedStore

/-- A filter of the library. -/
inductive Filter where
  | logging
  | checksum
  | codec (encryption : Encryption)

namespace Filter
variable {I : Interface}

def name : Filter → String
  | .logging => "LoggingFilter"
  | .checksum => "ChecksumFilter"
  | .codec _ => "CodecFilter"

def default : List Filter := [.logging, .checksum]

/-! ## Logging -/

def log (next : Handler I) : Handler I := fun request => do
  let (result, request) ← next request
  if let .ok response := result then
    Program.report (.answered request.method request.target response.status)
  return (result, request)

/-! ## Checksums -/

/-- An ETag that is the digest of a content. The ETag of an upload in parts has
a hyphen. -/
def isDigest (etag : String) : Bool := !etag.isEmpty && !etag.toList.contains '-'

theorem isDigest_iff (etag : String) : isDigest etag = true ↔ etag ≠ "" ∧ '-' ∉ etag.toList := by
  simp [isDigest]

/-- The digest an ETag stands for. -/
def digestOf? (etag : Option String) : Option String := etag.filter isDigest

def mismatch? (digest : String) (etag : Option String) : Option Error :=
  match digestOf? etag with
  | some expected => if digest = expected then none else some (.checksum digest expected)
  | none => none

def isPartialWrite : Operation → Bool
  | .put _ _ range => range.isSome
  | _ => false

def writesContent : Operation → Bool
  | .put _ _ _ | .uploadPart _ _ => true
  | _ => false

/-- Reads an object from its first byte to its last. -/
def readsInFull : Operation → Bool
  | .get range => range.isNone
  | _ => false

def verifyWrite (next : Handler I) (entity : Stream) : Handler I := fun request => do
  let sent := { request with
    entity := some (entity.layered { stage := .digest, closesSource := false }) }
  let (result, back) ← next sent
  -- The layer that comes back is the one that has seen what was read.
  let read := back.entity.getD entity
  let restored := { back with entity := some read.below }
  match result with
  | .error e => return (.error e, restored)
  | .ok response =>
    -- The store tells the digest of the whole object, of which this is a piece.
    if isPartialWrite request.operation then return (.ok response, restored)
    else match mismatch? read.digest response.etag with
      | some e => return (.error e, restored)
      | none => return (.ok response, restored)

/-- Has the content compared when it will have been read to its end. -/
def verifyRead (response : Response) : Response :=
  match response.entity, digestOf? response.etag with
  | some entity, some etag => { response with entity := some (entity.layered { stage := .verify etag }) }
  | _, _ => response

def checkDigests (next : Handler I) : Handler I := fun request => do
  match request.entity, writesContent request.operation with
  | some entity, true => verifyWrite next entity request
  | _, _ =>
    let (result, request) ← next request
    if readsInFull request.operation then return (result.map verifyRead, request)
    else return (result, request)

/-! ## Encryption -/

/-- Encrypts the entity, and adds the envelope to the user metadata once the
entity has been read to its end. -/
def encrypt (encryption : Encryption) (next : Handler I) : Handler I := fun request => do
  match request.entity with
  | none => return (.error (.transform (.nothingToEncrypt request.target)), request)
  | some content =>
    match ← (encryption.encode content).run with
    | .error e => return (.error e, request)
    | .ok stream =>
      let sent := { request with
        entity := some stream
        contentLength := request.contentLength.map Encryption.encodedLength }
      let (result, back) ← next sent
      let read := back.entity.getD stream
      let restored := { back with entity := some read.below, contentLength := request.contentLength }
      match result with
      | .error e => return (.error e, restored)
      | .ok response =>
        -- There is no envelope as long as something is left to be read.
        match read.envelope with
        | .error e => return (.error e, restored)
        | .ok envelope =>
          let entries := envelope.toUserMetadata
          Program.report (.encrypted request.target)
          return (.ok { response with encoded := some entries }, { restored with
            properties := { restored.properties with
              userMetadata := restored.properties.userMetadata.map (·.merge entries) } })

/-- Decrypts the content of a response if its object is encrypted. -/
def decrypt (encryption : Encryption) (response : Response) : Except Error Response :=
  match response.metadata, response.entity with
  | some metadata, some entity =>
    match Envelope.modeOf? metadata.user with
    | none => .ok response
    | some _ => do
      let _ ← encryption.requireMode metadata.user
      let decoder ← encryption.decoder metadata.user
      return { response with
        entity := some (entity.layered { stage := .decode decoder })
        metadata := some { metadata with contentLength := decoder.envelope.size } }
  | _, _ => .ok response

def transcode (encryption : Encryption) (next : Handler I) : Handler I := fun request => do
  if request.properties.encode then encrypt encryption next request
  else
    let (result, request) ← next request
    if request.properties.decode then return (result.bind (decrypt encryption), request)
    else return (result, request)

/-! ## All filters -/

def around : Filter → Handler I → Handler I
  | .logging => log
  | .checksum => checkDigests
  | .codec encryption => transcode encryption

def through (filters : List Filter) (last : Handler I) : Handler I :=
  throughFilters (filters.map around) last

end Filter

end SealedStore
