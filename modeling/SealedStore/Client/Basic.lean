import SealedStore.Filter
import SealedStore.SignedLink
import SealedStore.Storage.Basic
/-!
# Clients of a store

A client turns every operation into a request, sends it through its filters,
and at their end carries it out on a store. Some operations take two requests;
listing keys and signing links take none.
-/

namespace SealedStore

structure ClientSettings where
  endpoint : String := "http://localhost:9020"
  accessKey : Option String := none
  secretKey : Option String := none
  linkLifetime : Int := 900
  deriving DecidableEq

/-- Who signs links, if both keys are there and not empty. -/
def ClientSettings.signer? (s : ClientSettings) : Option LinkSigner := do
  let accessKey ← s.accessKey.filter (!·.isEmpty)
  let secretKey ← s.secretKey.filter (!·.isEmpty)
  return { endpoint := s.endpoint, accessKey, secretKey }

/-! ## Carrying requests out -/

/-- A program over a store that may fail. -/
abbrev StorageTask := Attempt StorageInterface

namespace Storage

/-- The response that shows a stored object. -/
def shown (object : StoredObject) : Response :=
  { metadata := some object.metadata, etag := object.metadata.etag, versionId := object.versionId }

/-- The response that hands out an object, or a range of it. -/
def handedOut (object : StoredObject) : Option ByteRange → Response
  | none => { shown object with entity := some (Stream.ofBytes object.content) }
  | some range =>
    let content := range.slice object.content
    { shown object with
      status := 206
      entity := some (Stream.ofBytes content)
      metadata := some { object.metadata with contentLength := some content.length } }

/-- The bytes of an entity, read to the end; none is empty. -/
def readEntity (r : Request) : Except Error Bytes × Request :=
  match r.entity with
  | none => (.ok [], r)
  | some stream =>
    let (result, stream) := stream.read .rest
    (result, { r with entity := some stream })

/-- Carries out a request whose content has been read. -/
def carryOutWith (target : Identity) (content : Bytes) : Operation → StorageTask Response
  | .put metadata acl range => do
    let offset : Option Int := range.map fun r => r.first
    return shown (← (StorageCall.put target content metadata acl offset).send)
  | .get range => return handedOut (← (StorageCall.get target).send) range
  | .head => return shown (← (StorageCall.get target).send)
  | .copy source metadata acl => return shown (← (StorageCall.copy source target metadata acl).send)
  | .delete => do
    (StorageCall.delete target).send
    return { status := 204 }
  | .acl => return { payload := .acl (← (StorageCall.acl target).send) }
  | .initiate metadata acl =>
    return { payload := .uploadId (← (StorageCall.initiate target metadata acl).send) }
  | .uploadPart uploadId number =>
    return { etag := some (← (StorageCall.uploadPart uploadId number content).send) }
  | .copyPart source uploadId number range => do
    let object ← (StorageCall.get source).send
    -- No call copies a piece, so it is cut out here.
    let piece := range.elim object.content fun r => r.slice object.content
    return { etag := some (← (StorageCall.uploadPart uploadId number piece).send) }
  | .complete uploadId parts => return shown (← (StorageCall.complete uploadId parts).send)
  | .abort uploadId => do
    (StorageCall.abort uploadId).send
    return { status := 204 }
  | .bare => throw (.storage .unsupportedRequest)

/-- The handler at the end of every client: reads the entity, if there is one,
and carries the request out. -/
def carryOut : Handler StorageInterface := fun request => do
  let (content, request) := readEntity request
  match content with
  | .error e => return (.error e, request)
  | .ok content => return (← (carryOutWith request.target content request.operation).run, request)

end Storage

/-! ## The client -/

/-- A client: its settings and its filters. -/
structure Client where
  settings : ClientSettings := {}
  filters : List Filter := Filter.default

structure ObjectContent where
  body : Stream
  metadata : Metadata

def ObjectContent.read (c : ObjectContent) : Except Error Bytes × ObjectContent :=
  let (result, body) := c.body.read .rest
  (result, { c with body := body.close })

namespace Client

/-- Sends a request through the filters to the store. -/
def handle (c : Client) : Handler StorageInterface := Filter.through c.filters Storage.carryOut

def execute (c : Client) (request : Request) : StorageTask Response :=
  ExceptT.mk do return (← c.handle request).1

def written (response : Response) : WriteResult :=
  { etag := response.etag, versionId := response.versionId, metadata := response.metadata }

/-! ### Objects -/

/-- Writes an object. The write comes back with its content as far as it was
read. -/
def put (c : Client) (p : Put) : Program StorageInterface (Except Error WriteResult × Put) := do
  let (result, request) ← c.handle p.request
  return (result.map written, { p with entity := request.entity })

def get (c : Client) (target : Identity) (range : Option ByteRange) : StorageTask ObjectContent := do
  let response ← c.execute { target, operation := .get range }
  return { body := response.entity.getD default, metadata := response.metadata.getD {} }

def read (c : Client) (target : Identity) : StorageTask Bytes := do
  let content ← c.get target none
  Attempt.of content.read.1

def copy (c : Client) (source target : Identity) (metadata : Option Metadata)
    (acl : Option AccessList) : StorageTask WriteResult := do
  let response ← c.execute { target, operation := .copy source metadata acl }
  return { written response with copiedAt := response.metadata.bind Metadata.lastModified }

def delete (c : Client) (target : Identity) : StorageTask Unit := do
  let _ ← c.execute { target, operation := .delete }

def metadata (c : Client) (target : Identity) : StorageTask Metadata := do
  let response ← c.execute { target, operation := .head }
  return response.metadata.getD {}

def acl (c : Client) (target : Identity) : StorageTask AccessList := do
  match (← c.execute { target, operation := .acl }).payload with
  | .acl acl => return acl
  | _ => return {}

/-- Replaces the metadata of an object by a copy onto itself. Its access list
stays, and so do its metadata if no others are given. -/
def setMetadata (c : Client) (target : Identity) (metadata : Option Metadata) : StorageTask Unit := do
  let acl ← c.acl target
  let _ ← c.copy target target metadata (some acl)

def list (bucket start : String) : StorageTask (List String) := (StorageCall.list bucket start).send

/-! ### Links -/

/-- A link for a request, if the client has keys to sign it. -/
def link (c : Client) (r : LinkRequest) : Except Error String :=
  match c.settings.signer? with
  | some signer => r.link signer
  | none => .error (.config .noCredentials)

/-- The moment at which a link expires that is made now. -/
def linkExpiry (c : Client) : StorageTask Moment := do
  let now ← StorageCall.now.send
  Attempt.of (momentAfter now c.settings.linkLifetime)

def linkFromNow (c : Client) (target : Identity) (method : String) : StorageTask String := do
  let expiration ← c.linkExpiry
  Attempt.of (c.link { method, target, expiration })

/-! ### Uploads in parts -/

def initiate (c : Client) (target : Identity) (metadata : Option Metadata)
    (acl : Option AccessList) : StorageTask UploadHandle := do
  match (← c.execute { target, operation := .initiate metadata acl }).payload with
  | .uploadId uploadId => return { target, uploadId }
  | _ => return { target, uploadId := "" }

def uploadPart (c : Client) (target : Identity) (uploadId : String) (number : Int)
    (content : Option Content) : StorageTask PartTag := do
  let response ← c.execute (Request.uploadPart target uploadId number content)
  return { number, etag := response.etag.getD "" }

def copyPart (c : Client) (source target : Identity) (uploadId : String) (number : Int)
    (range : Option ByteRange) : StorageTask PartTag := do
  let response ← c.execute { target, operation := .copyPart source uploadId number range }
  return { number, etag := response.etag.getD "" }

def complete (c : Client) (target : Identity) (uploadId : String) (parts : List PartTag) :
    StorageTask WriteResult := do
  return written (← c.execute { target, operation := .complete uploadId parts })

def abort (c : Client) (target : Identity) (uploadId : String) : StorageTask Unit := do
  let _ ← c.execute { target, operation := .abort uploadId }

end Client

end SealedStore
