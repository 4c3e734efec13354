import SealedStore.ByteRange
import SealedStore.Stream.Basic
/-!
# Requests and responses

A request says what is to be done with one object. Two kinds carry an entity,
the content that is sent along; reading it is what a request uses up. The
properties of a request tell the filters on its way how to treat it.
-/

namespace SealedStore

inductive Operation where
  | put (metadata : Option Metadata) (acl : Option AccessList) (range : Option ByteRange)
  | get (range : Option ByteRange)
  | head
  | delete
  | acl
  | copy (source : Identity) (metadata : Option Metadata) (acl : Option AccessList)
  | initiate (metadata : Option Metadata) (acl : Option AccessList)
  | uploadPart (uploadId : String) (number : Int)
  | copyPart (source : Identity) (uploadId : String) (number : Int) (range : Option ByteRange)
  | complete (uploadId : String) (parts : List PartTag)
  | abort (uploadId : String)
  | bare
  deriving DecidableEq

def Operation.method : Operation → String
  | .put _ _ _ | .copy _ _ _ | .uploadPart _ _ | .copyPart _ _ _ _ => "PUT"
  | .get _ | .acl | .bare => "GET"
  | .head => "HEAD"
  | .delete | .abort _ => "DELETE"
  | .initiate _ _ | .complete _ _ => "POST"

def Operation.name : Operation → String
  | .put _ _ _ => "PutObjectRequest"
  | .get _ => "GetObjectRequest"
  | .head => "HeadObjectRequest"
  | .delete => "DeleteObjectRequest"
  | .acl => "GetObjectAclRequest"
  | .copy _ _ _ => "CopyObjectRequest"
  | .initiate _ _ => "InitiateMultipartUploadRequest"
  | .uploadPart _ _ => "UploadPartRequest"
  | .copyPart _ _ _ _ => "CopyPartRequest"
  | .complete _ _ => "CompleteMultipartUploadRequest"
  | .abort _ => "AbortMultipartUploadRequest"
  | .bare => "ObjectRequest"

/-- How filters are to treat a request. With `encode` its entity is encrypted,
and the envelope is added to `userMetadata`; with `decode` the content of the
response is decrypted. Marks are for filters of other kinds. -/
structure Properties where
  encode : Bool := false
  decode : Bool := false
  userMetadata : Option UserMetadata := none
  marks : List String := []
  deriving DecidableEq

def Properties.mark (p : Properties) (name : String) : Properties :=
  if name ∈ p.marks then p else { p with marks := p.marks ++ [name] }

/-- What is to be done with one object. -/
structure Request where
  target : Identity
  operation : Operation
  entity : Option Stream := none
  contentLength : Option Int := none
  properties : Properties := {}

namespace Request

def method (r : Request) : String := r.operation.method

def summary (r : Request) : String :=
  r.operation.name ++ "(" ++ r.method ++ " " ++ r.target.label ++ ")"

def path (r : Request) : String := r.target.key

def withKey (r : Request) (key : String) : Request := { r with target := { r.target with key } }

def mark (r : Request) (name : String) : Request := { r with properties := r.properties.mark name }

def layered (r : Request) (l : Layer) : Request := { r with entity := r.entity.map (·.layered l) }

end Request

/-! ## Writes -/

/-- Content as a caller hands it in. -/
inductive Content where
  | bytes (content : Bytes)
  | stream (s : Stream)

def Content.toStream : Content → Stream
  | .bytes content => Stream.ofBytes content
  | .stream s => s

/-- A write as a caller keeps it. -/
structure Put where
  target : Identity
  entity : Option Stream := none
  contentLength : Option Int := none
  metadata : Option Metadata := none
  acl : Option AccessList := none
  range : Option ByteRange := none

namespace Put

/-- A write of some content. The length of a stream is what the metadata say. -/
def make (target : Identity) (content : Option Content) (metadata : Option Metadata)
    (acl : Option AccessList) (range : Option ByteRange) : Put where
  target := target
  entity := content.map Content.toStream
  contentLength :=
    match content with
    | some (.bytes b) => some b.length
    | _ => metadata.bind Metadata.contentLength
  metadata := metadata
  acl := acl
  range := range

def request (p : Put) : Request where
  target := p.target
  operation := .put p.metadata p.acl p.range
  entity := p.entity
  contentLength := p.contentLength

end Put

def Request.uploadPart (target : Identity) (uploadId : String) (number : Int)
    (content : Option Content) : Request where
  target := target
  operation := .uploadPart uploadId number
  entity := content.map Content.toStream

/-! ## Responses -/

inductive Payload where
  | nothing
  | acl (acl : AccessList)
  | uploadId (uploadId : String)
  deriving DecidableEq

/-- The answer to a request. `encoded` is the envelope of an entity that was
encrypted on the way. -/
structure Response where
  status : Int := 200
  entity : Option Stream := none
  metadata : Option Metadata := none
  etag : Option String := none
  versionId : Option String := none
  payload : Payload := .nothing
  encoded : Option UserMetadata := none

/-- What answers requests. It also gives the request back, with its entity as
far as it was read. -/
abbrev Handler (I : Interface) := Request → Program I (Except Error Response × Request)

end SealedStore
