import SealedStore.Identity
import SealedStore.Table
/-!
# What is stored beside the content

System and user metadata of an object, its access control list, and what a
write or a multipart upload hands back.
-/

namespace SealedStore

abbrev UserMetadata := Table String String

structure Metadata where
  contentType : Option String := none
  contentLength : Option Int := none
  etag : Option String := none
  lastModified : Option Int := none
  user : UserMetadata := Table.empty
  deriving DecidableEq, Inhabited

/-! ## Access control -/

inductive Permission where
  | fullControl
  | read
  | write
  | readAcl
  | writeAcl
  deriving DecidableEq

def Permission.named : List (String × Permission) :=
  [("FULL_CONTROL", .fullControl), ("READ", .read), ("WRITE", .write), ("READ_ACP", .readAcl),
    ("WRITE_ACP", .writeAcl)]

def Permission.name : Permission → String
  | .fullControl => "FULL_CONTROL"
  | .read => "READ"
  | .write => "WRITE"
  | .readAcl => "READ_ACP"
  | .writeAcl => "WRITE_ACP"

def Permission.ofName? (s : String) : Option Permission :=
  (Permission.named.find? fun e => e.1 == s).map (·.2)

theorem Permission.ofName?_name (p : Permission) : Permission.ofName? p.name = some p := by
  cases p <;> decide

structure Grant where
  grantee : String
  permission : Permission
  deriving DecidableEq

/-- The owner of an object and what others may do with it. -/
structure AccessList where
  owner : Option String := none
  grants : List Grant := []
  deriving DecidableEq, Inhabited

def AccessList.addGrant (a : AccessList) (g : Grant) : AccessList := { a with grants := a.grants ++ [g] }

/-! ## Results and handles -/

/-- What a write hands back; a copy also says when it was made. -/
structure WriteResult where
  etag : Option String := none
  versionId : Option String := none
  metadata : Option Metadata := none
  copiedAt : Option Int := none
  deriving DecidableEq, Inhabited

structure PartTag where
  number : Int
  etag : String
  deriving DecidableEq

structure UploadHandle where
  target : Identity
  uploadId : String
  deriving DecidableEq

end SealedStore
