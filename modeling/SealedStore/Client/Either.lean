import SealedStore.Client.Encrypting
/-!
# Clients of either kind

A plain and an encrypting client have the same operations. Some of them an
encrypting client only has in order to refuse them.
-/

namespace SealedStore

/-- A client of either kind. -/
inductive AnyClient where
  | plain (client : Client)
  | encrypting (client : EncryptingClient)

namespace AnyClient

def base : AnyClient → Client
  | .plain c => c
  | .encrypting c => c.base

/-! ## Objects -/

def put : AnyClient → Put → Program StorageInterface (Except Error WriteResult × Put)
  | .plain c, p => c.put p
  | .encrypting c, p => c.put p

def get (target : Identity) (range : Option ByteRange) : AnyClient → StorageTask ObjectContent
  | .plain c => c.get target range
  | .encrypting c => c.get target range

def read (target : Identity) : AnyClient → StorageTask Bytes
  | .plain c => c.read target
  | .encrypting c => c.read target

def copy (source target : Identity) (metadata : Option Metadata) (acl : Option AccessList) :
    AnyClient → StorageTask WriteResult
  | .plain c => c.copy source target metadata acl
  | .encrypting c => c.copy source target metadata acl

def setMetadata (target : Identity) (metadata : Option Metadata) : AnyClient → StorageTask Unit
  | .plain c => c.setMetadata target metadata
  | .encrypting _ => EncryptingClient.setMetadata

/-! ## Links -/

def link (r : LinkRequest) : AnyClient → Except Error String
  | .plain c => c.link r
  | .encrypting _ => EncryptingClient.link

def linkFromNow (target : Identity) (method : String) : AnyClient → StorageTask String
  | .plain c => c.linkFromNow target method
  | .encrypting c => c.linkFromNow

/-! ## Uploads in parts -/

/-- A step of an upload in parts, for the clients that have them. -/
def multipart {α : Type} (step : Client → StorageTask α) : AnyClient → StorageTask α
  | .plain c => step c
  | .encrypting _ => EncryptingClient.multipart

end AnyClient

end SealedStore
