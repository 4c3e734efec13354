import SealedStore.Hash.Md5
import SealedStore.Hash.Sha1
import SealedStore.Hash.Sha512
/-!
# Hash functions and keyed digests

The hashes as values of one type, and the message authentication code that
every hash gives.
-/

namespace SealedStore

/-- A hash: its digest, and the length of the blocks it works on. -/
structure HashFunction where
  digest : Bytes → Bytes
  blockSize : Nat := 64

namespace HashFunction

def sha1 : HashFunction := ⟨Sha1.digest, 64⟩

def sha224 : HashFunction := ⟨Sha256.digest224, 64⟩

def sha256 : HashFunction := ⟨Sha256.digest, 64⟩

def sha384 : HashFunction := ⟨Sha512.digest384, 128⟩

def sha512 : HashFunction := ⟨Sha512.digest, 128⟩

def size (h : HashFunction) : Nat := (h.digest []).length

end HashFunction

/-- The keyed digest over a hash: a key longer than a block is replaced by its
digest, then filled up with zeros. -/
def hmac (hash : HashFunction) (key message : Bytes) : Bytes :=
  let short := if key.length > hash.blockSize then hash.digest key else key
  let block := short ++ List.replicate (hash.blockSize - short.length) 0
  hash.digest (block.map (· ^^^ 0x5c) ++ hash.digest (block.map (· ^^^ 0x36) ++ message))

end SealedStore
