import SealedStore.Hash.Sha256
import SealedStore.Program
/-!
# Random bytes from a seed

Deterministic random bytes: draw `i` of a run is the digest stream of a text
that names the seed, the draw and the block. Secrets and fillers differ in the
text, so that neither sequence moves the other on.
-/

namespace SealedStore.Entropy

/-- The first bytes of the digests of a text followed by a block number. -/
def digests (text : String) (size : Nat) : Bytes :=
  ((List.range ((size + 31) / 32)).flatMap fun j =>
    Sha256.digest (Bytes.ofText s!"{text}:{j}")).take size

theorem length_digests (text : String) (size : Nat) : (digests text size).length = size := by
  have h : ((List.range ((size + 31) / 32)).flatMap fun j =>
      Sha256.digest (Bytes.ofText s!"{text}:{j}")).length = 32 * ((size + 31) / 32) := by
    rw [List.length_flatMap]
    simp only [Sha256.length_digest, List.map_const', List.sum_replicate_nat, List.length_range]
    omega
  rw [digests, List.length_take, h]
  omega

def drawText (seed : String) : Draw → Nat → String
  | .secret, i => s!"{seed}:{i}"
  | .filler, i => s!"{seed}:filler:{i}"

/-- The random bytes that grow from a seed. -/
def ofSeed (seed : String) : Entropy where
  bytes kind i size := digests (drawText seed kind i) size
  length_bytes kind i size := length_digests (drawText seed kind i) size

end SealedStore.Entropy
