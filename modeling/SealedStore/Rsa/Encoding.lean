import SealedStore.KeyFile.Algorithm
import SealedStore.Rsa.Key
/-!
# RSA keys as values

An RSA key on its own is the sequence of its numbers after a version of zero.

What is proved:
  1. `consistent_of_ofDer?` — the parts of a key that is read belong together.
-/

namespace SealedStore.Rsa

def Key.toDer (k : Key) : Bytes :=
  Der.sequence ([0, k.modulus, k.publicExponent, k.privateExponent, k.prime1, k.prime2,
    k.exponent1, k.exponent2, k.coefficient].map Der.integer)

def Key.ofDer? (der : Bytes) : Option Key :=
  match (Der.readSequence? der).bind fun values => values.mapM Der.Value.nat? with
  | some [0, n, e, d, p, q, dp, dq, qi] =>
    let key : Key := ⟨n, e, d, p, q, dp, dq, qi⟩
    if key.Consistent then some key else none
  | _ => none

theorem consistent_of_ofDer? {der : Bytes} {k : Key} (h : Key.ofDer? der = some k) : k.Consistent := by
  unfold Key.ofDer? at h
  split at h
  · dsimp only at h
    split at h
    · next hc => exact Option.some.inj h ▸ hc
    · cases h
  · cases h

/-! ## Parameters of signatures -/

open KeyFile (Algorithm)

def readHash? (v : Der.Value) : Option Algorithm :=
  (Algorithm.ofValue? v).filter fun a =>
    !(a.id = Algorithm.sha1 ∨ a.id ∈ Algorithm.newerHashes) || a.isPlain

def usualHash : Algorithm := ⟨Algorithm.sha1, some ⟨[5], []⟩⟩

/-- Whether a value names a mask and its hash, other than the usual one. -/
def isMask (v : Der.Value) : Bool :=
  match v.parts? with
  | some [id, hash] =>
    match id.object?, readHash? hash with
    | some id, some hash => !(id = Algorithm.hashMask ∧ hash = usualHash)
    | _, _ => false
  | _ => false

def isNumber (bound : Nat) (usual : Option Nat) (v : Der.Value) : Bool :=
  v.nat?.any fun n => n < bound && some n != usual

/-- The settings of a signature with salt by their tags: hash, mask, length of
the salt, trailer. What equals the usual setting must not be written. -/
def settingChecks : List (UInt8 × (Der.Value → Bool)) := [
  (0xa0, fun v => (readHash? v).any (· != usualHash)), (0xa1, isMask),
  (0xa2, isNumber 0x10000 (some 20)), (0xa3, isNumber 0x100 none)]

def areSettings : List (UInt8 × (Der.Value → Bool)) → List Der.Value → Bool
  | _, [] => true
  | [], _ :: _ => false
  | (tag, check) :: checks, v :: rest =>
    -- Settings stand in the order of their tags, and each of them may be left out.
    if v.tag = [tag] then (v.inside? tag).any check && areSettings checks rest
    else areSettings checks (v :: rest)

/-- Whether an algorithm is RSA, with parameters that may go with it. -/
def isAlgorithm (a : Algorithm) : Bool :=
  if a.id = idRsa then a.isPlain
  else a.id = Algorithm.rsaPss && a.parameters.all fun v => v.parts?.any (areSettings settingChecks)

end SealedStore.Rsa
