import SealedStore.Der
/-!
# Algorithms in key files

A key file names the algorithm of a key, and how it is encrypted, by an
identifier and parameters.
-/

namespace SealedStore.KeyFile

/-- An algorithm: its identifier, and its parameters if there are any. -/
structure Algorithm where
  id : Der.ObjectId
  parameters : Option Der.Value := none
  deriving DecidableEq

namespace Algorithm

def ofValue? (v : Der.Value) : Option Algorithm := do
  match ← v.parts? with
  | [id] => return ⟨← id.object?, none⟩
  | [id, parameters] => return ⟨← id.object?, some parameters⟩
  | _ => none

def isBare (a : Algorithm) : Bool := a.parameters.isNone

/-- No parameters are given, or they are null. -/
def isPlain (a : Algorithm) : Bool := a.parameters.all Der.Value.isNull

def settings? (a : Algorithm) : Option (List Der.Value) := a.parameters.bind Der.Value.parts?

/-! ## Keys -/

def rsaPss : Der.ObjectId := [1, 2, 840, 113549, 1, 1, 10]

def dsa : Der.ObjectId := [1, 2, 840, 10040, 4, 1]

def elliptic : Der.ObjectId := [1, 2, 840, 10045, 2, 1]

def diffieHellman : Der.ObjectId := [1, 2, 840, 113549, 1, 3, 1]

def diffieHellmanGroup : Der.ObjectId := [1, 2, 840, 10046, 2, 1]

/-- The curves with an identifier of their own, and the length of their keys. -/
def ownCurves : List (Der.ObjectId × Nat) :=
  [([1, 3, 101, 110], 32), ([1, 3, 101, 111], 56), ([1, 3, 101, 112], 32), ([1, 3, 101, 113], 57)]

/-! ## Encryption -/

def passwordScheme : Der.ObjectId := [1, 2, 840, 113549, 1, 5, 13]

def diversifiedTripleDes : Der.ObjectId := [1, 2, 840, 113549, 1, 12, 1, 3]

def diversifiedRc2 : Der.ObjectId := [1, 2, 840, 113549, 1, 12, 1, 6]

def iteratedDerivation : Der.ObjectId := [1, 2, 840, 113549, 1, 5, 12]

def memoryDerivation : Der.ObjectId := [1, 3, 6, 1, 4, 1, 11591, 4, 11]

def aes128Cbc : Der.ObjectId := [2, 16, 840, 1, 101, 3, 4, 1, 2]

def aes192Cbc : Der.ObjectId := [2, 16, 840, 1, 101, 3, 4, 1, 22]

def aes256Cbc : Der.ObjectId := [2, 16, 840, 1, 101, 3, 4, 1, 42]

def tripleDesCbc : Der.ObjectId := [1, 2, 840, 113549, 3, 7]

def rc2Cbc : Der.ObjectId := [1, 2, 840, 113549, 3, 2]

/-! ## Hashes -/

def hmacSha1 : Der.ObjectId := [1, 2, 840, 113549, 2, 7]

def hmacSha224 : Der.ObjectId := [1, 2, 840, 113549, 2, 8]

def hmacSha256 : Der.ObjectId := [1, 2, 840, 113549, 2, 9]

def hmacSha384 : Der.ObjectId := [1, 2, 840, 113549, 2, 10]

def hmacSha512 : Der.ObjectId := [1, 2, 840, 113549, 2, 11]

def sha1 : Der.ObjectId := [1, 3, 14, 3, 2, 26]

/-- The hashes of the second and third family: their parameters are null. -/
def newerHashes : List Der.ObjectId :=
  [4, 1, 2, 3, 7, 8, 9, 10].map fun n => [2, 16, 840, 1, 101, 3, 4, 2, n]

def hashMask : Der.ObjectId := [1, 2, 840, 113549, 1, 1, 8]

end Algorithm

end SealedStore.KeyFile
