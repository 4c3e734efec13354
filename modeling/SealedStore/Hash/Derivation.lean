import SealedStore.Hash.Hmac
/-!
# Keys from passwords

Three ways to make key bytes from a password and a salt: by iterating a keyed
digest (`Pbkdf2.derive`), by chaining digests (`chainedKey`), and by iterating
digests of password and salt repeated to whole blocks (`Diversified.derive`).

What is proved:
  1. `length_chainedKey` — a chain of digests has the length that is asked for.
-/

namespace SealedStore

/-! ## Iterated codes -/

namespace Pbkdf2

/-- The exclusive or of `acc` and the `rounds` codes that follow `u`. -/
def iterate (code : Bytes → Bytes) : (rounds : Nat) → (u acc : Bytes) → Bytes
  | 0, _, acc => acc
  | rounds + 1, u, acc => let v := code u; iterate code rounds v (Bytes.xor acc v)

/-- The `i`-th block of derived key, counted from one. -/
def block (code : Bytes → Bytes) (salt : Bytes) (rounds i : Nat) : Bytes :=
  let first := code (salt ++ Bytes.ofNat 4 i)
  iterate code (rounds - 1) first first

def derive (hash : HashFunction) (password salt : Bytes) (rounds length : Nat) : Bytes :=
  ((List.range ((length + hash.size - 1) / hash.size)).flatMap fun i =>
    block (hmac hash password) salt rounds (i + 1)).take length

end Pbkdf2

/-! ## Chained digests -/

/-- `count` digests, each of the one before it and the text. -/
def chainedDigests (text : Bytes) : (count : Nat) → (previous : Bytes) → Bytes
  | 0, _ => []
  | count + 1, previous => let d := Md5.digest (previous ++ text); d ++ chainedDigests text count d

def chainedKey (password salt : Bytes) (length : Nat) : Bytes :=
  (chainedDigests (password ++ salt) ((length + 15) / 16) []).take length

theorem length_chainedDigests (text : Bytes) (count : Nat) (previous : Bytes) :
    (chainedDigests text count previous).length = 16 * count := by
  induction count generalizing previous with
  | zero => rfl
  | succ count ih =>
    simp only [chainedDigests, List.length_append, Md5.length_digest, ih]
    omega

theorem length_chainedKey (password salt : Bytes) (length : Nat) :
    (chainedKey password salt length).length = length := by
  simp only [chainedKey, List.length_take, length_chainedDigests]
  omega

/-! ## Diversified digests -/

namespace Diversified

inductive Purpose where
  | key
  | initialBlock

def Purpose.number : Purpose → UInt8
  | .key => 1
  | .initialBlock => 2

def fillBlocks (size : Nat) (b : Bytes) : Bytes :=
  let length := (b.length + size - 1) / size * size
  ((List.replicate length b).flatten).take length

def iterate (hash : HashFunction) : (rounds : Nat) → Bytes → Bytes
  | 0, b => b
  | rounds + 1, b => iterate hash rounds (hash.digest b)

/-- `count` digests of the state; after each, its digest and one are added to
every block of the state. -/
def digests (hash : HashFunction) (start : Bytes) (rounds : Nat) : (count : Nat) → Bytes → Bytes
  | 0, _ => []
  | count + 1, state =>
    let d := iterate hash rounds (start ++ state)
    let addend := Bytes.toNat ((fillBlocks hash.blockSize d).take hash.blockSize) + 1
    let next := (Bytes.blocks hash.blockSize state).flatMap fun b =>
      -- The sum wraps around at the size of a block.
      Bytes.ofNat hash.blockSize (Bytes.toNat b + addend)
    d ++ digests hash start rounds count next

def derive (hash : HashFunction) (purpose : Purpose) (password salt : Bytes) (rounds length : Nat) :
    Bytes :=
  let state := fillBlocks hash.blockSize salt ++ fillBlocks hash.blockSize password
  (digests hash (List.replicate hash.blockSize purpose.number) rounds
    ((length + hash.size - 1) / hash.size) state).take length

end Diversified

end SealedStore
