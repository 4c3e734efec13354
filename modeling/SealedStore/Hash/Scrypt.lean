import SealedStore.Hash.Derivation
/-!
# Keys from passwords that take memory

Key bytes are mixed in a way that needs many blocks at once: a chain of blocks
is laid down, and then blocks of it are taken up again in an order that only
the mixing itself gives. A block is a list of rows of sixteen words.
-/

namespace SealedStore.Scrypt

abbrev Row := Array UInt32

/-- A block: an even number of rows. -/
abbrev Block := List Row

/-! ## Rows -/

/-- The word that changes, the two it is changed by, and by how much their sum is
turned: four columns of four, then four rows. -/
def quarterSteps : List (Nat × Nat × Nat × UInt32) :=
  let along (cells : List Nat) : List (Nat × Nat × Nat × UInt32) :=
    ([7, 9, 13, 18] : List UInt32).zipIdx.map fun (n, i) =>
      let cell (j : Nat) := cells.getD (j % 4) 0
      (cell (i + 1), cell i, cell (i + 3), n)
  [[0, 4, 8, 12], [5, 9, 13, 1], [10, 14, 2, 6], [15, 3, 7, 11],
    [0, 1, 2, 3], [5, 6, 7, 4], [10, 11, 8, 9], [15, 12, 13, 14]].flatMap along

def allSteps : List (Nat × Nat × Nat × UInt32) := (List.replicate 4 quarterSteps).flatten

/-- A row after eight rounds, added to itself before. -/
def mixRow (row : Row) : Row :=
  let mixed := allSteps.foldl (fun x (i, j, k, n) =>
    x.modify i (· ^^^ Hash.rotateLeft (x.getD j 0 + x.getD k 0) n)) row
  Array.zipWith (· + ·) row mixed

def xorRow (a b : Row) : Row := Array.zipWith (· ^^^ ·) a b

/-! ## Blocks -/

def mixRows : (previous : Row) → Block → Block
  | _, [] => []
  | previous, r :: rest => let x := mixRow (xorRow previous r); x :: mixRows x rest

def unzip : Block → Block × Block
  | a :: b :: rest => let (even, odd) := unzip rest; (a :: even, b :: odd)
  | l => (l, [])

/-- A block after mixing: the rows at even places come first. -/
def mixBlock (b : Block) : Block :=
  let (even, odd) := unzip (mixRows (b.getLastD #[]) b)
  even ++ odd

/-- The blocks of a chain, and the one that follows them. -/
def fill : (cost : Nat) → Block → Array Block → Array Block × Block
  | 0, b, laid => (laid, b)
  | cost + 1, b, laid => fill cost (mixBlock b) (laid.push b)

def place (b : Block) : Nat :=
  let row := b.getLastD #[]
  (row.getD 0 0).toNat + UInt32.size * (row.getD 1 0).toNat

def takeUp (laid : Array Block) : (count : Nat) → Block → Block
  | 0, b => b
  | count + 1, b =>
    let other := laid.getD (place b % laid.size) []
    takeUp laid count (mixBlock (List.zipWith xorRow b other))

def toBytes (b : Block) : Bytes := b.flatMap fun row => row.toList.flatMap fun w =>
  (Bytes.ofNat 4 w.toNat).reverse

def ofBytes (b : Bytes) : Block :=
  (Bytes.blocks 64 b).map fun row =>
    ((Bytes.blocks 4 row).map fun w => UInt32.ofNat (Bytes.toNat w.reverse)).toArray

def mixBytes (cost : Nat) (b : Bytes) : Bytes :=
  let (laid, last) := fill cost (ofBytes b) #[]
  toBytes (takeUp laid cost last)

/-! ## Keys -/

/-- How much memory and work a derivation takes. -/
structure Settings where
  salt : Bytes
  cost : Nat
  blockSize : Nat
  parallel : Nat

def maxMemory : Nat := 1 <<< 30

/-- The cost is a power of two that the block size can count up to, and memory
suffices. -/
def Settings.areValid (s : Settings) : Bool :=
  0 < s.blockSize && 0 < s.parallel && 2 ≤ s.cost && s.cost &&& (s.cost - 1) == 0 &&
    s.parallel * s.blockSize < 1 <<< 30 && s.cost.log2 < 16 * s.blockSize &&
    128 * s.cost * s.blockSize ≤ maxMemory

def derive (s : Settings) (password : Bytes) (length : Nat) : Bytes :=
  let size := 128 * s.blockSize
  let start := Pbkdf2.derive .sha256 password s.salt 1 (size * s.parallel)
  let mixed := (Bytes.blocks size start).flatMap (mixBytes s.cost)
  Pbkdf2.derive .sha256 password mixed 1 length

end SealedStore.Scrypt
