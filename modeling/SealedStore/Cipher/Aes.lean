import SealedStore.Bytes
/-!
# AES

The block cipher with keys of 16, 24 and 32 bytes. The S-box is computed from
its definition, inversion in the field of 256 elements followed by an affine
map, so the module holds no table that could be mistyped.

What is proved:
  1. `length_encrypt` — a block has 16 bytes.
-/

namespace SealedStore.Aes

/-! ## The field of 256 elements -/

/-- Multiplication by the polynomial x. -/
def double (a : UInt8) : UInt8 := if a &&& 0x80 = 0 then a <<< 1 else (a <<< 1) ^^^ 0x1b

/-- The product of `a` and the `bits` low bits of `b`. -/
def timesBits : (bits : Nat) → (a b : UInt8) → UInt8
  | 0, _, _ => 0
  | bits + 1, a, b => (if b &&& 1 = 1 then a else 0) ^^^ timesBits bits (double a) (b >>> 1)

def times (a b : UInt8) : UInt8 := timesBits 8 a b

/-- The inverse, with zero its own inverse: the 254th power. -/
def inverse (a : UInt8) : UInt8 :=
  let a2 := times a a
  let a4 := times a2 a2
  let a8 := times a4 a4
  let a16 := times a8 a8
  let a32 := times a16 a16
  let a64 := times a32 a32
  let a128 := times a64 a64
  times a128 (times a64 (times a32 (times a16 (times a8 (times a4 a2)))))

def turn (a : UInt8) (n : UInt8) : UInt8 := a <<< n ||| a >>> (8 - n)

/-- The substitution of one byte. -/
def substitute (a : UInt8) : UInt8 :=
  let b := inverse a
  b ^^^ turn b 1 ^^^ turn b 2 ^^^ turn b 3 ^^^ turn b 4 ^^^ 0x63

/-! ## Tables -/

def sbox : Array UInt8 := ((List.range 256).map fun n => substitute (UInt8.ofNat n)).toArray

def sub (a : UInt8) : UInt8 := sbox.getD a.toNat 0

/-- The byte that is substituted by each byte. -/
def inverseSbox : Array UInt8 :=
  ((List.range 256).map fun n =>
    UInt8.ofNat (sbox.toList.findIdx fun x => x == UInt8.ofNat n)).toArray

def word (a b c d : UInt8) : UInt32 :=
  a.toUInt32 <<< 24 ||| b.toUInt32 <<< 16 ||| c.toUInt32 <<< 8 ||| d.toUInt32

def byteAt (w : UInt32) (i : UInt32) : UInt8 := (w >>> (24 - 8 * i)).toUInt8

/-- The column a substituted first-row byte contributes to the mixed state. -/
def mixTable : Array UInt32 :=
  ((List.range 256).map fun n =>
    let s := substitute (UInt8.ofNat n)
    word (double s) s s (double s ^^^ s)).toArray

/-- The contribution of a byte of row `row`: the first row's, turned. -/
def mixed (w : UInt32) (row : UInt32) : UInt32 :=
  let t := mixTable.getD (byteAt w row).toNat 0
  if row = 0 then t else t >>> (8 * row) ||| t <<< (32 - 8 * row)

/-! ## Key schedule -/

def subWord (w : UInt32) : UInt32 :=
  word (sub (byteAt w 0)) (sub (byteAt w 1)) (sub (byteAt w 2)) (sub (byteAt w 3))

/-- The words of a key. -/
def keyWords : Bytes → List UInt32
  | a :: b :: c :: d :: rest => word a b c d :: keyWords rest
  | _ => []

/-- The next word of the schedule of a key of `n` words, with the round
constant due at the start of each group. -/
def nextWord (n : Nat) (s : Array UInt32 × UInt8) : Array UInt32 × UInt8 :=
  let i := s.1.size
  let last := s.1.getD (i - 1) 0
  let base := s.1.getD (i - n) 0
  if i % n = 0 then
    let turned := last <<< 8 ||| last >>> 24
    (s.1.push (base ^^^ subWord turned ^^^ (s.2.toUInt32 <<< 24)), double s.2)
  else if n > 6 ∧ i % n = 4 then (s.1.push (base ^^^ subWord last), s.2)
  else (s.1.push (base ^^^ last), s.2)

def expand (key : Bytes) : Array UInt32 :=
  let n := key.length / 4
  ((List.range (4 * (n + 7) - n)).foldl (fun s _ => nextWord n s)
    ((keyWords key).toArray, (1 : UInt8))).1

/-! ## Blocks -/

structure Columns where
  c0 : UInt32
  c1 : UInt32
  c2 : UInt32
  c3 : UInt32

def Columns.ofBytes (b : Bytes) : Columns :=
  let w := (keyWords b).toArray
  ⟨w.getD 0 0, w.getD 1 0, w.getD 2 0, w.getD 3 0⟩

def Columns.toBytes (s : Columns) : Bytes :=
  [s.c0, s.c1, s.c2, s.c3].flatMap fun w => Bytes.ofNat 4 w.toNat

def Columns.addKey (k : Array UInt32) (r : Nat) (s : Columns) : Columns :=
  ⟨s.c0 ^^^ k.getD (4 * r) 0, s.c1 ^^^ k.getD (4 * r + 1) 0,
    s.c2 ^^^ k.getD (4 * r + 2) 0, s.c3 ^^^ k.getD (4 * r + 3) 0⟩

def mixColumn (a b c d : UInt32) : UInt32 := mixed a 0 ^^^ mixed b 1 ^^^ mixed c 2 ^^^ mixed d 3

def lastColumn (a b c d : UInt32) : UInt32 :=
  word (sub (byteAt a 0)) (sub (byteAt b 1)) (sub (byteAt c 2)) (sub (byteAt d 3))

/-- One round: substitute, shift rows, mix columns, add the round key. -/
def round (k : Array UInt32) (s : Columns) (r : Nat) : Columns :=
  Columns.addKey k r ⟨mixColumn s.c0 s.c1 s.c2 s.c3, mixColumn s.c1 s.c2 s.c3 s.c0,
    mixColumn s.c2 s.c3 s.c0 s.c1, mixColumn s.c3 s.c0 s.c1 s.c2⟩

def encrypt (k : Array UInt32) (block : Bytes) : Bytes :=
  let rounds := k.size / 4 - 1
  let s := (List.range' 1 (rounds - 1)).foldl (round k) (Columns.addKey k 0 (Columns.ofBytes block))
  (Columns.addKey k rounds ⟨lastColumn s.c0 s.c1 s.c2 s.c3, lastColumn s.c1 s.c2 s.c3 s.c0,
    lastColumn s.c2 s.c3 s.c0 s.c1, lastColumn s.c3 s.c0 s.c1 s.c2⟩).toBytes

theorem length_toBytes (s : Columns) : s.toBytes.length = 16 := by
  simp [Columns.toBytes, Bytes.length_ofNat]

theorem length_encrypt (k : Array UInt32) (block : Bytes) : (encrypt k block).length = 16 :=
  length_toBytes _

/-! ## The inverse cipher -/

def unsub (a : UInt8) : UInt8 := inverseSbox.getD a.toNat 0

def unshiftColumn (a b c d : UInt32) : UInt32 :=
  word (unsub (byteAt a 0)) (unsub (byteAt b 1)) (unsub (byteAt c 2)) (unsub (byteAt d 3))

def Columns.unsubstitute (s : Columns) : Columns :=
  ⟨unshiftColumn s.c0 s.c3 s.c2 s.c1, unshiftColumn s.c1 s.c0 s.c3 s.c2,
    unshiftColumn s.c2 s.c1 s.c0 s.c3, unshiftColumn s.c3 s.c2 s.c1 s.c0⟩

def unmixColumn (w : UInt32) : UInt32 :=
  let a := byteAt w 0
  let b := byteAt w 1
  let c := byteAt w 2
  let d := byteAt w 3
  let row (p q r s : UInt8) : UInt8 := times p 14 ^^^ times q 11 ^^^ times r 13 ^^^ times s 9
  word (row a b c d) (row b c d a) (row c d a b) (row d a b c)

def Columns.unmix (s : Columns) : Columns :=
  ⟨unmixColumn s.c0, unmixColumn s.c1, unmixColumn s.c2, unmixColumn s.c3⟩

def decrypt (k : Array UInt32) (block : Bytes) : Bytes :=
  let rounds := k.size / 4 - 1
  let s := (List.range' 1 (rounds - 1)).reverse.foldl
    (fun s r => (Columns.addKey k r s.unsubstitute).unmix)
    (Columns.addKey k rounds (Columns.ofBytes block))
  (Columns.addKey k 0 s.unsubstitute).toBytes

end SealedStore.Aes
