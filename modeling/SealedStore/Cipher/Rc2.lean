import SealedStore.Bytes
/-!
# RC2

A block cipher of eight bytes whose keys have an effective length besides their
length. A block is four words of 16 bits; each step changes the first word by
the other three and moves it to the end.

What is proved:
  1. `length_toBytes` — a block has eight bytes.
-/

namespace SealedStore.Rc2

/-! ## Keys -/

/-- A permutation of all bytes, taken from the digits of π. -/
def piTable : Array UInt8 := #[
  0xd9, 0x78, 0xf9, 0xc4, 0x19, 0xdd, 0xb5, 0xed, 0x28, 0xe9, 0xfd, 0x79, 0x4a, 0xa0, 0xd8, 0x9d,
  0xc6, 0x7e, 0x37, 0x83, 0x2b, 0x76, 0x53, 0x8e, 0x62, 0x4c, 0x64, 0x88, 0x44, 0x8b, 0xfb, 0xa2,
  0x17, 0x9a, 0x59, 0xf5, 0x87, 0xb3, 0x4f, 0x13, 0x61, 0x45, 0x6d, 0x8d, 0x09, 0x81, 0x7d, 0x32,
  0xbd, 0x8f, 0x40, 0xeb, 0x86, 0xb7, 0x7b, 0x0b, 0xf0, 0x95, 0x21, 0x22, 0x5c, 0x6b, 0x4e, 0x82,
  0x54, 0xd6, 0x65, 0x93, 0xce, 0x60, 0xb2, 0x1c, 0x73, 0x56, 0xc0, 0x14, 0xa7, 0x8c, 0xf1, 0xdc,
  0x12, 0x75, 0xca, 0x1f, 0x3b, 0xbe, 0xe4, 0xd1, 0x42, 0x3d, 0xd4, 0x30, 0xa3, 0x3c, 0xb6, 0x26,
  0x6f, 0xbf, 0x0e, 0xda, 0x46, 0x69, 0x07, 0x57, 0x27, 0xf2, 0x1d, 0x9b, 0xbc, 0x94, 0x43, 0x03,
  0xf8, 0x11, 0xc7, 0xf6, 0x90, 0xef, 0x3e, 0xe7, 0x06, 0xc3, 0xd5, 0x2f, 0xc8, 0x66, 0x1e, 0xd7,
  0x08, 0xe8, 0xea, 0xde, 0x80, 0x52, 0xee, 0xf7, 0x84, 0xaa, 0x72, 0xac, 0x35, 0x4d, 0x6a, 0x2a,
  0x96, 0x1a, 0xd2, 0x71, 0x5a, 0x15, 0x49, 0x74, 0x4b, 0x9f, 0xd0, 0x5e, 0x04, 0x18, 0xa4, 0xec,
  0xc2, 0xe0, 0x41, 0x6e, 0x0f, 0x51, 0xcb, 0xcc, 0x24, 0x91, 0xaf, 0x50, 0xa1, 0xf4, 0x70, 0x39,
  0x99, 0x7c, 0x3a, 0x85, 0x23, 0xb8, 0xb4, 0x7a, 0xfc, 0x02, 0x36, 0x5b, 0x25, 0x55, 0x97, 0x31,
  0x2d, 0x5d, 0xfa, 0x98, 0xe3, 0x8a, 0x92, 0xae, 0x05, 0xdf, 0x29, 0x10, 0x67, 0x6c, 0xba, 0xc9,
  0xd3, 0x00, 0xe6, 0xcf, 0xe1, 0x9e, 0xa8, 0x2c, 0x63, 0x16, 0x01, 0x3f, 0x58, 0xe2, 0x89, 0xa9,
  0x0d, 0x38, 0x34, 0x1b, 0xab, 0x33, 0xff, 0xb0, 0xbb, 0x48, 0x0c, 0x5f, 0xb9, 0xb1, 0xcd, 0x2e,
  0xc5, 0xf3, 0xdb, 0x47, 0xe5, 0xa5, 0x9c, 0x77, 0x0a, 0xa6, 0x20, 0x68, 0xfe, 0x7f, 0xc1, 0xad]

def sub (x : UInt8) : UInt8 := piTable.getD x.toNat 0

/-- The key made 128 bytes long: each byte comes from the one before and the one
a key length before. -/
def lengthen (key : Bytes) : Array UInt8 :=
  (List.range (128 - key.length)).foldl (fun l _ =>
    l.push (sub (l.back?.getD 0 + l.getD (l.size - key.length) 0))) key.toArray

/-- The bytes from the front up to the last one that counts, given those from
there on: `size` bytes count. -/
def shorten (size : Nat) : (count : Nat) → List UInt8 → List UInt8
  | 0, l => l
  | count + 1, l => shorten size count (sub (l.headD 0 ^^^ l.getD (size - 1) 0) :: l)

/-- The 64 words of a key whose effective length is so many bits. -/
def expand (bits : Nat) (key : Bytes) : Array UInt16 :=
  let size := (bits + 7) / 8
  let long := lengthen key
  let first := sub (long.getD (128 - size) 0 &&& UInt8.ofNat (255 >>> (8 * size - bits)))
  let all := shorten size (128 - size) (first :: (long.toList.drop (129 - size)))
  ((Bytes.blocks 2 all).map fun b => UInt16.ofNat (Bytes.toNat b.reverse)).toArray

/-! ## Blocks -/

structure Words where
  a : UInt16
  b : UInt16
  c : UInt16
  d : UInt16

def Words.ofBytes (block : Bytes) : Words :=
  let word (i : Nat) := UInt16.ofNat (Bytes.toNat ((block.drop (2 * i)).take 2).reverse)
  ⟨word 0, word 1, word 2, word 3⟩

def Words.toBytes (w : Words) : Bytes :=
  [w.a, w.b, w.c, w.d].flatMap fun x => (Bytes.ofNat 2 x.toNat).reverse

theorem length_toBytes (w : Words) : w.toBytes.length = 8 := by
  simp [Words.toBytes, Bytes.length_ofNat]

/-- One step: a word is mixed with a word of the key, or with one that the other
words choose. -/
inductive Step where
  | mix (i : Nat)
  | mash

def turn (i : Nat) : UInt16 := [1, 2, 3, 5].getD (i % 4) 0

def rotateLeft (x n : UInt16) : UInt16 := x <<< n ||| x >>> (16 - n)

def Step.addend (k : Array UInt16) (b c d : UInt16) : Step → UInt16
  | .mix i => k.getD i 0 + (d &&& c) + (~~~d &&& b)
  | .mash => k.getD (d &&& 63).toNat 0

def Step.run (k : Array UInt16) (w : Words) (s : Step) : Words :=
  let x := w.a + s.addend k w.b w.c w.d
  ⟨w.b, w.c, w.d, match s with
    | .mix i => rotateLeft x (turn i)
    | .mash => x⟩

def Step.undo (k : Array UInt16) (w : Words) (s : Step) : Words :=
  let x := match s with
    | .mix i => rotateLeft w.d (16 - turn i)
    | .mash => w.d
  ⟨x - s.addend k w.a w.b w.c, w.a, w.b, w.c⟩

/-- All steps: sixteen times four that mix, with four that mash after the fifth
and the eleventh time. -/
def steps : List Step :=
  (List.range 20).map .mix ++ List.replicate 4 .mash ++ (List.range' 20 24).map .mix ++
    List.replicate 4 .mash ++ (List.range' 44 20).map .mix

def encrypt (k : Array UInt16) (block : Bytes) : Bytes :=
  (steps.foldl (Step.run k) (Words.ofBytes block)).toBytes

def decrypt (k : Array UInt16) (block : Bytes) : Bytes :=
  (steps.reverse.foldl (Step.undo k) (Words.ofBytes block)).toBytes

end SealedStore.Rc2
