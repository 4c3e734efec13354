import SealedStore.Bytes
/-!
# SHA-256

The digest of a byte string: the message is padded to whole blocks of 64
bytes, and the blocks are folded into a chain of eight words. A digest depends
on the bytes alone and not on how they arrived, so a running digest is the
list of bytes seen so far and nothing else.

What is proved:
  1. `length_digest` — a digest has 32 bytes.
-/

namespace SealedStore

/-! ## Padding shared by the hashes of this family -/

/-- Padding to whole blocks of 64 bytes: a one bit, zeros, and the length in
bits in the last eight bytes, in the byte order `order` gives. -/
def Hash.pad (order : Bytes → Bytes) (message : Bytes) : Bytes :=
  let zeros := (119 - message.length % 64) % 64
  message ++ 0x80 :: List.replicate zeros 0 ++ order (Bytes.ofNat 8 (message.length * 8))

def Hash.word (a b c d : UInt8) : UInt32 :=
  a.toUInt32 <<< 24 ||| b.toUInt32 <<< 16 ||| c.toUInt32 <<< 8 ||| d.toUInt32

def Hash.words : Bytes → List UInt32
  | a :: b :: c :: d :: rest => Hash.word a b c d :: Hash.words rest
  | _ => []

def Hash.rotateLeft (x n : UInt32) : UInt32 := x <<< n ||| x >>> (32 - n)

namespace Sha256

structure State where
  a : UInt32
  b : UInt32
  c : UInt32
  d : UInt32
  e : UInt32
  f : UInt32
  g : UInt32
  h : UInt32

/-- The first 32 bits of the fractional parts of the square roots of the first
eight primes. -/
def initial : State :=
  ⟨0x6a09e667, 0xbb67ae85, 0x3c6ef372, 0xa54ff53a, 0x510e527f, 0x9b05688c, 0x1f83d9ab, 0x5be0cd19⟩

/-- The second 32 bits of the fractional parts of the square roots of the next
eight primes, where SHA-224 starts. -/
def initial224 : State :=
  ⟨0xc1059ed8, 0x367cd507, 0x3070dd17, 0xf70e5939, 0xffc00b31, 0x68581511, 0x64f98fa7, 0xbefa4fa4⟩

/-- The first 32 bits of the fractional parts of the cube roots of the first
64 primes. -/
def roundConstants : List UInt32 := [
  0x428a2f98, 0x71374491, 0xb5c0fbcf, 0xe9b5dba5, 0x3956c25b, 0x59f111f1, 0x923f82a4, 0xab1c5ed5,
  0xd807aa98, 0x12835b01, 0x243185be, 0x550c7dc3, 0x72be5d74, 0x80deb1fe, 0x9bdc06a7, 0xc19bf174,
  0xe49b69c1, 0xefbe4786, 0x0fc19dc6, 0x240ca1cc, 0x2de92c6f, 0x4a7484aa, 0x5cb0a9dc, 0x76f988da,
  0x983e5152, 0xa831c66d, 0xb00327c8, 0xbf597fc7, 0xc6e00bf3, 0xd5a79147, 0x06ca6351, 0x14292967,
  0x27b70a85, 0x2e1b2138, 0x4d2c6dfc, 0x53380d13, 0x650a7354, 0x766a0abb, 0x81c2c92e, 0x92722c85,
  0xa2bfe8a1, 0xa81a664b, 0xc24b8b70, 0xc76c51a3, 0xd192e819, 0xd6990624, 0xf40e3585, 0x106aa070,
  0x19a4c116, 0x1e376c08, 0x2748774c, 0x34b0bcb5, 0x391c0cb3, 0x4ed8aa4a, 0x5b9cca4f, 0x682e6ff3,
  0x748f82ee, 0x78a5636f, 0x84c87814, 0x8cc70208, 0x90befffa, 0xa4506ceb, 0xbef9a3f7, 0xc67178f2]

def rotateRight (x n : UInt32) : UInt32 := Hash.rotateLeft x (32 - n)

def scheduleWord (w : Array UInt32) (i : Nat) : UInt32 :=
  let at15 := w.getD (i - 15) 0
  let at2 := w.getD (i - 2) 0
  let s0 := rotateRight at15 7 ^^^ rotateRight at15 18 ^^^ at15 >>> 3
  let s1 := rotateRight at2 17 ^^^ rotateRight at2 19 ^^^ at2 >>> 10
  w.getD (i - 16) 0 + s0 + w.getD (i - 7) 0 + s1

def schedule (block : Bytes) : Array UInt32 :=
  (List.range 48).foldl (fun w i => w.push (scheduleWord w (i + 16))) (Hash.words block).toArray

def round (s : State) (kw : UInt32 × UInt32) : State :=
  let s1 := rotateRight s.e 6 ^^^ rotateRight s.e 11 ^^^ rotateRight s.e 25
  let choice := (s.e &&& s.f) ^^^ (~~~s.e &&& s.g)
  let t1 := s.h + s1 + choice + kw.1 + kw.2
  let s0 := rotateRight s.a 2 ^^^ rotateRight s.a 13 ^^^ rotateRight s.a 22
  let majority := (s.a &&& s.b) ^^^ (s.a &&& s.c) ^^^ (s.b &&& s.c)
  ⟨t1 + (s0 + majority), s.a, s.b, s.c, s.d + t1, s.e, s.f, s.g⟩

def compress (s : State) (block : Bytes) : State :=
  let t := (roundConstants.zip (schedule block).toList).foldl round s
  ⟨s.a + t.a, s.b + t.b, s.c + t.c, s.d + t.d, s.e + t.e, s.f + t.f, s.g + t.g, s.h + t.h⟩

/-- The chaining value as 32 bytes. -/
def State.toBytes (s : State) : Bytes :=
  [s.a, s.b, s.c, s.d, s.e, s.f, s.g, s.h].flatMap fun w => Bytes.ofNat 4 w.toNat

def State.after (start : State) (message : Bytes) : State :=
  (Bytes.blocks 64 (Hash.pad id message)).foldl compress start

def digest (message : Bytes) : Bytes := (initial.after message).toBytes

def digest224 (message : Bytes) : Bytes := (initial224.after message).toBytes.take 28

def hex (message : Bytes) : String := Bytes.toHex (digest message)

theorem length_digest (message : Bytes) : (digest message).length = 32 := by
  simp [digest, State.toBytes, Bytes.length_ofNat]

end Sha256

end SealedStore
