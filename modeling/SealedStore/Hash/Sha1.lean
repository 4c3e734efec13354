import SealedStore.Hash.Sha256
/-!
# SHA-1

The 20-byte digest that names public keys and signs links. It shares padding
and word order with SHA-256 and folds blocks into five words.

What is proved:
  1. `length_digest` — a digest has 20 bytes.
-/

namespace SealedStore.Sha1

structure State where
  a : UInt32
  b : UInt32
  c : UInt32
  d : UInt32
  e : UInt32

def initial : State := ⟨0x67452301, 0xefcdab89, 0x98badcfe, 0x10325476, 0xc3d2e1f0⟩

def schedule (block : Bytes) : Array UInt32 :=
  (List.range 64).foldl (fun w i => w.push (Hash.rotateLeft
    (w.getD (i + 13) 0 ^^^ w.getD (i + 8) 0 ^^^ w.getD (i + 2) 0 ^^^ w.getD i 0) 1))
    (Hash.words block).toArray

/-- The mixing function and constant of round `i`. -/
def mix (i : Nat) (b c d : UInt32) : UInt32 :=
  if i < 20 then ((b &&& c) ||| (~~~b &&& d)) + 0x5a827999
  else if i < 40 then (b ^^^ c ^^^ d) + 0x6ed9eba1
  else if i < 60 then ((b &&& c) ||| (b &&& d) ||| (c &&& d)) + 0x8f1bbcdc
  else (b ^^^ c ^^^ d) + 0xca62c1d6

def round (s : State) (w : UInt32 × Nat) : State :=
  ⟨Hash.rotateLeft s.a 5 + mix w.2 s.b s.c s.d + s.e + w.1, s.a, Hash.rotateLeft s.b 30, s.c, s.d⟩

def compress (s : State) (block : Bytes) : State :=
  let t := (schedule block).toList.zipIdx.foldl round s
  ⟨s.a + t.a, s.b + t.b, s.c + t.c, s.d + t.d, s.e + t.e⟩

def digest (message : Bytes) : Bytes :=
  let s := (Bytes.blocks 64 (Hash.pad id message)).foldl compress initial
  [s.a, s.b, s.c, s.d, s.e].flatMap fun w => Bytes.ofNat 4 w.toNat

theorem length_digest (message : Bytes) : (digest message).length = 20 := by
  simp [digest, Bytes.length_ofNat]

def hex (message : Bytes) : String := Bytes.toHex (digest message)

end SealedStore.Sha1
