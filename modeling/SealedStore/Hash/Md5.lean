import SealedStore.Hash.Sha256
/-!
# MD5

The 16-byte digest a store reports as an object's ETag. Words are read and
written least significant byte first.

What is proved:
  1. `length_digest` — a digest has 16 bytes.
-/

namespace SealedStore.Md5

structure State where
  a : UInt32
  b : UInt32
  c : UInt32
  d : UInt32

def initial : State := ⟨0x67452301, 0xefcdab89, 0x98badcfe, 0x10325476⟩

/-- The integer parts of 2³² · |sin i| for i from 1 to 64. -/
def roundConstants : List UInt32 := [
  0xd76aa478, 0xe8c7b756, 0x242070db, 0xc1bdceee, 0xf57c0faf, 0x4787c62a, 0xa8304613, 0xfd469501,
  0x698098d8, 0x8b44f7af, 0xffff5bb1, 0x895cd7be, 0x6b901122, 0xfd987193, 0xa679438e, 0x49b40821,
  0xf61e2562, 0xc040b340, 0x265e5a51, 0xe9b6c7aa, 0xd62f105d, 0x02441453, 0xd8a1e681, 0xe7d3fbc8,
  0x21e1cde6, 0xc33707d6, 0xf4d50d87, 0x455a14ed, 0xa9e3e905, 0xfcefa3f8, 0x676f02d9, 0x8d2a4c8a,
  0xfffa3942, 0x8771f681, 0x6d9d6122, 0xfde5380c, 0xa4beea44, 0x4bdecfa9, 0xf6bb4b60, 0xbebfbc70,
  0x289b7ec6, 0xeaa127fa, 0xd4ef3085, 0x04881d05, 0xd9d4d039, 0xe6db99e5, 0x1fa27cf8, 0xc4ac5665,
  0xf4292244, 0x432aff97, 0xab9423a7, 0xfc93a039, 0x655b59c3, 0x8f0ccc92, 0xffeff47d, 0x85845dd1,
  0x6fa87e4f, 0xfe2ce6e0, 0xa3014314, 0x4e0811a1, 0xf7537e82, 0xbd3af235, 0x2ad7d2bb, 0xeb86d391]

def words : Bytes → List UInt32
  | a :: b :: c :: d :: rest => Hash.word d c b a :: words rest
  | _ => []

/-- The mixing function, the message word and the turn of round `i`. -/
def step (i : Nat) (b c d : UInt32) : UInt32 × Nat × UInt32 :=
  if i < 16 then ((b &&& c) ||| (~~~b &&& d), i, [7, 12, 17, 22].getD (i % 4) 0)
  else if i < 32 then ((d &&& b) ||| (~~~d &&& c), (5 * i + 1) % 16, [5, 9, 14, 20].getD (i % 4) 0)
  else if i < 48 then (b ^^^ c ^^^ d, (3 * i + 5) % 16, [4, 11, 16, 23].getD (i % 4) 0)
  else (c ^^^ (b ||| ~~~d), (7 * i) % 16, [6, 10, 15, 21].getD (i % 4) 0)

def round (m : Array UInt32) (s : State) (k : UInt32 × Nat) : State :=
  let (f, g, turn) := step k.2 s.b s.c s.d
  ⟨s.d, s.b + Hash.rotateLeft (f + s.a + k.1 + m.getD g 0) turn, s.b, s.c⟩

def compress (s : State) (block : Bytes) : State :=
  let t := roundConstants.zipIdx.foldl (round (words block).toArray) s
  ⟨s.a + t.a, s.b + t.b, s.c + t.c, s.d + t.d⟩

def digest (message : Bytes) : Bytes :=
  let s := (Bytes.blocks 64 (Hash.pad List.reverse message)).foldl compress initial
  [s.a, s.b, s.c, s.d].flatMap fun w => (Bytes.ofNat 4 w.toNat).reverse

theorem length_digest (message : Bytes) : (digest message).length = 16 := by
  simp [digest, Bytes.length_ofNat]

def hex (message : Bytes) : String := Bytes.toHex (digest message)

end SealedStore.Md5
