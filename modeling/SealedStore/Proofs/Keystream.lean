import SealedStore.Cipher.Gcm
/-!
# Encryption piece by piece

The keystream is one infinite string of bytes, of which every piece of a text
meets the part at its own position. Cutting a text anywhere therefore does not
change its encryption.

What is proved:
  1. `keystream_eq` — a stretch of the keystream is the mask bytes at its
     positions.
  2. `crypt_append` — encrypting a text in two pieces is encrypting it at once.
-/

namespace SealedStore.Gcm.Context
variable (c : Context)

/-- The byte of the keystream that masks position `i`. -/
def mask (i : Nat) : UInt8 := (c.block (i / 16)).getD (i % 16) 0

theorem block_eq (n : Nat) : c.block n = (List.range' (16 * n) 16).map c.mask := by
  refine List.ext_getElem (by simp [length_block]) fun i hi _ => ?_
  rw [length_block] at hi
  -- Byte i of block n has the position 16 n + i in the whole.
  have hq : (16 * n + i) / 16 = n := by omega
  have hr : (16 * n + i) % 16 = i := by omega
  simp [mask, hq, hr, List.getD_eq_getElem?_getD, length_block, hi]

theorem flatMap_block (n m : Nat) :
    (List.range' n m).flatMap c.block = (List.range' (16 * n) (16 * m)).map c.mask := by
  induction m generalizing n with
  | zero => rfl
  | succ m ih =>
    have hsplit : List.range' (16 * n) (16 * (m + 1)) =
        List.range' (16 * n) 16 ++ List.range' (16 * (n + 1)) (16 * m) := by
      rw [show 16 * (m + 1) = 16 + 16 * m by omega, show 16 * (n + 1) = 16 * n + 16 by omega]
      exact (List.range'_append_1 ..).symm
    rw [List.range'_succ, List.flatMap_cons, ih, block_eq, hsplit, List.map_append]

theorem keystream_eq (start count : Nat) :
    c.keystream start count = (List.range' start count).map c.mask := by
  rw [keystream, flatMap_block, ← List.map_drop, ← List.map_take]
  congr 1
  refine List.ext_getElem (by simp; omega) fun i _ _ => ?_
  simp
  omega

theorem keystream_add (start m n : Nat) :
    c.keystream start (m + n) = c.keystream start m ++ c.keystream (start + m) n := by
  simp only [keystream_eq, ← List.map_append, List.range'_append_1]

@[simp] theorem crypt_nil (start : Nat) : c.crypt start [] = [] := rfl

theorem crypt_append (start : Nat) (a b : Bytes) :
    c.crypt start (a ++ b) = c.crypt start a ++ c.crypt (start + a.length) b := by
  simp only [crypt, Bytes.xor]
  rw [List.length_append, keystream_add, List.zipWith_append]
  exact (length_keystream c start a.length).symm

end SealedStore.Gcm.Context
