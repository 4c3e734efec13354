import SealedStore.Entropy
import SealedStore.Key.Secret
import SealedStore.Storage.Basic
/-!
# Blobs of keys

A wrapped key is a blob: a nonce, the encrypted key, and a tag. Which blobs are
unwrapped is decided by the tag alone, so every blob that is unwrapped is the
one that wrapping the result under its nonce gives. All others are refused.

What is proved:
  1. `SecretKey.unwrap_eq` — what any blob is unwrapped to, or why it is not.
  2. `SecretKey.unwrap_wrapWith`, `SecretKey.wrapWith_text` — unwrapping what was
     wrapped, and wrapping again what an authentic blob holds.
  3. `SecretKey.unwrap_inverts_wrap` — wrapping and unwrapping undo each other.
-/

namespace SealedStore

namespace SecretKey
variable {master key : SecretKey} {aad blob : Bytes}

/-! ## Parts of a blob -/

/-- What stands between the nonce and the tag. -/
def blobText (blob : Bytes) : Bytes := (blob.drop 12).take (blob.length - 28)

/-- A blob has room for nonce and tag, and ends in the tag of what is between
them under the nonce. -/
def Authentic (master : SecretKey) (aad blob : Bytes) : Prop :=
  28 ≤ blob.length ∧
    blob.drop (blob.length - 16) = (Gcm.context master.material (blob.take 12)).tag aad (blobText blob)

instance : Decidable (Authentic master aad blob) := inferInstanceAs (Decidable (_ ∧ _))

theorem blob_parts (h : 28 ≤ blob.length) :
    blob.take 12 ++ blobText blob ++ blob.drop (blob.length - 16) = blob := by
  have htail : blob.drop (blob.length - 16) = (blob.drop 12).drop (blob.length - 28) := by
    rw [List.drop_drop]
    congr 1
    omega
  rw [htail, blobText, List.append_assoc, List.take_append_drop, List.take_append_drop]

theorem parts_of_append {nonce tag : Bytes} (text : Bytes) (hnonce : nonce.length = 12) (htag : tag.length = 16) :
    let blob := nonce ++ text ++ tag
    blob.take 12 = nonce ∧ blobText blob = text ∧ blob.drop (blob.length - 16) = tag := by
  have hlen : (nonce ++ text ++ tag).length = 12 + text.length + 16 := by
    rw [List.length_append, List.length_append, hnonce, htag]
  have hbehind : (nonce ++ text ++ tag).drop 12 = text ++ tag := by
    rw [List.append_assoc, ← hnonce, List.drop_left]
  refine ⟨?_, ?_, ?_⟩
  · rw [List.append_assoc, ← hnonce, List.take_left]
  · have htext : 12 + text.length + 16 - 28 = text.length := by omega
    rw [blobText, hbehind, hlen, htext, List.take_left]
  · have hfront : 12 + text.length + 16 - 16 = (nonce ++ text).length := by
      rw [Nat.add_sub_cancel, List.length_append, hnonce]
    rw [hlen, hfront, List.drop_left]

/-! ## From blobs to keys and back -/

theorem unwrap_eq (hmaster : master.material.length = 32) (aad blob : Bytes) :
    master.unwrap blob aad =
      if Authentic master aad blob then
        .ok ⟨(Gcm.context master.material (blob.take 12)).crypt 0 (blobText blob)⟩
      else .error (if blob.length < 28 then .blobTooShort blob.length else .notAuthentic) := by
  unfold unwrap nonceSize tagSize
  rw [if_neg (fun h => h hmaster)]
  by_cases hshort : blob.length < 28
  · have hnot : ¬Authentic master aad blob := fun h => Nat.not_le.mpr hshort h.1
    rw [if_pos hshort, if_neg hnot, if_pos hshort]
  · -- With room for nonce and tag, the tag alone decides.
    have hiff : Authentic master aad blob ↔
        (Gcm.context master.material (blob.take 12)).tag aad (blobText blob) = blob.drop (blob.length - 16) :=
      ⟨fun h => h.2.symm, fun h => ⟨Nat.not_lt.mp hshort, h.symm⟩⟩
    simp only [if_neg hshort, hiff, blobText, Nat.sub_sub, Nat.reduceAdd]

theorem unwrap_ok_iff (hmaster : master.material.length = 32) :
    master.unwrap blob aad = .ok key ↔ Authentic master aad blob ∧
      key = ⟨(Gcm.context master.material (blob.take 12)).crypt 0 (blobText blob)⟩ := by
  rw [unwrap_eq hmaster]
  split
  · next h => exact ⟨fun hkey => ⟨h, (Except.ok.inj hkey).symm⟩, fun hkey => congrArg _ hkey.2.symm⟩
  · next h => exact ⟨nofun, fun hkey => absurd hkey.1 h⟩

/-- A wrapped key comes out of the key it was wrapped under. -/
theorem unwrap_wrapWith (hmaster : master.material.length = 32) (dataKey : SecretKey) {nonce : Bytes}
    (hnonce : nonce.length = nonceSize) (aad : Bytes) :
    master.unwrap (wrapWith master dataKey nonce aad) aad = .ok dataKey := by
  let cipher := Gcm.context master.material nonce
  let encrypted := cipher.crypt 0 dataKey.material
  have hblob : wrapWith master dataKey nonce aad = nonce ++ encrypted ++ cipher.tag aad encrypted := rfl
  have hroom : 28 ≤ (wrapWith master dataKey nonce aad).length := by
    rw [length_wrapWith master dataKey nonce aad hnonce]
    omega
  have hplain : cipher.crypt 0 encrypted = dataKey.material := Gcm.crypt_crypt cipher 0 dataKey.material
  obtain ⟨hfirst, htext, hlast⟩ := parts_of_append encrypted hnonce (Gcm.length_tag cipher aad encrypted)
  rw [unwrap_ok_iff hmaster, Authentic, hblob, hfirst, htext, hlast]
  exact ⟨⟨hblob ▸ hroom, rfl⟩, congrArg SecretKey.mk hplain.symm⟩

theorem wrapWith_text (h : Authentic master aad blob) :
    wrapWith master ⟨(Gcm.context master.material (blob.take 12)).crypt 0 (blobText blob)⟩ (blob.take 12) aad =
      blob := by
  unfold wrapWith
  dsimp only
  rw [Gcm.crypt_crypt, ← h.2]
  exact blob_parts h.1

section
variable {I : Interface} {σ : Type}

theorem run_wrap (hmaster : master.material.length = 32) (dataKey : SecretKey) (aad : Bytes)
    (serve : Program.Service I σ) (w : World σ) :
    (master.wrap dataKey aad).run.run serve w =
      (.ok (wrapWith master dataKey (w.nextBytes .secret nonceSize) aad), w.afterDraw .secret) := by
  unfold wrap
  rw [if_neg (fun h => h hmaster)]
  rfl

/-- Wrapping and unwrapping undo each other. A key of any length is wrapped in a
blob of its nonce, the encrypted key and the tag, and comes out of it. A blob is
unwrapped exactly if it is authentic, and wrapping what comes out under its
nonce gives it back; any other blob is refused as an error of cryptography. -/
theorem unwrap_inverts_wrap (hmaster : master.material.length = 32) (aad : Option Bytes)
    (serve : Program.Service I σ) :
    (∀ (dataKey : SecretKey) (w : World σ),
      let nonce := w.nextBytes .secret 12
      let cipher := Gcm.context master.material nonce
      let ciphertext := cipher.crypt 0 dataKey.material
      let blob := nonce ++ ciphertext ++ cipher.tag (aad.getD []) ciphertext
      ((master.wrap dataKey (aad.getD [])).run.run serve w).1 = .ok blob ∧
        blob.length = dataKey.material.length + 28 ∧ master.unwrap blob (aad.getD []) = .ok dataKey) ∧
    ∀ blob : Bytes,
      ((∃ key, master.unwrap blob (aad.getD []) = .ok key) ↔ Authentic master (aad.getD []) blob) ∧
      (∀ key, master.unwrap blob (aad.getD []) = .ok key → ∀ w : World σ,
        w.nextBytes .secret 12 = blob.take 12 →
          ((master.wrap key (aad.getD [])).run.run serve w).1 = .ok blob) ∧
      (¬Authentic master (aad.getD []) blob →
        ∃ fault, master.unwrap blob (aad.getD []) = .error fault ∧ (Error.key fault).kind = .crypto) := by
  refine ⟨fun dataKey w => ?_, fun blob => ⟨?_, ?_, ?_⟩⟩
  · have hnonce : (w.nextBytes .secret 12).length = nonceSize := w.length_nextBytes .secret 12
    exact ⟨congrArg Prod.fst (run_wrap hmaster dataKey _ serve w), length_wrapWith _ _ _ _ hnonce,
      unwrap_wrapWith hmaster dataKey hnonce _⟩
  · constructor
    · rintro ⟨key, hkey⟩
      exact ((unwrap_ok_iff hmaster).mp hkey).1
    · exact fun h => ⟨_, (unwrap_ok_iff hmaster).mpr ⟨h, rfl⟩⟩
  · intro key hkey w hnonce
    obtain ⟨hauthentic, rfl⟩ := (unwrap_ok_iff hmaster).mp hkey
    rw [run_wrap hmaster, show w.nextBytes .secret nonceSize = blob.take 12 from hnonce]
    exact congrArg Except.ok (wrapWith_text hauthentic)
  · exact fun h => ⟨_, (unwrap_eq hmaster _ blob).trans (if_neg h), rfl⟩

/-- A key of five bytes becomes a blob of 33 and comes back; no bytes at all are
no blob. -/
theorem unwrap_inverts_wrap_five :
    let master : SecretKey := ⟨List.replicate 32 7⟩
    let w : World Storage := { entropy := Entropy.ofSeed "", state := {} }
    (∃ blob, ((master.wrap ⟨[1, 2, 3, 4, 5]⟩ []).run.run Storage.serve w).1 = .ok blob ∧ blob.length = 33 ∧
      master.unwrap blob [] = .ok ⟨[1, 2, 3, 4, 5]⟩) ∧
    ∃ fault, master.unwrap [] [] = .error fault ∧ (Error.key fault).kind = .crypto := by
  intro master w
  have hmaster : master.material.length = 32 := rfl
  obtain ⟨hkeys, hblobs⟩ := unwrap_inverts_wrap hmaster none Storage.serve
  obtain ⟨hblob, hlength, hopened⟩ := hkeys ⟨[1, 2, 3, 4, 5]⟩ w
  have hshort : ¬Authentic master [] [] := fun h => absurd h.1 (by decide)
  exact ⟨⟨_, hblob, hlength, hopened⟩, (hblobs []).2.2 hshort⟩

end

end SecretKey

end SealedStore
