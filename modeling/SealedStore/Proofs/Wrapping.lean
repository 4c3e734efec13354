import SealedStore.Encryption
import SealedStore.Proofs.Outcome
import SealedStore.Proofs.SealedKeys
/-!
# Wrapped keys

A key that was wrapped by a master key comes out of that master key again. For
an AES master key of 32 bytes this follows from the cipher; of an RSA key it
has to be known that decrypting undoes encrypting.

Where nothing is known of the key but that it gives back what it has wrapped,
drawing an encoder may fail.

What is proved:
  1. `MasterKey.wrap_ensures` — wrapping by a dependable master key.
  2. `MasterKey.wrap_faithful` — wrapping by a key that may refuse.
  3. `Encryption.newEncoder_ensures`, `newEncoder_faithful` — what encrypts a
     new content.
-/

namespace SealedStore

/-! ## Master keys -/

/-- A master key from which every key of content comes out again that was
wrapped by it. -/
def MasterKey.Dependable : MasterKey → Prop
  | .aes key _ => key.material.length = 32
  | .rsa key => ∀ (size : KeySize) (seed material : Bytes), seed.length = 32 →
    material.length = size.bytes →
      ∃ wrapped, key.encrypt? seed material = some wrapped ∧ key.decrypt? wrapped = some material

/-- A master key that may refuse to wrap, but gives back whatever it has
wrapped. An AES key of another length refuses every key. -/
def MasterKey.Faithful : MasterKey → Prop
  | .aes _ _ => True
  | .rsa key => ∀ (size : KeySize) (seed material wrapped : Bytes), seed.length = 32 →
    material.length = size.bytes → key.encrypt? seed material = some wrapped →
      key.decrypt? wrapped = some material

theorem MasterKey.Dependable.faithful {k : MasterKey} (hk : k.Dependable) : k.Faithful := by
  cases k with
  | aes key name => trivial
  | rsa key =>
    intro size seed material wrapped hseed hd hwrapped
    obtain ⟨other, hother, hback⟩ := hk size seed material hseed hd
    obtain rfl : other = wrapped := Option.some.inj (hother.symm.trans hwrapped)
    exact hback

section
variable {I : Interface} {σ : Type} {serve : Program.Service I σ} {s : σ}

theorem MasterKey.wrap_ensures {k : MasterKey} (hk : k.Dependable) {dataKey : SecretKey} {size : KeySize}
    (hd : dataKey.material.length = size.bytes) :
    Program.Ensures serve (k.wrap dataKey).run s fun r t =>
      ∃ wrapped, r = .ok wrapped ∧ k.unwrap wrapped = .ok dataKey ∧ t = s := by
  cases k with
  | aes key name =>
    have hlen : key.material.length = 32 := hk
    simp only [wrap, SecretKey.wrap]
    rw [if_neg (fun h => h hlen)]
    refine .draw fun nonce hn => .done ⟨_, rfl, ?_, rfl⟩
    exact SecretKey.unwrap_wrapWith hlen dataKey hn _
  | rsa key =>
    rw [run_wrap_rsa]
    refine .draw fun seed hseed => ?_
    obtain ⟨wrapped, he, hu⟩ := hk size seed dataKey.material hseed hd
    rw [he]
    refine .done ⟨wrapped, rfl, ?_, rfl⟩
    simp only [unwrap, hu]

/-- Wrapping by a faithful master key, which may fail. -/
theorem MasterKey.wrap_faithful {k : MasterKey} (hk : k.Faithful) {dataKey : SecretKey} {size : KeySize}
    (hd : dataKey.material.length = size.bytes) :
    Program.Ensures serve (k.wrap dataKey).run s fun r t => t = s ∧
      (∀ wrapped, r = .ok wrapped → k.unwrap wrapped = .ok dataKey) ∧
      ∀ fault, r = .error fault → ¬k.Dependable := by
  by_cases hdependable : k.Dependable
  · refine (wrap_ensures hdependable hd).mono ?_
    rintro _ t ⟨wrapped, rfl, hu, rfl⟩
    refine ⟨rfl, ?_, nofun⟩
    rintro _ ⟨⟩
    exact hu
  -- Only a key that may refuse is left.
  cases k with
  | aes key name =>
    have hlen : key.material.length ≠ 32 := hdependable
    simp only [wrap, SecretKey.wrap]
    rw [if_pos hlen]
    exact .done ⟨rfl, nofun, fun _ _ => hdependable⟩
  | rsa key =>
    rw [run_wrap_rsa]
    refine .draw fun seed hseed => ?_
    cases hwrapped : key.encrypt? seed dataKey.material with
    | none => exact .done ⟨rfl, nofun, fun _ _ => hdependable⟩
    | some wrapped =>
      refine .done ⟨rfl, ?_, nofun⟩
      rintro _ ⟨⟩
      simp only [unwrap, hk size seed _ wrapped hseed hd hwrapped]

theorem MasterKey.Dependable.exists_wrapped {k : MasterKey} (hk : k.Dependable) {dataKey : SecretKey}
    {size : KeySize} (hd : dataKey.material.length = size.bytes) :
    ∃ wrapped, k.unwrap wrapped = .ok dataKey := by
  cases k with
  | aes key name =>
    have hnonce : (List.replicate nonceSize 0 : Bytes).length = nonceSize := List.length_replicate
    exact ⟨_, SecretKey.unwrap_wrapWith hk dataKey hnonce _⟩
  | rsa key =>
    obtain ⟨wrapped, -, hu⟩ := hk size (List.replicate 32 0) dataKey.material List.length_replicate hd
    refine ⟨wrapped, ?_⟩
    simp only [unwrap, hu]

namespace Encryption

/-- What belongs to every encoder of a ring. -/
structure Sound (e : Encryption) (encoder : Encoder) : Prop where
  mode : encoder.mode = Envelope.aesGcm
  masterKeyId : encoder.masterKeyId = e.ring.current.keyId
  iv : encoder.iv.length = nonceSize
  dataKey : encoder.dataKey.material.length = e.keySize.bytes
  wrappedKey : e.ring.current.unwrap encoder.wrappedKey = .ok encoder.dataKey

theorem wrapCurrent_ensures {e : Encryption} (hk : e.ring.current.Dependable) {dataKey : SecretKey}
    {size : KeySize} (hd : dataKey.material.length = size.bytes) :
    Program.Ensures serve (e.wrapCurrent dataKey).run s fun r t =>
      ∃ wrapped, r = .ok wrapped ∧ e.ring.current.unwrap wrapped = .ok dataKey ∧ t = s := by
  refine .seq (MasterKey.wrap_ensures hk hd) ?_
  rintro r t ⟨wrapped, rfl, hu, rfl⟩
  exact .done ⟨wrapped, rfl, hu, rfl⟩

theorem wrapCurrent_faithful {e : Encryption} (hk : e.ring.current.Faithful) {dataKey : SecretKey}
    {size : KeySize} (hd : dataKey.material.length = size.bytes) :
    Program.Ensures serve (e.wrapCurrent dataKey).run s fun r t => t = s ∧
      (∀ wrapped, r = .ok wrapped → e.ring.current.unwrap wrapped = .ok dataKey) ∧
      ∀ fault, r = .error fault → ¬e.ring.current.Dependable := by
  refine .seq (MasterKey.wrap_faithful hk hd) ?_
  rintro r t ⟨rfl, hwrapped, hfails⟩
  cases r with
  | ok wrapped => exact .done ⟨rfl, hwrapped, nofun⟩
  | error raised =>
    -- The error may be reported as another one; what it tells of the key stays.
    have hrefuses := hfails raised rfl
    cases raised <;> exact .done ⟨rfl, nofun, fun _ _ => hrefuses⟩

theorem newEncoder_ensures {e : Encryption} (hk : e.ring.current.Dependable) :
    Program.Ensures serve e.newEncoder.run s fun r t =>
      ∃ encoder, r = .ok encoder ∧ e.Sound encoder ∧ t = s := by
  refine .draw fun iv hiv => .draw fun material hm => ?_
  refine .attempt_ok (wrapCurrent_ensures hk hm) ?_
  rintro wrapped t ⟨hu, rfl⟩
  exact .done ⟨_, rfl, ⟨rfl, rfl, hiv, hm, hu⟩, rfl⟩

/-- Drawing it under a faithful master key yields a sound encoder, or fails
because the key cannot be depended on. -/
theorem newEncoder_faithful {e : Encryption} (hk : e.ring.current.Faithful) :
    Program.Ensures serve e.newEncoder.run s fun r t => t = s ∧
      match r with
      | .ok encoder => e.Sound encoder
      | .error _ => ¬e.ring.current.Dependable := by
  refine .draw fun iv hiv => .draw fun material hm => .attempt ?_
  refine (wrapCurrent_faithful hk hm).mono ?_
  rintro r t ⟨rfl, hwrapped, hfails⟩
  cases r with
  | ok wrapped => exact .done ⟨rfl, rfl, rfl, hiv, hm, hwrapped wrapped rfl⟩
  | error fault => exact ⟨rfl, hfails fault rfl⟩

end Encryption

end

end SealedStore
