import SealedStore.Proofs.Acceptance
import SealedStore.Proofs.EnvelopeEntries
import SealedStore.Proofs.Wrapping
/-!
# Sealed contents

A content is sealed by a ring under an envelope if a key of the ring opens the
envelope, and the key inside it decrypts what is stored to that content. What
an encoder emits is sealed by every ring that holds its master key, and whoever
reads the entries of a sealed content gets the content back.

What is proved:
  1. `Encryption.seals_of_sound` — what an encoder emits is sealed.
  2. `Encryption.decode_of_seals` — a sealed content is read back.
  3. `Encryption.Seals.rewrapped` — wrapping its key anew keeps a content sealed.
  4. `KeyRing.get?_rotated` — a rotated ring still opens what it opened.
-/

namespace SealedStore

/-! ## Encoders -/

namespace Encoder
variable {e : Encoder} {content : Bytes}

def output (e : Encoder) (content : Bytes) : Bytes := e.encrypt 0 content ++ e.tag content

theorem length_encrypt (e : Encoder) (content : Bytes) : (e.encrypt 0 content).length = content.length :=
  Gcm.length_crypt _ _ _

theorem length_tag (e : Encoder) (content : Bytes) : (e.tag content).length = tagSize :=
  Gcm.length_tag _ _ _

theorem length_output (e : Encoder) (content : Bytes) :
    (e.output content).length = content.length + tagSize := by
  rw [output, List.length_append, length_encrypt, length_tag]

theorem holds_output {s : Stream} {l : Layer} (hs : s.Holds content) (hl : Stream.Fresh l)
    (he : l.stage = .encode e) : (s.layered l).Holds (e.output content) := by
  have hfinish : l.stage.finish content = .ok (e.tag content) := by rw [he]; rfl
  have h := hs.layered hl hfinish
  rwa [he] at h

/-- The cipher of an encoder takes its output apart again. -/
theorem plain_output (e : Encoder) (content : Bytes) :
    e.cipher.plain (e.output content) = content ∧ e.cipher.Authentic (e.output content) := by
  have hsize : (e.output content).length - tagSize = (e.encrypt 0 content).length := by
    rw [length_output, length_encrypt, Nat.add_sub_cancel]
  have htake : (e.output content).take ((e.output content).length - tagSize) = e.encrypt 0 content := by
    rw [hsize]
    exact List.take_left
  have hdrop : (e.output content).drop ((e.output content).length - tagSize) = e.tag content := by
    rw [hsize]
    exact List.drop_left
  constructor
  · rw [Gcm.Context.plain, htake]
    exact Gcm.crypt_crypt _ _ _
  · rw [Gcm.Context.Authentic, htake, hdrop]
    rfl

theorem accepts_output (e : Encoder) (content : Bytes) :
    Accepts e.cipher (e.envelope content) (e.output content) := by
  obtain ⟨hplain, hauthentic⟩ := e.plain_output content
  refine ⟨?_, hauthentic, fun n hn => ?_, fun d hd => ?_⟩
  · rw [length_output]
    exact Nat.le_add_left _ _
  · rw [length_output, Nat.add_sub_cancel]
    exact (Option.some.inj hn).symm
  · rw [hplain]
    exact (Option.some.inj hd).symm

end Encoder

/-! ## Rings -/

theorem distinctBy_eq_self {κ : Type} {name : κ → String} {seen : List String} {l : List κ}
    (hnew : ∀ k ∈ l, name k ∉ seen) (hd : (l.map name).Nodup) : distinctBy name seen l = l := by
  induction l generalizing seen with
  | nil => rfl
  | cons a rest ih =>
    rw [List.map_cons, List.nodup_cons] at hd
    unfold distinctBy
    rw [if_neg (hnew a List.mem_cons_self)]
    refine congrArg (a :: ·) (ih (fun k hk hseen => ?_) hd.2)
    rcases List.mem_cons.mp hseen with heq | hseen
    · exact hd.1 (heq ▸ List.mem_map_of_mem hk)
    · exact hnew k (List.mem_cons_of_mem _ hk) hseen

section
variable {κ : Type} [Keyed κ]

theorem KeyRing.get?_current (r : KeyRing κ) : r.get? (Keyed.keyId r.current) = some r.current :=
  (r.get?_eq_some_iff _ _).mpr ⟨List.mem_cons_self, rfl⟩

/-- A ring finds what it found before a key with a new name came to the front. -/
theorem KeyRing.get?_rotated {r : KeyRing κ} {newCurrent found : κ} {keyId : String}
    (hnew : r.contains (Keyed.keyId newCurrent) = false) (h : r.get? keyId = some found) :
    (r.rotated newCurrent).get? keyId = some found := by
  obtain ⟨hmem, hid⟩ := (r.get?_eq_some_iff keyId found).mp h
  have hfresh : ∀ k ∈ r.members, Keyed.keyId k ∉ [Keyed.keyId newCurrent] := by
    intro k hk hseen
    have hk' : r.get? (Keyed.keyId newCurrent) = some k :=
      (r.get?_eq_some_iff _ _).mpr ⟨hk, List.mem_singleton.mp hseen⟩
    rw [contains, hk'] at hnew
    cases hnew
  -- None of the old keys has the new name, so all of them stay behind the new one.
  have hbehind : (r.rotated newCurrent).previous = r.members := distinctBy_eq_self hfresh r.distinct
  refine ((r.rotated newCurrent).get?_eq_some_iff keyId found).mpr ⟨?_, hid⟩
  exact List.mem_cons_of_mem _ (hbehind ▸ hmem)

end

/-! ## Sealing -/

namespace Encryption

/-- Under this envelope the ring opens `c` to the content `plain`. -/
structure Seals (e : Encryption) (envelope : Envelope) (c plain : Bytes) : Prop where
  mode : envelope.mode = Envelope.aesGcm
  legible : envelope.Legible
  iv : envelope.iv.length = nonceSize
  opens : ∃ master dataKey size, e.ring.get? envelope.masterKeyId = some master ∧
    master.unwrap envelope.wrappedKey = .ok dataKey ∧
    dataKey.material.length = KeySize.bytes size ∧
    Decoder.check { dataKey, envelope } c = .ok () ∧ Decoder.content { dataKey, envelope } c = plain

variable {e reader : Encryption} {envelope : Envelope} {m : UserMetadata} {c plain : Bytes}

theorem startsWith_aesGcm : Envelope.aesGcm.startsWith Envelope.modePrefix = true := by
  rw [String.startsWith_string_iff]
  decide

/-- What a sound encoder emits is sealed by every ring with its master key. -/
theorem seals_of_sound {encoder : Encoder} (hs : e.Sound encoder)
    (hr : reader.ring.get? e.ring.current.keyId = some e.ring.current)
    (hlen : plain.length < 10 ^ Integer.maxDigits) :
    reader.Seals (encoder.envelope plain) (encoder.output plain) plain where
  mode := hs.mode
  legible := by
    refine ⟨?_, fun n hn => ⟨plain.length, (Option.some.inj hn).symm, hlen⟩⟩
    show encoder.mode.startsWith Envelope.modePrefix = true
    rw [hs.mode]
    exact startsWith_aesGcm
  iv := hs.iv
  opens := by
    refine ⟨e.ring.current, encoder.dataKey, e.keySize, ?_, hs.wrappedKey, hs.dataKey, ?_, ?_⟩
    · show reader.ring.get? encoder.masterKeyId = _
      rw [hs.masterKeyId, hr]
    · exact (Decoder.check_eq_ok_iff _ _).mpr (encoder.accepts_output plain)
    · exact (encoder.plain_output plain).1

/-- What comes out of an envelope is a key of AES, unwrapped by a key of the ring. -/
theorem unwrap_eq_ok_iff {dataKey : SecretKey} : e.unwrap envelope = .ok dataKey ↔
    ∃ master size, e.ring.get? envelope.masterKeyId = some master ∧
      master.unwrap envelope.wrappedKey = .ok dataKey ∧ dataKey.material.length = KeySize.bytes size := by
  unfold unwrap
  cases e.ring.get? envelope.masterKeyId with
  | none => simp
  | some master =>
    cases hunwrap : master.unwrap envelope.wrappedKey with
    | error fault => simp [hunwrap]
    | ok found =>
      cases hsize : found.size? with
      | none =>
        have hno : ∀ size, found.material.length ≠ KeySize.bytes size := by
          intro size hlen
          rw [SecretKey.size?_of_length hlen] at hsize
          cases hsize
        simp only [hunwrap, hsize]
        constructor
        · nofun
        · rintro ⟨_, size, ⟨⟩, hfound, hlen⟩
          rw [hunwrap] at hfound
          cases hfound
          exact absurd hlen (hno size)
      | some size =>
        have hlen : found.material.length = size.bytes := Int.ofNat.inj (KeySize.bytes_of_ofBytes? hsize)
        simp only [hunwrap, hsize]
        constructor
        · rintro ⟨⟩
          exact ⟨master, size, rfl, hunwrap, hlen⟩
        · rintro ⟨_, _, ⟨⟩, hfound, -⟩
          rw [hunwrap] at hfound
          cases hfound
          rfl

theorem unwrap_of_sound {encoder : Encoder} (hs : e.Sound encoder) (plain : Bytes) :
    e.unwrap (encoder.envelope plain) = .ok encoder.dataKey := by
  have hget : e.ring.get? (encoder.envelope plain).masterKeyId = some e.ring.current := by
    show e.ring.get? encoder.masterKeyId = _
    rw [hs.masterKeyId]
    exact e.ring.get?_current
  have hunwrap : e.ring.current.unwrap (encoder.envelope plain).wrappedKey = .ok encoder.dataKey :=
    hs.wrappedKey
  exact unwrap_eq_ok_iff.mpr ⟨_, _, hget, hunwrap, hs.dataKey⟩

theorem decoder_eq_ok_iff {d : Decoder} : e.decoder m = .ok d ↔ Envelope.read m = .ok d.envelope ∧
    d.envelope.mode = Envelope.aesGcm ∧ e.unwrap d.envelope = .ok d.dataKey ∧
    d.envelope.iv.length = nonceSize := by
  obtain ⟨dataKey, envelope⟩ := d
  simp only [decoder, bind_eq_ok_iff, throw_eq_ok_iff, ne_eq, Classical.not_not]
  constructor
  · rintro ⟨_, hread, hmode, _, hunwrap, hiv, ⟨⟩⟩
    exact ⟨hread, hmode, hunwrap, hiv⟩
  · rintro ⟨hread, hmode, hunwrap, hiv⟩
    exact ⟨_, hread, hmode, _, hunwrap, hiv, rfl⟩

/-- Whoever decrypts a content can tell so by its mode and by the name of its
master key. -/
theorem canDecode_of_decoder {d : Decoder} (h : e.decoder m = .ok d) :
    Envelope.modeOf? m = some d.envelope.mode ∧ m.get? Envelope.keyIdName = some d.envelope.masterKeyId ∧
      e.canDecode d.envelope.mode m = true := by
  obtain ⟨hread, haes, hunwrap, -⟩ := decoder_eq_ok_iff.mp h
  obtain ⟨hmode, -, hid, -⟩ := Envelope.read_eq_ok_iff.mp hread
  obtain ⟨master, -, hget, -⟩ := unwrap_eq_ok_iff.mp hunwrap
  refine ⟨hmode, hid, ?_⟩
  simp [canDecode, haes, hid, KeyRing.contains, hget]

theorem decoder_of_seals (h : e.Seals envelope c plain) (hm : Envelope.Carries m envelope) :
    ∃ d, e.decoder m = .ok d ∧ d.envelope = envelope ∧ d.check c = .ok () ∧ d.content c = plain := by
  obtain ⟨master, dataKey, size, hget, hunwrap, hsize, hcheck, hcontent⟩ := h.opens
  refine ⟨{ dataKey, envelope }, ?_, rfl, hcheck, hcontent⟩
  have hread : Envelope.read m = .ok envelope := Envelope.read_of_carries hm h.legible.writable
  have hkey : e.unwrap envelope = .ok dataKey := unwrap_eq_ok_iff.mpr ⟨master, size, hget, hunwrap, hsize⟩
  exact decoder_eq_ok_iff.mpr ⟨hread, h.mode, hkey, h.iv⟩

theorem decode_of_seals (h : e.Seals envelope c plain) (hm : Envelope.Carries m envelope) {s : Stream}
    (hs : s.Holds c) : ∃ decoded, e.decode s m = .ok decoded ∧ decoded.Holds plain := by
  obtain ⟨d, hd, -, hcheck, hcontent⟩ := decoder_of_seals h hm
  refine ⟨s.layered { stage := .decode d }, ?_, ?_⟩
  · rw [decode, hd]
    rfl
  · rw [← hcontent]
    exact Decoder.holds_content hs hcheck

/-- Whoever holds all keys of a ring opens what is sealed by it. -/
theorem Seals.of_get? (h : e.Seals envelope c plain)
    (hring : ∀ keyId master, e.ring.get? keyId = some master → reader.ring.get? keyId = some master) :
    reader.Seals envelope c plain := by
  obtain ⟨master, dataKey, size, hget, hopens⟩ := h.opens
  exact ⟨h.mode, h.legible, h.iv, master, dataKey, size, hring _ _ hget, hopens⟩

/-- Wrapping the key of a sealed content by another master key keeps it sealed. -/
theorem Seals.rewrapped {wrapped : Bytes} {dataKey : SecretKey} (h : e.Seals envelope c plain)
    (hold : e.unwrap envelope = .ok dataKey)
    (hnew : e.ring.current.unwrap wrapped = .ok dataKey) :
    e.Seals { envelope with wrappedKey := wrapped, masterKeyId := e.ring.current.keyId } c plain := by
  obtain ⟨master, found, size, hget, hunwrap, hsize, hcheck, hcontent⟩ := h.opens
  -- The envelope is unwrapped to one key, so the key of the seal is the given one.
  have hfound : found = dataKey := by
    have hkey : e.unwrap envelope = .ok found := unwrap_eq_ok_iff.mpr ⟨master, size, hget, hunwrap, hsize⟩
    exact Except.ok.inj (hkey.symm.trans hold)
  subst hfound
  refine ⟨h.mode, ⟨h.legible.mode, h.legible.size⟩, h.iv, ?_⟩
  refine ⟨e.ring.current, found, size, e.ring.get?_current, hnew, hsize, hcheck, hcontent⟩

end Encryption

end SealedStore
