import SealedStore.Proofs.EncryptedWrite
/-!
# Opened objects

An object is opened to a content if a key of the ring decrypts it and the
content is accepted. That is what a client reads, and nothing else can be read
of an encrypted object.

What is proved:
  1. `Filter.decrypt_eq_ok` — which responses are decrypted.
  2. `EncryptingClient.read_opened`, `opened_of_read` — what clients read.
-/

namespace SealedStore

open Program (Ensures)

/-! ## Decoders -/

theorem Decoder.read_decoded (d : Decoder) {s : Stream} {c : Bytes} (hs : s.Holds c) :
    ((s.layered { stage := .decode d }).read .rest).1 =
      ((d.check c).mapError .transform).map fun _ => d.content c := by
  have hsteady : (s.layered { stage := .decode d }).Steady := hs.steady
  rw [Stream.read_rest_eq hsteady, d.script_decoded hs, Script.outcome_append, Script.outcome_met]
  cases d.check c with
  | error fault => rfl
  | ok => exact congrArg Except.ok (List.append_nil _)

theorem Filter.decrypt_eq_ok {e : Encryption} {response out : Response} {metadata : Metadata} {stream : Stream}
    (hmetadata : response.metadata = some metadata) (hentity : response.entity = some stream)
    (h : decrypt e response = .ok out) :
    (Envelope.modeOf? metadata.user = none ∧ out = response) ∨
    ∃ d, e.decoder metadata.user = .ok d ∧ out = { response with
      entity := some (stream.layered { stage := .decode d })
      metadata := some { metadata with contentLength := d.envelope.size } } := by
  cases hmode : Envelope.modeOf? metadata.user with
  | none =>
    simp only [decrypt, hmetadata, hentity, hmode, Except.ok.injEq] at h
    exact .inl ⟨rfl, h.symm⟩
  | some mode =>
    simp only [decrypt, hmetadata, hentity, hmode, bind_eq_ok_iff] at h
    obtain ⟨_, -, d, hd, hout⟩ := h
    exact .inr ⟨d, hd, (Except.ok.inj hout).symm⟩

/-! ## Objects -/

namespace Encryption
variable {e reader : Encryption} {object : StoredObject} {plain : Bytes}

/-- A key of the ring decrypts the object to a content that is accepted. -/
def Opens (e : Encryption) (object : StoredObject) (plain : Bytes) : Prop :=
  ∃ d, e.decoder object.metadata.user = .ok d ∧ d.check object.content = .ok () ∧
    d.content object.content = plain

theorem decoder_of_get? {m : UserMetadata} {d : Decoder} (hd : e.decoder m = .ok d)
    (hring : ∀ master, e.ring.get? d.envelope.masterKeyId = some master →
      reader.ring.get? d.envelope.masterKeyId = some master) : reader.decoder m = .ok d := by
  obtain ⟨hread, hmode, hunwrap, hiv⟩ := decoder_eq_ok_iff.mp hd
  obtain ⟨master, size, hget, hkey, hsize⟩ := unwrap_eq_ok_iff.mp hunwrap
  exact decoder_eq_ok_iff.mpr
    ⟨hread, hmode, unwrap_eq_ok_iff.mpr ⟨master, size, hring _ hget, hkey, hsize⟩, hiv⟩

theorem opens_of_seals {envelope : Envelope} (h : e.Seals envelope object.content plain)
    (hm : Envelope.Carries object.metadata.user envelope) : e.Opens object plain := by
  obtain ⟨d, hd, -, hopened⟩ := decoder_of_seals h hm
  exact ⟨d, hd, hopened⟩

theorem Opens.mode_ne_none (h : e.Opens object plain) : Envelope.modeOf? object.metadata.user ≠ none := by
  obtain ⟨d, hd, -⟩ := h
  rw [(canDecode_of_decoder hd).1]
  exact Option.some_ne_none _

theorem Opens.of_get? (h : e.Opens object plain)
    (hring : ∀ keyId master, e.ring.get? keyId = some master → reader.ring.get? keyId = some master) :
    reader.Opens object plain := by
  obtain ⟨d, hd, hopened⟩ := h
  exact ⟨d, decoder_of_get? hd fun _ => hring _ _, hopened⟩

theorem Opens.of_current (h : e.Opens object plain)
    (hid : object.metadata.user.get? Envelope.keyIdName = some e.ring.current.keyId)
    (hring : reader.ring.get? e.ring.current.keyId = some e.ring.current) : reader.Opens object plain := by
  obtain ⟨d, hd, hopened⟩ := h
  have hname : d.envelope.masterKeyId = e.ring.current.keyId :=
    Option.some.inj ((canDecode_of_decoder hd).2.1.symm.trans hid)
  refine ⟨d, decoder_of_get? hd fun master hmaster => ?_, hopened⟩
  rw [hname] at hmaster ⊢
  rw [hring, ← hmaster]
  exact e.ring.get?_current.symm

end Encryption

/-! ## Clients -/

namespace EncryptingClient
variable {settings : EncryptionSettings} {base : ClientSettings} {filters : List Filter} {s : Storage}
  {target : Identity} {object : StoredObject}

/-- What a write has stored is opened by whoever holds its master key. -/
theorem Wrote.opened {p : Put} {content : Bytes} {r : Except Error WriteResult} {t : Storage}
    (h : Wrote settings s p content r t) (hlen : content.length < 10 ^ Integer.maxDigits) :
    ∃ object, t.objects.get? p.target = some object ∧ (Storage.shown object).Honest object.content ∧
      ∀ reader : Encryption, reader.ring.get? settings.encryption.ring.current.keyId =
        some settings.encryption.ring.current → reader.Opens object content := by
  obtain ⟨encoder, hsound, rfl, -⟩ := h
  refine ⟨sealedObject s p encoder content, (Table.get?_insert ..).trans (if_pos rfl),
    Filter.mismatch?_self _, fun reader hring => ?_⟩
  exact Encryption.opens_of_seals (Encryption.seals_of_sound hsound hring hlen)
    (Envelope.carries_merge (p.metadata.getD {}).user rfl rfl)

theorem put_opened {p : Put} {content : Bytes} (hf : OneChecksum filters)
    (hsuffix : settings.tempSuffix ≠ "") (hrange : p.range = none) (hp : p.Brings content)
    (hk : settings.encryption.ring.current.Dependable) (hlen : content.length < 10 ^ Integer.maxDigits) :
    Ensures Storage.serve ((make settings base filters).put p) s fun _ t =>
      ∃ object, t.objects.get? p.target = some object ∧ (Storage.shown object).Honest object.content ∧
        ∀ reader : Encryption, reader.ring.get? settings.encryption.ring.current.keyId =
          some settings.encryption.ring.current → reader.Opens object content :=
  (put_wrote hf hsuffix hrange hp hk).mono fun _ _ hwrote => hwrote.opened hlen

/-- An object is read as what it is opened to. -/
theorem read_opened {plain : Bytes} (hf : OneChecksum filters) (hget : s.objects.get? target = some object)
    (hhonest : (Storage.shown object).Honest object.content) (hopens : settings.encryption.Opens object plain) :
    Ensures Storage.serve ((make settings base filters).read target).run s fun r t =>
      t = s ∧ r = .ok plain := by
  obtain ⟨d, hd, hcheck, rfl⟩ := hopens
  refine .attempt (get_ensures hf (StorageCall.send_ensures ?_))
  rw [Storage.serve_get hget]
  intro stream hstream
  have hdecrypt : Filter.decrypt settings.encryption { Storage.shown object with entity := some stream } =
      .ok _ := Filter.decrypt_of_decoder rfl rfl hd
  rw [hdecrypt]
  refine .of ⟨rfl, ?_⟩
  exact (d.read_decoded (hstream.holds hhonest)).trans (by rw [hcheck]; rfl)

/-- Whatever is read is there, and is plain or has a decoder; an object whose
digest the store reports is opened to what is read. -/
theorem opened_of_read (hf : OneChecksum filters) :
    Ensures Storage.serve ((make settings base filters).read target).run s fun r t =>
      t = s ∧ ∀ plain, r = .ok plain → ∃ object, s.objects.get? target = some object ∧
        (Envelope.modeOf? object.metadata.user = none ∨
          ∃ d, settings.encryption.decoder object.metadata.user = .ok d ∧
            ((Storage.shown object).Honest object.content → settings.encryption.Opens object plain)) := by
  refine .attempt (get_ensures hf (StorageCall.send_ensures ?_))
  cases hget : s.objects.get? target with
  | none =>
    rw [Storage.serve_get_missing hget]
    exact ⟨rfl, nofun⟩
  | some object =>
    rw [Storage.serve_get hget]
    intro stream hstream
    cases hdecrypt : Filter.decrypt settings.encryption
        { Storage.shown object with entity := some stream } with
    | error e => exact ⟨rfl, nofun⟩
    | ok out =>
      refine .of ⟨rfl, fun plain hplain => ⟨object, rfl, ?_⟩⟩
      obtain ⟨hmode, -⟩ | ⟨d, hd, rfl⟩ := Filter.decrypt_eq_ok rfl rfl hdecrypt
      · exact .inl hmode
      · refine .inr ⟨d, hd, fun hhonest => ⟨d, hd, ?_⟩⟩
        -- Only if its digest is reported does the stream hold the content to its end.
        have hread := (d.read_decoded (hstream.holds hhonest)).symm.trans hplain
        cases hcheck : d.check object.content with
        | error fault =>
          rw [hcheck] at hread
          cases hread
        | ok =>
          rw [hcheck] at hread
          exact ⟨rfl, Except.ok.inj hread⟩

end EncryptingClient

end SealedStore
