import SealedStore.Entropy
import SealedStore.Proofs.Operations
import SealedStore.Proofs.Stores
/-!
# Encrypted writes

A write by an encrypting client puts one object in place: the encrypted form of
the content, with the metadata of the caller and the envelope. Nothing is left
at the temporary place, and nothing else changes. Every client whose ring holds
the master key reads the content back.

What is proved:
  1. `EncryptingClient.put_ensures` — the calls of a write.
  2. `EncryptingClient.put_stores` — what a write leaves in a store.
-/

namespace SealedStore

open Program (Ensures)

/-! ## Writes -/

/-- The content that a write brings; no entity counts as an empty one. -/
def Put.Brings (p : Put) (content : Bytes) : Prop :=
  match p.entity with
  | none => content = []
  | some stream => stream.Holds content

theorem Put.Brings.holds {p : Put} {content : Bytes} (h : p.Brings content) :
    (p.entity.getD default).Holds content := by
  unfold Brings at h
  cases he : p.entity with
  | none =>
    rw [he] at h
    obtain rfl : content = [] := h
    exact Stream.holds_ofBytes []
  | some stream =>
    rw [he] at h
    exact h

theorem Put.brings_of_holds {p : Put} {content : Bytes} (h : (p.entity.getD default).Holds content) :
    p.Brings content := by
  unfold Brings
  cases he : p.entity with
  | none =>
    rw [he] at h
    exact h.unique (Stream.holds_ofBytes [])
  | some stream =>
    rw [he] at h
    exact h

/-- A write as it comes back: of its entity nothing is left, unless it met a
fault, and all else is as it was. -/
def Put.Drained (p back : Put) : Prop :=
  ∃ read, back = { p with entity := p.entity.map fun _ => read } ∧
    ((∃ content, p.Brings content) → read.Holds [])

theorem Put.drained {p : Put} {read : Stream} (hs : (p.entity.getD default).Steady)
    (hreach : (p.entity.getD default).Reaches read)
    (h : ∀ content, (p.entity.getD default).script.outcome = .ok content → read.script = []) :
    p.Drained { p with entity := p.entity.bind fun _ => some read } := by
  refine ⟨read, ?_, fun ⟨content, hp⟩ => ⟨hreach.steady hs, h content ?_⟩⟩
  · rw [Option.map_eq_bind]
    rfl
  · rw [hp.holds.script_eq, Script.outcome_ofBytes]

namespace EncryptingClient
variable {σ : Type} {serve : Program.Service StorageInterface σ} {s : σ} {settings : EncryptionSettings}
  {base : ClientSettings} {filters : List Filter}

/-- The metadata of an object with the entries of an envelope. -/
def enriched (metadata : Metadata) (envelope : Envelope) : Metadata :=
  { metadata with user := metadata.user.merge envelope.toUserMetadata }

/-- A write goes a detour of three calls: it puts the encrypted content at the
temporary place, copies it to its own with the envelope, and deletes the first.
Of an entity that meets a fault nothing is put, and neither is anything under a
master key that refuses to wrap. -/
theorem put_ensures {p : Put} {R : Except Error WriteResult → σ → Prop} (hf : OneChecksum filters)
    (hrange : p.range = none) (hs : (p.entity.getD default).Steady)
    (hk : settings.encryption.ring.current.Faithful)
    (hrefused : ¬settings.encryption.ring.current.Dependable → ∀ fault,
      Ensures serve (StorageCall.delete (p.target.withSuffix settings.tempSuffix)).send.run s
        fun _ t => R (.error fault) t)
    (h : let temp := p.target.withSuffix settings.tempSuffix
      match (p.entity.getD default).script.outcome with
      | .error fault => Ensures serve (StorageCall.delete temp).send.run s fun _ t => R (.error fault) t
      | .ok content => ∀ encoder, settings.encryption.Sound encoder →
        let metadata := p.metadata.getD {}
        let full := enriched metadata (encoder.envelope content)
        let write := StorageCall.put temp (encoder.output content) (some metadata) none none
        Ensures serve write.send.run s (fun stored _ => ∀ first, stored = .ok first →
          (Storage.shown first).Honest (encoder.output content)) ∧
        Detour.Ends serve write.send (StorageCall.copy temp p.target (some full) p.acl).send
          (StorageCall.delete temp).send (fun r t => R (Client.concluded p.target temp
            (fun result => { result with metadata := some full }) r) t) s) :
    Ensures serve ((make settings base filters).put p) s fun out t =>
      R out.1 t ∧ (settings.encryption.ring.current.Dependable → p.Drained out.2) := by
  unfold put
  rw [if_neg (by simp [hrange])]
  refine .bind (handle_ensures hf fun next hsends _ => ?_)
  rw [Filter.transcode_encode rfl]
  refine Filter.encrypt_ensures hsends hk rfl rfl hs ?_ ?_
  · -- The key could not be wrapped, and of the entity nothing has been read.
    intro hno fault
    refine .seq (Client.travel_ensures rfl (.done (hrefused hno fault))) fun out t hr => ?_
    exact .done ⟨hr, fun hk => absurd hk hno⟩
  cases houtcome : (p.entity.getD default).script.outcome with
  | error fault =>
    simp only [houtcome] at h
    intro read hreach
    have hdrained := Put.drained (p := p) hs hreach (by rw [houtcome]; nofun)
    exact .seq (Client.travel_ensures rfl (.done h)) fun out t hr => .done ⟨hr, fun _ => hdrained⟩
  | ok content =>
    simp only [houtcome] at h
    intro encoder hsound
    obtain ⟨hhonest, hends⟩ := h encoder hsound
    refine .map ((hhonest.and hends).mono ?_)
    rintro stored t ⟨hfirst, hrest⟩
    refine ⟨?_, fun read hreach hread => ?_⟩
    · rintro response hresponse
      cases stored with
      | error e => cases hresponse
      | ok first =>
        cases hresponse
        exact hfirst first rfl
    -- The content is written already; what is left is to publish it.
    · have hdrained := Put.drained (p := p) hs hreach fun _ _ => hread
      cases stored with
      | error e => exact .seq (Client.travel_ensures rfl (.done hrest)) fun out u hr => .done ⟨hr, fun _ => hdrained⟩
      | ok first => exact .seq (Client.travel_ensures rfl (.done hrest)) fun out u hr => .done ⟨hr, fun _ => hdrained⟩

/-- The object of an encrypted write. -/
def sealedObject (s : Storage) (p : Put) (encoder : Encoder) (content : Bytes) : StoredObject :=
  Storage.objectOf { s with clock := s.clock + 1, issued := s.issued + 1 } (encoder.output content)
    (enriched (p.metadata.getD {}) (encoder.envelope content)) p.acl

theorem publishedObject_sealed (s : Storage) (p : Put) (encoder : Encoder) (content : Bytes) :
    s.publishedObject (s.objectOf (encoder.output content) (p.metadata.getD {}) none)
      (some (enriched (p.metadata.getD {}) (encoder.envelope content))) p.acl =
        sealedObject s p encoder content := Storage.objectOf_kept _ _ _ _ none

/-- How a write ends: its object is in the store, nothing is left at the
temporary place, and the result shows the object. -/
def Wrote (settings : EncryptionSettings) (s : Storage) (p : Put) (content : Bytes)
    (r : Except Error WriteResult) (t : Storage) : Prop :=
  ∃ encoder, settings.encryption.Sound encoder ∧
    let object := sealedObject s p encoder content
    t = s.afterDetour p.target (p.target.withSuffix settings.tempSuffix) object ∧
    r = .ok { Client.copied object with
      metadata := some (enriched (p.metadata.getD {}) (encoder.envelope content)) }

/-- A write to a store that gets as far as to have an encoder ends well. -/
theorem ends_wrote (s : Storage) (p : Put) (content : Bytes) {encoder : Encoder}
    (hsuffix : settings.tempSuffix ≠ "") (hsound : settings.encryption.Sound encoder) :
    let temp := p.target.withSuffix settings.tempSuffix
    let metadata := p.metadata.getD {}
    let full := enriched metadata (encoder.envelope content)
    let write := StorageCall.put temp (encoder.output content) (some metadata) none none
    Ensures Storage.serve write.send.run s (fun stored _ => ∀ first, stored = .ok first →
      (Storage.shown first).Honest (encoder.output content)) ∧
    Detour.Ends Storage.serve write.send (StorageCall.copy temp p.target (some full) p.acl).send
      (StorageCall.delete temp).send (fun r t => Wrote settings s p content (Client.concluded p.target temp
        (fun result => { result with metadata := some full }) r) t) s := by
  intro temp metadata full write
  have htemp : temp ≠ p.target := p.target.withSuffix_ne hsuffix
  let first := s.objectOf (encoder.output content) metadata none
  refine ⟨StorageCall.send_ensures ?_, ?_⟩
  · rintro _ ⟨⟩
    exact s.honest_objectOf _ metadata none
  have hwrite : Ensures Storage.serve write.send.run s
      fun r t => (∃ a, r = .ok a) ∧ t = s.withObject temp first :=
    StorageCall.send_ensures ⟨⟨first, rfl⟩, rfl⟩
  refine Storage.detour_ends htemp hwrite ?_
  rw [publishedObject_sealed]
  exact ⟨encoder, hsound, rfl, rfl⟩

theorem put_wrote {s : Storage} {p : Put} {content : Bytes} (hf : OneChecksum filters)
    (hsuffix : settings.tempSuffix ≠ "") (hrange : p.range = none) (hp : p.Brings content)
    (hk : settings.encryption.ring.current.Dependable) :
    Ensures Storage.serve ((make settings base filters).put p) s fun out t =>
      Wrote settings s p content out.1 t := by
  refine .mono (put_ensures (R := Wrote settings s p content) hf hrange hp.holds.steady hk.faithful
    (fun hno => absurd hk hno) ?_) fun _ _ h => h.1
  rw [hp.holds.script_eq, Script.outcome_ofBytes]
  intro _ encoder hsound
  exact ends_wrote s p content hsuffix hsound

/-- A write that comes back without an error had a content and no range, and
has ended well. -/
theorem put_returned {s : Storage} {p : Put} (hf : OneChecksum filters) (hsuffix : settings.tempSuffix ≠ "")
    (hk : settings.encryption.ring.current.Faithful) (hs : (p.entity.getD default).Steady) :
    Ensures Storage.serve ((make settings base filters).put p) s fun out t =>
      ∀ result, out.1 = .ok result → ∃ content, p.Brings content ∧ Wrote settings s p content out.1 t := by
  cases hrange : p.range with
  | some range =>
    -- A range is refused before anything is called.
    unfold put
    rw [if_pos (by simp [hrange])]
    exact .done nofun
  | none =>
    let Returns (r : Except Error WriteResult) (t : Storage) : Prop :=
      ∀ result, r = .ok result → ∃ content, p.Brings content ∧ Wrote settings s p content r t
    refine (put_ensures (R := Returns) hf hrange hs hk (fun _ fault => StorageCall.send_ensures nofun) ?_).mono
      fun _ _ h => h.1
    cases houtcome : (p.entity.getD default).script.outcome with
    | error fault => exact StorageCall.send_ensures nofun
    | ok content =>
      intro _ encoder hsound
      have hbrings : p.Brings content := Put.brings_of_holds (Stream.holds_of_outcome hs houtcome)
      obtain ⟨hhonest, hends⟩ := ends_wrote s p content hsuffix hsound
      exact ⟨hhonest, hends.weaken fun r t hwrote _ _ => ⟨content, hbrings, hwrote⟩⟩

/-! ## Reads -/

/-- A sealed object is read as the content that was sealed. -/
theorem get_sealed {s : Storage} {target : Identity} {object : StoredObject} {envelope : Envelope}
    {plain : Bytes} (hf : OneChecksum filters) (hget : s.objects.get? target = some object)
    (hhonest : (Storage.shown object).Honest object.content)
    (hseals : settings.encryption.Seals envelope object.content plain)
    (hcarries : Envelope.Carries object.metadata.user envelope) :
    Ensures Storage.serve ((make settings base filters).get target none).run s fun r t =>
      t = s ∧ ∃ body : Stream, body.Holds plain ∧ r = .ok {
        body, metadata := { object.metadata with contentLength := envelope.size } } := by
  refine get_ensures hf (StorageCall.send_ensures ?_)
  rw [Storage.serve_get hget]
  intro stream hstream
  obtain ⟨d, hdecoder, rfl, hcheck, rfl⟩ := Encryption.decoder_of_seals hseals hcarries
  have hdecrypt : Filter.decrypt settings.encryption { Storage.shown object with entity := some stream } =
      .ok _ := Filter.decrypt_of_decoder rfl rfl hdecoder
  rw [hdecrypt]
  exact ⟨rfl, _, Decoder.holds_content (hstream.holds hhonest) hcheck, rfl⟩

/-- What a write leaves in a store, and what it hands back. The length of the
content has to be one that can be read from an envelope. -/
theorem put_stores (settings : EncryptionSettings) (hsuffix : settings.tempSuffix ≠ "")
    (hk : settings.encryption.ring.current.Dependable) (base : ClientSettings) {p : Put}
    (hrange : p.range = none) {content : Bytes} (hp : p.Brings content)
    (hlen : content.length < 10 ^ Integer.maxDigits) (w : World Storage) :
    let out := ((usual settings base).put p).run Storage.serve w
    let temp := p.target.withSuffix settings.tempSuffix
    let metadata := p.metadata.getD {}
    ∃ (result : WriteResult) (object : StoredObject) (envelope : Envelope) (dataKey : SecretKey),
      out.1.1 = .ok result ∧
      out.2.state = { w.state with
        objects := (w.state.objects.erase temp).insert p.target object
        clock := w.state.clock + 2
        issued := w.state.issued + 2 } ∧
      object.content = (Gcm.context dataKey.material envelope.iv).crypt 0 content ++
        (Gcm.context dataKey.material envelope.iv).tag []
          ((Gcm.context dataKey.material envelope.iv).crypt 0 content) ∧
      object.content.length = content.length + tagSize ∧
      object.metadata.etag = some (Md5.hex object.content) ∧
      object.metadata.contentLength = some ((content.length + tagSize : Nat) : Int) ∧
      object.metadata.contentType = metadata.contentType ∧
      object.acl = p.acl.getD {} ∧
      object.metadata.user = metadata.user.merge envelope.toUserMetadata ∧
      envelope.size = some (content.length : Int) ∧
      envelope.sha256 = some (Sha256.hex content) ∧
      envelope.masterKeyId = settings.encryption.ring.current.keyId ∧
      settings.encryption.unwrap envelope = .ok dataKey ∧
      result.etag = object.metadata.etag ∧
      result.metadata.map Metadata.user = some object.metadata.user ∧
      ∀ (reader : EncryptionSettings) (other : ClientSettings) (w' : World Storage),
        reader.encryption.ring.get? envelope.masterKeyId = some settings.encryption.ring.current →
        w'.state = out.2.state →
        let back := ((usual reader other).get p.target none).run.run Storage.serve w'
        back.2.state = w'.state ∧ ∃ body, back.1 = .ok {
          body, metadata := { object.metadata with contentLength := some (content.length : Int) } } ∧
          body.Serves content := by
  intro out temp metadata
  obtain ⟨encoder, hsound, hstate, hresult⟩ :=
    put_wrote oneChecksum_default hsuffix hrange hp hk w rfl
  let envelope := encoder.envelope content
  let object := sealedObject w.state p encoder content
  have hcarries : Envelope.Carries object.metadata.user envelope :=
    Envelope.carries_merge metadata.user rfl rfl
  have hlength : object.content.length = content.length + tagSize := encoder.length_output content
  refine ⟨_, object, envelope, encoder.dataKey, hresult, hstate, rfl, hlength, rfl, ?_, rfl, rfl, rfl,
    rfl, rfl, hsound.masterKeyId, ?_, rfl, rfl, ?_⟩
  · rw [← hlength]
    rfl
  · exact Encryption.unwrap_of_sound hsound content
  · intro reader other w' hring hw' back
    have hget : w'.state.objects.get? p.target = some object := by
      rw [hw', hstate]
      exact (Table.get?_insert ..).trans (if_pos rfl)
    -- Whoever holds the master key finds the key of the content in the entries.
    have hreader : reader.encryption.Seals envelope object.content content := by
      refine Encryption.seals_of_sound hsound ?_ hlen
      rwa [show envelope.masterKeyId = settings.encryption.ring.current.keyId from hsound.masterKeyId] at hring
    obtain ⟨hsame, body, hbody, hback⟩ :=
      get_sealed oneChecksum_default hget (Filter.mismatch?_self _) hreader hcarries w' rfl
    exact ⟨hsame, body, hback, hbody.serves⟩

def oneKey : EncryptionSettings :=
  { encryption := { ring := KeyRing.make (.aes ⟨List.replicate 32 7⟩ "main") [] } }

def twoKeys : EncryptionSettings :=
  { encryption := { ring := oneKey.encryption.ring.rotated (.aes ⟨List.replicate 32 8⟩ "next") } }

def threeBytes : Put := Put.make ⟨"bucket", "key"⟩ (some (.bytes [1, 2, 3])) none none none

theorem threeBytes_brings : threeBytes.Brings [1, 2, 3] := Stream.holds_ofBytes [1, 2, 3]

/-- Three bytes with a stale field among their entries are stored as nineteen. -/
theorem put_stores_three :
    ∃ object : StoredObject,
      (((usual oneKey {}).put (Put.make ⟨"bucket", "key"⟩ (some (.bytes [1, 2, 3]))
        (some { user := ⟨[(Envelope.keyName, "stale")]⟩ }) none none)).run Storage.serve
          { entropy := Entropy.ofSeed "", state := {} }).2.state.objects.get? ⟨"bucket", "key"⟩ =
        some object ∧ object.content.length = 19 := by
  have hsuffix : oneKey.tempSuffix ≠ "" := by decide
  have hlen : ([1, 2, 3] : Bytes).length < 10 ^ Integer.maxDigits := Integer.lt_of_lt_ten (by decide)
  obtain ⟨_, object, _, _, -, hstate, -, hlength, -⟩ :=
    put_stores oneKey hsuffix rfl {} rfl (Stream.holds_ofBytes [1, 2, 3]) hlen
      { entropy := Entropy.ofSeed "", state := {} }
      (p := Put.make ⟨"bucket", "key"⟩ (some (.bytes [1, 2, 3]))
        (some { user := ⟨[(Envelope.keyName, "stale")]⟩ }) none none)
  refine ⟨object, ?_, hlength⟩
  rw [hstate]
  exact (Table.get?_insert ..).trans (if_pos rfl)

end EncryptingClient

end SealedStore
