import SealedStore.Proofs.Raising
import SealedStore.Proofs.Rekeying
/-!
# Contained failures

Metadata and contents of a store may be anything. Reading an object fails
because there is none, because its master key is out of reach, or because its
envelope or its content is refused; rekeying fails in the same ways, and if the
object is not encrypted. Whether a master key is out of reach is seen from the
mode and the name of the key alone, and whatever passes that test is not found
to be out of reach later on.

What is proved:
  1. `Encryption.decoder_raises`, `Encryption.rekey_raises` — what can fail once
     a master key is in reach.
  2. `Filter.contained_through` — reads behind any filters.
  3. `EncryptingClient.get_contained`, `rekey_contained` — reading and rekeying.
  4. `EncryptingClient.failures_contained` — both, for every store.
-/

namespace SealedStore

open Program (Ensures)

/-! ## Kinds of failures -/

/-- Content or metadata are refused. -/
def Error.IsTransform (e : Error) : Prop := ∃ fault, e = .transform fault

/-- A content is refused, or is not the one whose digest is reported. -/
def Error.SpoilsRead (e : Error) : Prop := e.IsTransform ∨ ∃ actual etag, e = .checksum actual etag

theorem Stage.verify_raises (etag : String) : (Stage.verify etag).Raises Error.SpoilsRead := by
  intro seen
  simp only [finish]
  split
  · exact .ok _
  · exact .error (.inr ⟨_, _, rfl⟩)

theorem Stage.decode_raises (d : Decoder) : (Stage.decode d).Raises Error.SpoilsRead := by
  intro seen
  simp only [finish]
  cases d.check seen with
  | error fault => exact .error (.inl ⟨fault, rfl⟩)
  | ok => exact .ok _

/-! ## Master keys -/

/-- A master key under which every key of content is encrypted. That an AES key
of another length does not is a fault of its own. -/
def MasterKey.Encrypts : MasterKey → Prop
  | .aes _ _ => True
  | .rsa key => ∀ (size : KeySize) (seed material : Bytes), seed.length = 32 →
    material.length = size.bytes → key.encrypt? seed material ≠ none

section
variable {I : Interface} {σ : Type} {serve : Program.Service I σ} {s : σ}

theorem MasterKey.wrap_raises {k : MasterKey} (hk : k.Encrypts) {dataKey : SecretKey} {size : KeySize}
    (hd : dataKey.material.length = size.bytes) :
    Ensures serve (k.wrap dataKey).run s fun r t => t = s ∧ Raises (fun e => ∃ fault, e = .key fault) r := by
  cases k with
  | aes key name =>
    simp only [wrap, SecretKey.wrap]
    split
    · exact .done ⟨rfl, .error ⟨_, rfl⟩⟩
    · exact .draw fun nonce _ => .done ⟨rfl, .ok _⟩
  | rsa key =>
    rw [run_wrap_rsa]
    refine .draw fun seed hseed => ?_
    cases hencrypt : key.encrypt? seed dataKey.material with
    | none => exact absurd hencrypt (hk size seed dataKey.material hseed hd)
    | some wrapped => exact .done ⟨rfl, .ok _⟩

/-! ## Master keys in reach -/

theorem Envelope.read_raises {m : UserMetadata} {mode : String} (hmode : modeOf? m = some mode) :
    Raises Error.IsTransform (read m) := by
  simp only [read, hmode]
  cases fields mode m with
  | error fault => exact .error ⟨fault, rfl⟩
  | ok envelope => exact .ok envelope

namespace Encryption
variable {e : Encryption} {m : UserMetadata} {mode : String} {envelope : Envelope} {dataKey : SecretKey}

/-- The object is encrypted, but in another mode or under a master key that is
not named or not in the ring. -/
def OutOfReach (e : Encryption) (m : UserMetadata) : Prop :=
  ∃ mode, Envelope.modeOf? m = some mode ∧
    (mode ≠ Envelope.aesGcm ∨ ∀ keyId, m.get? Envelope.keyIdName = some keyId → e.ring.contains keyId = false)

/-- A fault says that the master key is out of reach if it is, and is one of
those of which `P` holds if it is not. -/
def Refuses (e : Encryption) (P : Error → Prop) (m : UserMetadata) (fault : Error) : Prop :=
  ((∃ obstacle, fault = .cannotUnwrap obstacle) ∧ e.OutOfReach m) ∨ (P fault ∧ ¬e.OutOfReach m)

theorem not_outOfReach_of_plain (h : Envelope.modeOf? m = none) : ¬e.OutOfReach m := by
  intro hout
  obtain ⟨mode, hmode, -⟩ := hout
  rw [h] at hmode
  cases hmode

/-- The test that is made of an encrypted object says whether it is in reach. -/
theorem canDecode_eq_false_iff (hmode : Envelope.modeOf? m = some mode) :
    e.canDecode mode m = false ↔ e.OutOfReach m := by
  have hkeyId : (m.get? Envelope.keyIdName).any e.ring.contains = false ↔
      ∀ keyId, m.get? Envelope.keyIdName = some keyId → e.ring.contains keyId = false := by
    cases m.get? Envelope.keyIdName <;> simp
  unfold canDecode OutOfReach
  rw [Bool.and_eq_false_iff, hkeyId, beq_eq_false_iff_ne]
  constructor
  · intro h
    exact ⟨mode, hmode, h⟩
  · intro h
    obtain ⟨found, hfound, h⟩ := h
    obtain rfl : mode = found := Option.some.inj (hmode.symm.trans hfound)
    exact h

theorem requireMode_cases (hmode : Envelope.modeOf? m = some mode) :
    (e.requireMode m = .ok mode ∧ ¬e.OutOfReach m) ∨
      (e.requireMode m = .error (.cannotUnwrap (.modeOrKey mode (m.get? Envelope.keyIdName))) ∧
        e.OutOfReach m) := by
  have hiff := canDecode_eq_false_iff (e := e) hmode
  unfold requireMode
  rw [hmode]
  cases hcan : e.canDecode mode m with
  | true =>
    refine .inl ⟨by simp [hcan], ?_⟩
    intro hout
    rw [hiff.mpr hout] at hcan
    cases hcan
  | false => exact .inr ⟨by simp [hcan], hiff.mp hcan⟩

theorem of_requireMode (h : e.requireMode m = .ok mode) : Envelope.modeOf? m = some mode ∧
    mode = Envelope.aesGcm ∧
    ∀ keyId, m.get? Envelope.keyIdName = some keyId → e.ring.contains keyId = true := by
  obtain ⟨hmode, hcan⟩ := (e.requireMode_eq_ok_iff m mode).mp h
  simp only [canDecode, Bool.and_eq_true, beq_iff_eq] at hcan
  refine ⟨hmode, hcan.1, ?_⟩
  intro keyId hkeyId
  have hany := hcan.2
  rw [hkeyId] at hany
  exact hany

/-- A master key of the ring refuses what it is not the key of. -/
theorem unwrap_raises (h : e.ring.contains envelope.masterKeyId = true) :
    Raises Error.IsTransform (e.unwrap envelope) := by
  unfold unwrap
  cases hget : e.ring.get? envelope.masterKeyId with
  | none =>
    rw [KeyRing.contains, hget] at h
    cases h
  | some master =>
    dsimp only
    split
    · exact .error ⟨_, rfl⟩
    · split
      · exact .error ⟨_, rfl⟩
      · exact .ok _

theorem of_read (h : e.requireMode m = .ok mode) (hread : Envelope.read m = .ok envelope) :
    envelope.mode = Envelope.aesGcm ∧ e.ring.contains envelope.masterKeyId = true := by
  obtain ⟨hmode, haes, hring⟩ := of_requireMode h
  obtain ⟨hfound, -, hid, -⟩ := Envelope.read_eq_ok_iff.mp hread
  refine ⟨?_, hring _ hid⟩
  rw [← haes]
  exact Option.some.inj (hfound.symm.trans hmode)

theorem decoder_raises (h : e.requireMode m = .ok mode) : Raises Error.IsTransform (e.decoder m) := by
  unfold decoder
  refine (Envelope.read_raises (of_requireMode h).1).bind ?_
  intro envelope hread
  obtain ⟨haes, hring⟩ := of_read h hread
  simp only [haes, ne_eq, not_true_eq_false, if_false]
  refine (unwrap_raises hring).bind ?_
  intro dataKey _
  split
  · exact .error ⟨_, rfl⟩
  · exact .ok _

theorem wrapCurrent_raises (hk : e.ring.current.Encrypts) {size : KeySize}
    (hd : dataKey.material.length = size.bytes) :
    Ensures serve (e.wrapCurrent dataKey).run s fun r t => t = s ∧ Raises Error.IsTransform r := by
  refine .seq (MasterKey.wrap_raises hk hd) ?_
  intro r t hr
  obtain ⟨rfl, hraises⟩ := hr
  cases r with
  | ok wrapped => exact .done ⟨rfl, .ok wrapped⟩
  | error fault =>
    obtain ⟨keyFault, rfl⟩ := hraises fault rfl
    exact .done ⟨rfl, .error ⟨_, rfl⟩⟩

/-- Wrapping a key anew that is in reach fails because the envelope is refused,
or has nothing to do. -/
theorem rekey_raises (hk : e.ring.current.Encrypts) (h : e.requireMode m = .ok mode) :
    Ensures serve (e.rekey m).run s fun r t => t = s ∧
      Raises (fun fault => fault.IsTransform ∨ ∃ keyId, fault = .alreadyCurrent keyId) r := by
  have hread := Envelope.read_raises (of_requireMode h).1
  unfold rekey
  refine .attempt (.of ?_)
  cases henvelope : Envelope.read m with
  | error fault => exact ⟨rfl, .error (.inl (hread fault henvelope))⟩
  | ok envelope =>
    obtain ⟨-, hring⟩ := of_read h henvelope
    by_cases hid : envelope.masterKeyId = e.ring.current.keyId
    · simp only [hid, if_true]
      exact .done ⟨rfl, .error (.inr ⟨_, rfl⟩)⟩
    · simp only [hid, if_false]
      refine .attempt (.of ?_)
      cases hunwrap : e.unwrap envelope with
      | error fault => exact ⟨rfl, .error (.inl (unwrap_raises hring fault hunwrap))⟩
      | ok dataKey =>
        obtain ⟨-, size, -, -, hsize⟩ := unwrap_eq_ok_iff.mp hunwrap
        refine .attempt ((wrapCurrent_raises hk hsize).mono ?_)
        intro r t hr
        obtain ⟨rfl, hraises⟩ := hr
        cases r with
        | error fault => exact ⟨rfl, .error (.inl (hraises fault rfl))⟩
        | ok wrapped => exact .done ⟨rfl, .ok _⟩

end Encryption

end

/-! ## Reads behind filters -/

/-- What a read of a stored object has come to, behind a codec or not: its
metadata are those of the object, its content raises nothing unexpected, and
the codec has told whether the master key is in reach. -/
def Fetched (e : Encryption) (object : StoredObject) (coded : Prop) : Except Error Response → Prop
  | .ok response =>
    (∃ metadata body, response.metadata = some metadata ∧ metadata.user = object.metadata.user ∧
      response.entity = some body ∧ body.Raises Error.SpoilsRead) ∧
    (coded → ¬e.OutOfReach object.metadata.user)
  | .error fault => e.Refuses Error.IsTransform object.metadata.user fault

namespace Filter
variable {e : Encryption} {object : StoredObject} {coded : Prop} {response : Response}

theorem fetched_verifyRead (h : Fetched e object coded (.ok response)) :
    Fetched e object coded (.ok (verifyRead response)) := by
  obtain ⟨⟨metadata, body, hmetadata, huser, hentity, hbody⟩, hreach⟩ := h
  unfold verifyRead
  rw [hentity]
  cases digestOf? response.etag with
  | none => exact ⟨⟨metadata, body, hmetadata, huser, hentity, hbody⟩, hreach⟩
  | some etag =>
    exact ⟨⟨metadata, _, hmetadata, huser, rfl, hbody.layered (Stage.verify_raises etag)⟩, hreach⟩

/-- Decrypting tells whether the master key is in reach. -/
theorem fetched_decrypt (h : Fetched e object coded (.ok response)) :
    Fetched e object True (decrypt e response) := by
  obtain ⟨⟨metadata, body, hmetadata, huser, hentity, hbody⟩, -⟩ := h
  unfold decrypt
  rw [hmetadata, hentity]
  dsimp only
  rw [huser]
  cases hmode : Envelope.modeOf? object.metadata.user with
  | none =>
    refine ⟨⟨metadata, body, hmetadata, huser, hentity, hbody⟩, ?_⟩
    intro _
    exact Encryption.not_outOfReach_of_plain hmode
  | some mode =>
    obtain ⟨hrequire, hin⟩ | ⟨hrequire, hout⟩ := Encryption.requireMode_cases (e := e) hmode
    · cases hdecoder : e.decoder object.metadata.user with
      | error fault =>
        -- The test was passed, so that it is the envelope or the wrapped key that is refused.
        simp only [hrequire, bind, Except.bind]
        exact .inr ⟨Encryption.decoder_raises hrequire fault hdecoder, hin⟩
      | ok d =>
        simp only [hrequire, bind, Except.bind]
        exact ⟨⟨_, _, rfl, rfl, rfl, hbody.layered (Stage.decode_raises d)⟩, fun _ => hin⟩
    · simp only [hrequire, bind, Except.bind]
      exact .inl ⟨⟨_, rfl⟩, hout⟩

end Filter

theorem Fetched.mono {e : Encryption} {object : StoredObject} {coded coded' : Prop} {reply : Except Error Response}
    (h : Fetched e object coded reply) (hi : coded' → coded) : Fetched e object coded' reply := by
  cases reply with
  | error fault => exact h
  | ok response => exact ⟨h.1, fun hcoded => h.2 (hi hcoded)⟩

/-- A handler answers the read of a whole object with what it fetches of the
object, if there is one, and leaves the store and the request alone. -/
def Handler.Contained (e : Encryption) (coded : Prop) (h : Handler StorageInterface) : Prop :=
  ∀ (r : Request) (s : Storage), r.entity = none → r.operation = .get none → r.properties.encode = false →
    r.properties.decode = true → Ensures Storage.serve (h r) s fun out t => t = s ∧ out.2 = r ∧
      match s.objects.get? r.target with
      | none => out.1 = .error (.notFound r.target)
      | some object => Fetched e object coded out.1

namespace Handler.Contained
variable {e : Encryption} {coded : Prop} {next : Handler StorageInterface}

theorem mono {coded' : Prop} (h : Contained e coded next) (hi : coded' → coded) : Contained e coded' next := by
  intro r s hentity hop hencode hdecode
  refine (h r s hentity hop hencode hdecode).mono ?_
  intro out t hout
  obtain ⟨ht, hback, hreply⟩ := hout
  refine ⟨ht, hback, ?_⟩
  cases hget : s.objects.get? r.target with
  | none =>
    rw [hget] at hreply
    exact hreply
  | some object =>
    rw [hget] at hreply
    exact hreply.mono hi

theorem carryOut : Contained e False Storage.carryOut := by
  intro r s hentity hop _ _
  rw [carryOut_eq hentity, hop]
  refine .seq (Q := fun reply t => t = s ∧ match s.objects.get? r.target with
    | none => reply = .error (.notFound r.target)
    | some object => Fetched e object False reply) ?_ ?_
  · refine .map (StorageCall.send_ensures ?_)
    cases hget : s.objects.get? r.target with
    | none =>
      rw [Storage.serve_get_missing hget]
      exact ⟨rfl, rfl⟩
    | some object =>
      rw [Storage.serve_get hget]
      exact ⟨rfl, ⟨_, _, rfl, rfl, rfl, Stream.raises_ofBytes object.content⟩, False.elim⟩
  · intro reply t hreply
    exact .done ⟨hreply.1, rfl, hreply.2⟩

theorem log (h : Contained e coded next) : Contained e coded (Filter.log next) := by
  intro r s hentity hop hencode hdecode
  exact log_ensures (h r s hentity hop hencode hdecode)

theorem after {coded' : Prop} (h : Contained e coded next) {f : Response → Except Error Response}
    (hf : ∀ object response, Fetched e object coded (.ok response) → Fetched e object coded' (f response))
    {r : Request} {s : Storage} (hentity : r.entity = none) (hop : r.operation = .get none)
    (hencode : r.properties.encode = false) (hdecode : r.properties.decode = true) :
    Ensures Storage.serve (next r) s fun out t => t = s ∧ out.2 = r ∧
      match s.objects.get? r.target with
      | none => out.1.bind f = .error (.notFound r.target)
      | some object => Fetched e object coded' (out.1.bind f) := by
  refine (h r s hentity hop hencode hdecode).mono ?_
  intro out t hout
  obtain ⟨reply, back⟩ := out
  obtain ⟨ht, hback, hreply⟩ := hout
  refine ⟨ht, hback, ?_⟩
  cases hget : s.objects.get? r.target with
  | none =>
    simp only [hget] at hreply ⊢
    rw [hreply]
    rfl
  | some object =>
    simp only [hget] at hreply ⊢
    cases reply with
    | error fault => exact hreply
    | ok response => exact hf object response hreply

theorem checkDigests (h : Contained e coded next) : Contained e coded (Filter.checkDigests next) := by
  intro r s hentity hop hencode hdecode
  simp only [Filter.checkDigests, hentity]
  refine .seq (h.after (f := fun response => .ok (Filter.verifyRead response))
    (fun object response => Filter.fetched_verifyRead) hentity hop hencode hdecode) ?_
  intro out t hout
  obtain ⟨reply, back⟩ := out
  obtain ⟨ht, rfl, hreply⟩ := hout
  have hfull : Filter.readsInFull back.operation = true := by rw [hop]; rfl
  simp only [hfull, if_true]
  exact .done ⟨ht, rfl, hreply⟩

theorem transcode (h : Contained e coded next) : Contained e True (Filter.transcode e next) := by
  intro r s hentity hop hencode hdecode
  simp only [Filter.transcode, hencode, Bool.false_eq_true, if_false]
  refine .seq (h.after (f := Filter.decrypt e)
    (fun object response => Filter.fetched_decrypt) hentity hop hencode hdecode) ?_
  intro out t hout
  obtain ⟨reply, back⟩ := out
  obtain ⟨ht, rfl, hreply⟩ := hout
  rw [if_pos hdecode]
  exact .done ⟨ht, rfl, hreply⟩

end Handler.Contained

/-- Reads behind any filters whose codecs are alike. -/
theorem Filter.contained_through {e : Encryption} {filters : List Filter}
    (hf : ∀ f ∈ filters, f.isCodec = true → f = .codec e) :
    Handler.Contained e (∃ f ∈ filters, f.isCodec = true) (through filters Storage.carryOut) := by
  induction filters with
  | nil =>
    refine Handler.Contained.carryOut.mono ?_
    intro hcodec
    obtain ⟨f, hmem, -⟩ := hcodec
    cases hmem
  | cons f rest ih =>
    have hrest : Handler.Contained e (∃ g ∈ rest, g.isCodec = true) (through rest Storage.carryOut) := by
      apply ih
      intro g hg
      exact hf g (List.mem_cons_of_mem _ hg)
    cases f with
    | logging => exact hrest.log.mono (by simp [isCodec])
    | checksum => exact hrest.checkDigests.mono (by simp [isCodec])
    | codec other =>
      have hsame : Filter.codec other = .codec e := hf _ List.mem_cons_self rfl
      cases hsame
      exact hrest.transcode.mono fun _ => trivial

/-! ## Objects of a store -/

/-- How an operation on what may be stored at an address ends: there is nothing,
or it ends well with a master key in reach, or it is refused. -/
def Settled {α : Type} (P : Error → Prop) (e : Encryption) (target : Identity) :
    Option StoredObject → Except Error α → Prop
  | none, r => r = .error (.notFound target)
  | some object, .ok _ => ¬e.OutOfReach object.metadata.user
  | some object, .error fault => e.Refuses P object.metadata.user fault

namespace Settled
variable {α : Type} {P : Error → Prop} {e : Encryption} {target : Identity} {found : Option StoredObject}
  {r : Except Error α}

theorem raises (h : Settled P e target found r) :
    Raises (fun fault => fault = .notFound target ∨ (∃ obstacle, fault = .cannotUnwrap obstacle) ∨ P fault) r := by
  cases found with
  | none =>
    obtain rfl : r = .error (.notFound target) := h
    exact .error (.inl rfl)
  | some object =>
    cases r with
    | ok a => exact .ok a
    | error fault =>
      obtain ⟨hobstacle, -⟩ | ⟨hfault, -⟩ : e.Refuses P object.metadata.user fault := h
      · exact .error (.inr (.inl hobstacle))
      · exact .error (.inr (.inr hfault))

/-- A master key is said to be out of reach exactly if it is. -/
theorem cannotUnwrap_iff (hP : ∀ obstacle, ¬P (.cannotUnwrap obstacle)) (h : Settled P e target found r) :
    (∃ obstacle, r = .error (.cannotUnwrap obstacle)) ↔
      ∃ object, found = some object ∧ e.OutOfReach object.metadata.user := by
  cases found with
  | none =>
    obtain rfl : r = .error (.notFound target) := h
    simp
  | some object =>
    cases r with
    | ok a =>
      have hin : ¬e.OutOfReach object.metadata.user := h
      simp [hin]
    | error fault =>
      obtain ⟨⟨obstacle, rfl⟩, hout⟩ | ⟨hfault, hin⟩ : e.Refuses P object.metadata.user fault := h
      · simp [hout]
      · have hother : ∀ obstacle, fault ≠ .cannotUnwrap obstacle := by
          intro obstacle hobstacle
          exact hP obstacle (hobstacle ▸ hfault)
        simp [hother, hin]

end Settled

namespace EncryptingClient
variable {settings : EncryptionSettings} {base : ClientSettings} {filters : List Filter} {s : Storage}
  {target : Identity} {c : EncryptingClient} {m : UserMetadata}

/-- A read of a whole object. -/
theorem get_contained (h : ∀ f ∈ filters, f.isCodec = false) :
    Ensures Storage.serve ((make settings base filters).get target none).run s fun r t => t = s ∧
      Settled Error.IsTransform settings.encryption target (s.objects.get? target) r ∧
      ∀ content, r = .ok content → content.body.Raises Error.SpoilsRead := by
  let r : Request := { target, operation := .get none, properties := { decode := true } }
  have hchain := Filter.contained_through (eq_codec_of_mem settings.encryption h)
  let contentOf : Response → ObjectContent := fun response =>
    { body := response.entity.getD default, metadata := response.metadata.getD {} }
  show Ensures Storage.serve ((make settings base filters).base.execute r >>= fun response =>
    pure (contentOf response)).run s _
  refine .map (.seq (hchain r s rfl rfl rfl rfl) ?_)
  intro out t hout
  obtain ⟨reply, back⟩ := out
  obtain ⟨rfl, -, hreply⟩ := hout
  refine .done ⟨rfl, ?_⟩
  cases hget : t.objects.get? target with
  | none =>
    rw [hget] at hreply
    obtain rfl : reply = .error (.notFound target) := hreply
    refine ⟨rfl, ?_⟩
    intro content hcontent
    cases hcontent
  | some object =>
    rw [hget] at hreply
    cases reply with
    | error fault =>
      refine ⟨hreply, ?_⟩
      intro content hcontent
      cases hcontent
    | ok response =>
      obtain ⟨⟨metadata, body, -, -, hentity, hbody⟩, hin⟩ := hreply
      refine ⟨hin (exists_codec_mem settings.encryption filters), ?_⟩
      intro content hcontent
      cases hcontent
      show (response.entity.getD default).Raises Error.SpoilsRead
      rw [hentity]
      exact hbody

/-! ### Rekeying -/

/-- The test that rekeying makes. -/
theorem readableKeyId_cases (c : EncryptingClient) (target : Identity) (m : UserMetadata) :
    (∃ keyId mode, c.readableKeyId target m = .ok keyId ∧ c.encryption.encryption.requireMode m = .ok mode ∧
      ¬c.encryption.encryption.OutOfReach m) ∨
    ∃ fault, c.readableKeyId target m = .error fault ∧
      c.encryption.encryption.Refuses (· = .notEncrypted (some target)) m fault := by
  cases hmode : Envelope.modeOf? m with
  | none =>
    refine .inr ⟨.notEncrypted (some target), ?_, .inr ⟨rfl, Encryption.not_outOfReach_of_plain hmode⟩⟩
    simp only [readableKeyId, hmode]
  | some mode =>
    cases hcan : c.encryption.encryption.canDecode mode m with
    | false =>
      let obstacle : Obstacle := .modeOrKey mode (m.get? Envelope.keyIdName)
      refine .inr ⟨.cannotUnwrap obstacle, ?_, .inl ⟨⟨obstacle, rfl⟩, ?_⟩⟩
      · simp only [readableKeyId, hmode, hcan, obstacle]
        -- Where no master key is named, the object is out of reach as well.
        cases m.get? Envelope.keyIdName <;> rfl
      · exact (Encryption.canDecode_eq_false_iff hmode).mp hcan
    | true =>
      have hrequire : c.encryption.encryption.requireMode m = .ok mode :=
        (Encryption.requireMode_eq_ok_iff ..).mpr ⟨hmode, hcan⟩
      have hin : ¬c.encryption.encryption.OutOfReach m := by
        rw [← Encryption.canDecode_eq_false_iff hmode, hcan]
        decide
      cases hkeyId : m.get? Envelope.keyIdName with
      | none => simp [Encryption.canDecode, hkeyId] at hcan
      | some keyId =>
        refine .inl ⟨keyId, mode, ?_, hrequire, hin⟩
        simp only [readableKeyId, hmode, hkeyId, hcan]

theorem rekeyEntries_raises {mode : String} (hk : c.encryption.encryption.ring.current.Encrypts)
    (h : c.encryption.encryption.requireMode m = .ok mode) :
    Ensures Storage.serve (c.rekeyEntries target m).run s fun r t => t = s ∧ Raises Error.IsTransform r := by
  refine .seq (.bind ((Encryption.rekey_raises hk h).mono ?_)) fun r t hr => hr
  intro r t hr
  obtain ⟨rfl, hraises⟩ := hr
  cases r with
  | ok entries => exact .done (.done ⟨rfl, .ok _⟩)
  | error fault =>
    obtain ⟨cause, rfl⟩ | ⟨keyId, rfl⟩ := hraises fault rfl
    · exact .done (.done ⟨rfl, .error ⟨_, rfl⟩⟩)
    · exact .done (.done ⟨rfl, .ok none⟩)

/-- A detour that copies a stored object is not in the way of a failure. -/
theorem copies_end {temp : Identity} {object : StoredObject} (metadata : Option Metadata)
    (acl : Option AccessList) {R : Except (DetourFailure StoredObject) StoredObject → Storage → Prop}
    (hget : s.objects.get? target = some object) (h : ∀ published t, R (.ok published) t) :
    Detour.Ends Storage.serve (StorageCall.copy target temp none none).send
      (StorageCall.copy temp target metadata acl).send (StorageCall.delete temp).send R s := by
  refine StorageCall.send_ensures ?_
  rw [Storage.serve_copy hget]
  refine StorageCall.send_ensures ?_
  rw [Storage.serve_copy (s.get?_withObject temp _)]
  exact StorageCall.send_ensures (h _ _)

/-- Rekeying fails before it copies anything. -/
theorem rekey_contained (hk : c.encryption.encryption.ring.current.Encrypts) :
    Ensures Storage.serve (c.rekey target).run s fun r t =>
      Settled (fun fault => fault = .notEncrypted (some target) ∨ fault.IsTransform) c.encryption.encryption
        target (s.objects.get? target) r ∧ ∀ fault, r = .error fault → t = s := by
  unfold rekey
  refine .attempt (Client.metadata_ensures (StorageCall.send_ensures ?_))
  cases hget : s.objects.get? target with
  | none =>
    rw [Storage.serve_get_missing hget]
    exact ⟨rfl, fun _ _ => rfl⟩
  | some object =>
    rw [Storage.serve_get hget]
    refine .attempt (.of ?_)
    obtain ⟨keyId, mode, hkeyId, hrequire, hin⟩ | ⟨fault, hfault, hrefuses⟩ :=
      readableKeyId_cases c target object.metadata.user
    · rw [hkeyId]
      refine .attempt ((rekeyEntries_raises hk hrequire).mono ?_)
      intro r t hr
      obtain ⟨rfl, hraises⟩ := hr
      cases r with
      | error fault =>
        exact ⟨.inr ⟨.inr (hraises fault rfl), hin⟩, fun _ _ => rfl⟩
      | ok changed =>
        -- From here on nothing fails, whatever is copied.
        have hdone : ∀ (result : RekeyResult) (u : Storage),
            Settled (fun fault => fault = .notEncrypted (some target) ∨ fault.IsTransform)
              c.encryption.encryption target (some object) (.ok result) ∧
            ∀ fault, (.ok result : Except Error RekeyResult) = .error fault → u = t := by
          intro result u
          refine ⟨hin, ?_⟩
          intro fault hfault
          cases hfault
        cases changed with
        | none => exact .log (.done (hdone _ _))
        | some entries =>
          refine .attempt (Client.acl_ensures (StorageCall.send_ensures ?_))
          rw [Storage.serve_acl hget]
          let renewed : Metadata := { object.metadata with user := object.metadata.user.merge entries }
          have htravel := Client.travel_copies (c := c.base)
            (d := Detour.start target c.encryption.tempSuffix) (R := fun r _ => r = .ok ()) rfl
            (copies_end (some renewed) (some object.acl) hget fun _ _ => rfl)
          refine .attempt (.seq htravel ?_)
          intro out u hout
          obtain ⟨r, back⟩ := out
          cases r with
          | error failure => cases hout
          | ok => exact .done (.attempt (.done (.log (.done (hdone _ _)))))
    · rw [hfault]
      refine ⟨?_, fun _ _ => rfl⟩
      obtain ⟨hobstacle, hout⟩ | ⟨hplain, hin⟩ := hrefuses
      · exact .inl ⟨hobstacle, hout⟩
      · exact .inr ⟨.inl hplain, hin⟩

/-! ### Both -/

/-- Whatever is stored, reading an object and rekeying it fail in the expected
ways, and so does every read of the content. They say that the master key is out
of reach exactly if it is, and once the test for that is passed neither decrypting
nor rekeying says so. An operation that fails leaves the store as it is. -/
theorem failures_contained (settings : EncryptionSettings)
    (hk : settings.encryption.ring.current.Encrypts) (base : ClientSettings) {filters : List Filter}
    (h : ∀ f ∈ filters, f.isCodec = false) (target : Identity) (w : World Storage) :
    let e := settings.encryption
    let got := ((make settings base filters).get target none).run.run Storage.serve w
    let rekeyed := ((make settings base filters).rekey target).run.run Storage.serve w
    let outOfReach := ∃ object, w.state.objects.get? target = some object ∧ e.OutOfReach object.metadata.user
    (Raises (fun fault => fault = .notFound target ∨ (∃ obstacle, fault = .cannotUnwrap obstacle) ∨
        fault.IsTransform) got.1 ∧
      (∀ content, got.1 = .ok content → ∀ plan, ∀ r ∈ (content.body.readAll plan).1,
        Raises Error.SpoilsRead r) ∧
      ((∃ obstacle, got.1 = .error (.cannotUnwrap obstacle)) ↔ outOfReach) ∧ got.2.state = w.state) ∧
    (Raises (fun fault => fault = .notFound target ∨ (∃ obstacle, fault = .cannotUnwrap obstacle) ∨
        fault = .notEncrypted (some target) ∨ fault.IsTransform) rekeyed.1 ∧
      ((∃ obstacle, rekeyed.1 = .error (.cannotUnwrap obstacle)) ↔ outOfReach) ∧
      ∀ fault, rekeyed.1 = .error fault → rekeyed.2.state = w.state) ∧
    ∀ m mode, Envelope.modeOf? m = some mode → e.canDecode mode m = true →
      Raises Error.IsTransform (e.decoder m) ∧
      Raises (fun fault => fault.IsTransform ∨ ∃ keyId, fault = .alreadyCurrent keyId)
        ((e.rekey m).run.run Storage.serve w).1 := by
  intro e got rekeyed outOfReach
  have htransform : ∀ obstacle, ¬(Error.cannotUnwrap obstacle).IsTransform := by
    intro obstacle hfault
    obtain ⟨fault, hfault⟩ := hfault
    cases hfault
  have hrekeying : ∀ obstacle, ¬(Error.cannotUnwrap obstacle = .notEncrypted (some target) ∨
      (Error.cannotUnwrap obstacle).IsTransform) := by
    intro obstacle hfault
    obtain hplain | hfault := hfault
    · cases hplain
    · exact htransform obstacle hfault
  have hget : Ensures Storage.serve ((make settings base filters).get target none).run w.state _ := get_contained h
  have hrekey : Ensures Storage.serve ((make settings base filters).rekey target).run w.state _ :=
    rekey_contained (c := make settings base filters) hk
  obtain ⟨hsame, hgot, hbody⟩ := hget w rfl
  obtain ⟨hrekeyed, hkept⟩ := hrekey w rfl
  refine ⟨⟨hgot.raises, ?_, hgot.cannotUnwrap_iff htransform, hsame⟩,
    ⟨hrekeyed.raises, hrekeyed.cannotUnwrap_iff hrekeying, hkept⟩, ?_⟩
  · intro content hcontent plan
    exact Stream.readAll_raises (hbody content hcontent) plan
  · intro m mode hmode hcan
    have hrequire : e.requireMode m = .ok mode := (e.requireMode_eq_ok_iff m mode).mpr ⟨hmode, hcan⟩
    exact ⟨Encryption.decoder_raises hrequire, (Encryption.rekey_raises hk hrequire w rfl).2⟩

/-- An object whose master key is not named can neither be read nor rekeyed. -/
theorem failures_contained_unnamed : ∃ (w : World Storage) (obstacle : Obstacle),
    (((make oneKey {} []).get threeBytes.target none).run.run Storage.serve w).1 = .error (.cannotUnwrap obstacle) ∧
    ∃ other, (((make oneKey {} []).rekey threeBytes.target).run.run Storage.serve w).1 =
      .error (.cannotUnwrap other) := by
  let object : StoredObject := { content := [], metadata := { user := ⟨[(Envelope.modeName, Envelope.aesGcm)]⟩ } }
  let s : Storage := ({} : Storage).withObject threeBytes.target object
  obtain ⟨w, hw⟩ : ∃ w : World Storage, w.state = s := ⟨{ entropy := Entropy.ofSeed "", state := s }, rfl⟩
  have hplain : ∀ f ∈ ([] : List Filter), f.isCodec = false := by decide
  obtain ⟨⟨-, -, hgot, -⟩, ⟨-, hrekeyed, -⟩, -⟩ :=
    failures_contained oneKey trivial {} hplain threeBytes.target w
  have hout : ∃ found, w.state.objects.get? threeBytes.target = some found ∧
      oneKey.encryption.OutOfReach found.metadata.user := by
    have hmode : Envelope.modeOf? object.metadata.user = some Envelope.aesGcm :=
      (Envelope.modeOf?_eq_some_iff ..).mpr ⟨rfl, Encryption.startsWith_aesGcm⟩
    refine ⟨object, ?_, Envelope.aesGcm, hmode, .inr ?_⟩
    · rw [hw]
      exact Storage.get?_withObject ..
    · intro keyId hkeyId
      cases hkeyId
  obtain ⟨obstacle, hread⟩ := hgot.mpr hout
  obtain ⟨other, hrekey⟩ := hrekeyed.mpr hout
  exact ⟨w, obstacle, hread, other, hrekey⟩

end EncryptingClient

end SealedStore
