import SealedStore.Proofs.Handling
/-!
# Encrypting and decrypting on the way

What the codec makes of the requests that pass it. A write that is to be
encrypted becomes a write of what an encoder emits, and once the store has
answered, the user metadata hold the envelope. A read that is to be decrypted
hands out the content that was sealed. All other requests pass. Among filters
with at most one that compares checksums, the codec is met once.

What is proved:
  1. `Filter.encrypt_ensures` — encrypted writes.
  2. `Filter.decrypt_of_decoder` — responses with encrypted content.
  3. `Filter.transcode_fetches` — reads that are to be decrypted.
  4. `EncryptingClient.handle_ensures` — how a client with a codec handles a
     request.
-/

namespace SealedStore

open Program (Ensures)
open Handler (Sends Fetches)

namespace Filter
variable {σ : Type} {serve : Program.Service StorageInterface σ} {next : Handler StorageInterface}
  {e : Encryption} {r : Request} {s : σ} {Q : Except Error Response × Request → σ → Prop}

/-! ## Writes -/

/-- How a write ends whose entity was encrypted and read to its end. -/
def encrypted (encoder : Encoder) (content : Bytes) (r : Request) (read : Stream) :
    Except Error Response → Except Error Response × Request
  | .error fault => (.error fault, { r with entity := some read })
  | .ok response =>
    let entries := (encoder.envelope content).toUserMetadata
    (.ok { response with encoded := some entries }, { r with
      entity := some read
      properties := { r.properties with
        userMetadata := r.properties.userMetadata.map (·.merge entries) } })

/-- An encrypted write ends like carrying out the write of what an encoder
emits, or with the fault that the entity meets first. Under a master key that
refuses to wrap, it fails before anything is carried out. -/
theorem encrypt_ensures {stream : Stream} {metadata : Option Metadata} {acl : Option AccessList}
    (hnext : Sends serve next) (hk : e.ring.current.Faithful)
    (hop : r.operation = .put metadata acl none) (hentity : r.entity = some stream)
    (hs : stream.Steady) (hrefused : ¬e.ring.current.Dependable → ∀ fault, Q (.error fault, r) s)
    (h : match stream.script.outcome with
      | .error fault => ∀ read, stream.Reaches read → Q (.error fault, { r with entity := some read }) s
      | .ok content => ∀ encoder, e.Sound encoder →
        Ensures serve (Storage.carryOutWith r.target (encoder.output content) r.operation).run s
          fun reply t => (∀ response, reply = .ok response → response.Honest (encoder.output content)) ∧
            ∀ read, stream.Reaches read → read.script = [] → Q (encrypted encoder content r read reply) t) :
    Ensures serve (encrypt e next r) s Q := by
  simp only [encrypt, hentity]
  -- An encoder is made without a call, or not at all.
  refine .seq (Q := fun out t => t = s ∧ match out with
    | .ok encoded => ∃ encoder, e.Sound encoder ∧
      encoded = stream.layered { stage := .encode encoder, closesSource := false }
    | .error _ => ¬e.ring.current.Dependable) ?_ ?_
  · refine .attempt ((Encryption.newEncoder_faithful hk).mono ?_)
    rintro made t ⟨rfl, hmade⟩
    cases made with
    | error fault => exact ⟨rfl, hmade⟩
    | ok encoder => exact .done ⟨rfl, encoder, hmade, rfl⟩
  rintro (fault | encoded) t ⟨rfl, hmade⟩
  · exact .done (hrefused hmade fault)
  obtain ⟨encoder, hsound, rfl⟩ := hmade
  have hfresh : Stream.Fresh { stage := .encode encoder, closesSource := false } := ⟨rfl, rfl, rfl⟩
  have hwrites : writesContent r.operation = true := by rw [hop]; rfl
  refine .bind (hnext hwrites rfl hs ?_)
  cases houtcome : stream.script.outcome with
  | error fault =>
    rw [houtcome] at h
    have hbroken : (stream.layered { stage := .encode encoder, closesSource := false }).script.outcome =
        .error fault := by
      rw [Stream.script_layered hfresh]
      exact Stage.outcome_script_of_error _ houtcome []
    rw [hbroken]
    intro read hreach
    obtain ⟨l, below, rfl, -, hbelow, -⟩ := hreach.of_layered rfl hs
    exact .done (h below hbelow)
  | ok content =>
    rw [houtcome] at h
    have hholds := Stream.holds_of_outcome hs houtcome
    have houtput := encoder.holds_output hholds hfresh rfl
    rw [houtput.script_eq, Script.outcome_ofBytes]
    refine (h encoder hsound).mono fun reply t hr => ⟨fun _ => hr.1, fun read hreach hread => ?_⟩
    -- The envelope is there only because the handler behind has read to the end.
    obtain ⟨hbelow, hexhausted, henvelope⟩ := Stream.envelope_of_reaches hfresh rfl hholds hreach
    have hend : read.exhausted = true := hexhausted.mpr (by rw [hread]; decide)
    have hq := hr.2 read.below hbelow (Stream.below_of_exhausted hfresh hholds hreach hend)
    cases reply with
    | error fault => exact .done hq
    | ok response =>
      simp only [Option.getD_some, henvelope, hend, if_true]
      exact .log (.done hq)

/-! ## Reads -/

theorem decrypt_of_decoder {response : Response} {metadata : Metadata} {stream : Stream} {d : Decoder}
    (hmetadata : response.metadata = some metadata) (hentity : response.entity = some stream)
    (hd : e.decoder metadata.user = .ok d) :
    decrypt e response = .ok { response with
      entity := some (stream.layered { stage := .decode d })
      metadata := some { metadata with contentLength := d.envelope.size } } := by
  obtain ⟨hmode, -, hcan⟩ := Encryption.canDecode_of_decoder hd
  have hrequire : e.requireMode metadata.user = .ok d.envelope.mode :=
    (e.requireMode_eq_ok_iff _ _).mpr ⟨hmode, hcan⟩
  simp only [decrypt, hmetadata, hentity, hmode, hrequire, hd, bind, Except.bind]
  rfl

/-! ## The codec -/

theorem transcode_encode (hencode : r.properties.encode = true) :
    transcode e next r = encrypt e next r := if_pos hencode

theorem transcode_fetches (hnext : Fetches serve next) (hencode : r.properties.encode = false)
    (hdecode : r.properties.decode = true) (hentity : r.entity = none) (hop : r.operation = .get none)
    (h : Ensures serve (StorageCall.get r.target).send.run s fun reply t =>
      match reply with
      | .error fault => Q (.error fault, r) t
      | .ok object => ∀ stream : Stream, stream.Delivers object.content object.metadata.etag →
        Q (decrypt e { Storage.shown object with entity := some stream }, r) t) :
    Ensures serve (transcode e next r) s Q := by
  simp only [transcode, hencode, Bool.false_eq_true, if_false]
  refine .bind (hnext hentity hop (h.mono fun reply t hr => ?_))
  cases reply with
  | error fault =>
    simp only [hdecode, if_true]
    exact .done hr
  | ok object =>
    intro stream hstream
    simp only [hdecode, if_true]
    exact .done (hr stream hstream)

end Filter

/-! ## The codec among other filters -/

namespace EncryptingClient

/-- Filters among which a codec is met once: none of them is a codec already,
and no more than one compares checksums. -/
structure OneChecksum (filters : List Filter) : Prop where
  plain : ∀ f ∈ filters, f.isCodec = false
  once : filters.countP isChecksum ≤ 1

theorem oneChecksum_default : OneChecksum Filter.default where
  plain := by decide
  once := by decide

theorem eq_logging {f : Filter} (hcodec : f.isCodec = false) (hchecksum : ¬isChecksum f = true) :
    f = .logging := by
  cases f with
  | logging => rfl
  | checksum => exact absurd rfl hchecksum
  | codec e => cases hcodec

theorem withCodec_part {l : List Filter} (h : l.countP isChecksum = 0) (e : Encryption) :
    (l.flatMap fun f => if isChecksum f then [.codec e, f] else [f]) = l := by
  induction l with
  | nil => rfl
  | cons f rest ih =>
    have hf : ¬isChecksum f = true := List.countP_eq_zero.mp h f List.mem_cons_self
    have hrest : rest.countP isChecksum = 0 := by rwa [List.countP_cons_of_neg hf] at h
    rw [List.flatMap_cons, if_neg hf, ih hrest]
    rfl

/-- Only logging stands in front of the codec, and no other codec behind it. -/
theorem OneChecksum.withCodec_eq {filters : List Filter} (h : OneChecksum filters) (e : Encryption) :
    ∃ outer inner, withCodec e filters = outer ++ .codec e :: inner ∧ (∀ f ∈ outer, f = .logging) ∧
      ∀ f ∈ inner, f.isCodec = false := by
  unfold withCodec
  by_cases hany : filters.any isChecksum = true
  · rw [if_pos hany]
    obtain ⟨f, hmem, hf⟩ := List.any_eq_true.mp hany
    obtain ⟨front, back, rfl⟩ := List.append_of_mem hmem
    have hcount := h.once
    rw [List.countP_append, List.countP_cons_of_pos hf] at hcount
    -- With this one counted, no other is left on either side.
    have hfront : front.countP isChecksum = 0 := by omega
    have hback : back.countP isChecksum = 0 := by omega
    refine ⟨front, f :: back, ?_, fun g hg => ?_, fun g hg => h.plain g (List.mem_append_right _ hg)⟩
    · rw [List.flatMap_append, List.flatMap_cons, withCodec_part hfront, withCodec_part hback, if_pos hf]
      rfl
    · exact eq_logging (h.plain g (List.mem_append_left _ hg)) (List.countP_eq_zero.mp hfront g hg)
  · rw [if_neg hany]
    refine ⟨filters, [], rfl, fun g hg => ?_, nofun⟩
    exact eq_logging (h.plain g hg) fun hc => hany (List.any_eq_true.mpr ⟨g, hg, hc⟩)

/-- All codecs of a client are alike. -/
theorem eq_codec_of_mem {filters : List Filter} (e : Encryption) (h : ∀ f ∈ filters, f.isCodec = false) :
    ∀ f ∈ withCodec e filters, f.isCodec = true → f = .codec e := by
  intro f hf hcodec
  unfold withCodec at hf
  have hold : f ∉ filters := by
    intro hmem
    rw [h f hmem] at hcodec
    cases hcodec
  split at hf
  · obtain ⟨g, hg, hmem⟩ := List.mem_flatMap.mp hf
    split at hmem
    · rcases List.mem_cons.mp hmem with rfl | hmem
      · rfl
      · exact absurd (List.mem_singleton.mp hmem ▸ hg) hold
    · exact absurd (List.mem_singleton.mp hmem ▸ hg) hold
  · rcases List.mem_append.mp hf with hmem | hmem
    · exact absurd hmem hold
    · exact List.mem_singleton.mp hmem

theorem exists_codec_mem (e : Encryption) (filters : List Filter) :
    ∃ f ∈ withCodec e filters, f.isCodec = true := by
  refine ⟨.codec e, ?_, rfl⟩
  unfold withCodec
  split
  · next hany =>
    obtain ⟨f, hf, hchecksum⟩ := List.any_eq_true.mp hany
    refine List.mem_flatMap.mpr ⟨f, hf, ?_⟩
    rw [if_pos hchecksum]
    exact List.mem_cons_self
  · exact List.mem_append_right _ List.mem_cons_self

/-- A client with a codec handles a request like the codec does, over a handler
that sends entities and fetches contents. -/
theorem handle_ensures {σ : Type} {serve : Program.Service StorageInterface σ} {s : σ}
    {settings : EncryptionSettings} {base : ClientSettings} {filters : List Filter}
    {r : Request} {Q : Except Error Response × Request → σ → Prop} (hf : OneChecksum filters)
    (h : ∀ next, Sends serve next → Fetches serve next →
      Ensures serve (Filter.transcode settings.encryption next r) s Q) :
    Ensures serve ((make settings base filters).base.handle r) s Q := by
  obtain ⟨outer, inner, heq, houter, hinner⟩ := hf.withCodec_eq settings.encryption
  show Ensures serve (Filter.through (withCodec settings.encryption filters) Storage.carryOut r) s Q
  rw [heq]
  clear heq
  induction outer with
  | nil =>
    have hsends : Sends serve (Filter.through inner Storage.carryOut) :=
      Filter.sends_through hinner Handler.sends_carryOut
    have hfetches : Fetches serve (Filter.through inner Storage.carryOut) :=
      Filter.fetches_through hinner Handler.fetches_carryOut
    exact h _ hsends hfetches
  | cons f rest ih =>
    obtain rfl := houter f List.mem_cons_self
    exact Handler.log_ensures (ih fun g hg => houter g (List.mem_cons_of_mem _ hg))

end EncryptingClient

end SealedStore
