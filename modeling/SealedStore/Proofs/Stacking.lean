import SealedStore.Proofs.Opening
/-!
# Codecs in a row

A codec stands in front of every filter that compares checksums, and every
codec that a write meets encrypts what it is handed. Of several codecs the
first encrypts the content and each of the others what comes out of the one
before it, so a filter that compares checksums between two of them sees other
bytes than those that are stored. A client works with one such filter or none.

What is proved:
  1. `Filter.encrypts_through` — a chain encrypts once for every codec in it.
  2. `EncryptingClient.countP_withCodec` — how many codecs a client has.
  3. `EncryptingClient.put_stacked` — how often the content of a write is
     encrypted.
  4. `EncryptingClient.works_iff` — which lists of filters work.
-/

namespace SealedStore

open Program (Ensures)

/-! ## Encrypting again and again -/

namespace Encoder

/-- A content encrypted by one encoder after the other. -/
def outputs : List Encoder → Bytes → Bytes
  | [], content => content
  | encoder :: rest, content => outputs rest (encoder.output content)

theorem length_outputs (encoders : List Encoder) (content : Bytes) :
    (outputs encoders content).length = content.length + tagSize * encoders.length := by
  induction encoders generalizing content with
  | nil => rfl
  | cons encoder rest ih =>
    calc (outputs rest (encoder.output content)).length
        = (encoder.output content).length + tagSize * rest.length := ih _
      _ = content.length + tagSize + tagSize * rest.length := by rw [encoder.length_output]
      _ = content.length + tagSize * (rest.length + 1) := by rw [Nat.mul_add]; omega

end Encoder

/-- A store keeps a content that was encrypted `n` times. -/
def Storage.Keeps (s : Storage) (e : Encryption) (n : Nat) (target : Identity) (content : Bytes) : Prop :=
  ∃ object encoders, s.objects.get? target = some object ∧ encoders.length = n ∧
    (∀ encoder ∈ encoders, e.Sound encoder) ∧ object.content = Encoder.outputs encoders content

theorem Storage.Keeps.length {s : Storage} {e : Encryption} {n : Nat} {target : Identity} {content : Bytes}
    (h : s.Keeps e n target content) {object : StoredObject} (hget : s.objects.get? target = some object) :
    object.content.length = content.length + tagSize * n := by
  obtain ⟨found, encoders, hfound, hlen, -, hcontent⟩ := h
  obtain rfl : object = found := Option.some.inj (hget.symm.trans hfound)
  rw [hcontent, Encoder.length_outputs, hlen]

theorem Storage.Keeps.copied {s : Storage} {e : Encryption} {n : Nat} {temp target : Identity}
    {content : Bytes} (h : s.Keeps e n temp content) (htemp : temp ≠ target) (metadata : Option Metadata)
    (acl : Option AccessList) :
    Ensures Storage.serve (StorageCall.copy temp target metadata acl).send.run s fun reply t =>
      (∃ object, reply = .ok object) ∧ (t.delete temp).Keeps e n target content := by
  obtain ⟨object, encoders, hget, hlen, hsound, hcontent⟩ := h
  refine StorageCall.send_ensures ?_
  rw [Storage.serve_copy hget]
  let copied := s.objectOf object.content (metadata.getD object.metadata) acl object.metadata.etag
  exact ⟨⟨copied, rfl⟩, copied, encoders, s.get?_withObject_delete htemp copied, hlen, hsound, hcontent⟩

/-! ## Chains -/

/-- If a write that is to be encrypted is answered, its content was encrypted
`n` times. -/
def Handler.Encrypts (e : Encryption) (n : Nat) (h : Handler StorageInterface) : Prop :=
  ∀ (r : Request) (stream : Stream) (content : Bytes) (metadata : Option Metadata) (acl : Option AccessList)
    (s : Storage), r.operation = .put metadata acl none → r.properties.encode = true →
    r.entity = some stream → stream.Holds content →
    Ensures Storage.serve (h r) s fun out t => ∀ response, out.1 = .ok response →
      t.Keeps e n r.target content

namespace Handler.Encrypts
variable {e : Encryption} {n : Nat} {next : Handler StorageInterface}

theorem unanswered {fault : Error} {back : Request} {s : Storage} {P : Storage → Prop} :
    Ensures Storage.serve (.done ((.error fault : Except Error Response), back)) s
      fun out t => ∀ response, out.1 = .ok response → P t := by
  refine .done ?_
  intro response hanswer
  cases hanswer

theorem carryOut : Encrypts e 0 Storage.carryOut := by
  intro r stream content metadata acl s hop _ hentity hs
  have hwrites : Filter.writesContent r.operation = true := by rw [hop]; rfl
  refine sends_carryOut hwrites hentity hs.steady ?_
  rw [hs.script_eq, Script.outcome_ofBytes, hop]
  let object := s.objectOf content (metadata.getD {}) acl
  have hput : Ensures Storage.serve (StorageCall.put r.target content metadata acl none).send.run s
      fun reply t => reply = .ok object ∧ t = s.withObject r.target object :=
    StorageCall.send_ensures ⟨rfl, rfl⟩
  refine .map (hput.mono ?_)
  rintro _ _ ⟨rfl, rfl⟩
  constructor
  · rintro _ _ ⟨⟩
    exact s.honest_objectOf content (metadata.getD {}) acl
  · intro read _ _ response _
    exact ⟨object, [], s.get?_withObject r.target object, rfl, by simp, rfl⟩

theorem log (h : Encrypts e n next) : Encrypts e n (Filter.log next) := by
  intro r stream content metadata acl s hop hencode hentity hs
  exact log_ensures (h r stream content metadata acl s hop hencode hentity hs)

theorem checkDigests (h : Encrypts e n next) : Encrypts e n (Filter.checkDigests next) := by
  intro r stream content metadata acl s hop hencode hentity hs
  have hwrites : Filter.writesContent r.operation = true := by rw [hop]; rfl
  -- Digesting hands the content on as it is.
  have hdigest : (stream.layered { stage := .digest, closesSource := false }).Holds content := by
    let digesting : Layer := { stage := .digest, closesSource := false }
    have hend : digesting.stage.finish content = .ok [] := rfl
    have hlayered : (stream.layered digesting).Holds (content ++ []) := hs.layered ⟨rfl, rfl, rfl⟩ hend
    rwa [List.append_nil] at hlayered
  simp only [Filter.checkDigests, hentity, hwrites, Filter.verifyWrite]
  refine .seq (h _ _ content metadata acl s hop hencode rfl hdigest) ?_
  intro out t hkeeps
  obtain ⟨reply, back⟩ := out
  cases reply with
  | error fault => exact unanswered
  | ok response =>
    have hanswered : t.Keeps e n r.target content := hkeeps response rfl
    have hwhole : Filter.isPartialWrite r.operation = false := by rw [hop]; rfl
    simp only [hwhole, Bool.false_eq_true, if_false]
    split
    · exact unanswered
    · exact .done fun _ _ => hanswered

theorem transcode (hk : e.ring.current.Dependable) (h : Encrypts e n next) :
    Encrypts e (n + 1) (Filter.transcode e next) := by
  intro r stream content metadata acl s hop hencode hentity hs
  rw [Filter.transcode_encode hencode]
  simp only [Filter.encrypt, hentity]
  have hencoded : Ensures Storage.serve (e.encode stream).run s fun out t => ∃ encoder, e.Sound encoder ∧
      t = s ∧ out = .ok (stream.layered { stage := .encode encoder, closesSource := false }) := by
    refine .attempt_ok (Encryption.newEncoder_ensures hk) ?_
    rintro encoder t ⟨hsound, rfl⟩
    exact .done ⟨encoder, hsound, rfl, rfl⟩
  refine .seq hencoded ?_
  rintro out t ⟨encoder, hsound, rfl, rfl⟩
  have houtput : (stream.layered { stage := .encode encoder, closesSource := false }).Holds
      (encoder.output content) := encoder.holds_output hs ⟨rfl, rfl, rfl⟩ rfl
  refine .seq (h _ _ (encoder.output content) metadata acl t hop hencode rfl houtput) ?_
  intro out u hkeeps
  obtain ⟨reply, back⟩ := out
  cases reply with
  | error fault => exact unanswered
  | ok response =>
    -- The encoder of this codec comes before those of the codecs behind it.
    obtain ⟨object, encoders, hget, hlen, hall, hcontent⟩ := hkeeps response rfl
    have hanswered : u.Keeps e (n + 1) r.target content := by
      refine ⟨object, encoder :: encoders, hget, by simp [hlen], ?_, hcontent⟩
      intro other hother
      rcases List.mem_cons.mp hother with rfl | hother
      · exact hsound
      · exact hall other hother
    dsimp only
    split
    · exact unanswered
    · exact .log (.done fun _ _ => hanswered)

end Handler.Encrypts

/-- A chain encrypts once for every codec in it. -/
theorem Filter.encrypts_through {e : Encryption} (hk : e.ring.current.Dependable) {filters : List Filter}
    (hf : ∀ f ∈ filters, f.isCodec = true → f = .codec e) :
    Handler.Encrypts e (filters.countP Filter.isCodec) (through filters Storage.carryOut) := by
  induction filters with
  | nil => exact Handler.Encrypts.carryOut
  | cons f rest ih =>
    have hrest : Handler.Encrypts e (rest.countP Filter.isCodec) (through rest Storage.carryOut) := by
      apply ih
      intro g hg
      exact hf g (List.mem_cons_of_mem _ hg)
    cases f with
    | logging => exact hrest.log
    | checksum => exact hrest.checkDigests
    | codec other =>
      have hsame : Filter.codec other = .codec e := hf _ List.mem_cons_self rfl
      cases hsame
      rw [List.countP_cons_of_pos rfl]
      exact hrest.transcode hk

/-! ## Clients -/

namespace EncryptingClient
variable {settings : EncryptionSettings} {base : ClientSettings} {filters : List Filter}

/-- In a list of other filters a codec stands in front of every filter that
compares checksums. -/
theorem countP_spliced (e : Encryption) (h : ∀ f ∈ filters, f.isCodec = false) :
    (filters.flatMap fun f => if isChecksum f then [.codec e, f] else [f]).countP Filter.isCodec =
      filters.countP isChecksum := by
  induction filters with
  | nil => rfl
  | cons f rest ih =>
    have hrest : (rest.flatMap fun f => if isChecksum f then [.codec e, f] else [f]).countP Filter.isCodec =
        rest.countP isChecksum := by
      apply ih
      intro g hg
      exact h g (List.mem_cons_of_mem _ hg)
    rw [List.flatMap_cons, List.countP_append, List.countP_cons, hrest]
    cases f with
    | logging => exact Nat.zero_add _
    | checksum => exact Nat.add_comm 1 _
    | codec other => cases h _ List.mem_cons_self

/-- A client has one codec for every filter that compares checksums, and one if
there is none. -/
theorem countP_withCodec (e : Encryption) (h : ∀ f ∈ filters, f.isCodec = false) :
    (withCodec e filters).countP Filter.isCodec = max 1 (filters.countP isChecksum) := by
  unfold withCodec
  by_cases hany : filters.any isChecksum = true
  · have hpos : 0 < filters.countP isChecksum := by
      rw [List.countP_pos_iff]
      exact List.any_eq_true.mp hany
    rw [if_pos hany, countP_spliced e h]
    omega
  · have hnone : filters.countP isChecksum = 0 := by
      rw [List.countP_eq_zero]
      intro f hf hchecksum
      exact hany (List.any_eq_true.mpr ⟨f, hf, hchecksum⟩)
    have hplain : filters.countP Filter.isCodec = 0 := by
      rw [List.countP_eq_zero]
      intro f hf hcodec
      rw [h f hf] at hcodec
      cases hcodec
    rw [if_neg hany, List.countP_append, hplain, hnone]
    rfl

theorem put_stacked {p : Put} {content : Bytes} {s : Storage} (h : ∀ f ∈ filters, f.isCodec = false)
    (hsuffix : settings.tempSuffix ≠ "") (hk : settings.encryption.ring.current.Dependable)
    (hrange : p.range = none) (hp : p.Brings content) :
    Ensures Storage.serve ((make settings base filters).put p) s fun out t =>
      ∀ result, out.1 = .ok result →
        t.Keeps settings.encryption (max 1 (filters.countP isChecksum)) p.target content := by
  let temp := p.target.withSuffix settings.tempSuffix
  let metadata := p.metadata.getD {}
  have htemp : temp ≠ p.target := p.target.withSuffix_ne hsuffix
  have hchain := Filter.encrypts_through hk (eq_codec_of_mem settings.encryption h)
  rw [countP_withCodec settings.encryption h] at hchain
  unfold put
  rw [hrange, if_neg (by decide)]
  refine .bind ((hchain (tempRequest p temp metadata) _ content _ _ s rfl rfl rfl hp.holds).mono ?_)
  intro out t hkeeps
  obtain ⟨stored, sent⟩ := out
  let R : Except Error WriteResult → Storage → Prop := fun r u => ∀ result, r = .ok result →
    u.Keeps settings.encryption (max 1 (filters.countP isChecksum)) p.target content
  refine .seq (Client.travel_ensures (R := R) rfl (.done ?_)) fun out u hr => .done hr
  cases stored with
  | error fault =>
    refine StorageCall.send_ensures ?_
    intro result hresult
    cases hresult
  | ok response =>
    have hkept : t.Keeps settings.encryption (max 1 (filters.countP isChecksum)) temp content :=
      hkeeps response rfl
    refine (hkept.copied htemp _ _).mono ?_
    rintro _ u ⟨⟨object, rfl⟩, hpublished⟩
    -- Deleting what was temporary takes nothing of the copy along.
    refine StorageCall.send_ensures ?_
    intro result _
    exact hpublished

/-- A list of filters makes a client that works exactly if no more than one of
them compares checksums: then a write returns, what is stored is the content
encrypted once, and a read gives it back. Over any list a write that returns
has encrypted its content once for every filter that compares checksums. -/
theorem works_iff (settings : EncryptionSettings) (hsuffix : settings.tempSuffix ≠ "")
    (hk : settings.encryption.ring.current.Dependable) (base : ClientSettings) {filters : List Filter}
    (h : ∀ f ∈ filters, f.isCodec = false) {p : Put} (hrange : p.range = none) {content : Bytes}
    (hp : p.Brings content) (hlen : content.length < 10 ^ Integer.maxDigits) (w : World Storage) :
    let c := make settings base filters
    let out := (c.put p).run Storage.serve w
    ((∃ result, out.1.1 = .ok result) ∧
      (∃ object encoder, out.2.state.objects.get? p.target = some object ∧
        settings.encryption.Sound encoder ∧ object.content = encoder.output content ∧
        object.content.length = content.length + 16) ∧
      ((c.read p.target).run.run Storage.serve out.2).1 = .ok content ↔ filters.countP isChecksum ≤ 1) ∧
    ∀ result, out.1.1 = .ok result →
      out.2.state.Keeps settings.encryption (max 1 (filters.countP isChecksum)) p.target content := by
  intro c out
  have hstacked : ∀ result, out.1.1 = .ok result → out.2.state.Keeps settings.encryption
      (max 1 (filters.countP isChecksum)) p.target content := put_stacked h hsuffix hk hrange hp w rfl
  refine ⟨?_, hstacked⟩
  constructor
  · rintro ⟨⟨result, hresult⟩, ⟨object, -, hget, -, -, honce⟩, -⟩
    have hlength : object.content.length = content.length + 16 * max 1 (filters.countP isChecksum) :=
      (hstacked result hresult).length hget
    omega
  · intro hone
    have hf : OneChecksum filters := ⟨h, hone⟩
    obtain ⟨encoder, hsound, hstate, hresult⟩ := put_wrote hf hsuffix hrange hp hk w rfl
    obtain ⟨object, hget, hhonest, hopens⟩ := put_opened hf hsuffix hrange hp hk hlen w rfl
    have hread : Ensures Storage.serve (c.read p.target).run out.2.state _ :=
      read_opened hf hget hhonest (hopens settings.encryption settings.encryption.ring.get?_current)
    refine ⟨⟨_, hresult⟩, ?_, (hread out.2 rfl).2⟩
    let stored := sealedObject w.state p encoder content
    refine ⟨stored, encoder, ?_, hsound, rfl, encoder.length_output content⟩
    rw [hstate]
    exact (Table.get?_insert ..).trans (if_pos rfl)

/-- One filter that compares checksums among others makes a client that works. -/
theorem works_iff_among_others : ∃ w : World Storage, w.state = {} ∧
    let c := make oneKey {} [.logging, .checksum, .logging]
    let out := (c.put threeBytes).run Storage.serve w
    (∃ result, out.1.1 = .ok result) ∧
      ((c.read threeBytes.target).run.run Storage.serve out.2).1 = .ok [1, 2, 3] := by
  obtain ⟨w, hw⟩ : ∃ w : World Storage, w.state = {} := ⟨{ entropy := Entropy.ofSeed "", state := {} }, rfl⟩
  have hplain : ∀ f ∈ [Filter.logging, .checksum, .logging], f.isCodec = false := by decide
  have hworks := (works_iff oneKey (by decide) rfl {} hplain (p := threeBytes) rfl threeBytes_brings
    (Integer.lt_of_lt_ten (by decide)) w).1.mpr (by decide)
  exact ⟨w, hw, hworks.1, hworks.2.2⟩

/-- Behind two filters that compare checksums no write returns that has stored
its content encrypted once. -/
theorem encrypted_twice : ∃ w : World Storage, w.state = {} ∧
    ∃ out, out = ((make oneKey {} [.checksum, .checksum]).put threeBytes).run Storage.serve w ∧
      ¬((∃ result, out.1.1 = .ok result) ∧
        ∃ object, out.2.state.objects.get? threeBytes.target = some object ∧ object.content.length = 3 + 16) := by
  obtain ⟨w, hw⟩ : ∃ w : World Storage, w.state = {} := ⟨{ entropy := Entropy.ofSeed "", state := {} }, rfl⟩
  have hplain : ∀ f ∈ [Filter.checksum, .checksum], f.isCodec = false := by decide
  have hput : Ensures Storage.serve ((make oneKey {} [.checksum, .checksum]).put threeBytes) w.state _ :=
    put_stacked hplain (by decide) rfl rfl threeBytes_brings
  have hkeeps := hput w rfl
  obtain ⟨out, hout⟩ : ∃ out, out = ((make oneKey {} [.checksum, .checksum]).put threeBytes).run Storage.serve w :=
    ⟨_, rfl⟩
  rw [← hout] at hkeeps
  refine ⟨w, hw, out, hout, ?_⟩
  intro hworks
  obtain ⟨⟨result, hresult⟩, object, hget, honce⟩ := hworks
  have htwice : object.content.length = 3 + 16 * 2 := (hkeeps result hresult).length hget
  omega

end EncryptingClient

end SealedStore
