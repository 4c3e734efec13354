import SealedStore.Proofs.Endpoint
import SealedStore.Proofs.EncryptedWrite
/-!
# When an envelope is published

The filter that encrypts publishes an envelope as soon as its layer is
exhausted, which says that the content has been taken in, and not that what was
made of it has been handed out: up to a whole tag may still be pending. A
handler that stops there has been given too little, gets the envelope all the
same, and what it has stored under it is refused by everyone who opens it.

What is proved:
  1. `Stream.envelope_encrypted` — what reads of any amount leave of an encrypted
     content, and when its envelope is known.
  2. `Encryption.opens_iff_complete` — of all that a handler may have been given
     only the whole is opened under the envelope.
  3. `Filter.transcode_asked` — encrypting for a handler that reads and returns.
  4. `Filter.publishes_iff_exhausted` — when the entries are merged, and what
     the handler has been given then.
-/

namespace SealedStore

open Program (Ensures)

/-! ## What is left of an encrypted content -/

namespace Stream
variable {s : Stream}

/-- An encrypted content after reads of any amount: no more than a tag is left if
its layer is exhausted, and a tag at least if it is not. The envelope, of the
whole content, is known in the first case. -/
theorem envelope_encrypted (hs : s.Steady) (encoder : Encoder) (plan : List Amount) :
    let left := ((s.encrypted encoder).readAll plan).2
    (left.exhausted = true → left.script.content.length ≤ tagSize) ∧
      (left.script.content.length < tagSize → left.exhausted = true) ∧
      left.envelope =
        if left.exhausted then .ok (encoder.envelope s.script.content) else .error (.transform .notDrained) := by
  intro left
  obtain ⟨l, t, hleft, hstage, hpasses⟩ := readAll_passes (l := { stage := .encode encoder, closesSource := false })
    hs (passes_of_fresh ⟨rfl, rfl, rfl⟩ s) plan
  have hleft : left = t.layered l := hleft
  have hscript : (t.layered l).script = l.script t.script := rfl
  obtain ⟨stage, closesSource, seen, pending, exhausted, closed⟩ := l
  obtain rfl : stage = .encode encoder := hstage
  rw [hleft]
  -- An exhausted layer has the tag pending at most; one that is not has it still to come.
  cases exhausted with
  | true =>
    have hshort : pending.length ≤ tagSize := hpasses.short rfl
    have hseen : seen = s.script.content := by
      have htotal : seen ++ t.script.content = s.script.content := hpasses.total
      rwa [hpasses.ended rfl, Script.content_nil, List.append_nil] at htotal
    refine ⟨fun _ => ?_, fun _ => rfl, congrArg (fun b => Except.ok (encoder.envelope b)) hseen⟩
    rw [hscript]
    simp only [Layer.script, if_true, List.append_nil, Script.content_ofBytes]
    exact hshort
  | false =>
    refine ⟨fun he => Bool.noConfusion he, fun hlt => absurd hlt (Nat.not_lt.mpr ?_), rfl⟩
    have htag := Stage.tagSize_le_length_script encoder seen t.script
    rw [hscript]
    simp only [Layer.script, Script.content_append, List.length_append, Bool.false_eq_true, if_false]
    omega

end Stream

/-! ## Reads of one byte -/

theorem Cut.length_ones {count : Nat} {c left : Bytes} {pieces : List Bytes}
    (h : Cut (List.replicate count (.atMost 1)) c pieces left) (hc : count ≤ c.length) :
    pieces.flatten.length = count := by
  induction count generalizing c pieces with
  | zero =>
    cases h
    rfl
  | succ count ih =>
    rw [List.replicate_succ] at h
    cases h with
    | @some _ _ piece rest _ pieces hn hend htail =>
      have hpiece : piece ≠ [] := by
        -- A read of one byte gives none only at the end, which is not reached yet.
        intro hnone
        rw [hnone, hend hnone] at hc
        exact absurd hc (Nat.not_succ_le_zero count)
      have hone : piece.length = 1 := Nat.le_antisymm hn (List.length_pos_iff.mpr hpiece)
      rw [List.length_append] at hc
      have htaken := ih htail (by omega)
      rw [List.flatten_cons, List.length_append, htaken]
      omega

theorem handedOut_pieces (pieces : List Bytes) : handedOut (pieces.map .ok) = pieces.flatten := by
  induction pieces with
  | nil => rfl
  | cons piece pieces ih => rw [List.map_cons, handedOut_cons, ih, List.flatten_cons, Script.ofResult,
      Script.content_ofBytes]

theorem Stream.Holds.handedOut_ones {s : Stream} {content : Bytes} (h : s.Holds content) {count : Nat}
    (hc : count ≤ content.length) :
    (handedOut (s.readAll (List.replicate count (.atMost 1))).1).length = count ∧
      (s.readAll (List.replicate count (.atMost 1))).2.script.content.length = content.length - count := by
  have hpositive : ∀ a ∈ List.replicate count (Amount.atMost 1), a.Positive := by
    intro a ha
    rw [List.eq_of_mem_replicate ha]
    exact Nat.one_pos
  obtain ⟨pieces, left, hresults, hleft, hcut⟩ := h.cut hpositive
  have htaken := hcut.length_ones hc
  have hwhole := congrArg List.length hcut.flatten_append
  rw [hresults, handedOut_pieces, hleft.script_eq, Script.content_ofBytes]
  rw [List.length_append] at hwhole
  exact ⟨htaken, by omega⟩

/-! ## What is opened under an envelope -/

namespace Encryption
variable {e : Encryption} {encoder : Encoder} {content obtained : Bytes}

/-- What reading the decrypted form of some bytes to its end gives. -/
def opened (e : Encryption) (user : UserMetadata) (stored : Bytes) : Except Error Bytes :=
  (e.decode (Stream.ofBytes stored) user).bind fun s => (s.read .rest).1

theorem opened_of_decoder {user : UserMetadata} {d : Decoder} (hd : e.decoder user = .ok d) (stored : Bytes) :
    e.opened user stored =
      match d.check stored with
      | .ok () => .ok (d.content stored)
      | .error fault => .error (.transform fault) := by
  have hholds : (Stream.ofBytes stored).Holds stored := Stream.holds_ofBytes stored
  have hsteady : ((Stream.ofBytes stored).layered { stage := .decode d }).Steady := hholds.steady
  have hdecode : e.decode (Stream.ofBytes stored) user =
      .ok ((Stream.ofBytes stored).layered { stage := .decode d }) := by
    rw [decode, hd]
    rfl
  rw [opened, hdecode]
  show (((Stream.ofBytes stored).layered { stage := .decode d }).read .rest).1 = _
  rw [Stream.read_rest_eq hsteady, d.script_decoded hholds, Script.outcome_append, Script.outcome_met]
  cases d.check stored with
  | error fault => rfl
  | ok =>
    show Except.ok (d.content stored ++ []) = _
    rw [List.append_nil]

/-- Of the parts of an encrypted content only the whole is opened under its
envelope, whatever other entries there are. -/
theorem opens_iff_complete (hs : e.Sound encoder) (hlen : content.length < 10 ^ Integer.maxDigits)
    (hpart : obtained.Sublist (encoder.output content)) (user : UserMetadata) :
    let entries := (encoder.envelope content).toUserMetadata
    (obtained = encoder.output content → e.opened (user.merge entries) obtained = .ok content) ∧
      (obtained ≠ encoder.output content →
        ∃ fault, e.opened (user.merge entries) obtained = .error (.transform fault)) := by
  intro entries
  have hseals : e.Seals (encoder.envelope content) (encoder.output content) content :=
    seals_of_sound hs e.ring.get?_current hlen
  have hcarries : Envelope.Carries (user.merge entries) (encoder.envelope content) :=
    Envelope.carries_merge user rfl rfl
  obtain ⟨d, hd, henvelope, hcheck, hcontent⟩ := decoder_of_seals hseals hcarries
  rw [opened_of_decoder hd]
  constructor
  · intro hall
    rw [hall, hcheck, hcontent]
  · intro hmissing
    cases hfound : d.check obtained with
    | error fault => exact ⟨fault, rfl⟩
    | ok =>
      -- What is accepted has the length that was recorded, and so is the whole.
      have haccepts := (d.check_eq_ok_iff obtained).mp hfound
      have hsize : (content.length : Int) = (obtained.length - tagSize : Nat) :=
        haccepts.size _ (by rw [henvelope]; rfl)
      have hlong := haccepts.long
      have hwhole : obtained.length = (encoder.output content).length := by
        rw [encoder.length_output]
        omega
      exact absurd (hpart.eq_of_length hwhole) hmissing

end Encryption

/-! ## Publishing -/

namespace Filter
variable {σ : Type} {serve : Program.Service Endpoint σ} {plan : Request → σ → List Amount} {e : Encryption}
  {r : Request} {stream : Stream}

def published (p : Properties) (envelope : Envelope) : Properties :=
  { p with userMetadata := p.userMetadata.map (·.merge envelope.toUserMetadata) }

/-- What becomes of the answer of a handler that has read some of the encrypted
content. -/
theorem unsealing_readOn (r : Request) {content : Stream} (hs : content.Steady) (encoder : Encoder)
    (amounts : List Amount) (response : Response) :
    let encrypted := content.encrypted encoder
    let left := (encrypted.readAll amounts).2
    let envelope := encoder.envelope content.script.content
    unsealing r encrypted (.ok response, (sealing r encrypted).readOn amounts) =
      if left.exhausted then
        (.ok { response with encoded := some envelope.toUserMetadata },
          { r with entity := some left.below, properties := published r.properties envelope })
      else (.error (.transform .notDrained), { r with entity := some left.below }) := by
  intro encrypted left envelope
  obtain ⟨-, -, hknown⟩ := Stream.envelope_encrypted hs encoder amounts
  have hknown : left.envelope = if left.exhausted then .ok envelope else .error (.transform .notDrained) := hknown
  have hback : ((sealing r encrypted).readOn amounts).entity.getD encrypted = left := rfl
  cases hex : left.exhausted with
  | true =>
    rw [hex, if_pos rfl] at hknown
    simp only [unsealing, hback, hknown, if_true]
    rfl
  | false =>
    rw [hex, if_neg Bool.false_ne_true] at hknown
    simp only [unsealing, hback, hknown, Bool.false_eq_true, if_false]
    rfl

/-- How encrypting ends for a handler that is asked in the state `s`. -/
def Asked (serve : Program.Service Endpoint σ) (plan : Request → σ → List Amount) (e : Encryption) (r : Request)
    (content : Stream) (s : σ) (out : Except Error Response × Request) (calls : List Request) : Prop :=
  ∃ encoder response, e.Sound encoder ∧
    let sent := sealing r (content.encrypted encoder)
    calls = [sent] ∧ (serve sent s).1.1 = .ok response ∧
      out = unsealing r (content.encrypted encoder) (.ok response, sent.readOn (plan sent s))

theorem encrypt_asked (hk : e.ring.current.Dependable) (hreads : OnlyReads serve plan)
    (hreturns : ∀ sent s, ∃ response, (serve sent s).1.1 = .ok response) (hentity : r.entity = some stream) (s : σ) :
    Ensures (Program.recording serve) (encrypt e Handler.ask r) (s, []) fun out t =>
      Asked serve plan e r stream s out t.2 := by
  refine encrypt_ensures_next hentity ((Encryption.newEncoder_ensures hk).mono ?_)
  intro made t hmade
  obtain ⟨encoder, rfl, hsound, rfl⟩ := hmade
  let sent := sealing r (stream.encrypted encoder)
  obtain ⟨response, hresponse⟩ := hreturns sent s
  have hasked : (Program.recording serve sent (s, [])).1 = (.ok response, sent.readOn (plan sent s)) :=
    Prod.ext hresponse (hreads sent s)
  apply Handler.ask_ensures
  exact ⟨encoder, response, hsound, rfl, hresponse, congrArg (unsealing r _) hasked⟩

theorem transcode_asked (hk : e.ring.current.Dependable) (hreads : OnlyReads serve plan)
    (hreturns : ∀ sent s, ∃ response, (serve sent s).1.1 = .ok response)
    (hencode : r.properties.encode = true) (hentity : r.entity = some stream) (w : World σ) :
    let handle := transcode e Handler.ask r
    Asked serve plan e r stream w.state (handle.run serve w).1 (handle.calls serve w) := by
  intro handle
  have hhandle : handle = encrypt e Handler.ask r := if_pos hencode
  rw [hhandle]
  exact Ensures.of_recording (I := Endpoint) (Q := fun out _ calls => Asked serve plan e r stream w.state out calls)
    (encrypt_asked hk hreads hreturns hentity w.state) rfl

/-- A request that asks for encryption, with an entity of any content, is handled
in front of a handler that reads the entity as it likes, also not at all, and
returns. The handler gets a part of the encrypted content, in order, and all
but what is left if no read has raised. The envelope is published if the layer
that encrypts is exhausted, which is certain if less than a tag is left, and
only then; a whole tag at most is left in that case, and what the handler has got
is opened under the entries if it is the whole, and refused otherwise. If the
layer is not exhausted, the filter raises and merges nothing. -/
theorem publishes_iff_exhausted (e : Encryption) (hk : e.ring.current.Dependable)
    (hreads : OnlyReads serve plan) (hreturns : ∀ sent s, ∃ response, (serve sent s).1.1 = .ok response)
    (hencode : r.properties.encode = true) (hentity : r.entity = some stream) (hs : stream.Steady)
    (hlen : stream.script.content.length < 10 ^ Integer.maxDigits) (w : World σ) :
    let content := stream.script.content
    let handle := transcode e Handler.ask r
    let out := (handle.run serve w).1
    ∃ encoder response, e.Sound encoder ∧
      let encrypted := stream.encrypted encoder
      let sent := sealing r encrypted
      let complete := encoder.output content
      let entries := (encoder.envelope content).toUserMetadata
      let obtained := handedOut (encrypted.readAll (plan sent w.state)).1
      let left := (encrypted.readAll (plan sent w.state)).2
      handle.calls serve w = [sent] ∧ (serve sent w.state).1.1 = .ok response ∧
      (obtained ++ left.script.content).Sublist complete ∧
      (raised (encrypted.readAll (plan sent w.state)).1 = [] → obtained ++ left.script.content = complete) ∧
      (left.script.content.length < tagSize → left.exhausted = true) ∧
      (left.exhausted = true → left.script.content.length ≤ tagSize ∧
        out.1 = .ok { response with encoded := some entries } ∧
        out.2.properties.userMetadata = r.properties.userMetadata.map (·.merge entries) ∧
        ∀ user : UserMetadata, (obtained = complete → e.opened (user.merge entries) obtained = .ok content) ∧
          (obtained ≠ complete → ∃ fault, e.opened (user.merge entries) obtained = .error (.transform fault))) ∧
      (left.exhausted = false → out.1 = .error (.transform .notDrained) ∧ out.2.properties = r.properties) := by
  intro content handle out
  have hasked : Asked serve plan e r stream w.state out (handle.calls serve w) :=
    transcode_asked hk hreads hreturns hencode hentity w
  obtain ⟨encoder, response, hsound, hcalls, hreply, hout⟩ := hasked
  -- From here on the two cases are those of the layer, whatever was read.
  rw [unsealing_readOn r hs] at hout
  let sent := sealing r (stream.encrypted encoder)
  have hsteady : (stream.encrypted encoder).Steady := hs
  obtain ⟨hsub, hcalm⟩ := Stream.readAll_content hsteady (plan sent w.state)
  rw [Stream.script_encrypted] at hsub hcalm
  obtain ⟨hshort, hdrained, -⟩ := Stream.envelope_encrypted hs encoder (plan sent w.state)
  refine ⟨encoder, response, hsound, hcalls, hreply, hsub, hcalm, hdrained, fun hex => ?_, fun hex => ?_⟩
  · rw [hout, if_pos hex]
    refine ⟨hshort hex, rfl, rfl, fun user => ?_⟩
    exact Encryption.opens_iff_complete hsound hlen ((List.sublist_append_left _ _).trans hsub) user
  · rw [hout, if_neg (fun htrue => Bool.noConfusion (hex.symm.trans htrue))]
    exact ⟨rfl, rfl⟩

/-! ### Three bytes -/

def reading (plan : List Amount) : Program.Service Endpoint Unit := fun sent s => ((.ok {}, sent.readOn plan), s)

def threeToEncrypt : Request where
  target := ⟨"bucket", "key"⟩
  operation := .put none none none
  entity := some (Stream.ofBytes [1, 2, 3])
  contentLength := some 3
  properties := { encode := true, userMetadata := some Table.empty }

/-- A handler that reads everything has got what is opened under the entries. -/
theorem publishes_iff_exhausted_all :
    let e := EncryptingClient.oneKey.encryption
    let handle := transcode e Handler.ask threeToEncrypt
    let encrypted := fun encoder => (Stream.ofBytes [1, 2, 3]).encrypted encoder
    ∃ (w : World Unit) (encoder : Encoder),
      let out := (handle.run (reading [.rest]) w).1
      let obtained := handedOut ((encrypted encoder).readAll [.rest]).1
      let entries := (encoder.envelope [1, 2, 3]).toUserMetadata
      handle.calls (reading [.rest]) w = [sealing threeToEncrypt (encrypted encoder)] ∧
      obtained.length = 19 ∧ out.1 = .ok { encoded := some entries } ∧
      out.2.properties.userMetadata = some (Table.empty.merge entries) ∧
      e.opened (Table.empty.merge entries) obtained = .ok [1, 2, 3] := by
  intro e handle encrypted
  let w : World Unit := { entropy := Entropy.ofSeed "", state := () }
  have hstream : (Stream.ofBytes [1, 2, 3]).Holds [1, 2, 3] := Stream.holds_ofBytes [1, 2, 3]
  have hlen : (Stream.ofBytes [1, 2, 3]).script.content.length < 10 ^ Integer.maxDigits :=
    Integer.lt_of_lt_ten (by decide)
  have hreads : OnlyReads (reading [.rest]) fun _ _ => [.rest] := fun _ _ => rfl
  have hencode : threeToEncrypt.properties.encode = true := rfl
  obtain ⟨encoder, response, hsound, hcalls, hreply, -, hcalm, hdrained, hpublished, -⟩ :=
    publishes_iff_exhausted e rfl hreads (fun _ _ => ⟨{}, rfl⟩) hencode rfl hstream.steady hlen w
  have hholds : (encrypted encoder).Holds (encoder.output [1, 2, 3]) :=
    Encoder.holds_output hstream ⟨rfl, rfl, rfl⟩ rfl
  have hleft : ((encrypted encoder).readAll [.rest]).2.script.content = [] := by
    have hnone : ((encrypted encoder).readAll [.rest]).2.script = Script.ofBytes [] := hholds.read_rest.2.script_eq
    rw [hnone, Script.content_ofBytes]
  have hall : handedOut ((encrypted encoder).readAll [.rest]).1 = encoder.output [1, 2, 3] := by
    have hcalm := hcalm (hholds.raised_eq [.rest])
    rwa [hleft, List.append_nil] at hcalm
  obtain ⟨-, hresult, huser, hopens⟩ := hpublished (hdrained (by rw [hleft]; decide))
  refine ⟨w, encoder, hcalls, ?_, ?_, huser, (hopens Table.empty).1 hall⟩
  · rw [hall, encoder.length_output]
    rfl
  · cases hreply
    exact hresult

/-- A handler that reads three bytes and one of the tag, one at a time, is told
nothing: the filter returns and merges the entries, under which the four bytes
are refused. -/
theorem publishes_after_four :
    let e := EncryptingClient.oneKey.encryption
    let plan : List Amount := List.replicate 4 (.atMost 1)
    let handle := transcode e Handler.ask threeToEncrypt
    ∃ (w : World Unit) (encoder : Encoder),
      let out := (handle.run (reading plan) w).1
      let obtained := handedOut (((Stream.ofBytes [1, 2, 3]).encrypted encoder).readAll plan).1
      let entries := (encoder.envelope [1, 2, 3]).toUserMetadata
      handle.calls (reading plan) w = [sealing threeToEncrypt ((Stream.ofBytes [1, 2, 3]).encrypted encoder)] ∧
      obtained.length = 4 ∧ (encoder.output [1, 2, 3]).length = 19 ∧
      out.1 = .ok { encoded := some entries } ∧ out.2.properties.userMetadata = some (Table.empty.merge entries) ∧
      ∃ fault, e.opened (Table.empty.merge entries) obtained = .error (.transform fault) := by
  intro e plan handle
  let w : World Unit := { entropy := Entropy.ofSeed "", state := () }
  have hstream : (Stream.ofBytes [1, 2, 3]).Holds [1, 2, 3] := Stream.holds_ofBytes [1, 2, 3]
  have hk : e.ring.current.Dependable := rfl
  have hreads : OnlyReads (reading plan) fun _ _ => plan := fun _ _ => rfl
  have hasked : Asked (reading plan) (fun _ _ => plan) e threeToEncrypt (Stream.ofBytes [1, 2, 3]) ()
      (handle.run (reading plan) w).1 (handle.calls (reading plan) w) :=
    transcode_asked hk hreads (fun _ _ => ⟨{}, rfl⟩) rfl rfl w
  obtain ⟨encoder, response, hsound, hcalls, hreply, hout⟩ := hasked
  rw [unsealing_readOn _ hstream.steady] at hout
  let encrypted := (Stream.ofBytes [1, 2, 3]).encrypted encoder
  have hholds : encrypted.Holds (encoder.output [1, 2, 3]) := Encoder.holds_output hstream ⟨rfl, rfl, rfl⟩ rfl
  have hlen : (encoder.output [1, 2, 3]).length = 19 := encoder.length_output [1, 2, 3]
  have henough : 4 ≤ (encoder.output [1, 2, 3]).length := by omega
  obtain ⟨hfour, hleft⟩ := hholds.handedOut_ones henough
  have hfour : (handedOut (encrypted.readAll plan).1).length = 4 := hfour
  have hleft : (encrypted.readAll plan).2.script.content.length = (encoder.output [1, 2, 3]).length - 4 := hleft
  obtain ⟨-, hdrained, -⟩ := Stream.envelope_encrypted hstream.steady encoder plan
  have hex : (encrypted.readAll plan).2.exhausted = true := hdrained (by rw [hleft, hlen]; decide)
  rw [if_pos hex] at hout
  have hpart := (List.sublist_append_left _ _).trans (Stream.readAll_content hholds.steady plan).1
  rw [hholds.script_eq, Script.content_ofBytes] at hpart
  -- Four bytes are not nineteen.
  have hmissing : handedOut (encrypted.readAll plan).1 ≠ encoder.output [1, 2, 3] := by
    intro hall
    rw [hall, hlen] at hfour
    omega
  obtain ⟨-, hrefused⟩ := Encryption.opens_iff_complete hsound (Integer.lt_of_lt_ten (by decide)) hpart Table.empty
  refine ⟨w, encoder, hcalls, hfour, hlen, ?_, ?_, hrefused hmissing⟩
  · cases hreply
    exact congrArg Prod.fst hout
  · exact congrArg (fun out => out.2.properties.userMetadata) hout

end Filter

end SealedStore
