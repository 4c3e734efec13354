import SealedStore.Proofs.EncryptedWrite
import SealedStore.Proofs.Endpoint
import SealedStore.Proofs.Footprint
import SealedStore.Proofs.Resuming
/-!
# Requests that come back from a chain

Filters that encrypt and filters that compare checksums put their own layer on
the entity of a request and take it off again. Whatever stands in a chain, and
whatever the handler at its end does, a request comes back as it was, but for
its entity, which has been read, and the entries of an envelope, which are there
only if the handler has answered. An error of the handler passes all filters
unchanged.

The proof follows the chain: what a filter is known to do to a request, and the
handler behind it to the request that it passes on, make up what both do
together.

What is proved:
  1. `Encryption.newEncoder_cases` — when a content gets no encoder.
  2. `Stream.yields_iff` — how many bytes a stream yields.
  3. `Request.Dressed`, `Request.Restored` — a request on its way and back, with
     the rules for one layer.
  4. `Filter.restores_through` — every chain of filters.
  5. `Filter.restores_request` — the requests that the handler gets to see, and
     how they come back.
-/

namespace SealedStore

open Program (Ensures)

/-! ## Keys that cannot be wrapped -/

def Error.notWrapped : Error → Error
  | .key fault => .transform (.notWrapped fault)
  | other => other

namespace Encryption
variable {I : Interface} {σ : Type} {serve : Program.Service I σ} {s : σ} {e : Encryption}

/-- The current master key fails with this error to wrap a key of content. -/
def FailsToWrap (serve : Program.Service I σ) (e : Encryption) (fault : Error) : Prop :=
  ∃ (dataKey : SecretKey) (w : World σ), dataKey.material.length = e.keySize.bytes ∧
    ((e.ring.current.wrap dataKey).run.run serve w).1 = .error fault

theorem not_failsToWrap (hk : e.ring.current.Dependable) (fault : Error) : ¬e.FailsToWrap serve fault := by
  intro ⟨dataKey, w, hsize, hfault⟩
  have hwraps : Ensures serve (e.ring.current.wrap dataKey).run w.state fun r _ => ∃ wrapped, r = .ok wrapped :=
    (MasterKey.wrap_ensures hk hsize).mono fun _ _ ⟨wrapped, hwrapped, _⟩ => ⟨wrapped, hwrapped⟩
  obtain ⟨wrapped, hwrapped⟩ := hwraps w rfl
  rw [hfault] at hwrapped
  cases hwrapped

theorem FailsToWrap.of_recording {fault : Error} (h : e.FailsToWrap (Program.recording serve) fault) :
    e.FailsToWrap serve fault := by
  obtain ⟨dataKey, w, hsize, hfault⟩ := h
  -- The same world without the record of the calls.
  let plain : World σ :=
    { entropy := w.entropy, secrets := w.secrets, fillers := w.fillers, log := w.log, state := w.state.1 }
  have hbeside : w = Program.beside plain w.state.2 := rfl
  rw [hbeside, Program.run_recording] at hfault
  exact ⟨dataKey, plain, hsize, hfault⟩

theorem wrapCurrent_cases {dataKey : SecretKey} (hd : dataKey.material.length = e.keySize.bytes) :
    Ensures serve (e.wrapCurrent dataKey).run s fun r t => t = s ∧
      ∀ fault, r = .error fault → ∃ raised, e.FailsToWrap serve raised ∧ fault = raised.notWrapped := by
  have hwrap : Ensures serve (e.ring.current.wrap dataKey).run s fun r t => t = s ∧
      ∀ fault, r = .error fault → e.FailsToWrap serve fault := by
    intro w hw
    have honly : Program.Only (fun _ => False) (e.ring.current.wrap dataKey : Attempt I Bytes).run :=
      MasterKey.only_wrap e.ring.current dataKey
    have hkeeps : Ensures serve (e.ring.current.wrap dataKey).run s fun _ t => t = s :=
      honly.keeps (R := fun t => t = s) (fun _ _ hfalse => hfalse.elim) rfl
    exact ⟨hkeeps w hw, fun fault hfault => ⟨dataKey, w, hd, hfault⟩⟩
  refine .seq hwrap ?_
  intro r t ⟨ht, hfails⟩
  cases r with
  | ok wrapped => exact .done ⟨ht, nofun⟩
  | error raised =>
    have hraised := hfails raised rfl
    cases raised <;> exact .done ⟨ht, fun fault hfault => ⟨_, hraised, (Except.error.inj hfault).symm⟩⟩

/-- A content gets an encoder, or the key that was drawn for it could not be
wrapped. -/
theorem newEncoder_cases : Ensures serve e.newEncoder.run s fun r t => t = s ∧
    ∀ fault, r = .error fault → ∃ raised, e.FailsToWrap serve raised ∧ fault = raised.notWrapped := by
  refine .draw fun iv _ => .draw fun material hmaterial => ?_
  have hdataKey : (SecretKey.mk material).material.length = e.keySize.bytes := hmaterial
  refine .attempt ((wrapCurrent_cases hdataKey).mono ?_)
  intro r t ⟨ht, hfails⟩
  cases r with
  | ok wrapped => exact .done ⟨ht, nofun⟩
  | error fault => exact ⟨ht, fun other hother => hfails other (congrArg _ (Except.error.inj hother))⟩

end Encryption

/-! ## How much a stream yields -/

namespace Script.Run
variable {sizes : List Nat} {s t : Script} {results : List (Except Error Bytes)}

theorem left_eq_nil (h : Run (sizes.map .atMost) s results t) (hend : .ok [] ∈ results) : t = [] := by
  induction sizes generalizing s results with
  | nil =>
    cases h
    cases hend
  | cons n sizes ih =>
    cases h with
    | @cons _ _ _ u _ r rs hr ht =>
      -- After an empty read the script is over, and no later read brings it back.
      rcases List.mem_cons.mp hend with hempty | hend
      · subst hempty
        have hleft := ht.rebuild
        rw [hr.of_ok_nil.2] at hleft
        exact (List.append_eq_nil_iff.mp hleft.symm).2
      · exact ih ht hend

end Script.Run

namespace Stream
variable {s : Stream} {n : Nat}

/-- However a stream is read to its end, it hands out `n` bytes. -/
def Yields (s : Stream) (n : Nat) : Prop :=
  ∀ sizes : List Nat, (∀ k ∈ sizes, 0 < k) → .ok [] ∈ (s.readAll (sizes.map .atMost)).1 →
    (handedOut (s.readAll (sizes.map .atMost)).1).length = n

/-- A stream hands out the bytes of its script, whether there are faults among them or not. -/
theorem yields_iff (h : s.Steady) : s.Yields n ↔ s.script.content.length = n := by
  have hall : ∀ sizes : List Nat, (∀ k ∈ sizes, 0 < k) → .ok [] ∈ (s.readAll (sizes.map .atMost)).1 →
      handedOut (s.readAll (sizes.map .atMost)).1 = s.script.content := by
    intro sizes hsizes hend
    have hrun := readAll_follows h (positive_atMost hsizes)
    rw [hrun.rebuild, hrun.left_eq_nil hend, List.append_nil, Script.content_results]
  constructor
  · intro hyields
    -- Single bytes, and more reads than there is to be read.
    let sizes := List.replicate (s.script.length + 1) 1
    have hsizes : ∀ k ∈ sizes, 0 < k := by
      intro k hk
      rw [List.eq_of_mem_replicate hk]
      exact Nat.one_pos
    have hend : .ok [] ∈ (s.readAll (sizes.map .atMost)).1 := by
      apply (readAll_follows h (positive_atMost hsizes)).ends_of_length
      rw [List.length_replicate]
      exact Nat.lt_succ_self _
    rw [← hall sizes hsizes hend]
    exact hyields sizes hsizes hend
  · intro hlen sizes hsizes hend
    rw [hall sizes hsizes hend, hlen]

theorem Yields.digested (h : s.Steady) (hy : s.Yields n) : s.digested.Yields n := by
  have hsteady : s.digested.Steady := h
  rw [yields_iff hsteady, s.script_digested]
  exact (yields_iff h).mp hy

theorem Yields.encrypted (h : s.Steady) (hy : s.Yields n) (encoder : Encoder) :
    (s.encrypted encoder).Yields (n + tagSize) := by
  have hsteady : (s.encrypted encoder).Steady := h
  rw [yields_iff hsteady, script_encrypted, encoder.length_output, (yields_iff h).mp hy]

end Stream

/-! ## A request on its way and back -/

namespace Request

/-- A request as it is passed on, its entity encrypted `k` times: the length is
that of the entity, if it was so before. -/
structure Dressed (k : Nat) (r sent : Request) : Prop where
  target : sent.target = r.target
  operation : sent.operation = r.operation
  properties : sent.properties = r.properties
  contentLength : sent.contentLength = r.contentLength.map (· + 16 * (k : Int))
  missing : r.entity = none → sent.entity = none
  content : ∀ s, r.entity = some s → ∃ t, sent.entity = some t ∧
    (s.Steady → t.Steady ∧ ∀ n, s.Yields n → t.Yields (n + 16 * k))

/-- A request as it comes back: its entity has been read, and reading it has
raised these errors. -/
structure Restored (r : Request) (errors : List Error) (back : Request) : Prop where
  target : back.target = r.target
  operation : back.operation = r.operation
  contentLength : back.contentLength = r.contentLength
  entity : ∃ plan, back.entity = (r.readOn plan).entity ∧ raised (r.reads plan) = errors

variable {k : Nat} {r sent back : Request} {content : Stream} {errors : List Error}

theorem Dressed.refl (r : Request) : Dressed 0 r r where
  target := rfl
  operation := rfl
  properties := rfl
  contentLength := by simp
  missing := id
  content s hs := ⟨s, hs, fun hsteady => ⟨hsteady, fun _ => id⟩⟩

theorem Dressed.digested (hr : r.entity = some content)
    (h : Dressed k { r with entity := some content.digested } sent) : Dressed k r sent where
  target := h.target
  operation := h.operation
  properties := h.properties
  contentLength := h.contentLength
  missing hnone := by cases hr.symm.trans hnone
  content s hs := by
    obtain rfl : content = s := Option.some.inj (hr.symm.trans hs)
    obtain ⟨t, ht, hyields⟩ := h.content _ rfl
    refine ⟨t, ht, fun hsteady => ?_⟩
    obtain ⟨htsteady, hcount⟩ := hyields hsteady
    exact ⟨htsteady, fun n hn => hcount n (hn.digested hsteady)⟩

theorem Dressed.encrypted (hr : r.entity = some content) (encoder : Encoder)
    (h : Dressed k (Filter.sealing r (content.encrypted encoder)) sent) : Dressed (k + 1) r sent where
  target := h.target
  operation := h.operation
  properties := h.properties
  contentLength := by
    rw [h.contentLength]
    show (r.contentLength.map Encryption.encodedLength).map (· + 16 * (k : Int)) = _
    rw [Option.map_map]
    congr 1
    funext n
    simp only [Function.comp, Encryption.encodedLength, tagSize]
    omega
  missing hnone := by cases hr.symm.trans hnone
  content s hs := by
    obtain rfl : content = s := Option.some.inj (hr.symm.trans hs)
    obtain ⟨t, ht, hyields⟩ := h.content _ rfl
    refine ⟨t, ht, fun hsteady => ?_⟩
    obtain ⟨htsteady, hcount⟩ := hyields hsteady
    refine ⟨htsteady, fun n hn => ?_⟩
    have hmore := hcount _ (hn.encrypted hsteady encoder)
    rwa [show n + tagSize + 16 * k = n + 16 * (k + 1) by simp only [tagSize]; omega] at hmore

theorem Restored.of_readOn (r : Request) (plan : List Amount) : Restored r (raised (r.reads plan)) (r.readOn plan) :=
  ⟨rfl, rfl, rfl, plan, rfl, rfl⟩

/-- Taking off a layer without checks leaves what lies below it as some reads
leave it. -/
theorem Restored.below {r' : Request} {l : Layer} (hl : l.stage.checks = false)
    (hr : r'.entity = some (content.layered l)) (h : Restored r' errors back) (other : Stream) :
    content.Explains errors (back.entity.getD other).below := by
  obtain ⟨plan, hentity, hraised⟩ := h.entity
  obtain ⟨l', s', hleft, -, hbelow⟩ := Stream.readAll_below hl content plan
  have hback : back.entity = some (s'.layered l') := by
    rw [hentity, readOn, hr]
    exact congrArg some hleft
  have herrors : raised ((content.layered l).readAll plan).1 = errors := by
    rw [← hraised, reads, hr]
    rfl
  rw [hback, ← herrors]
  exact hbelow

theorem Restored.of_explains {s' : Stream} (hr : r.entity = some content) (h : content.Explains errors s')
    (htarget : back.target = r.target) (hoperation : back.operation = r.operation)
    (hlength : back.contentLength = r.contentLength) (hentity : back.entity = some s') : Restored r errors back := by
  obtain ⟨plan, hleft, hraised⟩ := h
  refine ⟨htarget, hoperation, hlength, plan, ?_, ?_⟩
  · rw [hentity, readOn, hr, ← hleft]
    rfl
  · rw [← hraised, reads, hr]
    rfl

end Request

namespace Filter
variable {r : Request} {content : Stream} {out : Except Error Response × Request} {e : Error}

theorem unsealing_snd (r : Request) (content : Stream) (out : Except Error Response × Request) :
    ∃ properties, (unsealing r content out).2 =
      { out.2 with
        entity := some (out.2.entity.getD content).below
        contentLength := r.contentLength
        properties } := by
  obtain ⟨result, back⟩ := out
  cases result with
  | error e => exact ⟨back.properties, rfl⟩
  | ok response =>
    simp only [unsealing]
    split
    · exact ⟨_, rfl⟩
    · exact ⟨_, rfl⟩

theorem unsealing_error (r : Request) (content : Stream) (h : out.1 = .error e) :
    (unsealing r content out).1 = .error e ∧ (unsealing r content out).2.properties = out.2.properties := by
  obtain ⟨result, back⟩ := out
  obtain rfl : result = .error e := h
  exact ⟨rfl, rfl⟩

end Filter

/-! ## Chains -/

/-- Why a chain answers a request that is to be encrypted without asking anyone. -/
inductive Prevents {σ : Type} (serve : Program.Service Endpoint σ) (codecs : List Encryption) (r : Request) :
    Error → Prop
  | nothing (hencode : r.properties.encode = true) (hcodecs : codecs ≠ []) (hentity : r.entity = none) :
      Prevents serve codecs r (.transform (.nothingToEncrypt r.target))
  | unwrapped {e : Encryption} {fault : Error} (hencode : r.properties.encode = true) (he : e ∈ codecs)
      (h : e.FailsToWrap serve fault) : Prevents serve codecs r fault.notWrapped

/-- How often a request is encrypted that passes some filters. -/
def encryptions (codecs : List Encryption) (r : Request) : Nat :=
  if r.properties.encode then codecs.length else 0

theorem encryptions_nil (r : Request) : encryptions [] r = 0 := by
  unfold encryptions
  split <;> rfl

/-- How a chain deals with a request: without its endpoint, or by asking it once,
in the state that it is in. `asked` are the requests that it gets. -/
inductive Treats {σ : Type} (serve : Program.Service Endpoint σ) (plan : Request → σ → List Amount)
    (codecs : List Encryption) (r : Request) (s : σ) : Except Error Response × Request → List Request → Prop
  | prevented {e : Error} (h : Prevents serve codecs r e) : Treats serve plan codecs r s (.error e, r) []
  | asked {sent : Request} {out : Except Error Response × Request} (hsent : r.Dressed (encryptions codecs r) sent)
      (hback : r.Restored (raised (sent.reads (plan sent s))) out.2)
      (herror : ∀ e, (serve sent s).1.1 = .error e → out.1 = .error e ∧ out.2.properties = r.properties) :
      Treats serve plan codecs r s out [sent]

section
variable {σ : Type} {serve : Program.Service Endpoint σ} {plan : Request → σ → List Amount}
  {codecs : List Encryption} {r : Request} {s : σ} {out : Except Error Response × Request} {asked : List Request}

/-- What is made of an answer alone changes nothing, as long as errors pass. -/
theorem Treats.answer {result : Except Error Response} (h : Treats serve plan codecs r s out asked)
    (hresult : ∀ e, out.1 = .error e → result = .error e) : Treats serve plan codecs r s (result, out.2) asked := by
  cases h with
  | prevented h =>
    rw [hresult _ rfl]
    exact .prevented h
  | asked hsent hback herror =>
    refine .asked hsent hback fun e he => ?_
    obtain ⟨hout, hproperties⟩ := herror e he
    exact ⟨hresult e hout, hproperties⟩

/-- What is known of the request with a digested entity is known of the request. -/
theorem Treats.undigested {content : Stream} (hr : r.entity = some content)
    (h : Treats serve plan codecs { r with entity := some content.digested } s out asked) :
    Treats serve plan codecs r s (Filter.undigesting r content out) asked := by
  cases h with
  | @prevented e h =>
    have hout : Filter.undigesting r content (.error e, { r with entity := some content.digested }) =
        (.error e, r) := by
      obtain ⟨target, operation, entity, contentLength, properties⟩ := r
      obtain rfl : entity = some content := hr
      rfl
    rw [hout]
    refine .prevented ?_
    cases h with
    | nothing _ _ hnone => cases hnone
    | unwrapped hencode he hfails => exact .unwrapped hencode he hfails
  | asked hsent hback herror =>
    refine .asked (hsent.digested hr) ?_ fun e he => ?_
    · have hbelow := hback.below (l := { stage := .digest, closesSource := false }) rfl rfl content
      rw [Filter.undigesting_snd]
      exact .of_explains hr hbelow hback.target hback.operation hback.contentLength rfl
    · obtain ⟨hout, hproperties⟩ := herror e he
      rw [Filter.undigesting_snd]
      exact ⟨Filter.undigesting_error hout, hproperties⟩

/-- What is known of the request with an encrypted entity is known of the request,
which is encrypted once more. -/
theorem Treats.unsealed {content : Stream} {e : Encryption} (hencode : r.properties.encode = true)
    (hr : r.entity = some content) (encoder : Encoder)
    (h : Treats serve plan codecs (Filter.sealing r (content.encrypted encoder)) s out asked) :
    Treats serve plan (e :: codecs) r s (Filter.unsealing r (content.encrypted encoder) out) asked := by
  have hcount : encryptions (e :: codecs) r =
      encryptions codecs (Filter.sealing r (content.encrypted encoder)) + 1 := by
    have hsame : (Filter.sealing r (content.encrypted encoder)).properties.encode = true := hencode
    rw [encryptions, encryptions, if_pos hencode, if_pos hsame, List.length_cons]
  cases h with
  | @prevented fault h =>
    have hout : Filter.unsealing r (content.encrypted encoder)
        (.error fault, Filter.sealing r (content.encrypted encoder)) = (.error fault, r) := by
      obtain ⟨target, operation, entity, contentLength, properties⟩ := r
      obtain rfl : entity = some content := hr
      rfl
    rw [hout]
    refine .prevented ?_
    cases h with
    | nothing _ _ hnone => cases hnone
    | unwrapped _ he hfails => exact .unwrapped hencode (List.mem_cons_of_mem e he) hfails
  | asked hsent hback herror =>
    refine .asked ?_ ?_ fun fault hfault => ?_
    · rw [hcount]
      exact hsent.encrypted hr encoder
    · have hbelow := hback.below (l := { stage := .encode encoder, closesSource := false }) rfl rfl
        (content.encrypted encoder)
      obtain ⟨properties, hafter⟩ := Filter.unsealing_snd r (content.encrypted encoder) out
      rw [hafter]
      exact .of_explains hr hbelow hback.target hback.operation rfl rfl
    · obtain ⟨hout, hproperties⟩ := herror fault hfault
      obtain ⟨hafter, hsame⟩ := Filter.unsealing_error r (content.encrypted encoder) hout
      exact ⟨hafter, hsame.trans hproperties⟩

theorem Treats.plain (hplain : r.properties.encode = false) (h : Treats serve plan codecs r s out asked)
    (e : Encryption) : Treats serve plan (e :: codecs) r s out asked := by
  have hcount : encryptions (e :: codecs) r = encryptions codecs r := by
    rw [encryptions, encryptions, hplain]
    rfl
  cases h with
  | prevented h =>
    cases h with
    | nothing hencode | unwrapped hencode => cases hplain.symm.trans hencode
  | asked hsent hback herror => exact .asked (hcount ▸ hsent) hback herror

/-- A handler that treats every request like this. -/
def Handler.Restores (serve : Program.Service Endpoint σ) (plan : Request → σ → List Amount)
    (codecs : List Encryption) (h : Handler Endpoint) : Prop :=
  ∀ (r : Request) (s : σ), Ensures (Program.recording serve) (h r) (s, []) fun out t =>
    Treats serve plan codecs r s out t.2

namespace Handler.Restores
variable {next : Handler Endpoint}

theorem ask (hreads : OnlyReads serve plan) : Restores serve plan [] Handler.ask := by
  intro r s
  apply Handler.ask_ensures
  have hback : (Program.recording serve r (s, [])).1.2 = r.readOn (plan r s) := hreads r s
  have hsent : r.Dressed (encryptions [] r) r := encryptions_nil r ▸ .refl r
  refine .asked hsent ?_ fun e he => ⟨he, ?_⟩
  · rw [hback]
    exact .of_readOn r (plan r s)
  · rw [hback]
    rfl

theorem log (h : Restores serve plan codecs next) : Restores serve plan codecs (Filter.log next) := by
  intro r s
  refine .seq (h r s) ?_
  intro out t hout
  obtain ⟨result, back⟩ := out
  cases result with
  | error e => exact .done hout
  | ok response => exact .log (.done hout)

theorem checkDigests (h : Restores serve plan codecs next) :
    Restores serve plan codecs (Filter.checkDigests next) := by
  intro r s
  -- A digest goes along only with an entity that is written; all else is checked on the way back.
  by_cases hwrite : r.entity = none ∨ Filter.writesContent r.operation = false
  · rw [Filter.checkDigests_eq next hwrite]
    refine .seq (h r s) ?_
    intro out t hout
    refine .done ?_
    by_cases hfull : Filter.readsInFull out.2.operation = true
    · rw [if_pos hfull]
      refine hout.answer fun e he => ?_
      rw [he]
      rfl
    · rw [if_neg hfull]
      exact hout
  · obtain ⟨hsome, hwrites⟩ := not_or.mp hwrite
    obtain ⟨content, hcontent⟩ := Option.ne_none_iff_exists'.mp hsome
    rw [Filter.checkDigests_write_eq next hcontent (Bool.of_not_eq_false hwrites)]
    refine .seq (h _ s) ?_
    intro out t hout
    exact .done (hout.undigested hcontent)

theorem transcode (e : Encryption) (h : Restores serve plan codecs next) :
    Restores serve plan (e :: codecs) (Filter.transcode e next) := by
  intro r s
  by_cases hencode : r.properties.encode = true
  · have hfilter : Filter.transcode e next r = Filter.encrypt e next r := if_pos hencode
    rw [hfilter]
    cases hentity : r.entity with
    | none =>
      simp only [Filter.encrypt, hentity]
      exact .done (.prevented (.nothing hencode (List.cons_ne_nil e codecs) hentity))
    | some content =>
      refine Filter.encrypt_ensures_next hentity (Encryption.newEncoder_cases.mono ?_)
      intro made t hmade
      obtain ⟨rfl, hfails⟩ := hmade
      cases made with
      | error fault =>
        obtain ⟨raised, hraised, rfl⟩ := hfails fault rfl
        exact .prevented (.unwrapped hencode List.mem_cons_self hraised.of_recording)
      | ok encoder => exact (h _ s).mono fun out t hout => hout.unsealed hencode hentity encoder
  · have hplain : r.properties.encode = false := Bool.eq_false_iff.mpr hencode
    -- The request passes as it is, and the answer may be decrypted.
    simp only [Filter.transcode, hplain, Bool.false_eq_true, if_false]
    refine .seq (h r s) ?_
    intro out t hout
    have hout := hout.plain hplain e
    by_cases hdecode : out.2.properties.decode = true
    · simp only [hdecode, if_true]
      refine .done (hout.answer fun fault hfault => ?_)
      rw [hfault]
      rfl
    · simp only [hdecode, if_false, Bool.false_eq_true]
      exact .done hout

end Handler.Restores

def Filter.encryption? : Filter → Option Encryption
  | .codec e => some e
  | _ => none

/-- Every chain treats requests like this: one filter after the other. -/
theorem Filter.restores_through (hreads : OnlyReads serve plan) (filters : List Filter) :
    Handler.Restores serve plan (filters.filterMap encryption?) (through filters Handler.ask) := by
  induction filters with
  | nil => exact .ask hreads
  | cons f rest ih =>
    cases f with
    | logging => exact ih.log
    | checksum => exact ih.checkDigests
    | codec e => exact ih.transcode e

/-- A request goes through any filters to a handler that reads its entity as it
likes and answers or raises. If it is to be encrypted and there is nothing to
encrypt, or no key for it, the handler is not asked, and the request is what it
was. Otherwise the handler gets it once, with an entity that yields 16 bytes more
for every encryption, and with a length that says so; the request comes back
with its own length, and its own entity, read, which has raised what the handler
has met while reading. If the handler raises, so does the chain, with the same
error, and the properties are what they were. -/
theorem Filter.restores_request (filters : List Filter) (hreads : OnlyReads serve plan) (r : Request) (w : World σ) :
    let codecs := filters.filterMap encryption?
    let handle := through filters Handler.ask r
    let out := (handle.run serve w).1
    (handle.calls serve w = [] ∧ out.2 = r ∧ ∃ e, out.1 = .error e ∧ Prevents serve codecs r e) ∨
      ∃ sent, handle.calls serve w = [sent] ∧
        r.Dressed (if r.properties.encode then codecs.length else 0) sent ∧
        r.Restored (raised (sent.reads (plan sent w.state))) out.2 ∧
        ∀ e, (serve sent w.state).1.1 = .error e → out.1 = .error e ∧ out.2.properties = r.properties := by
  intro codecs handle out
  have htreats : Treats serve plan codecs r w.state out (handle.calls serve w) :=
    Ensures.of_recording (I := Endpoint) (Q := fun out _ calls => Treats serve plan codecs r w.state out calls)
      (restores_through hreads filters r w.state) rfl
  generalize handle.calls serve w = asked at htreats
  generalize out = result at htreats
  cases htreats with
  | @prevented e h => exact .inl ⟨rfl, rfl, e, rfl, h⟩
  | @asked sent _ hsent hback herror => exact .inr ⟨sent, rfl, hsent, hback, herror⟩

/-- A handler that reads two bytes and then loses its store. -/
theorem Filter.restores_request_lost :
    let codec := EncryptingClient.oneKey.encryption
    let serve : Program.Service Endpoint Unit := fun sent s => ((.error (.io "lost"), sent.readOn [.atMost 2]), s)
    let r : Request := {
      target := ⟨"bucket", "key"⟩, operation := .put none none none, entity := some (Stream.ofBytes [1, 2, 3])
      contentLength := some 3, properties := { encode := true, userMetadata := some Table.empty } }
    ∃ (w : World Unit) (sent : Request) (t : Stream),
      let handle := through [.checksum, .logging, .codec codec, .checksum] Handler.ask r
      let out := (handle.run serve w).1
      handle.calls serve w = [sent] ∧ sent.contentLength = some 19 ∧ sent.entity = some t ∧ t.Yields 19 ∧
        out.1 = .error (.io "lost") ∧ out.2.properties = r.properties ∧ out.2.contentLength = some 3 ∧
        ∃ amounts, out.2.entity = some ((Stream.ofBytes [1, 2, 3]).readAll amounts).2 := by
  intro codec serve r
  let w : World Unit := { entropy := Entropy.ofSeed "", state := () }
  have hstream : (Stream.ofBytes [1, 2, 3]).Holds [1, 2, 3] := Stream.holds_ofBytes [1, 2, 3]
  have hreads : OnlyReads serve fun _ _ => [.atMost 2] := fun _ _ => rfl
  rcases Filter.restores_request [.checksum, .logging, .codec codec, .checksum] hreads r w with
    ⟨-, -, e, -, h⟩ | ⟨sent, hcalls, hsent, hback, herror⟩
  · cases h with
    | nothing _ _ hnone => cases hnone
    | @unwrapped e _ _ he hfails =>
      obtain rfl : e = codec := List.mem_singleton.mp he
      have hk : codec.ring.current.Dependable := rfl
      exact absurd hfails (Encryption.not_failsToWrap hk _)
  · obtain ⟨t, ht, hyields⟩ := hsent.content _ rfl
    obtain ⟨hresult, hproperties⟩ := herror _ rfl
    obtain ⟨amounts, hentity, -⟩ := hback.entity
    have hthree : (Stream.ofBytes [1, 2, 3]).Yields 3 := by
      rw [Stream.yields_iff hstream.steady, hstream.script_eq, Script.content_ofBytes]
      rfl
    exact ⟨w, sent, t, hcalls, hsent.contentLength, ht, (hyields hstream.steady).2 3 hthree, hresult, hproperties,
      hback.contentLength, amounts, hentity⟩

end

end SealedStore
