import SealedStore.Client.Encrypting
import SealedStore.Proofs.Sealing
/-!
# Handlers and requests

What a handler makes of a request, in terms of carrying the request out on the
store: an entity is read to its end, or to its first fault, every request
without content passes unchanged, and the content of a read comes back through
layers that at most add an alarm at its end. Comparing checksums keeps these
properties of the handler behind it, as long as the store reports the digests
of what it was given, and logging changes nothing.

What is proved:
  1. `Filter.through_inert` — of the filters a request without content meets,
     only those that log do anything.
  2. `Filter.sends_through` — requests with an entity.
  3. `Filter.fetches_through` — reads.
-/

namespace SealedStore

open Program (Ensures)

theorem StorageCall.send_ensures {σ : Type} {serve : Program.Service StorageInterface σ} {s : σ}
    {c : StorageCall} {Q : Except Error c.Result → σ → Prop} (h : Q (serve c s).1 (serve c s).2) :
    Ensures serve c.send.run s Q := .call (.done h)

/-! ## Digests that are reported -/

/-- A response reports no other digest than that of the content. -/
def Response.Honest (response : Response) (content : Bytes) : Prop :=
  Filter.mismatch? (Md5.hex content) response.etag = none

theorem Filter.mismatch?_self (digest : String) : mismatch? digest (some digest) = none := by
  unfold mismatch? digestOf?
  by_cases h : isDigest digest = true
  · rw [Option.filter_some, if_pos h]
    exact if_pos rfl
  · rw [Option.filter_some, if_neg h]

/-- A stream hands out a content, and after it at most the alarms that the
digest of the content is not the one that is reported. -/
structure Stream.Delivers (s : Stream) (content : Bytes) (etag : Option String) : Prop where
  steady : s.Steady
  script_eq : ∃ alarms : List Error, s.script = Script.ofBytes content ++ alarms.map .error ∧
    ∀ e ∈ alarms, Filter.mismatch? (Md5.hex content) etag = some e

namespace Stream.Delivers
variable {s : Stream} {content : Bytes} {etag : Option String}

theorem of_holds (h : s.Holds content) : s.Delivers content etag :=
  ⟨h.steady, [], h.script_eq.trans (List.append_nil _).symm, nofun⟩

theorem holds (h : s.Delivers content etag) (hhonest : Filter.mismatch? (Md5.hex content) etag = none) :
    s.Holds content := by
  obtain ⟨hs, alarms, hscript, halarms⟩ := h
  refine ⟨hs, ?_⟩
  cases alarms with
  | nil => rw [hscript, List.map_nil, List.append_nil]
  | cons e _ =>
    have hsome := halarms e List.mem_cons_self
    rw [hhonest] at hsome
    cases hsome

/-- A layer that verifies adds its alarm to those below it. -/
theorem verified (h : s.Delivers content etag) {digest : String} (hd : Filter.digestOf? etag = some digest) :
    (s.layered { stage := .verify digest }).Delivers content etag := by
  obtain ⟨hs, alarms, hscript, halarms⟩ := h
  have hpass : ∀ seen : Bytes, (Stage.verify digest).script seen (alarms.map .error) =
      alarms.map .error ++ (Stage.verify digest).verdict seen := by
    intro seen
    -- Of the alarms nothing but their number plays a role here.
    clear hscript halarms
    induction alarms with
    | nil => rw [List.map_nil, Stage.script_nil, List.nil_append]
    | cons e alarms ih => exact congrArg (.error e :: ·) ih
  have hlayered : (s.layered { stage := .verify digest }).script =
      Script.ofBytes content ++ (alarms.map .error ++ (Stage.verify digest).verdict content) := by
    have hupdate : (Stage.verify digest).update [] content = content := rfl
    rw [Stream.script_layered ⟨rfl, rfl, rfl⟩, hscript, Stage.script_append, hupdate, List.nil_append, hpass]
  refine ⟨hs, ?_⟩
  by_cases hmatch : Md5.hex content = digest
  · have hverdict : (Stage.verify digest).verdict content = [] := by
      simp only [Stage.verdict, Stage.finish, if_pos hmatch, Script.ofBytes_nil]
    rw [hlayered, hverdict, List.append_nil]
    exact ⟨alarms, rfl, halarms⟩
  · let alarm : Error := .checksum (Md5.hex content) digest
    have hverdict : (Stage.verify digest).verdict content = [.error alarm] := by
      simp only [Stage.verdict, Stage.finish, if_neg hmatch, alarm]
    have halarm : Filter.mismatch? (Md5.hex content) etag = some alarm := by
      simp only [Filter.mismatch?, hd, if_neg hmatch, alarm]
    rw [hlayered, hverdict]
    refine ⟨alarms ++ [alarm], by rw [List.map_append, List.map_cons, List.map_nil], ?_⟩
    intro e he
    rcases List.mem_append.mp he with he | he
    · exact halarms e he
    · rw [List.mem_singleton.mp he]
      exact halarm

end Stream.Delivers

/-! ## Requests without content -/

/-- No filter that looks at content is concerned by a request. -/
structure Request.Inert (r : Request) : Prop where
  entity : r.entity = none
  operation : Filter.readsInFull r.operation = false
  encode : r.properties.encode = false
  decode : r.properties.decode = false

namespace Filter
variable {I : Interface} {filters : List Filter} {last : Handler I} {r : Request}

/-- What a filter does around a request that it passes on unchanged. -/
def passing (r : Request) : Filter → Program I (Except Error Response) → Program I (Except Error Response)
  | .logging, p => do
    let reply ← p
    if let .ok response := reply then
      Program.report (.answered r.method r.target response.status)
    return reply
  | .checksum, p | .codec _, p => p

theorem around_inert {next : Handler I} {p : Program I (Except Error Response)} (hr : r.Inert)
    (h : next r = p >>= fun reply => pure (reply, r)) (f : Filter) :
    f.around next r = f.passing r p >>= fun reply => pure (reply, r) := by
  cases f with
  | logging =>
    simp only [around, log, passing, h, bind_assoc, pure_bind]
    refine bind_congr fun reply => ?_
    cases reply <;> rfl
  | checksum => simp only [around, checkDigests, passing, h, hr.entity, hr.operation, bind_assoc, pure_bind,
      Bool.false_eq_true, if_false]
  | codec e => simp only [around, transcode, passing, h, hr.encode, hr.decode, bind_assoc, pure_bind,
      Bool.false_eq_true, if_false]

/-- Every filter passes a request without content on, and what it does around
it depends on nothing behind. -/
theorem through_inert {p : Program I (Except Error Response)} (hr : r.Inert)
    (h : last r = p >>= fun reply => pure (reply, r)) :
    through filters last r = filters.foldr (passing r) p >>= fun reply => pure (reply, r) := by
  induction filters with
  | nil => exact h
  | cons f rest ih => exact around_inert hr ih f

theorem passing_ensures {σ : Type} {serve : Program.Service I σ} {s : σ}
    {p : Program I (Except Error Response)} {Q : Except Error Response → σ → Prop}
    (h : Ensures serve p s Q) : Ensures serve (filters.foldr (passing r) p) s Q := by
  induction filters with
  | nil => exact h
  | cons f rest ih =>
    cases f with
    | logging =>
      refine .seq ih fun reply t hr => ?_
      cases reply with
      | error e => exact .done hr
      | ok response => exact .log (.done hr)
    | checksum | codec => exact ih

end Filter

/-! ## Handlers -/

namespace Handler
variable {σ : Type} {serve : Program.Service StorageInterface σ} {next : Handler StorageInterface}

/-- A request with an entity ends like carrying it out with the content of the
entity, of which nothing is left afterwards, or with the fault that the entity
meets first. -/
def Sends (serve : Program.Service StorageInterface σ) (h : Handler StorageInterface) : Prop :=
  ∀ {r : Request} {stream : Stream} {s : σ} {Q : Except Error Response × Request → σ → Prop},
    Filter.writesContent r.operation = true → r.entity = some stream → stream.Steady →
    (match stream.script.outcome with
    | .error e => ∀ read, stream.Reaches read → Q (.error e, { r with entity := some read }) s
    | .ok content =>
      Ensures serve (Storage.carryOutWith r.target content r.operation).run s fun reply t =>
        (Filter.isPartialWrite r.operation = false → ∀ response, reply = .ok response →
          response.Honest content) ∧
        ∀ read, stream.Reaches read → read.script = [] → Q (reply, { r with entity := some read }) t) →
    Ensures serve (h r) s Q

/-- A read of a whole object ends with a stream that delivers its content. -/
def Fetches (serve : Program.Service StorageInterface σ) (h : Handler StorageInterface) : Prop :=
  ∀ {r : Request} {s : σ} {Q : Except Error Response × Request → σ → Prop},
    r.entity = none → r.operation = .get none →
    Ensures serve (StorageCall.get r.target).send.run s (fun reply t =>
      match reply with
      | .error e => Q (.error e, r) t
      | .ok object => ∀ stream : Stream, stream.Delivers object.content object.metadata.etag →
        Q (.ok { Storage.shown object with entity := some stream }, r) t) →
    Ensures serve (h r) s Q

/-! ### Carrying out -/

theorem carryOut_eq {r : Request} (h : r.entity = none) :
    Storage.carryOut r =
      (Storage.carryOutWith r.target [] r.operation).run >>= fun reply => pure (reply, r) := by
  simp only [Storage.carryOut, Storage.readEntity, h]

theorem sends_carryOut : Sends serve Storage.carryOut := by
  intro r stream s Q _ hentity hs h
  have hread : (stream.read .rest).1 = stream.script.outcome := Stream.read_rest_eq hs
  have hreach : stream.Reaches (stream.read .rest).2 := .step (a := .rest) trivial .refl
  cases houtcome : stream.script.outcome with
  | error e =>
    rw [houtcome] at h hread
    have hcarry : Storage.carryOut r = pure (.error e, { r with entity := some (stream.read .rest).2 }) := by
      simp only [Storage.carryOut, Storage.readEntity, hentity, hread]
    rw [hcarry]
    exact .done (h _ hreach)
  | ok content =>
    rw [houtcome] at h hread
    have hleft : (stream.read .rest).2.script = [] :=
      (Stream.holds_of_outcome hs houtcome).read_rest.2.script_eq
    have hcarry : Storage.carryOut r =
        (Storage.carryOutWith r.target content r.operation).run >>= fun reply =>
          pure (reply, { r with entity := some (stream.read .rest).2 }) := by
      simp only [Storage.carryOut, Storage.readEntity, hentity, hread]
    rw [hcarry]
    exact .seq h fun reply t hr => .done (hr.2 _ hreach hleft)

theorem carryOut_get {r : Request} (hentity : r.entity = none) (hop : r.operation = .get none) :
    Storage.carryOut r =
      (StorageCall.get r.target).send.run >>= fun reply =>
        pure (reply.map fun object => Storage.handedOut object none, r) := by
  rw [carryOut_eq hentity, hop]
  -- Both sides make one call, and differ in what they make of its reply.
  refine congrArg (Program.call (I := StorageInterface) (.get r.target)) (funext fun reply => ?_)
  cases reply <;> rfl

theorem fetches_carryOut : Fetches serve Storage.carryOut := by
  intro r s Q hentity hop h
  rw [carryOut_get hentity hop]
  refine .seq h fun reply t hr => .done ?_
  cases reply with
  | error e => exact hr
  | ok object => exact hr _ (.of_holds (Stream.holds_ofBytes object.content))

/-! ### Logging -/

theorem log_ensures {r : Request} {s : σ} {Q : Except Error Response × Request → σ → Prop}
    (h : Ensures serve (next r) s Q) : Ensures serve (Filter.log next r) s Q := by
  refine .seq h fun out t hQ => ?_
  obtain ⟨reply, back⟩ := out
  cases reply with
  | error e => exact .done hQ
  | ok response => exact .log (.done hQ)

/-! ### Checksums -/

theorem Sends.checkDigests (h : Sends serve next) : Sends serve (Filter.checkDigests next) := by
  intro r stream s Q hwrites hentity hs hQ
  have hfresh : Stream.Fresh { stage := .digest, closesSource := false } := ⟨rfl, rfl, rfl⟩
  have hscript : (stream.layered { stage := .digest, closesSource := false }).script = stream.script :=
    (Stream.script_layered hfresh stream).trans (Stage.script_digest [] _)
  simp only [Filter.checkDigests, hentity, hwrites, Filter.verifyWrite]
  refine .bind (h hwrites rfl hs ?_)
  rw [hscript]
  cases houtcome : stream.script.outcome with
  | error e =>
    rw [houtcome] at hQ
    intro read hreach
    obtain ⟨l, below, rfl, -, hbelow, -⟩ := hreach.of_layered rfl hs
    exact .done (hQ below hbelow)
  | ok content =>
    rw [houtcome] at hQ
    refine hQ.mono fun reply t hr => ⟨hr.1, fun read hreach hread => ?_⟩
    -- Nothing is left of the entity, so the digest is that of the whole content.
    obtain ⟨hmd5, hbelow, hleft⟩ :=
      Stream.digest_of_reaches hfresh rfl (Stream.holds_of_outcome hs houtcome) hreach hread
    have hq := hr.2 read.below hbelow hleft
    cases reply with
    | error e => exact .done hq
    | ok response =>
      cases hpartial : Filter.isPartialWrite r.operation with
      | true => exact .done hq
      | false =>
        have hhonest : Filter.mismatch? read.digest response.etag = none := by
          rw [hmd5]
          exact hr.1 hpartial response rfl
        simp only [Option.getD_some, hhonest]
        exact .done hq

theorem verifyRead_delivers {object : StoredObject} {stream : Stream}
    (h : stream.Delivers object.content object.metadata.etag) :
    ∃ verified : Stream, verified.Delivers object.content object.metadata.etag ∧
      Filter.verifyRead { Storage.shown object with entity := some stream } =
        { Storage.shown object with entity := some verified } := by
  simp only [Filter.verifyRead, Storage.shown]
  -- An ETag that is no digest is not compared, and no layer is added.
  cases hd : Filter.digestOf? object.metadata.etag with
  | none => exact ⟨stream, h, rfl⟩
  | some digest => exact ⟨_, h.verified hd, rfl⟩

theorem Fetches.checkDigests (h : Fetches serve next) : Fetches serve (Filter.checkDigests next) := by
  intro r s Q hentity hop hQ
  have hfull : Filter.readsInFull r.operation = true := by rw [hop]; rfl
  simp only [Filter.checkDigests, hentity]
  refine .bind (h hentity hop (hQ.mono fun reply t hr => ?_))
  cases reply with
  | error e =>
    simp only [hfull, if_true]
    exact .done hr
  | ok object =>
    intro stream hstream
    obtain ⟨verified, hverified, heq⟩ := verifyRead_delivers hstream
    simp only [hfull, if_true, Except.map, heq]
    exact .done (hr verified hverified)

end Handler

/-! ## Filters that leave content as it is -/

def Filter.isCodec : Filter → Bool
  | .codec _ => true
  | .logging | .checksum => false

namespace Filter
variable {σ : Type} {serve : Program.Service StorageInterface σ} {filters : List Filter}
  {last : Handler StorageInterface}

theorem sends_through (hf : ∀ f ∈ filters, f.isCodec = false) (h : Handler.Sends serve last) :
    Handler.Sends serve (through filters last) := by
  induction filters with
  | nil => exact h
  | cons f rest ih =>
    have hrest : Handler.Sends serve (through rest last) := ih fun g hg => hf g (List.mem_cons_of_mem _ hg)
    cases f with
    | logging =>
      intro r stream s Q hwrites hentity hs hQ
      exact Handler.log_ensures (hrest hwrites hentity hs hQ)
    | checksum =>
      show Handler.Sends serve (checkDigests (through rest last))
      exact hrest.checkDigests
    | codec e => cases hf _ List.mem_cons_self

theorem fetches_through (hf : ∀ f ∈ filters, f.isCodec = false) (h : Handler.Fetches serve last) :
    Handler.Fetches serve (through filters last) := by
  induction filters with
  | nil => exact h
  | cons f rest ih =>
    have hrest : Handler.Fetches serve (through rest last) := ih fun g hg => hf g (List.mem_cons_of_mem _ hg)
    cases f with
    | logging =>
      intro r s Q hentity hop hQ
      exact Handler.log_ensures (hrest hentity hop hQ)
    | checksum =>
      show Handler.Fetches serve (checkDigests (through rest last))
      exact hrest.checkDigests
    | codec e => cases hf _ List.mem_cons_self

end Filter

end SealedStore
