import SealedStore.Proofs.Endpoint
import SealedStore.Proofs.Transparency
import SealedStore.Proofs.Uploads
/-!
# Parts of uploads

What the operations of a client do to uploads, whatever its filters are. None of
them encrypts anything, so none draws random bytes, and what an operation ends
with depends on the store alone. An operation makes calls on no upload but the
one that it names. A part that is uploaded reaches the store as its content is
read behind the filters; a part that is copied is what is stored at its source
at that time. The tag that is handed out has the digest of what was added.

What is proved:
  1. `Quiet.run_alike` — programs over states that their calls do not tell apart.
  2. `ClientCall.quiet_perform` — the calls of an operation.
  3. `Client.received_steady` — what reaches the store of a content.
  4. `Client.uploadPart_ensures`, `Client.copyPart_ensures` — adding parts.
-/

namespace SealedStore

open Program (Ensures Only)

/-! ## Programs that draw nothing -/

namespace Program
variable {I : Interface} {α β σ : Type} {P : I.Call → Prop}

/-- A program that draws no random bytes and makes only such calls. What it ends
with depends on the state behind its calls alone. -/
def Quiet (P : I.Call → Prop) : Program I α → Prop
  | .done _ => True
  | .draw _ _ _ => False
  | .log _ next => Quiet P next
  | .call c next => P c ∧ ∀ r, Quiet P (next r)

namespace Quiet

theorem bind {p : Program I α} {f : α → Program I β} (h : Quiet P p) (hf : ∀ a, Quiet P (f a)) :
    Quiet P (p >>= f) := by
  induction p with
  | done a => exact hf a
  | draw => exact h.elim
  | log event next ih => exact ih h
  | call c next ih => exact ⟨h.1, fun r => ih r (h.2 r)⟩

theorem attempt {p : Attempt I α} {f : α → Attempt I β} (h : Quiet P p.run)
    (hf : ∀ a, Quiet P (f a).run) : Quiet P (p >>= f).run := by
  rw [ExceptT.run_bind]
  refine h.bind fun r => ?_
  cases r with
  | ok a => exact hf a
  | error e => trivial

theorem only {p : Program I α} (h : Quiet P p) : Only P p := by
  induction p with
  | done a => trivial
  | draw => exact h.elim
  | log event next ih => exact ih h
  | call c next ih => exact ⟨h.1, fun r => ih r (h.2 r)⟩

/-- States that such calls do not tell apart, the program does not either. -/
theorem run_alike {serve : Service I σ} {R : σ → σ → Prop} {p : Program I α} (h : Quiet P p)
    (hserve : ∀ c s t, P c → R s t → (serve c s).1 = (serve c t).1 ∧ R (serve c s).2 (serve c t).2)
    {w v : World σ} (hR : R w.state v.state) :
    (p.run serve w).1 = (p.run serve v).1 ∧ R (p.run serve w).2.state (p.run serve v).2.state := by
  induction p generalizing w v with
  | done a => exact ⟨rfl, hR⟩
  | draw => exact h.elim
  | log event next ih => exact ih h (w := w.reported event) (v := v.reported event) hR
  | call c next ih =>
    obtain ⟨hreply, hstate⟩ := hserve c w.state v.state h.1 hR
    have hnext := ih (serve c w.state).1 (h.2 _) (w := { w with state := (serve c w.state).2 })
      (v := { v with state := (serve c v.state).2 }) hstate
    -- Both states gave the same reply, so the rest of the program is the same one.
    rw [run_call, run_call, ← hreply]
    exact hnext

end Quiet

end Program

open Program (Quiet)

/-! ## Requests that draw nothing -/

/-- Calls on no upload, or on the one that is named. -/
def StorageCall.Concerns (named : Option String) (c : StorageCall) : Prop :=
  c.upload? = none ∨ c.upload? = named

def Operation.upload? : Operation → Option String
  | .uploadPart u _ | .copyPart _ u _ _ | .complete u _ | .abort u => some u
  | _ => none

/-- A handler draws nothing for a request whose content is not to be encrypted,
and makes only calls that concern its upload. -/
def Handler.DrawsNothing (h : Handler StorageInterface) : Prop :=
  ∀ r : Request, r.properties.encode = false → Quiet (StorageCall.Concerns r.operation.upload?) (h r)

theorem quiet_carryOutWith (target : Identity) (content : Bytes) (op : Operation) :
    Quiet (StorageCall.Concerns op.upload?) (Storage.carryOutWith target content op).run := by
  cases op with
  | bare => trivial
  | copyPart source u number range =>
    refine Quiet.attempt ⟨.inl rfl, fun _ => trivial⟩ fun object => ?_
    exact Quiet.attempt ⟨.inr rfl, fun _ => trivial⟩ fun _ => trivial
  | put | get | head | copy | delete | acl | initiate =>
    exact Quiet.attempt ⟨.inl rfl, fun _ => trivial⟩ fun _ => trivial
  | uploadPart | complete | abort => exact Quiet.attempt ⟨.inr rfl, fun _ => trivial⟩ fun _ => trivial

namespace Handler.DrawsNothing
variable {next : Handler StorageInterface}

theorem carryOut : Handler.DrawsNothing Storage.carryOut := by
  intro r _
  cases hentity : r.entity with
  | none =>
    simp only [Storage.carryOut, Storage.readEntity, hentity]
    exact (quiet_carryOutWith r.target [] r.operation).bind fun _ => trivial
  | some stream =>
    simp only [Storage.carryOut, Storage.readEntity, hentity]
    cases (stream.read .rest).1 with
    | error e => trivial
    | ok content => exact (quiet_carryOutWith r.target content r.operation).bind fun _ => trivial

theorem log (h : next.DrawsNothing) : Handler.DrawsNothing (Filter.log next) := by
  intro r hencode
  refine (h r hencode).bind ?_
  rintro ⟨reply, back⟩
  cases reply <;> trivial

theorem checkDigests (h : next.DrawsNothing) : Handler.DrawsNothing (Filter.checkDigests next) := by
  intro r hencode
  cases hentity : r.entity with
  | none =>
    rw [Filter.checkDigests_eq next (.inl hentity)]
    exact (h r hencode).bind fun _ => trivial
  | some stream =>
    cases hwrites : Filter.writesContent r.operation with
    | false =>
      rw [Filter.checkDigests_eq next (.inr hwrites)]
      exact (h r hencode).bind fun _ => trivial
    | true =>
      rw [Filter.checkDigests_write_eq next hentity hwrites]
      exact Quiet.bind (h { r with entity := some stream.digested } hencode) fun _ => trivial

theorem transcode (e : Encryption) (h : next.DrawsNothing) : Handler.DrawsNothing (Filter.transcode e next) := by
  intro r hencode
  unfold Filter.transcode
  rw [if_neg (by rw [hencode]; decide)]
  refine (h r hencode).bind ?_
  rintro ⟨reply, back⟩
  dsimp only
  split <;> trivial

theorem through (h : next.DrawsNothing) (filters : List Filter) :
    Handler.DrawsNothing (Filter.through filters next) := by
  induction filters with
  | nil => exact h
  | cons f rest ih =>
    cases f with
    | logging => exact ih.log
    | checksum => exact ih.checkDigests
    | codec e => exact ih.transcode e

end Handler.DrawsNothing

namespace Client
variable (c : Client)

theorem quiet_execute {r : Request} {named : Option String} (hencode : r.properties.encode = false)
    (hnamed : r.operation.upload? = named) : Quiet (StorageCall.Concerns named) (c.execute r).run := by
  subst hnamed
  exact Quiet.bind (Handler.DrawsNothing.carryOut.through c.filters r hencode) fun _ => trivial

end Client

namespace ClientCall

def upload? : ClientCall → Option String
  | .uploadPart _ u _ _ | .copyPart _ _ u _ _ | .complete _ u _ | .abort _ u => some u
  | _ => none

/-- No operation encrypts or draws anything, whatever the filters are. -/
theorem quiet_perform (c : Client) (a : ClientCall) :
    Quiet (StorageCall.Concerns a.upload?) (a.perform c) := by
  have hacl : ∀ target, Quiet (StorageCall.Concerns none) (c.acl target).run := by
    intro target
    refine Quiet.attempt (c.quiet_execute rfl rfl) fun response => ?_
    cases response.payload <;> trivial
  cases a with
  | put p =>
    have hput : Quiet (StorageCall.Concerns none) (c.handle p.request) :=
      Handler.DrawsNothing.carryOut.through c.filters p.request rfl
    exact Quiet.bind (Quiet.bind hput fun _ => trivial) fun _ => trivial
  | get | copy | delete | metadata | uploadPart | copyPart | complete | abort =>
    exact Quiet.attempt (c.quiet_execute rfl rfl) fun _ => trivial
  | read target =>
    exact Quiet.attempt (Quiet.attempt (c.quiet_execute rfl rfl) fun _ => trivial) fun _ => trivial
  | acl target => exact hacl target
  | setMetadata target m =>
    refine Quiet.attempt (hacl target) fun access => ?_
    exact Quiet.attempt (Quiet.attempt (c.quiet_execute rfl rfl) fun _ => trivial) fun _ => trivial
  | list bucket start => exact ⟨.inl rfl, fun _ => trivial⟩
  | link request => trivial
  | linkFromNow target method =>
    have hexpiry : Quiet (StorageCall.Concerns none) c.linkExpiry.run :=
      Quiet.attempt ⟨.inl rfl, fun _ => trivial⟩ fun _ => trivial
    exact Quiet.attempt hexpiry fun _ => trivial
  | initiate target m access =>
    refine Quiet.attempt (c.quiet_execute rfl rfl) fun response => ?_
    cases response.payload <;> trivial

end ClientCall

/-! ## Parts that are added -/

def Filter.passed : Filter → Stream → Stream
  | .checksum, s => s.digested
  | .logging, s | .codec _, s => s

/-- The entity as it comes out of filters. -/
def Filter.passedAll (filters : List Filter) (s : Stream) : Stream := filters.foldl (fun s f => f.passed s) s

theorem Filter.steady_passed {stream : Stream} (h : stream.Steady) (f : Filter) :
    (f.passed stream).Steady ∧ (f.passed stream).script = stream.script := by
  cases f with
  | checksum => exact ⟨h, stream.script_digested⟩
  | logging | codec e => exact ⟨h, rfl⟩

theorem Filter.steady_passedAll (filters : List Filter) {stream : Stream} (h : stream.Steady) :
    (passedAll filters stream).Steady ∧ (passedAll filters stream).script = stream.script := by
  induction filters generalizing stream with
  | nil => exact ⟨h, rfl⟩
  | cons f rest ih =>
    obtain ⟨hfirst, hscript⟩ := steady_passed h f
    exact ⟨(ih hfirst).1, (ih hfirst).2.trans hscript⟩

def arrived (entity : Option Stream) : Except Error Bytes := (entity.map fun s => (s.read .rest).1).getD (.ok [])

namespace Handler
variable {σ : Type} {serve : Program.Service StorageInterface σ} {s : σ} {r : Request}

theorem carryOut_arrived {Q : Except Error Response → σ → Prop}
    (h : match arrived r.entity with
      | .error e => Q (.error e) s
      | .ok content => Ensures serve (Storage.carryOutWith r.target content r.operation).run s Q) :
    Ensures serve (Storage.carryOut r) s fun out t =>
      out.2.operation = r.operation ∧ out.2.properties = r.properties ∧ Q out.1 t := by
  cases hentity : r.entity with
  | none =>
    rw [hentity] at h
    rw [carryOut_eq hentity]
    exact .seq h fun reply t ht => .done ⟨rfl, rfl, ht⟩
  | some stream =>
    simp only [hentity, arrived, Option.map_some, Option.getD_some] at h
    simp only [Storage.carryOut, Storage.readEntity, hentity]
    cases hread : (stream.read .rest).1 with
    | error e =>
      rw [hread] at h
      exact .done ⟨rfl, rfl, h⟩
    | ok content =>
      rw [hread] at h
      exact .seq h fun reply t ht => .done ⟨rfl, rfl, ht⟩

theorem transcode_unasked {e : Encryption} {next : Handler StorageInterface}
    {Q : Except Error Response × Request → σ → Prop} (hencode : r.properties.encode = false)
    (hdecode : r.properties.decode = false)
    (h : Ensures serve (next r) s fun out t => out.2.properties = r.properties ∧ Q out t) :
    Ensures serve (Filter.transcode e next r) s Q := by
  unfold Filter.transcode
  rw [if_neg (by rw [hencode]; decide)]
  refine .seq h fun out t hout => ?_
  obtain ⟨reply, back⟩ := out
  have hback : back.properties.decode = false := by rw [hout.1, hdecode]
  dsimp only
  rw [if_neg (by rw [hback]; decide)]
  exact .done hout.2

end Handler

/-- A request that adds a part to an upload adds what is read of its entity
behind the filters, or nothing if that cannot be read. A response reports the
digest of the part. -/
def Handler.AddsPart (passed : Stream → Stream) (h : Handler StorageInterface) : Prop :=
  ∀ {r : Request} {u : String} {number : Int} {s : Storage}, r.operation = .uploadPart u number →
    r.properties.encode = false → r.properties.decode = false →
    Ensures Storage.serve (h r) s fun out t =>
      out.2.operation = r.operation ∧ out.2.properties = r.properties ∧
      match arrived (r.entity.map passed) with
      | .error e => out.1 = .error e ∧ t = s
      | .ok content => t = (Storage.serve (.uploadPart u number content) s).2 ∧
          ∀ response, out.1 = .ok response → response.etag = some (Md5.hex content)

theorem Storage.etag_of_uploadPart {s : Storage} {u : String} {number : Int} {content : Bytes} {etag : String}
    (h : (serve (.uploadPart u number content) s).1 = .ok etag) : etag = Md5.hex content := by
  cases hget : s.uploads.get? u with
  | none =>
    rw [serve_uploadPart_gone hget] at h
    cases h
  | some upload =>
    rw [serve_uploadPart hget] at h
    exact (Except.ok.inj h).symm

theorem addPart_ensures (s : Storage) (u : String) (number : Int) (content : Bytes) :
    Ensures Storage.serve (do
      return { etag := some (← (StorageCall.uploadPart u number content).send) } : StorageTask Response).run s
      fun reply t => t = (Storage.serve (.uploadPart u number content) s).2 ∧
        ∀ response, reply = .ok response → response.etag = some (Md5.hex content) := by
  refine .map (StorageCall.send_ensures ⟨rfl, fun response hresponse => ?_⟩)
  cases hreply : (Storage.serve (.uploadPart u number content) s).1 with
  | error e =>
    rw [hreply] at hresponse
    cases hresponse
  | ok etag =>
    rw [hreply] at hresponse
    obtain rfl := Except.ok.inj hresponse
    exact congrArg some (Storage.etag_of_uploadPart hreply)

namespace Handler.AddsPart
variable {next : Handler StorageInterface} {passed : Stream → Stream}

theorem carryOut : Handler.AddsPart id Storage.carryOut := by
  intro r u number s hop hencode hdecode
  rw [Option.map_id]
  refine Handler.carryOut_arrived (Q := fun reply t => match arrived r.entity with
    | .error e => reply = .error e ∧ t = s
    | .ok content => t = (Storage.serve (.uploadPart u number content) s).2 ∧
        ∀ response, reply = .ok response → response.etag = some (Md5.hex content)) ?_
  cases arrived r.entity with
  | error e => exact ⟨rfl, rfl⟩
  | ok content =>
    rw [hop]
    exact addPart_ensures s u number content

theorem log (h : next.AddsPart passed) : Handler.AddsPart passed (Filter.log next) :=
  fun hop hencode hdecode => Handler.log_ensures (h hop hencode hdecode)

theorem checkDigests (h : next.AddsPart passed) :
    Handler.AddsPart (fun s => passed s.digested) (Filter.checkDigests next) := by
  intro r u number s hop hencode hdecode
  cases hentity : r.entity with
  | none =>
    rw [Filter.checkDigests_eq next (.inl hentity)]
    refine .seq (h hop hencode hdecode) fun out t hout => .done ?_
    -- An upload of a part is no read in full: nothing is compared after it.
    have hfull : Filter.readsInFull out.2.operation = false := by rw [hout.1, hop]; rfl
    rw [hfull]
    rwa [hentity] at hout
  | some stream =>
    have hwrites : Filter.writesContent r.operation = true := by rw [hop]; rfl
    rw [Filter.checkDigests_write_eq next hentity hwrites]
    refine .seq (h (r := { r with entity := some stream.digested }) hop hencode hdecode) fun out t hout => .done ?_
    obtain ⟨hoperation, hproperties, hadded⟩ := hout
    rw [Filter.undigesting_snd]
    refine ⟨hoperation, hproperties, ?_⟩
    show match arrived ((some stream.digested).map passed) with | .error _ => _ | .ok _ => _
    revert hadded
    cases arrived ((some stream.digested).map passed) with
    | error e => exact fun ⟨herror, ht⟩ => ⟨Filter.undigesting_error herror, ht⟩
    | ok content => exact fun ⟨ht, hetag⟩ => ⟨ht, fun response h => hetag response (Filter.undigesting_ok h)⟩

theorem transcode (e : Encryption) (h : next.AddsPart passed) :
    Handler.AddsPart passed (Filter.transcode e next) :=
  fun hop hencode hdecode => Handler.transcode_unasked hencode hdecode
    ((h hop hencode hdecode).mono fun _ _ hout => ⟨hout.2.1, hout⟩)

theorem through (h : next.AddsPart id) (filters : List Filter) :
    Handler.AddsPart (Filter.passedAll filters) (Filter.through filters next) := by
  induction filters with
  | nil => exact h
  | cons f rest ih =>
    cases f with
    | logging => exact ih.log
    | checksum => exact ih.checkDigests
    | codec e => exact ih.transcode e

end Handler.AddsPart

/-! ## Operations on uploads -/

namespace Client
variable (c : Client) {s : Storage} {target place : Identity} {u : String} {tags : List PartTag}

/-- What the store receives of a content that is sent along. -/
def received (content : Option Content) : Except Error Bytes :=
  arrived (content.map fun content => Filter.passedAll c.filters content.toStream)

theorem received_steady {content : Content} (h : content.toStream.Steady) :
    c.received (some content) = content.toStream.script.outcome := by
  obtain ⟨hsteady, hscript⟩ := Filter.steady_passedAll c.filters h
  exact (Stream.read_rest_eq hsteady).trans (congrArg Script.outcome hscript)

theorem received_bytes (b : Bytes) : c.received (some (.bytes b)) = .ok b := by
  have hholds : (Content.bytes b).toStream.Holds b := Stream.holds_ofBytes b
  rw [c.received_steady hholds.steady, hholds.script_eq, Script.outcome_ofBytes]

theorem eq_tag {reply : Except Error Response} {number : Int} {etag : String} {tag : PartTag}
    (hetag : ∀ response, reply = .ok response → response.etag = some etag)
    (h : reply.map (fun response => { number, etag := response.etag.getD "" }) = .ok tag) :
    tag = { number, etag } := by
  cases reply with
  | error e => cases h
  | ok response =>
    obtain rfl := Except.ok.inj h
    simp only [hetag response rfl, Option.getD_some]

/-- Uploading a part adds what is received of its content. -/
theorem uploadPart_ensures (number : Int) (content : Option Content) :
    Ensures Storage.serve (c.uploadPart place u number content).run s fun out t =>
      let part : Option NewPart := (c.received content).toOption.map fun b => { upload := u, number, content := b }
      t = s.withPart part ∧
        ∀ tag, out = .ok tag → ∃ p, part = some p ∧ tag = { number, etag := Md5.hex p.content } := by
  let r := Request.uploadPart place u number content
  have hadds : Ensures Storage.serve (c.handle r) s _ :=
    Handler.AddsPart.carryOut.through c.filters (r := r) rfl rfl rfl
  have harrived : arrived (r.entity.map (Filter.passedAll c.filters)) = c.received content := by
    cases content <;> rfl
  rw [harrived] at hadds
  refine .map (.seq hadds fun out t hout => .done ?_)
  obtain ⟨reply, back⟩ := out
  obtain ⟨-, -, hout⟩ := hout
  cases hreceived : c.received content with
  | error e =>
    rw [hreceived] at hout
    obtain ⟨rfl, rfl⟩ := hout
    exact ⟨rfl, nofun⟩
  | ok b =>
    rw [hreceived] at hout
    exact ⟨hout.1, fun tag htag => ⟨_, rfl, eq_tag hout.2 htag⟩⟩

/-- Copying a part adds what is stored at its source. -/
theorem copyPart_ensures (source : Identity) (number : Int) (range : Option ByteRange) :
    Ensures Storage.serve (c.copyPart source place u number range).run s fun out t =>
      let part : Option NewPart := (s.objects.get? source).map fun object =>
        { upload := u, number, content := range.elim object.content (·.covered object.content) }
      t = s.withPart part ∧
        ∀ tag, out = .ok tag → ∃ p, part = some p ∧ tag = { number, etag := Md5.hex p.content } := by
  refine .map (execute_ensures ⟨rfl, rfl, rfl, rfl⟩ (.attempt (StorageCall.send_ensures ?_)))
  cases hget : s.objects.get? source with
  | none =>
    rw [Storage.serve_get_missing hget]
    exact ⟨rfl, nofun⟩
  | some object =>
    rw [Storage.serve_get hget]
    -- What `slice` cuts out is told here by the positions it covers.
    have hpiece : (range.elim object.content fun r => r.slice object.content) =
        range.elim object.content (·.covered object.content) := by
      cases range with
      | none => rfl
      | some r => exact r.slice_eq_covered object.content
    dsimp only
    rw [hpiece]
    refine (addPart_ensures s u number _).mono ?_
    rintro reply t ⟨ht, hetag⟩
    exact ⟨ht, fun tag htag => ⟨_, rfl, eq_tag hetag htag⟩⟩

theorem complete_ensures :
    Ensures Storage.serve (c.complete place u tags).run s fun out t =>
      out = (Storage.serve (.complete u tags) s).1.map (fun object => written (Storage.shown object)) ∧
        t = (Storage.serve (.complete u tags) s).2 := by
  refine .map (execute_ensures ⟨rfl, rfl, rfl, rfl⟩ (.map (StorageCall.send_ensures ⟨?_, rfl⟩)))
  cases (Storage.serve (.complete u tags) s).1 <;> rfl

theorem abort_ensures :
    Ensures Storage.serve (c.abort place u).run s fun out t =>
      out = (Storage.serve (.abort u) s).1 ∧ t = (Storage.serve (.abort u) s).2 := by
  refine .map (execute_ensures ⟨rfl, rfl, rfl, rfl⟩ (.map (StorageCall.send_ensures ⟨?_, rfl⟩)))
  cases (Storage.serve (.abort u) s).1 <;> rfl

theorem initiate_ensures (target : Identity) (metadata : Option Metadata) (acl : Option AccessList) :
    Ensures Storage.serve (c.initiate target metadata acl).run s fun out t =>
      out = .ok { target, uploadId := (s.initiate target metadata acl).1 } ∧
        t = (s.initiate target metadata acl).2 :=
  .attempt (execute_ensures ⟨rfl, rfl, rfl, rfl⟩ (.map (StorageCall.send_ensures (.done ⟨rfl, rfl⟩))))

end Client

end SealedStore
