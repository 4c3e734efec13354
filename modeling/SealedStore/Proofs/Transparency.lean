import SealedStore.Entropy
import SealedStore.Proofs.Consistency
import SealedStore.Proofs.Operations
/-!
# Filters that do not show

Logging and comparing checksums, in any number and order, change nothing of
what a client does: every operation has the result that it has without any
filter, every body that is handed out has the same content, and the store ends
the same. No checksum is ever refused, unless an entity refuses itself while it
is read. Both hold for every store that calls can make of an empty one, since
such stores are consistent.

What is proved:
  1. `Alike.bind`, `Alike.attempt` — programs that end alike, taken apart.
  2. `Client.execute_alike_inert`, `Client.execute_alike_entity`,
     `Client.get_ensures` — requests through filters and without.
  3. `ClientCall.perform_alike` — single operations.
  4. `ClientCall.performAll_transparent` — sequences of operations.
-/

namespace SealedStore

open Program (Ensures)

/-! ## Alarms -/

/-- A result that is no alarm about a checksum. -/
def Calm {α : Type} (x : Except Error α) : Prop := ∀ e, x = .error e → e.kind ≠ .checksum

namespace Calm
variable {α β : Type} {x : Except Error α}

theorem ok (a : α) : Calm (.ok a : Except Error α) := nofun

theorem error {e : Error} (h : e.kind ≠ .checksum) : Calm (.error e : Except Error α) := by
  rintro _ ⟨⟩
  exact h

theorem bind {f : α → Except Error β} (h : Calm x) (hf : ∀ a, Calm (f a)) : Calm (x >>= f) := by
  cases x with
  | error e => exact error (h e rfl)
  | ok a => exact hf a

theorem map (h : Calm x) (f : α → β) : Calm (x.map f) := by
  cases x with
  | error e => exact error (h e rfl)
  | ok a => exact ok _

theorem ite {p : Prop} [Decidable p] {y : Except Error α} (hx : Calm x) (hy : Calm y) :
    Calm (if p then x else y) := by
  split
  · exact hx
  · exact hy

theorem mapM {f : α → Except Error β} (h : ∀ a, Calm (f a)) (l : List α) : Calm (l.mapM f) := by
  induction l with
  | nil => exact ok []
  | cons a l ih =>
    rw [List.mapM_cons]
    exact (h a).bind fun b => ih.bind fun bs => ok _

end Calm

namespace Storage
variable {s : Storage}

theorem calm_find (target : Identity) : Calm (s.find target) := by
  unfold find
  split
  · exact .ok _
  · exact .error nofun

theorem calm_findUpload (uploadId : String) : Calm (s.findUpload uploadId) := by
  unfold findUpload
  split
  · exact .ok _
  · exact .error nofun

theorem calm_partContent (upload : Upload) (uploadId : String) (tag : PartTag) :
    Calm (partContent upload uploadId tag) := by
  unfold partContent
  split
  · split
    · exact .ok _
    · exact .error nofun
  · exact .error nofun

theorem calm_settle {α : Type} {r : Except Error (α × Storage)} (h : Calm r) : Calm (s.settle r).1 := by
  cases r with
  | error e => exact .error (h e rfl)
  | ok out => exact .ok _

/-- No call raises an alarm. -/
theorem calm_serve (c : StorageCall) (s : Storage) : Calm (serve c s).1 := by
  cases c with
  | put | list | delete | initiate | now => exact .ok _
  | get target => exact calm_find target
  | acl target => exact (calm_find target).map _
  | copy source target metadata acl => exact calm_settle ((calm_find source).bind fun _ => .ok _)
  | uploadPart uploadId number content => exact calm_settle ((calm_findUpload uploadId).bind fun _ => .ok _)
  | complete uploadId tags =>
    refine calm_settle ((calm_findUpload uploadId).bind fun upload => ?_)
    exact (Calm.mapM (calm_partContent upload uploadId) _).bind fun _ => .ok _
  | abort uploadId => exact calm_settle (((calm_findUpload uploadId).bind fun _ => .ok _).map _)

end Storage

/-! ## Programs that end alike -/

/-- From every store that can be reached two programs end with results of which
`R` holds, and with the same store. -/
def Alike {α β : Type} (R : α → β → Prop) (p : Program StorageInterface α) (q : Program StorageInterface β) :
    Prop :=
  ∀ w w' : World Storage, w.state.Reachable → w'.state = w.state →
    R (p.run Storage.serve w).1 (q.run Storage.serve w').1 ∧
      (p.run Storage.serve w).2.state = (q.run Storage.serve w').2.state

/-- One result and no alarm, but for the faults in `blamed`. -/
def Agree {α : Type} (blamed : Error → Prop) (x y : Except Error α) : Prop :=
  x = y ∧ ∀ e, x = .error e → e.kind = .checksum → blamed e

namespace Agree
variable {α β : Type} {blamed : Error → Prop} {e : Error}

theorem ok (a : α) : Agree blamed (.ok a : Except Error α) (.ok a) := ⟨rfl, nofun⟩

theorem error (h : e.kind = .checksum → blamed e) : Agree blamed (.error e : Except Error α) (.error e) :=
  ⟨rfl, fun _ he => by cases he; exact h⟩

theorem map {x y : Except Error α} (h : Agree blamed x y) (f : α → β) :
    Agree blamed (x.map f) (y.map f) := by
  obtain ⟨rfl, h⟩ := h
  cases x with
  | error e => exact error (h e rfl)
  | ok a => exact ok _

end Agree

namespace Alike
variable {α β γ δ : Type} {p : Program StorageInterface α} {q : Program StorageInterface β}
  {R : α → β → Prop} {S : γ → δ → Prop} {blamed : Error → Prop}

theorem done {a : α} {b : β} (h : R a b) : Alike R (.done a) (.done b) := fun _ _ _ hw => ⟨h, hw.symm⟩

theorem mono {R' : α → β → Prop} (h : Alike R p q) (hi : ∀ a b, R a b → R' a b) : Alike R' p q :=
  fun w w' hr hw => ⟨hi _ _ (h w w' hr hw).1, (h w w' hr hw).2⟩

theorem log_left {event : LogEvent} (h : Alike R p q) : Alike R (.log event p) q :=
  fun w w' hr hw => h (w.reported event) w' hr hw

theorem bind {f : α → Program StorageInterface γ} {g : β → Program StorageInterface δ} (h : Alike R p q)
    (hf : ∀ a b, R a b → Alike S (f a) (g b)) : Alike S (p >>= f) (q >>= g) := by
  intro w w' hr hw
  obtain ⟨hresult, hstate⟩ := h w w' hr hw
  rw [Program.run_bind, Program.run_bind]
  exact hf _ _ hresult _ _ (hr.run p) hstate.symm

/-- Programs whose outcomes are known are compared by them. -/
theorem of_ensures (h : ∀ s : Storage, s.Reachable → ∃ (P : α → Prop) (Q : β → Prop) (t : Storage),
    Ensures Storage.serve p s (fun a u => P a ∧ u = t) ∧
      Ensures Storage.serve q s (fun b u => Q b ∧ u = t) ∧ ∀ a b, P a → Q b → R a b) : Alike R p q := by
  intro w w' hr hw
  obtain ⟨P, Q, t, hp, hq, hR⟩ := h w.state hr
  obtain ⟨ha, hsame⟩ := hp w rfl
  obtain ⟨hb, hsame'⟩ := hq w' hw
  exact ⟨hR _ _ ha hb, hsame.trans hsame'.symm⟩

theorem attempt {p q : StorageTask α} {f : α → StorageTask β} {g : α → StorageTask γ}
    {R : Except Error β → Except Error γ → Prop} (h : Alike (Agree blamed) p.run q.run)
    (hf : ∀ a, Alike R (f a).run (g a).run)
    (he : ∀ e : Error, (e.kind = .checksum → blamed e) → R (.error e) (.error e)) :
    Alike R (p >>= f).run (q >>= g).run := by
  rw [ExceptT.run_bind, ExceptT.run_bind]
  refine h.bind ?_
  rintro x _ ⟨rfl, halarm⟩
  cases x with
  | error e => exact .done (he e (halarm e rfl))
  | ok a => exact hf a

theorem seq {p q : StorageTask α} {f g : α → StorageTask β} (h : Alike (Agree blamed) p.run q.run)
    (hf : ∀ a, Alike (Agree blamed) (f a).run (g a).run) :
    Alike (Agree blamed) (p >>= f).run (q >>= g).run :=
  h.attempt hf fun _ he => .error he

end Alike

/-! ## Requests -/

theorem Alike.send {blamed : Error → Prop} (c : StorageCall) : Alike (Agree blamed) c.send.run c.send.run := by
  rintro w w' _ hw
  have hcalm := Storage.calm_serve c w.state
  refine ⟨⟨?_, fun e he ha => ?_⟩, ?_⟩
  · show (Storage.serve c w.state).1 = (Storage.serve c w'.state).1
    rw [hw]
  · exact absurd ha (hcalm e he)
  · show (Storage.serve c w.state).2 = (Storage.serve c w'.state).2
    rw [hw]

theorem carryOutWith_alike {blamed : Error → Prop} (target : Identity) (content : Bytes) (op : Operation) :
    Alike (Agree blamed) (Storage.carryOutWith target content op).run
      (Storage.carryOutWith target content op).run := by
  cases op with
  | bare => exact .done (.error nofun)
  | copyPart source uploadId number range =>
    exact (Alike.send _).seq fun _ => (Alike.send _).seq fun _ => .done (.ok _)
  | put | get | head | delete | acl | copy | initiate | uploadPart | complete | abort =>
    exact (Alike.send _).seq fun _ => .done (.ok _)

theorem Alike.passing {blamed : Error → Prop} {filters : List Filter} {r : Request}
    {p q : Program StorageInterface (Except Error Response)} (h : Alike (Agree blamed) p q) :
    Alike (Agree blamed) (filters.foldr (Filter.passing r) p) q := by
  induction filters with
  | nil => exact h
  | cons f rest ih =>
    cases f with
    | logging =>
      rw [← bind_pure q]
      refine ih.bind ?_
      rintro x _ ⟨rfl, hx⟩
      cases x with
      | error e => exact .done ⟨rfl, hx⟩
      | ok response => exact .log_left (.done ⟨rfl, hx⟩)
    | checksum | codec => exact ih

namespace Client
variable {c : Client} {r : Request} {blamed : Error → Prop}

/-- The client without its filters. -/
def bare (c : Client) : Client := { c with filters := [] }

/-- What the client has are filters of the kinds that look at nothing, or at
digests. -/
def Plain (c : Client) : Prop := ∀ f ∈ c.filters, f.isCodec = false

theorem plain_bare (c : Client) : c.bare.Plain := nofun

/-! ### Requests without content -/

theorem execute_alike_inert (hr : r.Inert) : Alike (Agree blamed) (c.execute r).run (c.bare.execute r).run := by
  rw [execute_inert hr, execute_inert hr]
  exact .passing (carryOutWith_alike r.target [] r.operation)

/-! ### Requests with an entity -/

theorem carryOutWith_writes (s : Storage) (target : Identity) (content : Bytes) {op : Operation}
    (hwrites : Filter.writesContent op = true) :
    ∃ reply t, Calm reply ∧
      Ensures Storage.serve (Storage.carryOutWith target content op).run s (fun x u => x = reply ∧ u = t) ∧
      (Filter.isPartialWrite op = false → ∀ response, reply = .ok response → response.Honest content) := by
  cases op with
  | put metadata acl range =>
    let call : StorageCall := .put target content metadata acl (range.map fun r => (r.first : Int))
    refine ⟨_, _, (Storage.calm_serve call s).map Storage.shown, .map (StorageCall.send_ensures ⟨rfl, rfl⟩),
      fun hwhole response hresponse => ?_⟩
    · cases range with
      | some range => cases hwhole
      | none =>
        obtain rfl := Except.ok.inj hresponse
        exact Filter.mismatch?_self _
  | uploadPart uploadId number =>
    let call : StorageCall := .uploadPart uploadId number content
    let answer : String → Response := fun etag => { etag := some etag }
    refine ⟨_, _, (Storage.calm_serve call s).map answer, .map (StorageCall.send_ensures ⟨rfl, rfl⟩),
      fun _ response hresponse => ?_⟩
    have hresponse : (s.settle (s.uploadPart uploadId number content)).1.map answer = .ok response := hresponse
    cases hpart : s.uploadPart uploadId number content with
    | error e =>
      rw [hpart] at hresponse
      cases hresponse
    | ok out =>
      rw [hpart] at hresponse
      obtain rfl : answer out.1 = response := Except.ok.inj hresponse
      show Filter.mismatch? (Md5.hex content) (some out.1) = none
      rw [Storage.uploadPart_etag hpart]
      exact Filter.mismatch?_self _
  | get | head | delete | acl | copy | initiate | copyPart | complete | abort | bare => cases hwrites

/-- An entity is read to the same end with filters and without. What is stored
has the digest that the store reports, so no alarm is raised that the entity
does not raise itself. -/
theorem execute_alike_entity (hc : c.Plain) {stream : Stream}
    (hwrites : Filter.writesContent r.operation = true) (hentity : r.entity = some stream)
    (hs : stream.Steady) (hblamed : ∀ e, stream.script.outcome = .error e → blamed e) :
    Alike (Agree blamed) (c.execute r).run (c.bare.execute r).run := by
  refine .of_ensures fun s _ => ?_
  -- The outcome is the same for every client without a codec.
  suffices h : ∃ reply t, Agree blamed reply reply ∧ ∀ c : Client, c.Plain →
      Ensures Storage.serve (c.execute r).run s fun x u => x = reply ∧ u = t by
    obtain ⟨reply, t, hreply, hends⟩ := h
    refine ⟨(· = reply), (· = reply), t, hends c hc, hends _ c.plain_bare, ?_⟩
    rintro x y rfl rfl
    exact hreply
  have hsends : ∀ c : Client, c.Plain → Handler.Sends Storage.serve c.handle :=
    fun c hc => Filter.sends_through hc Handler.sends_carryOut
  cases houtcome : stream.script.outcome with
  | error e =>
    refine ⟨.error e, s, .error fun _ => hblamed e houtcome, fun c hc => ?_⟩
    refine .bind (hsends c hc hwrites hentity hs ?_)
    rw [houtcome]
    exact fun read _ => .done ⟨rfl, rfl⟩
  | ok content =>
    obtain ⟨reply, t, hcalm, hends, hhonest⟩ := carryOutWith_writes s r.target content hwrites
    refine ⟨reply, t, ⟨rfl, fun e he ha => ?_⟩, fun c hc => ?_⟩
    · exact absurd ha (hcalm e he)
    · refine .bind (hsends c hc hwrites hentity hs ?_)
      rw [houtcome]
      refine hends.mono ?_
      rintro _ _ ⟨rfl, rfl⟩
      exact ⟨hhonest, fun read _ _ => .done ⟨rfl, rfl⟩⟩

/-! ### Reads -/

theorem get_ensures {s : Storage} {target : Identity} (range : Option ByteRange) (hc : c.Plain)
    (hs : s.Reachable) :
    Ensures Storage.serve (c.get target range).run s fun x u => u = s ∧
      match s.objects.get? target with
      | none => x = .error (.notFound target)
      | some object => ∃ body : Stream, body.Holds (range.elim object.content (·.slice object.content)) ∧
        x = .ok { body, metadata := (Storage.handedOut object range).metadata.getD {} } := by
  cases range with
  | none =>
    have hfetches : Handler.Fetches Storage.serve c.handle :=
      Filter.fetches_through hc Handler.fetches_carryOut
    refine .map (.bind (hfetches rfl rfl (StorageCall.send_ensures ?_)))
    cases hget : s.objects.get? target with
    | none =>
      rw [Storage.serve_get_missing hget]
      exact .done ⟨rfl, rfl⟩
    | some object =>
      rw [Storage.serve_get hget]
      intro stream hstream
      have hobject := hs.consistent.objects target object hget
      exact .done ⟨rfl, stream, hstream.holds hobject.honest, rfl⟩
  | some range =>
    refine .map (execute_ensures ⟨rfl, rfl, rfl, rfl⟩ (.map (StorageCall.send_ensures ?_)))
    cases hget : s.objects.get? target with
    | none =>
      rw [Storage.serve_get_missing hget]
      exact ⟨rfl, rfl⟩
    | some object =>
      rw [Storage.serve_get hget]
      exact ⟨rfl, _, Stream.holds_ofBytes _, rfl⟩

theorem read_ensures {s : Storage} {target : Identity} (hc : c.Plain) (hs : s.Reachable) :
    Ensures Storage.serve (c.read target).run s fun x u => u = s ∧
      x = (s.find target).map StoredObject.content := by
  refine .attempt ((get_ensures none hc hs).mono ?_)
  unfold Storage.find
  rintro x u ⟨rfl, hx⟩
  cases hget : u.objects.get? target with
  | none =>
    simp only [hget] at hx
    subst hx
    exact ⟨rfl, rfl⟩
  | some object =>
    simp only [hget] at hx
    obtain ⟨body, hbody, rfl⟩ := hx
    exact .of ⟨rfl, hbody.read_rest.1⟩

end Client

/-! ## Operations -/

/-- What can be asked of a client. -/
inductive ClientCall where
  | put (p : Put)
  | get (target : Identity) (range : Option ByteRange)
  | read (target : Identity)
  | copy (source target : Identity) (metadata : Option Metadata) (acl : Option AccessList)
  | delete (target : Identity)
  | metadata (target : Identity)
  | acl (target : Identity)
  | setMetadata (target : Identity) (metadata : Option Metadata)
  | list (bucket start : String)
  | link (request : LinkRequest)
  | linkFromNow (target : Identity) (method : String)
  | initiate (target : Identity) (metadata : Option Metadata) (acl : Option AccessList)
  | uploadPart (target : Identity) (uploadId : String) (number : Int) (content : Option Content)
  | copyPart (source target : Identity) (uploadId : String) (number : Int) (range : Option ByteRange)
  | complete (target : Identity) (uploadId : String) (parts : List PartTag)
  | abort (target : Identity) (uploadId : String)

namespace ClientCall

/-- What an operation that succeeds hands back. -/
abbrev Result : ClientCall → Type
  | .put _ | .copy _ _ _ _ | .complete _ _ _ => WriteResult
  | .get _ _ => ObjectContent
  | .read _ => Bytes
  | .delete _ | .setMetadata _ _ | .abort _ _ => Unit
  | .metadata _ => Metadata
  | .acl _ => AccessList
  | .list _ _ => List String
  | .link _ | .linkFromNow _ _ => String
  | .initiate _ _ _ => UploadHandle
  | .uploadPart _ _ _ _ | .copyPart _ _ _ _ _ => PartTag

/-- What a client does when it is asked. -/
def perform (c : Client) : (a : ClientCall) → Program StorageInterface (Except Error a.Result)
  | .put p => do return (← c.put p).1
  | .get target range => (c.get target range).run
  | .read target => (c.read target).run
  | .copy source target m access => (c.copy source target m access).run
  | .delete target => (c.delete target).run
  | .metadata target => (c.metadata target).run
  | .acl target => (c.acl target).run
  | .setMetadata target m => (c.setMetadata target m).run
  | .list bucket start => (Client.list bucket start).run
  | .link request => return c.link request
  | .linkFromNow target method => (c.linkFromNow target method).run
  | .initiate target m access => (c.initiate target m access).run
  | .uploadPart target uploadId number content => (c.uploadPart target uploadId number content).run
  | .copyPart source target uploadId number range => (c.copyPart source target uploadId number range).run
  | .complete target uploadId parts => (c.complete target uploadId parts).run
  | .abort target uploadId => (c.abort target uploadId).run

def entity? : ClientCall → Option Stream
  | .put p => p.entity
  | .uploadPart _ _ _ content => content.map Content.toStream
  | _ => none

/-- Only the end of the entity reads like an end. -/
def Steady (a : ClientCall) : Prop := ∀ stream, a.entity? = some stream → stream.Steady

def Raises (a : ClientCall) (e : Error) : Prop :=
  ∃ stream, a.entity? = some stream ∧ (stream.read .rest).1 = .error e

/-- Two reads that failed alike, or hand out the same content. -/
def SameContent : Except Error ObjectContent → Except Error ObjectContent → Prop
  | .ok x, .ok y => x.metadata = y.metadata ∧ ∃ content, x.body.Serves content ∧ y.body.Serves content
  | .error e, .error f => e = f
  | _, _ => False

/-- Two results of an operation that cannot be told apart. -/
def Same : (a : ClientCall) → Except Error a.Result → Except Error a.Result → Prop
  | .get _ _, x, y => SameContent x y
  | _, x, y => x = y

/-- Two results that cannot be told apart, and are no alarm, unless the entity
raised it. -/
def Agrees (a : ClientCall) (x y : Except Error a.Result) : Prop :=
  a.Same x y ∧ ∀ e, x = .error e → e.kind = .checksum → a.Raises e

variable {c : Client} {blamed : Error → Prop}

theorem settled {a : ClientCall} {p q : Program StorageInterface (Except Error a.Result)}
    (h : Alike (Agree a.Raises) p q) (hsame : ∀ x, a.Same x x) : Alike a.Agrees p q :=
  h.mono fun _ _ ⟨hxy, halarm⟩ => ⟨hxy ▸ hsame _, halarm⟩

theorem write_alike (hc : c.Plain) {r : Request} {raises : Error → Prop}
    (hwrites : Filter.writesContent r.operation = true) (hfull : Filter.readsInFull r.operation = false)
    (hencode : r.properties.encode = false) (hdecode : r.properties.decode = false)
    (hs : ∀ stream, r.entity = some stream → stream.Steady ∧
      ∀ e, (stream.read .rest).1 = .error e → raises e) :
    Alike (Agree raises) (c.execute r).run (c.bare.execute r).run := by
  cases hentity : r.entity with
  | none => exact Client.execute_alike_inert ⟨hentity, hfull, hencode, hdecode⟩
  | some stream =>
    obtain ⟨hsteady, hraises⟩ := hs stream hentity
    refine Client.execute_alike_entity hc hwrites hentity hsteady fun e he => hraises e ?_
    rwa [Stream.read_rest_eq hsteady]

/-- A read hands out the same content with filters and without. -/
theorem get_alike (hc : c.Plain) (target : Identity) (range : Option ByteRange) :
    Alike (Agrees (.get target range)) (c.get target range).run (c.bare.get target range).run := by
  refine .of_ensures fun s hs =>
    ⟨_, _, s, (Client.get_ensures range hc hs).mono fun _ _ h => ⟨h.2, h.1⟩,
      (Client.get_ensures range c.plain_bare hs).mono fun _ _ h => ⟨h.2, h.1⟩, fun x y hx hy => ?_⟩
  cases hget : s.objects.get? target with
  | none =>
    simp only [hget] at hx hy
    subst hx hy
    refine ⟨rfl, ?_⟩
    rintro _ ⟨⟩ ⟨⟩
  | some object =>
    simp only [hget] at hx hy
    obtain ⟨body, hbody, rfl⟩ := hx
    obtain ⟨other, hother, rfl⟩ := hy
    refine ⟨⟨rfl, _, hbody.serves, hother.serves⟩, ?_⟩
    rintro _ ⟨⟩

theorem read_alike (hc : c.Plain) (target : Identity) :
    Alike (Agree blamed) (c.read target).run (c.bare.read target).run := by
  refine .of_ensures fun s hs =>
    ⟨_, _, s, (Client.read_ensures hc hs).mono fun _ _ h => ⟨h.2, h.1⟩,
      (Client.read_ensures c.plain_bare hs).mono fun _ _ h => ⟨h.2, h.1⟩, ?_⟩
  rintro x y rfl rfl
  refine ⟨rfl, fun e he ha => ?_⟩
  exact absurd ha ((Storage.calm_find target).map StoredObject.content e he)

theorem put_alike (hc : c.Plain) {p : Put} (ha : (ClientCall.put p).Steady) :
    Alike (Agree (ClientCall.put p).Raises) ((ClientCall.put p).perform c)
      ((ClientCall.put p).perform c.bare) := by
  -- The write that comes back is dropped, and what is left is a request like others.
  have hperform : ∀ c : Client, (ClientCall.put p).perform c =
      (c.execute p.request).run >>= fun x => pure (x.map Client.written) := by
    intro c
    show (c.put p >>= fun out => pure out.1) = (c.handle p.request >>= fun out => pure out.1) >>= _
    simp only [Client.put, bind_assoc, pure_bind]
  have hwrite : Alike (Agree (ClientCall.put p).Raises) (c.execute p.request).run
      (c.bare.execute p.request).run :=
    write_alike hc rfl rfl rfl rfl fun stream hstream =>
      ⟨ha stream hstream, fun _ he => ⟨stream, hstream, he⟩⟩
  rw [hperform, hperform]
  exact hwrite.bind fun _ _ h => .done (h.map Client.written)

theorem uploadPart_alike (hc : c.Plain) {target : Identity} {uploadId : String} {number : Int}
    {content : Option Content} (ha : (ClientCall.uploadPart target uploadId number content).Steady) :
    Alike (Agree (ClientCall.uploadPart target uploadId number content).Raises)
      (c.uploadPart target uploadId number content).run
      (c.bare.uploadPart target uploadId number content).run :=
  (write_alike hc rfl rfl rfl rfl fun stream hstream =>
    ⟨ha stream hstream, fun _ he => ⟨stream, hstream, he⟩⟩).seq fun _ => .done (.ok _)

theorem acl_alike (target : Identity) :
    Alike (Agree blamed) (c.acl target).run (c.bare.acl target).run := by
  refine (Client.execute_alike_inert ⟨rfl, rfl, rfl, rfl⟩).seq fun response => ?_
  cases response.payload <;> exact .done (.ok _)

theorem calm_momentOfSecond (second : Int) : Calm (momentOfSecond second) := by
  refine .ite (.error nofun) (.ite (.error nofun) ?_)
  split
  · exact .ok _
  · exact .error nofun

theorem calm_momentAfter (second lifetime : Int) : Calm (momentAfter second lifetime) := by
  unfold momentAfter
  split
  · exact calm_momentOfSecond _
  · exact .error nofun

theorem calm_instant (m : Moment) : Calm m.instant := by
  have hzone : Calm (m.ahead.mapError Error.value) := by
    cases m.ahead with
    | ok ahead => exact .ok _
    | error fault => exact .error nofun
  exact hzone.bind fun ahead => .ite (.ok _) (.error nofun)

theorem link_agree (request : LinkRequest) : Agree blamed (c.link request) (c.bare.link request) := by
  have hcalm : Calm (c.link request) := by
    unfold Client.link
    split
    · exact ((calm_instant _).map _).map _
    · exact .error nofun
  exact ⟨rfl, fun e he ha => absurd ha (hcalm e he)⟩

theorem linkFromNow_alike (target : Identity) (method : String) :
    Alike (Agree blamed) (c.linkFromNow target method).run (c.bare.linkFromNow target method).run := by
  have hexpiry : Alike (Agree blamed) c.linkExpiry.run c.bare.linkExpiry.run := by
    refine (Alike.send .now).seq fun now => .done ⟨rfl, fun e he ha => ?_⟩
    exact absurd ha (calm_momentAfter now c.settings.linkLifetime e he)
  exact hexpiry.seq fun expiration => .done (link_agree _)

/-- An operation ends alike with filters and without. -/
theorem perform_alike (hc : c.Plain) {a : ClientCall} (ha : a.Steady) :
    Alike a.Agrees (a.perform c) (a.perform c.bare) := by
  have hinert : ∀ {r : Request}, r.Inert →
      Alike (Agree a.Raises) (c.execute r).run (c.bare.execute r).run := Client.execute_alike_inert
  cases a with
  | put p => exact settled (put_alike hc ha) fun _ => rfl
  | uploadPart target uploadId number content => exact settled (uploadPart_alike hc ha) fun _ => rfl
  | get target range => exact get_alike hc target range
  | read target => exact settled (read_alike hc target) fun _ => rfl
  | copy | delete | metadata | copyPart | complete | abort =>
    exact settled ((hinert ⟨rfl, rfl, rfl, rfl⟩).seq fun _ => .done (.ok _)) fun _ => rfl
  | acl target => exact settled (acl_alike target) fun _ => rfl
  | setMetadata target m =>
    -- Two requests, of which the second carries what the first has found.
    refine settled ((acl_alike target).seq fun access => ?_) fun _ => rfl
    have hcopy := hinert (r := { target, operation := .copy target m (some access) }) ⟨rfl, rfl, rfl, rfl⟩
    exact (hcopy.seq fun _ => .done (.ok _)).seq fun _ => .done (.ok _)
  | list bucket start => exact settled (.send _) fun _ => rfl
  | link request => exact settled (.done (link_agree request)) fun _ => rfl
  | linkFromNow target method => exact settled (linkFromNow_alike target method) fun _ => rfl
  | initiate target m access =>
    refine settled ((hinert ⟨rfl, rfl, rfl, rfl⟩).seq fun response => ?_) fun _ => rfl
    cases response.payload <;> exact .done (.ok _)

/-! ## Sequences of operations -/

/-- An operation with its result. -/
structure Answer where
  call : ClientCall
  result : Except Error call.Result

/-- Does one operation after the other, whatever their results are. -/
def performAll (c : Client) : List ClientCall → Program StorageInterface (List Answer)
  | [] => .done []
  | a :: rest => do
    let result ← a.perform c
    let answers ← performAll c rest
    return ⟨a, result⟩ :: answers

/-- Every operation was answered twice, and no two of its answers can be told
apart. -/
inductive AllAgree : List ClientCall → List Answer → List Answer → Prop
  | nil : AllAgree [] [] []
  | cons {a : ClientCall} {x y : Except Error a.Result} {calls : List ClientCall} {xs ys : List Answer}
      (h : a.Agrees x y) (hs : AllAgree calls xs ys) : AllAgree (a :: calls) (⟨a, x⟩ :: xs) (⟨a, y⟩ :: ys)

theorem performAll_alike (hc : c.Plain) {calls : List ClientCall} (hcalls : ∀ a ∈ calls, a.Steady) :
    Alike (AllAgree calls) (performAll c calls) (performAll c.bare calls) := by
  induction calls with
  | nil => exact .done .nil
  | cons a rest ih =>
    refine (perform_alike hc (hcalls a List.mem_cons_self)).bind fun x y h => ?_
    refine (ih fun b hb => hcalls b (List.mem_cons_of_mem _ hb)).bind fun xs ys hs => ?_
    exact .done (.cons h hs)

/-- A store that calls have made of an empty one holds objects and parts whose
ETags are those of their contents, and a call that fails leaves it as it was.
Over such a store filters that log and compare checksums do not show, however
many there are: no checksum is refused, and every sequence of operations has
the results, and leaves the store, that it has without filters. -/
theorem performAll_transparent {w v : World Storage} (hw : w.state.Reachable) (hsame : v.state = w.state)
    (hc : ∀ f ∈ c.filters, f.isCodec = false) {calls : List ClientCall}
    (hcalls : ∀ a ∈ calls, a.Steady) :
    let filtered := (performAll c calls).run Storage.serve w
    let plain := (performAll c.bare calls).run Storage.serve v
    w.state.Consistent ∧
    (∀ call e, (Storage.serve call w.state).1 = .error e → (Storage.serve call w.state).2 = w.state) ∧
    AllAgree calls filtered.1 plain.1 ∧ filtered.2.state = plain.2.state := by
  obtain ⟨hagree, hstate⟩ := performAll_alike hc hcalls w v hw hsame
  exact ⟨hw.consistent, fun _ _ => Storage.serve_error, hagree, hstate⟩

def putCopyRead : List ClientCall :=
  [.put (Put.make ⟨"bucket", "first"⟩ (some (.bytes [1, 2, 3])) none none none),
    .copy ⟨"bucket", "first"⟩ ⟨"bucket", "second"⟩ none none,
    .get ⟨"bucket", "second"⟩ none, .read ⟨"bucket", "first"⟩]

/-- Two filters that compare checksums, around one that logs. -/
theorem performAll_transparent_stacked :
    AllAgree putCopyRead
      ((performAll { filters := [.checksum, .logging, .checksum] } putCopyRead).run Storage.serve
        { entropy := Entropy.ofSeed "", state := {} }).1
      ((performAll { filters := [] } putCopyRead).run Storage.serve
        { entropy := Entropy.ofSeed "", state := {} }).1 := by
  have hsteady : ∀ a ∈ putCopyRead, a.Steady := by
    have hput : (ClientCall.put (Put.make ⟨"bucket", "first"⟩ (some (.bytes [1, 2, 3]))
        none none none)).Steady := by
      rintro _ ⟨⟩
      exact (Stream.holds_ofBytes [1, 2, 3]).steady
    intro a ha
    simp only [putCopyRead, List.mem_cons, List.not_mem_nil, or_false] at ha
    obtain rfl | rfl | rfl | rfl := ha
    · exact hput
    all_goals nofun
  exact (performAll_transparent (c := { filters := [.checksum, .logging, .checksum] })
    (w := { entropy := Entropy.ofSeed "", state := {} }) (v := { entropy := Entropy.ofSeed "", state := {} })
    .empty rfl (by decide) hsteady).2.2.1

end ClientCall

end SealedStore
