import SealedStore.Proofs.Operations
import SealedStore.Proofs.Stamps
/-!
# Programs that cannot tell stamps apart

A program resembles another one on some objects if both draw the same bytes and
log the same events, make the same calls in the same order, and stay among
these objects with them, as long as the replies to both are alike but for
stamps. Encrypted writes and rekeyings resemble themselves on their object and
its temporary sibling, whatever the keys and the filters are: the time that
rekeying has read goes into a copy, which does not keep it.

What is proved:
  1. `Resembles.bind`, `Resembles.attempt` — programs taken apart.
  2. `Filter.resembling_through` — filters keep what resembles.
  3. `Resembles.travel` — detours.
  4. `EncryptingClient.resembles_put`, `EncryptingClient.resembles_rekey`.
-/

namespace SealedStore

open Program (Only)

/-- Two programs go on alike among the objects at some addresses, and end with
results of which `R` holds. -/
inductive Resembles {α β : Type} (F : Identity → Prop) (R : α → β → Prop) :
    Program StorageInterface α → Program StorageInterface β → Prop
  | done {a : α} {b : β} (h : R a b) : Resembles F R (.done a) (.done b)
  | draw {kind : Draw} {size : Nat} {next : Bytes → Program StorageInterface α}
      {next' : Bytes → Program StorageInterface β} (h : ∀ bytes, Resembles F R (next bytes) (next' bytes)) :
      Resembles F R (.draw kind size next) (.draw kind size next')
  | log {event : LogEvent} {next : Program StorageInterface α} {next' : Program StorageInterface β}
      (h : Resembles F R next next') : Resembles F R (.log event next) (.log event next')
  | call {c : StorageCall} {next : Except Error c.Result → Program StorageInterface α}
      {next' : Except Error c.Result → Program StorageInterface β} (hc : c.Within F)
      (h : ∀ r r', Matches c.unstamp r r' → Resembles F R (next r) (next' r')) :
      Resembles F R (.call c next) (.call c next')
  | copy {source target : Identity} {metadata metadata' : Option Metadata} {acl : Option AccessList}
      {next : Except Error StoredObject → Program StorageInterface α}
      {next' : Except Error StoredObject → Program StorageInterface β} (hsource : F source) (htarget : F target)
      (hmetadata : metadata.map Metadata.unstamped = metadata'.map Metadata.unstamped)
      (h : ∀ r r', Matches StoredObject.unstamped r r' → Resembles F R (next r) (next' r')) :
      Resembles F R (.call (.copy source target metadata acl) next) (.call (.copy source target metadata' acl) next')

namespace Resembles
variable {α β γ δ : Type} {F : Identity → Prop} {R : α → β → Prop} {S : γ → δ → Prop}

theorem bind {p : Program StorageInterface α} {q : Program StorageInterface β}
    {f : α → Program StorageInterface γ} {g : β → Program StorageInterface δ} (h : Resembles F R p q)
    (hf : ∀ a b, R a b → Resembles F S (f a) (g b)) : Resembles F S (p >>= f) (q >>= g) := by
  induction h with
  | done h => exact hf _ _ h
  | draw _ ih => exact .draw ih
  | log _ ih => exact .log ih
  | call hc _ ih => exact .call hc ih
  | copy hsource htarget hmetadata _ ih => exact .copy hsource htarget hmetadata ih

theorem mono {p : Program StorageInterface α} {q : Program StorageInterface β} {R' : α → β → Prop}
    (h : Resembles F R p q) (hi : ∀ a b, R a b → R' a b) : Resembles F R' p q := by
  rw [← Program.bind_done p, ← Program.bind_done q]
  exact h.bind fun a b hab => .done (hi a b hab)

/-- A program that makes no calls does not depend on the store. -/
theorem of_only {p : Program StorageInterface α} (h : Only (fun _ => False) p) : Resembles F Eq p p := by
  induction p with
  | done a => exact .done rfl
  | draw kind size next ih => exact .draw fun bytes => ih bytes (h bytes)
  | log event next ih => exact .log (ih h)
  | call c next ih => exact h.1.elim

/-! ## Programs that may fail -/

section
variable {p q : StorageTask α} {f : α → γ}

theorem attempt {ε : Type} {R : Except Error β → Except Error ε → Prop} {k : α → StorageTask β}
    {k' : α → StorageTask ε} (h : Resembles F (Matches f) p.run q.run)
    (hk : ∀ a b, f a = f b → Resembles F R (k a).run (k' b).run) (he : ∀ e, R (.error e) (.error e)) :
    Resembles F R (p >>= k).run (q >>= k').run := by
  rw [ExceptT.run_bind, ExceptT.run_bind]
  refine h.bind fun x y hxy => ?_
  obtain ⟨e, rfl, rfl⟩ | ⟨a, b, rfl, rfl, hab⟩ := hxy.eq_or
  · exact .done (he e)
  · exact hk a b hab

theorem map {ε : Type} {g : α → β} {k : β → ε} (h : Resembles F (Matches f) p.run q.run)
    (hg : ∀ a b, f a = f b → k (g a) = k (g b)) :
    Resembles F (Matches k) (p >>= fun a => pure (g a)).run (q >>= fun a => pure (g a)).run :=
  h.attempt (fun a b hab => .done (.ok (hg a b hab))) fun e => .error e

end

theorem of_only_attempt {p : StorageTask α} (h : Only (fun _ => False) p.run) :
    Resembles F (Matches id) p.run p.run := (of_only h).mono fun _ _ hxy => congrArg (Except.map id) hxy

theorem always {ε : Type} {p q : Program StorageInterface α} {f : α → ε}
    (h : Resembles F (fun a b => f a = f b) p q) :
    Resembles F (Matches f) (Attempt.always p).run (Attempt.always q).run :=
  h.bind fun _ _ hab => .done (.ok hab)

theorem send {c : StorageCall} (hc : c.Within F) : Resembles F (Matches c.unstamp) c.send.run c.send.run :=
  .call hc fun _ _ h => .done h

end Resembles

/-! ## Requests without content -/

namespace Storage
variable {F : Identity → Prop} {source target : Identity}

theorem shown_unstamped {a b : StoredObject} (h : a.unstamped = b.unstamped) :
    (shown a).unstamped = (shown b).unstamped := by
  have hshown : ∀ object : StoredObject, (shown object).unstamped = shown object.unstamped := fun _ => rfl
  rw [hshown, hshown, h]

theorem resembles_head (h : F target) :
    Resembles F (Matches Response.unstamped) (carryOutWith target [] .head).run (carryOutWith target [] .head).run :=
  (Resembles.send (c := .get target) h).map fun _ _ => shown_unstamped

theorem resembles_acl (h : F target) :
    Resembles F (Matches Response.unstamped) (carryOutWith target [] .acl).run (carryOutWith target [] .acl).run :=
  (Resembles.send (c := .acl target) h).map fun _ _ hab =>
    congrArg (fun acl => Response.unstamped { payload := .acl acl }) hab

theorem resembles_delete (h : F target) :
    Resembles F (Matches Response.unstamped) (carryOutWith target [] .delete).run
      (carryOutWith target [] .delete).run :=
  (Resembles.send (c := .delete target) h).map fun _ _ _ => rfl

theorem resembles_copy {metadata metadata' : Option Metadata} (hsource : F source) (htarget : F target)
    (hmetadata : metadata.map Metadata.unstamped = metadata'.map Metadata.unstamped) (acl : Option AccessList) :
    Resembles F (Matches Response.unstamped) (carryOutWith target [] (.copy source metadata acl)).run
      (carryOutWith target [] (.copy source metadata' acl)).run := by
  have hsend : Resembles F (Matches StoredObject.unstamped) (StorageCall.copy source target metadata acl).send.run
      (StorageCall.copy source target metadata' acl).send.run :=
    .copy hsource htarget hmetadata fun _ _ h => .done h
  exact hsend.map fun _ _ => shown_unstamped

end Storage

/-- Filters that pass a request on log the same answer. -/
theorem Resembles.passing {F : Identity → Prop} {p q : Program StorageInterface (Except Error Response)}
    {r r' : Request} (hmethod : r.method = r'.method) (htarget : r.target = r'.target)
    (h : Resembles F (Matches Response.unstamped) p q) (filters : List Filter) :
    Resembles F (Matches Response.unstamped) (filters.foldr (Filter.passing r) p)
      (filters.foldr (Filter.passing r') q) := by
  induction filters with
  | nil => exact h
  | cons f rest ih =>
    cases f with
    | logging =>
      refine ih.bind fun x y hxy => ?_
      obtain ⟨e, rfl, rfl⟩ | ⟨a, b, rfl, rfl, hab⟩ := hxy.eq_or
      · exact .done (.error e)
      · have hstatus : a.status = b.status := (congrArg Response.status hab :)
        dsimp only
        rw [hmethod, htarget, hstatus]
        exact .log (.done (.ok hab))
    | checksum | codec => exact ih

namespace Client
variable {F : Identity → Prop} {source target : Identity}

theorem resembles_execute {r r' : Request} (c : Client) (hr : r.Inert) (hr' : r'.Inert)
    (hmethod : r.method = r'.method) (htarget : r.target = r'.target)
    (h : Resembles F (Matches Response.unstamped) (Storage.carryOutWith r.target [] r.operation).run
      (Storage.carryOutWith r'.target [] r'.operation).run) :
    Resembles F (Matches Response.unstamped) (c.execute r).run (c.execute r').run := by
  rw [execute_inert hr, execute_inert hr']
  exact h.passing hmethod htarget c.filters

theorem resembles_metadata (c : Client) (h : F target) :
    Resembles F (Matches Metadata.unstamped) (c.metadata target).run (c.metadata target).run := by
  refine (c.resembles_execute ⟨rfl, rfl, rfl, rfl⟩ ⟨rfl, rfl, rfl, rfl⟩ rfl rfl
    (Storage.resembles_head h)).map fun a b hab => ?_
  have hmetadata : a.metadata.map Metadata.unstamped = b.metadata.map Metadata.unstamped :=
    (congrArg Response.metadata hab :)
  have hgetD : ∀ m : Option Metadata, (m.getD {}).unstamped = (m.map Metadata.unstamped).getD {} := by
    intro m
    cases m <;> rfl
  rw [hgetD, hgetD, hmetadata]

theorem resembles_acl (c : Client) (h : F target) :
    Resembles F (Matches id) (c.acl target).run (c.acl target).run := by
  refine (c.resembles_execute ⟨rfl, rfl, rfl, rfl⟩ ⟨rfl, rfl, rfl, rfl⟩ rfl rfl
    (Storage.resembles_acl h)).attempt (fun a b hab => ?_) fun e => .error e
  have hpayload : a.payload = b.payload := (congrArg Response.payload hab :)
  rw [hpayload]
  cases b.payload <;> exact .done rfl

theorem resembles_delete (c : Client) (h : F target) :
    Resembles F (Matches id) (c.delete target).run (c.delete target).run :=
  (c.resembles_execute ⟨rfl, rfl, rfl, rfl⟩ ⟨rfl, rfl, rfl, rfl⟩ rfl rfl
    (Storage.resembles_delete h)).map fun _ _ _ => rfl

theorem resembles_copy (c : Client) {metadata metadata' : Option Metadata} (hsource : F source) (htarget : F target)
    (hmetadata : metadata.map Metadata.unstamped = metadata'.map Metadata.unstamped) (acl : Option AccessList) :
    Resembles F (Matches WriteResult.unstamped) (c.copy source target metadata acl).run
      (c.copy source target metadata' acl).run := by
  let r (m : Option Metadata) : Request := { target, operation := .copy source m acl }
  have hinert : ∀ m, (r m).Inert := fun _ => ⟨rfl, rfl, rfl, rfl⟩
  refine (c.resembles_execute (hinert metadata) (hinert metadata') rfl rfl
    (Storage.resembles_copy hsource htarget hmetadata acl)).map fun a b hab => ?_
  have hwritten : ∀ response : Response, WriteResult.unstamped { written response with
      copiedAt := response.metadata.bind Metadata.lastModified } = written response.unstamped := fun _ => rfl
  rw [hwritten, hwritten, hab]

end Client

/-! ## Handlers -/

/-- Answers that are one but for stamps, with the same request. -/
def Answered (out out' : Except Error Response × Request) : Prop :=
  Matches Response.unstamped out.1 out'.1 ∧ out.2 = out'.2

/-- A handler treats every request with a target and an operation so that it
resembles itself. -/
def Handler.Resembling (F : Identity → Prop) (target : Identity) (operation : Operation)
    (h : Handler StorageInterface) : Prop :=
  ∀ r : Request, r.target = target → r.operation = operation → Resembles F Answered (h r) (h r)

theorem Handler.resembling_carryOut {F : Identity → Prop} {target : Identity} (h : F target)
    (metadata : Option Metadata) (acl : Option AccessList) :
    Handler.Resembling F target (.put metadata acl none) Storage.carryOut := by
  have hput : ∀ content : Bytes, Resembles F (Matches Response.unstamped)
      (Storage.carryOutWith target content (.put metadata acl none)).run
      (Storage.carryOutWith target content (.put metadata acl none)).run := fun content =>
    (Resembles.send (c := .put target content metadata acl none) h).map fun _ _ => Storage.shown_unstamped
  rintro r rfl hop
  obtain ⟨content, back, hread, htarget, hback⟩ : ∃ content back, Storage.readEntity r = (content, back) ∧
      back.target = r.target ∧ back.operation = r.operation := by
    -- Reading the entity changes neither the target nor the operation.
    unfold Storage.readEntity
    split <;> exact ⟨_, _, rfl, rfl, rfl⟩
  simp only [Storage.carryOut, hread, htarget, hback, hop]
  cases content with
  | error e => exact .done ⟨Matches.error e, rfl⟩
  | ok content => exact (hput content).bind fun x y hxy => .done ⟨hxy, rfl⟩

namespace Filter
variable {F : Identity → Prop} {target : Identity} {operation : Operation} {next : Handler StorageInterface}

theorem resembling_log (h : Handler.Resembling F target operation next) :
    Handler.Resembling F target operation (log next) := by
  intro r htarget hop
  refine (h r htarget hop).bind ?_
  rintro ⟨x, back⟩ ⟨y, _⟩ ⟨hxy, rfl⟩
  obtain ⟨e, rfl, rfl⟩ | ⟨a, b, rfl, rfl, hab⟩ := hxy.eq_or
  · exact .done ⟨.error e, rfl⟩
  · have hstatus : a.status = b.status := (congrArg Response.status hab :)
    dsimp only
    rw [hstatus]
    exact .log (.done ⟨.ok hab, rfl⟩)

theorem resembling_checkDigests (h : Handler.Resembling F target operation next) :
    Handler.Resembling F target operation (checkDigests next) := by
  intro r htarget hop
  unfold checkDigests
  split
  · refine (h { r with entity := some _ } htarget hop).bind ?_
    rintro ⟨x, back⟩ ⟨y, _⟩ ⟨hxy, rfl⟩
    obtain ⟨e, rfl, rfl⟩ | ⟨a, b, rfl, rfl, hab⟩ := hxy.eq_or
    · exact .done ⟨.error e, rfl⟩
    · have hetag : a.etag = b.etag := (congrArg Response.etag hab :)
      dsimp only
      rw [hetag]
      split
      · -- Of an answer the checks look at the digest alone, which is no stamp.
        exact .done ⟨.ok hab, rfl⟩
      · split
        · exact .done ⟨.error _, rfl⟩
        · exact .done ⟨.ok hab, rfl⟩
  · refine (h r htarget hop).bind ?_
    rintro ⟨x, back⟩ ⟨y, _⟩ ⟨hxy, rfl⟩
    dsimp only
    split
    · refine .done ⟨hxy.map fun a b hab => ?_, rfl⟩
      rw [← verifyRead_unstamped, ← verifyRead_unstamped, hab]
    · exact .done ⟨hxy, rfl⟩

theorem resembling_encrypt (e : Encryption) (h : Handler.Resembling F target operation next) :
    Handler.Resembling F target operation (encrypt e next) := by
  intro r htarget hop
  unfold encrypt
  split
  · exact .done ⟨.error _, rfl⟩
  · refine (Resembles.of_only (e.only_encode _)).bind ?_
    rintro encoded _ rfl
    cases encoded with
    | error fault => exact .done ⟨.error fault, rfl⟩
    | ok stream =>
      refine (h { r with entity := some stream, contentLength := _ } htarget hop).bind ?_
      rintro ⟨x, back⟩ ⟨y, _⟩ ⟨hxy, rfl⟩
      obtain ⟨fault, rfl, rfl⟩ | ⟨a, b, rfl, rfl, hab⟩ := hxy.eq_or
      · exact .done ⟨.error fault, rfl⟩
      · dsimp only
        split
        · exact .done ⟨.error _, rfl⟩
        · next envelope _ =>
          let marked (response : Response) : Response := { response with encoded := some envelope.toUserMetadata }
          refine .log (.done ⟨.ok ?_, rfl⟩)
          show marked a.unstamped = marked b.unstamped
          rw [hab]

theorem resembling_transcode (e : Encryption) (h : Handler.Resembling F target operation next) :
    Handler.Resembling F target operation (transcode e next) := by
  intro r htarget hop
  unfold transcode
  split
  · exact resembling_encrypt e h r htarget hop
  · refine (h r htarget hop).bind ?_
    rintro ⟨x, back⟩ ⟨y, _⟩ ⟨hxy, rfl⟩
    dsimp only
    split
    · refine .done ⟨hxy.bind fun a b hab => ?_, rfl⟩
      show (decrypt e a).map Response.unstamped = (decrypt e b).map Response.unstamped
      rw [← decrypt_unstamped, ← decrypt_unstamped, hab]
    · exact .done ⟨hxy, rfl⟩

/-- What resembles itself still does behind any filters. -/
theorem resembling_through (h : Handler.Resembling F target operation next) (filters : List Filter) :
    Handler.Resembling F target operation (through filters next) := by
  induction filters with
  | nil => exact h
  | cons f rest ih =>
    cases f with
    | logging => exact resembling_log ih
    | checksum => exact resembling_checkDigests ih
    | codec e => exact resembling_transcode e ih

end Filter

/-! ## Detours -/

/-- Two outcomes are one but for stamps, those in an error too, and for what `f`
takes away. -/
def SameOutcome {α γ : Type} (f : α → γ) (x y : Except Error α) : Prop :=
  (x.mapError Error.unstamped).map f = (y.mapError Error.unstamped).map f

namespace Detour
variable {α β γ δ : Type} {F : Identity → Prop} {f : α → γ} {d : Detour WriteResult}
  {delete : Identity → StorageTask Unit}

def SameEnd (f : α → γ) (d : Detour WriteResult)
    (out out' : Except (DetourFailure WriteResult) α × Detour WriteResult) : Prop :=
  SameOutcome f (out.1.mapError (·.toError d.target d.temp)) (out'.1.mapError (·.toError d.target d.temp))

theorem resembles_conclude_failed (d' : Detour WriteResult)
    (h : Resembles F (Matches id) (delete d'.temp).run (delete d'.temp).run) (e : Error) :
    Resembles F (SameEnd f d) (conclude delete d' (.error e)) (conclude delete d' (.error e)) := by
  refine h.bind fun x y hxy => ?_
  obtain ⟨cause, rfl, rfl⟩ | ⟨a, b, rfl, rfl, hab⟩ := hxy.eq_or
  · exact .log (.done rfl)
  · exact .done rfl

theorem resembles_conclude_published {result result' : WriteResult} {a b : α}
    (h : Resembles F (Matches id) (delete d.temp).run (delete d.temp).run)
    (hresult : result.unstamped = result'.unstamped) (hab : f a = f b) :
    Resembles F (SameEnd f d) (conclude delete { d with phase := .published result } (.ok a))
      (conclude delete { d with phase := .published result' } (.ok b)) := by
  refine h.bind fun x y hxy => ?_
  obtain ⟨cause, rfl, rfl⟩ | ⟨_, _, rfl, rfl, -⟩ := hxy.eq_or
  · refine .log (.done ?_)
    have horphaned : ∀ r : WriteResult, Error.unstamped (DetourFailure.toError d.target d.temp (.orphaned r cause)) =
        .orphanedTemp d.target d.temp r.unstamped cause := fun _ => rfl
    show Except.error (Error.unstamped _) = Except.error (Error.unstamped _)
    rw [horphaned, horphaned, hresult]
  · exact .log (.done (congrArg Except.ok hab))

/-- A detour resembles another one if their parts do. -/
theorem resembles_travel {write write' : StorageTask β} {publish publish' : StorageTask WriteResult}
    {g : β → δ} (finish finish' : WriteResult → α) (hd : d.phase = .started)
    (hwrite : Resembles F (Matches g) write.run write'.run)
    (hpublish : Resembles F (Matches WriteResult.unstamped) publish.run publish'.run)
    (hdelete : Resembles F (Matches id) (delete d.temp).run (delete d.temp).run)
    (hfinish : ∀ a b, a.unstamped = b.unstamped → f (finish a) = f (finish' b)) :
    Resembles F (SameEnd f d)
      (travel delete d do
        let _ ← attempt write
        written
        let result ← attempt publish
        published result
        return finish result)
      (travel delete d do
        let _ ← attempt write'
        written
        let result ← attempt publish'
        published result
        return finish' result) := by
  rw [travel_eq hd, travel_eq hd]
  refine hwrite.bind fun x y hxy => ?_
  -- After each step both fail with one error, or both go on.
  obtain ⟨e, rfl, rfl⟩ | ⟨_, _, rfl, rfl, -⟩ := hxy.eq_or
  · exact resembles_conclude_failed d hdelete e
  · refine .log (hpublish.bind fun x y hxy => ?_)
    obtain ⟨e, rfl, rfl⟩ | ⟨a, b, rfl, rfl, hab⟩ := hxy.eq_or
    · exact resembles_conclude_failed { d with phase := .written } hdelete e
    · exact .log (resembles_conclude_published hdelete hab (hfinish a b hab))

end Detour

/-- A detour that copies an object onto itself, under metadata that may have
been read before. -/
theorem Client.resembles_travel_copies {F : Identity → Prop} {d : Detour WriteResult}
    {metadata metadata' : Option Metadata} (c : Client) (hd : d.phase = .started) (htarget : F d.target)
    (htemp : F d.temp) (hmetadata : metadata.map Metadata.unstamped = metadata'.map Metadata.unstamped)
    (acl : Option AccessList) :
    Resembles F (Detour.SameEnd id d)
      (Detour.travel c.delete d do
        let _ ← Detour.attempt (c.copy d.target d.temp none none)
        Detour.written
        Detour.published (← Detour.attempt (c.copy d.temp d.target metadata acl)))
      (Detour.travel c.delete d do
        let _ ← Detour.attempt (c.copy d.target d.temp none none)
        Detour.written
        Detour.published (← Detour.attempt (c.copy d.temp d.target metadata' acl))) := by
  have hcopy : Resembles F (Matches WriteResult.unstamped) (c.copy d.target d.temp none none).run
      (c.copy d.target d.temp none none).run := c.resembles_copy htarget htemp rfl none
  have htravel := Detour.resembles_travel (f := id) (fun _ => ()) (fun _ => ()) hd hcopy
    (c.resembles_copy htemp htarget hmetadata acl) (c.resembles_delete htemp) fun _ _ _ => rfl
  simpa only [bind_pure_unit] using htravel

/-! ## Clients -/

namespace EncryptingClient
variable {F : Identity → Prop}

/-- A write does the same whatever is stamped, on its object and the temporary
one, and leaves the same of what was to be written. -/
theorem resembles_put (c : EncryptingClient) (p : Put) (htarget : F p.target)
    (htemp : F (p.target.withSuffix c.encryption.tempSuffix)) :
    Resembles F (fun out out' => SameOutcome WriteResult.unstamped out.1 out'.1 ∧ out.2 = out'.2)
      (c.put p) (c.put p) := by
  let temp := p.target.withSuffix c.encryption.tempSuffix
  unfold put
  cases p.range.isSome with
  | true => exact .done ⟨rfl, rfl⟩
  | false =>
    rw [if_neg (by decide)]
    have hhandle : Handler.Resembling F temp (.put (some (p.metadata.getD {})) none none) c.base.handle :=
      Filter.resembling_through (Handler.resembling_carryOut htemp _ _) c.base.filters
    refine (hhandle (tempRequest p temp (p.metadata.getD {})) rfl rfl).bind ?_
    rintro ⟨stored, sent⟩ ⟨stored', _⟩ ⟨hstored, rfl⟩
    have hwrite : Resembles F (Matches Response.unstamped) (Attempt.of stored : StorageTask Response).run
        (Attempt.of stored' : StorageTask Response).run := .done hstored
    refine (Detour.resembles_travel (f := WriteResult.unstamped) (d := Detour.start p.target c.encryption.tempSuffix)
      _ _ rfl hwrite (c.base.resembles_copy htemp htarget rfl _) (c.base.resembles_delete htemp) ?_).bind ?_
    · intro a b hab
      have hetag : a.etag = b.etag := (congrArg WriteResult.etag hab :)
      simp only [WriteResult.unstamped, hetag]
    · rintro ⟨result, _⟩ ⟨result', _⟩ hend
      exact .done ⟨hend, rfl⟩

theorem resembles_rekey (c : EncryptingClient) (target : Identity) (htarget : F target)
    (htemp : F (target.withSuffix c.encryption.tempSuffix)) :
    Resembles F (SameOutcome id) (c.rekey target).run (c.rekey target).run := by
  unfold rekey
  refine (c.base.resembles_metadata htarget).attempt (fun m m' hm => ?_) fun e => rfl
  have huser : m.user = m'.user := (congrArg Metadata.user hm :)
  have htype : m.contentType = m'.contentType := (congrArg Metadata.contentType hm :)
  dsimp only
  rw [huser]
  refine (Resembles.of_only_attempt (p := Attempt.of _) trivial).attempt ?_ fun e => rfl
  rintro oldKeyId _ (rfl : oldKeyId = _)
  -- The entries are drawn from what is stored, so they are the same in both.
  refine (Resembles.of_only_attempt (c.only_rekeyEntries target m'.user)).attempt ?_ fun e => rfl
  rintro entries _ (rfl : entries = _)
  cases entries with
  | none => exact .log (.done rfl)
  | some entries =>
    refine (c.base.resembles_acl htarget).attempt ?_ fun e => rfl
    rintro acl _ (rfl : acl = _)
    have hmerged : ∀ m : Metadata, Metadata.unstamped { m with user := m'.user.merge entries } =
        { m.unstamped with user := m'.user.merge entries } := fun _ => rfl
    have hentries : (some { m with user := m'.user.merge entries }).map Metadata.unstamped =
        (some { m' with user := m'.user.merge entries }).map Metadata.unstamped := by
      rw [Option.map_some, Option.map_some, hmerged, hmerged, hm]
    let temp := target.withSuffix c.encryption.tempSuffix
    let failure (out : Except (DetourFailure WriteResult) Unit × Detour WriteResult) : Except Error Unit :=
      ((out.1.mapError (·.toError target temp)).mapError Error.unstamped).map id
    have htravel := c.base.resembles_travel_copies (d := Detour.start target c.encryption.tempSuffix)
      rfl htarget htemp hentries (some acl)
    refine (htravel.always (f := failure)).attempt ?_ fun e => rfl
    rintro ⟨result, _⟩ ⟨result', _⟩ hend
    cases result with
    | error failure =>
      -- One cannot fail where the other does not.
      cases result' with
      | error failure' => exact .done (congrArg Except.error (Except.error.inj hend))
      | ok => cases hend
    | ok =>
      cases result' with
      | error failure' => cases hend
      | ok => exact .log (.done rfl)

end EncryptingClient

end SealedStore
