import SealedStore.Proofs.Opening
import SealedStore.Proofs.Rekeying
/-!
# Interference

A store may be shared by clients that know nothing of each other, and no call
of one keeps the others out. Rekeying looks an object up, later copies whatever
is at its place to a temporary one, and publishes that under the entries it
looked up first, with the key wrapped anew. What becomes of a write that another
client makes meanwhile depends on how many of these calls were made before it.

What is proved:
  1. `Program.Ensures.interrupted`, `Program.Ensures.resumed` — programs amid
     whose calls another one runs.
  2. `EncryptingClient.rekey_interrupted_early`, `rekey_interrupted_between`,
     `rekey_interrupted_late` — rekeying amid whose calls anything may run.
  3. `EncryptingClient.rekey_meets_put` — which writes are kept.
-/

namespace SealedStore

open Program (Ensures)

/-- The world over another state. -/
def World.over {σ τ : Type} (f : σ → τ) (w : World σ) : World τ :=
  { entropy := w.entropy, secrets := w.secrets, fillers := w.fillers, log := w.log, state := f w.state }

/-! ## One program amid the calls of another -/

namespace Program
variable {I : Interface} {α β σ τ : Type} {serve : Service I σ} {p : Program I β}

/-- What two programs share. Either the second has still to run, once the first
has made so many calls more; then the second has random bytes and a log of its
own. Or the second has ended. -/
inductive Shared (σ β : Type) where
  | before (calls : Nat) (w : World σ)
  | after (result : β) (s : σ)

/-- A service amid whose calls a second program runs as a whole. -/
def interrupted (serve : Service I σ) (p : Program I β) : Service I (Shared σ β)
  | c, .before 0 w =>
    let (b, w) := p.run serve w
    ((serve c w.state).1, .after b (serve c w.state).2)
  | c, .before (n + 1) w => ((serve c w.state).1, .before n { w with state := (serve c w.state).2 })
  | c, .after b s => ((serve c s).1, .after b (serve c s).2)

/-- A program runs alike over states of which one is a picture of the other. -/
theorem run_over {f : σ → τ} {served : Service I τ}
    (hf : ∀ c s, served c (f s) = ((serve c s).1, f (serve c s).2)) (q : Program I α) (w : World σ) :
    q.run served (w.over f) = ((q.run serve w).1, (q.run serve w).2.over f) := by
  -- The two worlds differ in their states only, whatever the program does.
  induction q generalizing w with
  | done a => rfl
  | draw kind size next ih =>
    have hbytes : (w.over f).nextBytes kind size = w.nextBytes kind size := by cases kind <;> rfl
    have hworld : (w.over f).afterDraw kind = (w.afterDraw kind).over f := by cases kind <;> rfl
    rw [run_draw, run_draw, hbytes, hworld, ih]
  | log event next ih => exact ih (w.reported event)
  | call c next ih =>
    have hserved : served c (w.over f).state = ((serve c w.state).1, f (serve c w.state).2) := hf c w.state
    rw [run_call, run_call, hserved]
    exact ih _ { w with state := (serve c w.state).2 }

theorem Ensures.resumed {q : Program I α} {b : β} {s : σ} {Q : α → σ → Prop} (h : Ensures serve q s Q)
    {R : α → Shared σ β → Prop} (hi : ∀ a t, Q a t → R a (.after b t)) :
    Ensures (Program.interrupted serve p) q (.after b s) R := by
  intro w hw
  let alone : World σ := w.over fun _ => s
  have hworld : w = alone.over (.after b) := by
    obtain ⟨entropy, secrets, fillers, log, state⟩ := w
    obtain rfl : state = .after b s := hw
    rfl
  rw [hworld, run_over fun _ _ => rfl]
  exact hi _ _ (h alone rfl)

theorem Ensures.interrupted {w : World σ} {P : β → σ → Prop} (hp : Ensures serve p w.state P) {c : I.Call}
    {next : I.Reply c → Program I α} {R : α → Shared σ β → Prop}
    (h : ∀ b t, P b t → Ensures (Program.interrupted serve p) (.call c next) (.after b t) R) :
    Ensures (Program.interrupted serve p) (.call c next) (.before 0 w) R := by
  have hresumed := h _ _ (hp w rfl)
  intro v hv
  rw [run_call, hv]
  exact hresumed { v with state := .after (p.run serve w).1 (p.run serve w).2.state } rfl

end Program

open Program (Shared interrupted)

section
variable {β : Type} {p : Program StorageInterface β} {v : World Storage}

theorem StorageCall.sends_before {n : Nat} {c : StorageCall}
    {R : Except Error c.Result → Shared Storage β → Prop}
    (h : R (Storage.serve c v.state).1 (.before n { v with state := (Storage.serve c v.state).2 })) :
    Ensures (interrupted Storage.serve p) c.send.run (.before (n + 1) v) R := StorageCall.send_ensures h

theorem StorageCall.sends_after {b : β} {s : Storage} {c : StorageCall}
    {R : Except Error c.Result → Shared Storage β → Prop}
    (h : R (Storage.serve c s).1 (.after b (Storage.serve c s).2)) :
    Ensures (interrupted Storage.serve p) c.send.run (.after b s) R := StorageCall.send_ensures h

/-- A detour that is not interrupted any more. -/
theorem Detour.Ends.resumed {α ρ : Type} {write : StorageTask α} {publish : StorageTask ρ}
    {delete : StorageTask Unit} {b : β} {s : Storage} {Q : Except (DetourFailure ρ) ρ → Storage → Prop}
    {R : Except (DetourFailure ρ) ρ → Shared Storage β → Prop}
    (h : Ends Storage.serve write publish delete Q s) (hi : ∀ r t, Q r t → R r (.after b t)) :
    Ends (interrupted Storage.serve p) write publish delete R (.after b s) := by
  refine Ensures.resumed h ?_
  intro wrote t ht
  cases wrote with
  | error e => exact ht.resumed fun _ u hu => hi _ u hu
  | ok a =>
    refine Ensures.resumed ht ?_
    intro done u hu
    cases done with
    | error e => exact hu.resumed fun _ v hv => hi _ v hv
    | ok result =>
      refine Ensures.resumed hu ?_
      intro deleted v hv
      cases deleted with
      | error cause => exact hi _ v hv
      | ok => exact hi _ v hv

theorem Detour.Ends.interrupted {ρ : Type} {c : StorageCall} {publish : StorageTask ρ}
    {delete : StorageTask Unit} {P : β → Storage → Prop} (hp : Ensures Storage.serve p v.state P)
    {R : Except (DetourFailure ρ) ρ → Shared Storage β → Prop}
    (h : ∀ b t, P b t → Ends (interrupted Storage.serve p) c.send publish delete R (.after b t)) :
    Ends (interrupted Storage.serve p) c.send publish delete R (.before 0 v) := Ensures.interrupted hp h

/-! ## Rekeying that is interrupted -/

/-- At the address there is the content of some object, with its ETag, under the
metadata that were looked up, with their key wrapped anew. -/
def Storage.Rewraps (s : Storage) (e : Encryption) (target : Identity) (looked : Metadata)
    (acl : AccessList) (dataKey : SecretKey) (source : StoredObject) : Prop :=
  ∃ object wrapped, s.objects.get? target = some object ∧ e.ring.current.unwrap wrapped = .ok dataKey ∧
    object.content = source.content ∧ object.acl = acl ∧
    object.metadata.etag = some (keptEtag source.content source.metadata.etag) ∧
    object.metadata.contentLength = some (source.content.length : Int) ∧
    object.metadata.contentType = looked.contentType ∧
    object.metadata.user = looked.user.merge (e.rekeyed wrapped)

namespace EncryptingClient
variable {c : EncryptingClient} {target : Identity} {object : StoredObject} {d : Decoder} {n : Nat}

theorem rekey_uninterrupted (hk : c.encryption.encryption.ring.current.Faithful)
    (hget : v.state.objects.get? target = some object)
    (hidle : Envelope.modeOf? object.metadata.user = none ∨
      ∃ d, c.encryption.encryption.decoder object.metadata.user = .ok d ∧
        d.envelope.masterKeyId = c.encryption.encryption.ring.current.keyId) :
    Ensures (interrupted Storage.serve p) (c.rekey target).run (.before (n + 1) v)
      fun _ u => u = .before n v := by
  refine rekey_ensures hk (StorageCall.sends_before ?_)
  rw [Storage.serve_get hget]
  obtain hplain | ⟨d, hd, hid⟩ := hidle
  · exact .inl ⟨hplain, rfl⟩
  · exact .inr ⟨d, hd, fun _ => rfl, fun _ _ => rfl, fun hother => absurd hid hother⟩

/-- Rekeying goes on after the look-up, unless the current master key refuses to
wrap. -/
theorem rekey_looked {R : Except Error RekeyResult → Shared Storage β → Prop}
    (hk : c.encryption.encryption.ring.current.Faithful) (hget : v.state.objects.get? target = some object)
    (hd : c.encryption.encryption.decoder object.metadata.user = .ok d)
    (hid : d.envelope.masterKeyId ≠ c.encryption.encryption.ring.current.keyId)
    (h : ∀ wrapped, c.encryption.encryption.ring.current.unwrap wrapped = .ok d.dataKey →
      let temp := target.withSuffix c.encryption.tempSuffix
      let current := c.encryption.encryption.ring.current.keyId
      let result := { target, rekeyed := true, oldKeyId := d.envelope.masterKeyId, newKeyId := current }
      Ensures (interrupted Storage.serve p) (StorageCall.acl target).send.run (.before n v) fun acl u =>
        match acl with
        | .error f => R (.error f) u
        | .ok acl => Detour.Ends (interrupted Storage.serve p) (StorageCall.copy target temp none none).send
          (StorageCall.copy temp target
            (some (rekeyedMetadata c.encryption.encryption object.metadata wrapped)) (some acl)).send
          (StorageCall.delete temp).send
          (fun r u => R (Client.concluded target temp (fun _ => result) r) u) u) :
    Ensures (interrupted Storage.serve p) (c.rekey target).run (.before (n + 1) v) fun r u =>
      (u = .before n v ∧ ¬c.encryption.encryption.ring.current.Dependable) ∨ R r u := by
  refine rekey_ensures hk (StorageCall.sends_before ?_)
  rw [Storage.serve_get hget]
  refine .inr ⟨d, hd, fun hcurrent => absurd hcurrent hid, fun hno _ => .inl ⟨rfl, hno⟩, ?_⟩
  intro _ wrapped hwrapped
  refine (h wrapped hwrapped).mono fun acl u hu => ?_
  cases acl with
  | error f => exact .inr hu
  | ok acl => exact hu.weaken fun r t hr => .inr hr

theorem rewraps_of_get? {e : Encryption} {s t : Storage} {source : StoredObject} {looked : Metadata}
    {acl : AccessList} {wrapped : Bytes} {dataKey : SecretKey} {etag : Option String}
    (hget : s.objects.get? target =
      some (t.objectOf source.content (rekeyedMetadata e looked wrapped) (some acl) etag))
    (hetag : Storage.keptEtag source.content etag = Storage.keptEtag source.content source.metadata.etag)
    (hwrapped : e.ring.current.unwrap wrapped = .ok dataKey) :
    s.Rewraps e target looked acl dataKey source :=
  ⟨_, wrapped, hget, hwrapped, rfl, rfl, congrArg some hetag, rfl, rfl, rfl⟩

/-- Whatever is at the place is published under the metadata that were looked up
before. -/
theorem copies_rewrap {e : Encryption} {temp : Identity} {s : Storage} {found : StoredObject} {wrapped : Bytes}
    (htemp : temp ≠ target) (hfound : s.objects.get? target = some found)
    (hwrapped : e.ring.current.unwrap wrapped = .ok d.dataKey) (acl : AccessList) :
    Detour.Ends Storage.serve (StorageCall.copy target temp none none).send
      (StorageCall.copy temp target (some (rekeyedMetadata e object.metadata wrapped)) (some acl)).send
      (StorageCall.delete temp).send (fun r t => (∃ published, r = .ok published) ∧
        t.Rewraps e target object.metadata acl d.dataKey found) s := by
  let first := s.objectOf found.content found.metadata none found.metadata.etag
  have hwrite : Ensures Storage.serve (StorageCall.copy target temp none none).send.run s
      fun r t => (∃ a, r = .ok a) ∧ t = s.withObject temp first := by
    refine StorageCall.send_ensures ?_
    rw [Storage.serve_copy hfound]
    exact ⟨⟨first, rfl⟩, rfl⟩
  refine Storage.detour_ends htemp hwrite ⟨⟨_, rfl⟩, ?_⟩
  exact rewraps_of_get? ((Table.get?_insert ..).trans (if_pos rfl)) (Storage.keptEtag_kept ..) hwrapped

/-- Copies of nothing fail, and leave what is there otherwise. -/
theorem copies_missing {temp : Identity} {s : Storage} (hmissing : s.objects.get? target = none)
    (metadata : Option Metadata) (acl : Option AccessList) :
    Detour.Ends Storage.serve (StorageCall.copy target temp none none).send
      (StorageCall.copy temp target metadata acl).send (StorageCall.delete temp).send
      (fun r t => r = .error (.failed (.notFound target)) ∧ t = s.delete temp) s := by
  refine StorageCall.send_ensures ?_
  rw [Storage.serve_copy_missing hmissing]
  exact StorageCall.send_ensures ⟨rfl, rfl⟩

variable (hk : c.encryption.encryption.ring.current.Faithful)
  (hget : v.state.objects.get? target = some object)
  (hd : c.encryption.encryption.decoder object.metadata.user = .ok d)
  (hid : d.envelope.masterKeyId ≠ c.encryption.encryption.ring.current.keyId)
include hk hget hd hid

/-- Before the first copy: what the second program leaves at the place is
published under the metadata that were looked up before. The access list is that
of the second program only if rekeying has not asked for it yet. -/
theorem rekey_interrupted_early (hsuffix : c.encryption.tempSuffix ≠ "") {P : β → Storage → Prop}
    (hn : n < 2) (hp : Ensures Storage.serve p v.state P) :
    Ensures (interrupted Storage.serve p) (c.rekey target).run (.before (n + 1) v) fun r u =>
      (u = .before n v ∧ ¬c.encryption.encryption.ring.current.Dependable) ∨
      ∃ b t after, P b t ∧ u = .after b after ∧
        ∀ found, t.objects.get? target = some found → (∃ result, r = .ok result) ∧
          after.Rewraps c.encryption.encryption target object.metadata
            (if n = 0 then found.acl else object.acl) d.dataKey found := by
  have htemp := target.withSuffix_ne hsuffix
  refine rekey_looked hk hget hd hid ?_
  intro wrapped hwrapped
  dsimp only
  -- The second program runs before the access list is looked up, or after that.
  cases n with
  | zero =>
    refine Ensures.interrupted hp ?_
    intro b t hP
    refine StorageCall.sends_after ?_
    cases hfound : t.objects.get? target with
    | none =>
      rw [Storage.serve_acl_missing hfound]
      exact ⟨b, t, t, hP, rfl, fun found h => nomatch hfound.symm.trans h⟩
    | some found =>
      rw [Storage.serve_acl hfound]
      refine (copies_rewrap htemp hfound hwrapped found.acl).resumed ?_
      rintro _ after ⟨⟨published, rfl⟩, hrewraps⟩
      refine ⟨b, t, after, hP, rfl, fun other hother => ⟨⟨_, rfl⟩, ?_⟩⟩
      obtain rfl : found = other := Option.some.inj (hfound.symm.trans hother)
      exact hrewraps
  | succ n =>
    obtain rfl : n = 0 := by omega
    refine StorageCall.sends_before ?_
    rw [Storage.serve_acl hget]
    refine Detour.Ends.interrupted hp ?_
    intro b t hP
    cases hfound : t.objects.get? target with
    | none =>
      refine (copies_missing hfound _ _).resumed ?_
      rintro _ after ⟨rfl, rfl⟩
      exact ⟨b, t, _, hP, rfl, fun found h => nomatch hfound.symm.trans h⟩
    | some found =>
      refine (copies_rewrap htemp hfound hwrapped object.acl).resumed ?_
      rintro _ after ⟨⟨published, rfl⟩, hrewraps⟩
      refine ⟨b, t, after, hP, rfl, fun other hother => ⟨⟨_, rfl⟩, ?_⟩⟩
      obtain rfl : found = other := Option.some.inj (hfound.symm.trans hother)
      exact hrewraps

/-- Between the copies: what is left at the temporary place is published, which
is the content of before unless the second program has changed it. -/
theorem rekey_interrupted_between (hsuffix : c.encryption.tempSuffix ≠ "") {P : Storage → β → Storage → Prop}
    (hp : ∀ s, Ensures Storage.serve p s (P s)) :
    Ensures (interrupted Storage.serve p) (c.rekey target).run (.before 3 v) fun r u =>
      (u = .before 2 v ∧ ¬c.encryption.encryption.ring.current.Dependable) ∨
      let temp := target.withSuffix c.encryption.tempSuffix
      ∃ s b t after, P s b t ∧ u = .after b after ∧
        (t.objects.get? temp = none → r = .error (.notFound temp) ∧ after = t.delete temp) ∧
        (t.objects.get? temp = s.objects.get? temp → (∃ result, r = .ok result) ∧
          after.Rewraps c.encryption.encryption target object.metadata object.acl d.dataKey object) := by
  have htemp := target.withSuffix_ne hsuffix
  refine rekey_looked hk hget hd hid ?_
  intro wrapped hwrapped
  dsimp only
  refine StorageCall.sends_before ?_
  rw [Storage.serve_acl hget]
  refine StorageCall.sends_before ?_
  rw [Storage.serve_copy hget]
  refine Ensures.interrupted (hp _) ?_
  intro b t hP
  refine StorageCall.sends_after ?_
  -- The first copy is still there, unless the second program has changed it.
  have hcopied := Storage.get?_withObject v.state (target.withSuffix c.encryption.tempSuffix)
    (v.state.objectOf object.content object.metadata none object.metadata.etag)
  cases hleft : t.objects.get? (target.withSuffix c.encryption.tempSuffix) with
  | none =>
    rw [Storage.serve_copy_missing hleft]
    refine StorageCall.sends_after ⟨_, b, t, _, hP, rfl, fun _ => ⟨rfl, rfl⟩, fun hkept => ?_⟩
    exact nomatch (hleft.symm.trans hkept).trans hcopied
  | some found =>
    rw [Storage.serve_copy hleft]
    refine StorageCall.sends_after ⟨_, b, t, _, hP, rfl, fun hnone => ?_, fun hkept => ⟨⟨_, rfl⟩, ?_⟩⟩
    · exact nomatch hleft.symm.trans hnone
    · obtain rfl := Option.some.inj ((hleft.symm.trans hkept).trans hcopied)
      exact rewraps_of_get? (t.get?_withObject_delete htemp _) (Storage.keptEtag_kept ..) hwrapped

/-- After both copies: what the second program leaves stays. -/
theorem rekey_interrupted_late {P : β → Storage → Prop} (hp : ∀ s, Ensures Storage.serve p s P) :
    Ensures (interrupted Storage.serve p) (c.rekey target).run (.before 4 v) fun r u =>
      (u = .before 3 v ∧ ¬c.encryption.encryption.ring.current.Dependable) ∨
      ((∃ result, r = .ok result) ∧ ∃ b t, P b t ∧
        u = .after b (t.delete (target.withSuffix c.encryption.tempSuffix))) := by
  refine rekey_looked hk hget hd hid ?_
  intro wrapped hwrapped
  dsimp only
  refine StorageCall.sends_before ?_
  rw [Storage.serve_acl hget]
  refine StorageCall.sends_before ?_
  rw [Storage.serve_copy hget]
  refine StorageCall.sends_before ?_
  rw [Storage.serve_copy (Storage.get?_withObject ..)]
  -- All that is left to do is to delete the temporary object.
  refine Ensures.interrupted (hp _) ?_
  intro b t hP
  exact StorageCall.sends_after ⟨⟨_, rfl⟩, b, t, hP, rfl⟩

end EncryptingClient

end

/-! ## Rekeying that meets a write -/

theorem Storage.mismatch?_keptEtag {content : Bytes} {etag : Option String}
    (h : Filter.mismatch? (Md5.hex content) etag = none) :
    Filter.mismatch? (Md5.hex content) (some (keptEtag content etag)) = none := by
  unfold keptEtag
  cases hsaid : etag.filter (!·.isEmpty) with
  | none => exact Filter.mismatch?_self _
  | some said =>
    rw [(Option.filter_eq_some_iff.mp hsaid).1] at h
    exact h

/-- Whoever holds the current master key opens what is at the address to the
content. -/
def Storage.Yields (s : Storage) (e : Encryption) (target : Identity) (content : Bytes) : Prop :=
  ∃ object, s.objects.get? target = some object ∧ (Storage.shown object).Honest object.content ∧
    ∀ reader : Encryption, reader.ring.get? e.ring.current.keyId = some e.ring.current →
      reader.Opens object content

theorem Storage.Yields.delete {s : Storage} {e : Encryption} {target temp : Identity} {content : Bytes}
    (h : s.Yields e target content) (htemp : temp ≠ target) : (s.delete temp).Yields e target content := by
  obtain ⟨object, hget, hopens⟩ := h
  exact ⟨object, (Table.get?_erase ..).trans ((if_neg htemp).trans hget), hopens⟩

namespace EncryptingClient
variable {second : EncryptionSettings} {base other : ClientSettings} {filters others : List Filter}
  {p : Put} {content : Bytes} {s : Storage}

/-- Every client whose ring holds the current master key reads the content. -/
def ReadBack (s : Storage) (e : Encryption) (target : Identity) (content : Bytes) : Prop :=
  ∀ (reader : EncryptionSettings) (settings : ClientSettings) (l : List Filter) (w : World Storage),
    OneChecksum l → reader.encryption.ring.get? e.ring.current.keyId = some e.ring.current → w.state = s →
    (((make reader settings l).read target).run.run Storage.serve w).1 = .ok content

theorem readBack_of_yields {e : Encryption} {target : Identity} (h : s.Yields e target content) :
    ReadBack s e target content := by
  intro reader settings l w hl hring hw
  obtain ⟨object, hget, hhonest, hopens⟩ := h
  have hread : Ensures Storage.serve ((make reader settings l).read target).run s _ :=
    read_opened hl hget hhonest (hopens reader.encryption hring)
  exact (hread w hw).2

/-- Under an envelope that says another size nothing is read of a content. -/
theorem read_rewraps {reader : EncryptionSettings} (hf : OneChecksum filters) {e : Encryption}
    {target : Identity} {looked : Metadata} {acl : AccessList} {d : Decoder} {source : StoredObject}
    (h : s.Rewraps e target looked acl d.dataKey source) (hd : e.decoder looked.user = .ok d)
    (hhonest : (Storage.shown source).Honest source.content)
    (hring : reader.encryption.ring.get? e.ring.current.keyId = some e.ring.current) {size : Int}
    (hsize : d.envelope.size = some size) (hlen : size ≠ (source.content.length - tagSize : Nat)) :
    Ensures Storage.serve ((make reader base filters).read target).run s fun r _ => ∀ plain, r ≠ .ok plain := by
  obtain ⟨object, wrapped, hget, hwrapped, hcontent, -, hetag, -, -, huser⟩ := h
  have hdecoder : reader.encryption.decoder object.metadata.user = .ok (e.rewrapped d wrapped) := by
    rw [huser]
    exact Encryption.decoder_rekeyed hd hwrapped hring
  refine (opened_of_read hf).mono ?_
  rintro r t ⟨-, hopened⟩ plain hplain
  obtain ⟨found, hfound, hcases⟩ := hopened plain hplain
  obtain rfl : object = found := Option.some.inj (hget.symm.trans hfound)
  obtain hnone | ⟨d', hd', hopens⟩ := hcases
  · rw [(Encryption.canDecode_of_decoder hdecoder).1] at hnone
    cases hnone
  · have hkept : (Storage.shown object).Honest object.content := by
      show Filter.mismatch? (Md5.hex object.content) object.metadata.etag = none
      rw [hcontent, hetag]
      exact Storage.mismatch?_keptEtag hhonest
    obtain ⟨d'', hd'', hcheck, -⟩ := hopens hkept
    obtain rfl : e.rewrapped d wrapped = d'' := Except.ok.inj (hdecoder.symm.trans hd'')
    -- A content that was accepted would have the size that the envelope says.
    have hsaid := ((Decoder.check_eq_ok_iff _ _).mp hcheck).size size hsize
    rw [hcontent] at hsaid
    exact hlen hsaid

theorem Wrote.get? {r : Except Error WriteResult} {t : Storage} (h : Wrote second s p content r t) :
    ∃ encoder, second.encryption.Sound encoder ∧
      t.objects.get? p.target = some (sealedObject s p encoder content) := by
  obtain ⟨encoder, hsound, rfl, -⟩ := h
  exact ⟨encoder, hsound, (Table.get?_insert ..).trans (if_pos rfl)⟩

theorem Wrote.get?_other {r : Except Error WriteResult} {t : Storage} (h : Wrote second s p content r t)
    {temp : Identity} (htemp : temp ≠ p.target) :
    t.objects.get? temp =
      if p.target.withSuffix second.tempSuffix = temp then none else s.objects.get? temp := by
  obtain ⟨encoder, -, rfl, -⟩ := h
  exact (Table.get?_insert ..).trans ((if_neg htemp.symm).trans (Table.get?_erase ..))

/-- Rekeying looks an object up, and if it wraps its key anew makes four calls
more. What becomes of a write that another client makes as a whole meanwhile, if
the write returns: it is kept if it comes after the last copy. It is kept too if
it comes between the copies and takes the temporary object of rekeying with it,
which then fails. If it comes between the copies otherwise, the content before it
is put back. If it comes before both, what it wrote ends up under the metadata of
what was there before. -/
theorem rekey_meets_put (first second : EncryptionSettings) (hsuffix : first.tempSuffix ≠ "")
    (hsuffix' : second.tempSuffix ≠ "") (hk : first.encryption.ring.current.Faithful)
    (hk' : second.encryption.ring.current.Faithful) (base other : ClientSettings)
    {filters others : List Filter} (hf : OneChecksum filters) (hf' : OneChecksum others) {p : Put}
    (hs : (p.entity.getD default).Steady) {v : World Storage} {object : StoredObject}
    (hget : v.state.objects.get? p.target = some object) {plain : Bytes}
    (hread : (((make first base filters).read p.target).run.run Storage.serve v).1 = .ok plain)
    {n : Nat} (hn : n < 4) {w : World (Shared Storage (Except Error WriteResult × Put))}
    (hw : w.state = .before (n + 1) v) :
    let put := (make second other others).put p
    let out := ((make first base filters).rekey p.target).run.run (interrupted Storage.serve put) w
    let temp := p.target.withSuffix first.tempSuffix
    let taken := p.target.withSuffix second.tempSuffix = temp
    let looked := object.metadata
    (out.2.state = .before n v ∧ (Envelope.modeOf? looked.user = none ∨
      looked.user.get? Envelope.keyIdName = some first.encryption.ring.current.keyId ∨
      ¬first.encryption.ring.current.Dependable)) ∨
    ∃ d wrote sent t, first.encryption.decoder looked.user = .ok d ∧ out.2.state = .after (wrote, sent) t ∧
      ∀ result, wrote = .ok result → ∃ content, p.Brings content ∧
        (n < 2 → (∃ done, out.1 = .ok done) ∧ ∃ encoder, second.encryption.Sound encoder ∧
          t.Rewraps first.encryption p.target looked (if n = 0 then p.acl.getD {} else object.acl) d.dataKey
            (sealedObject v.state p encoder content)) ∧
        (n = 2 →
          (taken ∧ out.1 = .error (.notFound temp) ∧
            (content.length < 10 ^ Integer.maxDigits → ReadBack t second.encryption p.target content)) ∨
          (¬taken ∧ (∃ done, out.1 = .ok done) ∧
            t.Rewraps first.encryption p.target looked object.acl d.dataKey object)) ∧
        (n = 3 → (∃ done, out.1 = .ok done) ∧
          (content.length < 10 ^ Integer.maxDigits → ReadBack t second.encryption p.target content)) := by
  intro put out temp taken looked
  let c := make first base filters
  have htemp : temp ≠ p.target := p.target.withSuffix_ne hsuffix
  have hbefore : Ensures Storage.serve (c.read p.target).run v.state _ := opened_of_read hf
  obtain ⟨found, hfound, hcases⟩ := (hbefore v rfl).2 plain hread
  obtain rfl : object = found := Option.some.inj (hget.symm.trans hfound)
  obtain hplain | ⟨d, hd, -⟩ := hcases
  · have hidle : Ensures (interrupted Storage.serve put) (c.rekey p.target).run (.before (n + 1) v) _ :=
      rekey_uninterrupted hk hget (.inl hplain)
    exact .inl ⟨hidle w hw, .inl hplain⟩
  by_cases hid : d.envelope.masterKeyId = first.encryption.ring.current.keyId
  · have hidle : Ensures (interrupted Storage.serve put) (c.rekey p.target).run (.before (n + 1) v) _ :=
      rekey_uninterrupted hk hget (.inr ⟨d, hd, hid⟩)
    refine .inl ⟨hidle w hw, .inr (.inl ?_)⟩
    rw [← hid]
    exact (Encryption.canDecode_of_decoder hd).2.1
  let Returns (s : Storage) (b : Except Error WriteResult × Put) (t : Storage) : Prop :=
    ∀ result, b.1 = .ok result → ∃ content, p.Brings content ∧ Wrote second s p content b.1 t
  have hwrites : ∀ s : Storage, Ensures Storage.serve put s (Returns s) := by
    intro s
    exact put_returned hf' hsuffix' hk' hs
  -- The write comes before the first copy, between the two or after both.
  obtain hearly | rfl | rfl : n < 2 ∨ n = 2 ∨ n = 3 := by omega
  · have hmet : Ensures (interrupted Storage.serve put) (c.rekey p.target).run (.before (n + 1) v) _ :=
      rekey_interrupted_early (c := c) hk hget hd hid hsuffix hearly (hwrites v.state)
    obtain ⟨hstate, hno⟩ | ⟨⟨wrote, sent⟩, t, after, hreturns, hstate, hpublished⟩ := hmet w hw
    · exact .inl ⟨hstate, .inr (.inr hno)⟩
    refine .inr ⟨d, wrote, sent, after, hd, hstate, fun result hresult => ?_⟩
    obtain ⟨content, hbrings, hwrote⟩ := hreturns result hresult
    obtain ⟨encoder, hsound, hput⟩ := hwrote.get?
    obtain ⟨hdone, hrewraps⟩ := hpublished _ hput
    exact ⟨content, hbrings, fun _ => ⟨hdone, encoder, hsound, hrewraps⟩, by omega, by omega⟩
  · have hmet : Ensures (interrupted Storage.serve put) (c.rekey p.target).run (.before 3 v) _ :=
      rekey_interrupted_between (c := c) hk hget hd hid hsuffix hwrites
    obtain ⟨hstate, hno⟩ | ⟨s, ⟨wrote, sent⟩, t, after, hreturns, hstate, herased, hkept⟩ := hmet w hw
    · exact .inl ⟨hstate, .inr (.inr hno)⟩
    refine .inr ⟨d, wrote, sent, after, hd, hstate, fun result hresult => ?_⟩
    obtain ⟨content, hbrings, hwrote⟩ := hreturns result hresult
    have hleft := hwrote.get?_other htemp
    refine ⟨content, hbrings, by omega, fun _ => ?_, by omega⟩
    -- Nothing is left at the temporary place only if the write has the same one.
    by_cases htaken : taken
    · obtain ⟨hfailed, rfl⟩ := herased (hleft.trans (if_pos htaken))
      refine .inl ⟨htaken, hfailed, fun hlen => readBack_of_yields ?_⟩
      exact Storage.Yields.delete (hwrote.opened hlen) htemp
    · obtain ⟨hdone, hrewraps⟩ := hkept (hleft.trans (if_neg htaken))
      exact .inr ⟨htaken, hdone, hrewraps⟩
  · have hmet : Ensures (interrupted Storage.serve put) (c.rekey p.target).run (.before 4 v) _ :=
      rekey_interrupted_late (c := c) (P := fun b t => ∃ s, Returns s b t) hk hget hd hid
        fun s => (hwrites s).mono fun _ _ h => ⟨s, h⟩
    obtain ⟨hstate, hno⟩ | ⟨hdone, ⟨wrote, sent⟩, t, ⟨s, hreturns⟩, hstate⟩ := hmet w hw
    · exact .inl ⟨hstate, .inr (.inr hno)⟩
    refine .inr ⟨d, wrote, sent, _, hd, hstate, fun result hresult => ?_⟩
    obtain ⟨content, hbrings, hwrote⟩ := hreturns result hresult
    refine ⟨content, hbrings, by omega, by omega, fun _ => ⟨hdone, fun hlen => readBack_of_yields ?_⟩⟩
    exact Storage.Yields.delete (hwrote.opened hlen) htemp

def twoBytes : Put := Put.make threeBytes.target (some (.bytes [4, 5])) none none none

theorem twoBytes_brings : twoBytes.Brings [4, 5] := Stream.holds_ofBytes [4, 5]

theorem twoBytes_written : Ensures Storage.serve ((make oneKey {} Filter.default).put twoBytes) s fun out t =>
    Wrote oneKey s twoBytes [4, 5] out.1 t :=
  put_wrote oneChecksum_default (by decide) rfl twoBytes_brings rfl

theorem exists_threeSealed : ∃ (v : World Storage) (object : StoredObject),
    v.state.objects.get? threeBytes.target = some object ∧
    (Storage.shown object).Honest object.content ∧
    ∀ reader : Encryption, reader.ring.get? "main" = some oneKey.encryption.ring.current →
      reader.Opens object [1, 2, 3] ∧ ∃ d, reader.decoder object.metadata.user = .ok d ∧
        d.envelope.masterKeyId = "main" ∧ d.envelope.size = some 3 := by
  let empty : World Storage := { entropy := Entropy.ofSeed "", state := {} }
  have hput : Ensures Storage.serve ((make oneKey {} Filter.default).put threeBytes) {} _ :=
    put_wrote oneChecksum_default (by decide) rfl threeBytes_brings rfl
  obtain ⟨encoder, hsound, hstate, -⟩ := hput empty rfl
  let object := sealedObject {} threeBytes encoder [1, 2, 3]
  have hget : (((make oneKey {} Filter.default).put threeBytes).run Storage.serve empty).2.state.objects.get?
      threeBytes.target = some object := by
    rw [hstate]
    exact (Table.get?_insert ..).trans (if_pos rfl)
  refine ⟨_, object, hget, Filter.mismatch?_self _, ?_⟩
  intro reader hring
  have hseals : reader.Seals (encoder.envelope [1, 2, 3]) object.content [1, 2, 3] :=
    Encryption.seals_of_sound hsound hring (Integer.lt_of_lt_ten (by decide : 3 < 10))
  have hcarries : Envelope.Carries object.metadata.user (encoder.envelope [1, 2, 3]) :=
    Envelope.carries_merge (threeBytes.metadata.getD {}).user rfl rfl
  obtain ⟨d, hd, henvelope, hopened⟩ := Encryption.decoder_of_seals hseals hcarries
  refine ⟨⟨d, hd, hopened⟩, d, hd, ?_, ?_⟩
  · rw [henvelope]
    exact hsound.masterKeyId
  · rw [henvelope]
    rfl

/-- Two bytes written after both copies are kept. -/
theorem rekey_meets_put_late : ∃ (w : World (Shared Storage (Except Error WriteResult × Put))) (v : World Storage),
    w.state = .before 4 v ∧
    let put := (make oneKey {} Filter.default).put twoBytes
    let out := ((make twoKeys {} Filter.default).rekey twoBytes.target).run.run (interrupted Storage.serve put) w
    (∃ done, out.1 = .ok done) ∧ ∃ result sent t, out.2.state = .after (.ok result, sent) t ∧
      ReadBack t oneKey.encryption twoBytes.target [4, 5] := by
  obtain ⟨v, object, hget, hhonest, hreaders⟩ := exists_threeSealed
  obtain ⟨hopens, d, hd, hid, -⟩ := hreaders twoKeys.encryption rfl
  obtain ⟨w, hw⟩ : ∃ w : World (Shared Storage (Except Error WriteResult × Put)), w.state = .before 4 v :=
    ⟨v.over fun _ => .before 4 v, rfl⟩
  have hread : Ensures Storage.serve ((make twoKeys {} Filter.default).read threeBytes.target).run v.state _ :=
    read_opened oneChecksum_default hget hhonest hopens
  have hother : d.envelope.masterKeyId ≠ twoKeys.encryption.ring.current.keyId := by
    rw [hid]
    decide
  -- That the write returns is not what the theorem says, so it is shown apart.
  have hreturns : Ensures (interrupted Storage.serve ((make oneKey {} Filter.default).put twoBytes))
      ((make twoKeys {} Filter.default).rekey twoBytes.target).run (.before 4 v) _ :=
    rekey_interrupted_late (c := make twoKeys {} Filter.default) (P := fun b _ => ∃ result, b.1 = .ok result)
      trivial hget hd hother fun s => twoBytes_written.mono fun _ _ ⟨_, _, _, hresult⟩ => ⟨_, hresult⟩
  obtain ⟨-, hno⟩ | ⟨-, ⟨back, sent⟩, t, ⟨result, hresult⟩, hend⟩ := hreturns w hw
  · exact absurd rfl hno
  obtain rfl : back = .ok result := hresult
  refine ⟨w, v, hw, ?_⟩
  obtain ⟨hstate, -⟩ | ⟨_, wrote, back, u, -, hstate, hmet⟩ :=
    rekey_meets_put twoKeys oneKey (by decide) (by decide) trivial trivial {} {} oneChecksum_default
      oneChecksum_default (p := twoBytes) twoBytes_brings.holds.steady hget (hread v rfl).2 (n := 3) (by decide) hw
  · cases hend.symm.trans hstate
  · cases hend.symm.trans hstate
    obtain ⟨content, hbrings, -, -, hlate⟩ := hmet result rfl
    obtain rfl : [4, 5] = content := twoBytes_brings.holds.unique hbrings.holds
    obtain ⟨hdone, hback⟩ := hlate rfl
    exact ⟨hdone, result, sent, _, hend, hback (Integer.lt_of_lt_ten (by decide))⟩

/-- Two bytes written right after the look-up are lost, though nothing fails:
the object that both clients could read has their content under the envelope
of three bytes. -/
theorem overwritten_early : ∃ (w : World (Shared Storage (Except Error WriteResult × Put))) (v : World Storage),
    w.state = .before 1 v ∧
    (∀ settings ∈ [oneKey, twoKeys],
      (((make settings {} Filter.default).read twoBytes.target).run.run Storage.serve v).1 = .ok [1, 2, 3]) ∧
    let put := (make oneKey {} Filter.default).put twoBytes
    let out := ((make twoKeys {} Filter.default).rekey twoBytes.target).run.run (interrupted Storage.serve put) w
    (∃ done, out.1 = .ok done) ∧ ∃ result sent t, out.2.state = .after (.ok result, sent) t ∧
      ∀ u : World Storage, u.state = t → ∀ plain,
        (((make twoKeys {} Filter.default).read twoBytes.target).run.run Storage.serve u).1 ≠ .ok plain := by
  obtain ⟨v, object, hget, hhonest, hreaders⟩ := exists_threeSealed
  obtain ⟨-, d, hd, hid, hsize⟩ := hreaders twoKeys.encryption rfl
  obtain ⟨w, hw⟩ : ∃ w : World (Shared Storage (Except Error WriteResult × Put)), w.state = .before 1 v :=
    ⟨v.over fun _ => .before 1 v, rfl⟩
  have hother : d.envelope.masterKeyId ≠ twoKeys.encryption.ring.current.keyId := by
    rw [hid]
    decide
  have hmet : Ensures (interrupted Storage.serve ((make oneKey {} Filter.default).put twoBytes))
      ((make twoKeys {} Filter.default).rekey twoBytes.target).run (.before 1 v) _ :=
    rekey_interrupted_early (c := make twoKeys {} Filter.default) trivial hget hd hother (by decide)
      (by decide) twoBytes_written
  obtain ⟨-, hno⟩ | ⟨⟨wrote, sent⟩, _, t, hwrote, hstate, hpublished⟩ := hmet w hw
  · exact absurd rfl hno
  obtain ⟨encoder, -, hput⟩ := hwrote.get?
  obtain ⟨hdone, hrewraps⟩ := hpublished _ hput
  obtain ⟨_, _, _, hresult⟩ := hwrote
  obtain rfl : wrote = .ok _ := hresult
  refine ⟨w, v, hw, ?_, hdone, _, sent, t, hstate, ?_⟩
  · intro settings hmem
    have hopens : settings.encryption.Opens object [1, 2, 3] := by
      obtain rfl | rfl : settings = oneKey ∨ settings = twoKeys := by simpa using hmem
      · exact (hreaders oneKey.encryption rfl).1
      · exact (hreaders twoKeys.encryption rfl).1
    have hread : Ensures Storage.serve ((make settings {} Filter.default).read threeBytes.target).run v.state _ :=
      read_opened oneChecksum_default hget hhonest hopens
    exact (hread v rfl).2
  · intro u hu
    -- Two bytes are there with their tag, and the envelope says three.
    have hlength : (sealedObject v.state twoBytes encoder [4, 5]).content.length = 2 + 16 :=
      encoder.length_output [4, 5]
    have hlost : Ensures Storage.serve ((make twoKeys {} Filter.default).read twoBytes.target).run t _ :=
      read_rewraps oneChecksum_default hrewraps hd (Filter.mismatch?_self _)
        twoKeys.encryption.ring.get?_current hsize (by rw [hlength]; decide)
    exact hlost u hu

end EncryptingClient

end SealedStore
