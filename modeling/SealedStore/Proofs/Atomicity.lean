import SealedStore.Proofs.Calls
import SealedStore.Proofs.Opening
import SealedStore.Proofs.Rekeying
import SealedStore.Storage.Monitored
/-!
# Writes over stores that refuse calls

Whichever of its calls a store refuses, an encrypted write or a rekeying leaves
either the object that was there or the whole new one, and the new one exactly
if the copy that publishes it took effect. The caller is told of the first
fault, or of the temporary object that was left behind, if nothing but its
deletion was refused.

What is proved:
  1. `Monitored.send_ensures` — a call that may be refused.
  2. `Monitored.detour_ends` — a detour with refused calls.
  3. `EncryptingClient.put_atomic`, `rekey_atomic` — writes and rekeyings.
  4. `EncryptingClient.atomic_under_refusals` — the same for every run.
-/

namespace SealedStore

open Program (Ensures recording)

namespace Monitored
variable {m : Monitored} {s : Storage} {made : List StorageCall} {t u : Monitored × List StorageCall}

/-- The calls among these that the store refuses. -/
def refused (m : Monitored) (calls : List StorageCall) : List StorageCall :=
  calls.filter fun c => (m.refuses c).isSome

theorem refused_append (m : Monitored) (front back : List StorageCall) :
    m.refused (front ++ back) = m.refused front ++ m.refused back := List.filter_append ..

theorem refused_cons_of_some {c : StorageCall} {e : Error} (h : m.refuses c = some e)
    (rest : List StorageCall) : m.refused (c :: rest) = c :: m.refused rest :=
  List.filter_cons_of_pos (by rw [h]; rfl)

theorem refused_cons_of_none {c : StorageCall} (h : m.refuses c = none) (rest : List StorageCall) :
    m.refused (c :: rest) = m.refused rest :=
  List.filter_cons_of_neg (by rw [h]; exact Bool.false_ne_true)

/-! ## Calls that may be refused -/

/-- After these calls the store holds `s`, and refuses what it refused before. -/
structure Called (m : Monitored) (s : Storage) (made : List StorageCall)
    (t : Monitored × List StorageCall) : Prop where
  refuses : t.1.refuses = m.refuses
  reportedEtag : t.1.reportedEtag = none
  storage : t.1.storage = s
  calls : t.2 = made

theorem disguise_of_none (h : m.reportedEtag = none) (c : StorageCall) (reply : Except Error c.Result) :
    m.disguise c reply = reply := by
  cases c with
  | put target content metadata acl offset =>
    cases reply with
    | error e => rfl
    | ok object => simp only [disguise, h, Option.none_or]
  | get | copy | delete | acl | list | initiate | uploadPart | complete | abort | now => rfl

/-- A call is refused and changes nothing, or is served like by the store alone. -/
theorem send_ensures {c : StorageCall} {R : Except Error c.Result → Monitored × List StorageCall → Prop}
    (ht : m.Called s made t)
    (hrefused : ∀ e, m.refuses c = some e → ∀ u, m.Called s (made ++ [c]) u → R (.error e) u)
    (hserved : m.refuses c = none → ∀ u, m.Called (Storage.serve c s).2 (made ++ [c]) u →
      R (Storage.serve c s).1 u) : Ensures (recording serve) c.send.run t R := by
  obtain ⟨t, calls⟩ := t
  obtain ⟨hrefuses, hetag, rfl, rfl⟩ := ht
  -- No call changes what is refused.
  have hrule : t.refuses c = m.refuses c := congrFun hrefuses c
  refine StorageCall.send_ensures ?_
  cases hc : m.refuses c with
  | some e =>
    have hserve : serve c t = (.error e, t.recorded c) := by
      simp only [serve, hrule, hc]
    simp only [recording, hserve]
    exact hrefused e hc _ ⟨hrefuses, hetag, rfl, rfl⟩
  | none =>
    have hserve : serve c t =
        ((Storage.serve c t.storage).1, { t.recorded c with storage := (Storage.serve c t.storage).2 }) := by
      simp only [serve, hrule, hc, disguise_of_none hetag]
    simp only [recording, hserve]
    exact hserved hc _ ⟨hrefuses, hetag, rfl, rfl⟩

end Monitored

/-! ## What is left -/

/-- How an operation ends that publishes an object by one copy, whatever calls
are refused. -/
structure Atomic {α : Type} (m after : Monitored) (target temp : Identity) (publish : StorageCall)
    (object : StoredObject) (calls : List StorageCall) (r : Except Error α) : Prop where
  /-- The object is the new one if the copy took effect, and else what was there. -/
  placed : after.storage.objects.get? target =
    if publish ∈ calls ∧ m.refuses publish = none then some object else m.storage.objects.get? target
  returns : (∃ a, r = .ok a) ↔ m.refused calls = []
  /-- The deletion alone was refused: the error holds what was published, and
  tells what was left behind. -/
  orphaned : m.refused calls = [.delete temp] → ∃ cause, m.refuses (.delete temp) = some cause ∧
    r = .error (.orphanedTemp target temp (Client.copied object) cause)
  /-- The first call that was refused says what went wrong. -/
  first : ∀ c rest, m.refused calls = c :: rest → m.refused calls ≠ [.delete temp] →
    ∃ e, m.refuses c = some e ∧ r = .error e
  /-- No other error tells of an object left behind, if the store raises none
  that does. -/
  orphaned_iff : (∀ c e, m.refuses c = some e → e.kind ≠ .orphanedTemp) →
    ((∃ e, r = .error e ∧ e.kind = .orphanedTemp) ↔ m.refused calls = [.delete temp])

namespace Atomic
variable {α : Type} {m after : Monitored} {target temp : Identity} {publish : StorageCall}
  {object : StoredObject} {calls front back : List StorageCall}

theorem not_returns (e : Error) : ¬∃ a : α, (.error e : Except Error α) = .ok a := by
  rintro ⟨a, h⟩
  cases h

theorem intro {r : Except Error α}
    (placed : after.storage.objects.get? target =
      if publish ∈ calls ∧ m.refuses publish = none then some object else m.storage.objects.get? target)
    (returns : (∃ a, r = .ok a) ↔ m.refused calls = [])
    (orphaned : m.refused calls = [.delete temp] → ∃ cause, m.refuses (.delete temp) = some cause ∧
      r = .error (.orphanedTemp target temp (Client.copied object) cause))
    (first : ∀ c rest, m.refused calls = c :: rest → m.refused calls ≠ [.delete temp] →
      ∃ e, m.refuses c = some e ∧ r = .error e) :
    Atomic m after target temp publish object calls r := by
  refine ⟨placed, returns, orphaned, first, fun hown => ⟨?_, fun hdelete => ?_⟩⟩
  · rintro ⟨e, rfl, hkind⟩
    cases hrefused : m.refused calls with
    | nil => exact absurd (returns.mpr hrefused) (not_returns e)
    | cons c rest =>
      -- An error of another call is one of the store, which tells of no object left behind.
      refine Classical.byContradiction fun hne => ?_
      obtain ⟨other, hother, he⟩ := first c rest hrefused (hrefused ▸ hne)
      cases he
      exact hown c e hother hkind
  · obtain ⟨cause, -, hr⟩ := orphaned hdelete
    exact ⟨_, hr, rfl⟩

/-- A call is refused before anything is published. -/
theorem of_refused {c : StorageCall} {e : Error} (hfront : m.refused front = []) (hc : m.refuses c = some e)
    (hother : c ≠ .delete temp) (hpublish : publish ∈ front ++ c :: back → m.refuses publish ≠ none)
    (hsame : after.storage.objects.get? target = m.storage.objects.get? target) :
    Atomic m after target temp publish object (front ++ c :: back) (.error e : Except Error α) := by
  have hrefused : m.refused (front ++ c :: back) = c :: m.refused back := by
    rw [m.refused_append, hfront, m.refused_cons_of_some hc, List.nil_append]
  refine .intro ?_ ?_ ?_ ?_
  · rw [if_neg fun h => hpublish h.1 h.2]
    exact hsame
  · rw [hrefused]
    exact ⟨fun h => absurd h (not_returns _), fun h => absurd h (List.cons_ne_nil _ _)⟩
  · rw [hrefused]
    intro h
    exact absurd (List.cons.inj h).1 hother
  · rw [hrefused]
    rintro _ _ ⟨⟩ -
    exact ⟨e, hc, rfl⟩

/-- Nothing is refused before the temporary object is to be deleted. -/
theorem of_published {r : Except Error α} (hfront : m.refused front = []) (hpublish : publish ∈ front)
    (hobject : after.storage.objects.get? target = some object)
    (hkept : ∀ cause, m.refuses (.delete temp) = some cause →
      r = .error (.orphanedTemp target temp (Client.copied object) cause))
    (hdone : m.refuses (.delete temp) = none → ∃ a, r = .ok a) :
    Atomic m after target temp publish object (front ++ [.delete temp]) r := by
  have hserved : m.refuses publish = none := by
    have hall := List.filter_eq_nil_iff.mp hfront publish hpublish
    rwa [Bool.not_eq_true, Option.isSome_eq_false_iff, Option.isNone_iff_eq_none] at hall
  have hplaced : after.storage.objects.get? target =
      if publish ∈ front ++ [.delete temp] ∧ m.refuses publish = none then some object
      else m.storage.objects.get? target := by
    rw [if_pos ⟨List.mem_append_left _ hpublish, hserved⟩]
    exact hobject
  cases hdelete : m.refuses (.delete temp) with
  | some cause =>
    obtain rfl := hkept cause hdelete
    have hrefused : m.refused (front ++ [.delete temp]) = [.delete temp] := by
      rw [m.refused_append, hfront, m.refused_cons_of_some hdelete]
      rfl
    refine .intro hplaced ?_ (fun _ => ⟨cause, hdelete, rfl⟩) (fun _ _ _ hne => absurd hrefused hne)
    rw [hrefused]
    exact ⟨fun h => absurd h (not_returns _), fun h => absurd h (List.cons_ne_nil _ _)⟩
  | none =>
    obtain ⟨a, rfl⟩ := hdone hdelete
    have hrefused : m.refused (front ++ [.delete temp]) = [] := by
      rw [m.refused_append, hfront, m.refused_cons_of_none hdelete]
      rfl
    refine .intro hplaced ?_ ?_ ?_
    · rw [hrefused]
      exact ⟨fun _ => rfl, fun _ => ⟨a, rfl⟩⟩
    · rw [hrefused]
      exact fun h => absurd h.symm (List.cons_ne_nil _ _)
    · rw [hrefused]
      exact fun _ _ h => absurd h.symm (List.cons_ne_nil _ _)

theorem of_idle {a : α} (hrefused : m.refused calls = []) (hpublish : publish ∉ calls)
    (hsame : after.storage.objects.get? target = m.storage.objects.get? target) :
    Atomic m after target temp publish object calls (.ok a : Except Error α) := by
  refine .intro ?_ ?_ ?_ ?_
  · rw [if_neg fun h => hpublish h.1]
    exact hsame
  · rw [hrefused]
    exact ⟨fun _ => rfl, fun _ => ⟨a, rfl⟩⟩
  · rw [hrefused]
    exact fun h => absurd h.symm (List.cons_ne_nil _ _)
  · rw [hrefused]
    exact fun _ _ h => absurd h.symm (List.cons_ne_nil _ _)

end Atomic

/-! ## Detours -/

namespace Monitored
variable {m : Monitored} {s : Storage} {made : List StorageCall} {t : Monitored × List StorageCall}
  {target temp : Identity}

/-- The calls of a detour: the one that writes, the one that publishes unless the
first was refused, and in the end the deletion of the temporary object. -/
def WentDetour (m : Monitored) (before : List StorageCall) (write publish : StorageCall) (temp : Identity)
    (calls : List StorageCall) : Prop :=
  calls = before ++ (if m.refuses write = none then [write, publish] else [write]) ++ [.delete temp]

theorem delete_ensures {R : Except Error Unit → Monitored × List StorageCall → Prop} (htemp : temp ≠ target)
    (ht : m.Called s made t)
    (h : ∀ r u, u.1.storage.objects.get? target = s.objects.get? target → u.2 = made ++ [.delete temp] →
      R r u) : Ensures (recording serve) (StorageCall.delete temp).send.run t R := by
  refine send_ensures ht (fun e _ u hu => ?_) (fun _ u hu => ?_)
  · exact h _ u (by rw [hu.storage]) hu.calls
  · refine h _ u ?_ hu.calls
    rw [hu.storage]
    exact (Table.get?_erase ..).trans (if_neg htemp)

/-- A detour over a store that refuses some of its calls. -/
theorem detour_ends {write : StorageCall} {first : StoredObject} {metadata : Option Metadata}
    {acl : Option AccessList} {a : write.Result} (htemp : temp ≠ target)
    (ht : m.Called m.storage made t) (hmade : m.refused made = [])
    (hwrite : Storage.serve write m.storage = (.ok a, m.storage.withObject temp first))
    (hother : write ≠ .delete temp)
    (hnew : StorageCall.copy temp target metadata acl ∉ made ++ [write]) :
    let publish := StorageCall.copy temp target metadata acl
    Detour.Ends (recording serve) write.send publish.send (StorageCall.delete temp).send (fun r u =>
      WentDetour m made write publish temp u.2 ∧
      ∀ {α : Type} (finish : WriteResult → α),
        Atomic m u.1 target temp publish (m.storage.publishedObject first metadata acl) u.2
          (Client.concluded target temp finish r)) t := by
  intro publish
  let object := m.storage.publishedObject first metadata acl
  refine send_ensures ht (fun e he u hu => ?_) (fun hwrote u hu => ?_)
  -- The write is refused.
  · refine delete_ensures htemp hu fun r v hsame hcalls => ?_
    have hbroken : ¬m.refuses write = none := by simp [he]
    refine ⟨by rw [WentDetour, if_neg hbroken, hcalls], fun _ => ?_⟩
    rw [hcalls, List.append_assoc]
    refine .of_refused hmade he hother (fun hmem => ?_) hsame
    -- The only call that the copy could be is the deletion.
    rw [List.append_cons] at hmem
    have hcopy : StorageCall.copy temp target metadata acl = .delete temp :=
      List.mem_singleton.mp ((List.mem_append.mp hmem).resolve_left hnew)
    cases hcopy
  rw [hwrite] at hu ⊢
  have hfront : m.refused (made ++ [write]) = [] := by
    rw [m.refused_append, hmade, m.refused_cons_of_none hwrote]
    rfl
  have hdetour : WentDetour m made write publish temp (made ++ [write] ++ [publish] ++ [.delete temp]) := by
    rw [WentDetour, if_pos hwrote, List.append_assoc made]
    rfl
  refine send_ensures hu (fun e he v hv => ?_) (fun hpublished v hv => ?_)
  -- The copy is refused.
  · refine delete_ensures htemp hv fun r x hsame hcalls => ?_
    refine ⟨hcalls.trans hdetour, fun _ => ?_⟩
    rw [hcalls, List.append_assoc (made ++ [write])]
    refine .of_refused hfront he nofun (fun _ hno => ?_) (hsame.trans ?_)
    · rw [he] at hno
      cases hno
    · exact (Table.get?_insert ..).trans (if_neg htemp)
  have hcopy : Storage.serve publish (m.storage.withObject temp first) =
      (.ok object, (m.storage.withObject temp first).withObject target object) :=
    Storage.serve_copy (m.storage.get?_withObject temp first) target metadata acl
  rw [hcopy] at hv ⊢
  have hall : m.refused (made ++ [write] ++ [publish]) = [] := by
    rw [m.refused_append, hfront, m.refused_cons_of_none hpublished]
    rfl
  have hpublish : publish ∈ made ++ [write] ++ [publish] := List.mem_concat_self
  -- The object is published; what may still be refused is the deletion.
  refine send_ensures hv (fun cause hcause x hx => ?_) (fun hno x hx => ?_)
  · refine ⟨by rw [hx.calls]; exact hdetour, fun finish => ?_⟩
    rw [hx.calls]
    refine .of_published hall hpublish ?_ (fun other hother => ?_) (fun hno => ?_)
    · rw [hx.storage]
      exact Storage.get?_withObject ..
    · rw [Option.some.inj (hcause.symm.trans hother)]
      rfl
    · rw [hcause] at hno
      cases hno
  · refine ⟨by rw [hx.calls]; exact hdetour, fun finish => ?_⟩
    rw [hx.calls]
    refine .of_published hall hpublish ?_ (fun cause hcause => ?_) (fun _ => ⟨_, rfl⟩)
    · rw [hx.storage]
      exact ((Table.get?_erase ..).trans (if_neg htemp)).trans (Storage.get?_withObject ..)
    · rw [hno] at hcause
      cases hcause

end Monitored

/-! ## Clients -/

namespace EncryptingClient
variable {settings : EncryptionSettings} {base : ClientSettings} {filters : List Filter} {m : Monitored}
  {target : Identity}

/-- What is left by a write whose entity could be read. -/
def PutAtomic (settings : EncryptionSettings) (m : Monitored) (p : Put) (content : Bytes)
    (r : Except Error WriteResult) (after : Monitored) (calls : List StorageCall) : Prop :=
  ∃ encoder, settings.encryption.Sound encoder ∧
    let temp := p.target.withSuffix settings.tempSuffix
    let metadata := p.metadata.getD {}
    let write := StorageCall.put temp (encoder.output content) (some metadata) none none
    let publish := StorageCall.copy temp p.target (some (enriched metadata (encoder.envelope content))) p.acl
    m.WentDetour [] write publish temp calls ∧
    Atomic m after p.target temp publish (sealedObject m.storage p encoder content) calls r

/-- A write of an entity that raises a fault. -/
def PutBroken (settings : EncryptionSettings) (m : Monitored) (p : Put) (fault : Error)
    (r : Except Error WriteResult) (after : Monitored) (calls : List StorageCall) : Prop :=
  calls = [.delete (p.target.withSuffix settings.tempSuffix)] ∧ r = .error fault ∧
    after.storage.objects.get? p.target = m.storage.objects.get? p.target

/-- Whatever is refused, the write comes back with its entity read. -/
theorem put_refusals {p : Put} (hf : OneChecksum filters) (hsuffix : settings.tempSuffix ≠ "")
    (hk : settings.encryption.ring.current.Dependable) (hetag : m.reportedEtag = none)
    (hrange : p.range = none) (hs : (p.entity.getD default).Steady) :
    Ensures (recording Monitored.serve) ((make settings base filters).put p) (m, []) fun out t =>
      (match ((p.entity.getD default).read .rest).1 with
      | .error fault => PutBroken settings m p fault out.1 t.1 t.2
      | .ok content => PutAtomic settings m p content out.1 t.1 t.2) ∧ p.Drained out.2 := by
  have htemp : p.target.withSuffix settings.tempSuffix ≠ p.target := p.target.withSuffix_ne hsuffix
  have hstart : m.Called m.storage [] (m, []) := ⟨rfl, hetag, rfl, rfl⟩
  rw [Stream.read_rest_eq hs]
  -- The rule for writes takes one predicate for both ends.
  let Ends (r : Except Error WriteResult) (t : Monitored × List StorageCall) : Prop :=
    match (p.entity.getD default).script.outcome with
    | .error fault => PutBroken settings m p fault r t.1 t.2
    | .ok content => PutAtomic settings m p content r t.1 t.2
  refine (put_ensures (R := Ends) hf hrange hs hk.faithful (fun hno => absurd hk hno) ?_).mono
    fun _ _ h => ⟨h.1, h.2 hk⟩
  dsimp only [Ends]
  cases (p.entity.getD default).script.outcome with
  | error fault =>
    exact Monitored.delete_ensures htemp hstart fun _ u hsame hcalls => ⟨hcalls, rfl, hsame⟩
  | ok content =>
    intro encoder hsound
    let metadata := p.metadata.getD {}
    have hwrite := m.storage.serve_put (p.target.withSuffix settings.tempSuffix) (encoder.output content)
      metadata none
    refine ⟨?_, ?_⟩
    · refine Monitored.send_ensures hstart (fun e _ u _ => nofun) (fun _ u _ => ?_)
      rintro _ ⟨⟩
      exact m.storage.honest_objectOf _ metadata none
    · refine (Monitored.detour_ends htemp hstart rfl hwrite nofun (by simp)).weaken fun r u hu => ?_
      refine ⟨encoder, hsound, hu.1, ?_⟩
      rw [← publishedObject_sealed]
      exact hu.2 _

theorem put_atomic {p : Put} (hf : OneChecksum filters) (hsuffix : settings.tempSuffix ≠ "")
    (hk : settings.encryption.ring.current.Dependable) (hetag : m.reportedEtag = none)
    (hrange : p.range = none) (hs : (p.entity.getD default).Steady) :
    Ensures (recording Monitored.serve) ((make settings base filters).put p) (m, []) fun out t =>
      match ((p.entity.getD default).read .rest).1 with
      | .error fault => PutBroken settings m p fault out.1 t.1 t.2
      | .ok content => PutAtomic settings m p content out.1 t.1 t.2 :=
  (put_refusals hf hsuffix hk hetag hrange hs).mono fun _ _ h => h.1

/-- What is left by rekeying an object that can be decrypted. -/
def RekeyAtomic (settings : EncryptionSettings) (m : Monitored) (target : Identity) (object : StoredObject)
    (d : Decoder) (r : Except Error RekeyResult) (after : Monitored) (calls : List StorageCall) : Prop :=
  ∃ wrapped, settings.encryption.ring.current.unwrap wrapped = .ok d.dataKey ∧
    let temp := target.withSuffix settings.tempSuffix
    let write := StorageCall.copy target temp none none
    let publish := StorageCall.copy temp target
      (some (rekeyedMetadata settings.encryption object.metadata wrapped)) (some object.acl)
    ((calls = [.get target] ∧
        (m.refuses (.get target) ≠ none ∨
          d.envelope.masterKeyId = settings.encryption.ring.current.keyId)) ∨
      (d.envelope.masterKeyId ≠ settings.encryption.ring.current.keyId ∧
        m.refuses (.get target) = none ∧
        ((calls = [.get target, .acl target] ∧ m.refuses (.acl target) ≠ none) ∨
          (m.refuses (.acl target) = none ∧
            m.WentDetour [.get target, .acl target] write publish temp calls)))) ∧
    Atomic m after target temp publish (rekeyedObject settings m.storage object wrapped) calls r

/-- Rekeying of an object that is not encrypted. -/
def RekeyRefused (m : Monitored) (target : Identity) (r : Except Error RekeyResult) (after : Monitored)
    (calls : List StorageCall) : Prop :=
  calls = [.get target] ∧ after.storage = m.storage ∧
    r = .error ((m.refuses (.get target)).getD (.notEncrypted (some target)))

theorem rekey_refused {c : EncryptingClient} {object : StoredObject}
    (hk : c.encryption.encryption.ring.current.Dependable) (hetag : m.reportedEtag = none)
    (hget : m.storage.objects.get? target = some object)
    (hplain : Envelope.modeOf? object.metadata.user = none) :
    Ensures (recording Monitored.serve) (c.rekey target).run (m, []) fun r t =>
      RekeyRefused m target r t.1 t.2 := by
  have hstart : m.Called m.storage [] (m, []) := ⟨rfl, hetag, rfl, rfl⟩
  refine rekey_ensures hk.faithful (Monitored.send_ensures hstart (fun e he u hu => ?_) (fun hno u hu => ?_))
  · exact ⟨hu.calls, hu.storage, by rw [he]; rfl⟩
  · rw [Storage.serve_get hget] at hu ⊢
    exact .inl ⟨hplain, hu.calls, hu.storage, by rw [hno]; rfl⟩

theorem rekey_atomic {c : EncryptingClient} {object : StoredObject} {d : Decoder}
    (hsuffix : c.encryption.tempSuffix ≠ "") (hk : c.encryption.encryption.ring.current.Dependable)
    (hetag : m.reportedEtag = none) (hget : m.storage.objects.get? target = some object)
    (hd : c.encryption.encryption.decoder object.metadata.user = .ok d) :
    Ensures (recording Monitored.serve) (c.rekey target).run (m, []) fun r t =>
      RekeyAtomic c.encryption m target object d r t.1 t.2 := by
  have htemp : target.withSuffix c.encryption.tempSuffix ≠ target := target.withSuffix_ne hsuffix
  have hstart : m.Called m.storage [] (m, []) := ⟨rfl, hetag, rfl, rfl⟩
  obtain ⟨_, size, -, -, hsize⟩ := Encryption.unwrap_eq_ok_iff.mp (Encryption.decoder_eq_ok_iff.mp hd).2.2.1
  -- Where nothing is published, it does not matter which wrapped key would have been.
  obtain ⟨other, hother⟩ := hk.exists_wrapped hsize
  refine rekey_ensures hk.faithful (Monitored.send_ensures hstart (fun e he u hu => ?_) (fun hfound u hu => ?_))
  · refine ⟨other, hother, .inl ⟨hu.calls, .inl (by simp [he])⟩, ?_⟩
    rw [hu.calls]
    exact .of_refused (show m.refused [] = [] from rfl) he nofun (by simp) (by rw [hu.storage])
  rw [Storage.serve_get hget] at hu ⊢
  refine .inr ⟨d, hd, fun hid => ?_, fun hno => absurd hk hno, fun hid wrapped hwrapped => ?_⟩
  · refine ⟨other, hother, .inl ⟨hu.calls, .inr hid⟩, ?_⟩
    rw [hu.calls]
    exact .of_idle (m.refused_cons_of_none hfound []) (by simp) (by rw [hu.storage])
  refine Monitored.send_ensures hu (fun e he v hv => ?_) (fun hlisted v hv => ?_)
  · refine ⟨wrapped, hwrapped, .inr ⟨hid, hfound, .inl ⟨hv.calls, by simp [he]⟩⟩, ?_⟩
    rw [hv.calls]
    exact .of_refused (m.refused_cons_of_none hfound []) he nofun (by simp) (by rw [hv.storage])
  rw [Storage.serve_acl hget] at hv ⊢
  have hmade : m.refused [.get target, .acl target] = [] := by
    rw [m.refused_cons_of_none hfound, m.refused_cons_of_none hlisted]
    rfl
  have hwrite := Storage.serve_copy hget (target.withSuffix c.encryption.tempSuffix) none none
  refine (Monitored.detour_ends htemp hv hmade hwrite nofun (by simp)).weaken fun r x hx => ?_
  refine ⟨wrapped, hwrapped, .inr ⟨hid, hfound, .inr ⟨hlisted, hx.1⟩⟩, ?_⟩
  rw [← publishedObject_rekeyed]
  exact hx.2 _

/-- An encrypted write, or the rekeying of an object that the client can read,
is atomic on every store, whichever of its calls are refused. -/
theorem atomic_under_refusals (settings : EncryptionSettings) (hsuffix : settings.tempSuffix ≠ "")
    (hk : settings.encryption.ring.current.Dependable) (base : ClientSettings) {filters : List Filter}
    (hf : OneChecksum filters) {w : World Monitored} (hetag : w.state.reportedEtag = none) :
    let c := make settings base filters
    (∀ p : Put, p.range = none → (p.entity.getD default).Steady →
      let out := (c.put p).run Monitored.serve w
      let calls := (c.put p).calls Monitored.serve w
      match ((p.entity.getD default).read .rest).1 with
      | .error fault => PutBroken settings w.state p fault out.1.1 out.2.state calls
      | .ok content => PutAtomic settings w.state p content out.1.1 out.2.state calls) ∧
    ∀ (target : Identity) (plain : Bytes) (v : World Storage), v.state = w.state.storage →
      ((c.read target).run.run Storage.serve v).1 = .ok plain →
      let out := (c.rekey target).run.run Monitored.serve w
      let calls := (c.rekey target).run.calls Monitored.serve w
      ∃ object, w.state.storage.objects.get? target = some object ∧
        ((Envelope.modeOf? object.metadata.user = none ∧
          RekeyRefused w.state target out.1 out.2.state calls) ∨
        ∃ d, settings.encryption.decoder object.metadata.user = .ok d ∧
          RekeyAtomic settings w.state target object d out.1 out.2.state calls) := by
  intro c
  refine ⟨fun p hrange hs => ?_, fun target plain v hv hread => ?_⟩
  · intro out calls
    have hatomic : Ensures (recording Monitored.serve) (c.put p) (w.state, []) _ :=
      put_atomic hf hsuffix hk hetag hrange hs
    cases hread : ((p.entity.getD default).read .rest).1 with
    | error fault =>
      simp only [hread] at hatomic
      exact hatomic.of_recording rfl
    | ok content =>
      simp only [hread] at hatomic
      exact hatomic.of_recording rfl
  · obtain ⟨-, hopened⟩ := opened_of_read (s := w.state.storage) hf v hv
    obtain ⟨object, hget, hplain | ⟨d, hd, -⟩⟩ := hopened plain hread
    · have hrefused := rekey_refused (c := c) hk hetag hget hplain
      exact ⟨object, hget, .inl ⟨hplain, hrefused.of_recording rfl⟩⟩
    · have hatomic := rekey_atomic (c := c) hsuffix hk hetag hget hd
      exact ⟨object, hget, .inr ⟨d, hd, hatomic.of_recording rfl⟩⟩

/-- A store on which no temporary object can be deleted keeps the new object,
and once the object is there, a store that refuses nothing rekeys it. -/
theorem atomic_under_refusals_three :
    (let stuck : Monitored :=
        { refuses := fun c => if c = .delete ⟨"bucket", "key.temp"⟩ then some .badTag else none }
      let out := ((make oneKey {} Filter.default).put threeBytes).run Monitored.serve
        { entropy := Entropy.ofSeed "", state := stuck }
      ∃ object, out.2.state.storage.objects.get? ⟨"bucket", "key"⟩ = some object ∧ out.1.1 =
        .error (.orphanedTemp ⟨"bucket", "key"⟩ ⟨"bucket", "key.temp"⟩ (Client.copied object) .badTag)) ∧
    ∃ result, (((make twoKeys {} Filter.default).rekey ⟨"bucket", "key"⟩).run.run Monitored.serve
      { entropy := Entropy.ofSeed "", state := { storage :=
        (((make oneKey {} Filter.default).put threeBytes).run Storage.serve
          { entropy := Entropy.ofSeed "", state := {} }).2.state } }).1 = .ok result := by
  have hlen : ([1, 2, 3] : Bytes).length < 10 ^ Integer.maxDigits := Integer.lt_of_lt_ten (by decide)
  have hholds : (threeBytes.entity.getD default).Holds [1, 2, 3] := Stream.holds_ofBytes [1, 2, 3]
  refine ⟨?_, ?_⟩
  · intro stuck
    have hput := (atomic_under_refusals oneKey (by decide) rfl {} oneChecksum_default
      (w := { entropy := Entropy.ofSeed "", state := stuck }) rfl).1 threeBytes rfl hholds.steady
    have htemp : threeBytes.target.withSuffix oneKey.tempSuffix = ⟨"bucket", "key.temp"⟩ := by decide
    simp only [hholds.read_rest.1, PutAtomic, htemp] at hput
    obtain ⟨encoder, -, hcalls, hatomic⟩ := hput
    have hput : ∀ target content metadata acl offset,
        stuck.refuses (.put target content metadata acl offset) = none := fun _ _ _ _ _ => rfl
    have hcopy : ∀ source target metadata acl,
        stuck.refuses (.copy source target metadata acl) = none := fun _ _ _ _ => rfl
    have hdelete : stuck.refuses (.delete ⟨"bucket", "key.temp"⟩) = some .badTag := by decide
    simp only [Monitored.WentDetour, hput, if_true, List.nil_append] at hcalls
    rw [hcalls] at hatomic
    -- All calls but the deletion are served.
    obtain ⟨cause, hcause, hresult⟩ := hatomic.orphaned <| by
      rw [List.cons_append, stuck.refused_cons_of_none (hput ..), List.cons_append,
        stuck.refused_cons_of_none (hcopy ..), List.nil_append, stuck.refused_cons_of_some hdelete]
      rfl
    obtain rfl : Error.badTag = cause := Option.some.inj (hdelete.symm.trans hcause)
    have hplaced := hatomic.placed
    rw [if_pos ⟨List.mem_cons_of_mem _ List.mem_cons_self, hcopy ..⟩] at hplaced
    exact ⟨_, hplaced, hresult⟩
  · have hp : threeBytes.Brings [1, 2, 3] := hholds
    have hput : Ensures Storage.serve ((make oneKey {} Filter.default).put threeBytes) {} _ :=
      put_opened oneChecksum_default (by decide) rfl hp rfl hlen
    have hstored := hput { entropy := Entropy.ofSeed "", state := {} } rfl
    -- Nothing is to unfold the run that has stored the object.
    obtain ⟨s, hs⟩ : ∃ s, s = (((make oneKey {} Filter.default).put threeBytes).run Storage.serve
      { entropy := Entropy.ofSeed "", state := {} }).2.state := ⟨_, rfl⟩
    rw [← hs] at hstored ⊢
    obtain ⟨object, hget, hhonest, hopens⟩ := hstored
    have hopened : twoKeys.encryption.Opens object [1, 2, 3] := hopens twoKeys.encryption rfl
    have hread : Ensures Storage.serve ((make twoKeys {} Filter.default).read ⟨"bucket", "key"⟩).run s _ :=
      read_opened oneChecksum_default hget hhonest hopened
    obtain ⟨found, hfound, ⟨hplain, -⟩ | ⟨d, -, _, -, -, hatomic⟩⟩ :=
      (atomic_under_refusals twoKeys (by decide) rfl {} oneChecksum_default
        (w := { entropy := Entropy.ofSeed "", state := { storage := s } }) rfl).2 ⟨"bucket", "key"⟩ [1, 2, 3]
        { entropy := Entropy.ofSeed "", state := s } rfl (hread _ rfl).2
    · obtain rfl : object = found := Option.some.inj (hget.symm.trans hfound)
      exact absurd hplain hopened.mode_ne_none
    · exact hatomic.returns.mpr (List.filter_eq_nil_iff.mpr fun _ _ => Bool.false_ne_true)

end EncryptingClient

end SealedStore
