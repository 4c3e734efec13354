import SealedStore.Entropy
import SealedStore.Proofs.Calls
import SealedStore.Proofs.Consistency
import SealedStore.Proofs.EncryptedWrite
import SealedStore.Storage.Monitored
/-!
# Footprints of writes

An encrypted write or a rekeying changes the object that it is made for and the
place of its temporary object, which is deleted last. Every other object stays
as it was, whatever the filters and the keys are, and whichever calls fail, with
or without an effect. That the temporary place is free is not looked up: the
suffix is reserved, and an object that is stored under it is lost.

What is proved:
  1. `Storage.get?_serve` — what a call leaves alone.
  2. `Filter.only_through` — filters add no calls of their own.
  3. `EncryptingClient.put_footprint`, `rekey_footprint` — writes and rekeyings.
  4. `EncryptingClient.other_objects_kept` — the same for every run.
-/

namespace SealedStore

open Program (Ensures Only recording)

/-! ## Calls -/

/-- A call may change the object at an address. Which one an upload becomes is
known to the store alone. -/
def StorageCall.Writes : StorageCall → Identity → Prop
  | .put target _ _ _ _, i | .copy _ target _ _, i | .delete target, i => target = i
  | .complete _ _, _ => True
  | _, _ => False

/-- A call that changes no object. -/
def StorageCall.Reads (c : StorageCall) : Prop := ∀ i, ¬ c.Writes i

namespace Storage
variable {i : Identity}

/-- A call leaves every object alone but the one it writes. -/
theorem get?_serve {c : StorageCall} (h : ¬ c.Writes i) (s : Storage) :
    (serve c s).2.objects.get? i = s.objects.get? i := by
  cases c with
  | get | acl | list | initiate | now => rfl
  | put target content metadata acl offset =>
    -- The offset decides what is stored, not where.
    cases offset with
    | none => exact s.get?_store_other h ..
    | some offset => exact s.get?_store_other h ..
  | copy source target metadata acl =>
    refine settle_keeps (P := fun t => t.objects.get? i = s.objects.get? i) rfl fun out hcopy => ?_
    obtain ⟨object, -, hout⟩ := bind_eq_ok_iff.mp hcopy
    obtain rfl := Except.ok.inj hout
    exact s.get?_store_other h ..
  | delete target => exact (Table.get?_erase ..).trans (if_neg h)
  | uploadPart uploadId number content =>
    -- A part goes into its upload and not among the objects.
    refine settle_keeps (P := fun t => t.objects.get? i = s.objects.get? i) rfl fun out hpart => ?_
    obtain ⟨upload, -, hout⟩ := bind_eq_ok_iff.mp hpart
    obtain rfl := Except.ok.inj hout
    rfl
  | complete => exact absurd trivial h
  | abort uploadId =>
    refine settle_keeps (P := fun t => t.objects.get? i = s.objects.get? i) rfl fun out habort => ?_
    rw [eq_of_abort habort]

variable {σ : Type} {serve : Program.Service StorageInterface σ} {view : σ → Storage}

/-- Behind a service there is a store to which every call does what it does to a
store in memory, or nothing. What is replied is left open: a call may fail with
or without an effect. -/
def Behind (serve : Program.Service StorageInterface σ) (view : σ → Storage) : Prop :=
  ∀ c s, view (serve c s).2 = view s ∨ view (serve c s).2 = (Storage.serve c (view s)).2

theorem Behind.get?_serve (h : Behind serve view) {c : StorageCall} (hc : ¬ c.Writes i) (s : σ) :
    (view (serve c s).2).objects.get? i = (view s).objects.get? i := by
  rcases h c s with hsame | hserved
  · rw [hsame]
  · rw [hserved]
    exact Storage.get?_serve hc (view s)

end Storage

theorem Monitored.behind_serve : Storage.Behind Monitored.serve Monitored.storage := by
  intro c m
  cases hno : m.refuses c with
  | some e => exact .inl (storage_refused hno)
  | none => exact .inr (storage_served hno)

/-! ## Programs without calls -/

section
variable {I : Interface} {P : I.Call → Prop}

theorem MasterKey.only_wrap (k : MasterKey) (dataKey : SecretKey) :
    Only P (k.wrap dataKey : Attempt I Bytes).run := by
  cases k with
  | aes key name =>
    simp only [wrap, SecretKey.wrap]
    split
    · trivial
    · exact fun _ => trivial
  | rsa key =>
    rw [run_wrap_rsa]
    exact fun _ => trivial

namespace Encryption

theorem only_wrapCurrent (e : Encryption) (dataKey : SecretKey) :
    Only P (e.wrapCurrent dataKey : Attempt I Bytes).run := by
  refine (MasterKey.only_wrap ..).recover fun fault => ?_
  split <;> trivial

theorem only_encode (e : Encryption) (source : Stream) : Only P (e.encode source : Attempt I Stream).run := by
  refine Only.attempt (p := e.newEncoder) (fun iv material => ?_) fun _ => trivial
  exact Only.attempt (e.only_wrapCurrent _) fun _ => trivial

theorem only_rekey (e : Encryption) (m : UserMetadata) : Only P (e.rekey m : Attempt I UserMetadata).run := by
  refine Only.attempt (p := Attempt.of (Envelope.read m)) trivial fun envelope => ?_
  -- The test stands in front of a join point, where `split` does not find it.
  by_cases hid : envelope.masterKeyId = e.ring.current.keyId
  · simp only [hid, if_true]
    trivial
  · simp only [hid, if_false]
    refine Only.attempt (p := Attempt.of (e.unwrap envelope)) trivial fun dataKey => ?_
    exact Only.attempt (e.only_wrapCurrent dataKey) fun _ => trivial

end Encryption

end

/-! ## Handlers -/

/-- A handler makes only such calls for a request with a target and an operation,
whatever else the request says. -/
def Handler.Only {I : Interface} (P : I.Call → Prop) (target : Identity) (operation : Operation)
    (h : Handler I) : Prop :=
  ∀ r : Request, r.target = target → r.operation = operation → Program.Only P (h r)

namespace Filter
variable {I : Interface} {P : I.Call → Prop} {target : Identity} {operation : Operation} {next : Handler I}

theorem only_log (h : Handler.Only P target operation next) : Handler.Only P target operation (log next) := by
  intro r htarget hop
  refine (h r htarget hop).bind ?_
  rintro ⟨reply, back⟩
  cases reply <;> trivial

theorem only_checkDigests (h : Handler.Only P target operation next) :
    Handler.Only P target operation (checkDigests next) := by
  intro r htarget hop
  unfold checkDigests
  split
  · refine Program.Only.bind (h { r with entity := some _ } htarget hop) ?_
    rintro ⟨reply, back⟩
    cases reply with
    | error e => trivial
    | ok response =>
      dsimp only
      split
      · trivial
      · split <;> trivial
  · refine (h r htarget hop).bind ?_
    rintro ⟨reply, back⟩
    dsimp only
    split <;> trivial

theorem only_encrypt (e : Encryption) (h : Handler.Only P target operation next) :
    Handler.Only P target operation (encrypt e next) := by
  intro r htarget hop
  unfold encrypt
  split
  · trivial
  · refine (e.only_encode _).bind fun encoded => ?_
    cases encoded with
    | error fault => trivial
    | ok stream =>
      refine Program.Only.bind (h { r with entity := some stream, contentLength := _ } htarget hop) ?_
      rintro ⟨reply, back⟩
      cases reply with
      | error fault => trivial
      | ok response =>
        dsimp only
        split <;> trivial

theorem only_transcode (e : Encryption) (h : Handler.Only P target operation next) :
    Handler.Only P target operation (transcode e next) := by
  intro r htarget hop
  unfold transcode
  split
  · exact only_encrypt e h r htarget hop
  · refine (h r htarget hop).bind ?_
    rintro ⟨reply, back⟩
    dsimp only
    split <;> trivial

theorem only_around (h : Handler.Only P target operation next) (f : Filter) :
    Handler.Only P target operation (f.around next) := by
  cases f with
  | logging => exact only_log h
  | checksum => exact only_checkDigests h
  | codec e => exact only_transcode e h

/-- Filters add no calls to those of the handler behind them. -/
theorem only_through (h : Handler.Only P target operation next) (filters : List Filter) :
    Handler.Only P target operation (through filters next) := by
  induction filters with
  | nil => exact h
  | cons f rest ih => exact only_around ih f

end Filter

theorem Handler.only_carryOut {P : StorageCall → Prop} {target : Identity} {operation : Operation}
    (h : ∀ content, Program.Only P (Storage.carryOutWith target content operation).run) :
    Handler.Only P target operation Storage.carryOut := by
  rintro r rfl rfl
  cases hentity : r.entity with
  | none =>
    simp only [Storage.carryOut, Storage.readEntity, hentity]
    exact (h []).bind fun _ => trivial
  | some stream =>
    simp only [Storage.carryOut, Storage.readEntity, hentity]
    cases (stream.read .rest).1 with
    | error e => trivial
    | ok content => exact (h content).bind fun _ => trivial

/-! ## Requests -/

namespace Client
variable {c : Client} {P : StorageCall → Prop} {r : Request}

theorem only_handle (h : ∀ content, Only P (Storage.carryOutWith r.target content r.operation).run) :
    Only P (c.handle r) :=
  Filter.only_through (Handler.only_carryOut h) c.filters r rfl rfl

theorem only_execute (h : ∀ content, Only P (Storage.carryOutWith r.target content r.operation).run) :
    Only P (c.execute r).run := (only_handle h).bind fun _ => trivial

variable (c) (target : Identity)

theorem only_metadata : Only StorageCall.Reads (c.metadata target).run := by
  refine Only.attempt (only_execute fun _ => ?_) fun _ => trivial
  exact Only.attempt ⟨fun _ => id, fun _ => trivial⟩ fun _ => trivial

theorem only_acl : Only StorageCall.Reads (c.acl target).run := by
  refine Only.attempt (only_execute fun _ => ?_) fun response => ?_
  · exact Only.attempt ⟨fun _ => id, fun _ => trivial⟩ fun _ => trivial
  · split <;> trivial

end Client

/-! ## What is left alone -/

section
variable {σ : Type} {serve : Program.Service StorageInterface σ} {view : σ → Storage} {target temp : Identity}
  {s : σ} {t : σ × List StorageCall}

/-- All objects but two are as they were. -/
def OthersKept (view : σ → Storage) (target temp : Identity) (s t : σ) : Prop :=
  ∀ i, i ≠ target → i ≠ temp → (view t).objects.get? i = (view s).objects.get? i

/-- What a run leaves alone that is made for one object: every object but that
one and the temporary one, and these too if it does not delete the temporary
object. If it does, that is the last it does to the store. -/
structure Footprint (serve : Program.Service StorageInterface σ) (view : σ → Storage) (target temp : Identity)
    (s t : σ) (calls : List StorageCall) : Prop where
  others : OthersKept view target temp s t
  idle : .delete temp ∉ calls → ∀ i, (view t).objects.get? i = (view s).objects.get? i
  deleted : .delete temp ∈ calls → ∃ u, t = (serve (.delete temp) u).2

/-- So far there were only calls that change nothing. -/
structure Untouched (view : σ → Storage) (temp : Identity) (s : σ) (t : σ × List StorageCall) : Prop where
  same : ∀ i, (view t.1).objects.get? i = (view s).objects.get? i
  calls : .delete temp ∉ t.2

theorem OthersKept.served (h : Storage.Behind serve view) {u : σ} (hu : OthersKept view target temp s u)
    {c : StorageCall} (hc : ∀ i, c.Writes i → i = target ∨ i = temp) :
    OthersKept view target temp s (serve c u).2 := by
  intro i htarget htemp
  have hno : ¬ c.Writes i := fun hw => (hc i hw).elim htarget htemp
  rw [h.get?_serve hno u]
  exact hu i htarget htemp

theorem Untouched.footprint (h : Untouched view temp s t) : Footprint serve view target temp s t.1 t.2 :=
  ⟨fun i _ _ => h.same i, fun _ => h.same, fun hdeleted => absurd hdeleted h.calls⟩

theorem Untouched.served (h : Storage.Behind serve view) (ht : Untouched view temp s t) {c : StorageCall}
    (hc : c.Reads) : Untouched view temp s (recording serve c t).2 where
  same i := (h.get?_serve (hc i) t.1).trans (ht.same i)
  calls hmem := by
    rcases List.mem_append.mp hmem with hbefore | hnow
    · exact ht.calls hbefore
    -- A deletion would write the temporary place.
    · obtain rfl : .delete temp = c := List.mem_singleton.mp hnow
      exact hc temp rfl

/-- What comes before a run's first change may fail. -/
theorem Untouched.first {α β : Type} {p : StorageTask α} {f : α → StorageTask β}
    (h : Storage.Behind serve view) (ht : Untouched view temp s t) (hp : Only StorageCall.Reads p.run)
    (hf : ∀ a u, Untouched view temp s u →
      Ensures (recording serve) (f a).run u fun _ v => Footprint serve view target temp s v.1 v.2) :
    Ensures (recording serve) (p >>= f).run t fun _ v => Footprint serve view target temp s v.1 v.2 := by
  refine .attempt ((hp.keeps (fun _ _ hc hu => hu.served h hc) ht).mono fun r u hu => ?_)
  cases r with
  | error e => exact hu.footprint
  | ok a => exact hf a u hu

theorem OthersKept.deleted (h : Storage.Behind serve view) (ht : OthersKept view target temp s t.1) :
    Ensures (recording serve) (StorageCall.delete temp).send.run t fun _ v =>
      Footprint serve view target temp s v.1 v.2 := by
  have hkept : OthersKept view target temp s (serve (.delete temp) t.1).2 :=
    ht.served h fun i hi => .inr hi.symm
  exact StorageCall.send_ensures ⟨hkept, fun hno => absurd List.mem_concat_self hno, fun _ => ⟨t.1, rfl⟩⟩

/-- A detour whose first part leaves the other objects alone leaves them alone. -/
theorem OthersKept.detour {α : Type} {write : StorageTask α} {metadata : Option Metadata}
    {acl : Option AccessList} (h : Storage.Behind serve view)
    (hwrite : Ensures (recording serve) write.run t fun _ u => OthersKept view target temp s u.1) :
    Detour.Ends (recording serve) write (StorageCall.copy temp target metadata acl).send
      (StorageCall.delete temp).send (fun _ v => Footprint serve view target temp s v.1 v.2) t := by
  refine hwrite.mono fun wrote u hu => ?_
  cases wrote with
  | error e => exact hu.deleted h
  | ok a =>
    have hpublish : OthersKept view target temp s (serve (.copy temp target metadata acl) u.1).2 :=
      hu.served h fun i hi => .inl hi.symm
    refine StorageCall.send_ensures ?_
    cases (recording serve (.copy temp target metadata acl) u).1 with
    | error e => exact OthersKept.deleted h hpublish
    | ok object =>
      refine (OthersKept.deleted h hpublish).mono fun deleted v hv => ?_
      cases deleted <;> exact hv

end

/-! ## Clients -/

namespace EncryptingClient
variable {σ : Type} {serve : Program.Service StorageInterface σ} {view : σ → Storage}

theorem put_footprint (h : Storage.Behind serve view) (c : EncryptingClient) (p : Put) (s : σ) :
    Ensures (recording serve) (c.put p) (s, []) fun _ t =>
      Footprint serve view p.target (p.target.withSuffix c.encryption.tempSuffix) s t.1 t.2 := by
  let temp := p.target.withSuffix c.encryption.tempSuffix
  unfold put
  cases p.range.isSome with
  | true => exact .done (Untouched.footprint ⟨fun _ => rfl, List.not_mem_nil⟩)
  | false =>
    rw [if_neg (by decide)]
    -- Whatever the filters make of the entity, all that is called is the first write.
    have honly : Only (fun call : StorageCall => ∀ i, call.Writes i → i = p.target ∨ i = temp)
        (c.base.handle (tempRequest p temp (p.metadata.getD {}))) := by
      refine Client.only_handle fun content => ?_
      exact Only.attempt ⟨fun i hi => .inr hi.symm, fun _ => trivial⟩ fun _ => trivial
    have hkept : Ensures (recording serve) (c.base.handle (tempRequest p temp (p.metadata.getD {}))) (s, [])
        fun _ t => OthersKept view p.target temp s t.1 :=
      honly.keeps (fun _ _ hc ht => ht.served h hc) fun _ _ _ => rfl
    refine .seq hkept ?_
    rintro ⟨stored, sent⟩ t ht
    have hwritten : Ensures (recording serve) (Attempt.of stored : StorageTask Response).run t
        fun _ u => OthersKept view p.target temp s u.1 := .done ht
    refine .seq (Client.travel_ensures
      (R := fun _ (u : σ × List StorageCall) => Footprint serve view p.target temp s u.1 u.2) rfl
      (OthersKept.detour h hwritten)) fun _ _ hr => .done hr

theorem only_rekeyEntries {P : StorageCall → Prop} (c : EncryptingClient) (target : Identity) (m : UserMetadata) :
    Only P (c.rekeyEntries target m).run := by
  refine Only.recover ?_ fun e => ?_
  · exact (Encryption.only_rekey ..).bind fun r => by cases r <;> trivial
  · split <;> trivial

theorem rekey_footprint (h : Storage.Behind serve view) (c : EncryptingClient) (target : Identity) (s : σ) :
    Ensures (recording serve) (c.rekey target).run (s, []) fun _ t =>
      Footprint serve view target (target.withSuffix c.encryption.tempSuffix) s t.1 t.2 := by
  let temp := target.withSuffix c.encryption.tempSuffix
  have hstart : Untouched view temp s (s, []) := ⟨fun _ => rfl, List.not_mem_nil⟩
  unfold rekey
  refine hstart.first h (c.base.only_metadata target) fun metadata t ht => ?_
  refine ht.first h (p := Attempt.of _) trivial fun oldKeyId u hu => ?_
  refine hu.first h (c.only_rekeyEntries target metadata.user) fun changed v hv => ?_
  cases changed with
  | none => exact .log (.done hv.footprint)
  | some entries =>
    refine hv.first h (c.base.only_acl target) fun acl x hx => ?_
    -- All calls so far were look-ups; the detour is the first to write.
    have hkept : OthersKept view target temp s x.1 := fun i _ _ => hx.same i
    have hcopied : Ensures (recording serve) (StorageCall.copy target temp none none).send.run x
        fun _ y => OthersKept view target temp s y.1 :=
      StorageCall.send_ensures (hkept.served h fun i hi => .inr hi.symm)
    refine .attempt (.seq (Client.travel_copies
      (R := fun _ (y : σ × List StorageCall) => Footprint serve view target temp s y.1 y.2) rfl
      (OthersKept.detour h hcopied)) ?_)
    rintro ⟨r, _⟩ y hy
    cases r with
    | error failure => exact .done (.attempt (.done hy))
    | ok => exact .done (.attempt (.done (.log (.done hy))))

/-- An encrypted write or a rekeying leaves every object alone but the one that
it is made for and the one at its temporary place. -/
theorem other_objects_kept (c : EncryptingClient) (h : Storage.Behind serve view) (w : World σ) :
    (∀ p : Put, Footprint serve view p.target (p.target.withSuffix c.encryption.tempSuffix) w.state
      ((c.put p).run serve w).2.state ((c.put p).calls serve w)) ∧
    ∀ target, Footprint serve view target (target.withSuffix c.encryption.tempSuffix) w.state
      ((c.rekey target).run.run serve w).2.state ((c.rekey target).run.calls serve w) :=
  ⟨fun p => (put_footprint h c p w.state).of_recording rfl,
    fun target => (rekey_footprint h c target w.state).of_recording rfl⟩

def oneByte (key : String) (b : UInt8) : Put :=
  Put.make ⟨"bucket", key⟩ (some (.bytes [b])) none none none

/-- A neighbour stays when a store copies nothing. -/
theorem other_objects_kept_neighbour :
    let neighbour : Identity := ⟨"bucket", "other"⟩
    let object : StoredObject := { content := [7], metadata := {} }
    let stuck : StorageCall → Option Error := fun
      | .copy _ _ _ _ => some .badTag
      | _ => none
    let shelf : Monitored := { storage := ({} : Storage).withObject neighbour object, refuses := stuck }
    let out := ((make oneKey {} Filter.default).put (oneByte "key" 1)).run Monitored.serve
      { entropy := Entropy.ofSeed "", state := shelf }
    out.2.state.storage.objects.get? neighbour = some object := by
  intro neighbour object stuck shelf
  have hfoot := (other_objects_kept (make oneKey {} Filter.default) Monitored.behind_serve
    { entropy := Entropy.ofSeed "", state := shelf }).1 (oneByte "key" 1)
  have hkept := hfoot.others neighbour (by decide) (by decide)
  have hshelf := Storage.get?_withObject {} neighbour object
  exact hkept.trans hshelf

/-- Nobody looks whether the temporary place is free: an object that the client
stored there first is gone once it writes the other. -/
theorem put_clears_temp :
    let c := make oneKey {} Filter.default
    ∃ (w : World Storage) (object : StoredObject),
      w = ((c.put (oneByte "doc.temp" 1)).run Storage.serve { entropy := Entropy.ofSeed "", state := {} }).2 ∧
      w.state.objects.get? ⟨"bucket", "doc.temp"⟩ = some object ∧
      let out := (c.put (oneByte "doc" 2)).run Storage.serve w
      (∃ result, out.1.1 = .ok result) ∧ out.2.state.objects.get? ⟨"bucket", "doc.temp"⟩ = none := by
  intro c
  have hput : ∀ (key : String) (b : UInt8) (s : Storage), Ensures Storage.serve (c.put (oneByte key b)) s
      fun out t => Wrote oneKey s (oneByte key b) [b] out.1 t := by
    intro key b s
    have hbrings : (oneByte key b).Brings [b] := Stream.holds_ofBytes [b]
    exact put_wrote oneChecksum_default (by decide) rfl hbrings rfl
  obtain ⟨_, -, hstored, -⟩ := hput "doc.temp" 1 {} { entropy := Entropy.ofSeed "", state := {} } rfl
  -- The first run is given a name, so that nothing unfolds it in the second.
  obtain ⟨w, hw⟩ : ∃ w, w = ((c.put (oneByte "doc.temp" 1)).run Storage.serve
    { entropy := Entropy.ofSeed "", state := {} }).2 := ⟨_, rfl⟩
  rw [← hw] at hstored
  obtain ⟨object, hget⟩ : ∃ object, w.state.objects.get? ⟨"bucket", "doc.temp"⟩ = some object := by
    rw [hstored]
    exact ⟨_, (Table.get?_insert ..).trans (if_pos rfl)⟩
  obtain ⟨_, -, hpublished, hresult⟩ := hput "doc" 2 w.state w rfl
  refine ⟨w, object, hw, hget, ⟨_, hresult⟩, ?_⟩
  rw [hpublished]
  refine (Table.get?_insert ..).trans ((if_neg (by decide)).trans ?_)
  exact (Table.get?_erase ..).trans (if_pos (by decide))

end EncryptingClient

end SealedStore
