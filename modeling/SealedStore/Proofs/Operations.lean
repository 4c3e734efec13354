import SealedStore.Proofs.Transcoding
import SealedStore.Proofs.Travel
/-!
# Operations of clients

How the operations of a client end, in terms of the calls they make. A request
without content becomes a call whatever the filters are; reads and encrypted
writes are those of a client with one codec.

What is proved:
  1. `Client.copy_ensures`, `delete_ensures`, `metadata_ensures`, `acl_ensures`
     — operations of one call.
  2. `Client.travel_ensures` — detours.
  3. `EncryptingClient.get_ensures` — reads.
-/

namespace SealedStore

open Program (Ensures)

variable {σ : Type} {serve : Program.Service StorageInterface σ} {s : σ} {source target : Identity}

/-! ## Requests without content -/

namespace Client
variable {c : Client} {r : Request}

def copied (object : StoredObject) : WriteResult :=
  { written (Storage.shown object) with copiedAt := object.metadata.lastModified }

theorem execute_inert (hr : r.Inert) : (c.execute r).run =
    c.filters.foldr (Filter.passing r) (Storage.carryOutWith r.target [] r.operation).run := by
  have hhandle : c.handle r =
      c.filters.foldr (Filter.passing r) (Storage.carryOutWith r.target [] r.operation).run >>=
        fun reply => pure (reply, r) := Filter.through_inert hr (Handler.carryOut_eq hr.entity)
  show (c.handle r >>= fun out => pure out.1) = _
  rw [hhandle, bind_assoc]
  simp only [pure_bind]
  exact Program.bind_done _

theorem execute_ensures {R : Except Error Response → σ → Prop} (hr : r.Inert)
    (h : Ensures serve (Storage.carryOutWith r.target [] r.operation).run s R) :
    Ensures serve (c.execute r).run s R := by
  rw [execute_inert hr]
  exact Filter.passing_ensures h

theorem copy_ensures {metadata : Option Metadata} {acl : Option AccessList}
    {R : Except Error WriteResult → σ → Prop}
    (h : Ensures serve (StorageCall.copy source target metadata acl).send.run s fun reply t =>
      R (reply.map copied) t) : Ensures serve (c.copy source target metadata acl).run s R := by
  refine .map (execute_ensures ⟨rfl, rfl, rfl, rfl⟩ (.map (h.mono fun reply t hr => ?_)))
  cases reply <;> exact hr

theorem delete_ensures {R : Except Error Unit → σ → Prop}
    (h : Ensures serve (StorageCall.delete target).send.run s R) :
    Ensures serve (c.delete target).run s R := by
  refine .map (execute_ensures ⟨rfl, rfl, rfl, rfl⟩ (.map (h.mono fun reply t hr => ?_)))
  cases reply <;> exact hr

theorem metadata_ensures {R : Except Error Metadata → σ → Prop}
    (h : Ensures serve (StorageCall.get target).send.run s fun reply t =>
      R (reply.map StoredObject.metadata) t) :
    Ensures serve (c.metadata target).run s R := by
  refine .map (execute_ensures ⟨rfl, rfl, rfl, rfl⟩ (.map (h.mono fun reply t hr => ?_)))
  cases reply <;> exact hr

theorem acl_ensures {R : Except Error AccessList → σ → Prop}
    (h : Ensures serve (StorageCall.acl target).send.run s R) :
    Ensures serve (c.acl target).run s R := by
  refine .attempt (execute_ensures ⟨rfl, rfl, rfl, rfl⟩ (.map (h.mono fun reply t hr => ?_)))
  cases reply with
  | error e => exact hr
  | ok acl => exact .done hr

/-! ### Detours -/

/-- What is handed back of a detour that was to publish an object. -/
def concluded {α : Type} (target temp : Identity) (finish : WriteResult → α) :
    Except (DetourFailure StoredObject) StoredObject → Except Error α
  | .ok object => .ok (finish (copied object))
  | .error (.failed e) => .error e
  | .error (.orphaned object cause) => .error (.orphanedTemp target temp (copied object) cause)

theorem concluded_map {α β : Type} (target temp : Identity) (finish : WriteResult → α) (f : α → β)
    (r : Except (DetourFailure StoredObject) StoredObject) :
    (concluded target temp finish r).map f = concluded target temp (fun result => f (finish result)) r := by
  cases r with
  | ok object => rfl
  | error failure => cases failure <;> rfl

/-- A detour whose object is published by a copy makes one call for that, and
one to delete the temporary object. -/
theorem travel_ensures {α β : Type} {d : Detour WriteResult} {write : StorageTask β}
    {metadata : Option Metadata} {acl : Option AccessList} {finish : WriteResult → α}
    {R : Except Error α → σ → Prop} (hd : d.phase = .started)
    (h : Detour.Ends serve write (StorageCall.copy source target metadata acl).send
      (StorageCall.delete d.temp).send (fun r t => R (concluded d.target d.temp finish r) t) s) :
    Ensures serve (Detour.travel c.delete d do
      let _ ← Detour.attempt write
      Detour.written
      let result ← Detour.attempt (c.copy source target metadata acl)
      Detour.published result
      return finish result) s fun out t => R (out.1.mapError (·.toError d.target d.temp)) t := by
  refine Detour.travel_ensures (R := fun r t => R (r.mapError (·.toError d.target d.temp)) t) hd
    (h.mono fun wrote t ht => ?_)
  cases wrote with
  | error e => exact delete_ensures ht
  | ok b =>
    refine copy_ensures (ht.mono fun copied u hu => ?_)
    cases copied with
    | error e => exact delete_ensures hu
    | ok object =>
      refine delete_ensures (hu.mono fun deleted v hv => ?_)
      cases deleted with
      | ok => exact hv
      | error cause => exact hv

/-- A detour that copies an object onto itself makes one call more. -/
theorem travel_copies {d : Detour WriteResult} {metadata : Option Metadata} {acl : Option AccessList}
    {R : Except Error Unit → σ → Prop} (hd : d.phase = .started)
    (h : Detour.Ends serve (StorageCall.copy d.target d.temp none none).send
      (StorageCall.copy d.temp d.target metadata acl).send (StorageCall.delete d.temp).send
      (fun r t => R (concluded d.target d.temp (fun _ => ()) r) t) s) :
    Ensures serve (Detour.travel c.delete d do
      let _ ← Detour.attempt (c.copy d.target d.temp none none)
      Detour.written
      Detour.published (← Detour.attempt (c.copy d.temp d.target metadata acl)))
      s fun out t => R (out.1.mapError (·.toError d.target d.temp)) t := by
  have hcopy : Detour.Ends serve (c.copy d.target d.temp none none)
      (StorageCall.copy d.temp d.target metadata acl).send (StorageCall.delete d.temp).send
      (fun r t => R (concluded d.target d.temp (fun _ => ()) r) t) s := by
    refine copy_ensures (h.mono fun reply t ht => ?_)
    cases reply <;> exact ht
  have htravel := travel_ensures (c := c) hd hcopy
  simpa only [bind_pure_unit] using htravel

end Client

/-! ## Reads -/

namespace EncryptingClient
variable {settings : EncryptionSettings} {base : ClientSettings} {filters : List Filter}

abbrev usual (settings : EncryptionSettings) (base : ClientSettings) : EncryptingClient :=
  make settings base Filter.default

/-- A read of a whole object hands out what the codec makes of its content. -/
theorem get_ensures {R : Except Error ObjectContent → σ → Prop} (hf : OneChecksum filters)
    (h : Ensures serve (StorageCall.get target).send.run s fun reply t =>
      match reply with
      | .error e => R (.error e) t
      | .ok object => ∀ stream : Stream, stream.Delivers object.content object.metadata.etag →
        R ((Filter.decrypt settings.encryption { Storage.shown object with entity := some stream }).map
          fun response => { body := response.entity.getD default, metadata := response.metadata.getD {} }) t) :
    Ensures serve ((make settings base filters).get target none).run s R := by
  let r : Request := { target, operation := .get none, properties := { decode := true } }
  show Ensures serve ((make settings base filters).base.execute r >>= fun response =>
      pure { body := response.entity.getD default, metadata := response.metadata.getD {} }).run s R
  refine .map (.bind (handle_ensures hf fun next _ hfetches => ?_))
  refine Filter.transcode_fetches (r := r) hfetches rfl rfl rfl rfl (h.mono ?_)
  intro reply t hr
  cases reply with
  | error e => exact .done hr
  | ok object => exact fun stream hstream => .done (hr stream hstream)

end EncryptingClient

end SealedStore
