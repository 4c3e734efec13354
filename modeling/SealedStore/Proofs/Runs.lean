import SealedStore.Client.Either
import SealedStore.Entropy
import SealedStore.Proofs.Mirror
/-!
# Runs of an encrypting client

A run is any sequence of operations of an encrypting client over one store, of
which some are refused, and between which the client may be replaced by one
with a new master key in front of its ring. A map from addresses to plain
objects follows the run. As long as no address of the run is the temporary
place of another, the store mirrors that map after every step, and so whatever
is read after the run is what the map holds.

What is proved:
  1. `Action.perform_agrees` — one step keeps store and map together.
  2. `Action.run_agrees` — so does a run.
  3. `Action.reads_after_run` — what is read after a run that began with an
     empty store.
-/

namespace SealedStore

open Program (Ensures)
open EncryptingClient (usual oneKey)

/-! ## Operations that are refused -/

/-- What an encrypting client only has in order to refuse it. -/
inductive Refused where
  | putRange (p : Put) (range : ByteRange)
  | getRange (target : Identity) (range : ByteRange)
  | copyReplacing (source target : Identity) (metadata : Metadata) (acl : Option AccessList)
  | setMetadata (target : Identity) (metadata : Option Metadata)
  | link (request : LinkRequest)
  | linkFromNow (target : Identity) (method : String)
  | multipart (step : Client → StorageTask Unit)

namespace Refused

def perform (c : EncryptingClient) : Refused → Program StorageInterface Unit
  | .putRange p range => discard (c.put { p with range := some range })
  | .getRange target range => discard (c.get target (some range)).run
  | .copyReplacing source target metadata acl => discard (c.copy source target (some metadata) acl).run
  | .setMetadata target metadata => discard ((AnyClient.encrypting c).setMetadata target metadata).run
  | .link request => discard (Attempt.of ((AnyClient.encrypting c).link request) : StorageTask String).run
  | .linkFromNow target method => discard ((AnyClient.encrypting c).linkFromNow target method).run
  | .multipart step => discard ((AnyClient.encrypting c).multipart step).run

theorem linkExpiry_ensures (c : Client) (s : Storage) :
    Ensures Storage.serve c.linkExpiry.run s fun _ t => t.objects = s.objects := by
  unfold Client.linkExpiry
  exact .attempt (StorageCall.send_ensures (c := .now) (.of rfl))

/-- A refused operation may ask for the time, and touches no object. -/
theorem perform_ensures (r : Refused) (c : EncryptingClient) (s : Storage) :
    Ensures Storage.serve (r.perform c) s fun _ t => t.objects = s.objects := by
  cases r with
  | putRange p range => exact .discard (.done rfl)
  | getRange target range => exact .discard (.done rfl)
  | copyReplacing source target metadata acl => exact .discard (.done rfl)
  | setMetadata target metadata => exact .discard (.done rfl)
  | link request => exact .discard (.done rfl)
  | linkFromNow target method =>
    refine .discard ?_
    show Ensures Storage.serve c.linkFromNow.run s _
    unfold EncryptingClient.linkFromNow
    refine .attempt ?_
    refine (linkExpiry_ensures c.base s).mono ?_
    intro expiry t ht
    cases expiry with
    | ok expiration => exact .done ht
    | error e => exact ht
  | multipart step => exact .discard (.done rfl)

end Refused

/-! ## Steps -/

/-- A step of a run. Every client of the run has the same suffix for temporary
places. -/
inductive Action where
  | put (target : Identity) (content : Bytes) (metadata : Option Metadata) (acl : Option AccessList)
  | copy (source target : Identity) (acl : Option AccessList)
  | delete (target : Identity)
  | rekey (target : Identity)
  | read (target : Identity)
  | refused (operation : Refused)
  | rotate (key : MasterKey) (keySize : KeySize)

namespace Action

def perform (c : EncryptingClient) : Action → Program StorageInterface Unit
  | .put target content metadata acl => discard (c.put (Put.make target (some (.bytes content)) metadata acl none))
  | .copy source target acl => discard (c.copy source target none acl).run
  | .delete target => discard (c.base.delete target).run
  | .rekey target => discard (c.rekey target).run
  | .read target => discard (c.read target).run
  | .refused operation => operation.perform c
  | .rotate _ _ => return ()

def next (settings : EncryptionSettings) : Action → EncryptionSettings
  | .rotate key keySize => { settings with
      encryption := { ring := settings.encryption.ring.rotated key, keySize } }
  | _ => settings

def apply (m : PlainMap) : Action → PlainMap
  | .put target content metadata acl =>
    m.insert target { content, metadata := metadata.getD {}, acl := acl.getD {} }
  | .copy source target acl => m.copy source target acl
  | .delete target => m.erase target
  | .rekey _ | .read _ | .refused _ | .rotate _ _ => m

def addressed : Action → List Identity
  | .put target _ _ _ | .delete target | .rekey target | .read target => [target]
  | .copy source target _ => [source, target]
  | .refused _ | .rotate _ _ => []

/-- A new master key has a new name and gives back what it wraps; the length of
a content can be read from an envelope. -/
def Allowed (settings : EncryptionSettings) : Action → Prop
  | .put _ content _ _ => content.length < 10 ^ Integer.maxDigits
  | .rotate key _ => settings.encryption.ring.contains key.keyId = false ∧ key.Dependable
  | _ => True

/-! ### What a step preserves -/

/-- No address is the temporary place of another. -/
def Separate (suffix : String) (places : List Identity) : Prop :=
  ∀ i ∈ places, ∀ j ∈ places, j ≠ i.withSuffix suffix

/-- The client can wrap, the store mirrors the map, and the map only knows
addresses of the run. -/
structure Agrees (places : List Identity) (settings : EncryptionSettings) (s : Storage) (m : PlainMap) :
    Prop where
  dependable : settings.encryption.ring.current.Dependable
  mirrors : settings.encryption.Mirrors s.objects m
  within : ∀ target plain, m.get? target = some plain → target ∈ places

variable {places : List Identity} {settings : EncryptionSettings} {s : Storage} {m : PlainMap}
  {suffix : String}

theorem Agrees.get?_temp (h : Agrees places settings s m) (hs : Separate suffix places) {target : Identity}
    (ht : target ∈ places) : m.get? (target.withSuffix suffix) = none := by
  cases hm : m.get? (target.withSuffix suffix) with
  | none => rfl
  | some plain => exact absurd rfl (hs target ht _ (h.within _ plain hm))

theorem within_insert (h : ∀ target plain, m.get? target = some plain → target ∈ places) {target : Identity}
    (ht : target ∈ places) (object : PlainObject) :
    ∀ other plain, (m.insert target object).get? other = some plain → other ∈ places := by
  intro other plain hget
  rw [Table.get?_insert] at hget
  by_cases ho : target = other
  · exact ho ▸ ht
  · rw [if_neg ho] at hget
    exact h other plain hget

theorem within_apply (h : ∀ target plain, m.get? target = some plain → target ∈ places) {a : Action}
    (ha : ∀ i ∈ a.addressed, i ∈ places) :
    ∀ target plain, (a.apply m).get? target = some plain → target ∈ places := by
  cases a with
  | put target content metadata acl => exact within_insert h (ha target List.mem_cons_self) _
  | copy source target acl =>
    show ∀ other plain, (m.copy source target acl).get? other = some plain → other ∈ places
    unfold PlainMap.copy
    cases m.get? source with
    | none => exact h
    | some plain => exact within_insert h (ha target (List.mem_cons_of_mem _ List.mem_cons_self)) _
  | delete target =>
    intro other plain hget
    have hget : (m.erase target).get? other = some plain := hget
    rw [Table.get?_erase] at hget
    by_cases ho : target = other
    · rw [if_pos ho] at hget
      cases hget
    · rw [if_neg ho] at hget
      exact h other plain hget
  | rekey | read | refused | rotate => exact h

/-- A step keeps store and map together. -/
theorem perform_agrees (base : ClientSettings) {a : Action} (hsuffix : settings.tempSuffix ≠ "")
    (hs : Separate settings.tempSuffix places) (hallowed : a.Allowed settings)
    (ha : ∀ i ∈ a.addressed, i ∈ places) (h : Agrees places settings s m) :
    Ensures Storage.serve (a.perform (usual settings base)) s fun _ t =>
      Agrees places (a.next settings) t (a.apply m) := by
  -- Only writes leave the address they name, for the temporary place beside it.
  have hwithin := within_apply h.within ha
  cases a with
  | put target content metadata acl =>
    have htemp := h.get?_temp hs (ha target List.mem_cons_self)
    have hbrings : (Put.make target (some (.bytes content)) metadata acl none).Brings content :=
      Stream.holds_ofBytes content
    refine .discard ((EncryptingClient.put_mirrors hsuffix rfl hbrings h.dependable hallowed h.mirrors
      htemp).mono fun _ t ht => ?_)
    exact ⟨h.dependable, ht, hwithin⟩
  | copy source target acl =>
    exact .discard ((EncryptingClient.copy_mirrors h.mirrors).mono fun _ t ht =>
      ⟨h.dependable, ht, hwithin⟩)
  | delete target =>
    exact .discard ((EncryptingClient.delete_mirrors h.mirrors).mono fun _ t ht =>
      ⟨h.dependable, ht, hwithin⟩)
  | rekey target =>
    have htemp := h.get?_temp hs (ha target List.mem_cons_self)
    refine .discard ((EncryptingClient.rekey_mirrors hsuffix h.dependable h.mirrors htemp).mono
      fun _ t ht => ?_)
    exact ⟨h.dependable, ht, hwithin⟩
  | read target =>
    refine .discard ((EncryptingClient.read_mirrors h.mirrors).mono ?_)
    rintro _ t ⟨rfl, -⟩
    exact h
  | refused operation =>
    refine (operation.perform_ensures _ s).mono fun _ t ht => ⟨h.dependable, ?_, hwithin⟩
    rw [ht]
    exact h.mirrors
  | rotate key keySize =>
    -- The store is as it was; the ring has grown and still opens everything in it.
    obtain ⟨hnew, hkey⟩ := hallowed
    refine .done ⟨hkey, ?_, hwithin⟩
    exact h.mirrors.of_get? fun keyId master => KeyRing.get?_rotated hnew

/-! ## Runs -/

def AllAllowed : EncryptionSettings → List Action → Prop
  | _, [] => True
  | settings, a :: rest => a.Allowed settings ∧ AllAllowed (a.next settings) rest

def run (base : ClientSettings) : EncryptionSettings → List Action → Program StorageInterface Unit
  | _, [] => return ()
  | settings, a :: rest => do
    a.perform (usual settings base)
    run base (a.next settings) rest

theorem tempSuffix_next (settings : EncryptionSettings) (a : Action) :
    (a.next settings).tempSuffix = settings.tempSuffix := by
  cases a <;> rfl

theorem run_agrees (base : ClientSettings) {actions : List Action} (hsuffix : settings.tempSuffix ≠ "")
    (hs : Separate settings.tempSuffix places) (hallowed : AllAllowed settings actions)
    (ha : ∀ a ∈ actions, ∀ i ∈ a.addressed, i ∈ places) (h : Agrees places settings s m) :
    Ensures Storage.serve (run base settings actions) s fun _ t =>
      Agrees places (actions.foldl next settings) t (actions.foldl apply m) := by
  -- The client changes along the run, but its suffix does not.
  induction actions generalizing settings s m with
  | nil => exact .done h
  | cons a rest ih =>
    have hstep := perform_agrees base hsuffix hs hallowed.1 (ha a List.mem_cons_self) h
    refine .seq hstep fun _ t ht => ih ?_ ?_ hallowed.2 ?_ ht
    · rwa [tempSuffix_next]
    · rwa [tempSuffix_next]
    · exact fun b hb => ha b (List.mem_cons_of_mem _ hb)

/-- After every run over a store that was empty, what is read is what the plain
map holds: nothing where the map has no object, and otherwise the content, with
the metadata and the access list it came with. -/
theorem reads_after_run (base : ClientSettings) {settings : EncryptionSettings}
    (hsuffix : settings.tempSuffix ≠ "") (hk : settings.encryption.ring.current.Dependable)
    {actions : List Action} (hallowed : AllAllowed settings actions)
    (hs : Separate settings.tempSuffix (actions.flatMap addressed)) {w : World Storage} (hw : w.state = {})
    (target : Identity) :
    let client := usual (actions.foldl next settings) base
    let m := actions.foldl apply Table.empty
    let after := ((run base settings actions).run Storage.serve w).2
    let got := ((client.get target none).run.run Storage.serve after).1
    let read := ((client.read target).run.run Storage.serve after).1
    let acl := ((client.base.acl target).run.run Storage.serve after).1
    (got = .error (.notFound target) ↔ m.get? target = none) ∧
    (read = .error (.notFound target) ↔ m.get? target = none) ∧
    ∀ plain, m.get? target = some plain →
      (∃ body metadata, got = .ok { body, metadata } ∧ body.Serves plain.content ∧
        metadata.contentType = plain.metadata.contentType ∧
        Envelope.strip metadata.user = Envelope.strip plain.metadata.user) ∧
      read = .ok plain.content ∧ acl = .ok plain.acl := by
  intro client m after got read acl
  have hstart : Agrees (actions.flatMap addressed) settings w.state Table.empty := by
    rw [hw]
    exact ⟨hk, Encryption.mirrors_empty _, fun _ _ hget => by cases hget⟩
  have hplaces : ∀ a ∈ actions, ∀ i ∈ a.addressed, i ∈ actions.flatMap addressed :=
    fun a ha i hi => List.mem_flatMap.mpr ⟨a, ha, hi⟩
  have hend := run_agrees base hsuffix hs hallowed hplaces hstart w rfl
  have hgot : EncryptingClient.Learns target (m.get? target) got :=
    (EncryptingClient.get_mirrors hend.mirrors after rfl).2
  have hread : read = ((m.get? target).map PlainObject.content).elim (.error (.notFound target)) .ok :=
    (EncryptingClient.read_mirrors hend.mirrors after rfl).2
  have hacl : acl = ((m.get? target).map PlainObject.acl).elim (.error (.notFound target)) .ok :=
    (EncryptingClient.acl_mirrors hend.mirrors after rfl).2
  cases hplain : m.get? target with
  | none =>
    rw [hplain] at hgot hread
    exact ⟨⟨fun _ => rfl, fun _ => hgot⟩, ⟨fun _ => rfl, fun _ => hread⟩, fun _ h => by cases h⟩
  | some plain =>
    rw [hplain] at hgot hread hacl
    obtain ⟨body, metadata, hgot, hbody, hshown⟩ := hgot
    refine ⟨⟨fun h => ?_, fun h => by cases h⟩, ⟨fun h => ?_, fun h => by cases h⟩, ?_⟩
    · rw [hgot] at h
      cases h
    · rw [hread] at h
      cases h
    · rintro _ ⟨⟩
      exact ⟨⟨body, metadata, hgot, hbody.serves, hshown⟩, hread, hacl⟩

/-- An object is copied, the copy goes over to a new master key, and the first
object is deleted. -/
def moved : List Action :=
  [.put ⟨"bucket", "first"⟩ [1, 2, 3] none none, .copy ⟨"bucket", "first"⟩ ⟨"bucket", "second"⟩ none,
    .rotate (.aes ⟨List.replicate 32 8⟩ "next") .bits128, .rekey ⟨"bucket", "second"⟩,
    .delete ⟨"bucket", "first"⟩]

/-- The copy is read, and there is no first object. -/
theorem reads_after_run_moved :
    (((usual (moved.foldl next oneKey) {}).read ⟨"bucket", "second"⟩).run.run Storage.serve
      ((run {} oneKey moved).run Storage.serve { entropy := Entropy.ofSeed "", state := {} }).2).1 =
        .ok [1, 2, 3] ∧
    (((usual (moved.foldl next oneKey) {}).read ⟨"bucket", "first"⟩).run.run Storage.serve
      ((run {} oneKey moved).run Storage.serve { entropy := Entropy.ofSeed "", state := {} }).2).1 =
        .error (.notFound ⟨"bucket", "first"⟩) := by
  have hk : oneKey.encryption.ring.current.Dependable := rfl
  have hlen : ([1, 2, 3] : Bytes).length < 10 ^ Integer.maxDigits := Integer.lt_of_lt_ten (by decide)
  have hnew : oneKey.encryption.ring.contains "next" = false := by decide
  have hallowed : AllAllowed oneKey moved := ⟨hlen, trivial, ⟨hnew, rfl⟩, trivial, trivial, trivial⟩
  have hs : Separate oneKey.tempSuffix (moved.flatMap addressed) := by
    unfold Separate
    decide
  have hw : ({ entropy := Entropy.ofSeed "", state := {} } : World Storage).state = {} := rfl
  have hfirst := reads_after_run {} (by decide) hk hallowed hs hw ⟨"bucket", "first"⟩
  have hsecond := reads_after_run {} (by decide) hk hallowed hs hw ⟨"bucket", "second"⟩
  exact ⟨(hsecond.2.2 { content := [1, 2, 3] } (by rfl)).2.1, hfirst.2.1.mpr (by rfl)⟩

end Action

end SealedStore
