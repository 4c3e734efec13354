import SealedStore.Entropy
import SealedStore.Proofs.Calls
import SealedStore.Proofs.Consistency
import SealedStore.Proofs.Opening
import SealedStore.Proofs.Rekeying
/-!
# Rotations of master keys

Rekeying an object that a client reads moves it to the current master key and
leaves its content alone: the codec has nothing to do, and all but two entries
stay. From then on the current master key is all that is needed to read it, so
an object stays readable through every sequence of rotations and rekeyings.

What is proved:
  1. `EncryptingClient.rekey_uncoded` — rekeying does not meet the codec.
  2. `EncryptingClient.moved_rekeyedObject` — what rekeying keeps of an object.
  3. `EncryptingClient.rekey_moved` — what opens it afterwards.
  4. `Turn.run_opens` — sequences of rotations and rekeyings.
  5. `EncryptingClient.rekey_preserves` — all of it, for stores that can be
     reached.
-/

namespace SealedStore

open Program (Ensures recording)

/-! ## Without the codec -/

theorem Filter.passing_uncoded {I : Interface} (filters : List Filter) (r : Request)
    (p : Program I (Except Error Response)) :
    (filters.filter fun f => !f.isCodec).foldr (passing r) p = filters.foldr (passing r) p := by
  induction filters with
  | nil => rfl
  | cons f rest ih =>
    cases f with
    | logging => exact congrArg (passing r .logging) ih
    | checksum | codec => exact ih

namespace Client

def uncoded (c : Client) : Client := { c with filters := c.filters.filter fun f => !f.isCodec }

theorem execute_uncoded {c : Client} {r : Request} (hr : r.Inert) : c.uncoded.execute r = c.execute r := by
  have hrun : (c.uncoded.execute r).run = (c.execute r).run := by
    rw [execute_inert hr, execute_inert hr]
    exact Filter.passing_uncoded ..
  exact hrun

variable (c : Client) (target : Identity)

theorem metadata_uncoded : c.uncoded.metadata target = c.metadata target := by
  unfold metadata
  rw [execute_uncoded ⟨rfl, rfl, rfl, rfl⟩]

theorem acl_uncoded : c.uncoded.acl target = c.acl target := by
  unfold acl
  rw [execute_uncoded ⟨rfl, rfl, rfl, rfl⟩]

theorem copy_uncoded (source : Identity) (metadata : Option Metadata) (acl : Option AccessList) :
    c.uncoded.copy source target metadata acl = c.copy source target metadata acl := by
  unfold copy
  rw [execute_uncoded ⟨rfl, rfl, rfl, rfl⟩]

theorem delete_uncoded : c.uncoded.delete = c.delete := by
  funext target
  unfold delete
  rw [execute_uncoded ⟨rfl, rfl, rfl, rfl⟩]

end Client

namespace EncryptingClient

theorem rekey_uncoded (c : EncryptingClient) (target : Identity) :
    ({ c with base := c.base.uncoded } : EncryptingClient).rekey target = c.rekey target := by
  simp only [rekey, Client.metadata_uncoded, Client.acl_uncoded, Client.copy_uncoded, Client.delete_uncoded]
  rfl

end EncryptingClient

/-! ## What rekeying keeps -/

/-- An object whose key was wrapped anew: it keeps its content, what describes
the content, its access list and all entries but two, which hold the same key
for the current master key. -/
structure StoredObject.Moved (e : Encryption) (d : Decoder) (object after : StoredObject) : Prop where
  content : after.content = object.content
  etag : after.metadata.etag = object.metadata.etag
  contentLength : after.metadata.contentLength = object.metadata.contentLength
  contentType : after.metadata.contentType = object.metadata.contentType
  acl : after.acl = object.acl
  entries : ∀ name, name ≠ Envelope.keyName → name ≠ Envelope.keyIdName →
    after.metadata.user.get? name = object.metadata.user.get? name
  keyId : after.metadata.user.get? Envelope.keyIdName = some e.ring.current.keyId
  dataKey : ∃ wrapped, after.metadata.user.get? Envelope.keyName = some (Base64.encode wrapped) ∧
    e.ring.current.unwrap wrapped = .ok d.dataKey

namespace EncryptingClient
variable {settings : EncryptionSettings} {s : Storage} {object : StoredObject} {d : Decoder}
  {wrapped plain : Bytes}

theorem moved_rekeyedObject (hobject : object.Consistent)
    (hwrapped : settings.encryption.ring.current.unwrap wrapped = .ok d.dataKey) :
    object.Moved settings.encryption d (rekeyedObject settings s object wrapped) where
  content := rfl
  etag := hobject.keptEtag
  contentLength := hobject.contentLength.symm
  contentType := rfl
  acl := rfl
  entries _ hkey hid := settings.encryption.get?_rekeyed object.metadata.user wrapped hkey hid
  keyId := settings.encryption.get?_rekeyed_keyId object.metadata.user wrapped
  dataKey := ⟨wrapped, settings.encryption.get?_rekeyed_key object.metadata.user wrapped, hwrapped⟩

theorem opens_rekeyedObject (hd : settings.encryption.decoder object.metadata.user = .ok d)
    (hcheck : d.check object.content = .ok ()) (hcontent : d.content object.content = plain)
    (hwrapped : settings.encryption.ring.current.unwrap wrapped = .ok d.dataKey) :
    settings.encryption.Opens (rekeyedObject settings s object wrapped) plain :=
  ⟨_, Encryption.decoder_rekeyed hd hwrapped settings.encryption.ring.get?_current, hcheck, hcontent⟩

/-! ## Readable objects -/

/-- A store that can be reached holds an object that is opened to a content. -/
def OpensAt (e : Encryption) (s : Storage) (target : Identity) (plain : Bytes) : Prop :=
  s.Reachable ∧ ∃ object, s.objects.get? target = some object ∧ e.Opens object plain

def CurrentAt (e : Encryption) (s : Storage) (target : Identity) (plain : Bytes) : Prop :=
  s.Reachable ∧ ∃ object, s.objects.get? target = some object ∧ e.Opens object plain ∧
    object.metadata.user.get? Envelope.keyIdName = some e.ring.current.keyId

variable {c : EncryptingClient} {target : Identity} {base : ClientSettings} {filters : List Filter}

theorem CurrentAt.opensAt {e reader : Encryption} (h : CurrentAt e s target plain)
    (hring : reader.ring.get? e.ring.current.keyId = some e.ring.current) : OpensAt reader s target plain := by
  obtain ⟨hs, object, hget, hopens, hid⟩ := h
  exact ⟨hs, object, hget, hopens.of_current hid hring⟩

theorem read_opensAt (hf : OneChecksum filters) (h : OpensAt settings.encryption s target plain) :
    Ensures Storage.serve ((make settings base filters).read target).run s fun r t =>
      t = s ∧ r = .ok plain := by
  obtain ⟨hs, object, hget, hopens⟩ := h
  exact read_opened hf hget (hs.consistent.objects target object hget).honest hopens

/-- How rekeying ends for an object that a client reads. -/
theorem rekey_moved (hs : s.Reachable) (hsuffix : c.encryption.tempSuffix ≠ "")
    (hk : c.encryption.encryption.ring.current.Dependable) (hget : s.objects.get? target = some object)
    (hopens : c.encryption.encryption.Opens object plain) :
    Ensures Storage.serve (c.rekey target).run s fun r t =>
      CurrentAt c.encryption.encryption t target plain ∧
      ∃ d result, c.encryption.encryption.decoder object.metadata.user = .ok d ∧ r = .ok result ∧
        ((object.metadata.user.get? Envelope.keyIdName = some c.encryption.encryption.ring.current.keyId ∧
            result.rekeyed = false ∧ t = s) ∨
          (object.metadata.user.get? Envelope.keyIdName ≠ some c.encryption.encryption.ring.current.keyId ∧
            result.rekeyed = true ∧ ∃ after, t.objects.get? target = some after ∧
              object.Moved c.encryption.encryption d after)) := by
  obtain ⟨d, hd, hcheck, hcontent⟩ := hopens
  have hname := (Encryption.canDecode_of_decoder hd).2.1
  have hreach : Ensures Storage.serve (c.rekey target).run s fun _ t => t.Reachable := by
    rintro w rfl
    exact hs.run _
  refine (hreach.and (rekey_rekeyed hsuffix hk hget hd)).mono ?_
  rintro r t ⟨ht, ⟨hid, rfl, rfl⟩ | ⟨hid, wrapped, hwrapped, rfl, rfl⟩⟩
  · -- The identifier in the metadata says which of the two it was.
    have hcurrent : object.metadata.user.get? Envelope.keyIdName =
        some c.encryption.encryption.ring.current.keyId := by rw [hname, hid]
    exact ⟨⟨ht, object, hget, ⟨d, hd, hcheck, hcontent⟩, hcurrent⟩,
      d, _, hd, rfl, .inl ⟨hcurrent, rfl, rfl⟩⟩
  · have hother : object.metadata.user.get? Envelope.keyIdName ≠
        some c.encryption.encryption.ring.current.keyId := by
      rw [hname]
      exact fun h => hid (Option.some.inj h)
    have hmoved : object.Moved c.encryption.encryption d (rekeyedObject c.encryption s object wrapped) :=
      moved_rekeyedObject (hs.consistent.objects target object hget) hwrapped
    have hplaced : (s.afterDetour target (target.withSuffix c.encryption.tempSuffix)
        (rekeyedObject c.encryption s object wrapped)).objects.get? target =
          some (rekeyedObject c.encryption s object wrapped) := (Table.get?_insert ..).trans (if_pos rfl)
    exact ⟨⟨ht, _, hplaced, opens_rekeyedObject hd hcheck hcontent hwrapped, hmoved.keyId⟩,
      d, _, hd, rfl, .inr ⟨hother, rfl, _, hplaced, hmoved⟩⟩

/-- Rekeying that had nothing to do: it has looked the object up, and no more. -/
def LeftAlone (s : Storage) (target : Identity) (r : Except Error RekeyResult) (t : Storage)
    (calls : List StorageCall) : Prop :=
  ∃ result, r = .ok result ∧ result.rekeyed = false ∧ t = s ∧ calls = [.get target]

theorem rekey_idle (hk : c.encryption.encryption.ring.current.Dependable)
    (h : CurrentAt c.encryption.encryption s target plain) :
    Ensures (recording Storage.serve) (c.rekey target).run (s, []) fun r t =>
      LeftAlone s target r t.1 t.2 := by
  obtain ⟨-, object, hget, ⟨d, hd, -⟩, hid⟩ := h
  have hname : d.envelope.masterKeyId = c.encryption.encryption.ring.current.keyId :=
    Option.some.inj ((Encryption.canDecode_of_decoder hd).2.1.symm.trans hid)
  refine rekey_ensures hk.faithful (StorageCall.send_ensures ?_)
  rw [recording, Storage.serve_get hget]
  exact .inr ⟨d, hd, fun _ => ⟨_, rfl, rfl, rfl, rfl⟩, fun hno => absurd hk hno, fun hne => absurd hname hne⟩

end EncryptingClient

/-! ## Sequences of rotations and rekeyings -/

open EncryptingClient (OneChecksum OpensAt CurrentAt make)

/-- A new master key comes to the front of the ring, or the object is rekeyed. -/
inductive Turn where
  | rotate (key : MasterKey)
  | rekey

namespace Turn
variable {settings : EncryptionSettings} {s : Storage} {target : Identity} {plain : Bytes}

def next (settings : EncryptionSettings) : Turn → EncryptionSettings
  | .rotate key => { settings with
      encryption := { settings.encryption with ring := settings.encryption.ring.rotated key } }
  | .rekey => settings

/-- New master keys have new names, and give back what they wrap. -/
def Allowed : EncryptionSettings → List Turn → Prop
  | _, [] => True
  | settings, .rotate key :: rest =>
    settings.encryption.ring.contains key.keyId = false ∧ key.Dependable ∧
      Allowed (next settings (.rotate key)) rest
  | settings, .rekey :: rest => Allowed settings rest

/-- The turns one after the other. The first rekeying that fails ends them. -/
def run (base : ClientSettings) (filters : List Filter) (target : Identity) :
    EncryptionSettings → List Turn → StorageTask Unit
  | _, [] => return ()
  | settings, .rotate key :: rest => run base filters target (next settings (.rotate key)) rest
  | settings, .rekey :: rest => do
    let _ ← (make settings base filters).rekey target
    run base filters target settings rest

/-- Every rekeying succeeds, and in the end the ring opens the object. -/
theorem run_opens (base : ClientSettings) (filters : List Filter) {turns : List Turn}
    (hsuffix : settings.tempSuffix ≠ "") (hk : settings.encryption.ring.current.Dependable)
    (hallowed : Allowed settings turns) (h : OpensAt settings.encryption s target plain) :
    Ensures Storage.serve (run base filters target settings turns).run s fun r t =>
      r = .ok () ∧ OpensAt (turns.foldl next settings).encryption t target plain := by
  -- A rotation changes the settings, a rekeying the store.
  induction turns generalizing settings s with
  | nil => exact .done ⟨rfl, h⟩
  | cons turn rest ih =>
    cases turn with
    | rotate key =>
      obtain ⟨hnew, hkey, hrest⟩ := hallowed
      obtain ⟨hs, object, hget, hopens⟩ := h
      have hrotated : OpensAt (next settings (.rotate key)).encryption s target plain :=
        ⟨hs, object, hget, hopens.of_get? fun _ _ => KeyRing.get?_rotated hnew⟩
      exact ih hsuffix hkey hrest hrotated
    | rekey =>
      obtain ⟨hs, object, hget, hopens⟩ := h
      have hrekey := EncryptingClient.rekey_moved (c := make settings base filters) hs hsuffix hk hget hopens
      refine .attempt (hrekey.mono ?_)
      rintro _ t ⟨hcurrent, d, result, -, rfl, -⟩
      exact ih hsuffix hk hallowed (hcurrent.opensAt settings.encryption.ring.get?_current)

end Turn

namespace EncryptingClient

/-- Rekeying an encrypted object that a client reads from a store that can be
reached: what it changes, that the codec has no part in it, that the current
master key alone reads the object from then on and nothing is left to do, and
that the object is read after every sequence of rotations and rekeyings. -/
theorem rekey_preserves (settings : EncryptionSettings) (hsuffix : settings.tempSuffix ≠ "")
    (hk : settings.encryption.ring.current.Dependable) (base : ClientSettings) {filters : List Filter}
    (hf : OneChecksum filters) {w : World Storage} (hw : w.state.Reachable) {target : Identity}
    {object : StoredObject} (hget : w.state.objects.get? target = some object)
    (hmode : Envelope.modeOf? object.metadata.user ≠ none) {plain : Bytes} {v : World Storage}
    (hv : v.state = w.state)
    (hread : (((make settings base filters).read target).run.run Storage.serve v).1 = .ok plain) :
    let c := make settings base filters
    let current := settings.encryption.ring.current
    let out := (c.rekey target).run.run Storage.serve w
    (∃ d result, settings.encryption.decoder object.metadata.user = .ok d ∧ out.1 = .ok result ∧
      ((object.metadata.user.get? Envelope.keyIdName = some current.keyId ∧
          result.rekeyed = false ∧ out.2.state = w.state) ∨
        (object.metadata.user.get? Envelope.keyIdName ≠ some current.keyId ∧
          result.rekeyed = true ∧ ∃ after, out.2.state.objects.get? target = some after ∧
            object.Moved settings.encryption d after))) ∧
    ({ c with base := c.base.uncoded } : EncryptingClient).rekey target = c.rekey target ∧
    (∀ (reader : EncryptionSettings) (other : ClientSettings) (others : List Filter) (x : World Storage),
      reader.encryption.ring.get? current.keyId = some current → OneChecksum others →
      x.state = out.2.state →
      (((make reader other others).read target).run.run Storage.serve x).1 = .ok plain) ∧
    (∀ x : World Storage, x.state = out.2.state →
      let again := (c.rekey target).run.run Storage.serve x
      LeftAlone x.state target again.1 again.2.state ((c.rekey target).run.calls Storage.serve x)) ∧
    ∀ turns, Turn.Allowed settings turns →
      let last := (Turn.run base filters target settings turns).run.run Storage.serve w
      last.1 = .ok () ∧ ∀ x : World Storage, x.state = last.2.state →
        (((make (turns.foldl Turn.next settings) base filters).read target).run.run Storage.serve x).1 =
          .ok plain := by
  intro c current out
  -- The store reports the digest of the object, so what was read is its content.
  have hopens : settings.encryption.Opens object plain := by
    obtain ⟨-, hopened⟩ := opened_of_read hf v hv
    obtain ⟨found, hfound, hplain | ⟨d, -, hopens⟩⟩ := hopened plain hread
    · obtain rfl : object = found := Option.some.inj (hget.symm.trans hfound)
      exact absurd hplain hmode
    · obtain rfl : object = found := Option.some.inj (hget.symm.trans hfound)
      exact hopens (hw.consistent.objects target object hget).honest
  obtain ⟨hcurrent, hmoved⟩ := rekey_moved (c := c) hw hsuffix hk hget hopens w rfl
  refine ⟨hmoved, rekey_uncoded c target, ?_, ?_, ?_⟩
  · intro reader other others x hring hothers hx
    exact (read_opensAt hothers (hcurrent.opensAt hring) x hx).2
  · intro x hx
    have hidle : Ensures (recording Storage.serve) (c.rekey target).run (x.state, []) _ :=
      rekey_idle hk (hx ▸ hcurrent)
    exact hidle.of_recording rfl
  · intro turns hallowed
    obtain ⟨hlast, hopensAt⟩ :=
      Turn.run_opens base filters hsuffix hk hallowed ⟨hw, object, hget, hopens⟩ w rfl
    exact ⟨hlast, fun x hx => (read_opensAt hf hopensAt x hx).2⟩

def newKey : EncryptionSettings :=
  { encryption := { ring := KeyRing.make (.aes ⟨List.replicate 32 8⟩ "next") [] } }

/-- Three bytes are written under the old key and rekeyed, and the new key is
enough to read them. -/
theorem rekey_preserves_three :
    let target : Identity := ⟨"bucket", "key"⟩
    let written := (((make oneKey {} Filter.default).put
      (Put.make target (some (.bytes [1, 2, 3])) none none none)).run Storage.serve
        { entropy := Entropy.ofSeed "", state := {} }).2
    let rekeyed := (((make twoKeys {} Filter.default).rekey target).run.run Storage.serve written).2
    (((make newKey {} Filter.default).read target).run.run Storage.serve rekeyed).1 = .ok [1, 2, 3] := by
  intro target
  have hlen : ([1, 2, 3] : Bytes).length < 10 ^ Integer.maxDigits := Integer.lt_of_lt_ten (by decide)
  have hput : Ensures Storage.serve ((make oneKey {} Filter.default).put
      (Put.make target (some (.bytes [1, 2, 3])) none none none)) {} _ :=
    put_opened oneChecksum_default (by decide) rfl (Stream.holds_ofBytes [1, 2, 3]) rfl hlen
  have hstored := hput { entropy := Entropy.ofSeed "", state := {} } rfl
  have hreach := Storage.Reachable.run (w := { entropy := Entropy.ofSeed "", state := {} }) .empty
    ((make oneKey {} Filter.default).put (Put.make target (some (.bytes [1, 2, 3])) none none none))
  obtain ⟨written, hwritten⟩ : ∃ w, w = (((make oneKey {} Filter.default).put
    (Put.make target (some (.bytes [1, 2, 3])) none none none)).run Storage.serve
      { entropy := Entropy.ofSeed "", state := {} }).2 := ⟨_, rfl⟩
  rw [← hwritten] at hstored hreach ⊢
  obtain ⟨object, hget, hhonest, hopens⟩ := hstored
  have hopened : twoKeys.encryption.Opens object [1, 2, 3] := hopens twoKeys.encryption rfl
  have hread : Ensures Storage.serve ((make twoKeys {} Filter.default).read target).run written.state _ :=
    read_opened oneChecksum_default hget hhonest hopened
  exact (rekey_preserves twoKeys (by decide) rfl {} oneChecksum_default hreach hget hopened.mode_ne_none
    rfl (hread written rfl).2).2.2.1 newKey {} Filter.default _ rfl oneChecksum_default rfl

end EncryptingClient

end SealedStore
