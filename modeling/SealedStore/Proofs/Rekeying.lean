import SealedStore.Proofs.EncryptedWrite
/-!
# Rekeying

Rekeying an object that can be decrypted wraps its key by the current master
key, unless that is what it is wrapped by. The content is copied as it is, so
whoever holds the current master key decrypts it to the same, and its other
entries stay too.

What is proved:
  1. `Encryption.rekey_ensures` — the entries that rekeying changes.
  2. `Encryption.decoder_rekeyed` — what decrypts the content afterwards.
  3. `EncryptingClient.rekey_ensures` — the calls of rekeying.
  4. `EncryptingClient.rekey_rekeyed` — what rekeying leaves in a store.
-/

namespace SealedStore

open Program (Ensures)

/-! ## Entries -/

namespace Encryption
variable {I : Interface} {σ : Type} {serve : Program.Service I σ} {s : σ} {e reader : Encryption}
  {envelope : Envelope} {m : UserMetadata} {wrapped : Bytes} {d : Decoder}

def rekeyed (e : Encryption) (wrapped : Bytes) : UserMetadata :=
  ⟨[(Envelope.keyName, Base64.encode wrapped), (Envelope.keyIdName, e.ring.current.keyId)]⟩

def rewrapped (e : Encryption) (d : Decoder) (wrapped : Bytes) : Decoder :=
  { d with envelope := { d.envelope with wrappedKey := wrapped, masterKeyId := e.ring.current.keyId } }

/-- Rekeying has nothing to do for the current master key, and wraps the key of
the content anew for any other, if the current one does not refuse. -/
theorem rekey_ensures (hk : e.ring.current.Faithful) (hd : e.decoder m = .ok d) :
    Ensures serve (e.rekey m).run s fun r t => t = s ∧
      ((d.envelope.masterKeyId = e.ring.current.keyId ∧
          r = .error (.alreadyCurrent e.ring.current.keyId)) ∨
        (d.envelope.masterKeyId ≠ e.ring.current.keyId ∧
          match r with
          | .ok entries => ∃ wrapped, e.ring.current.unwrap wrapped = .ok d.dataKey ∧ entries = e.rekeyed wrapped
          | .error _ => ¬e.ring.current.Dependable)) := by
  obtain ⟨hread, -, hunwrap, -⟩ := decoder_eq_ok_iff.mp hd
  obtain ⟨_, size, -, -, hsize⟩ := unwrap_eq_ok_iff.mp hunwrap
  unfold rekey
  rw [hread]
  refine .attempt (.done ?_)
  by_cases hid : d.envelope.masterKeyId = e.ring.current.keyId
  · simp only [hid, if_true]
    exact .done ⟨rfl, .inl ⟨trivial, rfl⟩⟩
  · simp only [hid, if_false]
    rw [hunwrap]
    refine .attempt (.done ?_)
    refine .attempt ((wrapCurrent_faithful hk hsize).mono ?_)
    rintro (fault | wrapped) t ⟨rfl, hnew, hfails⟩
    · exact ⟨rfl, .inr ⟨hid, hfails fault rfl⟩⟩
    · exact .done ⟨rfl, .inr ⟨hid, wrapped, hnew wrapped rfl, rfl⟩⟩

theorem get?_rekeyed (e : Encryption) (m : UserMetadata) (wrapped : Bytes) {name : String}
    (hkey : name ≠ Envelope.keyName) (hid : name ≠ Envelope.keyIdName) :
    (m.merge (e.rekeyed wrapped)).get? name = m.get? name := by
  rw [Table.get?_merge]
  simp [rekeyed, Table.lookup, hkey.symm, hid.symm]

theorem get?_rekeyed_key (e : Encryption) (m : UserMetadata) (wrapped : Bytes) :
    (m.merge (e.rekeyed wrapped)).get? Envelope.keyName = some (Base64.encode wrapped) :=
  m.get?_merge _ _

theorem get?_rekeyed_keyId (e : Encryption) (m : UserMetadata) (wrapped : Bytes) :
    (m.merge (e.rekeyed wrapped)).get? Envelope.keyIdName = some e.ring.current.keyId :=
  m.get?_merge _ _

/-- Whoever holds the current master key decrypts the content afterwards. -/
theorem decoder_rekeyed (hd : e.decoder m = .ok d)
    (hwrapped : e.ring.current.unwrap wrapped = .ok d.dataKey)
    (hring : reader.ring.get? e.ring.current.keyId = some e.ring.current) :
    reader.decoder (m.merge (e.rekeyed wrapped)) = .ok (e.rewrapped d wrapped) := by
  obtain ⟨hread, haes, hunwrap, hlen⟩ := decoder_eq_ok_iff.mp hd
  obtain ⟨hmode, -, -, hiv, hsize, hsha⟩ := Envelope.read_eq_ok_iff.mp hread
  obtain ⟨_, size, -, -, hkey⟩ := unwrap_eq_ok_iff.mp hunwrap
  -- A rekey writes two fields; the other four are found as they were.
  have hsame : ∀ name ∈ [Envelope.modeName, Envelope.ivName, Envelope.sizeName, Envelope.sha256Name],
      (m.merge (e.rekeyed wrapped)).get? name = m.get? name := by
    intro name hn
    have hne : name ≠ Envelope.keyName ∧ name ≠ Envelope.keyIdName := by
      revert name
      decide
    exact e.get?_rekeyed m wrapped hne.1 hne.2
  refine decoder_eq_ok_iff.mpr ⟨Envelope.read_eq_ok_iff.mpr ⟨?_, ?_, ?_, ?_, ?_, ?_⟩, haes, ?_, hlen⟩
  · rw [Envelope.modeOf?, hsame _ (by decide)]
    exact hmode
  · exact Envelope.bytesField_of_get? (e.get?_rekeyed_key m wrapped)
  · exact e.get?_rekeyed_keyId m wrapped
  · rw [Envelope.bytesField, Envelope.field, hsame _ (by decide)]
    exact hiv
  · rw [Envelope.sizeField, hsame _ (by decide)]
    exact hsize
  · rw [hsame _ (by decide)]
    exact hsha
  · exact unwrap_eq_ok_iff.mpr ⟨e.ring.current, size, hring, hwrapped, hkey⟩

theorem carries_rekeyed (hm : Envelope.Carries m envelope) (wrapped : Bytes) :
    Envelope.Carries (m.merge (e.rekeyed wrapped))
      { envelope with wrappedKey := wrapped, masterKeyId := e.ring.current.keyId } where
  mode := (m.get?_merge _ _).trans hm.mode
  key := m.get?_merge _ _
  keyId := m.get?_merge _ _
  iv := (m.get?_merge _ _).trans hm.iv
  size := (m.get?_merge _ _).trans hm.size
  sha256 := (m.get?_merge _ _).trans hm.sha256

theorem strip_rekeyed (m : UserMetadata) (wrapped : Bytes) :
    Envelope.strip (m.merge (e.rekeyed wrapped)) = Envelope.strip m := by
  refine Envelope.strip_merge fun name hn => Envelope.startsWith_of_mem_names name ?_
  have hall : ∀ name ∈ [Envelope.keyName, Envelope.keyIdName], name ∈ Envelope.names := by decide
  exact hall name hn

end Encryption

/-! ## Objects -/

namespace EncryptingClient
variable {σ : Type} {serve : Program.Service StorageInterface σ} {s : σ} {c : EncryptingClient}
  {target : Identity} {m : UserMetadata} {d : Decoder}

theorem readableKeyId_of_decoder (hd : c.encryption.encryption.decoder m = .ok d) :
    c.readableKeyId target m = .ok d.envelope.masterKeyId := by
  obtain ⟨hmode, hid, hcan⟩ := Encryption.canDecode_of_decoder hd
  simp only [readableKeyId, hmode, hid, hcan]

theorem rekeyEntries_ensures (hk : c.encryption.encryption.ring.current.Faithful)
    (hd : c.encryption.encryption.decoder m = .ok d) :
    Ensures serve (c.rekeyEntries target m).run s fun r t => t = s ∧
      ((d.envelope.masterKeyId = c.encryption.encryption.ring.current.keyId ∧ r = .ok none) ∨
        (d.envelope.masterKeyId ≠ c.encryption.encryption.ring.current.keyId ∧
          ((∃ wrapped, c.encryption.encryption.ring.current.unwrap wrapped = .ok d.dataKey ∧
            r = .ok (some (c.encryption.encryption.rekeyed wrapped))) ∨
          (¬c.encryption.encryption.ring.current.Dependable ∧ ∀ entries, r ≠ .ok (some entries))))) := by
  have hrekey : Ensures serve (c.encryption.encryption.rekey m).run s _ := Encryption.rekey_ensures hk hd
  refine .seq (.bind (hrekey.mono ?_)) fun r t hr => hr
  rintro (fault | entries) t ⟨rfl, ⟨hid, hr⟩ | ⟨hid, hr⟩⟩
  · obtain rfl := Except.error.inj hr
    -- That the key is the current one already is no failure of the operation.
    exact .done (.done ⟨rfl, .inl ⟨hid, rfl⟩⟩)
  · cases fault <;> exact .done (.done ⟨rfl, .inr ⟨hid, .inr ⟨hr, nofun⟩⟩⟩)
  · cases hr
  · obtain ⟨wrapped, hwrapped, rfl⟩ := hr
    exact .done (.done ⟨rfl, .inr ⟨hid, .inl ⟨wrapped, hwrapped, rfl⟩⟩⟩)

def rekeyedMetadata (e : Encryption) (metadata : Metadata) (wrapped : Bytes) : Metadata :=
  { metadata with user := metadata.user.merge (e.rekeyed wrapped) }

/-- Rekeying looks an object up. If its key is to be wrapped anew, it asks for
the access list, which a copy drops, and goes a detour of three calls: two
copies and a deletion. Under a master key that refuses to wrap it stops after
the look-up. -/
theorem rekey_ensures {R : Except Error RekeyResult → σ → Prop}
    (hk : c.encryption.encryption.ring.current.Faithful)
    (h : Ensures serve (StorageCall.get target).send.run s fun found t =>
      match found with
      | .error f => R (.error f) t
      | .ok object =>
        let temp := target.withSuffix c.encryption.tempSuffix
        let current := c.encryption.encryption.ring.current.keyId
        (Envelope.modeOf? object.metadata.user = none ∧ R (.error (.notEncrypted (some target))) t) ∨
        ∃ d, c.encryption.encryption.decoder object.metadata.user = .ok d ∧
          (d.envelope.masterKeyId = current →
            R (.ok { target, rekeyed := false, oldKeyId := current, newKeyId := current }) t) ∧
          (¬c.encryption.encryption.ring.current.Dependable → ∀ r, R r t) ∧
          (d.envelope.masterKeyId ≠ current → ∀ wrapped,
            c.encryption.encryption.ring.current.unwrap wrapped = .ok d.dataKey →
            Ensures serve (StorageCall.acl target).send.run t fun acl u =>
              match acl with
              | .error f => R (.error f) u
              | .ok acl => Detour.Ends serve (StorageCall.copy target temp none none).send
                (StorageCall.copy temp target
                  (some (rekeyedMetadata c.encryption.encryption object.metadata wrapped)) (some acl)).send
                (StorageCall.delete temp).send (fun r v => R (Client.concluded target temp (fun _ =>
                  { target, rekeyed := true, oldKeyId := d.envelope.masterKeyId, newKeyId := current }) r) v) u)) :
    Ensures serve (c.rekey target).run s R := by
  unfold rekey
  refine .attempt (Client.metadata_ensures (h.mono fun found t ht => ?_))
  cases found with
  | error f => exact ht
  | ok object =>
    obtain ⟨hplain, hr⟩ | ⟨d, hd, hcurrent, hrefused, hother⟩ := ht
    · have hrefused : c.readableKeyId target object.metadata.user = .error (.notEncrypted (some target)) := by
        simp only [readableKeyId, hplain]
      refine .attempt (.done ?_)
      rw [hrefused]
      exact hr
    · refine .attempt (.done ?_)
      rw [readableKeyId_of_decoder hd]
      refine .attempt ((rekeyEntries_ensures hk hd).mono ?_)
      rintro r t ⟨rfl, ⟨hid, rfl⟩ | ⟨hid, ⟨wrapped, hwrapped, rfl⟩ | ⟨hno, hnone⟩⟩⟩
      · -- The three ways: current already, wrapped anew, or not to be wrapped.
        refine .log (.done ?_)
        rw [hid]
        exact hcurrent hid
      · refine .attempt (Client.acl_ensures ((hother hid wrapped hwrapped).mono fun acl u hu => ?_))
        cases acl with
        | error f => exact hu
        | ok acl =>
          let result : RekeyResult :=
            { target, rekeyed := true, oldKeyId := d.envelope.masterKeyId,
              newKeyId := c.encryption.encryption.ring.current.keyId }
          have htravel := Client.travel_copies (c := c.base)
            (d := Detour.start target c.encryption.tempSuffix) (R := fun r v => R (r.map fun _ => result) v) rfl
            (by simp only [Client.concluded_map]; exact hu)
          refine .attempt (.seq htravel ?_)
          rintro ⟨r, _⟩ v hr
          cases r with
          | error failure => exact .done (.attempt (.done hr))
          | ok => exact .done (.attempt (.done (.log (.done hr))))
      · obtain fault | _ | entries := r
        · exact hrefused hno _
        · exact .log (.done (hrefused hno _))
        · exact absurd rfl (hnone entries)

/-- The object after its key was wrapped anew. -/
def rekeyedObject (settings : EncryptionSettings) (s : Storage) (object : StoredObject) (wrapped : Bytes) :
    StoredObject :=
  Storage.objectOf { s with clock := s.clock + 1, issued := s.issued + 1 } object.content
    (rekeyedMetadata settings.encryption object.metadata wrapped) (some object.acl) object.metadata.etag

theorem publishedObject_rekeyed (settings : EncryptionSettings) (s : Storage) (object : StoredObject)
    (wrapped : Bytes) :
    s.publishedObject (s.objectOf object.content object.metadata none object.metadata.etag)
      (some (rekeyedMetadata settings.encryption object.metadata wrapped)) (some object.acl) =
        rekeyedObject settings s object wrapped := Storage.objectOf_kept ..

/-- How rekeying ends: with nothing to do, or with the object under the current
master key and nothing at the temporary place. -/
def Rekeyed (settings : EncryptionSettings) (s : Storage) (target : Identity) (object : StoredObject)
    (d : Decoder) (r : Except Error RekeyResult) (t : Storage) : Prop :=
  let current := settings.encryption.ring.current.keyId
  (d.envelope.masterKeyId = current ∧ t = s ∧
    r = .ok { target, rekeyed := false, oldKeyId := current, newKeyId := current }) ∨
  (d.envelope.masterKeyId ≠ current ∧ ∃ wrapped,
    settings.encryption.ring.current.unwrap wrapped = .ok d.dataKey ∧
    t = s.afterDetour target (target.withSuffix settings.tempSuffix)
      (rekeyedObject settings s object wrapped) ∧
    r = .ok { target, rekeyed := true, oldKeyId := d.envelope.masterKeyId, newKeyId := current })

theorem rekey_rekeyed {s : Storage} {object : StoredObject} (hsuffix : c.encryption.tempSuffix ≠ "")
    (hk : c.encryption.encryption.ring.current.Dependable) (hget : s.objects.get? target = some object)
    (hd : c.encryption.encryption.decoder object.metadata.user = .ok d) :
    Ensures Storage.serve (c.rekey target).run s (Rekeyed c.encryption s target object d) := by
  refine rekey_ensures hk.faithful (StorageCall.send_ensures ?_)
  rw [Storage.serve_get hget]
  refine .inr ⟨d, hd, fun hid => .inl ⟨hid, rfl, rfl⟩, fun hno => absurd hk hno, fun hid wrapped hwrapped => ?_⟩
  refine StorageCall.send_ensures ?_
  rw [Storage.serve_acl hget]
  let temp := target.withSuffix c.encryption.tempSuffix
  let first := s.objectOf object.content object.metadata none object.metadata.etag
  -- The first copy leaves the metadata and drops the access list.
  have hwrite : Ensures Storage.serve (StorageCall.copy target temp none none).send.run s
      fun r t => (∃ a, r = .ok a) ∧ t = s.withObject temp first := by
    refine StorageCall.send_ensures ?_
    rw [Storage.serve_copy hget]
    exact ⟨⟨first, rfl⟩, rfl⟩
  refine Storage.detour_ends (target.withSuffix_ne hsuffix) hwrite ?_
  rw [publishedObject_rekeyed]
  exact .inr ⟨hid, wrapped, hwrapped, rfl, rfl⟩

end EncryptingClient

end SealedStore
