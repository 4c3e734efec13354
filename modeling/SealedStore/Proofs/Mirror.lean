import SealedStore.Proofs.Rekeying
/-!
# Stores that mirror a plain map

To a caller an encrypting client looks like a map from addresses to contents,
with the metadata and the access list that came with each. The store behind it
mirrors that map: every object in it is sealed by the ring, under an envelope
that it carries along, to the content in the map. Every operation that is done
keeps the mirror, as long as nothing of the map stands at a temporary place.

What is proved:
  1. `Encryption.Mirrors.insert`, `Mirrors.erase`, `Mirrors.of_get?` — how a
     mirror changes.
  2. `EncryptingClient.put_mirrors`, `copy_mirrors`, `delete_mirrors`,
     `rekey_mirrors` — every operation keeps the mirror.
  3. `EncryptingClient.get_mirrors`, `read_mirrors`, `acl_mirrors` — what is read
     is what is in the map.
-/

namespace SealedStore

open Program (Ensures)

/-! ## Plain maps -/

/-- An object as a caller knows it: its content, and what was given along. -/
structure PlainObject where
  content : Bytes
  metadata : Metadata := {}
  acl : AccessList := {}

abbrev PlainMap := Table Identity PlainObject

/-- The map after a copy, which brings an access list of its own. -/
def PlainMap.copy (m : PlainMap) (source target : Identity) (acl : Option AccessList) : PlainMap :=
  match m.get? source with
  | none => m
  | some plain => m.insert target { plain with acl := acl.getD {} }

/-! ## Mirrors -/

namespace Encryption

/-- A stored object is the sealed form of a plain one. -/
structure Shows (e : Encryption) (object : StoredObject) (plain : PlainObject) : Prop where
  etag : object.metadata.etag = some (Md5.hex object.content)
  seals : ∃ envelope, e.Seals envelope object.content plain.content ∧
    Envelope.Carries object.metadata.user envelope
  contentType : object.metadata.contentType = plain.metadata.contentType
  user : Envelope.strip object.metadata.user = Envelope.strip plain.metadata.user
  acl : object.acl = plain.acl

/-- At every address the store holds the sealed form of what is in the map. -/
def Mirrors (e : Encryption) (objects : Table Identity StoredObject) (m : PlainMap) : Prop :=
  ∀ target, Option.Rel e.Shows (objects.get? target) (m.get? target)

variable {e reader : Encryption} {objects : Table Identity StoredObject} {m : PlainMap}
  {target temp : Identity} {object : StoredObject} {plain : PlainObject}

theorem Shows.honest (h : e.Shows object plain) : (Storage.shown object).Honest object.content := by
  show Filter.mismatch? _ object.metadata.etag = none
  rw [h.etag]
  exact Filter.mismatch?_self _

theorem Shows.keptEtag (h : e.Shows object plain) :
    Storage.keptEtag object.content object.metadata.etag = Md5.hex object.content := by
  rw [h.etag]
  exact Storage.keptEtag_kept object.content none

theorem mirrors_empty (e : Encryption) : e.Mirrors Table.empty Table.empty := fun _ => .none

theorem Mirrors.cases (h : e.Mirrors objects m) (target : Identity) :
    (objects.get? target = none ∧ m.get? target = none) ∨
      ∃ object plain, objects.get? target = some object ∧ m.get? target = some plain ∧
        e.Shows object plain := by
  have hrel := h target
  generalize objects.get? target = stored at hrel
  generalize m.get? target = known at hrel
  cases hrel with
  | none => exact .inl ⟨rfl, rfl⟩
  | some hshows => exact .inr ⟨_, _, rfl, rfl, hshows⟩

theorem Mirrors.insert (h : e.Mirrors objects m) (hshows : e.Shows object plain) :
    e.Mirrors (objects.insert target object) (m.insert target plain) := by
  intro other
  rw [Table.get?_insert, Table.get?_insert]
  by_cases ho : target = other
  · rw [if_pos ho, if_pos ho]
    exact .some hshows
  · rw [if_neg ho, if_neg ho]
    exact h other

theorem Mirrors.replace (h : e.Mirrors objects m) (hplain : m.get? target = some plain)
    (hshows : e.Shows object plain) : e.Mirrors (objects.insert target object) m := by
  intro other
  rw [Table.get?_insert]
  by_cases ho : target = other
  · rw [if_pos ho, ← ho, hplain]
    exact .some hshows
  · rw [if_neg ho]
    exact h other

theorem Mirrors.erase (h : e.Mirrors objects m) : e.Mirrors (objects.erase target) (m.erase target) := by
  intro other
  rw [Table.get?_erase, Table.get?_erase]
  by_cases ho : target = other
  · rw [if_pos ho, if_pos ho]
    exact .none
  · rw [if_neg ho, if_neg ho]
    exact h other

theorem Mirrors.erase_temp (h : e.Mirrors objects m) (htemp : m.get? temp = none) :
    e.Mirrors (objects.erase temp) m := by
  intro other
  rw [Table.get?_erase]
  by_cases ho : temp = other
  · rw [if_pos ho, ← ho, htemp]
    exact .none
  · rw [if_neg ho]
    exact h other

/-- Whoever holds all keys of a ring sees the same in its mirror. -/
theorem Mirrors.of_get? (h : e.Mirrors objects m)
    (hring : ∀ keyId master, e.ring.get? keyId = some master → reader.ring.get? keyId = some master) :
    reader.Mirrors objects m := by
  intro target
  obtain ⟨hobject, hplain⟩ | ⟨object, plain, hobject, hplain, hshows⟩ := h.cases target
  · rw [hobject, hplain]
    exact .none
  · obtain ⟨envelope, hseals, hcarries⟩ := hshows.seals
    rw [hobject, hplain]
    exact .some ⟨hshows.etag, ⟨envelope, hseals.of_get? hring, hcarries⟩, hshows.contentType,
      hshows.user, hshows.acl⟩

end Encryption

/-! ## Operations -/

namespace EncryptingClient
variable {settings : EncryptionSettings} {base : ClientSettings} {s : Storage} {m : PlainMap}
  {source target : Identity}

/-- What a write stores is the sealed form of its content. -/
theorem shows_sealedObject {p : Put} {encoder : Encoder} {content : Bytes}
    (hsound : settings.encryption.Sound encoder) (hlen : content.length < 10 ^ Integer.maxDigits) :
    settings.encryption.Shows (sealedObject s p encoder content)
      { content, metadata := p.metadata.getD {}, acl := p.acl.getD {} } where
  etag := rfl
  seals := ⟨encoder.envelope content, Encryption.seals_of_sound hsound (KeyRing.get?_current _) hlen,
    Envelope.carries_merge _ rfl rfl⟩
  contentType := rfl
  user := Envelope.strip_merge fun name hn =>
    Envelope.startsWith_of_mem_names name (Envelope.keys_toUserMetadata _ name hn)
  acl := rfl

theorem put_mirrors {p : Put} {content : Bytes} (hsuffix : settings.tempSuffix ≠ "")
    (hrange : p.range = none) (hp : p.Brings content) (hk : settings.encryption.ring.current.Dependable)
    (hlen : content.length < 10 ^ Integer.maxDigits) (h : settings.encryption.Mirrors s.objects m)
    (htemp : m.get? (p.target.withSuffix settings.tempSuffix) = none) :
    Ensures Storage.serve ((usual settings base).put p) s fun _ t =>
      settings.encryption.Mirrors t.objects
        (m.insert p.target { content, metadata := p.metadata.getD {}, acl := p.acl.getD {} }) := by
  refine (put_wrote oneChecksum_default hsuffix hrange hp hk).mono ?_
  rintro out t ⟨encoder, hsound, rfl, -⟩
  exact (h.erase_temp htemp).insert (shows_sealedObject hsound hlen)

theorem copy_mirrors {acl : Option AccessList} (h : settings.encryption.Mirrors s.objects m) :
    Ensures Storage.serve ((usual settings base).copy source target none acl).run s fun _ t =>
      settings.encryption.Mirrors t.objects (m.copy source target acl) := by
  show Ensures Storage.serve ((usual settings base).base.copy source target none acl).run s _
  refine Client.copy_ensures (StorageCall.send_ensures ?_)
  obtain ⟨hobject, hplain⟩ | ⟨object, plain, hobject, hplain, hshows⟩ := h.cases source
  · rw [Storage.serve_copy_missing hobject, PlainMap.copy, hplain]
    exact h
  · -- The envelope goes along with the content it belongs to.
    rw [Storage.serve_copy hobject, PlainMap.copy, hplain]
    exact h.insert ⟨congrArg some hshows.keptEtag, hshows.seals, hshows.contentType, hshows.user, rfl⟩

theorem delete_mirrors (h : settings.encryption.Mirrors s.objects m) :
    Ensures Storage.serve ((usual settings base).base.delete target).run s fun _ t =>
      settings.encryption.Mirrors t.objects (m.erase target) :=
  Client.delete_ensures (StorageCall.send_ensures h.erase)

theorem shows_rekeyedObject {object : StoredObject} {plain : PlainObject} {envelope : Envelope}
    {d : Decoder} {wrapped : Bytes} (hshows : settings.encryption.Shows object plain)
    (hseals : settings.encryption.Seals envelope object.content plain.content)
    (hcarries : Envelope.Carries object.metadata.user envelope)
    (hold : settings.encryption.unwrap envelope = .ok d.dataKey)
    (hnew : settings.encryption.ring.current.unwrap wrapped = .ok d.dataKey) :
    settings.encryption.Shows (rekeyedObject settings s object wrapped) plain where
  etag := congrArg some hshows.keptEtag
  seals := ⟨_, hseals.rewrapped hold hnew, Encryption.carries_rekeyed hcarries wrapped⟩
  contentType := hshows.contentType
  user := (Encryption.strip_rekeyed _ wrapped).trans hshows.user
  acl := hshows.acl

theorem rekey_mirrors (hsuffix : settings.tempSuffix ≠ "")
    (hk : settings.encryption.ring.current.Dependable) (h : settings.encryption.Mirrors s.objects m)
    (htemp : m.get? (target.withSuffix settings.tempSuffix) = none) :
    Ensures Storage.serve ((usual settings base).rekey target).run s fun _ t =>
      settings.encryption.Mirrors t.objects m := by
  obtain ⟨hobject, -⟩ | ⟨object, plain, hobject, hplain, hshows⟩ := h.cases target
  · -- There is nothing to rekey, and nothing has been done yet.
    refine .attempt (Client.metadata_ensures (StorageCall.send_ensures ?_))
    rw [Storage.serve_get_missing hobject]
    exact h
  · obtain ⟨envelope, hseals, hcarries⟩ := hshows.seals
    obtain ⟨d, hd, rfl, -⟩ := Encryption.decoder_of_seals hseals hcarries
    have hold : settings.encryption.unwrap d.envelope = .ok d.dataKey := (Encryption.decoder_eq_ok_iff.mp hd).2.2.1
    refine (rekey_rekeyed (c := usual settings base) hsuffix hk hobject hd).mono ?_
    rintro r t (⟨-, rfl, -⟩ | ⟨-, wrapped, hwrapped, rfl, -⟩)
    · exact h
    · exact (h.erase_temp htemp).replace hplain (shows_rekeyedObject hshows hseals hcarries hold hwrapped)

/-! ## Reads -/

/-- What a caller gets to know of a plain object, or of there being none. -/
def Learns (target : Identity) : Option PlainObject → Except Error ObjectContent → Prop
  | none, r => r = .error (.notFound target)
  | some plain, r => ∃ body metadata, r = .ok { body, metadata } ∧ body.Holds plain.content ∧
      metadata.contentType = plain.metadata.contentType ∧
      Envelope.strip metadata.user = Envelope.strip plain.metadata.user

theorem get_mirrors (h : settings.encryption.Mirrors s.objects m) :
    Ensures Storage.serve ((usual settings base).get target none).run s fun r t =>
      t = s ∧ Learns target (m.get? target) r := by
  obtain ⟨hobject, hplain⟩ | ⟨object, plain, hobject, hplain, hshows⟩ := h.cases target
  · refine get_ensures oneChecksum_default (StorageCall.send_ensures ?_)
    rw [Storage.serve_get_missing hobject, hplain]
    exact ⟨rfl, rfl⟩
  · obtain ⟨envelope, hseals, hcarries⟩ := hshows.seals
    refine (get_sealed oneChecksum_default hobject hshows.honest hseals hcarries).mono ?_
    rintro r t ⟨rfl, body, hbody, rfl⟩
    rw [hplain]
    exact ⟨rfl, body, _, rfl, hbody, hshows.contentType, hshows.user⟩

theorem read_mirrors (h : settings.encryption.Mirrors s.objects m) :
    Ensures Storage.serve ((usual settings base).read target).run s fun r t => t = s ∧
      r = ((m.get? target).map PlainObject.content).elim (.error (.notFound target)) .ok := by
  refine .attempt ((get_mirrors h).mono ?_)
  rintro r t ⟨rfl, hlearns⟩
  cases hplain : m.get? target with
  | none =>
    rw [hplain] at hlearns
    obtain rfl : r = .error (.notFound target) := hlearns
    exact ⟨rfl, rfl⟩
  | some plain =>
    rw [hplain] at hlearns
    obtain ⟨body, metadata, rfl, hbody, -⟩ := hlearns
    exact .done ⟨rfl, hbody.read_rest.1⟩

theorem acl_mirrors (h : settings.encryption.Mirrors s.objects m) :
    Ensures Storage.serve ((usual settings base).base.acl target).run s fun r t => t = s ∧
      r = ((m.get? target).map PlainObject.acl).elim (.error (.notFound target)) .ok := by
  refine Client.acl_ensures (StorageCall.send_ensures ?_)
  obtain ⟨hobject, hplain⟩ | ⟨object, plain, hobject, hplain, hshows⟩ := h.cases target
  · rw [Storage.serve_acl_missing hobject, hplain]
    exact ⟨rfl, rfl⟩
  · rw [Storage.serve_acl hobject, hplain]
    exact ⟨rfl, congrArg Except.ok hshows.acl⟩

end EncryptingClient

end SealedStore
