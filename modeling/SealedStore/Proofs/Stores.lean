import SealedStore.Proofs.EnvelopeEntries
import SealedStore.Proofs.Handling
import SealedStore.Proofs.Travel
/-!
# Stores and their objects

What the calls of a detour do to a store whose ETags are digests: the objects
they store, and the store once the temporary object is gone.

What is proved:
  1. `Storage.serve_put`, `Storage.serve_copy` — the objects that are stored.
  2. `Storage.delete_eq_afterDetour` — a detour leaves one object and nothing
     at the temporary place.
-/

namespace SealedStore

open Program (Ensures)

namespace Table
variable {κ ν : Type} [DecidableEq κ]

theorem erase_insert_self (t : Table κ ν) (k : κ) (v : ν) : (t.insert k v).erase k = t.erase k :=
  t.filterKeys_insert_of_neg (p := fun j => !decide (j = k)) (by simp) v

theorem erase_insert_of_ne (t : Table κ ν) {j k : κ} (h : j ≠ k) (v : ν) :
    (t.insert j v).erase k = (t.erase k).insert j v :=
  t.filterKeys_insert_of_pos (p := fun j => !decide (j = k)) (by simp [h]) v

end Table

namespace Storage

/-- The ETag that is kept with a content: the one that is given, if it says
anything, or the digest of the content. -/
def keptEtag (content : Bytes) (etag : Option String) : String :=
  (etag.filter (!·.isEmpty)).getD (Md5.hex content)

theorem keptEtag_of_ne (content : Bytes) {etag : String} (h : etag ≠ "") :
    keptEtag content (some etag) = etag := by
  have hsaid : (!etag.isEmpty) = true := by simpa using h
  rw [keptEtag, Option.filter_some, if_pos hsaid]
  rfl

theorem keptEtag_kept (content : Bytes) (etag : Option String) :
    keptEtag content (some (keptEtag content etag)) = keptEtag content etag := by
  cases hsaid : etag.filter (!·.isEmpty) with
  | none =>
    have hkept : keptEtag content etag = Md5.hex content := by rw [keptEtag, hsaid]; rfl
    rw [hkept, keptEtag, Option.filter_some]
    split <;> rfl
  | some said =>
    have hkept : keptEtag content etag = said := by rw [keptEtag, hsaid]; rfl
    have hne : (!said.isEmpty) = true := (Option.filter_eq_some_iff.mp hsaid).2
    rw [hkept, keptEtag, Option.filter_some, if_pos hne]
    rfl

/-- What is stored under an address. -/
def objectOf (s : Storage) (content : Bytes) (metadata : Metadata) (acl : Option AccessList)
    (etag : Option String := none) : StoredObject where
  content := content
  metadata := { metadata with
    contentLength := some content.length
    etag := some (keptEtag content etag)
    lastModified := some (s.clock + 1) }
  acl := acl.getD {}
  versionId := some (nameOf (s.issued + 1))

def withObject (s : Storage) (target : Identity) (object : StoredObject) : Storage :=
  { s with objects := s.objects.insert target object, clock := s.clock + 1, issued := s.issued + 1 }

theorem objectOf_kept (s : Storage) (content : Bytes) (metadata : Metadata) (acl : Option AccessList)
    (etag : Option String) :
    s.objectOf content metadata acl (some (keptEtag content etag)) = s.objectOf content metadata acl etag := by
  rw [objectOf, keptEtag_kept]
  rfl

theorem store_eq (s : Storage) (target : Identity) (content : Bytes) (metadata : Option Metadata)
    (acl : Option AccessList) (etag : Option String) :
    s.store target content metadata acl etag =
      (s.objectOf content (metadata.getD {}) acl etag,
        s.withObject target (s.objectOf content (metadata.getD {}) acl etag)) := rfl

/-- The store after an object was published over a temporary one. -/
def afterDetour (s : Storage) (target temp : Identity) (object : StoredObject) : Storage :=
  { s with
    objects := (s.objects.erase temp).insert target object
    clock := s.clock + 2
    issued := s.issued + 2 }

theorem delete_eq_afterDetour (s : Storage) {target temp : Identity} (h : temp ≠ target)
    (first object : StoredObject) :
    ((s.withObject temp first).withObject target object).delete temp = s.afterDetour target temp object := by
  have herase : ((s.objects.insert temp first).insert target object).erase temp =
      (s.objects.erase temp).insert target object := by
    rw [Table.erase_insert_of_ne _ h.symm, Table.erase_insert_self]
  show ({ s with
    objects := ((s.objects.insert temp first).insert target object).erase temp
    clock := s.clock + 1 + 1
    issued := s.issued + 1 + 1 } : Storage) = _
  rw [herase, Int.add_assoc]
  rfl

theorem get?_withObject (s : Storage) (target : Identity) (object : StoredObject) :
    (s.withObject target object).objects.get? target = some object :=
  (Table.get?_insert ..).trans (if_pos rfl)

theorem get?_withObject_delete (s : Storage) {target temp : Identity} (h : temp ≠ target)
    (object : StoredObject) : ((s.withObject target object).delete temp).objects.get? target = some object :=
  (Table.get?_erase ..).trans ((if_neg h).trans (s.get?_withObject target object))

theorem serve_put (s : Storage) (target : Identity) (content : Bytes) (metadata : Metadata)
    (acl : Option AccessList) :
    let object := s.objectOf content metadata acl
    serve (.put target content (some metadata) acl none) s = (.ok object, s.withObject target object) := rfl

theorem serve_get {s : Storage} {target : Identity} {object : StoredObject}
    (hget : s.objects.get? target = some object) : serve (.get target) s = (.ok object, s) := by
  simp only [serve, find, hget]

theorem serve_get_missing {s : Storage} {target : Identity} (hget : s.objects.get? target = none) :
    serve (.get target) s = (.error (.notFound target), s) := by
  simp only [serve, find, hget]

theorem serve_acl {s : Storage} {target : Identity} {object : StoredObject}
    (hget : s.objects.get? target = some object) : serve (.acl target) s = (.ok object.acl, s) := by
  simp only [serve, find, hget]
  rfl

theorem serve_acl_missing {s : Storage} {target : Identity} (hget : s.objects.get? target = none) :
    serve (.acl target) s = (.error (.notFound target), s) := by
  simp only [serve, find, hget]
  rfl

theorem serve_copy_missing {s : Storage} {source : Identity} (hget : s.objects.get? source = none)
    (target : Identity) (metadata : Option Metadata) (acl : Option AccessList) :
    serve (.copy source target metadata acl) s = (.error (.notFound source), s) := by
  simp only [serve, copy, find, hget]
  rfl

theorem serve_copy {s : Storage} {source : Identity} {object : StoredObject}
    (hget : s.objects.get? source = some object) (target : Identity) (metadata : Option Metadata)
    (acl : Option AccessList) :
    let copied := s.objectOf object.content (metadata.getD object.metadata) acl object.metadata.etag
    serve (.copy source target metadata acl) s = (.ok copied, s.withObject target copied) := by
  have hfind : s.find source = .ok object := by
    simp only [find, hget]
  simp only [serve, copy, hfind, bind, Except.bind]
  rfl

/-- The object of a detour, published over what was written first. -/
def publishedObject (s : Storage) (first : StoredObject) (metadata : Option Metadata)
    (acl : Option AccessList) : StoredObject :=
  objectOf { s with clock := s.clock + 1, issued := s.issued + 1 } first.content
    (metadata.getD first.metadata) acl first.metadata.etag

/-- A detour over a store ends well. -/
theorem detour_ends {α : Type} {s : Storage} {target temp : Identity} {first : StoredObject}
    {write : StorageTask α} {metadata : Option Metadata} {acl : Option AccessList}
    {R : Except (DetourFailure StoredObject) StoredObject → Storage → Prop} (htemp : temp ≠ target)
    (hwrite : Ensures serve write.run s fun r t => (∃ a, r = .ok a) ∧ t = s.withObject temp first)
    (h : let object := s.publishedObject first metadata acl
      R (.ok object) (s.afterDetour target temp object)) :
    Detour.Ends serve write (StorageCall.copy temp target metadata acl).send
      (StorageCall.delete temp).send R s := by
  refine hwrite.mono ?_
  rintro _ _ ⟨⟨a, rfl⟩, rfl⟩
  refine StorageCall.send_ensures ?_
  rw [serve_copy (s.get?_withObject temp first)]
  refine StorageCall.send_ensures ?_
  have hafter := s.delete_eq_afterDetour htemp first (s.publishedObject first metadata acl)
  show R _ (((s.withObject temp first).withObject target (s.publishedObject first metadata acl)).delete temp)
  rw [hafter]
  exact h

theorem honest_objectOf (s : Storage) (content : Bytes) (metadata : Metadata) (acl : Option AccessList) :
    (shown (s.objectOf content metadata acl)).Honest content := Filter.mismatch?_self _

end Storage

end SealedStore
