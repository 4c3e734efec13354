import SealedStore.Proofs.Stores
/-!
# Consistent stores

Whatever is asked of a store that was empty, every object in it has the length
of its content, and an ETag that is the digest of its content or tells of how
many parts it was put together. A copy takes the ETag along, so it fits only
because it fitted the source. A call that fails changes nothing.

What is proved:
  1. `Storage.serve_error` — a call that fails leaves the store as it was.
  2. `Storage.serve_consistent` — every call keeps a store consistent.
  3. `Storage.Reachable.consistent` — hence so is every store that can be
     reached.
  4. `StoredObject.Consistent.honest` — no digest of a consistent object is
     another than the one that is reported.
-/

namespace SealedStore

/-! ## Objects -/

/-- The ETag of an object is the digest of its content, or that of the parts it
was put together from. -/
structure StoredObject.Consistent (object : StoredObject) : Prop where
  contentLength : object.metadata.contentLength = some (object.content.length : Int)
  etag : object.metadata.etag = some (Md5.hex object.content) ∨
    ∃ parts : List Bytes, parts.flatten = object.content ∧
      object.metadata.etag = some (Storage.partsEtag parts)

namespace Storage

theorem hyphen_mem_partsEtag (parts : List Bytes) : '-' ∈ (partsEtag parts).toList := by
  simp [partsEtag]

theorem partsEtag_ne (parts : List Bytes) : partsEtag parts ≠ "" := by
  intro h
  have hmem := hyphen_mem_partsEtag parts
  rw [h] at hmem
  cases hmem

end Storage

namespace StoredObject.Consistent
variable {object : StoredObject}

/-- The ETag of parts is no digest, and so it is not compared. -/
theorem honest (h : object.Consistent) : (Storage.shown object).Honest object.content := by
  show Filter.mismatch? _ object.metadata.etag = none
  obtain hetag | ⟨parts, -, hetag⟩ := h.etag
  · rw [hetag]
    exact Filter.mismatch?_self _
  · have hdigest : Filter.isDigest (Storage.partsEtag parts) = false :=
      Bool.eq_false_iff.mpr fun hd =>
        ((Filter.isDigest_iff _).mp hd).2 (Storage.hyphen_mem_partsEtag parts)
    rw [hetag, Filter.mismatch?, Filter.digestOf?, Option.filter_some, hdigest]
    rfl

theorem keptEtag (h : object.Consistent) :
    some (Storage.keptEtag object.content object.metadata.etag) = object.metadata.etag := by
  obtain hetag | ⟨parts, -, hetag⟩ := h.etag
  · rw [hetag]
    exact congrArg some (Storage.keptEtag_kept object.content none)
  · rw [hetag, Storage.keptEtag_of_ne _ (Storage.partsEtag_ne parts)]

end StoredObject.Consistent

/-! ## Stores -/

/-- Every part has the digest of its content as its ETag. -/
def Upload.Consistent (upload : Upload) : Prop :=
  ∀ number etag content, upload.parts.get? number = some (etag, content) → etag = Md5.hex content

namespace Storage

/-- All objects and all parts are what their ETags say. -/
structure Consistent (s : Storage) : Prop where
  objects : ∀ target object, s.objects.get? target = some object → object.Consistent
  uploads : ∀ uploadId upload, s.uploads.get? uploadId = some upload → upload.Consistent

variable {s : Storage}

theorem Consistent.empty : ({} : Storage).Consistent where
  objects target object h := by
    have hnone : ({} : Storage).objects.get? target = none := rfl
    rw [hnone] at h
    cases h
  uploads uploadId upload h := by
    have hnone : ({} : Storage).uploads.get? uploadId = none := rfl
    rw [hnone] at h
    cases h

theorem Consistent.withObject (h : s.Consistent) (target : Identity) {object : StoredObject}
    (ho : object.Consistent) : (s.withObject target object).Consistent where
  objects := by
    intro other found hget
    rw [Storage.withObject, Table.get?_insert] at hget
    split at hget
    · cases hget
      exact ho
    · exact h.objects other found hget
  uploads := h.uploads

theorem Consistent.withUpload (h : s.Consistent) (uploadId : String) (issued : Nat) {upload : Upload}
    (hu : upload.Consistent) :
    ({ s with uploads := s.uploads.insert uploadId upload, issued } : Storage).Consistent where
  objects := h.objects
  uploads := by
    intro other found hget
    rw [Table.get?_insert] at hget
    split at hget
    · cases hget
      exact hu
    · exact h.uploads other found hget

theorem Consistent.withoutUpload (h : s.Consistent) (uploadId : String) :
    ({ s with uploads := s.uploads.erase uploadId } : Storage).Consistent where
  objects := h.objects
  uploads := by
    intro other found hget
    rw [Table.get?_erase] at hget
    split at hget
    · cases hget
    · exact h.uploads other found hget

/-! ### Single calls -/

theorem consistent_store (h : s.Consistent) (target : Identity) (content : Bytes)
    (metadata : Option Metadata) (acl : Option AccessList) {etag : Option String}
    (hetag : keptEtag content etag = Md5.hex content ∨
      ∃ parts : List Bytes, parts.flatten = content ∧ keptEtag content etag = partsEtag parts) :
    (s.store target content metadata acl etag).2.Consistent := by
  rw [store_eq]
  refine h.withObject target ⟨rfl, ?_⟩
  obtain hdigest | ⟨parts, hparts, hetag⟩ := hetag
  · exact .inl (congrArg some hdigest)
  · exact .inr ⟨parts, hparts, congrArg some hetag⟩

theorem find_eq_ok_iff {target : Identity} {object : StoredObject} :
    s.find target = .ok object ↔ s.objects.get? target = some object := by
  unfold find
  cases s.objects.get? target <;> simp

theorem findUpload_eq_ok_iff {uploadId : String} {upload : Upload} :
    s.findUpload uploadId = .ok upload ↔ s.uploads.get? uploadId = some upload := by
  unfold findUpload
  cases s.uploads.get? uploadId <;> simp

theorem consistent_copy {source target : Identity} {metadata : Option Metadata} {acl : Option AccessList}
    {out : StoredObject × Storage} (h : s.Consistent) (hcopy : s.copy source target metadata acl = .ok out) :
    out.2.Consistent := by
  obtain ⟨object, hfind, hout⟩ := bind_eq_ok_iff.mp hcopy
  obtain rfl := Except.ok.inj hout
  have ho := h.objects source object (find_eq_ok_iff.mp hfind)
  refine consistent_store h target object.content _ acl ?_
  -- What is kept is the ETag of the source, which fits the same content.
  have hkept := ho.keptEtag
  obtain hetag | ⟨parts, hparts, hetag⟩ := ho.etag
  · exact .inl (Option.some.inj (hkept.trans hetag))
  · exact .inr ⟨parts, hparts, Option.some.inj (hkept.trans hetag)⟩

theorem consistent_uploadPart {uploadId : String} {number : Int} {content : Bytes} {out : String × Storage}
    (h : s.Consistent) (hpart : s.uploadPart uploadId number content = .ok out) : out.2.Consistent := by
  obtain ⟨upload, hfind, hout⟩ := bind_eq_ok_iff.mp hpart
  obtain rfl := Except.ok.inj hout
  refine h.withUpload uploadId s.issued fun other etag found hfound => ?_
  rw [Table.get?_insert] at hfound
  split at hfound
  · obtain ⟨rfl, rfl⟩ := Prod.mk.inj (Option.some.inj hfound)
    rfl
  · exact h.uploads uploadId upload (findUpload_eq_ok_iff.mp hfind) other etag found hfound

theorem uploadPart_etag {uploadId : String} {number : Int} {content : Bytes} {out : String × Storage}
    (hpart : s.uploadPart uploadId number content = .ok out) : out.1 = Md5.hex content := by
  obtain ⟨upload, -, hout⟩ := bind_eq_ok_iff.mp hpart
  obtain rfl := Except.ok.inj hout
  rfl

theorem consistent_complete {uploadId : String} {tags : List PartTag} {out : StoredObject × Storage}
    (h : s.Consistent) (hcomplete : s.complete uploadId tags = .ok out) : out.2.Consistent := by
  obtain ⟨upload, -, hcomplete⟩ := bind_eq_ok_iff.mp hcomplete
  obtain ⟨contents, -, hout⟩ := bind_eq_ok_iff.mp hcomplete
  obtain rfl := Except.ok.inj hout
  exact consistent_store (h.withoutUpload uploadId) upload.target contents.flatten _ upload.acl
    (.inr ⟨contents, rfl, keptEtag_of_ne _ (partsEtag_ne contents)⟩)

theorem settle_keeps {α : Type} {P : Storage → Prop} {r : Except Error (α × Storage)} (h : P s)
    (hr : ∀ out, r = .ok out → P out.2) : P (s.settle r).2 := by
  cases r with
  | error e => exact h
  | ok out => exact hr out rfl

theorem eq_of_abort {uploadId : String} {out : Unit × Storage}
    (habort : (s.abort uploadId).map (fun after => ((), after)) = .ok out) :
    out.2 = { s with uploads := s.uploads.erase uploadId } := by
  unfold abort at habort
  cases hfind : s.findUpload uploadId with
  | error e =>
    rw [hfind] at habort
    cases habort
  | ok upload =>
    rw [hfind] at habort
    cases habort
    rfl

/-- Every call keeps a store consistent. -/
theorem serve_consistent (h : s.Consistent) (c : StorageCall) : (serve c s).2.Consistent := by
  cases c with
  | put target content metadata acl offset =>
    cases offset with
    | none => exact consistent_store h target content metadata acl (.inl rfl)
    | some offset => exact consistent_store h target _ _ _ (.inl rfl)
  | get | acl | list => exact h
  | copy source target metadata acl => exact settle_keeps h fun _ => consistent_copy h
  | delete target =>
    refine ⟨fun other object hget => ?_, h.uploads⟩
    have hget : (s.objects.erase target).get? other = some object := hget
    rw [Table.get?_erase] at hget
    split at hget
    · cases hget
    · exact h.objects other object hget
  | initiate target metadata acl =>
    refine h.withUpload _ _ ?_
    -- A new upload has no parts.
    rintro _ _ _ ⟨⟩
  | uploadPart uploadId number content => exact settle_keeps h fun _ => consistent_uploadPart h
  | complete uploadId tags => exact settle_keeps h fun _ => consistent_complete h
  | abort uploadId =>
    refine settle_keeps h fun out habort => ?_
    rw [eq_of_abort habort]
    exact h.withoutUpload uploadId
  | now => exact ⟨h.objects, h.uploads⟩

theorem settle_error {α : Type} {r : Except Error (α × Storage)} {e : Error}
    (h : (s.settle r).1 = .error e) : (s.settle r).2 = s := by
  cases r with
  | error f => rfl
  | ok out => cases h

/-- A call that fails leaves the store as it was. -/
theorem serve_error {c : StorageCall} {e : Error} (h : (serve c s).1 = .error e) : (serve c s).2 = s := by
  cases c with
  | put target content metadata acl offset => cases h
  | get | acl => rfl
  | list | delete | initiate | now => cases h
  | copy | uploadPart | complete | abort => exact settle_error h

/-! ### All calls -/

/-- The stores that calls can make of an empty one. -/
inductive Reachable : Storage → Prop
  | empty : Reachable {}
  | step {s : Storage} (c : StorageCall) (h : Reachable s) : Reachable (serve c s).2

theorem Reachable.consistent (h : s.Reachable) : s.Consistent := by
  induction h with
  | empty => exact .empty
  | step c _ ih => exact serve_consistent ih c

/-- Whatever a program does, the store can still be reached. -/
theorem Reachable.run {α : Type} {w : World Storage} (h : w.state.Reachable)
    (p : Program StorageInterface α) : (p.run serve w).2.state.Reachable := by
  induction p generalizing w with
  | done a => exact h
  | draw kind size next ih => exact ih _ (w := w.afterDraw kind) (by rwa [World.state_afterDraw])
  | log event next ih => exact ih (w := w.reported event) h
  | call c next ih => exact ih _ (w := { w with state := (serve c w.state).2 }) (.step c h)

end Storage

end SealedStore
