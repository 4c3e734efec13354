import SealedStore.Proofs.Consistency
import SealedStore.Proofs.Stamps
/-!
# Uploads in a store

How an upload that is kept in a store ends when it is completed, and what calls
do to it before that. Completing looks at the listed parts in the order of their
numbers. Tags with one number that name the part name the same content, so the
order of the list plays no role; and the number of the first tag that does not
is the least such number, so it plays none in the error either.

An upload is changed by the calls that name it alone. Nothing else a call does
depends on uploads that it does not name.

What is proved:
  1. `Storage.nameOf_injective` — no two uploads get one name.
  2. `Storage.complete_named`, `Storage.complete_refused`, `Storage.complete_perm`
     — completing an upload.
  3. `Storage.keepsUploads_serve` — what a call leaves alone.
  4. `Storage.AgreesFor.serve` — stores that are the same to one upload.
  5. `Storage.Tracks.complete` — how an open upload ends.
-/

namespace SealedStore

/-! ## Names -/

def hexValue (c : Char) : Nat := if c.isDigit then c.toNat - 48 else c.toNat - 87

def ofHexDigits (digits : List Char) : Nat := digits.foldl (fun n c => 16 * n + hexValue c) 0

theorem hexValue_digitChar : ∀ d < 16, hexValue (Nat.digitChar d) = d := by decide

theorem ofHexDigits_append (digits more : List Char) :
    ofHexDigits (digits ++ more) = more.foldl (fun n c => 16 * n + hexValue c) (ofHexDigits digits) :=
  List.foldl_append

theorem ofHexDigits_toDigits (n : Nat) : ofHexDigits (Nat.toDigits 16 n) = n := by
  induction n using Nat.strongRecOn with
  | ind n ih =>
    by_cases hlt : n < 16
    · rw [Nat.toDigits_of_lt_base hlt]
      show 16 * 0 + hexValue (Nat.digitChar n) = n
      rw [hexValue_digitChar n hlt, Nat.mul_zero, Nat.zero_add]
    · have hlast : n % 16 < 16 := Nat.mod_lt n (by decide)
      rw [Nat.toDigits_of_base_le (by decide) (Nat.le_of_not_lt hlt), ofHexDigits_append,
        ih (n / 16) (by omega)]
      show 16 * (n / 16) + hexValue (Nat.digitChar (n % 16)) = n
      rw [hexValue_digitChar _ hlast]
      omega

theorem ofHexDigits_zeros (k : Nat) : ofHexDigits (List.replicate k '0') = 0 := by
  induction k with
  | zero => rfl
  | succ k ih =>
    rw [List.replicate_succ', ofHexDigits_append, ih]
    rfl

namespace Storage

theorem ofHexDigits_nameOf (n : Nat) : ofHexDigits (nameOf n).toList = n := by
  have hvalue := ofHexDigits_toDigits n
  unfold nameOf
  rw [String.toList_ofList, ofHexDigits_append, ofHexDigits_zeros]
  exact hvalue

theorem nameOf_injective : Function.Injective nameOf := by
  intro m n h
  rw [← ofHexDigits_nameOf m, h, ofHexDigits_nameOf]

/-- A name that the store has given already. -/
def Issued (s : Storage) (name : String) : Prop := ∃ n ≤ s.issued, name = nameOf n

theorem Issued.ne_next {s : Storage} {name : String} (h : s.Issued name) : nameOf (s.issued + 1) ≠ name := by
  obtain ⟨n, hn, rfl⟩ := h
  intro heq
  have := nameOf_injective heq
  omega

end Storage

/-! ## Listed parts -/

namespace Upload

/-- A tag names a part of the upload by its number and its ETag. -/
def Names (upload : Upload) (tag : PartTag) : Prop :=
  ∃ content, upload.parts.get? tag.number = some (tag.etag, content)

def contentOf (upload : Upload) (number : Int) : Bytes := ((upload.parts.get? number).map Prod.snd).getD []

end Upload

/-- Tags in the order of their numbers. -/
def Ascending (tags : List PartTag) : Prop := tags.Pairwise fun a b => a.number ≤ b.number

/-- A list has its numbers in one order. -/
theorem Ascending.numbers_eq {tags other : List PartTag} (h : Ascending tags) (h' : Ascending other)
    (hperm : tags.Perm other) : tags.map PartTag.number = other.map PartTag.number :=
  List.Perm.eq_of_pairwise (fun _ _ _ _ => Int.le_antisymm) (List.pairwise_map.mpr h)
    (List.pairwise_map.mpr h') (hperm.map _)

/-- A tag that is not good, with the least number of all such. -/
structure FirstBad (good : PartTag → Prop) (tags : List PartTag) (tag : PartTag) : Prop where
  listed : tag ∈ tags
  bad : ¬ good tag
  least : ∀ other ∈ tags, ¬ good other → tag.number ≤ other.number

theorem FirstBad.number_eq {good : PartTag → Prop} {tags more : List PartTag} {tag other : PartTag}
    (h : FirstBad good tags tag) (h' : FirstBad good more other) (hmem : ∀ tag, tag ∈ tags ↔ tag ∈ more) :
    tag.number = other.number :=
  Int.le_antisymm (h.least other ((hmem other).mpr h'.listed) h'.bad)
    (h'.least tag ((hmem tag).mp h.listed) h.bad)

namespace Storage
variable {s : Storage} {upload : Upload} {u : String} {tags : List PartTag}

theorem ascending_mergeSort (tags : List PartTag) :
    Ascending (tags.mergeSort fun a b => decide (a.number ≤ b.number)) := by
  have h := @List.pairwise_mergeSort PartTag (fun a b => decide (a.number ≤ b.number))
    (fun a b c hab hbc => by simp only [decide_eq_true_eq] at hab hbc ⊢; omega)
    (fun a b => by simp only [Bool.or_eq_true, decide_eq_true_eq]; omega) tags
  exact h.imp fun hab => of_decide_eq_true hab

theorem partContent_named {tag : PartTag} (h : upload.Names tag) :
    partContent upload u tag = .ok (upload.contentOf tag.number) := by
  obtain ⟨content, h⟩ := h
  simp only [partContent, Upload.contentOf, h, if_true, Option.map_some, Option.getD_some]

theorem partContent_refused {tag : PartTag} (h : ¬ upload.Names tag) :
    partContent upload u tag = .error (.storage (.invalidPart tag.number u)) := by
  unfold partContent
  split
  · next etag content hget =>
    -- There is a part under the number, but it has another ETag.
    refine if_neg fun heq => h ⟨content, ?_⟩
    rw [hget, heq]
  · rfl

theorem mapM_partContent_named (h : ∀ tag ∈ tags, upload.Names tag) :
    tags.mapM (partContent upload u) = .ok (tags.map fun tag => upload.contentOf tag.number) := by
  induction tags with
  | nil => rfl
  | cons tag rest ih =>
    rw [List.mapM_cons, partContent_named (h tag List.mem_cons_self),
      ih fun other hother => h other (List.mem_cons_of_mem _ hother)]
    rfl

/-- Tags in ascending order are refused for the least number that is bad. -/
theorem mapM_partContent_refused (upload : Upload) (u : String) (hsorted : Ascending tags)
    (h : ¬ ∀ tag ∈ tags, upload.Names tag) :
    ∃ tag, FirstBad upload.Names tags tag ∧
      tags.mapM (partContent upload u) = .error (.storage (.invalidPart tag.number u)) := by
  induction tags with
  | nil => exact absurd (fun _ hmem => nomatch hmem) h
  | cons tag rest ih =>
    obtain ⟨hhead, hrest⟩ := List.pairwise_cons.mp hsorted
    by_cases hnamed : upload.Names tag
    · have hbad : ¬ ∀ other ∈ rest, upload.Names other := fun hall => h (List.forall_mem_cons.mpr ⟨hnamed, hall⟩)
      obtain ⟨first, hfirst, herror⟩ := ih hrest hbad
      refine ⟨first, ⟨List.mem_cons_of_mem _ hfirst.listed, hfirst.bad, ?_⟩, ?_⟩
      · intro other hother hunnamed
        rcases List.mem_cons.mp hother with rfl | hother
        · exact absurd hnamed hunnamed
        · exact hfirst.least other hother hunnamed
      · rw [List.mapM_cons, partContent_named hnamed, herror]
        rfl
    · refine ⟨tag, ⟨List.mem_cons_self, hnamed, ?_⟩, ?_⟩
      · intro other hother _
        rcases List.mem_cons.mp hother with rfl | hother
        · exact Int.le_refl _
        · exact hhead other hother
      · rw [List.mapM_cons, partContent_refused hnamed]
        rfl

/-! ## Completing an upload -/

def without (s : Storage) (u : String) : Storage := { s with uploads := s.uploads.erase u }

def assembled (s : Storage) (upload : Upload) (contents : List Bytes) : StoredObject :=
  s.objectOf contents.flatten upload.metadata upload.acl (some (partsEtag contents))

theorem complete_gone (h : s.uploads.get? u = none) (tags : List PartTag) :
    s.complete u tags = .error (.storage (.noSuchUpload u)) := by
  unfold complete findUpload
  rw [h]
  rfl

theorem complete_eq (h : s.uploads.get? u = some upload) (tags : List PartTag) :
    s.complete u tags =
      ((tags.mergeSort fun a b => decide (a.number ≤ b.number)).mapM (partContent upload u)).map
        fun contents => (s.assembled upload contents,
          (s.without u).withObject upload.target (s.assembled upload contents)) := by
  have hfind : s.findUpload u = .ok upload := findUpload_eq_ok_iff.mpr h
  simp only [complete, hfind, bind, Except.bind]
  cases (tags.mergeSort fun a b => decide (a.number ≤ b.number)).mapM (partContent upload u) <;> rfl

theorem complete_named (h : s.uploads.get? u = some upload) (hnamed : ∀ tag ∈ tags, upload.Names tag)
    {ordered : List PartTag} (hperm : ordered.Perm tags) (hordered : Ascending ordered) :
    let object := s.assembled upload (ordered.map fun tag => upload.contentOf tag.number)
    s.complete u tags = .ok (object, (s.without u).withObject upload.target object) := by
  have hsort := List.mergeSort_perm tags fun a b => decide (a.number ≤ b.number)
  have hcontents : (tags.mergeSort fun a b => decide (a.number ≤ b.number)).map (fun tag =>
      upload.contentOf tag.number) = ordered.map fun tag => upload.contentOf tag.number := by
    -- In either order the numbers are the same ones, and they alone tell the contents.
    have hnumbers := (ascending_mergeSort tags).numbers_eq hordered (hsort.trans hperm.symm)
    have hmap := congrArg (List.map upload.contentOf) hnumbers
    rwa [List.map_map, List.map_map] at hmap
  rw [complete_eq h, mapM_partContent_named fun tag htag => hnamed tag (hsort.mem_iff.mp htag), hcontents]
  rfl

theorem complete_refused (h : s.uploads.get? u = some upload) (hbad : ¬ ∀ tag ∈ tags, upload.Names tag) :
    ∃ tag, FirstBad upload.Names tags tag ∧
      s.complete u tags = .error (.storage (.invalidPart tag.number u)) := by
  have hmem : ∀ tag, tag ∈ tags.mergeSort (fun a b => decide (a.number ≤ b.number)) ↔ tag ∈ tags :=
    fun tag => List.mem_mergeSort
  obtain ⟨tag, hfirst, herror⟩ := mapM_partContent_refused upload u
    (ascending_mergeSort tags) fun hall => hbad fun tag htag => hall tag ((hmem tag).mpr htag)
  refine ⟨tag, ⟨(hmem tag).mp hfirst.listed, hfirst.bad, ?_⟩, ?_⟩
  · exact fun other hother => hfirst.least other ((hmem other).mpr hother)
  · rw [complete_eq h, herror]
    rfl

/-- Parts may be listed in any order. -/
theorem complete_perm {other : List PartTag} (hperm : other.Perm tags) :
    s.complete u other = s.complete u tags := by
  cases hget : s.uploads.get? u with
  | none => rw [complete_gone hget, complete_gone hget]
  | some upload =>
    by_cases hnamed : ∀ tag ∈ tags, upload.Names tag
    · have hsort := List.mergeSort_perm tags fun a b => decide (a.number ≤ b.number)
      have hother : ∀ tag ∈ other, upload.Names tag := fun tag htag => hnamed tag (hperm.mem_iff.mp htag)
      rw [complete_named hget hnamed hsort (ascending_mergeSort tags),
        complete_named hget hother (hsort.trans hperm.symm) (ascending_mergeSort tags)]
    · have hother : ¬ ∀ tag ∈ other, upload.Names tag :=
        fun hall => hnamed fun tag htag => hall tag (hperm.mem_iff.mpr htag)
      obtain ⟨tag, hfirst, herror⟩ := complete_refused hget hnamed
      obtain ⟨tag', hfirst', herror'⟩ := complete_refused hget hother
      rw [herror, herror', hfirst'.number_eq hfirst fun _ => hperm.mem_iff]

end Storage

/-! ## Calls on uploads -/

/-- The upload that a call names. -/
def StorageCall.upload? : StorageCall → Option String
  | .uploadPart u _ _ | .complete u _ | .abort u => some u
  | _ => none

namespace Storage
variable {s : Storage} {u : String}

theorem serve_complete {r : Except Error (StoredObject × Storage)} {tags : List PartTag}
    (h : s.complete u tags = r) : serve (.complete u tags) s = s.settle r := by
  rw [← h]
  rfl

theorem serve_uploadPart {upload : Upload} (h : s.uploads.get? u = some upload) (number : Int) (content : Bytes) :
    serve (.uploadPart u number content) s = (.ok (Md5.hex content), { s with
      uploads := s.uploads.insert u { upload with
        parts := upload.parts.insert number (Md5.hex content, content) } }) := by
  have hfind : s.findUpload u = .ok upload := findUpload_eq_ok_iff.mpr h
  simp only [serve, uploadPart, hfind, bind, Except.bind]
  rfl

theorem serve_uploadPart_gone (h : s.uploads.get? u = none) (number : Int) (content : Bytes) :
    serve (.uploadPart u number content) s = (.error (.storage (.noSuchUpload u)), s) := by
  simp only [serve, uploadPart, findUpload, h]
  rfl

theorem serve_abort {upload : Upload} (h : s.uploads.get? u = some upload) :
    serve (.abort u) s = (.ok (), s.without u) := by
  have hfind : s.findUpload u = .ok upload := findUpload_eq_ok_iff.mpr h
  simp only [serve, abort, hfind, bind, Except.bind]
  rfl

theorem serve_abort_gone (h : s.uploads.get? u = none) :
    serve (.abort u) s = (.error (.storage (.noSuchUpload u)), s) := by
  simp only [serve, abort, findUpload, h]
  rfl

end Storage

/-! ## Other uploads -/

namespace Storage
variable {s t r : Storage} {u : String} {named : Option String}

/-- Every upload that has been started is as it was, but the one that is named. -/
structure KeepsUploads (named : Option String) (s t : Storage) : Prop where
  issued : s.issued ≤ t.issued
  same : ∀ u, s.Issued u → named ≠ some u → t.uploads.get? u = s.uploads.get? u

namespace KeepsUploads

theorem refl (named : Option String) (s : Storage) : KeepsUploads named s s := ⟨Nat.le_refl _, fun _ _ _ => rfl⟩

theorem store (h : KeepsUploads named s t) (target : Identity) (content : Bytes) (metadata : Option Metadata)
    (acl : Option AccessList) (etag : Option String) :
    KeepsUploads named s (t.store target content metadata acl etag).2 :=
  ⟨Nat.le_succ_of_le h.issued, h.same⟩

theorem insert (s : Storage) (u : String) (upload : Upload) :
    KeepsUploads (some u) s { s with uploads := s.uploads.insert u upload } where
  issued := Nat.le_refl _
  same _ _ hne := (Table.get?_insert ..).trans (if_neg fun heq => hne (congrArg some heq))

theorem without (s : Storage) (u : String) : KeepsUploads (some u) s (s.without u) where
  issued := Nat.le_refl _
  same _ _ hne := (Table.get?_erase ..).trans (if_neg fun heq => hne (congrArg some heq))

end KeepsUploads

/-- A call keeps the uploads that it does not name. -/
theorem keepsUploads_serve (c : StorageCall) (s : Storage) : KeepsUploads c.upload? s (serve c s).2 := by
  cases c with
  | get | acl | list | delete | now => exact ⟨Nat.le_refl _, fun _ _ _ => rfl⟩
  | put target content metadata acl offset =>
    -- The offset decides what is stored, not where.
    cases offset with
    | none => exact (KeepsUploads.refl none s).store ..
    | some offset => exact (KeepsUploads.refl none s).store ..
  | copy source target metadata acl =>
    refine settle_keeps (.refl none s) fun out hcopy => ?_
    obtain ⟨object, -, hout⟩ := bind_eq_ok_iff.mp hcopy
    obtain rfl := Except.ok.inj hout
    exact (KeepsUploads.refl none s).store ..
  | initiate target metadata acl =>
    -- The new name is none of those that were given.
    refine ⟨Nat.le_succ _, fun u hu _ => ?_⟩
    exact (Table.get?_insert ..).trans (if_neg hu.ne_next)
  | uploadPart u number content =>
    refine settle_keeps (.refl _ s) fun out hpart => ?_
    obtain ⟨upload, -, hout⟩ := bind_eq_ok_iff.mp hpart
    obtain rfl := Except.ok.inj hout
    exact .insert s u _
  | complete u tags =>
    refine settle_keeps (.refl _ s) fun out hcomplete => ?_
    obtain ⟨upload, -, hcomplete⟩ := bind_eq_ok_iff.mp hcomplete
    obtain ⟨contents, -, hout⟩ := bind_eq_ok_iff.mp hcomplete
    obtain rfl := Except.ok.inj hout
    exact (KeepsUploads.without s u).store ..
  | abort u =>
    refine settle_keeps (.refl _ s) fun out habort => ?_
    rw [eq_of_abort habort]
    exact .without s u

theorem Issued.serve (h : s.Issued u) (c : StorageCall) : (serve c s).2.Issued u := by
  obtain ⟨n, hn, rfl⟩ := h
  exact ⟨n, Nat.le_trans hn (keepsUploads_serve c s).issued, rfl⟩

/-! ## Stores that are the same to one upload -/

/-- Two stores that agree but for their other uploads. -/
structure AgreesFor (u : String) (s t : Storage) : Prop where
  objects : s.objects = t.objects
  clock : s.clock = t.clock
  issued : s.issued = t.issued
  upload : s.uploads.get? u = t.uploads.get? u

namespace AgreesFor

theorem refl (u : String) (s : Storage) : AgreesFor u s s := ⟨rfl, rfl, rfl, rfl⟩

theorem symm (h : AgreesFor u s t) : AgreesFor u t s :=
  ⟨h.objects.symm, h.clock.symm, h.issued.symm, h.upload.symm⟩

theorem trans (h : AgreesFor u s t) (h' : AgreesFor u t r) : AgreesFor u s r :=
  ⟨h.objects.trans h'.objects, h.clock.trans h'.clock, h.issued.trans h'.issued, h.upload.trans h'.upload⟩

theorem uploadPart {v : String} (hne : v ≠ u) (s : Storage) (number : Int) (content : Bytes) :
    AgreesFor u s (serve (.uploadPart v number content) s).2 := by
  cases hget : s.uploads.get? v with
  | none =>
    rw [serve_uploadPart_gone hget]
    exact refl u s
  | some upload =>
    rw [serve_uploadPart hget]
    exact ⟨rfl, rfl, rfl, ((Table.get?_insert ..).trans (if_neg hne)).symm⟩

theorem abort {v : String} (hne : v ≠ u) (s : Storage) : AgreesFor u s (serve (.abort v) s).2 := by
  cases hget : s.uploads.get? v with
  | none =>
    rw [serve_abort_gone hget]
    exact refl u s
  | some upload =>
    rw [serve_abort hget]
    exact ⟨rfl, rfl, rfl, ((Table.get?_erase ..).trans (if_neg hne)).symm⟩

theorem objectOf_eq (h : AgreesFor u s t) (content : Bytes) (metadata : Metadata) (acl : Option AccessList)
    (etag : Option String) : s.objectOf content metadata acl etag = t.objectOf content metadata acl etag := by
  simp only [objectOf, h.clock, h.issued]

theorem withObject (h : AgreesFor u s t) (target : Identity) (object : StoredObject) :
    AgreesFor u (s.withObject target object) (t.withObject target object) where
  objects := by simp only [Storage.withObject, h.objects]
  clock := by simp only [Storage.withObject, h.clock]
  issued := by simp only [Storage.withObject, h.issued]
  upload := h.upload

theorem store (h : AgreesFor u s t) (target : Identity) (content : Bytes) (metadata : Option Metadata)
    (acl : Option AccessList) (etag : Option String) :
    (s.store target content metadata acl etag).1 = (t.store target content metadata acl etag).1 ∧
      AgreesFor u (s.store target content metadata acl etag).2 (t.store target content metadata acl etag).2 := by
  rw [store_eq, store_eq, h.objectOf_eq]
  exact ⟨rfl, h.withObject ..⟩

theorem without (h : AgreesFor u s t) : AgreesFor u (s.without u) (t.without u) where
  objects := h.objects
  clock := h.clock
  issued := h.issued
  upload := by simp only [Storage.without, Table.get?_erase, if_true]

theorem insert (h : AgreesFor u s t) (v : String) (upload : Upload) :
    AgreesFor u { s with uploads := s.uploads.insert v upload } { t with uploads := t.uploads.insert v upload } where
  objects := h.objects
  clock := h.clock
  issued := h.issued
  upload := by simp only [Table.get?_insert, h.upload]

theorem issue (h : AgreesFor u s t) : AgreesFor u s.issue.2 t.issue.2 :=
  ⟨h.objects, h.clock, congrArg (· + 1) h.issued, h.upload⟩

theorem complete (h : AgreesFor u s t) {upload : Upload} (hget : t.uploads.get? u = some upload)
    (tags : List PartTag) :
    (Storage.serve (.complete u tags) s).1 = (Storage.serve (.complete u tags) t).1 ∧
      AgreesFor u (Storage.serve (.complete u tags) s).2 (Storage.serve (.complete u tags) t).2 := by
  rw [serve_complete (complete_eq hget tags), serve_complete (complete_eq (h.upload.trans hget) tags)]
  cases (tags.mergeSort fun a b => decide (a.number ≤ b.number)).mapM (partContent upload u) with
  | error e => exact ⟨rfl, h⟩
  | ok contents =>
    have hobject : s.assembled upload contents = t.assembled upload contents := h.objectOf_eq ..
    refine ⟨congrArg Except.ok hobject, ?_⟩
    show AgreesFor u ((s.without u).withObject upload.target (s.assembled upload contents)) _
    rw [hobject]
    exact h.without.withObject ..

/-- A call that names no other upload has one reply, and makes no difference. -/
theorem serve (h : AgreesFor u s t) {c : StorageCall} (hc : ∀ v, c.upload? = some v → v = u) :
    (Storage.serve c s).1 = (Storage.serve c t).1 ∧
      AgreesFor u (Storage.serve c s).2 (Storage.serve c t).2 := by
  have hfind : ∀ i, s.find i = t.find i := fun i => by simp only [find, h.objects]
  -- A reply is made of what both stores share, and each change is made to both.
  cases c with
  | get target => exact ⟨hfind target, h⟩
  | acl target => exact ⟨congrArg (Except.map StoredObject.acl) (hfind target), h⟩
  | list bucket start => exact ⟨by simp only [Storage.serve, list, h.objects], h⟩
  | now =>
    have hclock : s.clock + 1 = t.clock + 1 := congrArg (· + 1) h.clock
    exact ⟨congrArg Except.ok hclock, h.objects, hclock, h.issued, h.upload⟩
  | delete target =>
    exact ⟨rfl, congrArg (Table.erase · target) h.objects, h.clock, h.issued, h.upload⟩
  | put target content metadata acl offset =>
    cases offset with
    | none =>
      obtain ⟨hobject, hstore⟩ := h.store target content metadata acl none
      exact ⟨congrArg Except.ok hobject, hstore⟩
    | some offset =>
      simp only [Storage.serve, put, h.objects]
      obtain ⟨hobject, hstore⟩ := h.store target _ _ _ none
      exact ⟨congrArg Except.ok hobject, hstore⟩
  | copy source target metadata acl =>
    cases hget : t.objects.get? source with
    | none =>
      rw [serve_copy_missing hget, serve_copy_missing (h.objects ▸ hget)]
      exact ⟨rfl, h⟩
    | some object =>
      rw [serve_copy hget, serve_copy (h.objects ▸ hget)]
      exact ⟨congrArg Except.ok (h.objectOf_eq ..), h.objectOf_eq .. ▸ h.withObject ..⟩
  | initiate target metadata acl =>
    have hname : nameOf (s.issued + 1) = nameOf (t.issued + 1) := by rw [h.issued]
    refine ⟨congrArg Except.ok hname, ?_⟩
    show AgreesFor u { s.issue.2 with uploads := s.issue.2.uploads.insert (nameOf (s.issued + 1)) _ } _
    rw [hname]
    exact h.issue.insert _ _
  | uploadPart v number content =>
    obtain rfl := hc v rfl
    cases hget : t.uploads.get? v with
    | none =>
      rw [serve_uploadPart_gone hget, serve_uploadPart_gone (h.upload.trans hget)]
      exact ⟨rfl, h⟩
    | some upload =>
      rw [serve_uploadPart hget, serve_uploadPart (h.upload.trans hget)]
      exact ⟨rfl, h.insert _ _⟩
  | complete v tags =>
    obtain rfl := hc v rfl
    cases hget : t.uploads.get? v with
    | none =>
      rw [serve_complete (complete_gone hget tags), serve_complete (complete_gone (h.upload.trans hget) tags)]
      exact ⟨rfl, h⟩
    | some upload => exact h.complete hget tags
  | abort v =>
    obtain rfl := hc v rfl
    cases hget : t.uploads.get? v with
    | none =>
      rw [serve_abort_gone hget, serve_abort_gone (h.upload.trans hget)]
      exact ⟨rfl, h⟩
    | some upload =>
      rw [serve_abort hget, serve_abort (h.upload.trans hget)]
      exact ⟨rfl, h.without⟩

end AgreesFor

end Storage

/-! ## Uploads that are open, and uploads that are over -/

/-- A part on its way to an upload. -/
structure NewPart where
  upload : String
  number : Int
  content : Bytes

/-- What an upload gets of a part under a number. -/
def NewPart.under (p : NewPart) (u : String) (number : Int) : Option Bytes :=
  if p.upload = u ∧ p.number = number then some p.content else none

/-- A tag has the ETag of the part under its number. -/
def PartTag.Fits (part : Int → Option Bytes) (tag : PartTag) : Prop :=
  ∃ content, part tag.number = some content ∧ tag.etag = Md5.hex content

/-- The parts that are kept are these, each with its digest. -/
def Upload.Keeps (upload : Upload) (part : Int → Option Bytes) : Prop :=
  ∀ number, upload.parts.get? number = (part number).map fun b => (Md5.hex b, b)

namespace Upload.Keeps
variable {upload : Upload} {part : Int → Option Bytes}

theorem names_eq (h : upload.Keeps part) : upload.Names = PartTag.Fits part := by
  funext tag
  simp only [Names, PartTag.Fits, h tag.number, Option.map_eq_some_iff, Prod.mk.injEq, eq_iff_iff]
  constructor
  · rintro ⟨content, b, hpart, hetag, -⟩
    exact ⟨b, hpart, hetag.symm⟩
  · rintro ⟨content, hpart, hetag⟩
    exact ⟨content, content, hpart, hetag.symm, rfl⟩

theorem contentOf_eq (h : upload.Keeps part) (number : Int) : upload.contentOf number = (part number).getD [] := by
  simp only [contentOf, h number]
  cases part number <;> rfl

theorem partContent_eq {other : Upload} (h : upload.Keeps part) (h' : other.Keeps part) (u : String) :
    Storage.partContent upload u = Storage.partContent other u := by
  funext tag
  simp only [Storage.partContent, h tag.number, h' tag.number]

end Upload.Keeps

namespace Storage

def withPart (s : Storage) (part : Option NewPart) : Storage :=
  part.elim s fun p => (serve (.uploadPart p.upload p.number p.content) s).2

/-- An upload is open. It is to become an object at `target`, and has these
parts. -/
structure Tracks (s : Storage) (u : String) (target : Identity) (metadata : Metadata)
    (acl : Option AccessList) (part : Int → Option Bytes) : Prop where
  issued : s.Issued u
  upload : ∃ parts, s.uploads.get? u = some { target, metadata, acl, parts } ∧
    Upload.Keeps { target, metadata, acl, parts } part

/-- An upload is over. Its name is not given again. -/
structure Closed (s : Storage) (u : String) : Prop where
  issued : s.Issued u
  gone : s.uploads.get? u = none

/-- An upload has become an object, and nothing else has changed: the object has
the listed parts in the order of their numbers, an ETag made of their digests,
and the metadata and the access list of the upload. -/
structure Assembled (s : Storage) (u : String) (target : Identity) (metadata : Metadata)
    (acl : Option AccessList) (part : Int → Option Bytes) (tags : List PartTag) (object : StoredObject)
    (t : Storage) : Prop where
  content : ∀ ordered : List PartTag, ordered.Perm tags → Ascending ordered →
    ∃ contents : List Bytes, ordered.map (fun tag => part tag.number) = contents.map some ∧
      object.content = contents.flatten ∧
      object.metadata.etag = some (Md5.hex (contents.flatMap Md5.digest) ++ "-" ++ toString tags.length)
  metadata : object.metadata = { metadata with
    contentLength := some object.content.length
    etag := object.metadata.etag
    lastModified := some (s.clock + 1) }
  acl : object.acl = acl.getD {}
  stored : t.objects.get? target = some object
  others : ∀ i, i ≠ target → t.objects.get? i = s.objects.get? i
  gone : t.uploads.get? u = none
  uploads : ∀ v, v ≠ u → t.uploads.get? v = s.uploads.get? v

variable {s t : Storage} {u : String} {target : Identity} {metadata : Metadata} {acl : Option AccessList}
  {part : Int → Option Bytes}

theorem tracks_initiate (s : Storage) (target : Identity) (metadata : Option Metadata) (acl : Option AccessList) :
    (s.initiate target metadata acl).2.Tracks (s.initiate target metadata acl).1 target (metadata.getD {}) acl
      fun _ => none where
  issued := ⟨s.issued + 1, Nat.le_refl _, rfl⟩
  upload := ⟨Table.empty, (Table.get?_insert ..).trans (if_pos rfl), fun _ => rfl⟩

/-- A part that is added to an open upload replaces the one under its number. -/
theorem Tracks.withPart (h : s.Tracks u target metadata acl part) (p : Option NewPart) :
    (s.withPart p).Tracks u target metadata acl fun number => (p.bind (·.under u number)).or (part number) := by
  obtain ⟨hissued, parts, hget, hparts⟩ := h
  cases p with
  | none => exact ⟨hissued, parts, hget, hparts⟩
  | some p =>
    refine ⟨hissued.serve _, ?_⟩
    -- A part for another upload leaves this one as it is.
    by_cases hu : p.upload = u
    · obtain ⟨v, number, content⟩ := p
      obtain rfl : v = u := hu
      simp only [Storage.withPart, Option.elim, serve_uploadPart hget]
      refine ⟨_, (Table.get?_insert ..).trans (if_pos rfl), fun other => ?_⟩
      rw [Table.get?_insert]
      by_cases hnumber : number = other
      · simp [NewPart.under, hnumber]
      · simp [NewPart.under, hnumber, hparts other]
    · refine ⟨parts, ?_, fun other => ?_⟩
      · have hkept := keepsUploads_serve (.uploadPart p.upload p.number p.content) s
        exact (hkept.same u hissued fun heq => hu (Option.some.inj heq)).trans hget
      · rw [hparts other]
        simp [NewPart.under, hu]

/-- Nothing is done to an upload that is over. -/
theorem Closed.serve (h : s.Closed u) (c : StorageCall) : (serve c s).2.Closed u := by
  refine ⟨h.issued.serve c, ?_⟩
  -- Only a call that names the upload would change it, and finds that it is gone.
  by_cases hname : c.upload? = some u
  · cases c with
    | uploadPart v number content =>
      obtain rfl := Option.some.inj hname
      rw [serve_uploadPart_gone h.gone]
      exact h.gone
    | complete v tags =>
      obtain rfl := Option.some.inj hname
      rw [serve_complete (complete_gone h.gone tags)]
      exact h.gone
    | abort v =>
      obtain rfl := Option.some.inj hname
      rw [serve_abort_gone h.gone]
      exact h.gone
    | put | get | copy | delete | acl | list | initiate | now => cases hname
  · exact ((keepsUploads_serve c s).same u h.issued hname).trans h.gone

/-- The object that is put together in any ascending order. -/
theorem assembled_of_fits {upload : Upload} {tags : List PartTag} (hget : s.uploads.get? u = some upload)
    (hparts : upload.Keeps part) (hfits : ∀ tag ∈ tags, tag.Fits part) :
    ∃ object t, s.complete u tags = .ok (object, t) ∧
      s.Assembled u upload.target upload.metadata upload.acl part tags object t := by
  have hnamed : ∀ tag ∈ tags, upload.Names tag := by
    rw [hparts.names_eq]
    exact hfits
  have hdone := complete_named hget hnamed (List.mergeSort_perm tags _) (ascending_mergeSort tags)
  refine ⟨_, _, hdone, ?_, rfl, rfl, get?_withObject .., fun i hi => ?_, ?_, fun v hv => ?_⟩
  · intro ordered hperm hordered
    let contents := ordered.map fun tag => (part tag.number).getD []
    have hcontents : (ordered.map fun tag => upload.contentOf tag.number) = contents :=
      List.map_congr_left fun tag _ => hparts.contentOf_eq tag.number
    -- Any other order gives the object that was stored.
    have hsame := Except.ok.inj (hdone.symm.trans (complete_named hget hnamed hperm hordered))
    rw [hcontents] at hsame
    have hobject : s.assembled upload _ = s.assembled upload contents := congrArg Prod.fst hsame
    have hetag : keptEtag contents.flatten (some (partsEtag contents)) = partsEtag contents :=
      keptEtag_of_ne contents.flatten (partsEtag_ne contents)
    have hlength : contents.length = tags.length := (List.length_map _).trans hperm.length_eq
    refine ⟨contents, ?_, congrArg StoredObject.content hobject, ?_⟩
    · rw [List.map_map]
      refine List.map_congr_left fun tag htag => ?_
      obtain ⟨content, hpart, -⟩ := hfits tag (hperm.mem_iff.mp htag)
      simp only [Function.comp_apply, hpart, Option.getD_some]
    · rw [hobject, ← hlength]
      exact congrArg some hetag
  · exact (Table.get?_insert ..).trans (if_neg fun heq => hi heq.symm)
  · exact (Table.get?_erase ..).trans (if_pos rfl)
  · exact (Table.get?_erase ..).trans (if_neg fun heq => hv heq.symm)

theorem Tracks.complete (h : s.Tracks u target metadata acl part) (tags : List PartTag) :
    ((∀ tag ∈ tags, tag.Fits part) ∧ ∃ object t, Storage.serve (.complete u tags) s = (.ok object, t) ∧
      s.Assembled u target metadata acl part tags object t) ∨
    ∃ tag, FirstBad (PartTag.Fits part) tags tag ∧
      Storage.serve (.complete u tags) s = (.error (.storage (.invalidPart tag.number u)), s) := by
  obtain ⟨hissued, parts, hget, hparts⟩ := h
  by_cases hfits : ∀ tag ∈ tags, tag.Fits part
  · obtain ⟨object, t, hdone, hassembled⟩ := assembled_of_fits hget hparts hfits
    exact .inl ⟨hfits, object, t, serve_complete hdone, hassembled⟩
  · rw [← hparts.names_eq] at hfits ⊢
    obtain ⟨tag, hfirst, herror⟩ := complete_refused hget hfits
    exact .inr ⟨tag, hfirst, serve_complete herror⟩

/-- How an open upload ends depends on what it was started with and on its parts
alone, but for the time and the version. -/
theorem Tracks.complete_matches (h : s.Tracks u target metadata acl part)
    (h' : t.Tracks u target metadata acl part) (tags : List PartTag) :
    Matches StoredObject.unstamped (Storage.serve (.complete u tags) s).1
      (Storage.serve (.complete u tags) t).1 := by
  obtain ⟨-, parts, hget, hparts⟩ := h
  obtain ⟨-, parts', hget', hparts'⟩ := h'
  rw [serve_complete (complete_eq hget tags), serve_complete (complete_eq hget' tags),
    hparts.partContent_eq hparts' u]
  cases (tags.mergeSort fun a b => decide (a.number ≤ b.number)).mapM (partContent _ u) with
  | error e => exact .error e
  | ok contents => exact .ok rfl

end Storage

end SealedStore
