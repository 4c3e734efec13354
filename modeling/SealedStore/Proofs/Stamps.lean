import SealedStore.Proofs.Footprint
/-!
# Times and versions

Whenever a store keeps an object it stamps it with a time and a version. What
these are depends on all that was stored before, anywhere in the store; nothing
else of an object does. Two stores may thus agree on some of their objects but
for the stamps, and calls that stay among these objects cannot tell the stores
apart.

What is proved:
  1. `Filter.verifyRead_unstamped`, `Filter.decrypt_unstamped` — filters look at
     nothing that is stamped.
  2. `Storage.AgreesOn.serve`, `Storage.AgreesOn.serve_copy` — calls to stores
     that agree are answered alike, and the stores agree afterwards.
  3. `Storage.KeptOutside.serve` — what such calls leave alone.
-/

namespace SealedStore

/-! ## Without stamps -/

def Metadata.unstamped (m : Metadata) : Metadata := { m with lastModified := none }

def StoredObject.unstamped (object : StoredObject) : StoredObject :=
  { object with metadata := object.metadata.unstamped, versionId := none }

def WriteResult.unstamped (r : WriteResult) : WriteResult :=
  { r with versionId := none, metadata := r.metadata.map Metadata.unstamped, copiedAt := none }

def Response.unstamped (response : Response) : Response :=
  { response with metadata := response.metadata.map Metadata.unstamped, versionId := none }

/-- The one error that holds a result. -/
def Error.unstamped : Error → Error
  | .orphanedTemp target temp result cause => .orphanedTemp target temp result.unstamped cause
  | other => other

/-- A reply without the stamps of the object in it. -/
def StorageCall.unstamp : (c : StorageCall) → c.Result → c.Result
  | .put _ _ _ _ _, object | .get _, object | .copy _ _ _ _, object | .complete _ _, object =>
    StoredObject.unstamped object
  | .delete _, r | .abort _, r | .acl _, r | .list _ _, r | .initiate _ _ _, r | .uploadPart _ _ _, r | .now, r => r

/-- Two results are one, but for what `f` takes away. -/
def Matches {α β : Type} (f : α → β) (x y : Except Error α) : Prop := x.map f = y.map f

namespace Matches
variable {α β γ δ : Type} {f : α → β} {x y : Except Error α}

theorem refl (x : Except Error α) : Matches f x x := rfl

theorem error (e : Error) : Matches f (.error e) (.error e) := rfl

theorem ok {a b : α} (h : f a = f b) : Matches f (.ok a) (.ok b) := congrArg Except.ok h

theorem eq_or (h : Matches f x y) :
    (∃ e, x = .error e ∧ y = .error e) ∨ ∃ a b, x = .ok a ∧ y = .ok b ∧ f a = f b := by
  cases x with
  | error e =>
    cases y with
    | error e' =>
      obtain rfl := Except.error.inj h
      exact .inl ⟨e, rfl, rfl⟩
    | ok b => cases h
  | ok a =>
    cases y with
    | error e' => cases h
    | ok b => exact .inr ⟨a, b, rfl, rfl, Except.ok.inj h⟩

theorem map {g : α → γ} {k : γ → δ} (h : Matches f x y) (hg : ∀ a b, f a = f b → k (g a) = k (g b)) :
    Matches k (x.map g) (y.map g) := by
  obtain ⟨e, rfl, rfl⟩ | ⟨a, b, rfl, rfl, hab⟩ := h.eq_or
  · exact error e
  · exact ok (hg a b hab)

theorem bind {g : α → Except Error γ} {k : γ → δ} (h : Matches f x y)
    (hg : ∀ a b, f a = f b → Matches k (g a) (g b)) : Matches k (x.bind g) (y.bind g) := by
  obtain ⟨e, rfl, rfl⟩ | ⟨a, b, rfl, rfl, hab⟩ := h.eq_or
  · exact error e
  · exact hg a b hab

end Matches

/-! ## Filters -/

namespace Filter

theorem verifyRead_unstamped (response : Response) :
    verifyRead response.unstamped = (verifyRead response).unstamped := by
  unfold verifyRead Response.unstamped
  dsimp only
  split
  · rfl
  · rfl

theorem decrypt_unstamped (e : Encryption) (response : Response) :
    decrypt e response.unstamped = (decrypt e response).map Response.unstamped := by
  obtain ⟨status, entity, metadata, etag, versionId, payload, encoded⟩ := response
  cases metadata with
  | none => rfl
  | some metadata =>
    cases entity with
    | none => rfl
    | some entity =>
      show decrypt e { status, entity := some entity, metadata := some metadata.unstamped, etag, payload, encoded } = _
      have huser : metadata.unstamped.user = metadata.user := rfl
      simp only [decrypt, huser]
      -- What is decided depends on the user's entries, which hold no stamp.
      cases Envelope.modeOf? metadata.user with
      | none => rfl
      | some mode =>
        dsimp only
        cases e.requireMode metadata.user with
        | error fault => rfl
        | ok => cases e.decoder metadata.user <;> rfl

end Filter

/-! ## Stores -/

namespace Storage
variable {F : Identity → Prop} {s t u : Storage} {i source target : Identity}

/-- The object at an address without its stamps. -/
def unstampedAt (s : Storage) (i : Identity) : Option StoredObject :=
  (s.objects.get? i).map StoredObject.unstamped

/-- Two stores have the same objects at some addresses, but for the stamps. -/
def AgreesOn (F : Identity → Prop) (s t : Storage) : Prop := ∀ i, F i → s.unstampedAt i = t.unstampedAt i

/-- Everything but the objects at some addresses is as it was, stamps and
uploads too. -/
structure KeptOutside (F : Identity → Prop) (s t : Storage) : Prop where
  objects : ∀ i, ¬ F i → t.objects.get? i = s.objects.get? i
  uploads : t.uploads = s.uploads

theorem AgreesOn.refl (s : Storage) : AgreesOn F s s := fun _ _ => rfl

theorem AgreesOn.symm (h : AgreesOn F s t) : AgreesOn F t s := fun i hi => (h i hi).symm

theorem AgreesOn.trans (h : AgreesOn F s t) (h' : AgreesOn F t u) : AgreesOn F s u :=
  fun i hi => (h i hi).trans (h' i hi)

theorem KeptOutside.refl (s : Storage) : KeptOutside F s s := ⟨fun _ _ => rfl, rfl⟩

theorem KeptOutside.trans (h : KeptOutside F s t) (h' : KeptOutside F t u) : KeptOutside F s u :=
  ⟨fun i hi => (h'.objects i hi).trans (h.objects i hi), h'.uploads.trans h.uploads⟩

theorem KeptOutside.mono {G : Identity → Prop} (h : KeptOutside F s t) (hFG : ∀ i, F i → G i) :
    KeptOutside G s t := ⟨fun i hi => h.objects i fun hF => hi (hFG i hF), h.uploads⟩

theorem KeptOutside.agreesOn {G : Identity → Prop} (h : KeptOutside F s t) (hdisjoint : ∀ i, F i → ¬ G i) :
    AgreesOn G s t := by
  intro i hG
  have hkept := h.objects i fun hF => hdisjoint i hF hG
  rw [unstampedAt, unstampedAt, hkept]

end Storage

/-! ## Calls among some objects -/

/-- A call that neither looks at nor writes any object but those at some
addresses, and all of whose arguments come from the caller. Copies are apart,
since their metadata may have been read before. -/
def StorageCall.Within (F : Identity → Prop) : StorageCall → Prop
  | .put target _ _ _ none | .get target | .acl target | .delete target => F target
  | _ => False

namespace Storage
variable {F : Identity → Prop} {s t : Storage} {i source target : Identity}

theorem AgreesOn.find (h : AgreesOn F s t) (hi : F i) :
    Matches StoredObject.unstamped (s.find i) (t.find i) := by
  have hsame : (s.objects.get? i).map StoredObject.unstamped = (t.objects.get? i).map StoredObject.unstamped :=
    h i hi
  unfold Storage.find
  cases hs : s.objects.get? i with
  | none =>
    rw [hs, Option.map_none] at hsame
    rw [Option.map_eq_none_iff.mp hsame.symm]
    exact .error _
  | some object =>
    rw [hs, Option.map_some] at hsame
    obtain ⟨other, hother, heq⟩ := Option.map_eq_some_iff.mp hsame.symm
    rw [hother]
    exact .ok heq.symm

theorem AgreesOn.withObject (h : AgreesOn F s t) {object other : StoredObject}
    (hsame : object.unstamped = other.unstamped) :
    AgreesOn F (s.withObject target object) (t.withObject target other) := by
  have hlook : ∀ (u : Storage) (o : StoredObject) (i : Identity),
      (u.withObject target o).unstampedAt i = if target = i then some o.unstamped else u.unstampedAt i := by
    intro u o i
    show ((u.objects.insert target o).get? i).map StoredObject.unstamped = _
    rw [Table.get?_insert]
    split <;> rfl
  intro i hi
  rw [hlook, hlook, hsame, h i hi]

theorem AgreesOn.delete (h : AgreesOn F s t) : AgreesOn F (s.delete target) (t.delete target) := by
  have hlook : ∀ (u : Storage) (i : Identity),
      (u.delete target).unstampedAt i = if target = i then none else u.unstampedAt i := by
    intro u i
    show ((u.objects.erase target).get? i).map StoredObject.unstamped = _
    rw [Table.get?_erase]
    split <;> rfl
  intro i hi
  rw [hlook, hlook, h i hi]

/-- Stores that agree on all that a call looks at answer it alike, and agree on
it afterwards. -/
theorem AgreesOn.serve {c : StorageCall} (h : AgreesOn F s t) (hc : c.Within F) :
    Matches c.unstamp (serve c s).1 (serve c t).1 ∧ AgreesOn F (serve c s).2 (serve c t).2 := by
  cases c with
  | put target content metadata acl offset =>
    cases offset with
    | some => cases hc
    | none => exact ⟨rfl, h.withObject rfl⟩
  | get target => exact ⟨h.find hc, h⟩
  | acl target => exact ⟨(h.find hc).map fun _ _ hab => (congrArg StoredObject.acl hab :), h⟩
  | delete target => exact ⟨rfl, h.delete⟩
  | copy | list | initiate | uploadPart | complete | abort | now => cases hc

/-- The same for copies. The time that comes with the metadata does not matter,
since a copy has one of its own. -/
theorem AgreesOn.serve_copy {metadata metadata' : Option Metadata} {acl : Option AccessList} (h : AgreesOn F s t)
    (hsource : F source) (hmetadata : metadata.map Metadata.unstamped = metadata'.map Metadata.unstamped) :
    Matches StoredObject.unstamped (Storage.serve (.copy source target metadata acl) s).1
        (Storage.serve (.copy source target metadata' acl) t).1 ∧
      AgreesOn F (Storage.serve (.copy source target metadata acl) s).2
        (Storage.serve (.copy source target metadata' acl) t).2 := by
  have hfind := h source hsource
  unfold unstampedAt at hfind
  cases hs : s.objects.get? source with
  | none =>
    rw [hs, Option.map_none] at hfind
    rw [Storage.serve_copy_missing hs, Storage.serve_copy_missing (Option.map_eq_none_iff.mp hfind.symm)]
    exact ⟨rfl, h⟩
  | some object =>
    rw [hs, Option.map_some] at hfind
    obtain ⟨other, ht, hother⟩ := Option.map_eq_some_iff.mp hfind.symm
    have hcontent : other.content = object.content := (congrArg StoredObject.content hother :)
    have hold : other.metadata.unstamped = object.metadata.unstamped := (congrArg StoredObject.metadata hother :)
    have hetag : other.metadata.etag = object.metadata.etag := (congrArg Metadata.etag hold :)
    have hnew : (metadata.getD object.metadata).unstamped = (metadata'.getD other.metadata).unstamped := by
      cases metadata with
      | none =>
        rw [Option.map_none] at hmetadata
        rw [Option.map_eq_none_iff.mp hmetadata.symm]
        exact hold.symm
      | some m =>
        obtain ⟨m', rfl, hm'⟩ := Option.map_eq_some_iff.mp hmetadata.symm
        exact hm'.symm
    -- Every field that is not stamped anew is one of both.
    have hcopied : (s.objectOf object.content (metadata.getD object.metadata) acl object.metadata.etag).unstamped =
        (t.objectOf other.content (metadata'.getD other.metadata) acl other.metadata.etag).unstamped := by
      rw [hcontent, hetag]
      have htype := congrArg Metadata.contentType hnew
      have huser := congrArg Metadata.user hnew
      simp only [Metadata.unstamped] at htype huser
      simp only [objectOf, StoredObject.unstamped, Metadata.unstamped, htype, huser]
    rw [Storage.serve_copy hs, Storage.serve_copy ht]
    exact ⟨.ok hcopied, h.withObject hcopied⟩

/-! ### What is left alone -/

theorem keptOutside_serve {c : StorageCall} (s : Storage) (hwrites : ∀ i, c.Writes i → F i)
    (huploads : (serve c s).2.uploads = s.uploads) : KeptOutside F s (serve c s).2 :=
  ⟨fun i hi => get?_serve (fun hw => hi (hwrites i hw)) s, huploads⟩

theorem KeptOutside.serve {c : StorageCall} (s : Storage) (hc : c.Within F) :
    KeptOutside F s (Storage.serve c s).2 := by
  cases c with
  | put target content metadata acl offset =>
    cases offset with
    | some => cases hc
    | none => exact keptOutside_serve s (fun i hi => hi ▸ hc) rfl
  | get | acl => exact .refl s
  | delete target => exact keptOutside_serve s (fun i hi => hi ▸ hc) rfl
  | copy | list | initiate | uploadPart | complete | abort | now => cases hc

theorem KeptOutside.serve_copy (s : Storage) (htarget : F target) (metadata : Option Metadata)
    (acl : Option AccessList) : KeptOutside F s (Storage.serve (.copy source target metadata acl) s).2 := by
  refine keptOutside_serve s (fun i hi => hi ▸ htarget) ?_
  refine settle_keeps (P := fun t => t.uploads = s.uploads) rfl fun out hcopy => ?_
  obtain ⟨object, -, hout⟩ := bind_eq_ok_iff.mp hcopy
  obtain rfl := Except.ok.inj hout
  rfl

end Storage

end SealedStore
