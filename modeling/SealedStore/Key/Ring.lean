import SealedStore.Key.Master
/-!
# Key rings

An ordered set of named keys. The current key wraps new keys; every key of the
ring unwraps. Of two keys with one name the earlier stays. Rotating puts a new
key in front and keeps all others behind it.

What is proved:
  1. `distinctBy_nodup`, `mem_distinctBy` — dropping repeated names leaves
     distinct names and loses none.
  2. `get?_eq_some_iff` — a key is found under its name exactly if it is a
     member.
-/

namespace SealedStore

class Keyed (κ : Type) where
  keyId : κ → String

instance : Keyed MasterKey := ⟨MasterKey.keyId⟩

/-- The items whose name is not among `seen` and was not met before. -/
def distinctBy {κ : Type} (name : κ → String) : (seen : List String) → List κ → List κ
  | _, [] => []
  | seen, k :: rest =>
    if name k ∈ seen then distinctBy name seen rest
    else k :: distinctBy name (name k :: seen) rest

theorem not_mem_seen_of_mem_distinctBy {κ : Type} {name : κ → String} {seen : List String}
    {l : List κ} {k : κ} (h : k ∈ distinctBy name seen l) : name k ∉ seen := by
  induction l generalizing seen with
  | nil => cases h
  | cons a rest ih =>
    unfold distinctBy at h
    split at h
    · exact ih h
    · next ha =>
      rcases List.mem_cons.mp h with rfl | h
      · exact ha
      · exact fun hk => ih h (List.mem_cons_of_mem _ hk)

theorem distinctBy_nodup {κ : Type} (name : κ → String) (seen : List String) (l : List κ) :
    ((distinctBy name seen l).map name).Nodup := by
  induction l generalizing seen with
  | nil => exact List.nodup_nil
  | cons a rest ih =>
    unfold distinctBy
    split
    · exact ih seen
    · rw [List.map_cons, List.nodup_cons]
      refine ⟨fun h => ?_, ih _⟩
      obtain ⟨k, hk, he⟩ := List.mem_map.mp h
      exact not_mem_seen_of_mem_distinctBy hk (he ▸ List.mem_cons_self)

/-- A name is kept exactly if it occurs and was not seen before. -/
theorem mem_distinctBy {κ : Type} (name : κ → String) (seen : List String) (l : List κ) (s : String) :
    s ∈ (distinctBy name seen l).map name ↔ s ∈ l.map name ∧ s ∉ seen := by
  induction l generalizing seen with
  | nil => simp [distinctBy]
  | cons a rest ih =>
    unfold distinctBy
    split
    · next ha =>
      rw [ih, List.map_cons, List.mem_cons]
      constructor
      · exact fun h => ⟨Or.inr h.1, h.2⟩
      · rintro ⟨rfl | h, hs⟩
        · exact absurd ha hs
        · exact ⟨h, hs⟩
    · next ha =>
      rw [List.map_cons, List.mem_cons, ih, List.map_cons, List.mem_cons, List.mem_cons]
      by_cases hs : s = name a
      · subst hs
        simp [ha]
      · simp [hs]

/-- An ordered set of named keys; the first is the current one. -/
structure KeyRing (κ : Type) [Keyed κ] where
  current : κ
  previous : List κ
  distinct : ((current :: previous).map Keyed.keyId).Nodup

namespace KeyRing
variable {κ : Type} [Keyed κ]

def make (current : κ) (previous : List κ) : KeyRing κ where
  current := current
  previous := distinctBy Keyed.keyId [Keyed.keyId current] previous
  distinct := by
    rw [List.map_cons, List.nodup_cons]
    refine ⟨fun h => ?_, distinctBy_nodup _ _ _⟩
    obtain ⟨k, hk, he⟩ := List.mem_map.mp h
    exact not_mem_seen_of_mem_distinctBy hk (he ▸ List.mem_cons_self)

def members (r : KeyRing κ) : List κ := r.current :: r.previous

def keyIds (r : KeyRing κ) : List String := r.members.map Keyed.keyId

def size (r : KeyRing κ) : Nat := r.members.length

/-- The key with a name. -/
def get? (r : KeyRing κ) (keyId : String) : Option κ :=
  r.members.find? fun k => Keyed.keyId k == keyId

def get (r : KeyRing κ) (keyId : String) : Except Error κ :=
  match r.get? keyId with
  | some k => .ok k
  | none => .error (.unknownKey keyId)

def contains (r : KeyRing κ) (keyId : String) : Bool := (r.get? keyId).isSome

/-- The ring with a new current key and all keys of this one behind it. -/
def rotated (r : KeyRing κ) (newCurrent : κ) : KeyRing κ := make newCurrent r.members

theorem nodup_keyIds (r : KeyRing κ) : r.keyIds.Nodup := r.distinct

theorem get?_eq_some_iff (r : KeyRing κ) (keyId : String) (k : κ) :
    r.get? keyId = some k ↔ k ∈ r.members ∧ Keyed.keyId k = keyId := by
  have hd : (r.members.map Keyed.keyId).Nodup := r.distinct
  -- No two members have one name, so the first that is found is the only one.
  unfold get?
  generalize r.members = l at hd
  induction l with
  | nil => simp
  | cons a rest ih =>
    rw [List.map_cons, List.nodup_cons] at hd
    by_cases ha : Keyed.keyId a = keyId
    · rw [List.find?_cons_of_pos (by simpa using ha), List.mem_cons]
      constructor
      · intro h
        cases h
        exact ⟨Or.inl rfl, ha⟩
      · rintro ⟨rfl | h, hk⟩
        · rfl
        · exact absurd (List.mem_map.mpr ⟨k, h, hk.trans ha.symm⟩) hd.1
    · rw [List.find?_cons_of_neg (by simpa using ha), List.mem_cons]
      refine Iff.trans (ih hd.2) ?_
      constructor
      · exact fun h => ⟨Or.inr h.1, h.2⟩
      · rintro ⟨rfl | h, hk⟩
        · exact absurd hk ha
        · exact ⟨h, hk⟩

end KeyRing

end SealedStore
