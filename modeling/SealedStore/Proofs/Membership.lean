import Mathlib.Data.Finset.Card
import SealedStore.Proofs.Displacement
/-!
# Members of rings

A ring shows all that ever happened to it as one list: the keys that came to
the front, the latest first, and then the keys that it was made of. Its members
are the keys of this list whose name no key before them has, so rotating back to
an older key brings that key to the front and leaves out the place it had.

Rings are values. A ring that was rotated is still there, and what is made of it
later does not show in it. This is stated for all rings that were ever made, each
from keys or from any ring before it.

What is proved:
  1. `distinctBy_eq_firsts`, `distinctBy_distinctBy` — which items stay, and that
     dropping some of the others before changes nothing.
  2. `KeyRing.lists_make`, `KeyRing.Lists.rotated` — the list that a ring shows, as it
     is made and as it is rotated.
  3. `KeyRing.lists_history` — every ring shows all that happened to it, and stays.
-/

namespace SealedStore

/-! ## Items of distinct names -/

section
variable {κ : Type} (name : κ → String)

/-- The items whose name no item before them has. -/
def firsts (l : List κ) : List κ :=
  (l.zipIdx.filter fun e => decide (name e.1 ∉ (l.take e.2).map name)).map (·.1)

/-- Dropping names that were met keeps the items whose name is neither among
those seen nor that of an item before them. -/
theorem distinctBy_eq (seen : List String) (l : List κ) :
    distinctBy name seen l =
      (l.zipIdx.filter fun e => decide (name e.1 ∉ seen ++ (l.take e.2).map name)).map (·.1) := by
  induction l generalizing seen with
  | nil => rfl
  | cons a rest ih =>
    -- behind the first item, its name is one more that was seen
    have hrest : ∀ seen', (∀ s, s ∈ seen' ↔ s = name a ∨ s ∈ seen) →
        distinctBy name seen' rest = ((rest.zipIdx 1).filter fun e =>
          decide (name e.1 ∉ seen ++ ((a :: rest).take e.2).map name)).map (·.1) := by
      intro seen' hseen'
      rw [ih seen', List.zipIdx_succ, List.filter_map, List.map_map]
      refine congrArg _ (List.filter_congr fun e _ => decide_eq_decide.mpr ?_)
      simp only [List.mem_append, hseen', List.take_succ_cons, List.map_cons, List.mem_cons]
      tauto
    rw [List.zipIdx_cons, List.filter_cons]
    unfold distinctBy
    by_cases ha : name a ∈ seen
    · rw [if_pos ha, if_neg (by simpa using ha)]
      exact hrest seen fun s => ⟨.inr, fun h => h.elim (fun hs => hs ▸ ha) id⟩
    · rw [if_neg ha, if_pos (by simpa using ha)]
      exact congrArg (a :: ·) (hrest (name a :: seen) fun s => List.mem_cons)

theorem distinctBy_eq_firsts (l : List κ) : distinctBy name [] l = firsts name l := distinctBy_eq name [] l

theorem distinctBy_distinctBy {fewer seen : List String} (h : fewer ⊆ seen) (l : List κ) :
    distinctBy name seen (distinctBy name fewer l) = distinctBy name seen l := by
  induction l generalizing fewer seen with
  | nil => rfl
  | cons a rest ih =>
    -- What fewer names drop is gone already; what they keep may be dropped by the others.
    by_cases hfewer : name a ∈ fewer
    · rw [distinctBy, if_pos hfewer, distinctBy, if_pos (h hfewer)]
      exact ih h
    · rw [distinctBy, if_neg hfewer, distinctBy, distinctBy]
      by_cases hseen : name a ∈ seen
      · rw [if_pos hseen, if_pos hseen]
        exact ih (List.cons_subset.mpr ⟨hseen, h⟩)
      · rw [if_neg hseen, if_neg hseen]
        exact congrArg (a :: ·) (ih (List.cons_subset_cons _ h))

end

namespace KeyRing
variable {κ : Type} [Keyed κ]

/-! ## One ring -/

/-- A ring is the ordered set of the keys of a list. -/
structure Lists (r : KeyRing κ) (keys : List κ) : Prop where
  /-- Its members are the keys whose name no key before them has. -/
  members_eq : r.members = firsts Keyed.keyId keys
  /-- The current key is the first of the list and of the members. -/
  latest : keys.head? = some r.current
  head_members : r.members.head? = some r.current
  get_current : r.get (Keyed.keyId r.current) = .ok r.current
  /-- Names are those of the members in their order, each once. -/
  keyIds_eq : r.keyIds = r.members.map Keyed.keyId
  nodup : r.keyIds.Nodup
  /-- What it has is what it finds, and that is the member with the name. -/
  contains_iff : ∀ name, r.contains name = true ↔ ∃ k, r.get name = .ok k
  get_iff : ∀ name k, r.get name = .ok k ↔ k ∈ r.members ∧ Keyed.keyId k = name
  get_missing : ∀ name, r.contains name = false → r.get name = .error (.unknownKey name)
  /-- It has as many members as the list has names. -/
  size_eq : r.size = (keys.map Keyed.keyId).toFinset.card

theorem get_ok_iff (r : KeyRing κ) (name : String) (k : κ) : r.get name = .ok k ↔ r.get? name = some k := by
  unfold get
  cases r.get? name <;> simp

theorem contains_iff_get (r : KeyRing κ) (name : String) : r.contains name = true ↔ ∃ k, r.get name = .ok k := by
  simp only [contains, get_ok_iff, Option.isSome_iff_exists]

theorem get_of_contains_eq_false {r : KeyRing κ} {name : String} (h : r.contains name = false) :
    r.get name = .error (.unknownKey name) := by
  have hnone : r.get? name = none := Option.isNone_iff_eq_none.mp (by rw [← Option.not_isSome]; exact congrArg _ h)
  rw [get, hnone]

/-- A ring has as many members as there are names among the keys it was made
of. -/
theorem size_eq_card {r : KeyRing κ} {keys : List κ} (h : r.members = distinctBy Keyed.keyId [] keys) :
    r.size = (keys.map Keyed.keyId).toFinset.card := by
  have hnames : r.keyIds.toFinset = (keys.map Keyed.keyId).toFinset := by
    ext name
    rw [List.mem_toFinset, List.mem_toFinset, keyIds, h, mem_distinctBy]
    exact and_iff_left List.not_mem_nil
  calc r.size = r.keyIds.length := (List.length_map ..).symm
    _ = r.keyIds.toFinset.card := (List.toFinset_card_of_nodup r.nodup_keyIds).symm
    _ = (keys.map Keyed.keyId).toFinset.card := by rw [hnames]

theorem lists_of_members {r : KeyRing κ} {keys : List κ} (hhead : keys.head? = some r.current)
    (h : r.members = distinctBy Keyed.keyId [] keys) : r.Lists keys where
  members_eq := h.trans (distinctBy_eq_firsts _ keys)
  latest := hhead
  head_members := rfl
  get_current := (r.get_ok_iff _ _).mpr r.get?_current
  keyIds_eq := rfl
  nodup := r.nodup_keyIds
  contains_iff := r.contains_iff_get
  get_iff name k := (r.get_ok_iff name k).trans (r.get?_eq_some_iff name k)
  get_missing _ := get_of_contains_eq_false
  size_eq := size_eq_card h

theorem lists_make (current : κ) (previous : List κ) : (make current previous).Lists (current :: previous) :=
  lists_of_members rfl rfl

theorem Lists.rotated {r : KeyRing κ} {keys : List κ} (h : r.Lists keys) (newCurrent : κ) :
    (r.rotated newCurrent).Lists (newCurrent :: keys) := by
  refine lists_of_members rfl ?_
  calc (r.rotated newCurrent).members
      = newCurrent :: distinctBy Keyed.keyId [Keyed.keyId newCurrent] (distinctBy Keyed.keyId [] keys) := by
        rw [distinctBy_eq_firsts, ← h.members_eq]
        rfl
    _ = newCurrent :: distinctBy Keyed.keyId [Keyed.keyId newCurrent] keys := by
        rw [distinctBy_distinctBy _ (List.nil_subset _)]

theorem Lists.rotatedAll {r : KeyRing κ} {keys : List κ} (h : r.Lists keys) (newKeys : List κ) :
    (newKeys.foldl KeyRing.rotated r).Lists (newKeys.reverse ++ keys) := by
  induction newKeys generalizing r keys with
  | nil => exact h
  | cons k rest ih =>
    rw [List.reverse_cons, List.append_assoc]
    exact ih (h.rotated k)

/-! ## All rings that are made -/

/-- A ring is made from keys, or by rotating one that was made before. -/
inductive Making (κ : Type) where
  | fromKeys (current : κ) (previous : List κ)
  | fromRing (place : Nat) (newCurrent : κ)

/-- A ring, and all keys that came to it. -/
structure Record (κ : Type) [Keyed κ] where
  ring : KeyRing κ
  keys : List κ

/-- The rings that there are once one more is made. -/
def extend (records : List (Record κ)) : Making κ → List (Record κ)
  | .fromKeys current previous => records ++ [⟨make current previous, current :: previous⟩]
  | .fromRing place newCurrent =>
    records ++ (records[place]?.map fun e => ⟨e.ring.rotated newCurrent, newCurrent :: e.keys⟩).toList

/-- All rings that are made, in their order. -/
def history (makings : List (Making κ)) : List (Record κ) := makings.foldl extend []

theorem prefix_extend (records : List (Record κ)) (making : Making κ) : records <+: extend records making := by
  cases making <;> exact List.prefix_append ..

/-- Making a ring leaves those before it what they are. -/
theorem history_prefix (makings later : List (Making κ)) : history makings <+: history (makings ++ later) := by
  unfold history
  rw [List.foldl_append]
  generalize makings.foldl extend [] = records
  induction later generalizing records with
  | nil => exact List.prefix_rfl
  | cons making rest ih => exact (prefix_extend records making).trans (ih _)

/-- If all rings show what happened to them, so does the next. -/
theorem lists_extend {records : List (Record κ)} (h : ∀ e ∈ records, e.ring.Lists e.keys) (making : Making κ) :
    ∀ e ∈ extend records making, e.ring.Lists e.keys := by
  intro e he
  cases making with
  | fromKeys current previous =>
    rcases List.mem_append.mp he with hold | hnew
    · exact h e hold
    · rw [List.mem_singleton.mp hnew]
      exact lists_make current previous
  | fromRing place newCurrent =>
    rcases List.mem_append.mp he with hold | hnew
    · exact h e hold
    · obtain ⟨earlier, hearlier, rfl⟩ := Option.map_eq_some_iff.mp (Option.mem_toList.mp hnew)
      exact (h earlier (List.mem_of_getElem? hearlier)).rotated newCurrent

/-- Whatever happens to rings, they are ordered sets. A ring that is rotated to
one key after another lists these keys, the latest first, before those it was
made of. Of all rings that are made, each from keys or from any one before it,
each shows all that happened to it and stays as it is while others are made of
it. -/
theorem lists_history :
    (∀ (current : κ) (previous newKeys : List κ),
      (newKeys.foldl rotated (make current previous)).Lists (newKeys.reverse ++ current :: previous)) ∧
    ∀ makings : List (Making κ), (∀ e ∈ history makings, e.ring.Lists e.keys) ∧
      ∀ later, history makings <+: history (makings ++ later) := by
  refine ⟨fun current previous newKeys => (lists_make current previous).rotatedAll newKeys, fun makings => ⟨?_, ?_⟩⟩
  · -- The rings that are made before these may be any.
    suffices hall : ∀ records : List (Record κ), (∀ e ∈ records, e.ring.Lists e.keys) →
        ∀ e ∈ makings.foldl extend records, e.ring.Lists e.keys from hall [] (by simp)
    intro records hrecords
    induction makings generalizing records with
    | nil => exact hrecords
    | cons making rest ih => exact ih _ (lists_extend hrecords making)
  · exact history_prefix makings

/-- Rotating to a new key and back: the older key comes first again. -/
example :
    let key (name : String) : MasterKey := .aes ⟨[]⟩ name
    let ring := make (key "first") [key "older", key "first"]
    ((ring.rotated (key "next")).rotated (key "older")).keyIds = ["older", "next", "first"] := by
  decide

end KeyRing

end SealedStore
