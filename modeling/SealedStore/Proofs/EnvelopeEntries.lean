import SealedStore.Envelope
import SealedStore.Proofs.FieldText
/-!
# Envelopes among user metadata

Entries that carry the fields of an envelope are read as that envelope, and
adding them to the entries of a caller replaces whatever fields were there. The
entries without the prefix are those of the caller, before and after.

What is proved:
  1. `Envelope.read_eq_ok_iff`, `read_of_carries` — what an envelope is read
     from.
  2. `Envelope.carries_update`, `Envelope.carries_merge` — merging the entries of
     an envelope makes them carry it.
  3. `Envelope.strip_merge` — merging fields does not show once they are
     stripped.
  4. `Envelope.survives_text` — what can be written is read back, and what was
     read can be written.
-/

namespace SealedStore

theorem bind_eq_ok_iff {ε α β : Type} {x : Except ε α} {f : α → Except ε β} {b : β} :
    x >>= f = .ok b ↔ ∃ a, x = .ok a ∧ f a = .ok b := by
  cases x with
  | error e => simp [bind, Except.bind]
  | ok a => simp [bind, Except.bind]

theorem throw_eq_ok_iff {ε α β : Type} {p : Prop} [Decidable p] {e : ε} {f : α → Except ε β}
    {y : Except ε β} {b : β} : (if p then throw e >>= f else y) = .ok b ↔ ¬p ∧ y = .ok b := by
  by_cases h : p
  · simp [h, throw, throwThe, MonadExceptOf.throw, bind, Except.bind]
  · simp [h]

namespace Table
variable {κ ν : Type} [DecidableEq κ] {p : κ → Bool} {k : κ}

theorem filterKeys_insert_of_neg (t : Table κ ν) (h : p k = false) (v : ν) :
    (t.insert k v).filterKeys p = t.filterKeys p := by
  obtain ⟨l⟩ := t
  simp only [insert, filterKeys, mk.injEq]
  induction l with
  | nil => simp [put, h]
  | cons e rest ih =>
    by_cases he : e.1 = k
    · have hp : p e.1 = false := he ▸ h
      simp [put, he, h]
    · simp only [put, if_neg he, List.filter_cons, ih]

theorem filterKeys_insert_of_pos (t : Table κ ν) (h : p k = true) (v : ν) :
    (t.insert k v).filterKeys p = (t.filterKeys p).insert k v := by
  obtain ⟨l⟩ := t
  simp only [insert, filterKeys, mk.injEq]
  induction l with
  | nil => simp [put, h]
  | cons e rest ih =>
    by_cases he : e.1 = k
    · have hp : p e.1 = true := he ▸ h
      simp [put, he, h]
    · by_cases hp : p e.1 = true
      · simp only [put, if_neg he, List.filter_cons, hp, if_true, ih]
      · simp only [put, if_neg he, List.filter_cons, hp, ih]
        rfl

theorem filterKeys_merge_of_neg (t u : Table κ ν) (h : ∀ k ∈ u.keys, p k = false) :
    (t.merge u).filterKeys p = t.filterKeys p := by
  obtain ⟨l⟩ := u
  simp only [merge]
  induction l generalizing t with
  | nil => rfl
  | cons e rest ih =>
    have he : p e.1 = false := h e.1 List.mem_cons_self
    exact (ih _ fun k hk => h k (List.mem_cons_of_mem _ hk)).trans (t.filterKeys_insert_of_neg he e.2)

end Table

namespace Envelope

/-! ## Carrying an envelope -/

/-- Entries that hold the fields of an envelope, whatever else they hold. -/
structure Carries (m : UserMetadata) (e : Envelope) : Prop where
  mode : m.get? modeName = some e.mode
  key : m.get? keyName = some (Base64.encode e.wrappedKey)
  keyId : m.get? keyIdName = some e.masterKeyId
  iv : m.get? ivName = some (Base64.encode e.iv)
  size : m.get? sizeName = e.size.map toString
  sha256 : m.get? sha256Name = e.sha256

/-- An envelope whose fields can be written and read back. -/
structure Legible (e : Envelope) : Prop where
  mode : e.mode.startsWith modePrefix = true
  size : ∀ n, e.size = some n → ∃ k : Nat, n = k ∧ k < 10 ^ Integer.maxDigits

/-- Legible up to the sign of the size. -/
structure Writable (e : Envelope) : Prop where
  mode : e.mode.startsWith modePrefix = true
  size : ∀ n, e.size = some n → n.natAbs < 10 ^ Integer.maxDigits

theorem Legible.writable {e : Envelope} (h : Legible e) : Writable e where
  mode := h.mode
  size n hn := by
    obtain ⟨k, rfl, hk⟩ := h.size n hn
    exact hk

variable {m : UserMetadata} {e : Envelope}

theorem bytesField_of_get? {name : String} {b : Bytes} (h : m.get? name = some (Base64.encode b)) :
    bytesField m name = .ok b := by
  have hfield : field m name = .ok (Base64.encode b) := by
    simp only [field, h]
  simp only [bytesField, hfield, bind, Except.bind, Base64.decode_encoded]
  rfl

theorem sizeField_of_carries (h : Carries m e) (hw : Writable e) : sizeField m = .ok e.size := by
  have hget := h.size
  unfold sizeField
  cases hs : e.size with
  | none => rw [hget, hs]; rfl
  | some n =>
    rw [hget, hs]
    simp only [Option.map_some, Integer.read_toString (hw.size n hs)]

theorem field_eq_ok_iff {name text : String} : field m name = .ok text ↔ m.get? name = some text := by
  unfold field
  cases m.get? name <;> simp

/-- What an envelope is read from. -/
theorem read_eq_ok_iff : read m = .ok e ↔ modeOf? m = some e.mode ∧ bytesField m keyName = .ok e.wrappedKey ∧
    m.get? keyIdName = some e.masterKeyId ∧ bytesField m ivName = .ok e.iv ∧ sizeField m = .ok e.size ∧
    m.get? sha256Name = e.sha256 := by
  obtain ⟨mode, wrappedKey, masterKeyId, iv, size, sha256⟩ := e
  unfold read
  cases modeOf? m with
  | none => simp
  | some found =>
    have hmap : ∀ (r : Except TransformFault Envelope) (b : Envelope),
        r.mapError Error.transform = .ok b ↔ r = .ok b := by
      intro r b
      cases r <;> constructor <;> rintro ⟨⟩ <;> rfl
    simp only [hmap, fields, bind_eq_ok_iff, field_eq_ok_iff]
    constructor
    · rintro ⟨_, hkey, _, hid, _, hiv, _, hsize, ⟨⟩⟩
      exact ⟨rfl, hkey, hid, hiv, hsize, rfl⟩
    · rintro ⟨⟨⟩, hkey, hid, hiv, hsize, rfl⟩
      exact ⟨_, hkey, _, hid, _, hiv, _, hsize, rfl⟩

theorem read_of_carries (h : Carries m e) (hw : Writable e) : read m = .ok e := by
  have hmode : modeOf? m = some e.mode := (modeOf?_eq_some_iff m e.mode).mpr ⟨h.mode, hw.mode⟩
  exact read_eq_ok_iff.mpr ⟨hmode, bytesField_of_get? h.key, h.keyId, bytesField_of_get? h.iv,
    sizeField_of_carries h hw, h.sha256⟩

/-! ## Writing an envelope -/

/-- The names of all fields. -/
def names : List String := [modeName, keyName, keyIdName, ivName, sizeName, sha256Name]

theorem startsWith_of_mem_names : ∀ name ∈ names, name.startsWith namePrefix = true := by
  simp only [String.startsWith_string_iff]
  decide

theorem keys_toUserMetadata (e : Envelope) : ∀ name ∈ e.toUserMetadata.keys, name ∈ names := by
  intro name hn
  obtain ⟨entry, hentry, rfl⟩ := List.mem_map.mp hn
  have hentry : entry ∈ e.entries := hentry
  simp only [entries, List.mem_append, Option.mem_toList, Option.map_eq_some_iff] at hentry
  rcases hentry with (hfixed | ⟨n, -, rfl⟩) | ⟨d, -, rfl⟩
  · have hsubset : ∀ name ∈ [modeName, keyName, keyIdName, ivName], name ∈ names := by decide
    exact hsubset _ (List.mem_map_of_mem (f := Prod.fst) hfixed)
  · exact (by decide : sizeName ∈ names)
  · exact (by decide : sha256Name ∈ names)

theorem carries_toUserMetadata (e : Envelope) : Carries e.toUserMetadata e := by
  obtain ⟨mode, wrappedKey, keyId, iv, size, sha256⟩ := e
  cases size <;> cases sha256 <;> exact ⟨rfl, rfl, rfl, rfl, rfl, rfl⟩

/-- The fields of an envelope replace those that were there; one that it lacks
must not have been there. -/
theorem carries_update (hs : e.size = none → m.get? sizeName = none)
    (hd : e.sha256 = none → m.get? sha256Name = none) : Carries (m.merge e.toUserMetadata) e := by
  obtain ⟨mode, wrappedKey, keyId, iv, size, sha256⟩ := e
  have hget := fun name => m.get?_merge (toUserMetadata ⟨mode, wrappedKey, keyId, iv, size, sha256⟩) name
  -- A field that the envelope lacks is not written, and an old one would stay.
  cases size <;> cases sha256
  case none.none => exact ⟨hget _, hget _, hget _, hget _, (hget _).trans (hs rfl), (hget _).trans (hd rfl)⟩
  case none.some => exact ⟨hget _, hget _, hget _, hget _, (hget _).trans (hs rfl), hget _⟩
  case some.none => exact ⟨hget _, hget _, hget _, hget _, hget _, (hget _).trans (hd rfl)⟩
  case some.some => exact ⟨hget _, hget _, hget _, hget _, hget _, hget _⟩

theorem carries_merge (m : UserMetadata) {n : Int} {d : String} (hs : e.size = some n)
    (hd : e.sha256 = some d) : Carries (m.merge e.toUserMetadata) e :=
  carries_update (fun h => absurd (hs.symm.trans h) nofun) (fun h => absurd (hd.symm.trans h) nofun)

theorem strip_merge {fields : UserMetadata} (h : ∀ name ∈ fields.keys, name.startsWith namePrefix = true) :
    strip (m.merge fields) = strip m := by
  refine m.filterKeys_merge_of_neg fields fun name hn => ?_
  rw [h name hn]
  rfl

/-! ## Writing what was read -/

/-- However its fields were spelled, an envelope that was read can be written. -/
theorem writable_of_read (h : read m = .ok e) : Writable e := by
  obtain ⟨hmode, -, -, -, hsize, -⟩ := read_eq_ok_iff.mp h
  refine ⟨((modeOf?_eq_some_iff m e.mode).mp hmode).2, fun n hn => ?_⟩
  rw [hn, sizeField] at hsize
  split at hsize
  · cases hsize
  · split at hsize
    · next hread =>
      cases hsize
      exact Integer.natAbs_lt_of_read hread
    · cases hsize

/-- An envelope with an encryption mode and a size that is not too long is read
back from its entries, also among those of a caller, unless these hold a field
that it lacks; and the caller's own entries are as they were. Whatever entries
an envelope was read from, in whatever spelling, the envelope is such a one, so
that its own entries are read as it again. -/
theorem survives_text :
    (∀ (e : Envelope) (m : UserMetadata), e.Writable → (e.size = none → m.get? sizeName = none) →
      (e.sha256 = none → m.get? sha256Name = none) →
      read (m.merge e.toUserMetadata) = .ok e ∧ strip (m.merge e.toUserMetadata) = strip m) ∧
    ∀ (m : UserMetadata) (e : Envelope), read m = .ok e → e.Writable ∧ read e.toUserMetadata = .ok e := by
  refine ⟨fun e m hw hs hd => ⟨read_of_carries (carries_update hs hd) hw, strip_merge fun name hn => ?_⟩,
    fun m e h => ⟨writable_of_read h, read_of_carries (carries_toUserMetadata e) (writable_of_read h)⟩⟩
  exact startsWith_of_mem_names name (keys_toUserMetadata e name hn)

/-- A negative size, a stale nonce among the caller's entries, and the same
envelope in another spelling. -/
theorem survives_text_negative :
    let e : Envelope := { mode := "ENC:X", wrappedKey := [1], masterKeyId := "k", iv := [], size := some (-5) }
    let m : UserMetadata := ⟨[("color", "red"), (ivName, "stale")]⟩
    let spelled : UserMetadata := ⟨[(modeName, "ENC:X"), (keyName, "A Q\n=="), (keyIdName, "k"), (ivName, "_"),
      (sizeName, " -0_5\t")]⟩
    e.Writable ∧ m.get? sha256Name = none ∧ read (m.merge e.toUserMetadata) = .ok e ∧
      strip (m.merge e.toUserMetadata) = strip m ∧ read spelled = .ok e ∧ read e.toUserMetadata = .ok e := by
  intro e m spelled
  have hmode : e.mode.startsWith modePrefix = true := by
    rw [String.startsWith_string_iff]
    decide
  have hw : e.Writable := ⟨hmode, fun n hn => by
    obtain rfl := Option.some.inj hn
    exact Integer.lt_of_lt_ten (by decide)⟩
  have hspelled : read spelled = .ok e :=
    read_eq_ok_iff.mpr ⟨(modeOf?_eq_some_iff _ _).mpr ⟨rfl, hmode⟩, by rfl, rfl, by rfl, by rfl, rfl⟩
  obtain ⟨hread, hstrip⟩ := survives_text.1 e m hw nofun (fun _ => rfl)
  exact ⟨hw, rfl, hread, hstrip, hspelled, (survives_text.2 spelled e hspelled).2⟩

end Envelope

end SealedStore
