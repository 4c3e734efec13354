import Mathlib.Data.List.TakeWhile
import SealedStore.Proofs.EnvelopeEntries
/-!
# Spellings of bytes

Bytes have one standard spelling in Base64 and many others that are read as well.
What a spelling may have beyond the standard one is said here by a grammar:
characters of no value between those that have one, padding signs where no group
ends, anything behind the sign that completes a group, and bits behind the last
byte that are not zero. Characters beyond ASCII it may not have.

The four phases of reading are taken one by one. In each, what has no value is
passed over until the next character of the alphabet or the padding sign that ends
the text. What a phase makes of a text is stated as a rule for going forward, and
as a lemma on where a text that was read must have been cut.

What is proved:
  1. `Base64.decode_ok_iff` — a text is read as some bytes exactly if it spells
     them.
  2. `Envelope.read_ok_iff`, `Envelope.read_cases` — an envelope is read exactly
     if the entries say what it has; else a field is at fault.
  3. `Envelope.read_iff_spelled` — the same in one, with the spellings that are
     read although they are not the standard one.
  4. `Envelope.corrupted_key_read` — there are such spellings.
-/

namespace SealedStore

namespace Base64

/-! ## The grammar -/

def Silent (s : List Char) : Prop := ∀ c ∈ s, value? c = none

/-- The texts that spell bytes. Between the characters of a group there are others
that have no value, with too few padding signs among them to end the text. -/
inductive Spells : List Char → Bytes → Prop where
  | nothing {gap : List Char} (hgap : Silent gap) : Spells gap []
  /-- Two padding signs end the text behind the second character of a group. -/
  | one {gap gap₁ padding rest : List Char} {c₀ c₁ : Char} {v₀ v₁ : Nat} (hgap : Silent gap) (hgap₁ : Silent gap₁)
      (hc₀ : value? c₀ = some v₀) (hc₁ : value? c₁ = some v₁) (hpadding : Silent padding)
      (hsigns : 2 ≤ padding.count '=') :
      Spells (gap ++ c₀ :: (gap₁ ++ c₁ :: (padding ++ rest))) (Bytes.ofNat 1 ((v₀ * 64 + v₁) / 16))
  /-- One padding sign ends the text behind the third character of a group. -/
  | two {gap gap₁ gap₂ padding rest : List Char} {c₀ c₁ c₂ : Char} {v₀ v₁ v₂ : Nat} (hgap : Silent gap)
      (hgap₁ : Silent gap₁) (hgap₂ : Silent gap₂) (hsigns₂ : gap₂.count '=' ≤ 1)
      (hc₀ : value? c₀ = some v₀) (hc₁ : value? c₁ = some v₁) (hc₂ : value? c₂ = some v₂)
      (hpadding : Silent padding) (hsigns : 1 ≤ padding.count '=') :
      Spells (gap ++ c₀ :: (gap₁ ++ c₁ :: (gap₂ ++ c₂ :: (padding ++ rest))))
        (Bytes.ofNat 2 (((v₀ * 64 + v₁) * 64 + v₂) / 4))
  /-- Four characters are three bytes. -/
  | three {gap gap₁ gap₂ gap₃ rest : List Char} {c₀ c₁ c₂ c₃ : Char} {v₀ v₁ v₂ v₃ : Nat} {b : Bytes}
      (hgap : Silent gap) (hgap₁ : Silent gap₁) (hgap₂ : Silent gap₂) (hsigns₂ : gap₂.count '=' ≤ 1)
      (hgap₃ : Silent gap₃) (hsigns₃ : '=' ∉ gap₃) (hc₀ : value? c₀ = some v₀) (hc₁ : value? c₁ = some v₁)
      (hc₂ : value? c₂ = some v₂) (hc₃ : value? c₃ = some v₃) (hrest : Spells rest b) :
      Spells (gap ++ c₀ :: (gap₁ ++ c₁ :: (gap₂ ++ c₂ :: (gap₃ ++ c₃ :: rest))))
        (Bytes.ofNat 3 (((v₀ * 64 + v₁) * 64 + v₂) * 64 + v₃) ++ b)

/-- The texts that are read as some bytes. -/
def Spelled (text : String) (b : Bytes) : Prop := (∀ c ∈ text.toList, isAscii c = true) ∧ Spells text.toList b

/-! ## Bits of groups -/

theorem value?_lt {c : Char} {v : Nat} (h : value? c = some v) : v < 64 := by
  have hle : ∀ d : Char, c ≤ d → c.toNat ≤ d.toNat := fun d hd => UInt32.le_iff_toNat_le.mp hd
  unfold value? at h
  split at h
  · next hc =>
    have := hle 'Z' hc.2
    simp at h this
    omega
  · split at h
    · next hc =>
      have := hle 'z' hc.2
      simp at h this
      omega
    · split at h
      · next hc =>
        have := hle '9' hc.2
        simp at h this
        omega
      · split at h
        · simp at h
          omega
        · split at h
          · simp at h
            omega
          · cases h

theorem byte_eq {a b : Nat} (h : a % 256 = b % 256) : UInt8.ofNat a = UInt8.ofNat b :=
  UInt8.toNat_inj.mp (by simpa using h)

section
variable {v₀ v₁ v₂ v₃ : Nat}

theorem ofNat_one : Bytes.ofNat 1 ((v₀ * 64 + v₁) / 16) = [UInt8.ofNat (v₀ * 4 + v₁ / 16)] := by
  have hbyte : UInt8.ofNat ((v₀ * 64 + v₁) / 16 % 256) = UInt8.ofNat (v₀ * 4 + v₁ / 16) := byte_eq (by omega)
  simp only [Bytes.ofNat, List.nil_append, hbyte]

theorem ofNat_two (h₂ : v₂ < 64) : Bytes.ofNat 2 (((v₀ * 64 + v₁) * 64 + v₂) / 4) =
    [UInt8.ofNat (v₀ * 4 + v₁ / 16), UInt8.ofNat (v₁ % 16 * 16 + v₂ / 4)] := by
  have hfirst : UInt8.ofNat (((v₀ * 64 + v₁) * 64 + v₂) / 4 / 256 % 256) = UInt8.ofNat (v₀ * 4 + v₁ / 16) :=
    byte_eq (by omega)
  have hsecond : UInt8.ofNat (((v₀ * 64 + v₁) * 64 + v₂) / 4 % 256) = UInt8.ofNat (v₁ % 16 * 16 + v₂ / 4) :=
    byte_eq (by omega)
  simp only [Bytes.ofNat, List.nil_append, List.cons_append, hfirst, hsecond]

theorem ofNat_three (h₂ : v₂ < 64) (h₃ : v₃ < 64) : Bytes.ofNat 3 (((v₀ * 64 + v₁) * 64 + v₂) * 64 + v₃) =
    [UInt8.ofNat (v₀ * 4 + v₁ / 16), UInt8.ofNat (v₁ % 16 * 16 + v₂ / 4), UInt8.ofNat (v₂ % 4 * 64 + v₃)] := by
  have hfirst : UInt8.ofNat ((((v₀ * 64 + v₁) * 64 + v₂) * 64 + v₃) / 256 / 256 % 256) =
      UInt8.ofNat (v₀ * 4 + v₁ / 16) := byte_eq (by omega)
  have hsecond : UInt8.ofNat ((((v₀ * 64 + v₁) * 64 + v₂) * 64 + v₃) / 256 % 256) =
      UInt8.ofNat (v₁ % 16 * 16 + v₂ / 4) := byte_eq (by omega)
  have hthird : UInt8.ofNat ((((v₀ * 64 + v₁) * 64 + v₂) * 64 + v₃) % 256) = UInt8.ofNat (v₂ % 4 * 64 + v₃) :=
    byte_eq (by omega)
  simp only [Bytes.ofNat, List.nil_append, List.cons_append, hfirst, hsecond, hthird]

end

/-! ## Passing over -/

theorem silent_or_cut (s : List Char) :
    Silent s ∨ ∃ gap c v rest, s = gap ++ c :: rest ∧ Silent gap ∧ value? c = some v := by
  induction s with
  | nil => exact .inl nofun
  | cons c s ih =>
    cases hc : value? c with
    | some v => exact .inr ⟨[], c, v, s, rfl, nofun, hc⟩
    | none =>
      rcases ih with hs | ⟨gap, d, v, rest, rfl, hgap, hd⟩
      · exact .inl (List.forall_mem_cons.mpr ⟨hc, hs⟩)
      · exact .inr ⟨c :: gap, d, v, rest, rfl, List.forall_mem_cons.mpr ⟨hc, hgap⟩, hd⟩

theorem decodeFrom_silent {c : Char} (hc : value? c = none) (hsign : c ≠ '=') (phase : Phase) (count : Nat)
    (rest : List Char) : decodeFrom phase count (c :: rest) = decodeFrom phase count rest := by
  cases phase <;> simp only [decodeFrom, hsign, if_false, hc]

section
variable {gap : List Char} (hgap : Silent gap) (count : Nat) (rest : List Char)
include hgap

theorem decodeFrom_empty_gap : decodeFrom .empty count (gap ++ rest) = decodeFrom .empty count rest := by
  induction gap with
  | nil => rfl
  | cons c gap ih =>
    obtain ⟨hc, hsilent⟩ := List.forall_mem_cons.mp hgap
    rw [← ih hsilent, List.cons_append]
    by_cases hsign : c = '='
    · simp only [decodeFrom, hsign, if_true]
    · exact decodeFrom_silent hc hsign .empty count _

theorem decodeFrom_one_gap (bits : Nat) :
    decodeFrom (.one bits) count (gap ++ rest) = decodeFrom (.one bits) count rest := by
  induction gap with
  | nil => rfl
  | cons c gap ih =>
    obtain ⟨hc, hsilent⟩ := List.forall_mem_cons.mp hgap
    rw [← ih hsilent, List.cons_append]
    by_cases hsign : c = '='
    · simp only [decodeFrom, hsign, if_true]
    · exact decodeFrom_silent hc hsign (.one bits) count _

/-- Behind the second character of a group, the second padding sign ends the text. -/
theorem decodeFrom_two_padded (bits : Nat) (padded : Bool) (h : 2 ≤ padded.toNat + gap.count '=') :
    decodeFrom (.two bits padded) count (gap ++ rest) = .ok [] := by
  induction gap generalizing padded with
  | nil => cases padded <;> simp at h
  | cons c gap ih =>
    obtain ⟨hc, hsilent⟩ := List.forall_mem_cons.mp hgap
    rw [List.cons_append]
    by_cases hsign : c = '='
    · subst hsign
      rw [List.count_cons_self] at h
      cases padded with
      -- This is the second sign.
      | true => simp only [decodeFrom, if_true]
      | false =>
        -- The first sign is kept in mind.
        simp only [decodeFrom, if_true]
        exact ih hsilent true (by simpa [Nat.add_comm] using h)
    · rw [List.count_cons_of_ne hsign] at h
      rw [decodeFrom_silent hc hsign]
      exact ih hsilent padded h

/-- With fewer signs the text goes on. -/
theorem decodeFrom_two_gap (bits : Nat) (padded : Bool) (h : padded.toNat + gap.count '=' ≤ 1) :
    ∃ padded', decodeFrom (.two bits padded) count (gap ++ rest) = decodeFrom (.two bits padded') count rest := by
  induction gap generalizing padded with
  | nil => exact ⟨padded, rfl⟩
  | cons c gap ih =>
    obtain ⟨hc, hsilent⟩ := List.forall_mem_cons.mp hgap
    rw [List.cons_append]
    by_cases hsign : c = '='
    · subst hsign
      rw [List.count_cons_self] at h
      cases padded with
      | true => exact absurd h (by simp)
      | false =>
        simp only [decodeFrom, if_true]
        exact ih hsilent true (by simpa [Nat.add_comm] using h)
    · rw [List.count_cons_of_ne hsign] at h
      rw [decodeFrom_silent hc hsign]
      exact ih hsilent padded h

theorem decodeFrom_three_padded (bits : Nat) (h : '=' ∈ gap) :
    decodeFrom (.three bits) count (gap ++ rest) = .ok [] := by
  induction gap with
  | nil => cases h
  | cons c gap ih =>
    obtain ⟨hc, hsilent⟩ := List.forall_mem_cons.mp hgap
    rw [List.cons_append]
    by_cases hsign : c = '='
    · simp only [decodeFrom, hsign, if_true]
    · rw [decodeFrom_silent hc hsign]
      exact ih hsilent (List.mem_of_ne_of_mem (Ne.symm hsign) h)

theorem decodeFrom_three_gap (bits : Nat) (h : '=' ∉ gap) :
    decodeFrom (.three bits) count (gap ++ rest) = decodeFrom (.three bits) count rest := by
  induction gap with
  | nil => rfl
  | cons c gap ih =>
    obtain ⟨hc, hsilent⟩ := List.forall_mem_cons.mp hgap
    rw [List.mem_cons, not_or] at h
    rw [← ih hsilent h.2, List.cons_append, decodeFrom_silent hc (Ne.symm h.1)]

end

/-! ## Where a text was cut

Each phase tells the part of the text that it passed over from what comes after. -/

section
variable {count : Nat} {s : List Char} {b : Bytes}

theorem map_cons_eq_ok {r : Except Fault Bytes} {x : UInt8} (h : r.map (x :: ·) = .ok b) :
    ∃ tail, r = .ok tail ∧ b = x :: tail := by
  cases r with
  | error fault => cases h
  | ok tail => exact ⟨tail, rfl, (Except.ok.inj h).symm⟩

theorem decodeFrom_empty_ok (h : decodeFrom .empty count s = .ok b) : (Silent s ∧ b = []) ∨
    ∃ gap c v rest, s = gap ++ c :: rest ∧ Silent gap ∧ value? c = some v ∧
      decodeFrom (.one v) (count + 1) rest = .ok b := by
  rcases silent_or_cut s with hs | ⟨gap, c, v, rest, rfl, hgap, hc⟩
  · rw [← List.append_nil s, decodeFrom_empty_gap hs] at h
    exact .inl ⟨hs, (Except.ok.inj h).symm⟩
  · rw [decodeFrom_empty_gap hgap, decodeFrom_empty_value hc] at h
    exact .inr ⟨gap, c, v, rest, rfl, hgap, hc, h⟩

theorem decodeFrom_one_ok {bits : Nat} (h : decodeFrom (.one bits) count s = .ok b) :
    ∃ gap c v rest tail, s = gap ++ c :: rest ∧ Silent gap ∧ value? c = some v ∧
      decodeFrom (.two (v % 16) false) (count + 1) rest = .ok tail ∧ b = UInt8.ofNat (bits * 4 + v / 16) :: tail := by
  rcases silent_or_cut s with hs | ⟨gap, c, v, rest, rfl, hgap, hc⟩
  · rw [← List.append_nil s, decodeFrom_one_gap hs] at h
    cases h
  · rw [decodeFrom_one_gap hgap, decodeFrom_one_value hc] at h
    obtain ⟨tail, htail, rfl⟩ := map_cons_eq_ok h
    exact ⟨gap, c, v, rest, tail, rfl, hgap, hc, htail, rfl⟩

theorem decodeFrom_two_ok {bits : Nat} (h : decodeFrom (.two bits false) count s = .ok b) :
    (∃ padding rest, s = padding ++ rest ∧ Silent padding ∧ 2 ≤ padding.count '=' ∧ b = []) ∨
    ∃ gap c v rest tail, s = gap ++ c :: rest ∧ Silent gap ∧ gap.count '=' ≤ 1 ∧ value? c = some v ∧
      decodeFrom (.three (v % 4)) (count + 1) rest = .ok tail ∧ b = UInt8.ofNat (bits * 16 + v / 4) :: tail := by
  have hsigns : ∀ gap : List Char, false.toNat + gap.count '=' = gap.count '=' := fun _ => Nat.zero_add _
  rcases silent_or_cut s with hs | ⟨gap, c, v, rest, rfl, hgap, hc⟩
  · -- No character with a value follows, so the signs decide whether the text has ended.
    by_cases hend : 2 ≤ s.count '='
    · rw [← List.append_nil s, decodeFrom_two_padded hs _ _ _ _ (by rwa [hsigns])] at h
      exact .inl ⟨s, [], (List.append_nil s).symm, hs, hend, (Except.ok.inj h).symm⟩
    · obtain ⟨padded, hgo⟩ := decodeFrom_two_gap hs count [] bits false (by rw [hsigns]; omega)
      rw [List.append_nil] at hgo
      rw [hgo] at h
      cases h
  · by_cases hend : 2 ≤ gap.count '='
    · rw [decodeFrom_two_padded hgap _ _ _ _ (by rwa [hsigns])] at h
      exact .inl ⟨gap, c :: rest, rfl, hgap, hend, (Except.ok.inj h).symm⟩
    · obtain ⟨padded, hgo⟩ := decodeFrom_two_gap hgap count (c :: rest) bits false (by rw [hsigns]; omega)
      rw [hgo, decodeFrom_two_value hc] at h
      obtain ⟨tail, htail, rfl⟩ := map_cons_eq_ok h
      exact .inr ⟨gap, c, v, rest, tail, rfl, hgap, by omega, hc, htail, rfl⟩

theorem decodeFrom_three_ok {bits : Nat} (h : decodeFrom (.three bits) count s = .ok b) :
    (∃ padding rest, s = padding ++ rest ∧ Silent padding ∧ '=' ∈ padding ∧ b = []) ∨
    ∃ gap c v rest tail, s = gap ++ c :: rest ∧ Silent gap ∧ '=' ∉ gap ∧ value? c = some v ∧
      decodeFrom .empty (count + 1) rest = .ok tail ∧ b = UInt8.ofNat (bits * 64 + v) :: tail := by
  rcases silent_or_cut s with hs | ⟨gap, c, v, rest, rfl, hgap, hc⟩
  · by_cases hend : '=' ∈ s
    · rw [← List.append_nil s, decodeFrom_three_padded hs _ _ _ hend] at h
      exact .inl ⟨s, [], (List.append_nil s).symm, hs, hend, (Except.ok.inj h).symm⟩
    · rw [← List.append_nil s, decodeFrom_three_gap hs _ _ _ hend] at h
      cases h
  · by_cases hend : '=' ∈ gap
    · rw [decodeFrom_three_padded hgap _ _ _ hend] at h
      exact .inl ⟨gap, c :: rest, rfl, hgap, hend, (Except.ok.inj h).symm⟩
    · rw [decodeFrom_three_gap hgap _ _ _ hend, decodeFrom_three_value hc] at h
      obtain ⟨tail, htail, rfl⟩ := map_cons_eq_ok h
      exact .inr ⟨gap, c, v, rest, tail, rfl, hgap, hend, hc, htail, rfl⟩

end

/-! ## Reading is spelling -/

/-- What a text spells is read from it. -/
theorem Spells.decodeFrom_ok {s : List Char} {b : Bytes} (h : Spells s b) (count : Nat) :
    decodeFrom .empty count s = .ok b := by
  induction h generalizing count with
  | @nothing gap hgap =>
    rw [← List.append_nil gap, decodeFrom_empty_gap hgap]
    rfl
  | one hgap hgap₁ hc₀ hc₁ hpadding hsigns =>
    rw [decodeFrom_empty_gap hgap, decodeFrom_empty_value hc₀, decodeFrom_one_gap hgap₁, decodeFrom_one_value hc₁,
      decodeFrom_two_padded hpadding _ _ _ _ (by simpa using hsigns), ofNat_one]
    rfl
  | two hgap hgap₁ hgap₂ hsigns₂ hc₀ hc₁ hc₂ hpadding hsigns =>
    obtain ⟨padded, hgo⟩ := decodeFrom_two_gap hgap₂ (count + 1 + 1) _ _ false (by simpa using hsigns₂)
    rw [decodeFrom_empty_gap hgap, decodeFrom_empty_value hc₀, decodeFrom_one_gap hgap₁, decodeFrom_one_value hc₁,
      hgo, decodeFrom_two_value hc₂, decodeFrom_three_padded hpadding _ _ _ (List.count_pos_iff.mp hsigns),
      ofNat_two (value?_lt hc₂)]
    rfl
  | three hgap hgap₁ hgap₂ hsigns₂ hgap₃ hsigns₃ hc₀ hc₁ hc₂ hc₃ _ ih =>
    obtain ⟨padded, hgo⟩ := decodeFrom_two_gap hgap₂ (count + 1 + 1) _ _ false (by simpa using hsigns₂)
    rw [decodeFrom_empty_gap hgap, decodeFrom_empty_value hc₀, decodeFrom_one_gap hgap₁, decodeFrom_one_value hc₁,
      hgo, decodeFrom_two_value hc₂, decodeFrom_three_gap hgap₃ _ _ _ hsigns₃, decodeFrom_three_value hc₃, ih,
      ofNat_three (value?_lt hc₂) (value?_lt hc₃)]
    rfl

/-- What is read from a text it spells: by the groups of the text, each of which
the phases cut off in turn. -/
theorem spells_of_decodeFrom {count : Nat} {s : List Char} {b : Bytes} (h : decodeFrom .empty count s = .ok b) :
    Spells s b := by
  -- On the length, since a group is more than one character.
  induction hn : s.length using Nat.strongRecOn generalizing count s b with
  | ind n ih =>
    rcases decodeFrom_empty_ok h with ⟨hs, rfl⟩ | ⟨gap, c₀, v₀, rest, rfl, hgap, hc₀, h₁⟩
    · exact .nothing hs
    obtain ⟨gap₁, c₁, v₁, rest, tail, rfl, hgap₁, hc₁, h₂, rfl⟩ := decodeFrom_one_ok h₁
    rcases decodeFrom_two_ok h₂ with ⟨padding, rest, rfl, hpadding, hsigns, rfl⟩ |
      ⟨gap₂, c₂, v₂, rest, tail, rfl, hgap₂, hsigns₂, hc₂, h₃, rfl⟩
    · rw [← ofNat_one]
      exact .one hgap hgap₁ hc₀ hc₁ hpadding hsigns
    rcases decodeFrom_three_ok h₃ with ⟨padding, rest, rfl, hpadding, hsigns, rfl⟩ |
      ⟨gap₃, c₃, v₃, rest, tail, rfl, hgap₃, hsigns₃, hc₃, h₄, rfl⟩
    · rw [← ofNat_two (value?_lt hc₂)]
      exact .two hgap hgap₁ hgap₂ hsigns₂ hc₀ hc₁ hc₂ hpadding (List.count_pos_iff.mpr hsigns)
    · have hshorter : rest.length < n := by
        rw [← hn]
        simp only [List.length_append, List.length_cons]
        omega
      have hrest : Spells rest tail := ih _ hshorter h₄ rfl
      have hgroup := Spells.three hgap hgap₁ hgap₂ hsigns₂ hgap₃ hsigns₃ hc₀ hc₁ hc₂ hc₃ hrest
      rwa [ofNat_three (value?_lt hc₂) (value?_lt hc₃)] at hgroup

theorem decodeFrom_ok_iff {s : List Char} {b : Bytes} : decodeFrom .empty 0 s = .ok b ↔ Spells s b :=
  ⟨spells_of_decodeFrom, fun h => h.decodeFrom_ok 0⟩

theorem notAscii?_eq_none_iff {s : List Char} : notAscii? s = none ↔ ∀ c ∈ s, isAscii c = true := by
  rw [← List.dropWhile_eq_nil_iff, notAscii?]
  cases s.dropWhile isAscii <;> simp

theorem decode_ok_iff {text : String} {b : Bytes} : decode text = .ok b ↔ Spelled text b := by
  unfold decode Spelled
  rw [← notAscii?_eq_none_iff]
  cases hfault : notAscii? text.toList with
  | none => simp [decodeFrom_ok_iff]
  | some fault => simp

end Base64

namespace Envelope
open Base64 (Spelled)
variable {m : UserMetadata}

/-! ## Fields -/

theorem bytesField_ok_iff {name : String} {b : Bytes} :
    bytesField m name = .ok b ↔ ∃ text, m.get? name = some text ∧ Spelled text b := by
  unfold bytesField
  rw [bind_eq_ok_iff]
  refine exists_congr fun text => and_congr field_eq_ok_iff ?_
  rw [← Base64.decode_ok_iff]
  cases Base64.decode text with
  | ok b' => exact ⟨fun h => congrArg _ (Except.ok.inj h), fun h => congrArg _ (Except.ok.inj h)⟩
  | error fault => exact ⟨nofun, nofun⟩

/-- The entries say what an envelope has, its key and its nonce in any spelling. -/
structure Says (m : UserMetadata) (e : Envelope) : Prop where
  mode : modeOf? m = some e.mode
  key : ∃ text, m.get? keyName = some text ∧ Spelled text e.wrappedKey
  keyId : m.get? keyIdName = some e.masterKeyId
  iv : ∃ text, m.get? ivName = some text ∧ Spelled text e.iv
  size : sizeField m = .ok e.size
  sha256 : m.get? sha256Name = e.sha256

/-- An entry is the standard spelling of some bytes. -/
def IsStandard (m : UserMetadata) (name : String) : Prop := ∃ b, m.get? name = some (Base64.encode b)

theorem read_ok_iff {e : Envelope} : read m = .ok e ↔ Says m e := by
  rw [read_eq_ok_iff, bytesField_ok_iff, bytesField_ok_iff]
  exact ⟨fun ⟨hmode, hkey, hkeyId, hiv, hsize, hsha256⟩ => ⟨hmode, hkey, hkeyId, hiv, hsize, hsha256⟩,
    fun h => ⟨h.mode, h.key, h.keyId, h.iv, h.size, h.sha256⟩⟩

/-- Reading an encrypted object ends with what its entries say, or with a fault of a
field. -/
theorem read_cases {mode : String} (hmode : modeOf? m = some mode) :
    (∃ e, read m = .ok e ∧ Says m e) ∨
      (∃ fault, read m = .error (.transform fault)) ∧ ¬∃ e, Says m e := by
  cases hread : read m with
  | ok e => exact .inl ⟨e, rfl, read_ok_iff.mp hread⟩
  | error found =>
    refine .inr ⟨?_, fun ⟨e, he⟩ => by cases (read_ok_iff.mpr he).symm.trans hread⟩
    simp only [read, hmode] at hread
    cases hfields : fields mode m with
    | ok e =>
      rw [hfields] at hread
      cases hread
    | error fault =>
      rw [hfields] at hread
      exact ⟨fault, congrArg _ (Except.error.inj hread).symm⟩

/-- What is read from a text is written as this text exactly if the text is a
standard spelling or spells nothing. -/
theorem decode_standard_iff (text : String) :
    (∀ b, Base64.decode text = .ok b → Base64.encode b = text) ↔
      (∃ b, text = Base64.encode b) ∨ ¬∃ b, Spelled text b := by
  constructor
  · intro hback
    by_cases hspelled : ∃ b, Spelled text b
    · obtain ⟨b, hb⟩ := hspelled
      exact .inl ⟨b, (hback b (Base64.decode_ok_iff.mpr hb)).symm⟩
    · exact .inr hspelled
  · rintro (⟨standard, rfl⟩ | hnone) b hb
    · rw [Except.ok.inj ((Base64.decode_encoded standard).symm.trans hb)]
    · exact absurd ⟨b, Base64.decode_ok_iff.mp hb⟩ hnone

theorem refused_iff_standard {mode : String} (hmode : modeOf? m = some mode) :
    (¬(IsStandard m keyName ∧ IsStandard m ivName) → ∃ fault, read m = .error (.transform fault)) ↔
      (IsStandard m keyName ∧ IsStandard m ivName) ∨ ¬∃ e, Says m e := by
  constructor
  · intro hrefused
    by_cases hstandard : IsStandard m keyName ∧ IsStandard m ivName
    · exact .inl hstandard
    · obtain ⟨fault, hfault⟩ := hrefused hstandard
      exact .inr fun ⟨e, he⟩ => by cases (read_ok_iff.mpr he).symm.trans hfault
  · rintro (hstandard | hnone) hloose
    · exact absurd hstandard hloose
    · rcases read_cases hmode with ⟨e, -, he⟩ | ⟨hfault, -⟩
      · exact absurd ⟨e, he⟩ hnone
      · exact hfault

/-- Reading is lenient. A text is read as some bytes if and only if it spells them
in the wide sense, and any other text is refused as a fault of the key; so what is
read is written as the same text only if that was a standard spelling. The envelope
of an encrypted object is read if and only if its entries say what it has, key and
nonce in the wide sense, and is refused as a fault of a field if they do not; so a
key or a nonce that is not spelled as is standard is refused only if no bytes are
spelled, or another entry is at fault. -/
theorem read_iff_spelled (text : String) (m : UserMetadata) {mode : String} (hmode : modeOf? m = some mode) :
    (∀ b, Base64.decode text = .ok b ↔ Spelled text b) ∧
    ((∃ fault, Base64.decode text = .error fault ∧ (FieldFault.base64 fault).asError.kind = .crypto) ↔
      ¬∃ b, Spelled text b) ∧
    ((∀ b, Base64.decode text = .ok b → Base64.encode b = text) ↔
      (∃ b, text = Base64.encode b) ∨ ¬∃ b, Spelled text b) ∧
    (∀ e, read m = .ok e ↔ Says m e) ∧
    ((∃ fault, read m = .error (.transform fault)) ↔ ¬∃ e, Says m e) ∧
    ((¬(IsStandard m keyName ∧ IsStandard m ivName) → ∃ fault, read m = .error (.transform fault)) ↔
      (IsStandard m keyName ∧ IsStandard m ivName) ∨ ¬∃ e, Says m e) := by
  refine ⟨fun b => Base64.decode_ok_iff, ⟨?_, fun hnone => ?_⟩, decode_standard_iff text,
    fun e => read_ok_iff, ⟨?_, fun hnone => ?_⟩, refused_iff_standard hmode⟩
  · rintro ⟨fault, hfault, -⟩ ⟨b, hb⟩
    cases (Base64.decode_ok_iff.mpr hb).symm.trans hfault
  · cases hdecode : Base64.decode text with
    | ok b => exact absurd ⟨b, Base64.decode_ok_iff.mp hdecode⟩ hnone
    | error fault => exact ⟨fault, rfl, rfl⟩
  · rintro ⟨fault, hfault⟩ ⟨e, he⟩
    cases (read_ok_iff.mpr he).symm.trans hfault
  · rcases read_cases hmode with ⟨e, -, he⟩ | ⟨hfault, -⟩
    · exact absurd ⟨e, he⟩ hnone
    · exact hfault

/-- A key with a line break and a padding sign inside its group, and a nonce with
bits behind its last byte and a mark behind its padding, are read as three bytes and
two. A text with one character too many is refused. -/
theorem read_iff_spelled_loosely :
    let m : UserMetadata :=
      ⟨[(modeName, "ENC:X"), (keyName, "A\nQ=ID"), (keyIdName, "k"), (ivName, "//B=!")]⟩
    let e : Envelope := { mode := "ENC:X", wrappedKey := [1, 2, 3], masterKeyId := "k", iv := [255, 240] }
    modeOf? m = some "ENC:X" ∧ Spelled "A\nQ=ID" [1, 2, 3] ∧ Spelled "//B=!" [255, 240] ∧ read m = .ok e ∧
      ¬∃ b, Spelled "not base64!" b := by
  intro m e
  have hmode : modeOf? m = some "ENC:X" :=
    (modeOf?_eq_some_iff _ _).mpr ⟨rfl, by rw [String.startsWith_string_iff]; decide⟩
  have hkey : Spelled "A\nQ=ID" [1, 2, 3] := ((read_iff_spelled _ m hmode).1 _).mp rfl
  have hiv : Spelled "//B=!" [255, 240] := ((read_iff_spelled _ m hmode).1 _).mp rfl
  obtain ⟨-, hcrypto, -, hread, -, -⟩ := read_iff_spelled "not base64!" m hmode
  exact ⟨hmode, hkey, hiv, (hread e).mpr ⟨hmode, ⟨_, rfl, hkey⟩, rfl, ⟨_, rfl, hiv⟩, rfl, rfl⟩,
    hcrypto.mp ⟨_, rfl, rfl⟩⟩

/-- A corrupted spelling is read as if it were whole: a mark inside the key does not
show, neither in the key alone nor in the envelope of an object. -/
theorem corrupted_key_read :
    Base64.decode "AQ!ID" = .ok [1, 2, 3] ∧ (∀ b, Base64.encode b ≠ "AQ!ID") ∧
    let m : UserMetadata := ⟨[(modeName, "ENC:X"), (keyName, "AQ!ID"), (keyIdName, "k"), (ivName, "")]⟩
    read m = .ok { mode := "ENC:X", wrappedKey := [1, 2, 3], masterKeyId := "k", iv := [] } := by
  have hdecode : Base64.decode "AQ!ID" = .ok [1, 2, 3] := rfl
  refine ⟨hdecode, fun b hb => ?_,
    read_eq_ok_iff.mpr ⟨(modeOf?_eq_some_iff _ _).mpr ⟨rfl, ?_⟩, rfl, rfl, rfl, rfl, rfl⟩⟩
  · -- only three bytes could be spelled so, and these have another standard spelling
    have hbytes : b = [1, 2, 3] := Except.ok.inj ((Base64.decode_encoded b).symm.trans (hb ▸ hdecode))
    subst hbytes
    exact absurd hb (by decide)
  · rw [String.startsWith_string_iff]
    decide

end Envelope

end SealedStore
