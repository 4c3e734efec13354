import Mathlib.Algebra.Group.Nat.Defs
import SealedStore.Text.Base64
import SealedStore.Text.Integer
/-!
# Fields as text

The fields of an envelope travel as text. Bytes are read back from their Base64
form, and a number from its decimal form, as long as it has no more digits than
are read.

What is proved:
  1. `Base64.decode_encoded` — bytes survive Base64.
  2. `Integer.read_toString` — a number survives its decimal form.
  3. `Integer.natAbs_lt_of_read` — whatever text is read as a number, the number
     has a decimal form that is read.
-/

namespace SealedStore

namespace Base64

/-! ## Characters of the alphabet -/

theorem digit_spec : ∀ n < 64, value? (digit n) = some n ∧ digit n ≠ '=' ∧ isAscii (digit n) = true := by
  decide

theorem value?_digit {n : Nat} (h : n < 64) : value? (digit n) = some n := (digit_spec n h).1

section
variable {c : Char} {v : Nat} (h : value? c = some v) (count : Nat) (rest : List Char)
include h

theorem ne_pad_of_value? : c ≠ '=' := by
  rintro rfl
  cases h

theorem decodeFrom_empty_value :
    decodeFrom .empty count (c :: rest) = decodeFrom (.one v) (count + 1) rest := by
  simp only [decodeFrom, ne_pad_of_value? h, if_false, h]

theorem decodeFrom_one_value (bits : Nat) :
    decodeFrom (.one bits) count (c :: rest) =
      (decodeFrom (.two (v % 16) false) (count + 1) rest).map (UInt8.ofNat (bits * 4 + v / 16) :: ·) := by
  simp only [decodeFrom, ne_pad_of_value? h, if_false, h]

theorem decodeFrom_two_value (bits : Nat) (padded : Bool) :
    decodeFrom (.two bits padded) count (c :: rest) =
      (decodeFrom (.three (v % 4)) (count + 1) rest).map (UInt8.ofNat (bits * 16 + v / 4) :: ·) := by
  simp only [decodeFrom, ne_pad_of_value? h, if_false, h]

theorem decodeFrom_three_value (bits : Nat) :
    decodeFrom (.three bits) count (c :: rest) =
      (decodeFrom .empty (count + 1) rest).map (UInt8.ofNat (bits * 64 + v) :: ·) := by
  simp only [decodeFrom, ne_pad_of_value? h, if_false, h]

end

/-! ## Groups -/

theorem ofNat_eq (x : UInt8) {n : Nat} (h : n = x.toNat) : UInt8.ofNat n = x := by
  rw [h, UInt8.ofNat_toNat]

theorem decodeFrom_encodeChars (b : Bytes) (count : Nat) :
    decodeFrom .empty count (encodeChars b) = .ok b := by
  induction b using encodeChars.induct generalizing count with
  | case1 x y z rest ih =>
    have hx := x.toNat_lt
    have hy := y.toNat_lt
    have hz := z.toNat_lt
    rw [encodeChars, decodeFrom_empty_value (value?_digit (by omega)), decodeFrom_one_value (value?_digit (by omega)),
      decodeFrom_two_value (value?_digit (by omega)), decodeFrom_three_value (value?_digit (by omega)), ih]
    -- The bits of three bytes in four characters are put together again.
    have h₁ : UInt8.ofNat (x.toNat / 4 * 4 + (x.toNat % 4 * 16 + y.toNat / 16) / 16) = x :=
      ofNat_eq x (by omega)
    have h₂ : UInt8.ofNat ((x.toNat % 4 * 16 + y.toNat / 16) % 16 * 16 +
        (y.toNat % 16 * 4 + z.toNat / 64) / 4) = y :=
      ofNat_eq y (by omega)
    have h₃ : UInt8.ofNat ((y.toNat % 16 * 4 + z.toNat / 64) % 4 * 64 + z.toNat % 64) = z :=
      ofNat_eq z (by omega)
    simp only [h₁, h₂, h₃, Except.map]
  | case2 x y =>
    have hx := x.toNat_lt
    have hy := y.toNat_lt
    have hpad : ∀ bits n, decodeFrom (.three bits) n ['='] = .ok [] := fun _ _ => rfl
    rw [encodeChars, decodeFrom_empty_value (value?_digit (by omega)), decodeFrom_one_value (value?_digit (by omega)),
      decodeFrom_two_value (value?_digit (by omega)), hpad]
    have h₁ : UInt8.ofNat (x.toNat / 4 * 4 + (x.toNat % 4 * 16 + y.toNat / 16) / 16) = x :=
      ofNat_eq x (by omega)
    have h₂ : UInt8.ofNat ((x.toNat % 4 * 16 + y.toNat / 16) % 16 * 16 + y.toNat % 16 * 4 / 4) = y :=
      ofNat_eq y (by omega)
    simp only [h₁, h₂, Except.map]
  | case3 x =>
    have hx := x.toNat_lt
    have hpad : ∀ bits n, decodeFrom (.two bits false) n ['=', '='] = .ok [] := fun _ _ => rfl
    rw [encodeChars, decodeFrom_empty_value (value?_digit (by omega)), decodeFrom_one_value (value?_digit (by omega)),
      hpad]
    have h₁ : UInt8.ofNat (x.toNat / 4 * 4 + x.toNat % 4 * 16 / 16) = x := ofNat_eq x (by omega)
    simp only [h₁, Except.map]
  | case4 => rfl

theorem isAscii_encodeChars (b : Bytes) : ∀ c ∈ encodeChars b, isAscii c = true := by
  have hdigit : ∀ n, n < 64 → isAscii (digit n) = true := fun n h => (digit_spec n h).2.2
  induction b using encodeChars.induct with
  | case1 x y z rest ih =>
    have hx := x.toNat_lt
    have hy := y.toNat_lt
    have hz := z.toNat_lt
    simp only [encodeChars, List.forall_mem_cons]
    exact ⟨hdigit _ (by omega), hdigit _ (by omega), hdigit _ (by omega), hdigit _ (by omega), ih⟩
  | case2 x y =>
    have hx := x.toNat_lt
    have hy := y.toNat_lt
    simp only [encodeChars, List.forall_mem_cons]
    exact ⟨hdigit _ (by omega), hdigit _ (by omega), hdigit _ (by omega), rfl, nofun⟩
  | case3 x =>
    have hx := x.toNat_lt
    simp only [encodeChars, List.forall_mem_cons]
    exact ⟨hdigit _ (by omega), hdigit _ (by omega), rfl, rfl, nofun⟩
  | case4 => exact nofun

theorem decode_encoded (b : Bytes) : decode (encode b) = .ok b := by
  have hascii : (encodeChars b).dropWhile isAscii = [] := by
    rw [← List.append_nil (encodeChars b), List.dropWhile_append_of_pos (isAscii_encodeChars b)]
    rfl
  have hnone : notAscii? (encodeChars b) = none := by
    simp only [notAscii?, hascii]
  simp only [decode, encode, String.toList_ofList, hnone, decodeFrom_encodeChars]

end Base64

namespace Integer

/-! ## Digits -/

theorem digit_range {c : Char} (h : c.isDigit = true) : 48 ≤ c.toNat ∧ c.toNat ≤ 57 := by
  simp only [Char.isDigit, Bool.and_eq_true, decide_eq_true_eq, UInt32.le_iff_toNat_le] at h
  exact h

theorem ne_of_digit {c d : Char} (h : c.isDigit = true) (hd : d.isDigit = false) : c ≠ d := by
  rintro rfl
  rw [h] at hd
  cases hd

theorem fold_digit {c : Char} (h : c.isDigit = true) : fold c = c := by
  obtain ⟨_, hle⟩ := digit_range h
  exact if_pos (by omega)

theorem isSpace_digit {c : Char} (h : c.isDigit = true) : isSpace c = false := by
  obtain ⟨hge, _⟩ := digit_range h
  have hspace : c ≠ ' ' := ne_of_digit h rfl
  have htab : ¬c.toNat ≤ 13 := by omega
  simp [isSpace, hspace, htab]

theorem splitSign_digit {c : Char} (h : c.isDigit = true) (rest : List Char) :
    splitSign (c :: rest) = (false, c :: rest) := by
  have hplus : c ≠ '+' := ne_of_digit h rfl
  have hminus : c ≠ '-' := ne_of_digit h rfl
  simp [splitSign, hplus, hminus]

theorem barsBetweenDigits_digits {run : List Char} (h : ∀ c ∈ run, c.isDigit = true) (afterDigit : Bool)
    (hrun : run ≠ [] ∨ afterDigit = true) : barsBetweenDigits afterDigit run = true := by
  induction run generalizing afterDigit with
  | nil => exact hrun.resolve_left (fun hne => hne rfl)
  | cons c run ih =>
    have hbar : c ≠ '_' := ne_of_digit (h c List.mem_cons_self) rfl
    rw [barsBetweenDigits, if_neg hbar]
    exact ih (fun d hd => h d (List.mem_cons_of_mem _ hd)) true (.inr rfl)

theorem value_digits {run : List Char} (h : ∀ c ∈ run, c.isDigit = true) :
    value run = Nat.ofDigitChars 10 run 0 := by
  have hfilter : run.filter Char.isDigit = run := List.filter_eq_self.mpr h
  simp only [value, hfilter, Nat.ofDigitChars_eq_foldl]
  congr 1
  funext n c
  rw [Nat.mul_comm]
  rfl

theorem splitSign_signed {run : List Char} (h : ∀ c ∈ run, c.isDigit = true) (hne : run ≠ []) (negative : Bool) :
    splitSign (((if negative then '-' :: run else run).map fold).dropWhile isSpace) = (negative, run) := by
  have hfold : run.map fold = run := by
    rw [← List.map_id run, List.map_map]
    exact List.map_congr_left fun c hc => fold_digit (h c hc)
  cases negative with
  | true =>
    have hminus : fold '-' = '-' := by decide
    simp only [if_true, List.map_cons, hfold, hminus]
    rfl
  | false =>
    simp only [Bool.false_eq_true, if_false, hfold]
    cases run with
    | nil => exact absurd rfl hne
    | cons c run =>
      have hc := h c List.mem_cons_self
      rw [List.dropWhile_cons_of_neg (by rw [isSpace_digit hc]; decide)]
      exact splitSign_digit hc run

/-- A run of digits that is not too long, with a minus sign or none, is read as
the number it spells. -/
theorem read_digits {text : String} (negative : Bool) (run : List Char)
    (htext : text.toList = if negative then '-' :: run else run) (h : ∀ c ∈ run, c.isDigit = true) (hne : run ≠ [])
    (hlen : run.length ≤ maxDigits) : read text = .ok (if negative then -(value run : Int) else value run) := by
  have hfilter : run.filter Char.isDigit = run := List.filter_eq_self.mpr h
  have hrun : ∀ c ∈ run, isDigitOrBar c = true := by
    intro c hc
    rw [isDigitOrBar, h c hc]
    rfl
  have htake : run.takeWhile isDigitOrBar = run := by
    rw [← List.append_nil run, List.takeWhile_append_of_pos hrun]
    rfl
  have hdrop : run.dropWhile isDigitOrBar = [] := by
    rw [← List.append_nil run, List.dropWhile_append_of_pos hrun]
    rfl
  simp only [read, htext, splitSign_signed h hne negative, htake, hdrop, hfilter,
    barsBetweenDigits_digits h false (.inl hne)]
  rw [if_neg (by decide), if_neg (by omega), if_neg (by decide)]

/-- A number survives its decimal form, if it has no more digits than are read. -/
theorem read_toString {n : Int} (h : n.natAbs < 10 ^ maxDigits) : read (toString n) = .ok n := by
  have hdigits : ∀ k : Nat, ∀ c ∈ Nat.toDigits 10 k, c.isDigit = true := fun k c hc =>
    Nat.isDigit_of_mem_toDigits (by decide) (by decide) hc
  have hlen : (Nat.toDigits 10 n.natAbs).length ≤ maxDigits :=
    (Nat.length_toDigits_le_iff (by decide) (by decide)).mpr h
  have hvalue : ∀ k : Nat, value (Nat.toDigits 10 k) = k := fun k => by
    rw [value_digits (hdigits k), Nat.ofDigitChars_ten_toDigits]
  cases n with
  | ofNat k =>
    have hchars : (toString (Int.ofNat k)).toList = Nat.toDigits 10 k := Nat.toList_repr
    have hread := read_digits false (Nat.toDigits 10 k) hchars (hdigits k) Nat.toDigits_ne_nil hlen
    rwa [hvalue] at hread
  | negSucc k =>
    have hchars : (toString (Int.negSucc k)).toList = '-' :: Nat.toDigits 10 (k + 1) := by
      -- Only the digits behind the sign are those of a number.
      show ("-" ++ Nat.repr (k + 1)).toList = _
      rw [String.toList_append, Nat.toList_repr]
      rfl
    have hread := read_digits true (Nat.toDigits 10 (k + 1)) hchars (hdigits (k + 1)) Nat.toDigits_ne_nil
      hlen
    rwa [hvalue] at hread

/-! ## Numbers that were read -/

theorem foldl_digits_lt {digits : List Char} (h : ∀ c ∈ digits, c.isDigit = true) (n : Nat) :
    digits.foldl (fun n c => n * 10 + (c.toNat - 48)) n < (n + 1) * 10 ^ digits.length := by
  induction digits generalizing n with
  | nil => simp
  | cons c digits ih =>
    have hdigit : c.toNat - 48 ≤ 9 := by
      have hrange := digit_range (h c List.mem_cons_self)
      omega
    calc (c :: digits).foldl (fun n c => n * 10 + (c.toNat - 48)) n
        < (n * 10 + (c.toNat - 48) + 1) * 10 ^ digits.length :=
          ih (fun d hd => h d (List.mem_cons_of_mem _ hd)) _
      _ ≤ (n + 1) * 10 * 10 ^ digits.length := Nat.mul_le_mul_right _ (by omega)
      _ = (n + 1) * 10 ^ (c :: digits).length := by
          rw [Nat.mul_assoc, ← Nat.pow_succ', List.length_cons]

theorem value_lt (run : List Char) : value run < 10 ^ (run.filter Char.isDigit).length := by
  have h : ∀ c ∈ run.filter Char.isDigit, c.isDigit = true := fun c hc => (List.mem_filter.mp hc).2
  have hlt := foldl_digits_lt h 0
  rwa [Nat.zero_add, Nat.one_mul] at hlt

/-- However a number was spelled that was read, its decimal form is not too long. -/
theorem natAbs_lt_of_read {text : String} {n : Int} (h : read text = .ok n) : n.natAbs < 10 ^ maxDigits := by
  have hvalue : ∀ run : List Char, ¬(run.filter Char.isDigit).length > maxDigits → value run < 10 ^ maxDigits :=
    fun run hlen => Nat.lt_of_lt_of_le (value_lt run) (Nat.pow_le_pow_right (by decide) (by omega))
  simp only [read] at h
  split at h
  · cases h
  · split at h
    · cases h
    · next hlen =>
      split at h
      · cases h
      · cases h
        split
        · rw [Int.natAbs_neg]
          exact hvalue _ hlen
        · exact hvalue _ hlen

theorem lt_of_lt_ten {n : Nat} (h : n < 10) : n < 10 ^ maxDigits :=
  Nat.lt_of_lt_of_le h (Nat.le_self_pow (by decide) 10)

end Integer

end SealedStore
