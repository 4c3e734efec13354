import SealedStore.Text.Percent
import SealedStore.Text.Pieces
/-!
# Escaped text read back

What the receiver of a link makes of its parts. A percent sign with two
hexadecimal digits is a byte, every other character is its own UTF-8 form, and
the bytes of a part spell a text. In a query a plus sign is a space before
anything else is; entries stand between ampersands, and a name ends at the first
equals sign.

Whatever escaping leaves as it is can be told from the marks that divide a link,
so a query is cut where its entries were put together.

What is proved:
  1. `Bytes.toText?_ofText` — a text is told from its bytes.
  2. `Percent.decode?_encodePath`, `Percent.decodeQuery?_encodeQuery` — escaped
     texts read back.
  3. `Percent.entries?_query` — a query reads back as its entries.
-/

namespace SealedStore

namespace Bytes

/-! ## Texts and their bytes -/

theorem toList_loop (b : ByteArray) (i : Nat) (before : Bytes) :
    ByteArray.toList.loop b i before = before.reverse ++ b.data.toList.drop i := by
  fun_induction ByteArray.toList.loop b i before with
  | case1 i before hi ih =>
    have hget : b.get! i = b.data.toList.get ⟨i, hi⟩ := by
      show b.data[i]! = _
      rw [getElem!_pos b.data i hi, List.get_eq_getElem, Array.getElem_toList]
    rw [ih, List.reverse_cons, List.append_assoc, List.drop_eq_getElem_cons (i := i) hi, hget, List.get_eq_getElem]
    rfl
  | case2 i before hi =>
    have hdrop : b.data.toList.drop i = [] := List.drop_eq_nil_of_le (Nat.le_of_not_lt hi)
    rw [hdrop, List.append_nil]

theorem ofText_eq (s : String) : ofText s = s.toUTF8.data.toList :=
  toList_loop s.toUTF8 0 []

/-- The text whose UTF-8 form some bytes are. -/
def toText? (b : Bytes) : Option String := String.fromUTF8? ⟨b.toArray⟩

theorem toText?_ofText (s : String) : toText? (ofText s) = some s := by
  rw [toText?, ofText_eq, Array.toArray_toList]
  exact dif_pos s.isValidUTF8

end Bytes

namespace Text

/-! ## Pieces put together -/

theorem pieces_of_notMem {separator : Char} {s : List Char} (h : separator ∉ s) : pieces separator s = [s] := by
  induction s with
  | nil => rfl
  | cons c rest ih =>
    rw [List.mem_cons, not_or] at h
    rw [pieces, if_neg (Ne.symm h.1), ih h.2]

theorem pieces_append_cons {separator : Char} {s : List Char} (h : separator ∉ s) (rest : List Char) :
    pieces separator (s ++ separator :: rest) = s :: pieces separator rest := by
  induction s with
  | nil => exact if_pos rfl
  | cons c s ih =>
    rw [List.mem_cons, not_or] at h
    rw [List.cons_append, pieces, if_neg (Ne.symm h.1), ih h.2]

theorem pieces_intercalate {separator : Char} {parts : List (List Char)} (hne : parts ≠ [])
    (h : ∀ part ∈ parts, separator ∉ part) : pieces separator ([separator].intercalate parts) = parts := by
  induction parts with
  | nil => exact absurd rfl hne
  | cons part rest ih =>
    have hpart : separator ∉ part := h part List.mem_cons_self
    cases rest with
    | nil =>
      rw [List.intercalate_singleton]
      exact pieces_of_notMem hpart
    | cons next rest =>
      rw [List.intercalate_cons_cons, List.append_assoc, List.singleton_append, pieces_append_cons hpart,
        ih (List.cons_ne_nil _ _) fun p hp => h p (List.mem_cons_of_mem _ hp)]

end Text

namespace Percent

/-! ## Reading -/

/-- The bytes that an escaped text stands for. A percent sign without two digits
behind it stands for itself, like any other character. -/
def unescape : List Char → Bytes
  | '%' :: hi :: lo :: rest =>
    match Bytes.hexValue? hi, Bytes.hexValue? lo with
    | some h, some l => UInt8.ofNat (h * 16 + l) :: unescape rest
    | _, _ => String.utf8EncodeChar '%' ++ unescape (hi :: lo :: rest)
  | c :: rest => String.utf8EncodeChar c ++ unescape rest
  | [] => []

def decode? (s : String) : Option String := Bytes.toText? (unescape s.toList)

def plusAsSpace (c : Char) : Char := if c = '+' then ' ' else c

def decodeQuery? (s : List Char) : Option String := Bytes.toText? (unescape (s.map plusAsSpace))

def decodeField? (s : List Char) : Option (String × String) := do
  let name ← decodeQuery? (s.takeWhile (· != '='))
  let value ← decodeQuery? ((s.dropWhile (· != '=')).drop 1)
  return (name, value)

def entries? (query : String) : Option (List (String × String)) :=
  (Text.pieces '&' query.toList).mapM decodeField?

/-! ## Characters of escaped texts -/

/-- Characters that stand in paths and queries alike. -/
def isShared (c : Char) : Bool := c.isAlphanum || c == '_' || c == '.' || c == '-' || c == '~' || c == '%'

theorem hexDigit_spec : ∀ n < 16, Bytes.hexValue? (Bytes.hexDigit n).toUpper = some n ∧
    isShared (Bytes.hexDigit n).toUpper = true ∧ (Bytes.hexDigit n).toUpper ≠ '+' := by
  decide

theorem hexDigit_high (b : UInt8) : b.toNat / 16 < 16 := by
  have hb := b.toNat_lt
  omega

theorem hexDigit_low (b : UInt8) : b.toNat % 16 < 16 := Nat.mod_lt _ (by decide)

theorem isShared_of_isUnreserved {b : UInt8} (h : isUnreserved b = true) : isShared (Char.ofNat b.toNat) = true := by
  show (isUnreserved b || _) = true
  rw [h, Bool.true_or]

theorem isShared_of_mem_escape {b : UInt8} {c : Char} (h : c ∈ escape b) : isShared c = true := by
  simp only [escape, List.map_cons, List.map_nil, List.mem_cons, List.not_mem_nil, or_false] at h
  rcases h with rfl | rfl | rfl
  · rfl
  · exact (hexDigit_spec _ (hexDigit_high b)).2.1
  · exact (hexDigit_spec _ (hexDigit_low b)).2.1

theorem mem_pathByte {b : UInt8} {c : Char} (h : c ∈ pathByte b) : isShared c = true ∨ c = '/' := by
  unfold pathByte at h
  split at h
  · next hb =>
    rw [List.mem_singleton] at h
    subst h
    rcases Bool.or_eq_true .. ▸ hb with hb | hb
    · exact .inl (isShared_of_isUnreserved hb)
    · rw [beq_iff_eq] at hb
      subst hb
      exact .inr rfl
  · exact .inl (isShared_of_mem_escape h)

theorem mem_queryByte {b : UInt8} {c : Char} (h : c ∈ queryByte b) : isShared c = true ∨ c = '+' := by
  unfold queryByte at h
  split at h
  · next hb =>
    rw [List.mem_singleton] at h
    subst h
    exact .inl (isShared_of_isUnreserved hb)
  · split at h
    · exact .inr (List.mem_singleton.mp h)
    · exact .inl (isShared_of_mem_escape h)

theorem notMem_encodePath {c : Char} (hc : isShared c = false) (hslash : c ≠ '/') (s : String) :
    c ∉ (encodePath s).toList := by
  intro h
  rw [encodePath, String.toList_ofList, List.mem_flatMap] at h
  obtain ⟨b, -, hb⟩ := h
  rcases mem_pathByte hb with hs | rfl
  · rw [hc] at hs
    cases hs
  · exact hslash rfl

theorem notMem_encodeQuery {c : Char} (hc : isShared c = false) (hplus : c ≠ '+') (s : String) :
    c ∉ (encodeQuery s).toList := by
  intro h
  rw [encodeQuery, String.toList_ofList, List.mem_flatMap] at h
  obtain ⟨b, -, hb⟩ := h
  rcases mem_queryByte hb with hs | rfl
  · rw [hc] at hs
    cases hs
  · exact hplus rfl

/-! ## One byte -/

theorem unescape_cons {c : Char} (h : c ≠ '%') (rest : List Char) :
    unescape (c :: rest) = String.utf8EncodeChar c ++ unescape rest := by
  rw [unescape]
  exact fun _ _ _ hc => absurd hc h

theorem unescape_escape (b : UInt8) (rest : List Char) : unescape (escape b ++ rest) = b :: unescape rest := by
  have hhigh := (hexDigit_spec _ (hexDigit_high b)).1
  have hlow := (hexDigit_spec _ (hexDigit_low b)).1
  have hb : b.toNat / 16 * 16 + b.toNat % 16 = b.toNat := Nat.div_add_mod' ..
  simp only [escape, List.map_cons, List.map_nil, List.cons_append, List.nil_append, unescape, hhigh, hlow, hb,
    UInt8.ofNat_toNat]

theorem unreserved_spec : ∀ n < 256, (isUnreserved (UInt8.ofNat n) || UInt8.ofNat n == 47) = true →
    n < 128 ∧ Char.ofNat n ≠ '%' ∧ Char.ofNat n ≠ '+' := by
  -- There are no more than 256 bytes to be tried.
  decide +kernel

theorem utf8EncodeChar_ofNat {n : Nat} (h : n < 128) : String.utf8EncodeChar (Char.ofNat n) = [UInt8.ofNat n] := by
  have hval : (Char.ofNat n).val.toNat = n := by
    rw [Char.ofNat, dif_pos (Or.inl (by omega))]
    exact UInt32.toNat_ofNatLT ..
  unfold String.utf8EncodeChar
  simp only [hval]
  exact if_pos (by omega)

theorem unescape_kept {b : UInt8} (h : (isUnreserved b || b == 47) = true) (rest : List Char) :
    unescape (Char.ofNat b.toNat :: rest) = b :: unescape rest := by
  obtain ⟨hlt, hpercent, -⟩ := unreserved_spec b.toNat b.toNat_lt (by rwa [UInt8.ofNat_toNat])
  rw [unescape_cons hpercent, utf8EncodeChar_ofNat hlt, UInt8.ofNat_toNat]
  rfl

theorem unescape_pathByte (b : UInt8) (rest : List Char) : unescape (pathByte b ++ rest) = b :: unescape rest := by
  unfold pathByte
  split
  · next h => exact unescape_kept h rest
  · exact unescape_escape b rest

theorem plusAsSpace_of_ne {c : Char} (h : c ≠ '+') : plusAsSpace c = c := if_neg h

theorem map_plusAsSpace_escape (b : UInt8) : (escape b).map plusAsSpace = escape b := by
  -- Nothing that is written by number holds a plus sign.
  have hhigh := plusAsSpace_of_ne (hexDigit_spec _ (hexDigit_high b)).2.2
  have hlow := plusAsSpace_of_ne (hexDigit_spec _ (hexDigit_low b)).2.2
  have hpercent := plusAsSpace_of_ne (c := '%') (by decide)
  simp only [escape, List.map_cons, List.map_nil, hhigh, hlow, hpercent]

theorem unescape_queryByte (b : UInt8) (rest : List Char) :
    unescape ((queryByte b).map plusAsSpace ++ rest) = b :: unescape rest := by
  unfold queryByte
  split
  · next h =>
    have hkept : (isUnreserved b || b == 47) = true := by rw [h, Bool.true_or]
    obtain ⟨-, -, hplus⟩ := unreserved_spec b.toNat b.toNat_lt (by rwa [UInt8.ofNat_toNat])
    rw [List.map_cons, List.map_nil, plusAsSpace_of_ne hplus]
    exact unescape_kept hkept rest
  · split
    · next h =>
      rw [beq_iff_eq] at h
      subst h
      exact unescape_cons (by decide) rest
    · rw [map_plusAsSpace_escape]
      exact unescape_escape b rest

/-! ## Texts -/

theorem unescape_flatMap {write : UInt8 → List Char}
    (h : ∀ b rest, unescape (write b ++ rest) = b :: unescape rest) (bytes : Bytes) :
    unescape (bytes.flatMap write) = bytes := by
  induction bytes with
  | nil => rfl
  | cons b rest ih => rw [List.flatMap_cons, h, ih]

theorem decode?_encodePath (s : String) : decode? (encodePath s) = some s := by
  rw [decode?, encodePath, String.toList_ofList, unescape_flatMap unescape_pathByte, Bytes.toText?_ofText]

theorem encodePath_injective {s t : String} (h : encodePath s = encodePath t) : s = t :=
  Option.some.inj (by rw [← decode?_encodePath s, h, decode?_encodePath])

theorem decodeQuery?_encodeQuery (s : String) : decodeQuery? (encodeQuery s).toList = some s := by
  rw [decodeQuery?, encodeQuery, String.toList_ofList, List.map_flatMap, unescape_flatMap unescape_queryByte,
    Bytes.toText?_ofText]

/-! ## Entries -/

def entryText (e : String × String) : List Char := (encodeQuery e.1).toList ++ '=' :: (encodeQuery e.2).toList

theorem toList_query (entries : List (String × String)) :
    (query entries).toList = ['&'].intercalate (entries.map entryText) := by
  have hentry : ∀ e : String × String, (encodeQuery e.1 ++ "=" ++ encodeQuery e.2).toList = entryText e := by
    intro e
    rw [String.toList_append, String.toList_append, List.append_assoc]
    rfl
  rw [query, String.toList_intercalate, List.map_map]
  exact congrArg _ (List.map_congr_left fun e _ => hentry e)

theorem notMem_entryText {c : Char} (hc : isShared c = false) (hplus : c ≠ '+') (hequals : c ≠ '=')
    (e : String × String) : c ∉ entryText e := by
  rw [entryText, List.mem_append, List.mem_cons, not_or, not_or]
  exact ⟨notMem_encodeQuery hc hplus _, hequals, notMem_encodeQuery hc hplus _⟩

/-- No character stands in a query but those of its entries and the marks
between them. -/
theorem notMem_query {c : Char} (hc : isShared c = false) (hplus : c ≠ '+') (hequals : c ≠ '=') (hamp : c ≠ '&')
    (entries : List (String × String)) : c ∉ (query entries).toList := by
  rw [toList_query]
  induction entries with
  | nil => exact List.not_mem_nil
  | cons e rest ih =>
    have hentry := notMem_entryText hc hplus hequals e
    cases rest with
    | nil =>
      rw [List.map_singleton, List.intercalate_singleton]
      exact hentry
    | cons next rest =>
      rw [List.map_cons, List.map_cons, List.intercalate_cons_cons, List.mem_append, List.mem_append, not_or,
        not_or]
      exact ⟨⟨hentry, fun h => hamp (List.mem_singleton.mp h)⟩, ih⟩

theorem decodeField?_entryText (e : String × String) : decodeField? (entryText e) = some e := by
  -- No name holds an equals sign, so that the first one ends it.
  have hequals : ∀ c ∈ (encodeQuery e.1).toList, (c != '=') = true := fun c hc =>
    bne_iff_ne.mpr fun he => notMem_encodeQuery (by decide) (by decide) e.1 (he ▸ hc)
  rw [decodeField?, entryText, List.takeWhile_append_of_pos hequals, List.dropWhile_append_of_pos hequals,
    List.takeWhile_cons_of_neg (by decide), List.dropWhile_cons_of_neg (by decide), List.append_nil,
    List.drop_one, List.tail_cons, decodeQuery?_encodeQuery, decodeQuery?_encodeQuery]
  rfl

theorem mapM_decodeField?_entryText (entries : List (String × String)) :
    (entries.map entryText).mapM decodeField? = some entries := by
  induction entries with
  | nil => rfl
  | cons e rest ih =>
    rw [List.map_cons, List.mapM_cons, decodeField?_entryText, ih]
    rfl

/-- A query reads back as its entries. -/
theorem entries?_query {entries : List (String × String)} (hne : entries ≠ []) :
    entries? (query entries) = some entries := by
  have hclear : ∀ part ∈ entries.map entryText, '&' ∉ part := by
    intro part hpart
    obtain ⟨e, -, rfl⟩ := List.mem_map.mp hpart
    exact notMem_entryText (by decide) (by decide) (by decide) e
  rw [entries?, toList_query, Text.pieces_intercalate (by simpa using hne) hclear, mapM_decodeField?_entryText]

end Percent

end SealedStore
