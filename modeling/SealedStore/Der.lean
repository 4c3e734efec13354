import SealedStore.Bytes
/-!
# Tagged values

The encoding of keys as nested values of a tag, a length and a content. Every
value has exactly one encoding: lengths and numbers take the fewest bytes that
hold them, and a reader refuses all others. The values of a sequence are read
until nothing is left.

What is proved:
  1. `readOne?_shorter` — reading a value leaves less than there was.
  2. `eq_write_of_readOne?` — what is read writes back to the bytes it was read
     from.
  3. `integer_of_nat?` — a value is read as a number only if the number is
     written as that value.
-/

namespace SealedStore.Der

/-- One value: the bytes of its tag, and its content. -/
structure Value where
  tag : Bytes
  content : Bytes
  deriving DecidableEq

/-- The numbers of an identifier, from the root of the tree of identifiers on. -/
abbrev ObjectId := List Nat

def ObjectId.toText (id : ObjectId) : String := ".".intercalate (id.map toString)

/-! ## Writing -/

/-- A length: below 128 in one byte, else in as many bytes as it needs, after
their number. -/
def lengthBytes (n : Nat) : Bytes :=
  if n < 128 then [UInt8.ofNat n]
  else let w := Bytes.widthOf n; UInt8.ofNat (128 + w) :: Bytes.ofNat w n

def Value.write (v : Value) : Bytes := v.tag ++ lengthBytes v.content.length ++ v.content

def write (tag : UInt8) (content : Bytes) : Bytes := Value.write ⟨[tag], content⟩

/-- An integer that is not negative: a leading zero keeps the top bit clear. -/
def integer (n : Nat) : Bytes := write 2 (Bytes.ofNat (Nat.log2 n / 8 + 1) n |> fun b =>
  if (b.headD 0) &&& 0x80 = 0 then b else 0 :: b)

def sequence (parts : List Bytes) : Bytes := write 0x30 parts.flatten

def octets (content : Bytes) : Bytes := write 4 content

def null : Bytes := write 5 []

def bits (content : Bytes) : Bytes := write 3 (0 :: content)

/-- The digits of a number in base 128, each with its top bit set. -/
def highDigits (n : Nat) : Bytes :=
  if _h : n = 0 then [] else highDigits (n / 128) ++ [UInt8.ofNat (n % 128 + 128)]
termination_by n
decreasing_by omega

/-- A number in base 128: the top bit is clear in the last digit only. -/
def base128 (n : Nat) : Bytes := highDigits (n / 128) ++ [UInt8.ofNat (n % 128)]

/-- An identifier. Its first two numbers are written as one. -/
def object : ObjectId → Bytes
  | first :: second :: rest => write 6 (((first * 40 + second) :: rest).flatMap base128)
  | _ => write 6 []

/-! ## Reading -/

/-- The numbers in base 128 that bytes spell, as far as they are complete. -/
def readBase128 (b : Bytes) : List Nat :=
  (b.foldl (fun (acc : List Nat × Nat) x =>
    let n := acc.2 * 128 + x.toNat % 128
    if x < 128 then (acc.1 ++ [n], 0) else (acc.1, n)) ([], 0)).1

/-- A tag and what follows it. A tag whose number does not fit into one byte is
continued in base 128. -/
def readTag? : Bytes → Option (Bytes × Bytes)
  | [] => none
  | b :: rest =>
    if b &&& 0x1f ≠ 0x1f then some ([b], rest)
    else
      let width := (rest.takeWhile (128 ≤ ·)).length + 1
      let n := (readBase128 (rest.take width)).headD 0
      -- A number that is written longer than it has to be is no tag.
      if base128 n = rest.take width ∧ 31 ≤ n ∧ n < UInt32.size then
        some (b :: rest.take width, rest.drop width)
      else none

/-- A length and what follows it. At most four bytes hold a length. -/
def readLength? : Bytes → Option (Nat × Bytes)
  | [] => none
  | b :: rest =>
    -- The first byte is the length itself, or says how many bytes hold it.
    let width := if b < 128 then 0 else b.toNat - 128
    let n := if b < 128 then b.toNat else Bytes.toNat (rest.take width)
    if width ≤ 4 ∧ lengthBytes n = b :: rest.take width then some (n, rest.drop width) else none

/-- One value and what follows it. -/
def readOne? (b : Bytes) : Option (Value × Bytes) :=
  match readTag? b with
  | none => none
  | some (tag, rest) =>
    match readLength? rest with
    | none => none
    | some (n, rest) => if rest.length < n then none else some (⟨tag, rest.take n⟩, rest.drop n)

theorem eq_append_of_readTag? {b tag rest : Bytes} (h : readTag? b = some (tag, rest)) :
    b = tag ++ rest ∧ tag ≠ [] := by
  unfold readTag? at h
  split at h
  · cases h
  · dsimp only at h
    split at h
    · simp only [Option.some.injEq, Prod.mk.injEq] at h
      obtain ⟨rfl, rfl⟩ := h
      simp
    · split at h
      · simp only [Option.some.injEq, Prod.mk.injEq] at h
        obtain ⟨rfl, rfl⟩ := h
        simp
      · cases h

theorem eq_append_of_readLength? {b rest : Bytes} {n : Nat} (h : readLength? b = some (n, rest)) :
    b = lengthBytes n ++ rest := by
  unfold readLength? at h
  split at h
  · cases h
  · simp only [Option.ite_none_right_eq_some, Option.some.injEq, Prod.mk.injEq] at h
    obtain ⟨⟨-, hl⟩, hn, rfl⟩ := h
    rw [hn] at hl
    simp [hl]

theorem eq_write_of_readOne? {b rest : Bytes} {v : Value} (h : readOne? b = some (v, rest)) :
    b = v.write ++ rest ∧ v.tag ≠ [] := by
  unfold readOne? at h
  split at h
  · cases h
  · next ht =>
    split at h
    · cases h
    · next hl =>
      split at h
      · cases h
      · next hn =>
        simp only [Option.some.injEq, Prod.mk.injEq] at h
        obtain ⟨rfl, rfl⟩ := h
        obtain ⟨rfl, hne⟩ := eq_append_of_readTag? ht
        refine ⟨?_, hne⟩
        rw [eq_append_of_readLength? hl, Value.write]
        simp [Nat.min_eq_left (Nat.le_of_not_lt hn)]

theorem readOne?_shorter {b rest : Bytes} {v : Value} (h : readOne? b = some (v, rest)) :
    rest.length < b.length := by
  obtain ⟨rfl, hne⟩ := eq_write_of_readOne? h
  have := List.length_pos_iff.mpr hne
  simp only [Value.write, List.length_append]
  omega

def readAll? (b : Bytes) : Option (List Value) :=
  if b.isEmpty then some []
  else match _h : readOne? b with
    | none => none
    | some (v, rest) => (readAll? rest).map (v :: ·)
termination_by b.length
decreasing_by exact readOne?_shorter _h

def readSingle? (b : Bytes) : Option Value :=
  match readOne? b with
  | some (v, []) => some v
  | _ => none

namespace Value

def content? (v : Value) (tag : UInt8) : Option Bytes :=
  if v.tag = [tag] then some v.content else none

/-- The number an integer value holds; negative ones are refused. -/
def nat? (v : Value) : Option Nat :=
  let n := Bytes.toNat v.content
  -- Only what would be written like this counts: no leading zeros, no sign.
  if v.write = integer n then some n else none

theorem integer_of_nat? {v : Value} {n : Nat} (h : v.nat? = some n) : v.write = integer n := by
  unfold nat? at h
  dsimp only at h
  split at h
  · next hw =>
    cases h
    exact hw
  · cases h

def maxObject : Nat := 63

/-- The identifier a value holds. The first number is at most two. -/
def object? (v : Value) : Option ObjectId :=
  match readBase128 v.content with
  | [] => none
  | both :: rest =>
    let first := min (both / 40) 2
    let id := first :: (both - first * 40) :: rest
    if v.content.length ≤ maxObject ∧ v.write = object id then some id else none

def octets? (v : Value) : Option Bytes := v.content? 4

def isNull (v : Value) : Bool := v = ⟨[5], []⟩

/-- The bytes of a bit string. The bits that fill up its last byte are zero. -/
def bits? (v : Value) : Option Bytes :=
  match v.content? 3 with
  | none | some [] => none
  | some (unused :: content) =>
    if unused < 8 ∧ (content.getLastD 0).toNat % (1 <<< unused.toNat) = 0 ∧
      (content = [] → unused = 0) then some content
    else none

def parts? (v : Value) : Option (List Value) := (v.content? 0x30).bind readAll?

/-- The values inside a set with a tag, which are in the order of their
encodings. -/
def members? (v : Value) (tag : UInt8) : Option (List Value) := do
  let members ← (v.content? tag).bind readAll?
  if (members.zip members.tail).all fun p => decide (p.1.write ≤ p.2.write) then some members else none

def inside? (v : Value) (tag : UInt8) : Option Value := (v.content? tag).bind readSingle?

end Value

def readSequence? (b : Bytes) : Option (List Value) := (readSingle? b).bind Value.parts?

end SealedStore.Der
