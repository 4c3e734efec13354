/-!
# Byte ranges

An inclusive range of byte positions; without a last position it reaches to
the end of the object.

What is proved:
  1. `first_le_last` — a range that was made does not end before it starts.
  2. `slice_eq_covered` — the bytes of a range are those at its positions.
-/

namespace SealedStore

/-- An inclusive range of byte positions. -/
structure ByteRange where
  first : Nat
  last : Option Nat := none
  deriving DecidableEq

/-- Why two positions are no range. -/
inductive ByteRange.Fault where
  | negativeStart
  | endsBeforeStart
  deriving DecidableEq

def ByteRange.Fault.message : ByteRange.Fault → String
  | .negativeStart => "Range start must not be negative"
  | .endsBeforeStart => "Range end must not precede range start"

def ByteRange.make (first : Int) (last : Option Int) : Except ByteRange.Fault ByteRange :=
  if first < 0 then .error .negativeStart
  else match last with
    | none => .ok ⟨first.toNat, none⟩
    | some l => if l < first then .error .endsBeforeStart else .ok ⟨first.toNat, some l.toNat⟩

theorem ByteRange.first_le_last {first : Int} {last : Option Int} {r : ByteRange} {l : Nat}
    (h : ByteRange.make first last = .ok r) (hl : r.last = some l) : r.first ≤ l := by
  unfold ByteRange.make at h
  split at h
  · cases h
  · split at h
    · cases h; cases hl
    · split at h
      · cases h
      · cases h
        cases hl
        show first.toNat ≤ _
        omega

/-- The bytes of a content that a range covers. -/
def ByteRange.slice (r : ByteRange) (content : List UInt8) : List UInt8 :=
  match r.last with
  | none => content.drop r.first
  | some last => (content.take (last + 1)).drop r.first

def ByteRange.header (r : ByteRange) : String :=
  "bytes=" ++ toString r.first ++ "-" ++ (match r.last with | none => "" | some l => toString l)

/-! ## Positions -/

/-- A position is in a range. -/
def ByteRange.covers (r : ByteRange) (i : Nat) : Bool :=
  decide (r.first ≤ i) && r.last.all fun last => decide (i ≤ last)

/-- The bytes at the positions of a range. -/
def ByteRange.covered (r : ByteRange) (content : List UInt8) : List UInt8 :=
  (content.zipIdx.filter fun e => r.covers e.2).map (·.1)

section
variable {α : Type}

/-- What stands before a position; positions are counted from `k`. -/
theorem filter_zipIdx_lt (l : List α) (k b : Nat) :
    (l.zipIdx k).filter (fun e => decide (e.2 < b)) = (l.take (b - k)).zipIdx k := by
  induction l generalizing k with
  | nil =>
    rw [List.take_nil]
    rfl
  | cons x rest ih =>
    rw [List.zipIdx_cons, List.filter_cons, ih]
    by_cases h : k < b
    · rw [if_pos (decide_eq_true h), show b - k = b - (k + 1) + 1 by omega, List.take_succ_cons, List.zipIdx_cons]
    · rw [if_neg (by simpa using h), show b - (k + 1) = 0 by omega, show b - k = 0 by omega]
      rfl

theorem filter_zipIdx_ge (l : List α) (k a : Nat) :
    ((l.zipIdx k).filter fun e => decide (a ≤ e.2)).map (·.1) = l.drop (a - k) := by
  induction l generalizing k with
  | nil =>
    rw [List.drop_nil]
    rfl
  | cons x rest ih =>
    rw [List.zipIdx_cons, List.filter_cons]
    by_cases h : a ≤ k
    · rw [if_pos (decide_eq_true h), List.map_cons, ih, show a - (k + 1) = 0 by omega, show a - k = 0 by omega]
      rfl
    · rw [if_neg (by simpa using h), ih, show a - k = a - (k + 1) + 1 by omega]
      rfl

end

/-- A range of a content are the bytes at its positions. -/
theorem ByteRange.slice_eq_covered (r : ByteRange) (content : List UInt8) : r.slice content = r.covered content := by
  obtain ⟨first, last⟩ := r
  cases last with
  | none =>
    simp only [slice, covered, covers, Option.all_none, Bool.and_true]
    exact (filter_zipIdx_ge content 0 first).symm
  | some last =>
    have hlast : ∀ i : Nat, decide (i ≤ last) = decide (i < last + 1) := fun i => by simp only [Nat.lt_succ_iff]
    simp only [slice, covered, covers, Option.all_some, hlast]
    rw [← List.filter_filter, filter_zipIdx_lt, filter_zipIdx_ge]
    rfl

end SealedStore
