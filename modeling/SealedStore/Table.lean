/-!
# Tables

A finite map as a list of entries in the order in which their names were first
inserted. Looking a name up finds its first entry; inserting replaces that
entry in place or appends a new one.

What is proved:
  1. `get?_insert`, `get?_erase`, `get?_merge` — what a look-up finds after
     each change.
-/

namespace SealedStore

/-- A finite map in insertion order. -/
structure Table (κ ν : Type) where
  entries : List (κ × ν)
  deriving DecidableEq, Repr

namespace Table
variable {κ ν : Type} [DecidableEq κ]

def empty : Table κ ν := ⟨[]⟩

instance : Inhabited (Table κ ν) := ⟨empty⟩

def keys (t : Table κ ν) : List κ := t.entries.map (·.1)

def values (t : Table κ ν) : List ν := t.entries.map (·.2)

def lookup (k : κ) : List (κ × ν) → Option ν
  | [] => none
  | e :: rest => if e.1 = k then some e.2 else lookup k rest

def get? (t : Table κ ν) (k : κ) : Option ν := lookup k t.entries

def contains (t : Table κ ν) (k : κ) : Bool := (t.get? k).isSome

/-- Replaces the first entry with a name, or appends one. -/
def put (k : κ) (v : ν) : List (κ × ν) → List (κ × ν)
  | [] => [(k, v)]
  | e :: rest => if e.1 = k then (k, v) :: rest else e :: put k v rest

def insert (t : Table κ ν) (k : κ) (v : ν) : Table κ ν := ⟨put k v t.entries⟩

def erase (t : Table κ ν) (k : κ) : Table κ ν := ⟨t.entries.filter fun e => !decide (e.1 = k)⟩

/-- Inserts the entries of `u` in order. -/
def merge (t u : Table κ ν) : Table κ ν := u.entries.foldl (fun acc e => acc.insert e.1 e.2) t

def ofList (entries : List (κ × ν)) : Table κ ν :=
  entries.foldl (fun acc e => acc.insert e.1 e.2) empty

def filterKeys (t : Table κ ν) (p : κ → Bool) : Table κ ν := ⟨t.entries.filter fun e => p e.1⟩

def isEmpty (t : Table κ ν) : Bool := t.entries.isEmpty

/-! ## What a look-up finds -/

theorem lookup_put (k j : κ) (v : ν) (l : List (κ × ν)) :
    lookup j (put k v l) = if k = j then some v else lookup j l := by
  induction l with
  | nil => simp [put, lookup]
  | cons e rest ih =>
    by_cases h : e.1 = k
    · simp only [put, h, if_true, lookup]
      by_cases hj : k = j <;> simp [hj]
    · simp only [put, h, if_false, lookup, ih]
      by_cases hj : e.1 = j
      · have : ¬ k = j := fun hk => h (hj.trans hk.symm)
        simp [hj, this]
      · simp [hj]

theorem get?_insert (t : Table κ ν) (k j : κ) (v : ν) :
    (t.insert k v).get? j = if k = j then some v else t.get? j := lookup_put k j v t.entries

theorem get?_erase (t : Table κ ν) (k j : κ) :
    (t.erase k).get? j = if k = j then none else t.get? j := by
  obtain ⟨l⟩ := t
  simp only [erase, get?]
  induction l with
  | nil => simp [lookup]
  | cons e rest ih =>
    by_cases h : e.1 = k
    · simp only [List.filter_cons, h, decide_true, Bool.not_true, Bool.false_eq_true, if_false, ih,
        lookup]
      by_cases hj : k = j <;> simp [hj]
    · simp only [List.filter_cons, h, decide_false, Bool.not_false, if_true, lookup, ih]
      by_cases hj : e.1 = j
      · have : ¬ k = j := fun hk => h (hj.trans hk.symm)
        simp [hj, this]
      · simp [hj]

theorem get?_foldl_insert (l : List (κ × ν)) (t : Table κ ν) (j : κ) :
    (l.foldl (fun acc e => acc.insert e.1 e.2) t).get? j = (lookup j l.reverse).or (t.get? j) := by
  induction l generalizing t with
  | nil => simp [lookup]
  | cons e rest ih =>
    -- The last entry of a name is the first from behind.
    have happ : ∀ (a : List (κ × ν)), lookup j (a ++ [e]) =
        (lookup j a).or (if e.1 = j then some e.2 else none) := by
      intro a
      induction a with
      | nil => simp [lookup]
      | cons b a iha =>
        by_cases hb : b.1 = j <;> simp [lookup, hb, iha]
    simp only [List.foldl_cons, ih, get?_insert, List.reverse_cons, happ, Option.or_assoc]
    by_cases h : e.1 = j <;> simp [h]

/-- The last entry of `u` with a name wins over `t`. -/
theorem get?_merge (t u : Table κ ν) (j : κ) :
    (t.merge u).get? j = (lookup j u.entries.reverse).or (t.get? j) :=
  get?_foldl_insert u.entries t j

end Table

end SealedStore
