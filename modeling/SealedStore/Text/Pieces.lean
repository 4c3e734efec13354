/-!
# Pieces of a text

A text is cut at every occurrence of a separator; n separators give n + 1
pieces, some of which may be empty.

What is proved:
  1. `not_mem_of_mem_pieces` — no piece holds the separator.
  2. `length_pieces` — how many pieces there are.
-/

namespace SealedStore.Text
variable {α : Type} [DecidableEq α]

/-- The pieces between separators. -/
def pieces (separator : α) : List α → List (List α)
  | [] => [[]]
  | c :: rest =>
    if c = separator then [] :: pieces separator rest
    else match pieces separator rest with
      | [] => [[c]]
      | piece :: more => (c :: piece) :: more

theorem pieces_ne_nil (separator : α) (s : List α) : pieces separator s ≠ [] := by
  cases s with
  | nil => simp [pieces]
  | cons c rest =>
    unfold pieces
    split
    · simp
    · split <;> simp

theorem length_pieces (separator : α) (s : List α) :
    (pieces separator s).length = s.count separator + 1 := by
  induction s with
  | nil => rfl
  | cons c rest ih =>
    unfold pieces
    split
    · next h =>
      subst h
      simp [ih]
    · next h =>
      rw [List.count_cons_of_ne h]
      split
      · next hp => exact absurd hp (pieces_ne_nil separator rest)
      · next hp =>
        rw [hp] at ih
        simpa using ih

theorem not_mem_of_mem_pieces {separator : α} {s piece : List α}
    (h : piece ∈ pieces separator s) : separator ∉ piece := by
  induction s generalizing piece with
  | nil => simp_all [pieces]
  | cons c rest ih =>
    unfold pieces at h
    split at h
    · rcases List.mem_cons.mp h with rfl | h
      · simp
      · exact ih h
    · next hc =>
      split at h
      · simp only [List.mem_singleton] at h
        subst h
        simpa using fun he : separator = c => hc he.symm
      · next first more hp =>
        rcases List.mem_cons.mp h with rfl | h
        · have hfirst : separator ∉ first := ih (by simp [hp])
          simp only [List.mem_cons, not_or]
          exact ⟨fun he => hc he.symm, hfirst⟩
        · exact ih (by simp [hp, h])

end SealedStore.Text
