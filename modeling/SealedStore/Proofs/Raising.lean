import SealedStore.Proofs.Contents
/-!
# What reads can raise

A read of a stream raises the faults of its source and whatever its layers
refuse a content with, and nothing else, however the reads are sized. A layer
adds a fault of its own only at the end of what lies below it.

What is proved:
  1. `Layer.fill_raises`, `Layer.readSome_raises`, `Layer.readRest_raises` —
     reads of one layer.
  2. `Stack.read_raises` — reads of a stack, and what they leave.
  3. `Stream.readAll_raises` — any reads one after the other.
-/

namespace SealedStore

/-- A result that fails does so in one of the ways of which `P` holds. -/
def Raises {α : Type} (P : Error → Prop) (r : Except Error α) : Prop := ∀ e, r = .error e → P e

namespace Raises
variable {α β : Type} {P : Error → Prop}

theorem ok (a : α) : Raises P (.ok a : Except Error α) := by
  intro e he
  cases he

theorem error {e : Error} (h : P e) : Raises P (.error e : Except Error α) := by
  intro f hf
  cases hf
  exact h

theorem bind {r : Except Error α} {f : α → Except Error β} (hr : Raises P r)
    (hf : ∀ a, r = .ok a → Raises P (f a)) : Raises P (r >>= f) := by
  cases r with
  | error e => exact error (hr e rfl)
  | ok a => exact hf a rfl

end Raises

/-! ## Sources -/

def Chunk.Raises (P : Error → Prop) (l : List Chunk) : Prop := ∀ text, .fault text ∈ l → P (.io text)

namespace Source
variable {P : Error → Prop} {l : List Chunk}

theorem readSome_raises (n : Nat) (h : Chunk.Raises P l) :
    SealedStore.Raises P (readSome n l).1 ∧ Chunk.Raises P (readSome n l).2 := by
  cases l with
  | nil => exact ⟨.ok _, h⟩
  | cons c rest =>
    have hrest : Chunk.Raises P rest := fun text ht => h text (List.mem_cons_of_mem _ ht)
    cases c with
    | fault text => exact ⟨.error (h text List.mem_cons_self), hrest⟩
    | data b =>
      simp only [readSome]
      split
      · refine ⟨.ok _, ?_⟩
        intro text ht
        rcases List.mem_cons.mp ht with hd | ht
        · cases hd
        · exact hrest text ht
      · exact ⟨.ok _, hrest⟩

theorem readRest_raises (h : Chunk.Raises P l) :
    SealedStore.Raises P (readRest l).1 ∧ Chunk.Raises P (readRest l).2 := by
  induction l with
  | nil => exact ⟨.ok _, h⟩
  | cons c rest ih =>
    have hrest : Chunk.Raises P rest := fun text ht => h text (List.mem_cons_of_mem _ ht)
    cases c with
    | fault text => exact ⟨.error (h text List.mem_cons_self), hrest⟩
    | data b =>
      obtain ⟨hraises, hleft⟩ := ih hrest
      unfold readRest
      split
      · next hread =>
        rw [hread] at hleft
        exact ⟨.ok _, hleft⟩
      · next hread =>
        rw [hread] at hraises hleft
        exact ⟨.error (hraises _ rfl), hleft⟩

end Source

/-! ## Layers -/

/-- A stage refuses no content in another way. -/
def Stage.Raises (P : Error → Prop) (s : Stage) : Prop := ∀ seen, SealedStore.Raises P (s.finish seen)

namespace Layer
variable {P : Error → Prop} {σ : Type} {Good : σ → Prop} {pull : σ → Except Error Bytes × σ}

/-- How a read of a layer ends: with no other fault, and with a layer and a state
below it that fail in no other way. -/
structure Contained {α : Type} (P : Error → Prop) (Good : σ → Prop) (out : Except Error α × Layer × σ) :
    Prop where
  raises : SealedStore.Raises P out.1
  stage : out.2.1.stage.Raises P
  below : Good out.2.2

variable (hpull : ∀ s, Good s → SealedStore.Raises P (pull s).1 ∧ Good (pull s).2)
include hpull

theorem fill_raises (rounds : Nat) {l : Layer} {s : σ} (hl : l.stage.Raises P) (hs : Good s) :
    Contained P Good (fill pull rounds l s) := by
  induction rounds generalizing l s with
  | zero => exact ⟨.ok _, hl, hs⟩
  | succ rounds ih =>
    obtain ⟨hraises, hgood⟩ := hpull s hs
    unfold fill
    -- In the order of the loop: enough is pending, the pull fails, the end has come, or a
    -- piece has.
    split
    · exact ⟨.ok _, hl, hs⟩
    · split
      · next hp =>
        rw [hp] at hraises hgood
        exact ⟨.error (hraises _ rfl), hl, hgood⟩
      · next hp =>
        rw [hp] at hgood
        split
        · next hf => exact ⟨.error (hl _ _ hf), hl, hgood⟩
        · exact ⟨.ok _, hl, hgood⟩
      · next piece s' _ hp =>
        rw [hp] at hgood
        exact ih (l := l.receive piece) hl hgood

theorem readSome_raises (n : Nat) {l : Layer} {s : σ} (hl : l.stage.Raises P) (hs : Good s) :
    Contained P Good (readSome pull n l s) := by
  obtain ⟨hraises, hstage, hbelow⟩ := fill_raises hpull (l.stage.slack + 2) hl hs
  unfold readSome
  split
  · next hfill =>
    rw [hfill] at hraises hstage hbelow
    exact ⟨.error (hraises _ rfl), hstage, hbelow⟩
  · next hfill =>
    rw [hfill] at hstage hbelow
    exact ⟨.ok _, hstage, hbelow⟩

theorem readRest_raises (reads : Nat) (before : Bytes) {l : Layer} {s : σ} (hl : l.stage.Raises P)
    (hs : Good s) : Contained P Good (readRest pull reads before l s) := by
  induction reads generalizing before l s with
  | zero => exact ⟨.ok _, hl, hs⟩
  | succ reads ih =>
    obtain ⟨hraises, hstage, hbelow⟩ := readSome_raises hpull bufferSize hl hs
    unfold readRest
    split
    · next hread =>
      rw [hread] at hraises hstage hbelow
      exact ⟨.error (hraises _ rfl), hstage, hbelow⟩
    · next hread =>
      rw [hread] at hstage hbelow
      exact ⟨.ok _, hstage, hbelow⟩
    · next hread =>
      rw [hread] at hstage hbelow
      exact ih (before ++ _) hstage hbelow

end Layer

/-! ## Stacks and streams -/

/-- The source at the bottom is open, and neither it nor a layer fails in
another way. -/
def Stack.Raises (P : Error → Prop) : {n : Nat} → Stack n → Prop
  | _, .source s => s.closed = false ∧ Chunk.Raises P s.chunks
  | _, .layered l below => l.stage.Raises P ∧ below.Raises P

variable {P : Error → Prop}

theorem Stack.read_raises {n : Nat} {s : Stack n} (h : s.Raises P) (a : Amount) :
    SealedStore.Raises P (s.read a).1 ∧ (s.read a).2.Raises P := by
  induction n generalizing a with
  | zero =>
    cases s with
    | source s =>
      obtain ⟨chunks, closed⟩ := s
      obtain ⟨rfl, hchunks⟩ : closed = false ∧ Chunk.Raises P chunks := h
      cases a with
      | atMost n =>
        obtain ⟨hraises, hleft⟩ := Source.readSome_raises n hchunks
        exact ⟨hraises, rfl, hleft⟩
      | rest =>
        obtain ⟨hraises, hleft⟩ := Source.readRest_raises hchunks
        exact ⟨hraises, rfl, hleft⟩
  | succ n ih =>
    cases s with
    | layered l below =>
      obtain ⟨hl, hbelow⟩ := h
      have hpull : ∀ t : Stack n, t.Raises P →
          SealedStore.Raises P (t.read (.atMost chunkSize)).1 ∧ (t.read (.atMost chunkSize)).2.Raises P := by
        intro t ht
        exact ih ht (.atMost chunkSize)
      cases a with
      | atMost k =>
        obtain ⟨hraises, hstage, hleft⟩ := Layer.readSome_raises hpull k hl hbelow
        exact ⟨hraises, hstage, hleft⟩
      | rest =>
        let reads := l.pending.length + l.stage.slack + below.remaining + 1
        obtain ⟨hraises, hstage, hleft⟩ := Layer.readRest_raises hpull reads [] hl hbelow
        exact ⟨hraises, hstage, hleft⟩

namespace Stream
variable {s : Stream}

/-- No read of the stream raises anything else. -/
def Raises (P : Error → Prop) (s : Stream) : Prop := s.stack.Raises P

theorem raises_ofBytes (content : Bytes) : (ofBytes content).Raises P := by
  refine ⟨rfl, ?_⟩
  intro text ht
  cases List.mem_singleton.mp ht

theorem Raises.layered (h : s.Raises P) {l : Layer} (hl : l.stage.Raises P) : (s.layered l).Raises P := ⟨hl, h⟩

theorem read_raises (h : s.Raises P) (a : Amount) :
    SealedStore.Raises P (s.read a).1 ∧ (s.read a).2.Raises P := Stack.read_raises h a

theorem readAll_raises (h : s.Raises P) (plan : List Amount) :
    ∀ r ∈ (s.readAll plan).1, SealedStore.Raises P r := by
  induction plan generalizing s with
  | nil =>
    intro r hr
    cases hr
  | cons a plan ih =>
    obtain ⟨hraises, hleft⟩ := read_raises h a
    intro r hr
    rcases List.mem_cons.mp hr with rfl | hr
    · exact hraises
    · exact ih hleft r hr

end Stream

end SealedStore
