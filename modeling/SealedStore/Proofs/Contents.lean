import SealedStore.Proofs.Reading
/-!
# Contents of streams

A stream that meets no fault holds a content, and every way of reading it cuts
that content. A layer over such a stream holds what its stage makes of the
content. What a layer knows of the content is right as soon as the layer has
nothing left to hand out, and an envelope is known exactly from the read on
that hands out the first byte of the tag.

What is proved:
  1. `Stream.readAll_follows` — reads one after the other follow the script.
  2. `Stream.Holds.cut` — reads of a content cut it.
  3. `Stream.Holds.layered` — what a layer over a content holds.
  4. `Stream.envelope_of_reaches` — when the envelope of a content is known.
-/

namespace SealedStore

namespace Cut
variable {plan : List Amount} {c left : Bytes} {pieces : List Bytes}

theorem left_eq_nil_of_length (h : Cut plan c pieces left) (hlen : c.length < plan.length) : left = [] := by
  induction h with
  | nil => exact absurd hlen (Nat.not_lt_zero _)
  | @some n plan piece c left pieces _ hend h ih =>
    by_cases hp : piece = []
    · have hc := h.flatten_append
      rw [hend hp] at hc
      exact (List.append_eq_nil_iff.mp hc).2
    · refine ih ?_
      have hpos : 0 < piece.length := List.length_pos_iff.mpr hp
      simp only [List.length_append, List.length_cons] at hlen
      omega
  | rest h _ => exact (List.append_eq_nil_iff.mp h.flatten_append).2

end Cut

/-! ## Divisions of a content -/

namespace Chunk

/-- The chunks are pieces of a content, none of them empty. -/
def Divides (l : List Chunk) (content : Bytes) : Prop :=
  ∃ pieces : List Bytes, l = pieces.map .data ∧ [] ∉ pieces ∧ pieces.flatten = content

theorem script_data (pieces : List Bytes) : script (pieces.map .data) = Script.ofBytes pieces.flatten := by
  induction pieces with
  | nil => rfl
  | cons b pieces ih => rw [List.map_cons, script, ih, List.flatten_cons, Script.ofBytes_append]

theorem steady_data {pieces : List Bytes} (h : [] ∉ pieces) : Steady (pieces.map .data) := by
  induction pieces with
  | nil => trivial
  | cons b pieces ih =>
    obtain ⟨hb, hrest⟩ := not_or.mp (mt List.mem_cons.mpr h)
    exact ⟨fun he => absurd he.symm hb, ih hrest⟩

end Chunk

namespace Stream
variable {s t : Stream} {content : Bytes}

def script (s : Stream) : Script := s.stack.script

def Steady (s : Stream) : Prop := s.stack.Steady

/-- A stream that hands out a content and meets no fault. -/
structure Holds (s : Stream) (content : Bytes) : Prop where
  steady : s.Steady
  script_eq : s.script = Script.ofBytes content

theorem Holds.unique {other : Bytes} (h : s.Holds content) (h' : s.Holds other) : content = other :=
  Script.ofBytes_injective (h.script_eq.symm.trans h'.script_eq)

theorem holds_ofSource {l : List Chunk} (h : Chunk.Divides l content) :
    (ofSource { chunks := l }).Holds content := by
  obtain ⟨pieces, rfl, hp, rfl⟩ := h
  exact ⟨⟨rfl, Chunk.steady_data hp⟩, Chunk.script_data pieces⟩

theorem holds_ofBytes (content : Bytes) : (ofBytes content).Holds content :=
  ⟨⟨rfl, fun _ => rfl, trivial⟩, List.append_nil _⟩

/-! ## Reads one after the other -/

/-- The results of reads one after the other, and what the stream is then. -/
def readAll (s : Stream) : List Amount → List (Except Error Bytes) × Stream
  | [] => ([], s)
  | a :: plan =>
    let (result, s) := s.read a
    let (results, s) := s.readAll plan
    (result :: results, s)

/-- What a stream may have become by reads. -/
inductive Reaches : Stream → Stream → Prop
  | refl {s : Stream} : Reaches s s
  | step {s t : Stream} {a : Amount} (ha : a.Positive) (h : Reaches (s.read a).2 t) : Reaches s t

theorem Reaches.of_stack {n : Nat} {s t : Stack n} (h : Stack.Reaches s t) : Reaches ⟨n, s⟩ ⟨n, t⟩ := by
  induction h with
  | refl => exact .refl
  | step ha _ ih => exact .step ha ih

theorem Reaches.trans {u : Stream} (h : s.Reaches t) (h' : t.Reaches u) : s.Reaches u := by
  induction h with
  | refl => exact h'
  | step ha _ ih => exact .step ha (ih h')

theorem read_follows {a : Amount} (h : s.Steady) (ha : a.Positive) :
    (s.read a).2.Steady ∧ Script.Read a s.script (s.read a).1 (s.read a).2.script :=
  Stack.read_follows h ha

theorem read_rest_eq (h : s.Steady) : (s.read .rest).1 = s.script.outcome :=
  (read_follows (a := .rest) h trivial).2.eq_outcome

/-- A stream that is read in full holds what was read. -/
theorem holds_of_outcome (h : s.Steady) (hc : s.script.outcome = .ok content) : s.Holds content :=
  ⟨h, Script.eq_ofBytes_of_outcome hc⟩

theorem Reaches.steady (h : s.Reaches t) (hs : s.Steady) : t.Steady := by
  induction h with
  | refl => exact hs
  | step ha _ ih => exact ih (read_follows hs ha).1

theorem readAll_reaches (s : Stream) {plan : List Amount} (hp : ∀ a ∈ plan, a.Positive) :
    s.Reaches (s.readAll plan).2 := by
  induction plan generalizing s with
  | nil => exact .refl
  | cons a plan ih =>
    exact .step (hp a List.mem_cons_self) (ih _ fun b hb => hp b (List.mem_cons_of_mem _ hb))

theorem readAll_follows {plan : List Amount} (h : s.Steady) (hp : ∀ a ∈ plan, a.Positive) :
    Script.Run plan s.script (s.readAll plan).1 (s.readAll plan).2.script := by
  induction plan generalizing s with
  | nil => exact .nil
  | cons a plan ih =>
    obtain ⟨hs, hr⟩ := read_follows h (hp a List.mem_cons_self)
    exact .cons hr (ih hs fun b hb => hp b (List.mem_cons_of_mem _ hb))

theorem Holds.cut {plan : List Amount} (h : s.Holds content) (hp : ∀ a ∈ plan, a.Positive) :
    ∃ pieces left, (s.readAll plan).1 = pieces.map .ok ∧ (s.readAll plan).2.Holds left ∧
      Cut plan content pieces left := by
  have hrun := readAll_follows h.steady hp
  rw [h.script_eq] at hrun
  obtain ⟨pieces, left, hr, hs, hc⟩ := hrun.cut
  exact ⟨pieces, left, hr, ⟨(s.readAll_reaches hp).steady h.steady, hs⟩, hc⟩

theorem Holds.read_rest (h : s.Holds content) :
    (s.read .rest).1 = .ok content ∧ (s.read .rest).2.Holds [] := by
  obtain ⟨hs, hr⟩ := read_follows (a := .rest) h.steady trivial
  rw [h.script_eq] at hr
  obtain ⟨hcontent, hleft⟩ := hr.of_content
  exact ⟨hcontent, hs, hleft⟩

/-! ## Layers over a content -/

/-- A layer that has not been read. -/
def Fresh (l : Layer) : Prop := l.seen = [] ∧ l.Idle

theorem script_layered {l : Layer} (hl : Fresh l) (s : Stream) :
    (s.layered l).script = l.stage.script [] s.script := by
  have h : l.script s.script = l.stage.script l.seen s.script := Layer.script_of_idle hl.2
  rwa [hl.1] at h

/-- What a layer makes of a content, if its stage accepts it. -/
theorem Holds.layered {l : Layer} {last : Bytes} (h : s.Holds content) (hl : Fresh l)
    (hf : l.stage.finish content = .ok last) :
    (s.layered l).Holds (l.stage.update [] content ++ last) := by
  refine ⟨h.steady, ?_⟩
  rw [script_layered hl, h.script_eq, Stage.script_ofBytes, List.nil_append, Stage.verdict, hf,
    Script.ofBytes_append]

theorem Reaches.of_layered {l : Layer} {u : Stream} (h : u.Reaches t) (hu : u = s.layered l)
    (hs : s.Steady) :
    ∃ l' s', t = s'.layered l' ∧ l'.stage = l.stage ∧ s.Reaches s' ∧
      ∀ {total : Bytes}, l.Tracks total s.script → l'.Tracks total s'.script := by
  -- Each read leaves a layer of the same stage over what the stream below has become.
  induction h generalizing l s with
  | refl => exact ⟨l, s, hu, rfl, .refl, id⟩
  | @step u t a ha _ ih =>
    subst hu
    obtain ⟨l₁, below₁, heq, hstage, hreach, htracks⟩ :=
      Stack.read_layered l (hs : s.stack.Steady) ha
    let s₁ : Stream := ⟨s.depth, below₁⟩
    have hread : ((s.layered l).read a).2 = s₁.layered l₁ := by
      show (⟨s.depth + 1, ((Stack.layered l s.stack).read a).2⟩ : Stream) = _
      rw [heq]
      rfl
    have hs₁ : s.Reaches s₁ := .of_stack hreach
    obtain ⟨l', s', rfl, hstage', hreach', htracks'⟩ := ih hread (hs₁.steady hs)
    exact ⟨l', s', rfl, hstage'.trans hstage, hs₁.trans hreach', fun ht => htracks' (htracks ht)⟩

theorem tracks_of_fresh {l : Layer} (hl : Fresh l) (h : s.Holds content) : l.Tracks content s.script where
  total := by rw [hl.1, h.script_eq, Script.content_ofBytes, List.nil_append]
  ended he := absurd (hl.2.2.symm.trans he) nofun
  short he := absurd (hl.2.2.symm.trans he) nofun

/-! ## What layers know -/

/-- A digesting layer from which everything was read knows the digest of the
content, and everything was read from below it too. -/
theorem digest_of_reaches {l : Layer} (hl : Fresh l) (hd : l.stage = .digest) (h : s.Holds content)
    (hr : (s.layered l).Reaches t) (ht : t.script = []) :
    t.digest = Md5.hex content ∧ s.Reaches t.below ∧ t.below.script = [] := by
  obtain ⟨l', s', rfl, hstage, hreach, htracks⟩ := hr.of_layered rfl h.steady
  have htrack := htracks (tracks_of_fresh hl h)
  have hbelow : s'.script = [] := by
    have hnone : (if l'.exhausted then [] else l'.stage.script l'.seen s'.script) = [] :=
      (List.append_eq_nil_iff.mp ht).2
    by_cases he : l'.exhausted = true
    · exact htrack.ended he
    · rwa [if_neg he, hstage, hd, Stage.script_digest] at hnone
  have hseen : l'.seen = content := by
    have := htrack.total
    rwa [hbelow, Script.content_nil, List.append_nil] at this
  exact ⟨congrArg Md5.hex hseen, hreach, hbelow⟩

theorem below_of_exhausted {l : Layer} (hl : Fresh l) (h : s.Holds content) (hr : (s.layered l).Reaches t)
    (ht : t.exhausted = true) : t.below.script = [] := by
  obtain ⟨l', s', rfl, -, -, htracks⟩ := hr.of_layered rfl h.steady
  exact (htracks (tracks_of_fresh hl h)).ended ht

/-- The end of a content has been met, and its envelope is known, exactly once
less than a tag is left to be handed out. -/
theorem envelope_of_reaches {l : Layer} {e : Encoder} (hl : Fresh l) (he : l.stage = .encode e)
    (h : s.Holds content) (hr : (s.layered l).Reaches t) :
    s.Reaches t.below ∧ (t.exhausted = true ↔ t.script.content.length < tagSize) ∧
      t.envelope = if t.exhausted then .ok (e.envelope content) else .error (.transform .notDrained) := by
  obtain ⟨l', s', rfl, hstage, hreach, htracks⟩ := hr.of_layered rfl h.steady
  have htrack := htracks (tracks_of_fresh hl h)
  have hscript : (s'.layered l').script = l'.script s'.script := rfl
  -- As long as the layer is not exhausted, all of its tag is still to come.
  have hlen := Stage.tagSize_le_length_script e l'.seen s'.script
  obtain ⟨stage, closesSource, seen, pending, exhausted, closed⟩ := l'
  obtain rfl : stage = .encode e := hstage.trans he
  refine ⟨hreach, ?_, ?_⟩
  · rw [hscript]
    cases exhausted with
    | true =>
      have hshort : pending.length ≤ tagSize - 1 := htrack.short rfl
      refine ⟨fun _ => ?_, fun _ => rfl⟩
      simp only [Layer.script, if_true, List.append_nil, Script.content_ofBytes]
      exact Nat.lt_of_le_of_lt hshort (by decide)
    | false =>
      refine ⟨Bool.noConfusion, fun hlt => absurd hlt (Nat.not_lt.mpr ?_)⟩
      simp only [Layer.script, Script.content_append, List.length_append, Bool.false_eq_true, if_false]
      exact Nat.le_trans hlen (Nat.le_add_left _ _)
  · cases exhausted with
    | true =>
      have hseen : seen = content := by
        have htotal : seen ++ s'.script.content = content := htrack.total
        rwa [htrack.ended rfl, Script.content_nil, List.append_nil] at htotal
      exact congrArg (fun b => Except.ok (e.envelope b)) hseen
    | false => rfl

/-! ## What a content is read as -/

/-- However a stream is read, it hands out the content and nothing else, and
all of it once it is read to its end. -/
def Serves (s : Stream) (content : Bytes) : Prop :=
  ∀ plan : List Amount, (∀ a ∈ plan, a.Positive) →
    ∃ pieces left, (s.readAll plan).1 = pieces.map .ok ∧ Cut plan content pieces left ∧
      ([] ∈ pieces ∨ .rest ∈ plan ∨ content.length < plan.length → pieces.flatten = content)

theorem Holds.serves (h : s.Holds content) : s.Serves content := by
  intro plan hplan
  obtain ⟨pieces, left, hresults, -, hcut⟩ := h.cut hplan
  refine ⟨pieces, left, hresults, hcut, fun hend => ?_⟩
  have hleft : left = [] := by
    rcases hend with hend | hend | hend
    · exact hcut.left_eq_nil (.inl hend)
    · exact hcut.left_eq_nil (.inr hend)
    · exact hcut.left_eq_nil_of_length hend
  have hall := hcut.flatten_append
  rwa [hleft, List.append_nil] at hall

end Stream

end SealedStore
