import SealedStore.Proofs.Resuming
/-!
# Reads of any amount

A read may ask for nothing. It still makes a layer read on, so that it can bring
a stream to its end and meet a fault, and it comes back empty although there is
more to come. What has been handed out and what is left make up the content all
the same, unless a fault has lost some of it. A layer that does not check its
content adds no fault of its own, and leaves the stream below it as some reads
of that stream leave it.

What is proved:
  1. `Stack.read_took`, `Stream.readAll_content` — what reads hand out and leave.
  2. `Layer.readSome_passes`, `Stream.readAll_passes` — what a layer has seen,
     and how little an exhausted one has left.
  3. `Stream.readAll_below` — reads of a layer, as reads of what lies below it.
-/

namespace SealedStore

/-! ## Scripts -/

namespace Script

/-- What a read of any amount makes of a script: it returns what comes first, or
meets a fault and loses what it has read before. -/
inductive Took : Script → Except Error Bytes → Script → Prop
  | piece {b : Bytes} {rest : Script} : Took (ofBytes b ++ rest) (.ok b) rest
  | fault {b : Bytes} {e : Error} {rest : Script} : Took (ofBytes b ++ .error e :: rest) (.error e) rest

theorem Read.took {a : Amount} {s t : Script} {r : Except Error Bytes} (h : Read a s r t) : Took s r t := by
  cases r with
  | ok b =>
    rw [h.of_ok]
    exact .piece
  | error e =>
    cases h with
    | fault => exact .fault (b := [])
    | broken => exact .fault

namespace Took
variable {s t : Script} {r : Except Error Bytes} {b : Bytes}

theorem of_ok (h : Took s (.ok b) t) : s = ofBytes b ++ t := by
  cases h
  rfl

theorem content_sublist (h : Took s r t) : ((ofResult r).content ++ t.content).Sublist s.content := by
  cases h with
  | piece =>
    rw [content_append]
    exact .refl _
  | fault =>
    rw [content_append]
    exact List.sublist_append_right _ _

end Took

end Script

theorem handedOut_cons (r : Except Error Bytes) (results : List (Except Error Bytes)) :
    handedOut (r :: results) = (Script.ofResult r).content ++ handedOut results := by
  rw [← Script.content_results, List.flatMap_cons, Script.content_append, Script.content_results]

theorem raised_cons (r : Except Error Bytes) (results : List (Except Error Bytes)) :
    raised (r :: results) = (errorOf? r).toList ++ raised results := by
  cases r with
  | ok b => rfl
  | error e => rfl

theorem raised_append (results more : List (Except Error Bytes)) :
    raised (results ++ more) = raised results ++ raised more := List.filterMap_append

/-! ## Sources -/

/-- A read of nothing leaves a source as it is, but for a fault, or an empty
chunk, that comes first. -/
theorem Source.readSome_took (n : Nat) {l : List Chunk} (h : Chunk.Steady l) :
    Chunk.Steady (readSome n l).2 ∧
      Script.Took (Chunk.script l) (readSome n l).1 (Chunk.script (readSome n l).2) := by
  rcases Nat.eq_zero_or_pos n with rfl | hn
  · match l, h with
    | [], _ => exact ⟨trivial, .piece (b := [])⟩
    | .fault _ :: _, h => exact ⟨h, .fault (b := [])⟩
    | .data b :: rest, h =>
      by_cases hlt : 0 < b.length
      · rw [readSome, if_pos hlt]
        exact ⟨h, .piece (b := [])⟩
      · rw [readSome, if_neg hlt]
        exact ⟨h.2, .piece⟩
  · obtain ⟨hsteady, hread⟩ := readSome_follows hn h
    exact ⟨hsteady, hread.took⟩

/-! ## Layers -/

namespace Layer
variable {σ : Type}

/-- All that passes a layer is `total`; an exhausted layer has seen all of it, and
has no more to hand out than its stage adds. -/
structure Passes (l : Layer) (total : Bytes) (below : Script) : Prop where
  total : l.seen ++ below.content = total
  ended : l.exhausted = true → below = []
  short : l.exhausted = true → l.pending.length ≤ l.stage.slack

section
variable {pull : σ → Except Error Bytes × σ} {Good : σ → Prop} {view : σ → Script} {size : Nat}
  {l l' : Layer} {s s' : σ} {r : Except Error Unit} {total : Bytes}

theorem script_take (l : Layer) (n : Nat) (below : Script) :
    l.script below =
      Script.ofBytes (l.pending.take n) ++ Layer.script { l with pending := l.pending.drop n } below := by
  rw [script, script, ← List.append_assoc, ← Script.ofBytes_append, List.take_append_drop]

/-- Whatever a read asks for, it takes nothing of the script but what it returns,
or the fault that it meets. -/
theorem readSome_took (n : Nat) (hf : Follows pull Good view size) (hg : Good s) :
    Script.Took (l.script (view s)) (l.readSome pull n s).1
      ((l.readSome pull n s).2.1.script (view (l.readSome pull n s).2.2)) := by
  have h := fills_readSome pull l s
  unfold readSome
  generalize fill pull (l.stage.slack + 2) l s = out at h
  obtain ⟨r, l', s'⟩ := out
  -- Filling up takes nothing of the script; what is cut off afterwards stands at its head.
  rw [h.script_eq hf hg]
  cases r with
  | error e => exact .fault (b := [])
  | ok =>
    show Script.Took (l'.script (view s')) _ _
    rw [l'.script_take n]
    exact .piece

theorem Fills.passes (hf : Follows pull Good view size) (h : Fills pull l s r l' s') (hg : Good s)
    (hp : l.Passes total (view s)) : l'.Passes total (view s') := by
  refine ⟨(h.seen_eq hf hg).trans hp.total, fun he => ?_, fun he => ?_⟩
  · rcases h.ended hf hg he with ⟨rfl, rfl⟩ | ⟨hview, -⟩
    · exact hp.ended he
    · exact hview
  · rcases h.ended hf hg he with ⟨rfl, rfl⟩ | ⟨-, hshort⟩
    · exact hp.short he
    · exact hshort

theorem readSome_passes (n : Nat) (hf : Follows pull Good view size) (hg : Good s)
    (hp : l.Passes total (view s)) :
    Good (l.readSome pull n s).2.2 ∧
      (l.readSome pull n s).2.1.Passes total (view (l.readSome pull n s).2.2) := by
  have h := fills_readSome pull l s
  unfold readSome
  generalize fill pull (l.stage.slack + 2) l s = out at h
  obtain ⟨r, l', s'⟩ := out
  have hgood : Good s' := h.pulled.good hf hg
  have hpasses : l'.Passes total (view s') := h.passes hf hg hp
  cases r with
  | error e => exact ⟨hgood, hpasses⟩
  | ok =>
    refine ⟨hgood, hpasses.total, hpasses.ended, fun he => ?_⟩
    have hshort : l'.pending.length ≤ l'.stage.slack := hpasses.short he
    show (l'.pending.drop n).length ≤ l'.stage.slack
    rw [List.length_drop]
    omega

theorem readRest_passes (hf : Follows pull Good view size) (reads : Nat) (before : Bytes) (hg : Good s)
    (hp : l.Passes total (view s)) :
    Good (l.readRest pull reads before s).2.2 ∧
      (l.readRest pull reads before s).2.1.Passes total (view (l.readRest pull reads before s).2.2) := by
  induction reads generalizing before l s with
  | zero => exact ⟨hg, hp⟩
  | succ reads ih =>
    obtain ⟨hgood, hpasses⟩ := readSome_passes bufferSize hf hg hp
    unfold readRest
    generalize l.readSome pull bufferSize s = out at hgood hpasses
    obtain ⟨r, l', s'⟩ := out
    cases r with
    | error e => exact ⟨hgood, hpasses⟩
    | ok piece =>
      cases piece with
      | nil => exact ⟨hgood, hpasses⟩
      | cons x piece => exact ih (before ++ x :: piece) hgood hpasses

end

end Layer

/-! ## Stacks -/

theorem Stack.read_took {n : Nat} {s : Stack n} (h : s.Steady) (a : Amount) :
    (s.read a).2.Steady ∧ Script.Took s.script (s.read a).1 (s.read a).2.script := by
  cases a with
  | rest =>
    obtain ⟨hsteady, hread⟩ := read_follows (a := .rest) h trivial
    exact ⟨hsteady, hread.took⟩
  | atMost k =>
    cases s with
    | source s =>
      obtain ⟨chunks, closed⟩ := s
      obtain ⟨rfl, hchunks⟩ : closed = false ∧ Chunk.Steady chunks := h
      obtain ⟨hsteady, htook⟩ := Source.readSome_took k hchunks
      exact ⟨⟨rfl, hsteady⟩, htook⟩
    | layered l below =>
      have hfills := Layer.fills_readSome pull l below
      have hgood : (l.readSome pull k below).2.2.Steady := by
        unfold Layer.readSome
        generalize Layer.fill pull (l.stage.slack + 2) l below = out at hfills
        obtain ⟨r, l', below'⟩ := out
        cases r <;> exact hfills.pulled.good follows h
      exact ⟨hgood, Layer.readSome_took k follows h⟩

/-! ## Streams -/

namespace Stream
variable {s : Stream}

theorem read_took (h : s.Steady) (a : Amount) :
    (s.read a).2.Steady ∧ Script.Took s.script (s.read a).1 (s.read a).2.script := Stack.read_took h a

theorem readAll_steady (h : s.Steady) (plan : List Amount) : (s.readAll plan).2.Steady := by
  induction plan generalizing s with
  | nil => exact h
  | cons a plan ih => exact ih (read_took h a).1

/-- What reads have handed out and what they leave come from the content in this
order, and make it up if none of them has raised. -/
theorem readAll_content (h : s.Steady) (plan : List Amount) :
    (handedOut (s.readAll plan).1 ++ (s.readAll plan).2.script.content).Sublist s.script.content ∧
      (raised (s.readAll plan).1 = [] →
        handedOut (s.readAll plan).1 ++ (s.readAll plan).2.script.content = s.script.content) := by
  induction plan generalizing s with
  | nil => exact ⟨.refl _, fun _ => rfl⟩
  | cons a plan ih =>
    obtain ⟨hsteady, htook⟩ := read_took h a
    obtain ⟨hsub, hall⟩ := ih hsteady
    rw [readAll_cons, handedOut_cons, List.append_assoc]
    refine ⟨(List.Sublist.append_left hsub _).trans htook.content_sublist, fun hcalm => ?_⟩
    generalize hr : (s.read a).1 = r at htook hcalm
    cases r with
    | error e => cases hcalm
    | ok b =>
      have hsplit : s.script = Script.ofBytes b ++ (s.read a).2.script := htook.of_ok
      rw [hall hcalm, hsplit, Script.content_append]
      rfl

theorem Holds.raised_eq {content : Bytes} (h : s.Holds content) (plan : List Amount) :
    raised (s.readAll plan).1 = [] := by
  induction plan generalizing s content with
  | nil => rfl
  | cons a plan ih =>
    obtain ⟨hsteady, htook⟩ := read_took h.steady a
    rw [h.script_eq] at htook
    generalize hr : (s.read a).1 = r at htook
    generalize ht : (s.read a).2.script = t at htook
    rw [readAll_cons, raised_cons, hr]
    generalize hc : Script.ofBytes content = c at htook
    cases htook with
    | piece =>
      obtain ⟨b, left, rfl, -, hleft⟩ := List.map_eq_append_iff.mp hc
      have hheld : (s.read a).2.Holds left := ⟨hsteady, ht.trans hleft.symm⟩
      exact ih hheld
    | fault =>
      obtain ⟨b, left, rfl, -, hleft⟩ := List.map_eq_append_iff.mp hc
      cases left <;> simp at hleft

/-! ### Layered streams -/

theorem readAll_passes {l : Layer} {total : Bytes} (h : s.Steady) (hp : l.Passes total s.script)
    (plan : List Amount) :
    ∃ l' s', ((s.layered l).readAll plan).2 = layered l' s' ∧ l'.stage = l.stage ∧
      l'.Passes total s'.script := by
  induction plan generalizing s l with
  | nil => exact ⟨l, s, rfl, rfl, hp⟩
  | cons a plan ih =>
    obtain ⟨r, l₁, below, hlayer, hread⟩ := s.read_layered l a
    have hpassed : Stack.Steady below ∧ l₁.Passes total below.script := by
      generalize hout : (r, l₁, below) = out at hlayer
      cases hlayer with
      | some n =>
        have hsome := Layer.readSome_passes n Stack.follows h hp
        rwa [← hout] at hsome
      | rest reads =>
        have hrest := Layer.readRest_passes Stack.follows (reads + 1) [] h hp
        rwa [← hout] at hrest
    obtain ⟨l₂, s₂, hall, hstage, hpasses⟩ := ih (s := ⟨s.depth, below⟩) hpassed.1 hpassed.2
    refine ⟨l₂, s₂, ?_, hstage.trans hlayer.stage_eq, hpasses⟩
    simp only [readAll, hread, hall]

theorem passes_of_fresh {l : Layer} (hl : Fresh l) (s : Stream) : l.Passes s.script.content s.script where
  total := by rw [hl.1, List.nil_append]
  ended he := absurd (hl.2.2.symm.trans he) nofun
  short he := absurd (hl.2.2.symm.trans he) nofun

end Stream

/-! ## Reads of what lies below -/

theorem Stage.finish_of_not_checks {stage : Stage} (h : stage.checks = false) (seen : Bytes) :
    ∃ last, stage.finish seen = .ok last := by
  cases stage with
  | plain | digest | encode => exact ⟨_, rfl⟩
  | decode | verify => cases h

/-- Some reads of `s` raise what was raised, and leave `t`. -/
def Stream.Explains (s : Stream) (errors : List Error) (t : Stream) : Prop :=
  ∃ plan, (s.readAll plan).2 = t ∧ raised (s.readAll plan).1 = errors

namespace Stream.Explains
variable {s t u : Stream} {errors more : List Error}

theorem refl : s.Explains [] s := ⟨[], rfl, rfl⟩

theorem trans (h : s.Explains errors t) (h' : t.Explains more u) : s.Explains (errors ++ more) u := by
  obtain ⟨plan, rfl, rfl⟩ := h
  obtain ⟨rest, rfl, rfl⟩ := h'
  exact ⟨plan ++ rest, by rw [readAll_append], by rw [readAll_append, raised_append]⟩

end Stream.Explains

namespace Layer
variable {n : Nat} {l l' : Layer} {s s' : Stack n}

theorem explains_pull {r : Except Error Bytes} (hp : s.pull = (r, s')) :
    (⟨n, s⟩ : Stream).Explains (errorOf? r).toList ⟨n, s'⟩ := by
  have hread : (⟨n, s⟩ : Stream).readAll [.atMost chunkSize] = ([s.pull.1], ⟨n, s.pull.2⟩) := rfl
  refine ⟨[.atMost chunkSize], ?_, ?_⟩
  · rw [hread, hp]
  · rw [hread, hp, raised_cons]
    exact List.append_nil _

/-- Reading on, a layer without checks raises what the stream below raises. -/
theorem Fills.explains {r : Except Error Unit} (h : Fills Stack.pull l s r l' s')
    (hl : l.stage.checks = false) : (⟨n, s⟩ : Stream).Explains (errorOf? r).toList ⟨n, s'⟩ := by
  -- By the rounds of the layer, each of which is one read of what lies below.
  induction h with
  | ready => exact .refl
  | fault _ hp => exact explains_pull hp
  | refused _ _ hf =>
    obtain ⟨last, hlast⟩ := Stage.finish_of_not_checks hl _
    cases hf.symm.trans hlast
  | last _ hp => exact explains_pull hp
  | more _ hp _ _ ih => exact (explains_pull hp).trans (ih hl)

theorem readSome_explains (k : Nat) (hl : l.stage.checks = false) (s : Stack n) :
    (⟨n, s⟩ : Stream).Explains (errorOf? (l.readSome Stack.pull k s).1).toList
      ⟨n, (l.readSome Stack.pull k s).2.2⟩ := by
  have h := (fills_readSome Stack.pull l s).explains hl
  unfold readSome
  generalize fill Stack.pull (l.stage.slack + 2) l s = out at h
  obtain ⟨r, l', s'⟩ := out
  cases r with
  | error e => exact h
  | ok => exact h

theorem readRest_explains (reads : Nat) (before : Bytes) (hl : l.stage.checks = false) (s : Stack n) :
    (⟨n, s⟩ : Stream).Explains (errorOf? (l.readRest Stack.pull reads before s).1).toList
      ⟨n, (l.readRest Stack.pull reads before s).2.2⟩ := by
  induction reads generalizing before l s with
  | zero => exact .refl
  | succ reads ih =>
    have h := readSome_explains bufferSize hl s
    have hstage := readSome_stage_eq Stack.pull bufferSize l s
    unfold readRest
    generalize l.readSome Stack.pull bufferSize s = out at h hstage
    obtain ⟨r, l', s'⟩ := out
    cases r with
    | error e => exact h
    | ok piece =>
      cases piece with
      | nil => exact h
      | cons x piece =>
        have hl' : l'.stage.checks = false := by rw [hstage, hl]
        exact h.trans (ih (before ++ x :: piece) hl' s')

end Layer

/-- Whatever is read of a layer without checks, the stream below it is left as
some reads of its own leave it, which raise the same errors in the same order. -/
theorem Stream.readAll_below {l : Layer} (hl : l.stage.checks = false) (s : Stream) (plan : List Amount) :
    ∃ l' s', ((s.layered l).readAll plan).2 = layered l' s' ∧ l'.stage = l.stage ∧
      s.Explains (raised ((s.layered l).readAll plan).1) s' := by
  -- The layer changes, but not its stage, and no more is asked of it.
  induction plan generalizing s l with
  | nil => exact ⟨l, s, rfl, rfl, .refl⟩
  | cons a plan ih =>
    obtain ⟨r, l₁, below, hlayer, hread⟩ := s.read_layered l a
    have hbelow : s.Explains (errorOf? r).toList ⟨s.depth, below⟩ := by
      generalize hout : (r, l₁, below) = out at hlayer
      cases hlayer with
      | some n =>
        have hsome := Layer.readSome_explains n hl s.stack
        rwa [← hout] at hsome
      | rest reads =>
        have hrest := Layer.readRest_explains (reads + 1) [] hl s.stack
        rwa [← hout] at hrest
    have hstage₁ : l₁.stage = l.stage := hlayer.stage_eq
    obtain ⟨l₂, s₂, hall, hstage, hrest⟩ := ih (hstage₁ ▸ hl) (⟨s.depth, below⟩ : Stream)
    refine ⟨l₂, s₂, ?_, hstage.trans hstage₁, ?_⟩
    · simp only [readAll, hread, hall]
    · rw [readAll_cons, raised_cons, hread]
      exact hbelow.trans hrest

end SealedStore
