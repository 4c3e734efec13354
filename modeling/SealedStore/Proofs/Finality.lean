import SealedStore.Proofs.Contents
/-!
# Verdicts at the end of a stream

A layer that decodes or verifies gives its verdict when the stream below it has
ended, and counts as exhausted from then on, whatever the verdict is. So a
content is refused once: the read that meets the end raises, and all reads after
it come back empty, as they do at the end of a content that was accepted. Where
the fault came from below, the layer still has its own verdict to give, and is
then as silent as the others.

What is proved:
  1. `Layer.Fills.of_error` — what a layer is like that has raised.
  2. `Layer.readSome_spent`, `Layer.readRest_spent` — reads after the verdict.
  3. `Layer.readSome_ended`, `Layer.readRest_ended` — the verdict itself.
  4. `Stream.refused_once` — reads one after the other, before and after.
-/

namespace SealedStore

/-- A stage that emits nothing of its own at the end. -/
def Stage.Bare (stage : Stage) : Prop := ∀ seen b, stage.finish seen = .ok b → b = []

/-! ## Layers that have raised -/

namespace Layer
variable {σ : Type} {pull : σ → Except Error Bytes × σ} {l l' : Layer} {s s' : σ} {e : Error}

/-- A layer has given its verdict and has nothing to hand out. -/
def Spent (l : Layer) : Prop := l.pending = [] ∧ l.exhausted = true

/-- How a layer comes to raise: its stage refuses what it has seen, or the
stream below has raised. -/
inductive Fails (pull : σ → Except Error Bytes × σ) (e : Error) (l' : Layer) (s' : σ) : Prop
  | refused (h : l'.Spent) (hf : l'.stage.finish l'.seen = .error e)
  | below (h : l'.Idle) (u : σ) (hp : pull u = (.error e, s'))

theorem Fills.of_error {r : Except Error Unit} (h : Fills pull l s r l' s') (hr : r = .error e) :
    Fails pull e l' s' := by
  induction h with
  | ready | last => cases hr
  | fault h hp =>
    cases hr
    exact .below h _ hp
  | refused h _ hf =>
    cases hr
    exact .refused ⟨h.1, rfl⟩ hf
  | more _ _ _ _ ih => exact ih hr

theorem readSome_error {n : Nat} (h : readSome pull n l s = (.error e, l', s')) : Fails pull e l' s' := by
  have hfills := fills_readSome pull l s
  unfold readSome at h
  generalize fill pull (l.stage.slack + 2) l s = out at hfills h
  obtain ⟨r, l₁, s₁⟩ := out
  cases r with
  | error e =>
    cases h
    exact hfills.of_error rfl
  | ok => cases h

theorem readSome_stage_eq (pull : σ → Except Error Bytes × σ) (n : Nat) (l : Layer) (s : σ) :
    (readSome pull n l s).2.1.stage = l.stage := by
  have hfills := fills_readSome pull l s
  unfold readSome
  generalize fill pull (l.stage.slack + 2) l s = out at hfills
  obtain ⟨r, l₁, s₁⟩ := out
  cases r with
  | error | ok => exact hfills.stage_eq

theorem readRest_stage_eq (pull : σ → Except Error Bytes × σ) (reads : Nat) (before : Bytes) (l : Layer) (s : σ) :
    (readRest pull reads before l s).2.1.stage = l.stage := by
  induction reads generalizing before l s with
  | zero => rfl
  | succ reads ih =>
    have hstage := readSome_stage_eq pull bufferSize l s
    unfold readRest
    split
    · next hsome => rwa [hsome] at hstage
    · next hsome => rwa [hsome] at hstage
    · next hsome =>
      rw [hsome] at hstage
      exact (ih _ _ _).trans hstage

theorem readRest_error {reads : Nat} {before : Bytes}
    (h : readRest pull reads before l s = (.error e, l', s')) : Fails pull e l' s' := by
  induction reads generalizing before l s with
  | zero => cases h
  | succ reads ih =>
    unfold readRest at h
    split at h
    · next hsome =>
      cases h
      exact readSome_error hsome
    · cases h
    · exact ih h

/-! ### Reads after the verdict -/

theorem fill_spent (rounds : Nat) (h : l.Spent) (s : σ) : fill pull rounds l s = (.ok (), l, s) := by
  cases rounds with
  | zero => rfl
  | succ rounds =>
    unfold fill
    rw [h.2, Bool.or_true, if_pos rfl]

theorem readSome_spent (n : Nat) (h : l.Spent) (s : σ) : readSome pull n l s = (.ok [], l, s) := by
  rw [readSome, fill_spent _ h]
  obtain ⟨stage, closesSource, seen, pending, exhausted, closed⟩ := l
  obtain rfl : pending = [] := h.1
  simp only [List.take_nil, List.drop_nil]

theorem readRest_spent (reads : Nat) (h : l.Spent) (s : σ) :
    readRest pull (reads + 1) [] l s = (.ok [], l, s) := by
  rw [readRest, readSome_spent _ h]

/-! ### The verdict -/

def concluded (l : Layer) : Layer := { l with exhausted := true }

theorem spent_concluded (h : l.Idle) : l.concluded.Spent := ⟨h.1, rfl⟩

theorem readSome_ended (hbare : l.stage.Bare) (h : l.Idle) (hp : pull s = (.ok [], s)) (n : Nat) :
    readSome pull n l s = (l.stage.finish l.seen, l.concluded, s) := by
  obtain ⟨stage, closesSource, seen, pending, exhausted, closed⟩ := l
  obtain ⟨rfl, rfl⟩ : pending = [] ∧ exhausted = false := h
  cases hf : stage.finish seen with
  | error e =>
    simp only [readSome, fill, hp, hf, concluded, List.isEmpty_nil, Bool.not_true, Bool.or_false,
      Bool.false_eq_true, if_false]
  | ok b =>
    obtain rfl := hbare seen b hf
    simp only [readSome, fill, hp, hf, concluded, List.isEmpty_nil, Bool.not_true, Bool.or_false,
      Bool.false_eq_true, if_false, List.take_nil, List.drop_nil]

theorem readRest_ended (hbare : l.stage.Bare) (h : l.Idle) (hp : pull s = (.ok [], s)) (reads : Nat) :
    readRest pull (reads + 1) [] l s = (l.stage.finish l.seen, l.concluded, s) := by
  rw [readRest, readSome_ended hbare h hp]
  cases hf : l.stage.finish l.seen with
  | error e => rfl
  | ok b =>
    obtain rfl := hbare l.seen b hf
    rfl

end Layer

/-! ## Streams -/

namespace Stream
variable {s t : Stream} {l : Layer} {e : Error}

/-- Every read comes back empty and changes nothing. -/
def Silent (s : Stream) : Prop := ∀ a, s.read a = (.ok [], s)

theorem Silent.readAll (h : s.Silent) (plan : List Amount) :
    s.readAll plan = (plan.map fun _ => .ok [], s) := by
  induction plan with
  | nil => rfl
  | cons a plan ih => simp only [Stream.readAll, h a, ih, List.map_cons]

theorem readAll_append (s : Stream) (plan more : List Amount) :
    s.readAll (plan ++ more) =
      ((s.readAll plan).1 ++ ((s.readAll plan).2.readAll more).1, ((s.readAll plan).2.readAll more).2) := by
  induction plan generalizing s with
  | nil => rfl
  | cons a plan ih => simp only [List.cons_append, readAll, ih]

/-- A read of a layered stream is one of the reads of its layer. -/
inductive LayerRead (l : Layer) (s : Stream) : Except Error Bytes × Layer × Stack s.depth → Prop
  | some (n : Nat) : LayerRead l s (l.readSome Stack.pull n s.stack)
  | rest (reads : Nat) : LayerRead l s (l.readRest Stack.pull (reads + 1) [] s.stack)

theorem read_layered (s : Stream) (l : Layer) (a : Amount) :
    ∃ r l' below, LayerRead l s (r, l', below) ∧
      (s.layered l).read a = (r, (⟨s.depth, below⟩ : Stream).layered l') := by
  cases a with
  | atMost n => exact ⟨_, _, _, .some n, rfl⟩
  | rest => exact ⟨_, _, _, .rest (l.pending.length + l.stage.slack + s.stack.remaining), rfl⟩

theorem LayerRead.stage_eq {r : Except Error Bytes} {l' : Layer} {below : Stack s.depth}
    (h : LayerRead l s (r, l', below)) : l'.stage = l.stage := by
  generalize hout : (r, l', below) = out at h
  cases h with
  | some n =>
    have hstage := Layer.readSome_stage_eq Stack.pull n l s.stack
    rwa [← hout] at hstage
  | rest reads =>
    have hstage := Layer.readRest_stage_eq Stack.pull (reads + 1) [] l s.stack
    rwa [← hout] at hstage

theorem LayerRead.fails {l' : Layer} {below : Stack s.depth} (h : LayerRead l s (.error e, l', below)) :
    Layer.Fails Stack.pull e l' below := by
  generalize hout : (Except.error e, l', below) = out at h
  cases h with
  | some n => exact Layer.readSome_error hout.symm
  | rest reads => exact Layer.readRest_error hout.symm

theorem readAll_layered (s : Stream) (l : Layer) (plan : List Amount) :
    ∃ l' s', ((s.layered l).readAll plan).2 = layered l' s' ∧ l'.stage = l.stage := by
  induction plan generalizing s l with
  | nil => exact ⟨l, s, rfl, rfl⟩
  | cons a plan ih =>
    obtain ⟨r, l₁, below, hlayer, hread⟩ := s.read_layered l a
    obtain ⟨l₂, s₂, hall, hstage⟩ := ih ⟨s.depth, below⟩ l₁
    refine ⟨l₂, s₂, ?_, hstage.trans hlayer.stage_eq⟩
    simp only [readAll, hread, hall]

theorem silent_of_spent (h : l.Spent) (s : Stream) : (s.layered l).Silent := by
  intro a
  obtain ⟨r, l', below, hlayer, hread⟩ := s.read_layered l a
  rw [hread]
  generalize hout : (r, l', below) = out at hlayer
  cases hlayer with
  | some n =>
    rw [Layer.readSome_spent n h] at hout
    cases hout
    rfl
  | rest reads =>
    rw [Layer.readRest_spent reads h] at hout
    cases hout
    rfl

/-- Over a stream that has ended a read gives the verdict. -/
theorem read_ended (hbare : l.stage.Bare) (h : l.Idle) (hs : s.Silent) (a : Amount) :
    (s.layered l).read a = (l.stage.finish l.seen, s.layered l.concluded) := by
  -- A pull is one of the reads that change nothing.
  have hpull : s.stack.pull = (.ok [], s.stack) := by
    have hread := hs (.atMost chunkSize)
    have hsame : (⟨s.depth, s.stack.pull.2⟩ : Stream) = ⟨s.depth, s.stack⟩ := congrArg Prod.snd hread
    injection hsame with _ hstack
    have hreply : s.stack.pull.1 = .ok [] := congrArg Prod.fst hread
    exact Prod.ext hreply hstack
  obtain ⟨r, l', below, hlayer, hread⟩ := s.read_layered l a
  rw [hread]
  generalize hout : (r, l', below) = out at hlayer
  cases hlayer with
  | some n =>
    rw [Layer.readSome_ended hbare h hpull] at hout
    cases hout
    rfl
  | rest reads =>
    rw [Layer.readRest_ended hbare h hpull] at hout
    cases hout
    rfl

theorem readAll_ended (hbare : l.stage.Bare) (h : l.Idle) (hs : s.Silent) (a : Amount) (plan : List Amount) :
    ((s.layered l).readAll (a :: plan)).1 = l.stage.finish l.seen :: plan.map fun _ => .ok [] := by
  have hsilent := silent_of_spent (Layer.spent_concluded h) s
  simp only [readAll, read_ended hbare h hs, hsilent.readAll]

end Stream

/-! ## Refusals -/

/-- A stage that may refuse a content: it decodes it or verifies its digest. -/
def Stage.checks : Stage → Bool
  | .decode _ | .verify _ => true
  | .plain | .digest | .encode _ => false

/-- What checks a content and hands it on adds nothing to it. -/
theorem Stage.bare_of_checks {stage : Stage} (h : stage.checks = true) : stage.Bare := by
  intro seen b hb
  cases stage with
  | decode d =>
    cases hcheck : d.check seen with
    | ok =>
      simp only [finish, hcheck] at hb
      exact (Except.ok.inj hb).symm
    | error fault =>
      simp only [finish, hcheck] at hb
      have hrefused : Except.error (Error.transform fault) = Except.ok b := hb
      cases hrefused
  | verify etag =>
    simp only [finish] at hb
    split at hb
    · exact (Except.ok.inj hb).symm
    · cases hb
  | plain | digest | encode => cases h

namespace Stream
variable {l : Layer}

/-- A layer that decodes or verifies a content, over any stream, is read in any
amounts until a read raises. If the layer is exhausted then, its stage has
refused the content, and every later read comes back empty, as at the end of a
content that was accepted. If it is not, the stream below has raised; where that
stream is silent from then on, the next read gives the verdict of the layer, and
all reads after that one come back empty, whatever the verdict was. -/
theorem refused_once (hchecks : l.stage.checks = true) (s : Stream) (before : List Amount) (a : Amount) {e : Error}
    (he : (((s.layered l).readAll before).2.read a).1 = .error e) :
    let t := (((s.layered l).readAll before).2.read a).2
    let earlier := ((s.layered l).readAll before).1
    ∃ top : Layer, t.top? = some top ∧
    (t.exhausted = true → l.stage.finish top.seen = .error e ∧
      ∀ after, ((s.layered l).readAll (before ++ a :: after)).1 =
        earlier ++ .error e :: after.map fun _ => .ok []) ∧
    (t.exhausted = false → (∃ u : Stream, u.read (.atMost chunkSize) = (.error e, t.below)) ∧
      (t.below.Silent → ∀ next after, ((s.layered l).readAll (before ++ a :: next :: after)).1 =
        earlier ++ .error e :: l.stage.finish top.seen :: after.map fun _ => .ok [])) := by
  intro t earlier
  have hbare := Stage.bare_of_checks hchecks
  -- Up to the read that raises, there is a layer of this stage over some stream.
  obtain ⟨l₁, s₁, hbefore, hstage⟩ := s.readAll_layered l before
  obtain ⟨r, l₂, below, hlayer, hread⟩ := s₁.read_layered l₁ a
  have hr : r = .error e := by
    rw [hbefore, hread] at he
    exact he
  subst hr
  let s₂ : Stream := ⟨s₁.depth, below⟩
  have ht : t = s₂.layered l₂ := by
    show (((s.layered l).readAll before).2.read a).2 = _
    rw [hbefore, hread]
  have hresults : ∀ after, ((s.layered l).readAll (before ++ a :: after)).1 =
      earlier ++ .error e :: ((s₂.layered l₂).readAll after).1 := by
    intro after
    rw [readAll_append, hbefore]
    simp only [readAll, hread, earlier, s₂]
  have hstage₂ : l₂.stage = l.stage := hlayer.stage_eq.trans hstage
  rw [ht]
  refine ⟨l₂, rfl, fun hexhausted => ?_, fun hexhausted => ?_⟩
  · -- An exhausted layer has met the end, so that the fault is its own.
    cases hlayer.fails with
    | refused hspent hf =>
      refine ⟨hstage₂ ▸ hf, fun after => ?_⟩
      rw [hresults, (silent_of_spent hspent s₂).readAll]
    | below hidle => cases hidle.2.symm.trans hexhausted
  · -- Otherwise it came from below.
    cases hlayer.fails with
    | refused hspent => cases hspent.2.symm.trans hexhausted
    | below hidle u hu =>
      refine ⟨⟨⟨s₁.depth, u⟩, ?_⟩, fun hsilent next after => ?_⟩
      · show (u.pull.1, (⟨s₁.depth, u.pull.2⟩ : Stream)) = (.error e, ⟨s₁.depth, below⟩)
        rw [show u.pull = (.error e, below) from hu]
      · have hsilent : s₂.Silent := hsilent
        rw [hresults, readAll_ended (hstage₂ ▸ hbare) hidle hsilent, hstage₂]

/-- Three bytes are refused since they hold no tag, by the first read alone. -/
theorem refused_once_three :
    let envelope : Envelope :=
      { mode := Envelope.aesGcm, wrappedKey := [], masterKeyId := "", iv := List.replicate 12 0 }
    let d : Decoder := { dataKey := ⟨List.replicate 16 0⟩, envelope }
    (((ofBytes [1, 2, 3]).layered { stage := .decode d }).readAll [.atMost 4, .rest, .atMost 1]).1 =
      [.error (.transform .truncated), .ok [], .ok []] := by
  intro envelope d
  have he : ((((ofBytes [1, 2, 3]).layered { stage := .decode d }).readAll []).2.read (.atMost 4)).1 =
      .error (.transform .truncated) := by rfl
  obtain ⟨top, -, hrefused, -⟩ :=
    refused_once (l := { stage := .decode d }) rfl (ofBytes [1, 2, 3]) [] (.atMost 4) he
  exact (hrefused (by rfl)).2 [.rest, .atMost 1]

/-- Bytes that are neither what was stored nor a content that was encrypted:
both layers refuse them, one read after the other, and the third read says that
this was all. -/
theorem third_read_empty :
    let envelope : Envelope :=
      { mode := Envelope.aesGcm, wrappedKey := [], masterKeyId := "", iv := List.replicate 12 0 }
    let d : Decoder := { dataKey := ⟨List.replicate 16 0⟩, envelope }
    let stored := (ofBytes [1, 2, 3]).layered { stage := .verify "0" }
    ((stored.layered { stage := .decode d }).readAll [.rest, .rest, .rest]).1.map Except.toOption =
      [none, none, some []] := by
  decide +kernel

end Stream

end SealedStore
