import SealedStore.Proofs.Script
/-!
# Streams follow their scripts

Reading a stream in any amounts gives what its script says and leaves the rest
of the script, whatever the layers between the reader and the source have
buffered and however their own reads fall. The rounds and reads by which layers
are bounded never run out.

What is proved:
  1. `Layer.fills_fill` — a layer that reads on stops only with something to
     hand out, at the end, or at a fault.
  2. `Layer.Fills.script_eq` — reading on changes nothing of what the layer
     will hand out.
  3. `Stack.read_follows` — every read of a stack of layers follows its script.
  4. `Stack.read_layered` — a layer that is exhausted has seen all there was.
-/

namespace SealedStore

/-! ## Sources -/

namespace Source

theorem readSome_follows {n : Nat} (hn : 0 < n) {l : List Chunk} (h : Chunk.Steady l) :
    Chunk.Steady (readSome n l).2 ∧
      Script.Read (.atMost n) (Chunk.script l) (readSome n l).1 (Chunk.script (readSome n l).2) := by
  match l, h with
  | [], _ => exact ⟨trivial, .ended⟩
  | .fault _ :: _, h => exact ⟨h, .fault⟩
  | .data b :: rest, ⟨hend, hrest⟩ =>
    by_cases hlt : n < b.length
    · have hsplit : Chunk.script (.data b :: rest) =
          Script.ofBytes (b.take n) ++ Chunk.script (.data (b.drop n) :: rest) := by
        rw [Chunk.script, Chunk.script, ← List.append_assoc, ← Script.ofBytes_append,
          List.take_append_drop]
      have htake : b.take n ≠ [] := by
        refine List.ne_nil_of_length_pos ?_
        rw [List.length_take]
        omega
      have hdrop : b.drop n ≠ [] := by
        refine List.ne_nil_of_length_pos ?_
        rw [List.length_drop]
        omega
      rw [readSome, if_pos hlt, hsplit]
      exact ⟨⟨fun h => absurd h hdrop, hrest⟩, .piece htake (List.length_take_le n b)⟩
    · rw [readSome, if_neg hlt]
      refine ⟨hrest, ?_⟩
      -- An empty chunk reads like an end, and so it has to be one.
      by_cases hb : b = []
      · subst hb
        rw [Chunk.script, hend rfl]
        exact .ended
      · exact .piece hb (Nat.le_of_not_lt hlt)

theorem readRest_follows {l : List Chunk} (h : Chunk.Steady l) :
    Chunk.Steady (readRest l).2 ∧
      Script.Read .rest (Chunk.script l) (readRest l).1 (Chunk.script (readRest l).2) := by
  induction l with
  | nil => exact ⟨trivial, .all (b := [])⟩
  | cons c l ih =>
    cases c with
    | fault text => exact ⟨h, .broken (b := [])⟩
    | data b =>
      obtain ⟨hs, hr⟩ := ih h.2
      have happ := hr.append b
      rw [readRest]
      generalize readRest l = out at hs happ
      obtain ⟨r, left⟩ := out
      cases r with
      | ok more => exact ⟨hs, happ⟩
      | error e => exact ⟨hs, happ⟩

end Source

/-! ## Layers -/

namespace Layer
variable {σ : Type}

/-- What a layer will hand out over a script. -/
def script (l : Layer) (below : Script) : Script :=
  Script.ofBytes l.pending ++ if l.exhausted then [] else l.stage.script l.seen below

/-- A layer has nothing to hand out and has not met the end. -/
def Idle (l : Layer) : Prop := l.pending = [] ∧ l.exhausted = false

/-- How a layer reads on, without a bound on its rounds. -/
inductive Fills (pull : σ → Except Error Bytes × σ) :
    Layer → σ → Except Error Unit → Layer → σ → Prop
  | ready {l : Layer} {s : σ} (h : ¬l.Idle) : Fills pull l s (.ok ()) l s
  | fault {l : Layer} {s s' : σ} {e : Error} (h : l.Idle) (hp : pull s = (.error e, s')) :
      Fills pull l s (.error e) l s'
  | refused {l : Layer} {s s' : σ} {e : Error} (h : l.Idle) (hp : pull s = (.ok [], s'))
      (hf : l.stage.finish l.seen = .error e) :
      Fills pull l s (.error e) { l with exhausted := true } s'
  | last {l : Layer} {s s' : σ} {b : Bytes} (h : l.Idle) (hp : pull s = (.ok [], s'))
      (hf : l.stage.finish l.seen = .ok b) :
      Fills pull l s (.ok ()) { l with exhausted := true, pending := b } s'
  | more {l l' : Layer} {s s' s'' : σ} {piece : Bytes} {r : Except Error Unit} (h : l.Idle)
      (hp : pull s = (.ok piece, s')) (hpiece : piece ≠ [])
      (tail : Fills pull (l.receive piece) s' r l' s'') : Fills pull l s r l' s''

/-- The rounds of a layer suffice: every round without output brings a byte that
the stage holds back, and no stage holds back more than a tag. -/
theorem fills_fill (pull : σ → Except Error Bytes × σ) (rounds : Nat) (l : Layer) (s : σ)
    (hr : l.Idle → 0 < rounds ∧ l.stage.slack < rounds + l.seen.length) :
    Fills pull l s (fill pull rounds l s).1 (fill pull rounds l s).2.1 (fill pull rounds l s).2.2 := by
  induction rounds generalizing l s with
  | zero => exact .ready fun h => absurd (hr h).1 (Nat.lt_irrefl 0)
  | succ rounds ih =>
    unfold fill
    split
    · next hready =>
      refine .ready fun h => ?_
      simp [h.1, h.2] at hready
    · next hidle =>
      have hidle : l.Idle := by simpa [Idle] using hidle
      split
      · next hp => exact .fault hidle hp
      · next hp =>
        split
        · next hf => exact .refused hidle hp hf
        · next hf => exact .last hidle hp hf
      · next piece s' hpiece hp =>
        refine .more hidle hp hpiece (ih _ _ fun h => ?_)
        -- The piece was held back in full, so the layer has seen no more than a tag.
        have hsilent : l.stage.update l.seen piece = [] := by
          simpa [receive, hidle.1] using h.1
        obtain ⟨hslack, hle⟩ := Stage.update_eq_nil hpiece hsilent
        have hlen : 0 < piece.length := List.length_pos_iff.mpr hpiece
        have hround := (hr hidle).2
        simp only [receive, List.length_append, hslack] at hle hround ⊢
        omega

/-- The state below after some pulls. -/
inductive Pulled (pull : σ → Except Error Bytes × σ) : σ → σ → Prop
  | refl {s : σ} : Pulled pull s s
  | step {s t : σ} (h : Pulled pull (pull s).2 t) : Pulled pull s t

theorem Fills.pulled {pull : σ → Except Error Bytes × σ} {l l' : Layer} {s s' : σ}
    {r : Except Error Unit} (h : Fills pull l s r l' s') : Pulled pull s s' := by
  induction h with
  | ready => exact .refl
  | fault _ hp | refused _ hp | last _ hp => exact .step (hp ▸ .refl)
  | more _ hp _ _ ih => exact .step (hp ▸ ih)

theorem Fills.stage_eq {pull : σ → Except Error Bytes × σ} {l l' : Layer} {s s' : σ}
    {r : Except Error Unit} (h : Fills pull l s r l' s') : l'.stage = l.stage := by
  induction h with
  | ready | fault | refused | last => rfl
  | more _ _ _ _ ih => exact ih

theorem Fills.not_idle {pull : σ → Except Error Bytes × σ} {l l' : Layer} {s s' : σ}
    {r : Except Error Unit} (h : Fills pull l s r l' s') (hr : r = .ok ()) : ¬l'.Idle := by
  induction h with
  | ready h => exact h
  | fault | refused => cases hr
  | last => exact fun h => Bool.noConfusion h.2
  | more _ _ _ _ ih => exact ih hr

/-! ### Over something that follows a script -/

/-- Pulling from what is below follows its script. -/
structure Follows (pull : σ → Except Error Bytes × σ) (Good : σ → Prop) (view : σ → Script)
    (size : Nat) : Prop where
  good : ∀ s, Good s → Good (pull s).2
  read : ∀ s, Good s → Script.Read (.atMost size) (view s) (pull s).1 (view (pull s).2)

/-- All that passes a layer is `total`; a layer is exhausted only once all of it
has passed, and then still has less to hand out than its stage adds. -/
structure Tracks (l : Layer) (total : Bytes) (below : Script) : Prop where
  total : l.seen ++ below.content = total
  ended : l.exhausted = true → below = []
  short : l.exhausted = true → l.pending.length ≤ l.stage.slack - 1

section
variable {pull : σ → Except Error Bytes × σ} {Good : σ → Prop} {view : σ → Script} {size : Nat}
  {l l' : Layer} {s s' : σ} {r : Except Error Unit}

theorem Follows.of_pull {reply : Except Error Bytes} (hf : Follows pull Good view size) (hg : Good s)
    (hp : pull s = (reply, s')) : Good s' ∧ Script.Read (.atMost size) (view s) reply (view s') := by
  have hgood := hf.good s hg
  have hread := hf.read s hg
  rw [hp] at hgood hread
  exact ⟨hgood, hread⟩

theorem Pulled.good (hf : Follows pull Good view size) (h : Pulled pull s s') (hg : Good s) :
    Good s' := by
  induction h with
  | refl => exact hg
  | step _ ih => exact ih (hf.good _ hg)

theorem script_of_idle {below : Script} (h : l.Idle) : l.script below = l.stage.script l.seen below := by
  simp [script, h.1, h.2]

theorem script_receive {piece : Bytes} {below : Script} (h : l.Idle) :
    (l.receive piece).script below = l.script (Script.ofBytes piece ++ below) := by
  rw [script_of_idle h, Stage.script_append]
  simp [script, receive, h.1, h.2]

/-- Reading on takes nothing of the layer's script but a fault that is met. -/
theorem Fills.script_eq (hf : Follows pull Good view size) (h : Fills pull l s r l' s') (hg : Good s) :
    l.script (view s) = Script.met r ++ l'.script (view s') := by
  induction h with
  | ready => rfl
  | fault hidle hp =>
    obtain ⟨-, hread⟩ := hf.of_pull hg hp
    rw [script_of_idle hidle, script_of_idle hidle, hread.of_error]
    rfl
  | refused hidle hp hfin =>
    obtain ⟨-, hread⟩ := hf.of_pull hg hp
    rw [script_of_idle hidle, hread.of_ok_nil.1]
    simp [script, hidle.1, Stage.script, hfin, Script.met]
  | last hidle hp hfin =>
    -- The end has come, and what the stage adds at the end is pending now.
    obtain ⟨-, hread⟩ := hf.of_pull hg hp
    rw [script_of_idle hidle, hread.of_ok_nil.1]
    simp [script, Stage.script, hfin, Script.met]
  | more hidle hp _ _ ih =>
    -- What is pulled moves from the script below into what the stage has seen.
    obtain ⟨hgood, hread⟩ := hf.of_pull hg hp
    rw [hread.of_ok, ← script_receive hidle]
    exact ih hgood

theorem Fills.pending_of_error {e : Error} (h : Fills pull l s r l' s') (hr : r = .error e) :
    l'.pending = [] := by
  induction h with
  | ready | last => cases hr
  | fault h | refused h => exact h.1
  | more _ _ _ _ ih => exact ih hr

/-- What a layer has seen grows by what leaves the script below, and the end
is met only where that script ends. -/
theorem Fills.seen_eq (hf : Follows pull Good view size) (h : Fills pull l s r l' s') (hg : Good s) :
    l'.seen ++ (view s').content = l.seen ++ (view s).content := by
  induction h with
  | ready => rfl
  | fault _ hp =>
    obtain ⟨-, hread⟩ := hf.of_pull hg hp
    rw [hread.of_error]
    rfl
  | refused _ hp | last _ hp =>
    obtain ⟨-, hread⟩ := hf.of_pull hg hp
    rw [hread.of_ok_nil.1, hread.of_ok_nil.2]
  | more _ hp _ _ ih =>
    obtain ⟨hgood, hread⟩ := hf.of_pull hg hp
    rw [ih hgood, hread.of_ok]
    simp [receive]

theorem Fills.ended (hf : Follows pull Good view size) (h : Fills pull l s r l' s') (hg : Good s)
    (he : l'.exhausted = true) :
    (l' = l ∧ s' = s) ∨ (view s' = [] ∧ l'.pending.length ≤ l'.stage.slack) := by
  induction h with
  | ready => exact .inl ⟨rfl, rfl⟩
  | fault hidle => exact absurd (hidle.2.symm.trans he) nofun
  | refused hidle hp =>
    obtain ⟨-, hread⟩ := hf.of_pull hg hp
    exact .inr ⟨hread.of_ok_nil.2, by simp [hidle.1]⟩
  | @last l s s' b _ hp hfin =>
    obtain ⟨-, hread⟩ := hf.of_pull hg hp
    have hlen := l.stage.length_verdict_le l.seen
    rw [Stage.verdict, hfin, Script.content_ofBytes] at hlen
    exact .inr ⟨hread.of_ok_nil.2, hlen⟩
  | @more l l' s s' s'' piece r hidle hp _ _ ih =>
    obtain ⟨hgood, -⟩ := hf.of_pull hg hp
    -- A round that pulled something leaves the end unmet, so it was met later.
    rcases ih hgood he with ⟨rfl, -⟩ | h
    · exact absurd (hidle.2.symm.trans he) nofun
    · exact .inr h

/-- What reading does not change about a layer. -/
structure Moved (pull : σ → Except Error Bytes × σ) (view : σ → Script) (l : Layer) (s : σ)
    (l' : Layer) (s' : σ) : Prop where
  pulled : Pulled pull s s'
  stage_eq : l'.stage = l.stage
  tracks : ∀ {total : Bytes}, l.Tracks total (view s) → l'.Tracks total (view s')

theorem Pulled.trans {s'' : σ} (h : Pulled pull s s') (h' : Pulled pull s' s'') : Pulled pull s s'' := by
  induction h with
  | refl => exact h'
  | step _ ih => exact .step (ih h')

theorem Moved.refl : Moved pull view l s l s := ⟨.refl, rfl, id⟩

theorem Moved.trans {l'' : Layer} {s'' : σ} (h : Moved pull view l s l' s')
    (h' : Moved pull view l' s' l'' s'') : Moved pull view l s l'' s'' where
  pulled := h.pulled.trans h'.pulled
  stage_eq := h'.stage_eq.trans h.stage_eq
  tracks ht := h'.tracks (h.tracks ht)

theorem fills_readSome (pull : σ → Except Error Bytes × σ) (l : Layer) (s : σ) :
    Fills pull l s (fill pull (l.stage.slack + 2) l s).1 (fill pull (l.stage.slack + 2) l s).2.1
      (fill pull (l.stage.slack + 2) l s).2.2 := by
  refine fills_fill pull _ l s fun _ => ⟨?_, ?_⟩
  · omega
  · omega

theorem readSome_follows {n : Nat} (hn : 0 < n) (hf : Follows pull Good view size) (hg : Good s) :
    Script.Read (.atMost n) (l.script (view s)) (l.readSome pull n s).1
      ((l.readSome pull n s).2.1.script (view (l.readSome pull n s).2.2)) := by
  have h := fills_readSome pull l s
  unfold readSome
  generalize fill pull (l.stage.slack + 2) l s = out at h
  obtain ⟨r, l', s'⟩ := out
  rw [h.script_eq hf hg]
  cases r with
  | error e => exact .fault
  | ok =>
    simp only [Script.met, List.nil_append]
    -- A layer with nothing to hand out has met the end, and its script is over.
    by_cases hp : l'.pending = []
    · have he : l'.exhausted = true := by
        simpa [Idle, hp] using h.not_idle rfl
      simpa [script, hp, he] using Script.Read.ended
    · have hsplit : l'.script (view s') = Script.ofBytes (l'.pending.take n) ++
          Layer.script { l' with pending := l'.pending.drop n } (view s') := by
        rw [script, script, ← List.append_assoc, ← Script.ofBytes_append, List.take_append_drop]
      rw [hsplit]
      refine .piece (fun ht => ?_) (List.length_take_le n _)
      rcases List.take_eq_nil_iff.mp ht with h0 | h0
      · omega
      · exact hp h0

/-- A read hands out at least a byte of what an exhausted layer has left, so
less is left than its stage adds. -/
theorem readSome_moved {n : Nat} (hn : 0 < n) (hf : Follows pull Good view size) (hg : Good s) :
    Moved pull view l s (l.readSome pull n s).2.1 (l.readSome pull n s).2.2 := by
  have h := fills_readSome pull l s
  unfold readSome
  generalize fill pull (l.stage.slack + 2) l s = out at h
  obtain ⟨r, l', s'⟩ := out
  have hended : ∀ {total : Bytes}, l.Tracks total (view s) → l'.exhausted = true → view s' = [] := by
    intro total ht he
    rcases h.ended hf hg he with ⟨rfl, rfl⟩ | ⟨hv, -⟩
    · exact ht.ended he
    · exact hv
  cases r with
  | error e =>
    refine ⟨h.pulled, h.stage_eq, fun ht => ⟨(h.seen_eq hf hg).trans ht.total, hended ht, fun _ => ?_⟩⟩
    have hp : l'.pending = [] := h.pending_of_error rfl
    simp [hp]
  | ok =>
    refine ⟨h.pulled, h.stage_eq, fun ht => ⟨(h.seen_eq hf hg).trans ht.total, hended ht, fun he => ?_⟩⟩
    show (l'.pending.drop n).length ≤ l'.stage.slack - 1
    rw [List.length_drop]
    -- The end was met before this read, which then takes a byte of what is left,
    -- or by this read, which takes a byte of what the stage added.
    rcases h.ended hf hg he with ⟨rfl, rfl⟩ | ⟨-, hlen⟩
    · have hshort : l'.pending.length ≤ l'.stage.slack - 1 := ht.short he
      omega
    · have hlen : l'.pending.length ≤ l'.stage.slack := hlen
      show l'.pending.length - n ≤ l'.stage.slack - 1
      omega

/-- A read of everything follows the script, if its reads outnumber the bytes
to come. -/
theorem readRest_follows (hf : Follows pull Good view size) {reads : Nat} (before : Bytes)
    (hg : Good s) (hreads : (l.script (view s)).content.length < reads) :
    Script.Read .rest (Script.ofBytes before ++ l.script (view s)) (l.readRest pull reads before s).1
      ((l.readRest pull reads before s).2.1.script (view (l.readRest pull reads before s).2.2)) := by
  induction reads generalizing before l s with
  | zero => exact absurd hreads (Nat.not_lt_zero _)
  | succ reads ih =>
    have hread := readSome_follows (l := l) (n := bufferSize) (by decide) hf hg
    have hgood := (readSome_moved (l := l) (n := bufferSize) (by decide) hf hg).pulled.good hf hg
    unfold readRest
    generalize l.readSome pull bufferSize s = out at hread hgood
    obtain ⟨r, l', s'⟩ := out
    match r with
    | .error e =>
      rw [hread.of_error]
      exact .broken
    | .ok [] =>
      obtain ⟨hnow, hthen⟩ := hread.of_ok_nil
      simp only [hnow, hthen, List.append_nil]
      exact .all
    | .ok (x :: piece) =>
      -- At least one byte has left the script, so that the reads still suffice.
      have hsplit := hread.of_ok
      rw [hsplit] at hreads ⊢
      rw [← List.append_assoc, ← Script.ofBytes_append]
      refine ih _ hgood ?_
      simp only [Script.content_append, Script.content_ofBytes, List.length_append,
        List.length_cons] at hreads ⊢
      omega

theorem readRest_moved (hf : Follows pull Good view size) {reads : Nat} {before : Bytes} (hg : Good s) :
    Moved pull view l s (l.readRest pull reads before s).2.1 (l.readRest pull reads before s).2.2 := by
  induction reads generalizing before l s with
  | zero => exact .refl
  | succ reads ih =>
    have hmoved := readSome_moved (l := l) (n := bufferSize) (by decide) hf hg
    have hgood := hmoved.pulled.good hf hg
    unfold readRest
    generalize l.readSome pull bufferSize s = out at hmoved hgood
    obtain ⟨r, l', s'⟩ := out
    match r with
    | .error _ | .ok [] => exact hmoved
    | .ok (x :: piece) => exact hmoved.trans (ih hgood)

end

end Layer

/-! ## Stacks -/

namespace Stack
variable {n : Nat} {a : Amount}

/-- What a stack hands out. -/
def script : {n : Nat} → Stack n → Script
  | _, .source s => Chunk.script s.chunks
  | _, .layered l below => l.script below.script

/-- The source at the bottom is open, and only its end reads like an end. -/
def Steady : {n : Nat} → Stack n → Prop
  | _, .source s => s.closed = false ∧ Chunk.Steady s.chunks
  | _, .layered _ below => below.Steady

/-- What a stack may have become by reads. -/
inductive Reaches : Stack n → Stack n → Prop
  | refl {s : Stack n} : Reaches s s
  | step {s t : Stack n} {a : Amount} (ha : a.Positive) (h : Reaches (s.read a).2 t) : Reaches s t

theorem length_script_le : {n : Nat} → (s : Stack n) → s.script.content.length ≤ s.remaining
  | _, .source s => Nat.le_of_eq (Chunk.content_script_length s.chunks)
  | _, .layered l below => by
    have hbelow := length_script_le below
    have hstage := l.stage.length_script_le l.seen below.script
    simp only [script, remaining, Layer.script, Script.content_append, Script.content_ofBytes,
      List.length_append]
    cases l.exhausted with
    | true =>
      simp only [if_true, Script.content_nil, List.length_nil]
      omega
    | false =>
      simp only [Bool.false_eq_true, if_false]
      omega

abbrev pull (s : Stack n) : Except Error Bytes × Stack n := s.read (.atMost chunkSize)

theorem chunkSize_positive : (Amount.atMost chunkSize).Positive := by
  show 0 < chunkSize
  decide

theorem read_layered_of {below : Stack n} (l : Layer)
    (hf : Layer.Follows (pull (n := n)) Steady script chunkSize) (h : below.Steady) (ha : a.Positive) :
    ∃ r l' below', (layered l below).read a = (r, .layered l' below') ∧
      Layer.Moved pull script l below l' below' ∧
      Script.Read a (layered l below).script r (layered l' below').script := by
  cases a with
  | atMost k => exact ⟨_, _, _, rfl, Layer.readSome_moved ha hf h, Layer.readSome_follows ha hf h⟩
  | rest =>
    let reads := l.pending.length + l.stage.slack + below.remaining + 1
    have hreads : (layered l below).script.content.length < reads :=
      Nat.lt_succ_of_le (layered l below).length_script_le
    have heq : (layered l below).read .rest =
        ((l.readRest pull reads [] below).1,
          layered (l.readRest pull reads [] below).2.1 (l.readRest pull reads [] below).2.2) := by
      rfl
    exact ⟨_, _, _, heq, Layer.readRest_moved hf h, Layer.readRest_follows hf [] h hreads⟩

theorem source_read_follows {s : Source} (h : (source s).Steady) (ha : a.Positive) :
    ((source s).read a).2.Steady ∧
      Script.Read a (source s).script ((source s).read a).1 ((source s).read a).2.script := by
  obtain ⟨chunks, closed⟩ := s
  obtain ⟨rfl, hs⟩ : closed = false ∧ Chunk.Steady chunks := h
  cases a with
  | atMost n =>
    obtain ⟨hs', hr⟩ := Source.readSome_follows ha hs
    exact ⟨⟨rfl, hs'⟩, hr⟩
  | rest =>
    obtain ⟨hs', hr⟩ := Source.readRest_follows hs
    exact ⟨⟨rfl, hs'⟩, hr⟩

theorem read_follows {s : Stack n} (h : s.Steady) (ha : a.Positive) :
    (s.read a).2.Steady ∧ Script.Read a s.script (s.read a).1 (s.read a).2.script := by
  -- Induction on the depth; a layer only pulls pieces of one size from below.
  induction n generalizing a with
  | zero =>
    cases s with
    | source s => exact source_read_follows h ha
  | succ n ih =>
    have hf : Layer.Follows (pull (n := n)) Steady script chunkSize :=
      ⟨fun _ hs => (ih hs chunkSize_positive).1, fun _ hs => (ih hs chunkSize_positive).2⟩
    cases s with
    | layered l below =>
      obtain ⟨r, l', below', heq, hmoved, hread⟩ := read_layered_of l hf h ha
      rw [heq]
      have hgood : below'.Steady := hmoved.pulled.good hf h
      exact ⟨hgood, hread⟩

theorem follows : Layer.Follows (pull (n := n)) Steady script chunkSize :=
  ⟨fun _ hs => (read_follows hs chunkSize_positive).1,
    fun _ hs => (read_follows hs chunkSize_positive).2⟩

theorem Reaches.of_pulled {s t : Stack n} (h : Layer.Pulled pull s t) : Reaches s t := by
  induction h with
  | refl => exact .refl
  | step _ ih => exact .step chunkSize_positive ih

theorem read_layered {below : Stack n} (l : Layer) (h : below.Steady) (ha : a.Positive) :
    ∃ l' below', ((layered l below).read a).2 = .layered l' below' ∧ l'.stage = l.stage ∧
      Reaches below below' ∧
      ∀ {total : Bytes}, l.Tracks total below.script → l'.Tracks total below'.script := by
  obtain ⟨r, l', below', heq, hmoved, -⟩ := read_layered_of l follows h ha
  exact ⟨l', below', congrArg Prod.snd heq, hmoved.stage_eq, .of_pulled hmoved.pulled, hmoved.tracks⟩

end Stack

end SealedStore
