import SealedStore.Proofs.Finality
/-!
# Reading on after faults

A source may raise between any two of its chunks. A layer over it that is met
by such a fault has already taken in all that came before, and takes in the
rest when it is read on: what it has seen, what it holds back and what it has
yet to hand out are as if the fault had not been there. So a reader who goes on
after every fault gets the content of the source without its faults, with the
same verdict, and each fault once.

What is proved:
  1. `Script.Run.rebuild` — the results of reads, put together, are what the
     script said.
  2. `Stage.content_script`, `Stage.faults_script` — what a stage makes of a
     script with faults.
  3. `Layer.Fills.over`, `Stream.readAll_over` — what a layer has taken of its
     source, after one read and after any number of them.
  4. `Stream.resumes_after_faults` — reads with and without the faults.
-/

namespace SealedStore

/-! ## What reads have returned -/

def errorOf? {α : Type} : Except Error α → Option Error
  | .ok _ => none
  | .error e => some e

def handedOut (results : List (Except Error Bytes)) : Bytes := (results.filterMap Except.toOption).flatten

def raised (results : List (Except Error Bytes)) : List Error := results.filterMap errorOf?

/-- An error that a source raises, and no stage. -/
def Error.FromSource (e : Error) : Prop := ∃ text, e = .io text

/-- A result that only the end of a content gives: an empty read, or the verdict
of a layer that refuses it. -/
def Ends (r : Except Error Bytes) : Prop := r = .ok [] ∨ ∃ e, r = .error e ∧ ¬e.FromSource

/-- One of the reads has met the end. -/
def MetEnd (results : List (Except Error Bytes)) : Prop := ∃ r ∈ results, Ends r

theorem not_metEnd_nil : ¬MetEnd [] := by
  rintro ⟨r, hr, -⟩
  cases hr

theorem metEnd_cons {r : Except Error Bytes} {results : List (Except Error Bytes)} :
    MetEnd (r :: results) ↔ Ends r ∨ MetEnd results := by
  simp [MetEnd]

/-! ## Scripts with faults -/

namespace Script

def faults (s : Script) : List Error := s.filterMap errorOf?

@[simp] theorem faults_nil : faults [] = [] := rfl

@[simp] theorem faults_ok (x : UInt8) (s : Script) : faults (.ok x :: s) = faults s := rfl

@[simp] theorem faults_error (e : Error) (s : Script) : faults (.error e :: s) = e :: faults s := rfl

@[simp] theorem faults_append (s t : Script) : faults (s ++ t) = faults s ++ faults t :=
  List.filterMap_append

@[simp] theorem faults_ofBytes (b : Bytes) : faults (ofBytes b) = [] := by
  induction b with
  | nil => rfl
  | cons x b ih => rw [ofBytes_cons, faults_ok, ih]

theorem length_eq (s : Script) : s.length = s.content.length + s.faults.length := by
  induction s with
  | nil => rfl
  | cons x s ih =>
    cases x with
    | ok x =>
      rw [content_ok, faults_ok, List.length_cons, List.length_cons, ih]
      omega
    | error e =>
      rw [content_error, faults_error, List.length_cons, List.length_cons, ih]
      omega

/-- What one result was in the script. -/
def ofResult : Except Error Bytes → Script
  | .ok b => ofBytes b
  | .error e => [.error e]

theorem content_results (results : List (Except Error Bytes)) :
    content (results.flatMap ofResult) = handedOut results := by
  induction results with
  | nil => rfl
  | cons r results ih =>
    rw [List.flatMap_cons, content_append, ih]
    cases r with
    | ok b => exact congrArg (· ++ handedOut results) (content_ofBytes b)
    | error e => rfl

theorem faults_results (results : List (Except Error Bytes)) :
    faults (results.flatMap ofResult) = raised results := by
  induction results with
  | nil => rfl
  | cons r results ih =>
    rw [List.flatMap_cons, faults_append, ih]
    cases r with
    | ok b => exact congrArg (· ++ raised results) (faults_ofBytes b)
    | error e => rfl

theorem Read.rebuild {n : Nat} {s t : Script} {r : Except Error Bytes} (h : Read (.atMost n) s r t) :
    s = ofResult r ++ t := by
  cases r with
  | ok b => exact h.of_ok
  | error e => exact h.of_error

namespace Run
variable {sizes : List Nat} {s t : Script} {results : List (Except Error Bytes)}

/-- Nothing of a script is lost in reads, and nothing returned twice. -/
theorem rebuild (h : Run (sizes.map .atMost) s results t) : s = results.flatMap ofResult ++ t := by
  induction sizes generalizing s results with
  | nil =>
    cases h
    rfl
  | cons n sizes ih =>
    cases h with
    | cons hr ht => rw [hr.rebuild, ih ht, List.flatMap_cons, List.append_assoc]

/-- Every read before the end takes a byte or a fault, so that more reads than
these come to the end. -/
theorem ends_of_length (h : Run (sizes.map .atMost) s results t) (hlen : s.length < sizes.length) :
    .ok [] ∈ results := by
  induction sizes generalizing s results with
  | nil => exact absurd hlen (Nat.not_lt_zero _)
  | cons n sizes ih =>
    rw [List.length_cons] at hlen
    cases h with
    | cons hr ht =>
      cases hr with
      | ended => exact List.mem_cons_self
      | @piece _ b rest hb =>
        have hpos := List.length_pos_iff.mpr hb
        rw [List.length_append, ofBytes, List.length_map] at hlen
        exact List.mem_cons_of_mem _ (ih ht (by omega))
      | fault =>
        rw [List.length_cons] at hlen
        exact List.mem_cons_of_mem _ (ih ht (by omega))

theorem metEnd_of_length (h : Run (sizes.map .atMost) s results t) (hlen : s.length < sizes.length) :
    MetEnd results :=
  ⟨.ok [], h.ends_of_length hlen, .inl rfl⟩

end Run

end Script

/-! ## Stages -/

namespace Stage

/-- Faults do not show in the bytes that a stage hands out. -/
theorem content_script (stage : Stage) (seen : Bytes) (below : Script) :
    (stage.script seen below).content =
      stage.update seen below.content ++ (stage.verdict (seen ++ below.content)).content := by
  induction below generalizing seen with
  | nil => simp [script_nil]
  | cons x below ih =>
    cases x with
    | error e => exact ih seen
    | ok x =>
      have hcut := stage.update_append seen [x] (Script.content below)
      rw [List.singleton_append] at hcut
      simp only [script, Script.content_append, Script.content_ofBytes, Script.content_ok, ih, hcut,
        List.append_assoc, List.singleton_append]

/-- A stage passes the faults on, and adds its verdict to them. -/
theorem faults_script (stage : Stage) (seen : Bytes) (below : Script) :
    (stage.script seen below).faults = below.faults ++ (stage.verdict (seen ++ below.content)).faults := by
  induction below generalizing seen with
  | nil => simp [script_nil]
  | cons x below ih =>
    cases x with
    | error e => exact congrArg (e :: ·) (ih seen)
    | ok x =>
      simp only [script, Script.faults_append, Script.faults_ofBytes, Script.faults_ok, Script.content_ok, ih,
        List.nil_append, List.append_assoc, List.singleton_append]

theorem length_faults_verdict_le (stage : Stage) (seen : Bytes) : (stage.verdict seen).faults.length ≤ 1 := by
  unfold verdict
  cases stage.finish seen with
  | ok last => simp
  | error e => exact Nat.le_refl 1

end Stage

/-! ## Sources with faults -/

namespace Chunk

def fault? : Chunk → Option Error
  | .data _ => none
  | .fault text => some (.io text)

def faults (l : List Chunk) : List Error := l.filterMap fault?

def sound (l : List Chunk) : List Chunk := l.filter fun c => c.fault?.isNone

theorem faults_script (l : List Chunk) : (script l).faults = faults l := by
  induction l with
  | nil => rfl
  | cons c l ih =>
    cases c with
    | data b => rw [script, Script.faults_append, Script.faults_ofBytes, ih]; rfl
    | fault text => exact congrArg (Error.io text :: ·) ih

theorem content_sound (l : List Chunk) : (script (sound l)).content = (script l).content := by
  induction l with
  | nil => rfl
  | cons c l ih =>
    cases c with
    | data b =>
      show (script (.data b :: sound l)).content = _
      rw [script, script, Script.content_append, Script.content_append, ih]
    | fault text => exact ih

theorem faults_sound (l : List Chunk) : faults (sound l) = [] := by
  refine List.filterMap_eq_nil_iff.mpr fun c hc => ?_
  exact Option.isNone_iff_eq_none.mp (List.mem_filter.mp hc).2

end Chunk

/-- A source that is open and none of whose chunks is empty. -/
structure Source.Whole (s : Source) : Prop where
  opened : s.closed = false
  full : .data [] ∉ s.chunks

namespace Source

theorem steady_of_full {l : List Chunk} (h : .data [] ∉ l) : Chunk.Steady l := by
  induction l with
  | nil => trivial
  | cons c l ih =>
    obtain ⟨hc, hl⟩ := not_or.mp (mt List.mem_cons.mpr h)
    cases c with
    | data b => exact ⟨fun hb => absurd (hb ▸ rfl) hc, ih hl⟩
    | fault text => exact ih hl

theorem eq_nil_of_script {l : List Chunk} (h : .data [] ∉ l) (hs : Chunk.script l = []) : l = [] := by
  match l with
  | [] => rfl
  | .data b :: l =>
    obtain rfl : b = [] := Script.ofBytes_eq_nil.mp (List.append_eq_nil_iff.mp hs).1
    exact absurd List.mem_cons_self h
  | .fault _ :: _ => cases hs

theorem full_readSome (n : Nat) {l : List Chunk} (h : .data [] ∉ l) :
    .data [] ∉ (readSome n l).2 := by
  match l with
  | [] => exact h
  | .fault _ :: l => exact fun hm => h (List.mem_cons_of_mem _ hm)
  | .data b :: l =>
    have hl : .data [] ∉ l := fun hm => h (List.mem_cons_of_mem _ hm)
    by_cases hlt : n < b.length
    · rw [readSome, if_pos hlt]
      -- What is left of a chunk that is longer than the read is not empty.
      intro hm
      rcases List.mem_cons.mp hm with he | hm
      · have hdrop : b.drop n = [] := (Chunk.data.inj he).symm
        rw [List.drop_eq_nil_iff] at hdrop
        omega
      · exact hl hm
    · rwa [readSome, if_neg hlt]

theorem fromSource_readSome {n : Nat} {l : List Chunk} {e : Error} (h : (readSome n l).1 = .error e) :
    e.FromSource := by
  match l with
  | [] => cases h
  | .fault text :: _ =>
    cases h
    exact ⟨text, rfl⟩
  | .data b :: _ =>
    rw [readSome] at h
    split at h <;> cases h

theorem Whole.pull {s s' : Stack 0} {r : Except Error Bytes} (h : s.origin.Whole) (hp : s.pull = (r, s')) :
    s'.origin.Whole ∧
      Script.Read (.atMost chunkSize) (Chunk.script s.origin.chunks) r (Chunk.script s'.origin.chunks) ∧
      ∀ e, r = .error e → e.FromSource := by
  cases s with
  | source s =>
    obtain ⟨chunks, closed⟩ := s
    obtain rfl : closed = false := h.opened
    have hfull : .data [] ∉ chunks := h.full
    have hpull : (Stack.source ⟨chunks, false⟩).pull =
        ((readSome chunkSize chunks).1, .source ⟨(readSome chunkSize chunks).2, false⟩) := by rfl
    rw [hpull] at hp
    cases hp
    exact ⟨⟨rfl, full_readSome chunkSize hfull⟩,
      (readSome_follows Stack.chunkSize_positive (steady_of_full hfull)).2, fun e he => fromSource_readSome he⟩

end Source

/-! ## Layers over a source -/

namespace Layer
variable {fresh l l' : Layer} {content : Bytes} {s s' : Stack 0} {r : Except Error Unit}

/-- A layer that was `fresh` has taken part of a content from its source, and the
rest is still there, between faults or not. -/
structure Over (fresh : Layer) (content : Bytes) (l : Layer) (s : Stack 0) : Prop where
  same : { l with seen := fresh.seen, pending := fresh.pending, exhausted := fresh.exhausted } = fresh
  whole : s.origin.Whole
  total : l.seen ++ (Chunk.script s.origin.chunks).content = content
  ended : l.exhausted = true → s.origin.chunks = []

/-- Reading on, a layer moves content from its source into what it has seen, also
if it is met by a fault. -/
theorem Fills.over (h : Fills Stack.pull l s r l' s') (ho : Over fresh content l s) : Over fresh content l' s' := by
  induction h with
  | ready => exact ho
  | fault hidle hp =>
    obtain ⟨hwhole, hread, -⟩ := ho.whole.pull hp
    -- A fault moves nothing: the layer reads on from where it is.
    refine ⟨ho.same, hwhole, ?_, fun he => absurd (hidle.2.symm.trans he) nofun⟩
    rw [← ho.total, hread.of_error, Script.content_error]
  | refused hidle hp | last hidle hp =>
    obtain ⟨hwhole, hread, -⟩ := ho.whole.pull hp
    refine ⟨ho.same, hwhole, ?_, fun _ => Source.eq_nil_of_script hwhole.full hread.of_ok_nil.2⟩
    rw [← ho.total, hread.of_ok_nil.1, hread.of_ok_nil.2]
  | @more l l' s s' s'' piece r hidle hp hpiece _ ih =>
    obtain ⟨hwhole, hread, -⟩ := ho.whole.pull hp
    refine ih ⟨ho.same, hwhole, ?_, fun he => absurd (hidle.2.symm.trans he) nofun⟩
    rw [← ho.total, hread.of_ok, Script.content_append, Script.content_ofBytes, ← List.append_assoc]
    rfl

/-- A fault that no source raises is the verdict of the layer. -/
theorem Fills.spent_of_error {e : Error} (h : Fills Stack.pull l s r l' s') (hw : s.origin.Whole)
    (hr : r = .error e) (he : ¬e.FromSource) : l'.Spent := by
  induction h with
  | ready | last => cases hr
  -- What a pull raises comes from the source.
  | fault hidle hp =>
    cases hr
    obtain ⟨-, -, hsource⟩ := hw.pull hp
    exact absurd (hsource e rfl) he
  | refused hidle => exact ⟨hidle.1, rfl⟩
  | more _ hp _ _ ih => exact ih (hw.pull hp).1 hr

theorem Over.eq_of_spent (ho : Over fresh content l s) (h : l.Spent) :
    l = { fresh with seen := content, pending := [], exhausted := true } ∧ s = .source { chunks := [] } := by
  obtain ⟨hsame, hwhole, htotal, hended⟩ := ho
  obtain ⟨stage, closesSource, seen, pending, exhausted, closed⟩ := l
  obtain ⟨rfl, rfl⟩ : pending = [] ∧ exhausted = true := h
  have hchunks := hended rfl
  cases s with
  | source s =>
    obtain ⟨chunks, isClosed⟩ := s
    obtain rfl : isClosed = false := hwhole.opened
    obtain rfl : chunks = [] := hchunks
    obtain rfl : seen = content := (List.append_nil seen).symm.trans htotal
    exact ⟨by rw [← hsame], rfl⟩

variable {n : Nat}

theorem readSome_over (n : Nat) (ho : Over fresh content l s) :
    Over fresh content (readSome Stack.pull n l s).2.1 (readSome Stack.pull n l s).2.2 := by
  have hfills := fills_readSome Stack.pull l s
  unfold readSome
  generalize fill Stack.pull (l.stage.slack + 2) l s = out at hfills
  obtain ⟨r, l', s'⟩ := out
  have hover := hfills.over ho
  cases r with
  | error e => exact hover
  | ok => exact ⟨hover.same, hover.whole, hover.total, hover.ended⟩

/-- A read that meets the end leaves nothing to be read. -/
theorem readSome_spent_of_ends (hn : 0 < n) (hw : s.origin.Whole) (hends : Ends (readSome Stack.pull n l s).1) :
    (readSome Stack.pull n l s).2.1.Spent := by
  have hfills := fills_readSome Stack.pull l s
  unfold readSome at hends ⊢
  generalize fill Stack.pull (l.stage.slack + 2) l s = out at hfills hends
  obtain ⟨r, l', s'⟩ := out
  cases r with
  | error e =>
    rcases hends with hempty | ⟨f, hf, hsource⟩
    · cases hempty
    · cases hf
      exact hfills.spent_of_error hw rfl hsource
  | ok =>
    rcases hends with hempty | ⟨f, hf, -⟩
    · -- Of what there is to hand out a read takes at least a byte.
      have hpending : l'.pending = [] := by
        rcases List.take_eq_nil_iff.mp (Except.ok.inj hempty) with hzero | hnil
        · omega
        · exact hnil
      have hexhausted : l'.exhausted = true := by
        simpa [Idle, hpending] using hfills.not_idle rfl
      exact ⟨by simp [hpending], hexhausted⟩
    · cases hf

end Layer

/-! ## Streams over a source -/

namespace Stream
variable {fresh l : Layer} {content : Bytes} {s : Stack 0} {sizes : List Nat}

/-- A read comes to an end: the loop in which the layer on top reads on, bounded
by nothing but what it pulls, stops and leaves what is then handed out. -/
def Terminates (t : Stream) (n : Nat) : Prop :=
  ∃ (l l' : Layer) (u : Stream) (below : Stack u.depth) (r : Except Error Unit),
    t = u.layered l ∧ Layer.Fills Stack.pull l u.stack r l' below ∧
      t.read (.atMost n) = (r.map fun _ => l'.pending.take n,
        (⟨u.depth, below⟩ : Stream).layered { l' with pending := l'.pending.drop n })

theorem terminates_layered (u : Stream) (l : Layer) (n : Nat) : (u.layered l).Terminates n := by
  have hfills := Layer.fills_readSome Stack.pull l u.stack
  generalize hout : Layer.fill Stack.pull (l.stage.slack + 2) l u.stack = out at hfills
  obtain ⟨r, l', below⟩ := out
  refine ⟨l, l', u, below, r, rfl, hfills, ?_⟩
  show ((l.readSome Stack.pull n u.stack).1,
    (⟨u.depth, (l.readSome Stack.pull n u.stack).2.2⟩ : Stream).layered (l.readSome Stack.pull n u.stack).2.1) = _
  rw [Layer.readSome, hout]
  cases r with
  | ok => rfl
  | error e =>
    have hpending : l'.pending = [] := hfills.pending_of_error rfl
    obtain ⟨stage, closesSource, seen, pending, exhausted, closed⟩ := l'
    obtain rfl : pending = [] := hpending
    simp only [List.drop_nil]
    rfl

theorem readAll_cons (s : Stream) (a : Amount) (plan : List Amount) :
    s.readAll (a :: plan) = ((s.read a).1 :: ((s.read a).2.readAll plan).1, ((s.read a).2.readAll plan).2) := rfl

/-- Reads keep a layer over its source, and meet the end only where nothing is
left. -/
theorem readAll_over (hsizes : ∀ n ∈ sizes, 0 < n) (ho : Layer.Over fresh content l s) :
    ∃ l' s', (((⟨0, s⟩ : Stream).layered l).readAll (sizes.map .atMost)).2 = (⟨0, s'⟩ : Stream).layered l' ∧
      Layer.Over fresh content l' s' ∧
      (MetEnd (((⟨0, s⟩ : Stream).layered l).readAll (sizes.map .atMost)).1 → l'.Spent) := by
  induction sizes generalizing l s with
  | nil => exact ⟨l, s, rfl, ho, fun h => absurd h not_metEnd_nil⟩
  | cons n sizes ih =>
    have hn : 0 < n := hsizes n List.mem_cons_self
    obtain ⟨l', s', hall, hover, hspent⟩ :=
      ih (fun m hm => hsizes m (List.mem_cons_of_mem _ hm)) (Layer.readSome_over n ho)
    have hread : ((⟨0, s⟩ : Stream).layered l).read (.atMost n) = ((l.readSome Stack.pull n s).1,
      (⟨0, (l.readSome Stack.pull n s).2.2⟩ : Stream).layered (l.readSome Stack.pull n s).2.1) := rfl
    rw [List.map_cons, readAll_cons, hread]
    refine ⟨l', s', hall, hover, fun hmet => ?_⟩
    rcases metEnd_cons.mp hmet with hends | hmet
    · -- After the end every read comes back empty and changes nothing.
      have hend := Layer.readSome_spent_of_ends hn ho.whole hends
      rw [(silent_of_spent hend _).readAll] at hall
      exact (Option.some.inj (congrArg Stream.top? hall)) ▸ hend
    · exact hspent hmet

theorem over_fresh (stage : Stage) (closesSource : Bool) {chunks : List Chunk} (hfull : .data [] ∉ chunks) :
    Layer.Over { stage, closesSource } (Chunk.script chunks).content { stage, closesSource } (.source { chunks }) where
  same := rfl
  whole := ⟨rfl, hfull⟩
  total := List.nil_append _
  ended := nofun

theorem positive_atMost (hsizes : ∀ n ∈ sizes, 0 < n) : ∀ a ∈ sizes.map Amount.atMost, a.Positive := by
  intro a ha
  obtain ⟨n, hn, rfl⟩ := List.mem_map.mp ha
  exact hsizes n hn

theorem readAll_metEnd (stage : Stage) (closesSource : Bool) {chunks : List Chunk} (hfull : .data [] ∉ chunks)
    (hsizes : ∀ n ∈ sizes, 0 < n) :
    let content := (Chunk.script chunks).content
    let s := (ofSource { chunks }).layered { stage, closesSource }
    let results := (s.readAll (sizes.map .atMost)).1
    MetEnd results →
      handedOut results = stage.update [] content ++ (stage.verdict content).content ∧
      raised results = Chunk.faults chunks ++ (stage.verdict content).faults ∧
      (s.readAll (sizes.map .atMost)).2 =
        (ofSource { chunks := [] }).layered { stage, closesSource, seen := content, exhausted := true } := by
  intro content s results hmet
  obtain ⟨l', s', hall, hover, hspent⟩ := readAll_over hsizes (over_fresh stage closesSource hfull)
  obtain ⟨rfl, rfl⟩ := hover.eq_of_spent (hspent hmet)
  have hsteady : s.Steady := ⟨rfl, Source.steady_of_full hfull⟩
  have hrun := (readAll_follows hsteady (positive_atMost hsizes)).rebuild
  have hleft : (s.readAll (sizes.map .atMost)).2.script = [] := congrArg script hall
  have hscript : s.script = stage.script [] (Chunk.script chunks) := script_layered ⟨rfl, rfl, rfl⟩ _
  rw [hleft, List.append_nil, hscript] at hrun
  refine ⟨?_, ?_, hall⟩
  · -- The bytes and the faults of the script are told apart, and each is its own equation.
    have hcontent := congrArg Script.content hrun
    rw [Stage.content_script, Script.content_results] at hcontent
    exact hcontent.symm
  · have hfaults := congrArg Script.faults hrun
    rw [Stage.faults_script, Script.faults_results, Chunk.faults_script] at hfaults
    exact hfaults.symm

/-- A layer over a source whose chunks are not empty, whatever the layer does and
wherever the source raises, is read in any amounts, each of them positive. Every
read terminates, returns no more than was asked for, and comes back empty only
when the source has ended. Enough reads meet the end. Those that do have
returned the same bytes as reads, up to the end as well, of the same layer over
the source without its faults, and leave the same; they have raised every fault
of the source, once and in order, and then the verdict, which is the one over
the source without its faults. -/
theorem resumes_after_faults (stage : Stage) (closesSource : Bool) {chunks : List Chunk}
    (hfull : .data [] ∉ chunks) (hsizes : ∀ n ∈ sizes, 0 < n) :
    let content := (Chunk.script chunks).content
    let s := (ofSource { chunks }).layered { stage, closesSource }
    let calm := (ofSource { chunks := Chunk.sound chunks }).layered { stage, closesSource }
    let results := (s.readAll (sizes.map .atMost)).1
    let t := (s.readAll (sizes.map .atMost)).2
    (∀ n, 0 < n → t.Terminates n ∧ ∀ b, (t.read (.atMost n)).1 = .ok b → b.length ≤ n ∧
      (b = [] → (t.read (.atMost n)).2.exhausted = true ∧ (t.read (.atMost n)).2.origin.chunks = [])) ∧
    (content.length + stage.slack + (Chunk.faults chunks).length + 1 < sizes.length → MetEnd results) ∧
    (MetEnd results → ∀ others : List Nat, (∀ n ∈ others, 0 < n) →
      let calmly := (calm.readAll (others.map .atMost)).1
      MetEnd calmly →
        handedOut results = handedOut calmly ∧ raised results = Chunk.faults chunks ++ raised calmly ∧
        raised calmly = (stage.verdict content).faults ∧ t = (calm.readAll (others.map .atMost)).2) := by
  intro content s calm results t
  have hsteady : s.Steady := ⟨rfl, Source.steady_of_full hfull⟩
  refine ⟨fun n hn => ?_, fun hlen => ?_, fun hmet others hothers => ?_⟩
  · obtain ⟨l', s', hall, hover, -⟩ := readAll_over hsizes (over_fresh stage closesSource hfull)
    have ht : t = (⟨0, s'⟩ : Stream).layered l' := hall
    rw [ht]
    refine ⟨terminates_layered _ l' n, fun b hb => ⟨?_, ?_⟩⟩
    · exact Layer.length_readSome_le (Prod.ext hb rfl)
    · rintro rfl
      have hspent := Layer.readSome_spent_of_ends hn hover.whole (.inl hb)
      exact ⟨hspent.2, (Layer.readSome_over n hover).ended hspent.2⟩
  · refine (readAll_follows hsteady (positive_atMost hsizes)).metEnd_of_length ?_
    have hscript : s.script = stage.script [] (Chunk.script chunks) := script_layered ⟨rfl, rfl, rfl⟩ _
    have hbytes := stage.length_script_le [] (Chunk.script chunks)
    have hverdict := stage.length_faults_verdict_le ([] ++ (Chunk.script chunks).content)
    rw [hscript, Script.length_eq, Stage.faults_script, List.length_append, Chunk.faults_script]
    simp only [content] at hlen
    omega
  · intro calmly hcalm
    have hsound : .data [] ∉ Chunk.sound chunks := fun hm => hfull (List.mem_filter.mp hm).1
    obtain ⟨hout, hraised, hleft⟩ := readAll_metEnd stage closesSource hfull hsizes hmet
    obtain ⟨hout', hraised', hleft'⟩ := readAll_metEnd stage closesSource hsound hothers hcalm
    rw [Chunk.content_sound] at hout' hraised' hleft'
    rw [Chunk.faults_sound, List.nil_append] at hraised'
    exact ⟨hout.trans hout'.symm, hraised.trans (congrArg (_ ++ ·) hraised'.symm), hraised', hleft.trans hleft'.symm⟩

/-- Three bytes with a fault among them, which hold no tag: the fault is raised
once, and the verdict is the one over the same bytes without it. -/
theorem resumes_after_faults_held :
    let envelope : Envelope :=
      { mode := Envelope.aesGcm, wrappedKey := [], masterKeyId := "", iv := List.replicate 12 0 }
    let stage : Stage := .decode { dataKey := ⟨List.replicate 16 0⟩, envelope }
    let chunks : List Chunk := [.data [1, 2], .fault "lost", .data [3]]
    let s := (ofSource { chunks }).layered { stage }
    let calm := (ofSource { chunks := [.data [1, 2], .data [3]] }).layered { stage }
    .data [] ∉ chunks ∧ MetEnd (s.readAll [.atMost 4, .atMost 1, .atMost 1]).1 ∧ MetEnd (calm.readAll [.atMost 2]).1 ∧
      raised (s.readAll [.atMost 4, .atMost 1, .atMost 1]).1 = .io "lost" :: raised (calm.readAll [.atMost 2]).1 ∧
      (s.readAll [.atMost 4, .atMost 1, .atMost 1]).2 = (calm.readAll [.atMost 2]).2 := by
  intro envelope stage chunks s calm
  have hfull : .data [] ∉ chunks := by decide
  have hsizes : ∀ n ∈ [4, 1, 1], 0 < n := by decide
  have hothers : ∀ n ∈ [2], 0 < n := by decide
  have hmet : MetEnd (s.readAll [.atMost 4, .atMost 1, .atMost 1]).1 :=
    ⟨.error (.transform .truncated), .tail _ (.head _), .inr ⟨_, rfl, nofun⟩⟩
  have hcalm : MetEnd (calm.readAll [.atMost 2]).1 :=
    ⟨.error (.transform .truncated), .head _, .inr ⟨_, rfl, nofun⟩⟩
  obtain ⟨-, -, hsame⟩ := resumes_after_faults stage true hfull hsizes
  obtain ⟨-, hraised, -, hleft⟩ := hsame hmet [2] hothers hcalm
  exact ⟨hfull, hmet, hcalm, hraised, hleft⟩

end Stream

end SealedStore
