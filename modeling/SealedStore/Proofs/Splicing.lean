import SealedStore.Client.Encrypting
import SealedStore.Proofs.Endpoint
/-!
# Spliced chains

A filter that is inserted by its place relative to others stands in the chain
exactly in front of those, as often as there are any, and nothing else changes:
without it the chain is the old one, and inserting it again does nothing. A
place that cannot be told leaves the chain as it is.

What a request meets on its way is shown by marks that every filter makes as it
gets the request and as it hands back the outcome. They change nothing else, so
the order of marks is the order of the filters: once from the head to the tail
before the last handler, and once back.

What is proved:
  1. `Chain.spliced_intact`, `Chain.insertBefore_eq` — a list with an item before
     every match, and that this is what is inserted.
  2. `Chain.insertBefore_raises` — what a failing test leads to.
  3. `Filter.log_eq_around`, `Filter.checkDigests_eq_around` — two filters that
     pass every request on once.
  4. `Passing.marks_through`, `Passing.run_watched` — the way of a request through
     such filters.
  5. `Chain.insertion_keeps_chain` — all of this for a chain after an insertion.
-/

namespace SealedStore

namespace Chain
variable {φ ε : Type}

/-! ## Spliced lists -/

/-- A list with `new` in front of every item that `p` holds of. -/
def spliced (p : φ → Bool) (new : φ) (l : List φ) : List φ :=
  l.flatMap fun f => if p f then [new, f] else [f]

theorem spliced_cons (p : φ → Bool) (new f : φ) (rest : List φ) :
    spliced p new (f :: rest) = if p f then new :: f :: spliced p new rest else f :: spliced p new rest := by
  rw [spliced, List.flatMap_cons]
  split <;> rfl

/-- A list has `new` in front of the items of `l` that `p` holds of, and nowhere
else. -/
structure Spliced [DecidableEq φ] (p : φ → Bool) (new : φ) (l spliced : List φ) : Prop where
  count_eq : spliced.count new = l.countP p
  /-- Without it the list is the old one, in the old order. -/
  filter_eq : spliced.filter (fun f => decide (f ≠ new)) = l
  /-- It always stands immediately before a match. -/
  before_match : ∀ i, spliced[i]? = some new → ∃ f, spliced[i + 1]? = some f ∧ f ∈ l ∧ p f = true
  /-- It stands immediately before every match. -/
  match_behind : ∀ i f, spliced[i]? = some f → f ≠ new → p f = true → ∃ j, i = j + 1 ∧ spliced[j]? = some new

section
variable [DecidableEq φ] {p : φ → Bool} {new : φ} {l : List φ}

theorem Spliced.cons_match {rest spliced : List φ} {f : φ} (h : Spliced p new rest spliced) (hf : f ≠ new)
    (hp : p f = true) : Spliced p new (f :: rest) (new :: f :: spliced) where
  count_eq := by simp [hf, hp, h.count_eq]
  filter_eq := by simp [hf, ← h.filter_eq]
  -- behind the two items at the head, every place is the one before by two
  before_match := by
    rintro (_ | _ | i) hi
    · exact ⟨f, rfl, List.mem_cons_self, hp⟩
    · exact absurd (Option.some.inj hi) hf
    · obtain ⟨g, hg, hmem, hmatch⟩ := h.before_match i hi
      exact ⟨g, hg, List.mem_cons_of_mem f hmem, hmatch⟩
  match_behind := by
    rintro (_ | _ | i) g hi hg hmatch
    · exact absurd (Option.some.inj hi).symm hg
    · exact ⟨0, rfl, rfl⟩
    · obtain ⟨j, rfl, hj⟩ := h.match_behind i g hi hg hmatch
      exact ⟨j + 2, rfl, hj⟩

theorem Spliced.cons_other {rest spliced : List φ} {f : φ} (h : Spliced p new rest spliced) (hf : f ≠ new)
    (hp : p f = false) : Spliced p new (f :: rest) (f :: spliced) where
  count_eq := by simp [hf, hp, h.count_eq]
  filter_eq := by simp [hf, ← h.filter_eq]
  before_match := by
    rintro (_ | i) hi
    · exact absurd (Option.some.inj hi) hf
    · obtain ⟨g, hg, hmem, hmatch⟩ := h.before_match i hi
      exact ⟨g, hg, List.mem_cons_of_mem f hmem, hmatch⟩
  match_behind := by
    rintro (_ | i) g hi hg hmatch
    · obtain rfl : f = g := Option.some.inj hi
      rw [hp] at hmatch
      cases hmatch
    · obtain ⟨j, rfl, hj⟩ := h.match_behind i g hi hg hmatch
      exact ⟨j + 1, rfl, hj⟩

/-- A new item stands in front of the matches, and nowhere else. -/
theorem spliced_intact (hnew : new ∉ l) : Spliced p new l (spliced p new l) := by
  induction l with
  | nil => exact ⟨rfl, rfl, nofun, nofun⟩
  | cons f rest ih =>
    have hf : f ≠ new := fun h => hnew (h ▸ List.mem_cons_self)
    have hrest : new ∉ rest := fun h => hnew (List.mem_cons_of_mem f h)
    rw [spliced_cons]
    cases hp : p f with
    | true => exact (ih hrest).cons_match hf hp
    | false => exact (ih hrest).cons_other hf hp

end

theorem mem_spliced {p : φ → Bool} {new : φ} {l : List φ} (h : 0 < l.countP p) : new ∈ spliced p new l := by
  obtain ⟨f, hf, hp⟩ := List.countP_pos_iff.mp h
  exact List.mem_flatMap.mpr ⟨f, hf, by rw [if_pos hp]; exact List.mem_cons_self⟩

/-! ## Insertions -/

section
variable {test : φ → Except ε Bool} {p : φ → Bool} {new : φ} {l : List φ}

theorem splice_eq (h : ∀ f ∈ l, test f = .ok (p f)) : splice test new l = .ok (spliced p new l) := by
  induction l with
  | nil => rfl
  | cons f rest ih =>
    obtain ⟨hf, hrest⟩ := List.forall_mem_cons.mp h
    rw [splice, hf, ih hrest, spliced_cons]
    show Except.ok _ = _
    cases p f <;> rfl

theorem matching_eq (h : ∀ f ∈ l, test f = .ok (p f)) : matching test l = l.countP p :=
  List.countP_congr fun f hf => by rw [h f hf]

/-- The first test that fails, fails with `e`. -/
def FirstFails (test : φ → Except ε Bool) (l : List φ) (e : ε) : Prop :=
  ∃ before f after, l = before ++ f :: after ∧ (∀ g ∈ before, ∃ found, test g = .ok found) ∧ test f = .error e

theorem FirstFails.cons {e : ε} {f : φ} {found : Bool} (h : FirstFails test l e) (hf : test f = .ok found) :
    FirstFails test (f :: l) e := by
  obtain ⟨before, g, after, rfl, hbefore, hg⟩ := h
  exact ⟨f :: before, g, after, rfl, List.forall_mem_cons.mpr ⟨⟨found, hf⟩, hbefore⟩, hg⟩

/-- The splice fails as the first test does that fails. -/
theorem splice_raises (new : φ) (h : ∃ f ∈ l, ∃ e, test f = .error e) :
    ∃ e, FirstFails test l e ∧ splice test new l = .error e := by
  induction l with
  | nil =>
    obtain ⟨f, hf, -⟩ := h
    cases hf
  | cons f rest ih =>
    cases hf : test f with
    -- This test is the first that fails.
    | error e => exact ⟨e, ⟨[], f, rest, rfl, nofun, hf⟩, by rw [splice, hf]; rfl⟩
    | ok found =>
      have hrest : ∃ g ∈ rest, ∃ e, test g = .error e := by
        obtain ⟨g, hg, e, he⟩ := h
        rcases List.mem_cons.mp hg with rfl | hg
        · rw [hf] at he
          cases he
        · exact ⟨g, hg, e, he⟩
      obtain ⟨e, hfirst, hsplice⟩ := ih hrest
      exact ⟨e, hfirst.cons hf, by rw [splice, hf, hsplice]; rfl⟩

variable [DecidableEq φ]

theorem insertBefore_eq (hnew : new ∉ l) (h : ∀ f ∈ l, test f = .ok (p f)) :
    insertBefore test new l = .ok (l.countP p, spliced p new l) := by
  rw [insertBefore, if_neg hnew, splice_eq h, matching_eq h]
  rfl

theorem insertBefore_of_mem (h : new ∈ l) : insertBefore test new l = .ok (0, l) := if_pos h

theorem insertBefore_raises (hnew : new ∉ l) (h : ∃ f ∈ l, ∃ e, test f = .error e) :
    ∃ e, FirstFails test l e ∧ insertBefore test new l = .error e := by
  obtain ⟨e, hfirst, hsplice⟩ := splice_raises new h
  exact ⟨e, hfirst, by rw [insertBefore, if_neg hnew, hsplice]; rfl⟩

end

end Chain

/-! ## Filters that pass on -/

/-- A filter that calls the handler behind it exactly once: what it does with a
request by then, and with the outcome from then on. -/
structure Passing (I : Interface) where
  Kept : Type
  enter : Request → Program I (Request × Kept)
  leave : Kept → Except Error Response × Request → Program I (Except Error Response × Request)

/-- What such a filter does to the handler behind it. -/
def Passing.around {I : Interface} (f : Passing I) : Handler I → Handler I := fun next request => do
  let (passed, kept) ← f.enter request
  f.leave kept (← next passed)

namespace Filter
variable {I : Interface}

/-- Logging passes on the request that it gets. -/
def passingLog : Passing I where
  Kept := Unit
  enter request := return (request, ())
  leave _ out := log (fun _ => return out) out.2

/-- Comparing digests passes on a request whose entity is digested, or the one
that it gets. -/
def passingDigests : Passing I where
  Kept := Option (Request × Stream)
  enter request :=
    match request.entity, writesContent request.operation with
    | some entity, true => return ({ request with entity := some entity.digested }, some (request, entity))
    | _, _ => return (request, none)
  leave
    | some (request, entity), out => return undigesting request entity out
    | none, out => return if readsInFull out.2.operation then (out.1.map verifyRead, out.2) else out

theorem log_eq_around : (log : Handler I → Handler I) = passingLog.around := rfl

theorem checkDigests_eq_around : (checkDigests : Handler I → Handler I) = passingDigests.around := by
  funext next request
  by_cases hwrites : writesContent request.operation = true
  · cases hentity : request.entity with
    | none =>
      rw [checkDigests_eq next (.inl hentity)]
      simp [Passing.around, passingDigests, hentity]
    | some entity =>
      rw [checkDigests_write_eq next hentity hwrites]
      simp [Passing.around, passingDigests, hentity, hwrites]
  · rw [checkDigests_eq next (.inr (Bool.eq_false_iff.mpr hwrites))]
    simp [Passing.around, passingDigests, hwrites]

end Filter

/-! ## The way of a request -/

section
variable {I : Interface} {α β φ σ : Type}

/-- What is noticed of a request on its way. -/
inductive Mark (φ : Type) where
  | enters (f : φ)
  | arrives
  | leaves (f : φ)

/-- What programs call that leave marks. -/
def Watched (I : Interface) (φ : Type) : Interface where
  Call := Mark φ ⊕ I.Call
  Reply := Sum.elim (fun _ => Unit) I.Reply

namespace Program

def mark (m : Mark φ) : Program (Watched I φ) Unit := .call (.inl m) .done

def unmarked (p : Program I α) : Program (Watched I φ) α := p.interpret fun c => .call (.inr c) .done

def ignoring (serve : Service I σ) : Service (Watched I φ) σ
  | .inl _, s => ((), s)
  | .inr c, s => serve c s

def mark? : (Watched I φ).Call → Option (Mark φ)
  | .inl m => some m
  | .inr _ => none

/-- The marks that a run leaves. -/
def marks (serve : Service I σ) (p : Program (Watched I φ) α) (w : World σ) : List (Mark φ) :=
  (p.calls (ignoring serve) w).filterMap mark?

variable (serve : Service I σ) (w : World σ)

theorem marks_bind (p : Program (Watched I φ) α) (f : α → Program (Watched I φ) β) :
    (p >>= f).marks serve w =
      p.marks serve w ++ (f (p.run (ignoring serve) w).1).marks serve (p.run (ignoring serve) w).2 := by
  rw [marks, calls_bind, List.filterMap_append]
  rfl

@[simp] theorem marks_pure (a : α) : (pure a : Program (Watched I φ) α).marks serve w = [] := rfl

@[simp] theorem marks_mark (m : Mark φ) : (mark m : Program (Watched I φ) Unit).marks serve w = [m] := rfl

@[simp] theorem run_mark (m : Mark φ) : (mark m : Program (Watched I φ) Unit).run (ignoring serve) w = ((), w) := rfl

@[simp] theorem marks_unmarked (p : Program I α) : (p.unmarked : Program (Watched I φ) α).marks serve w = [] := by
  unfold marks
  induction p generalizing w with
  | done a => rfl
  | draw kind size next ih => exact ih _ _
  | log event next ih => exact ih _
  | call c next ih => exact ih _ { w with state := (serve c w.state).2 }

@[simp] theorem run_unmarked (p : Program I α) :
    (p.unmarked : Program (Watched I φ) α).run (ignoring serve) w = p.run serve w :=
  run_interpret w (fun _ _ => rfl) p

end Program

open Program (mark unmarked ignoring run_mark run_unmarked marks_bind marks_mark marks_unmarked marks_pure)

/-- A filter that leaves a mark as it gets a request, and one as it hands back
the outcome. -/
def Passing.watched (f : φ) (p : Passing I) : Passing (Watched I φ) where
  Kept := p.Kept
  enter request := do
    mark (.enters f)
    unmarked (p.enter request)
  leave kept out := do
    let back ← unmarked (p.leave kept out)
    mark (.leaves f)
    return back

/-- A last handler that leaves a mark as it gets a request. -/
def Handler.watched (last : Handler I) : Handler (Watched I φ) := fun request => do
  mark .arrives
  unmarked (last request)

namespace Passing
variable {serve : Program.Service I σ}

theorem run_around_watched (f : φ) (p : Passing I) {watching : Handler (Watched I φ)} {next : Handler I}
    (h : ∀ request w, (watching request).run (ignoring serve) w = (next request).run serve w)
    (request : Request) (w : World σ) :
    ((p.watched f).around watching request).run (ignoring serve) w = (p.around next request).run serve w := by
  simp only [around, watched, bind_assoc, Program.run_bind, run_mark, run_unmarked, h, Program.run_pure]

theorem marks_around_watched (f : φ) (p : Passing I) {next : Handler (Watched I φ)} {inner : List (Mark φ)}
    (h : ∀ request w, (next request).marks serve w = inner) (request : Request) (w : World σ) :
    ((p.watched f).around next request).marks serve w = .enters f :: (inner ++ [.leaves f]) := by
  simp only [around, watched, bind_assoc, marks_bind, marks_mark, marks_unmarked, h, marks_pure,
    List.nil_append, List.append_nil, List.singleton_append]

variable (passing : φ → Passing I) (last : Handler I) (serve)

theorem run_watched (l : List φ) (request : Request) (w : World σ) :
    (throughFilters (l.map fun f => ((passing f).watched f).around) last.watched request).run (ignoring serve) w =
      (throughFilters (l.map fun f => (passing f).around) last request).run serve w := by
  induction l generalizing request w with
  | nil => exact (Program.run_bind ..).trans (run_unmarked serve w (last request))
  | cons f rest ih => exact run_around_watched f (passing f) ih request w

/-- A request passes the filters from the head to the tail, each once, then the
last handler, once, and its outcome passes them in the reverse order. -/
theorem marks_through (l : List φ) (request : Request) (w : World σ) :
    (throughFilters (l.map fun f => ((passing f).watched f).around) last.watched request).marks serve w =
      l.map .enters ++ .arrives :: l.reverse.map .leaves := by
  induction l generalizing request w with
  | nil => exact congrArg (List.cons .arrives) (marks_unmarked serve w (last request))
  | cons f rest ih =>
    refine (marks_around_watched f (passing f) ih request w).trans ?_
    rw [List.reverse_cons, List.map_append, List.map_cons, List.cons_append, List.append_assoc]
    rfl

end Passing

/-! ## Chains after an insertion -/

namespace Chain
variable {ε : Type} [DecidableEq φ] {new : φ} {l : List φ}

/-- Inserting keeps a chain intact. A filter that is not in it yet comes before
every match and nowhere else, as often as is told, and without it the chain is
the old one; once it is there it is not inserted again, whatever is tested.
Requests then pass the filters of the new chain in their order, each once, and
outcomes in the reverse order. A test that fails on any filter leaves the chain,
and the first that does is told. -/
theorem insertion_keeps_chain (hnew : new ∉ l) :
    (∀ (test : φ → Except ε Bool) (p : φ → Bool), (∀ f ∈ l, test f = .ok (p f)) →
      ∃ chain, insertBefore test new l = .ok (l.countP p, chain) ∧
        (insertInPlace test new).run.run l = (.ok (l.countP p), chain) ∧
        Spliced p new l chain ∧
        (0 < l.countP p → ∀ again : φ → Except ε Bool, insertBefore again new chain = .ok (0, chain)) ∧
        ∀ (passing : φ → Passing I) (last : Handler I) (serve : Program.Service I σ) (request : Request)
          (w : World σ),
          let watched := throughFilters (chain.map fun f => ((passing f).watched f).around) last.watched request
          watched.marks serve w = chain.map .enters ++ .arrives :: chain.reverse.map .leaves ∧
            watched.run (ignoring serve) w =
              (throughFilters (chain.map fun f => (passing f).around) last request).run serve w) ∧
    ∀ test : φ → Except ε Bool, (∃ f ∈ l, ∃ e, test f = .error e) →
      ∃ e, FirstFails test l e ∧ insertBefore test new l = .error e ∧
        (insertInPlace test new).run.run l = (.error e, l) := by
  constructor
  · intro test p htest
    have hinserted : insertBefore test new l = .ok (l.countP p, spliced p new l) := insertBefore_eq hnew htest
    refine ⟨_, hinserted, by rw [run_insertInPlace, hinserted], spliced_intact hnew, ?_, ?_⟩
    · exact fun hmatch again => insertBefore_of_mem (mem_spliced hmatch)
    · exact fun passing last serve request w =>
        ⟨Passing.marks_through serve passing last _ request w, Passing.run_watched serve passing last _ request w⟩
  · intro test hfails
    obtain ⟨e, hfirst, herror⟩ := insertBefore_raises hnew hfails
    exact ⟨e, hfirst, herror, by rw [run_insertInPlace, herror]⟩

/-- Before both odd numbers, but not when two cannot be told. -/
theorem insertion_keeps_chain_odd :
    (∃ chain, insertBefore (fun f => (.ok (f % 2 == 1) : Except String Bool)) 0 [1, 2, 3] = .ok (2, chain) ∧
      chain.filter (fun f => decide (f ≠ 0)) = [1, 2, 3] ∧
      insertBefore (fun _ => (.ok true : Except String Bool)) 0 chain = .ok (0, chain)) ∧
    (insertInPlace (fun f => if f = 2 then .error "two" else .ok true) 0).run.run [1, 2, 3] =
      (.error "two", [1, 2, 3]) := by
  have hnew : 0 ∉ [1, 2, 3] := by decide
  have hkeeps := @insertion_keeps_chain Endpoint Nat Unit String _ 0 [1, 2, 3] hnew
  obtain ⟨chain, hinserted, -, hspliced, hagain, -⟩ := hkeeps.1 _ (fun f => f % 2 == 1) fun _ _ => rfl
  obtain ⟨e, ⟨before, f, after, -, -, hfails⟩, -, hstays⟩ :=
    hkeeps.2 (fun f => if f = 2 then .error "two" else .ok true) ⟨2, by decide, "two", rfl⟩
  have he : e = "two" := by
    dsimp only at hfails
    split at hfails
    · exact (Except.error.inj hfails).symm
    · cases hfails
  exact ⟨⟨chain, hinserted, hspliced.filter_eq, hagain (by decide) _⟩, he ▸ hstays⟩

end Chain

end

theorem EncryptingClient.splice_codec (encryption : Encryption) {filters : List Filter}
    (h : filters.any isChecksum = true) :
    Chain.splice (fun f => (.ok (isChecksum f) : Except Error Bool)) (.codec encryption) filters =
      .ok (withCodec encryption filters) := by
  rw [Chain.splice_eq fun _ _ => rfl, withCodec, if_pos h]
  rfl

end SealedStore
