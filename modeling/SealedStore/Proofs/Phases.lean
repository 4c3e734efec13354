import Mathlib.Data.List.Chain
import SealedStore.Entropy
import SealedStore.Proofs.Calls
import SealedStore.Proofs.Travel
/-!
# Phases of a detour

What is done on a detour is up to whoever goes it: the moves may be asked for in
any order and number, a refusal may be dealt with or not, anything else may be
done between them, and the steps end with a result or with an error. A `Body` is
all of that. Its history is what was asked and what came of it.

The phases take a course through the history: every move goes one phase on or is
refused and changes nothing. The end then looks at three things, which do not
depend on each other: how the steps ended, which phase was reached, and whether
the deletion succeeded.

What is proved:
  1. `Body.steps_flow` — the steps of writes and rekeyings are such bodies.
  2. `Move.run_step`, `Body.course_history` — one move, then a whole body.
  3. `Course.isChain`, `Course.result` — where a course leads, and what was published
     on it.
  4. `Detour.run_conclude` — every way to end, with what it writes to the log.
  5. `Detour.moves_forward` — the phases, the result, the one deletion and the
     errors of the whole way.
  6. `Detour.orphaned_iff_ended` — when an object that is left behind is
     reported, and what becomes of it otherwise.
  7. `Detour.flow_orphaned_iff` — writes and rekeyings always report it.
-/

namespace SealedStore

/-- The phase after a phase. -/
inductive DetourState.Next : DetourState → DetourState → Prop
  | written : Next .started .written
  | published : Next .written .published
  | cleanedUp : Next .published .cleanedUp

/-- At most one phase on. -/
def DetourState.Forward (a b : DetourState) : Prop := a = b ∨ Next a b

theorem Phase.result?_eq_some_iff {ρ : Type} {p : Phase ρ} (hp : p.state ≠ .cleanedUp) {r : ρ} :
    p.result? = some r ↔ p = .published r := by
  cases p with
  | started | written => exact ⟨nofun, nofun⟩
  | published r' => rw [result?, Option.some_inj, published.injEq]
  | cleanedUp r' => exact absurd rfl hp

theorem Phase.state_ne_published {ρ : Type} {p : Phase ρ} (hp : p.result? = none) : p.state ≠ .published := by
  cases p with
  | started | written => exact DetourState.noConfusion
  | published r | cleanedUp r => cases hp

/-! ## Moves -/

/-- A move that is asked for. -/
inductive Move (ρ : Type) where
  | write
  | publish (result : ρ)

namespace Move
variable {I : Interface} {σ ρ : Type}

def step : Move ρ → DetourStep I ρ Unit
  | .write => Detour.written
  | .publish result => Detour.published result

/-- The only phase from which the move is allowed. -/
def origin : Move ρ → DetourState
  | .write => .started
  | .publish _ => .written

/-- The phase to which it leads. -/
def target : Move ρ → Phase ρ
  | .write => .written
  | .publish result => .published result

theorem next_origin_target (m : Move ρ) : DetourState.Next m.origin m.target.state := by
  cases m with
  | write => exact .written
  | publish result => exact .published

theorem run_step (serve : Program.Service I σ) (m : Move ρ) (d : Detour ρ) (w : World σ) :
    (m.step.run.run d : Program I _).run serve w =
      if d.phase.state = m.origin then
        ((.ok (), { d with phase := m.target }),
          w.reported (.moved d.target d.phase.state m.target.state))
      else ((.error (.outOfOrder d.phase.state m.target.state), d), w) := by
  obtain ⟨target, temp, phase⟩ := d
  cases m with
  | write | publish => cases phase <;> rfl

theorem calls_step (serve : Program.Service I σ) (m : Move ρ) (d : Detour ρ) (w : World σ) :
    (m.step.run.run d : Program I _).calls serve w = [] := by
  obtain ⟨target, temp, phase⟩ := d
  cases m with
  | write | publish => cases phase <;> rfl

end Move

/-! ## Bodies -/

/-- What may be done on a detour: anything else, looks at the detour itself, and
moves, each with a view to all answers before it, until an end. -/
inductive Body (I : Interface) (ρ α : Type) : Type 1 where
  | ends (result : Except Error α)
  | act {β : Type} (p : Program I β) (next : β → Body I ρ α)
  | look (next : Detour ρ → Body I ρ α)
  | move (asked : Move ρ) (next : Except Error Unit → Body I ρ α)

namespace Body
variable {I : Interface} {ρ α β : Type}

/-- Does what a body says. -/
def perform : Body I ρ α → Detour ρ → Program I (Except Error α × Detour ρ)
  | .ends result, d => return (result, d)
  | .act p next, d => p >>= fun b => (next b).perform d
  | .look next, d => (next d).perform d
  | .move asked next, d => asked.step.run.run d >>= fun out => (next out.1).perform out.2

def steps (body : Body I ρ α) : DetourStep I ρ α := ExceptT.mk body.perform

/-- The part of a body that publishes, and stops at the first error. -/
def publication (publish : Attempt I ρ) (finish : ρ → α) : Body I ρ α :=
  .act publish.run fun
    | .error e => .ends (.error e)
    | .ok result => .move (.publish result) fun
      | .error e => .ends (.error e)
      | .ok () => .ends (.ok (finish result))

/-- The body of a detour that writes its object and publishes it, and stops at
the first error. -/
def flow (write : Attempt I β) (publish : Attempt I ρ) (finish : ρ → α) : Body I ρ α :=
  .act write.run fun
    | .error e => .ends (.error e)
    | .ok _ => .move .write fun
      | .error e => .ends (.error e)
      | .ok () => publication publish finish

/-- The steps of writes and rekeyings are the steps of a body. -/
theorem steps_flow (write : Attempt I β) (publish : Attempt I ρ) (finish : ρ → α) :
    (flow write publish finish).steps = (do
      let _ ← Detour.attempt write
      Detour.written
      let result ← Detour.attempt publish
      Detour.published result
      return finish result) := by
  refine ExceptT.ext (StateT.ext fun d => ?_)
  obtain ⟨target, temp, phase⟩ := d
  -- Both sides branch on the same results; out of order they are refused alike.
  rw [Detour.run_attempt_bind]
  refine bind_congr fun wrote => ?_
  cases wrote with
  | error e => rfl
  | ok b =>
    cases phase with
    | written | published | cleanedUp => rfl
    | started =>
      refine congrArg (Program.log _) ?_
      let rest : DetourStep I ρ α :=
        Detour.attempt publish >>= fun result => Detour.published result >>= fun _ => pure (finish result)
      show publish.run >>= _ = rest.run.run { target, temp, phase := .written }
      rw [Detour.run_attempt_bind]
      refine bind_congr fun done => ?_
      cases done <;> rfl

end Body

/-! ## What was asked -/

/-- A move with the phase in which it was asked for and what came of it. -/
structure Asked (ρ : Type) where
  move : Move ρ
  before : Phase ρ
  reply : Except Error Unit
  after : Phase ρ

/-- How a move is answered. A refusal names the phase and the one that was
asked for. -/
inductive Asked.Answered {ρ : Type} (a : Asked ρ) : Prop
  | granted (h : a.before.state = a.move.origin) (hr : a.reply = .ok ()) (ha : a.after = a.move.target)
  | refused (h : a.before.state ≠ a.move.origin)
      (hr : a.reply = .error (.outOfOrder a.before.state a.move.target.state)) (ha : a.after = a.before)

/-- What a move has published. -/
def Asked.published? {ρ : Type} (a : Asked ρ) : Option ρ :=
  match a.move, a.reply with
  | .publish result, .ok () => some result
  | _, _ => none

namespace Asked.Answered
variable {ρ : Type} {a : Asked ρ}

theorem forward (h : a.Answered) : a.before.state.Forward a.after.state := by
  cases h with
  | granted h hr ha =>
    right
    rw [h, ha]
    exact Move.next_origin_target a.move
  | refused h hr ha =>
    left
    rw [ha]

/-- What is published is the argument of the move, and only if it is granted. -/
theorem result (h : a.Answered) :
    a.after.result?.toList = a.before.result?.toList ++ a.published?.toList := by
  obtain ⟨move, before, reply, after⟩ := a
  cases h with
  | granted h hr ha =>
    dsimp only at h hr ha
    subst hr ha
    cases move with
    | write | publish =>
      -- The one phase left is the one the move starts from.
      cases before <;> first | rfl | cases h
  | refused h hr ha =>
    dsimp only at h hr ha
    subst hr ha
    cases move with
    | write | publish => rw [published?, Option.toList_none, List.append_nil]

theorem not_cleanedUp (h : a.Answered) (hb : a.before.state ≠ .cleanedUp) : a.after.state ≠ .cleanedUp := by
  cases h with
  | granted h hr ha =>
    rw [ha]
    cases a.move <;> exact DetourState.noConfusion
  | refused h hr ha => rwa [ha]

end Asked.Answered

/-- The moves that a body asks for in a run, with what came of them. -/
def Body.history {I : Interface} {ρ α σ : Type} (serve : Program.Service I σ) :
    Body I ρ α → Detour ρ → World σ → List (Asked ρ)
  | .ends _, _, _ => []
  | .act p next, d, w => (next (p.run serve w).1).history serve d (p.run serve w).2
  | .look next, d, w => (next d).history serve d w
  | .move asked next, d, w =>
    let out := (asked.step.run.run d : Program I _).run serve w
    { move := asked, before := d.phase, reply := out.1.1, after := out.1.2.phase } ::
      (next out.1.1).history serve out.1.2 out.2

/-- A course from phase to phase: each move is answered where the one before it
has led. -/
inductive Course {ρ : Type} : Phase ρ → List (Asked ρ) → Phase ρ → Prop
  | here (p : Phase ρ) : Course p [] p
  | on {a : Asked ρ} {rest : List (Asked ρ)} {p : Phase ρ} (h : a.Answered) (hrest : Course a.after rest p) :
      Course a.before (a :: rest) p

namespace Body
variable {I : Interface} {ρ α σ : Type} (serve : Program.Service I σ)

/-- What a body asks for is a course, from the phase in which it begins to the one
in which it ends. -/
theorem course_history (body : Body I ρ α) (d : Detour ρ) (w : World σ) :
    Course d.phase (body.history serve d w) ((body.perform d).run serve w).1.2.phase := by
  induction body generalizing d w with
  | ends result => exact .here d.phase
  | act p next ih =>
    rw [perform, Program.run_bind]
    exact ih _ d _
  | look next ih => exact ih d d w
  | move asked next ih =>
    -- The rest of the body begins in the phase to which the move has led.
    rw [perform, Program.run_bind]
    refine Course.on (a := ⟨asked, d.phase, _, _⟩) ?_ (ih _ _ _)
    rw [Move.run_step]
    split
    · next h => exact .granted h rfl rfl
    · next h => exact .refused h rfl rfl

theorem perform_keeps (body : Body I ρ α) (d : Detour ρ) (w : World σ) :
    ((body.perform d).run serve w).1.2.target = d.target ∧ ((body.perform d).run serve w).1.2.temp = d.temp := by
  induction body generalizing d w with
  | ends result => exact ⟨rfl, rfl⟩
  | act p next ih =>
    rw [perform, Program.run_bind]
    exact ih _ d _
  | look next ih => exact ih d d w
  | move asked next ih =>
    rw [perform, Program.run_bind, Move.run_step]
    split
    · exact ih _ { d with phase := asked.target } _
    · exact ih _ d _

theorem publication_ends_well (publish : Attempt I ρ) (finish : ρ → α) (d : Detour ρ) (w : World σ) {r : ρ}
    (hr : r ∈ ((publication publish finish).history serve d w).filterMap Asked.published?) :
    ∃ a, (((publication publish finish).perform d).run serve w).1.1 = .ok a := by
  obtain ⟨target, temp, phase⟩ := d
  rw [publication, perform, Program.run_bind]
  rw [publication, history] at hr
  -- Of the calls of publishing only their outcome matters here.
  generalize publish.run.run serve w = done at hr ⊢
  obtain ⟨done, w⟩ := done
  cases done with
  | error e => cases hr
  | ok result =>
    cases phase with
    | written => exact ⟨finish result, rfl⟩
    | started | published | cleanedUp => cases hr

/-- A body that does nothing after it has published ends well if it has. -/
theorem flow_ends_well {β : Type} (write : Attempt I β) (publish : Attempt I ρ) (finish : ρ → α)
    (d : Detour ρ) (w : World σ) {r : ρ}
    (hr : r ∈ ((flow write publish finish).history serve d w).filterMap Asked.published?) :
    ∃ a, (((flow write publish finish).perform d).run serve w).1.1 = .ok a := by
  obtain ⟨target, temp, phase⟩ := d
  rw [flow, perform, Program.run_bind]
  rw [flow, history] at hr
  generalize write.run.run serve w = wrote at hr ⊢
  obtain ⟨wrote, w⟩ := wrote
  cases wrote with
  | error e => cases hr
  | ok b =>
    cases phase with
    | written | published | cleanedUp => cases hr
    | started =>
      exact publication_ends_well serve publish finish { target, temp, phase := .written }
        (w.reported (.moved target .started .written)) hr

end Body

namespace Course
variable {ρ : Type} {p q : Phase ρ} {history : List (Asked ρ)}

theorem isChain (h : Course p history q) {s : DetourState} (hs : q.state.Forward s) :
    List.IsChain DetourState.Forward (p.state :: (history.map (·.after.state) ++ [s])) := by
  induction h with
  | here p => exact .cons_cons hs (.singleton s)
  | on h hrest ih => exact .cons_cons h.forward (ih hs)

theorem result (h : Course p history q) :
    q.result?.toList = p.result?.toList ++ history.filterMap Asked.published? := by
  rw [List.filterMap_eq_flatMap_toList]
  induction h with
  | here p => rw [List.flatMap_nil, List.append_nil]
  | on h hrest ih => rw [ih, h.result, List.append_assoc, List.flatMap_cons]

theorem not_cleanedUp (h : Course p history q) (hp : p.state ≠ .cleanedUp) : q.state ≠ .cleanedUp := by
  induction h with
  | here p => exact hp
  | on h hrest ih => exact ih (h.not_cleanedUp hp)

end Course

/-! ## The end -/

/-- How a detour ends, by whether the deletion succeeded, how the steps ended and
which phase they reached, and what the log says of it. -/
inductive Concludes {ρ α : Type} (d : Detour ρ) :
    Except Error Unit → Except Error α → Except (DetourFailure ρ) α → Detour ρ → List LogEvent → Prop
  | cleaned {r : ρ} (h : d.phase = .published r) (a : α) :
      Concludes d (.ok ()) (.ok a) (.ok a) { d with phase := .cleanedUp r } [.moved d.target .published .cleanedUp]
  | unpublished (h : d.phase.state ≠ .published) (a : α) : Concludes d (.ok ()) (.ok a) (.ok a) d []
  | failed (e : Error) : Concludes d (.ok ()) (.error e) (.error (.failed e)) d []
  | failedTwice (cause e : Error) :
      Concludes d (.error cause) (.error e) (.error (.failed e)) d [.cleanupFailed d.temp cause]
  | orphaned {r : ρ} (h : d.phase = .published r) (cause : Error) (a : α) :
      Concludes d (.error cause) (.ok a) (.error (.orphaned r cause)) d [.orphaned d.temp d.target cause]
  | undeleted (h : d.phase.state ≠ .published) (cause : Error) (a : α) :
      Concludes d (.error cause) (.ok a) (.error (.failed cause)) d []

namespace Concludes
variable {ρ α : Type} {d d' : Detour ρ} {deleted : Except Error Unit} {result : Except Error α}
  {out : Except (DetourFailure ρ) α} {notes : List LogEvent}

theorem forward (h : Concludes d deleted result out d' notes) : d.phase.state.Forward d'.phase.state := by
  cases h with
  | cleaned h a =>
    right
    rw [h]
    exact .cleanedUp
  | unpublished | failed | failedTwice | orphaned | undeleted => exact .inl rfl

theorem result_eq (h : Concludes d deleted result out d' notes) : d'.phase.result? = d.phase.result? := by
  cases h with
  | cleaned h a => rw [h, Phase.result?, Phase.result?]
  | unpublished | failed | failedTwice | orphaned | undeleted => rfl

theorem keeps (h : Concludes d deleted result out d' notes) : d'.target = d.target ∧ d'.temp = d.temp := by
  cases h <;> exact ⟨rfl, rfl⟩

theorem cleanedUp_iff (h : Concludes d deleted result out d' notes) (hd : d.phase.state ≠ .cleanedUp) :
    d'.phase.state = .cleanedUp ↔ (∃ a, result = .ok a) ∧ d.phase.state = .published ∧ deleted = .ok () := by
  cases h with
  | cleaned h a => exact ⟨fun _ => ⟨⟨a, rfl⟩, by rw [h]; rfl, rfl⟩, fun _ => rfl⟩
  | unpublished h a => exact ⟨fun hc => absurd hc hd, fun hp => absurd hp.2.1 h⟩
  | failed e => exact ⟨fun hc => absurd hc hd, fun hp => nomatch hp.1⟩
  | failedTwice cause e | orphaned h cause a | undeleted h cause a =>
    exact ⟨fun hc => absurd hc hd, fun hp => nomatch hp.2.2⟩

/-- An object left behind is reported by an error of its own in one of the six
cases only. -/
theorem orphaned_iff (h : Concludes d deleted result out d' notes) (r : ρ) (cause : Error) :
    out = .error (.orphaned r cause) ↔
      d.phase = .published r ∧ (∃ a, result = .ok a) ∧ deleted = .error cause := by
  cases h with
  | cleaned h a | unpublished h a => exact ⟨nofun, fun hp => nomatch hp.2.2⟩
  | failed e | failedTwice _ e => exact ⟨nofun, fun hp => nomatch hp.2.1⟩
  | @orphaned r' h cause' a =>
    constructor
    · intro he
      cases he
      exact ⟨h, ⟨a, rfl⟩, rfl⟩
    · rintro ⟨hr, -, hc⟩
      cases hc
      cases h.symm.trans hr
      rfl
  | undeleted h cause' a => exact ⟨nofun, fun hp => absurd (by rw [hp.1]; rfl) h⟩

theorem of_failed (h : Concludes d deleted result out d' notes) {e : Error} (hr : result = .error e) :
    out = .error (.failed e) := by
  cases h with
  | failed e' | failedTwice cause e' =>
    cases hr
    rfl
  | cleaned | unpublished | orphaned | undeleted => cases hr

theorem notes_of_failed (h : Concludes d deleted result out d' notes) {e cause : Error}
    (hr : result = .error e) (hd : deleted = .error cause) : notes = [.cleanupFailed d.temp cause] := by
  cases h with
  | failedTwice cause' e' =>
    cases hd
    rfl
  | failed => cases hd
  | cleaned | unpublished | orphaned | undeleted => cases hr

theorem notes_of_orphaned (h : Concludes d deleted result out d' notes) {r : ρ} {cause : Error}
    (ho : out = .error (.orphaned r cause)) : notes = [.orphaned d.temp d.target cause] := by
  cases h with
  | orphaned h cause' a =>
    cases ho
    rfl
  | cleaned | unpublished | failed | failedTwice | undeleted => cases ho

/-- A deletion that fails before anything is published is an error like any
other, and no matter for the log. -/
theorem of_undeleted (h : Concludes d deleted result out d' notes) {a : α} {cause : Error}
    (hr : result = .ok a) (hd : deleted = .error cause) (hp : d.phase.state ≠ .published) :
    out = .error (.failed cause) ∧ notes = [] := by
  cases h with
  | undeleted h cause' a' =>
    cases hd
    exact ⟨rfl, rfl⟩
  | orphaned h => exact absurd (by rw [h]; rfl) hp
  | cleaned | unpublished => cases hd
  | failed | failedTwice => cases hr

end Concludes

namespace Detour
variable {I : Interface} {ρ α σ : Type} (serve : Program.Service I σ)

/-- Deletes once, and then says how the detour has ended. -/
theorem run_conclude (delete : Identity → Attempt I Unit) (d : Detour ρ) (result : Except Error α)
    (w : World σ) :
    let deleted := (delete d.temp).run.run serve w
    let out := (conclude delete d result).run serve w
    ∃ notes, Concludes d deleted.1 result out.1.1 out.1.2 notes ∧
      out.2 = notes.foldl World.reported deleted.2 := by
  unfold conclude
  rw [Program.run_bind]
  obtain ⟨target, temp, phase⟩ := d
  dsimp only
  -- The delete comes first and may fail; how all ends is decided after it.
  generalize (delete temp).run.run serve w = deleted
  obtain ⟨reply, after⟩ := deleted
  cases reply with
  | ok u =>
    cases result with
    | ok a =>
      cases phase with
      | published r => exact ⟨_, .cleaned rfl a, rfl⟩
      | started | written | cleanedUp => exact ⟨_, .unpublished DetourState.noConfusion a, rfl⟩
    | error e => exact ⟨_, .failed e, rfl⟩
  | error cause =>
    cases result with
    | ok a =>
      cases phase with
      | published r => exact ⟨_, .orphaned rfl cause a, rfl⟩
      | started | written | cleanedUp => exact ⟨_, .undeleted DetourState.noConfusion cause a, rfl⟩
    | error e => exact ⟨_, .failedTwice cause e, rfl⟩

theorem calls_conclude (delete : Identity → Attempt I Unit) (d : Detour ρ) (result : Except Error α)
    (w : World σ) : (conclude delete d result).calls serve w = (delete d.temp).run.calls serve w := by
  unfold conclude
  rw [Program.calls_bind, List.append_right_eq_self]
  obtain ⟨target, temp, phase⟩ := d
  dsimp only
  generalize (delete temp).run.run serve w = deleted
  obtain ⟨reply, after⟩ := deleted
  cases reply with
  | ok u | error cause =>
    cases result with
    | ok a => cases phase <;> rfl
    | error e => rfl

end Detour

/-! ## Deletions that can be counted -/

/-- An interface with one more call, which deletes an object. -/
abbrev Interface.withDeletion (I : Interface) : Interface where
  Call := I.Call ⊕ Identity
  Reply := Sum.elim I.Reply fun _ => Except Error Unit

def deletion (I : Interface) (target : Identity) : Attempt I.withDeletion Unit :=
  ExceptT.mk (Program.invoke (I := I.withDeletion) (.inr target))

def Program.lifted {I : Interface} {α : Type} (p : Program I α) : Program I.withDeletion α :=
  p.interpret fun c => Program.invoke (I := I.withDeletion) (.inl c)

def Body.lifted {I : Interface} {ρ α : Type} : Body I ρ α → Body I.withDeletion ρ α
  | .ends result => .ends result
  | .act p next => .act p.lifted fun b => (next b).lifted
  | .look next => .look fun d => (next d).lifted
  | .move asked next => .move asked fun r => (next r).lifted

section
variable {I : Interface} {ρ α σ : Type} (serve : Program.Service I.withDeletion σ)

theorem Program.calls_lifted (p : Program I α) (w : World σ) :
    ∃ made : List I.Call, p.lifted.calls serve w = made.map .inl := by
  induction p generalizing w with
  | done a => exact ⟨[], rfl⟩
  | draw kind size next ih => exact ih _ _
  | log event next ih => exact ih _
  | call c next ih =>
    obtain ⟨made, hmade⟩ := ih (serve (.inl c) w.state).1 { w with state := (serve (.inl c) w.state).2 }
    exact ⟨c :: made, congrArg (Sum.inl c :: ·) hmade⟩

theorem Body.calls_lifted (body : Body I ρ α) (d : Detour ρ) (w : World σ) :
    ∃ made : List I.Call, (body.lifted.perform d).calls serve w = made.map .inl := by
  induction body generalizing d w with
  | ends result => exact ⟨[], rfl⟩
  | act p next ih =>
    obtain ⟨first, hfirst⟩ := p.calls_lifted serve w
    obtain ⟨rest, hrest⟩ := ih _ d (p.lifted.run serve w).2
    refine ⟨first ++ rest, ?_⟩
    rw [lifted, perform, Program.calls_bind, hfirst, hrest, List.map_append]
  | look next ih => exact ih d d w
  | move asked next ih =>
    rw [lifted, perform, Program.calls_bind, Move.calls_step]
    exact ih _ _ _

end

/-! ## The whole way -/

/-- An interface without calls. -/
abbrev Interface.mute : Interface where
  Call := Empty
  Reply := Empty.elim

/-- Nothing has to be answered there. -/
def Program.unasked : Service .mute Unit := fun c _ => c.elim

namespace Detour
variable {I : Interface} {ρ α σ : Type}

theorem run_travel (serve : Program.Service I σ) (delete : Identity → Attempt I Unit) (body : Body I ρ α)
    (target : Identity) (suffix : String) (w : World σ) :
    let start : Detour ρ := Detour.start target suffix
    let inside := (body.perform start).run serve w
    let deleted := (delete (target.withSuffix suffix)).run.run serve inside.2
    let out := (travel delete start body.steps).run serve w
    ∃ notes, Concludes inside.1.2 deleted.1 inside.1.1 out.1.1 out.1.2 notes ∧
      out.2 = notes.foldl World.reported deleted.2 := by
  intro start inside deleted out
  have htemp : inside.1.2.temp = target.withSuffix suffix := (body.perform_keeps serve start w).2
  have hout : out = (conclude delete inside.1.2 inside.1.1).run serve inside.2 :=
    Program.run_bind serve w _ _
  rw [hout]
  have hends := run_conclude serve delete inside.1.2 inside.1.1 inside.2
  rwa [htemp] at hends

/-- Whatever is done on a detour: its phases go one on at a time, and a move out
of order raises and changes nothing; what it has published is the argument of
the one move that was granted to publish; the temporary object is deleted once,
after everything else; the last phase is reached exactly if the steps ended
well in the one before it and the deletion succeeded; and an error of the steps
comes out as it is if the deletion succeeded. -/
theorem moves_forward (serve : Program.Service I.withDeletion σ) (body : Body I ρ α) (target : Identity)
    (suffix : String) (w : World σ) :
    let start : Detour ρ := Detour.start target suffix
    let temp := target.withSuffix suffix
    let asked := body.lifted.history serve start w
    let inside := (body.lifted.perform start).run serve w
    let deleted := ((deletion I temp).run.run serve inside.2).1
    let way := travel (deletion I) start body.lifted.steps
    let out := (way.run serve w).1
    Course .started asked inside.1.2.phase ∧
      List.IsChain DetourState.Forward (.started :: (asked.map (·.after.state) ++ [out.2.phase.state])) ∧
      out.2.phase.result?.toList = asked.filterMap Asked.published? ∧
      (∃ made : List I.Call, way.calls serve w = made.map .inl ++ [.inr temp]) ∧
      (out.2.phase.state = .cleanedUp ↔
        (∃ a, inside.1.1 = .ok a) ∧ inside.1.2.phase.state = .published ∧ deleted = .ok ()) ∧
      ∀ e, inside.1.1 = .error e → deleted = .ok () → out.1 = .error (.failed e) := by
  intro start temp asked inside deleted way out
  have hcourse : Course .started asked inside.1.2.phase := body.lifted.course_history serve start w
  have hlast : inside.1.2.phase.state ≠ .cleanedUp := hcourse.not_cleanedUp DetourState.noConfusion
  obtain ⟨notes, hends, -⟩ := run_travel serve (deletion I) body.lifted target suffix w
  -- The end is the last step of the chain, and the deletion the last call.
  refine ⟨hcourse, hcourse.isChain hends.forward, ?_, ?_, hends.cleanedUp_iff hlast, fun e he _ => hends.of_failed he⟩
  · rw [hends.result_eq, hcourse.result]
    rfl
  · obtain ⟨made, hmade⟩ := body.calls_lifted serve start w
    have htemp : inside.1.2.temp = temp := (body.lifted.perform_keeps serve start w).2
    have hway : way.calls serve w = (body.lifted.perform start).calls serve w ++
        (conclude (deletion I) inside.1.2 inside.1.1).calls serve inside.2 := Program.calls_bind _ _ w
    refine ⟨made, ?_⟩
    rw [hway, hmade, calls_conclude, htemp]
    rfl

/-- Two moves out of order that are dealt with, on a way that publishes and then
fails. -/
theorem moves_forward_refused :
    let serve : Program.Service Interface.mute.withDeletion (List Identity)
      | .inl c, _ => nomatch c
      | .inr target, deleted => (.ok (), deleted ++ [target])
    let body : Body .mute String Unit :=
      .move (.publish "early") fun _ => .move .write fun _ => .move (.publish "result") fun _ =>
        .move .write fun _ => .ends (.error (.io "late"))
    let out := ((travel (deletion .mute) (Detour.start ⟨"bucket", "doc"⟩ ".temp") body.lifted.steps).run serve
      { entropy := Entropy.ofSeed "", state := [] })
    out.1.1 = .error (.failed (.io "late")) ∧ out.1.2.phase.state = .published ∧
      out.2.state = [⟨"bucket", "doc.temp"⟩] := by
  intro serve body out
  obtain ⟨-, -, -, -, -, herror⟩ := moves_forward serve body ⟨"bucket", "doc"⟩ ".temp"
    { entropy := Entropy.ofSeed "", state := [] }
  exact ⟨herror (.io "late") rfl rfl, rfl, rfl⟩

theorem orphaned_iff_published (serve : Program.Service I σ) (delete : Identity → Attempt I Unit)
    (body : Body I ρ α) (target : Identity) (suffix : String) (w : World σ) (r : ρ) (cause : Error) :
    let start : Detour ρ := Detour.start target suffix
    let inside := (body.perform start).run serve w
    let deleted := (delete (target.withSuffix suffix)).run.run serve inside.2
    ((travel delete start body.steps).run serve w).1.1 = .error (.orphaned r cause) ↔
      r ∈ (body.history serve start w).filterMap Asked.published? ∧ (∃ a, inside.1.1 = .ok a) ∧
        deleted.1 = .error cause := by
  intro start inside deleted
  have hcourse : Course .started (body.history serve start w) inside.1.2.phase :=
    body.course_history serve start w
  have hlast : inside.1.2.phase.state ≠ .cleanedUp := hcourse.not_cleanedUp DetourState.noConfusion
  have hresult : inside.1.2.phase.result?.toList = (body.history serve start w).filterMap Asked.published? :=
    hcourse.result
  obtain ⟨notes, hends, -⟩ := run_travel serve delete body target suffix w
  -- Before the end, to have published is to be in the phase after it.
  rw [hends.orphaned_iff, ← hresult, Option.mem_toList, Phase.result?_eq_some_iff hlast]

/-- An object that is left behind after it was published is reported by an error
of its own, which holds the result and the cause, if the steps had ended well. An
error of the steps stands in any case, and then a deletion that failed is only
logged, even if something had been published. -/
theorem orphaned_iff_ended (serve : Program.Service I σ) (delete : Identity → Attempt I Unit)
    (body : Body I ρ α) (target : Identity) (suffix : String) (w : World σ) :
    let start : Detour ρ := Detour.start target suffix
    let temp := target.withSuffix suffix
    let asked := body.history serve start w
    let inside := (body.perform start).run serve w
    let deleted := (delete temp).run.run serve inside.2
    let out := (travel delete start body.steps).run serve w
    (out.1.2.target = target ∧ out.1.2.temp = temp) ∧
      (∀ r cause, out.1.1 = .error (.orphaned r cause) ↔
        r ∈ asked.filterMap Asked.published? ∧ (∃ a, inside.1.1 = .ok a) ∧ deleted.1 = .error cause) ∧
      (∀ r cause, out.1.1 = .error (.orphaned r cause) →
        out.2 = deleted.2.reported (.orphaned temp target cause)) ∧
      (∀ e, inside.1.1 = .error e → out.1.1 = .error (.failed e)) ∧
      (∀ e cause, inside.1.1 = .error e → deleted.1 = .error cause →
        out.2 = deleted.2.reported (.cleanupFailed temp cause)) ∧
      ∀ a cause, inside.1.1 = .ok a → deleted.1 = .error cause → asked.filterMap Asked.published? = [] →
        out.1.1 = .error (.failed cause) ∧ out.2 = deleted.2 := by
  intro start temp asked inside deleted out
  have hcourse : Course .started asked inside.1.2.phase := body.course_history serve start w
  have hresult : inside.1.2.phase.result?.toList = asked.filterMap Asked.published? := hcourse.result
  obtain ⟨htarget, htemp⟩ : inside.1.2.target = target ∧ inside.1.2.temp = temp :=
    body.perform_keeps serve start w
  obtain ⟨notes, hends, hnotes⟩ := run_travel serve delete body target suffix w
  refine ⟨⟨hends.keeps.1.trans htarget, hends.keeps.2.trans htemp⟩,
    orphaned_iff_published serve delete body target suffix w, fun r cause ho => ?_,
    fun e he => hends.of_failed he, fun e cause he hd => ?_, fun a cause ha hd hnone => ?_⟩
  · rw [hnotes, hends.notes_of_orphaned ho, htemp, htarget]
    rfl
  · rw [hnotes, hends.notes_of_failed he hd, htemp]
    rfl
  · have hphase : inside.1.2.phase.state ≠ .published := by
      rw [← hresult, Option.toList_eq_nil_iff] at hnone
      exact Phase.state_ne_published hnone
    obtain ⟨hout, hnil⟩ := hends.of_undeleted ha hd hphase
    rw [hnotes, hnil]
    exact ⟨hout, rfl⟩

/-- An object that is published and left behind, after steps that ended well and
after steps that failed. -/
theorem orphaned_iff_ended_published :
    let delete : Identity → Attempt .mute Unit := fun _ => throw (.io "delete failed")
    let body (result : Except Error Unit) : Body .mute String Unit :=
      .move .write fun _ => .move (.publish "result") fun _ => .ends result
    let out (result : Except Error Unit) :=
      (travel delete (Detour.start ⟨"bucket", "doc"⟩ ".temp") (body result).steps).run Program.unasked
        { entropy := Entropy.ofSeed "", state := () }
    (out (.ok ())).1.1 = .error (.orphaned "result" (.io "delete failed")) ∧
      (out (.error (.io "late"))).1.1 = .error (.failed (.io "late")) := by
  intro delete body out
  have hout (result : Except Error Unit) := orphaned_iff_ended Program.unasked
    delete (body result) ⟨"bucket", "doc"⟩ ".temp" { entropy := Entropy.ofSeed "", state := () }
  exact ⟨((hout (.ok ())).2.1 "result" (.io "delete failed")).mpr ⟨List.mem_singleton_self _, ⟨(), rfl⟩, rfl⟩,
    (hout (.error (.io "late"))).2.2.2.1 (.io "late") rfl⟩

/-- Not every object that is published and left behind is reported: an error of
the steps hides it. -/
theorem late_error_stands :
    ¬∀ (I : Interface) (serve : Program.Service I Unit) (delete : Identity → Attempt I Unit)
        (body : Body I String Unit) (target : Identity) (suffix : String) (w : World Unit) (r : String)
        (cause : Error),
      let start : Detour String := Detour.start target suffix
      let inside := (body.perform start).run serve w
      r ∈ (body.history serve start w).filterMap Asked.published? →
      ((delete (target.withSuffix suffix)).run.run serve inside.2).1 = .error cause →
      ((travel delete start body.steps).run serve w).1.1 = .error (.orphaned r cause) := by
  intro hall
  have hlate := hall .mute Program.unasked
    (fun _ => throw (.io "delete failed"))
    (.move .write fun _ => .move (.publish "result") fun _ => .ends (.error (.io "late")))
    ⟨"bucket", "doc"⟩ ".temp" { entropy := Entropy.ofSeed "", state := () } "result" (.io "delete failed")
    (List.mem_singleton_self _) rfl
  cases hlate

/-- Writes and rekeyings do nothing after they have published, so that what they
leave behind is always reported. -/
theorem flow_orphaned_iff {β : Type} (serve : Program.Service I σ) (delete : Identity → Attempt I Unit)
    (write : Attempt I β) (publish : Attempt I ρ) (finish : ρ → α) (target : Identity) (suffix : String)
    (w : World σ) (r : ρ) (cause : Error) :
    let start : Detour ρ := Detour.start target suffix
    let body := Body.flow write publish finish
    let inside := (body.perform start).run serve w
    let deleted := (delete (target.withSuffix suffix)).run.run serve inside.2
    ((travel delete start body.steps).run serve w).1.1 = .error (.orphaned r cause) ↔
      r ∈ (body.history serve start w).filterMap Asked.published? ∧ deleted.1 = .error cause := by
  intro start body inside deleted
  refine (orphaned_iff_published serve delete body target suffix w r cause).trans ?_
  exact and_congr_right fun hr => and_iff_right (Body.flow_ends_well serve write publish finish start w hr)

end Detour

end SealedStore
