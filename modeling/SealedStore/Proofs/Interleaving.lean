import SealedStore.Proofs.Interference
import SealedStore.Proofs.Resemblance
/-!
# Interleaved clients

Two clients share a store and take turns at it, in any order, each with random
bytes and a log of its own, and any of their calls may fail without an effect.
As long as each stays among objects of its own, neither notices the other: both
end as if one had done all that it does before the other began, and so does the
store, whichever was first. Only times and versions tell the orders apart.

What is proved:
  1. `Party.run_turn` — a turn brings a party on its way and does not change it.
  2. `Resembles.endsAs`, `Party.Confined.turn`, `Party.Confined.keeps` — a party
     that stays among its objects.
  3. `Joint.Undisturbed.turn`, `Joint.Undisturbed.after` — what every turn
     keeps, and so any number of turns.
  4. `Joint.after_alike` — two parties that stay apart.
  5. `EncryptingClient.disjoint_detours_serialize` — writes and rekeyings.
-/

namespace SealedStore

open Storage (AgreesOn KeptOutside)

/-! ## Calls that fail -/

/-- A store that fails certain calls of a program, by their number. A call that
fails has no effect. -/
def Storage.failing (faults : Nat → Option Error) : Program.Service StorageInterface (Nat × Storage) :=
  fun c made =>
    match faults made.1 with
    | some e => (.error e, made.1 + 1, made.2)
    | none => ((Storage.serve c made.2).1, made.1 + 1, (Storage.serve c made.2).2)

/-! ## Parties -/

/-- A client amid what it does: what is still to be done, its random bytes, its
log and the number of its calls so far, and which of its calls fail. -/
structure Party (α : Type) where
  program : Program StorageInterface α
  world : World Nat
  faults : Nat → Option Error

namespace Party
variable {α β γ : Type}

/-- One effect of a party. There is none left at its end. -/
def turn (p : Party α) (s : Storage) : Party α × Storage :=
  match p.program with
  | .done _ => (p, s)
  | .draw kind size next =>
    ({ p with program := next (p.world.nextBytes kind size), world := p.world.afterDraw kind }, s)
  | .log event next => ({ p with program := next, world := p.world.reported event }, s)
  | .call c next =>
    let (reply, made, after) := Storage.failing p.faults c (p.world.state, s)
    ({ p with program := next reply, world := { p.world with state := made } }, after)

/-- All the rest of what a party does, with nobody between. -/
def run (p : Party α) (s : Storage) : (α × World Nat) × Storage :=
  let (result, w) := p.program.run (Storage.failing p.faults) (p.world.over fun made => (made, s))
  ((result, w.over Prod.fst), w.state.2)

theorem run_turn (p : Party α) (s : Storage) : (p.turn s).1.run (p.turn s).2 = p.run s := by
  obtain ⟨program, world, faults⟩ := p
  cases program with
  | done | log | call => rfl
  | draw kind size next => cases kind <;> rfl

/-- Two parties on two stores end alike: with results of which `R` holds, after
the same draws, events and number of calls, and with stores that agree on the
objects at some addresses. -/
structure EndsAs (F : Identity → Prop) (R : α → β → Prop) (p : Party α) (s : Storage) (q : Party β)
    (t : Storage) : Prop where
  result : R (p.run s).1.1 (q.run t).1.1
  world : (p.run s).1.2 = (q.run t).1.2
  storage : AgreesOn F (p.run s).2 (q.run t).2

/-- A party resembles itself on the objects at some addresses, as far as `f`
shows its result. -/
def Confined (F : Identity → Prop) (f : α → γ) (p : Party α) : Prop :=
  Resembles F (fun a b => f a = f b) p.program p.program

theorem endsAs_turn {F : Identity → Prop} {f : α → γ} (p : Party α) (s : Storage) :
    EndsAs F (fun a b => f a = f b) (p.turn s).1 (p.turn s).2 p s := by
  have hrun := p.run_turn s
  exact ⟨by rw [hrun], by rw [hrun], by rw [hrun]; exact .refl _⟩

theorem EndsAs.trans {F : Identity → Prop} {f : α → γ} {p q r : Party α} {s t u : Storage}
    (h : EndsAs F (fun a b => f a = f b) p s q t) (h' : EndsAs F (fun a b => f a = f b) q t r u) :
    EndsAs F (fun a b => f a = f b) p s r u :=
  ⟨h.result.trans h'.result, h.world.trans h'.world, h.storage.trans h'.storage⟩

variable {F G : Identity → Prop} {R : α → β → Prop} {p : Party α} {q : Party β} {s t : Storage}

theorem EndsAs.of_turns (h : EndsAs F R (p.turn s).1 (p.turn s).2 (q.turn t).1 (q.turn t).2) :
    EndsAs F R p s q t := by
  obtain ⟨hresult, hworld, hstorage⟩ := h
  rw [run_turn, run_turn] at hresult hworld hstorage
  exact ⟨hresult, hworld, hstorage⟩

theorem EndsAs.call {faults : Nat → Option Error} {w : World Nat} {c c' : StorageCall}
    {next : Except Error c.Result → Program StorageInterface α}
    {next' : Except Error c'.Result → Program StorageInterface β}
    {Q : Except Error c.Result → Except Error c'.Result → Prop} (hst : AgreesOn F s t)
    (herror : ∀ e, Q (.error e) (.error e))
    (hserve : Q (Storage.serve c s).1 (Storage.serve c' t).1 ∧
      AgreesOn F (Storage.serve c s).2 (Storage.serve c' t).2)
    (h : ∀ r r', Q r r' → ∀ w {s t : Storage}, AgreesOn F s t →
      EndsAs F R ⟨next r, w, faults⟩ s ⟨next' r', w, faults⟩ t) :
    EndsAs F R ⟨.call c next, w, faults⟩ s ⟨.call c' next', w, faults⟩ t := by
  refine .of_turns ?_
  -- The call fails on both stores, or both serve it.
  cases hfault : faults w.state with
  | some e =>
    simp only [turn, Storage.failing, hfault]
    exact h _ _ (herror e) _ hst
  | none =>
    simp only [turn, Storage.failing, hfault]
    exact h _ _ hserve.1 _ hserve.2

end Party

section
variable {α β γ : Type} {F G : Identity → Prop} {R : α → β → Prop} {f : α → γ} {s t : Storage}

/-- Programs that resemble each other end alike on stores that agree on their
objects. -/
theorem Resembles.endsAs {p : Program StorageInterface α} {q : Program StorageInterface β}
    (h : Resembles F R p q) (w : World Nat) (faults : Nat → Option Error) (hst : AgreesOn F s t) :
    Party.EndsAs F R ⟨p, w, faults⟩ s ⟨q, w, faults⟩ t := by
  induction h generalizing w s t with
  | done h => exact ⟨h, rfl, hst⟩
  | draw _ ih => exact .of_turns (ih _ _ hst)
  | log _ ih => exact .of_turns (ih _ hst)
  | call hc _ ih => exact .call hst .error (hst.serve hc) fun r r' hr w _ _ => ih r r' hr w
  | copy hsource htarget hmetadata _ ih =>
    exact .call hst .error (hst.serve_copy hsource hmetadata) fun r r' hr w _ _ => ih r r' hr w

theorem Storage.KeptOutside.failing {c : StorageCall} (h : KeptOutside F s (Storage.serve c s).2)
    (faults : Nat → Option Error) (made : Nat) : KeptOutside F s (Storage.failing faults c (made, s)).2.2 := by
  unfold Storage.failing
  cases faults made with
  | some e => exact .refl s
  | none => exact h

namespace Party
variable {p : Party α}

theorem Confined.endsAs (h : p.Confined F f) (hst : AgreesOn F s t) :
    EndsAs F (fun a b => f a = f b) p s p t := Resembles.endsAs h p.world p.faults hst

theorem Confined.turn (h : p.Confined F f) (s : Storage) :
    (p.turn s).1.Confined F f ∧ KeptOutside F s (p.turn s).2 := by
  obtain ⟨program, world, faults⟩ := p
  unfold Confined at h ⊢
  cases h with
  | done h => exact ⟨.done h, .refl s⟩
  | draw h => exact ⟨h _, .refl s⟩
  | log h => exact ⟨h, .refl s⟩
  | call hc h => exact ⟨h _ _ (.refl _), (KeptOutside.serve s hc).failing ..⟩
  | copy hsource htarget hmetadata h =>
    exact ⟨h _ _ (.refl _), (KeptOutside.serve_copy s htarget ..).failing ..⟩

/-- All that a confined party does leaves the other objects as they are. -/
theorem Confined.keeps (h : p.Confined F f) (s : Storage) : KeptOutside F s (p.run s).2 := by
  obtain ⟨program, world, faults⟩ := p
  -- One turn after the other, each of which leaves the party confined.
  induction program generalizing world s with
  | done a => exact .refl s
  | draw kind size next ih =>
    rw [← run_turn]
    exact (h.turn s).2.trans (ih _ _ _ (h.turn s).1)
  | log event next ih =>
    rw [← run_turn]
    exact (h.turn s).2.trans (ih _ _ (h.turn s).1)
  | call c next ih =>
    rw [← run_turn]
    exact (h.turn s).2.trans (ih _ _ _ (h.turn s).1)

end Party

end

/-! ## Two parties -/

inductive Side where
  | left
  | right
  deriving DecidableEq

structure Joint (α β : Type) where
  left : Party α
  right : Party β
  storage : Storage

structure Ending (α β : Type) where
  left : α × World Nat
  right : β × World Nat
  storage : Storage

def Ending.swap {α β : Type} (e : Ending α β) : Ending β α :=
  { left := e.right, right := e.left, storage := e.storage }

/-- Two endings are one as far as `f` and `g` show the results, and but for what
is stamped on objects. -/
structure Ending.Alike {α β γ δ : Type} (f : α → γ) (g : β → δ) (e e' : Ending α β) : Prop where
  left : f e.left.1 = f e'.left.1
  right : g e.right.1 = g e'.right.1
  leftWorld : e.left.2 = e'.left.2
  rightWorld : e.right.2 = e'.right.2
  objects : ∀ i, e.storage.unstampedAt i = e'.storage.unstampedAt i
  uploads : e.storage.uploads = e'.storage.uploads

namespace Joint
variable {α β γ δ : Type}

def swap (j : Joint α β) : Joint β α := { left := j.right, right := j.left, storage := j.storage }

def turn (j : Joint α β) : Side → Joint α β
  | .left => { j with left := (j.left.turn j.storage).1, storage := (j.left.turn j.storage).2 }
  | .right => { j with right := (j.right.turn j.storage).1, storage := (j.right.turn j.storage).2 }

def after (j : Joint α β) (turns : List Side) : Joint α β := turns.foldl turn j

/-- The left party does all that is left to do, then the right one. -/
def leftFirst (j : Joint α β) : Ending α β :=
  let (left, s) := j.left.run j.storage
  let (right, s) := j.right.run s
  { left, right, storage := s }

/-- The right party does all that is left to do, then the left one. -/
def rightFirst (j : Joint α β) : Ending α β :=
  let (right, s) := j.right.run j.storage
  let (left, s) := j.left.run s
  { left, right, storage := s }

/-- Amid their turns both parties stay among their objects, each would end as it
would have in the beginning, and all other objects are as they were then. -/
structure Undisturbed (F G : Identity → Prop) (f : α → γ) (g : β → δ) (start j : Joint α β) : Prop where
  left : j.left.Confined F f
  right : j.right.Confined G g
  leftEnds : Party.EndsAs F (fun a b => f a = f b) j.left j.storage start.left start.storage
  rightEnds : Party.EndsAs G (fun a b => g a = g b) j.right j.storage start.right start.storage
  kept : KeptOutside (fun i => F i ∨ G i) start.storage j.storage

variable {F G : Identity → Prop} {f : α → γ} {g : β → δ} {start j : Joint α β}

theorem undisturbed_start (hleft : start.left.Confined F f) (hright : start.right.Confined G g) :
    Undisturbed F G f g start start where
  left := hleft
  right := hright
  leftEnds := hleft.endsAs (.refl _)
  rightEnds := hright.endsAs (.refl _)
  kept := .refl _

theorem Undisturbed.swap (h : Undisturbed F G f g start j) : Undisturbed G F g f start.swap j.swap where
  left := h.right
  right := h.left
  leftEnds := h.rightEnds
  rightEnds := h.leftEnds
  kept := h.kept.mono fun _ => Or.symm

theorem Undisturbed.turn_left (h : Undisturbed F G f g start j) (hdisjoint : ∀ i, F i → ¬ G i) :
    Undisturbed F G f g start (j.turn .left) := by
  -- The turn changes no object of the right party, which ends as it would have before.
  obtain ⟨hleft, hkept⟩ := h.left.turn j.storage
  exact {
    left := hleft
    right := h.right
    leftEnds := (Party.endsAs_turn j.left j.storage).trans h.leftEnds
    rightEnds := (h.right.endsAs (hkept.agreesOn hdisjoint).symm).trans h.rightEnds
    kept := h.kept.trans (hkept.mono fun _ => .inl) }

/-- No turn of one party disturbs the other. -/
theorem Undisturbed.turn (h : Undisturbed F G f g start j) (hdisjoint : ∀ i, F i → ¬ G i) (side : Side) :
    Undisturbed F G f g start (j.turn side) := by
  cases side with
  | left => exact h.turn_left hdisjoint
  | right => exact (h.swap.turn_left fun i hG hF => hdisjoint i hF hG).swap

theorem Undisturbed.after (h : Undisturbed F G f g start j) (hdisjoint : ∀ i, F i → ¬ G i) (turns : List Side) :
    Undisturbed F G f g start (j.after turns) := by
  induction turns generalizing j with
  | nil => exact h
  | cons side turns ih => exact ih (h.turn hdisjoint side)

/-- An ending in which each party has what it would have had alone. -/
structure Settled (F G : Identity → Prop) (f : α → γ) (g : β → δ) (start : Joint α β) (e : Ending α β) :
    Prop where
  left : f e.left.1 = f (start.left.run start.storage).1.1
  right : g e.right.1 = g (start.right.run start.storage).1.1
  leftWorld : e.left.2 = (start.left.run start.storage).1.2
  rightWorld : e.right.2 = (start.right.run start.storage).1.2
  leftObjects : AgreesOn F e.storage (start.left.run start.storage).2
  rightObjects : AgreesOn G e.storage (start.right.run start.storage).2
  kept : KeptOutside (fun i => F i ∨ G i) start.storage e.storage

/-- No more than one ending is settled, but for stamps. -/
theorem Settled.alike {e e' : Ending α β} (h : Settled F G f g start e) (h' : Settled F G f g start e') :
    e.Alike f g e' where
  left := h.left.trans h'.left.symm
  right := h.right.trans h'.right.symm
  leftWorld := h.leftWorld.trans h'.leftWorld.symm
  rightWorld := h.rightWorld.trans h'.rightWorld.symm
  objects i := by
    -- An object of the left party, of the right one or of neither.
    by_cases hF : F i
    · exact (h.leftObjects i hF).trans (h'.leftObjects i hF).symm
    by_cases hG : G i
    · exact (h.rightObjects i hG).trans (h'.rightObjects i hG).symm
    have hkept := h.kept.objects i (not_or.mpr ⟨hF, hG⟩)
    have hkept' := h'.kept.objects i (not_or.mpr ⟨hF, hG⟩)
    rw [Storage.unstampedAt, Storage.unstampedAt, hkept, hkept']
  uploads := h.kept.uploads.trans h'.kept.uploads.symm

theorem Settled.swap {e : Ending α β} (h : Settled F G f g start e) : Settled G F g f start.swap e.swap where
  left := h.right
  right := h.left
  leftWorld := h.rightWorld
  rightWorld := h.leftWorld
  leftObjects := h.rightObjects
  rightObjects := h.leftObjects
  kept := h.kept.mono fun _ => Or.symm

theorem Undisturbed.settled_leftFirst (h : Undisturbed F G f g start j) (hdisjoint : ∀ i, F i → ¬ G i) :
    Settled F G f g start j.leftFirst := by
  have hother : ∀ i, G i → ¬ F i := fun i hG hF => hdisjoint i hF hG
  have hfirst := h.left.keeps j.storage
  have hthen := h.right.keeps (j.left.run j.storage).2
  have hright := (h.right.endsAs (hfirst.agreesOn hdisjoint).symm).trans h.rightEnds
  exact {
    left := h.leftEnds.result
    right := hright.result
    leftWorld := h.leftEnds.world
    rightWorld := hright.world
    leftObjects := (hthen.agreesOn hother).symm.trans h.leftEnds.storage
    rightObjects := hright.storage
    kept := (h.kept.trans (hfirst.mono fun _ => .inl)).trans (hthen.mono fun _ => .inr) }

theorem Undisturbed.settled_rightFirst (h : Undisturbed F G f g start j) (hdisjoint : ∀ i, F i → ¬ G i) :
    Settled F G f g start j.rightFirst :=
  (h.swap.settled_leftFirst fun i hG hF => hdisjoint i hF hG).swap

/-- However two parties take turns that stay among objects of their own, they
end as if one came after the other. -/
theorem after_alike (hleft : start.left.Confined F f) (hright : start.right.Confined G g)
    (hdisjoint : ∀ i, F i → ¬ G i) (turns : List Side) :
    (start.after turns).leftFirst.Alike f g start.leftFirst ∧
      (start.after turns).leftFirst.Alike f g start.rightFirst := by
  have hstart : Undisturbed F G f g start start := undisturbed_start hleft hright
  have hafter := (hstart.after hdisjoint turns).settled_leftFirst hdisjoint
  exact ⟨hafter.alike (hstart.settled_leftFirst hdisjoint), hafter.alike (hstart.settled_rightFirst hdisjoint)⟩

end Joint

/-! ## Writes and rekeyings -/

/-- What takes a detour over a temporary object. -/
inductive DetourCall where
  | put (p : Put)
  | rekey (target : Identity)

namespace DetourCall

abbrev Outcome : DetourCall → Type
  | .put _ => Except Error WriteResult × Put
  | .rekey _ => Except Error RekeyResult

def perform (c : EncryptingClient) : (a : DetourCall) → Program StorageInterface a.Outcome
  | .put p => c.put p
  | .rekey target => (c.rekey target).run

def target : DetourCall → Identity
  | .put p => p.target
  | .rekey target => target

/-- The object that it is made for, and its temporary sibling. -/
def places (c : EncryptingClient) (a : DetourCall) : List Identity :=
  [a.target, a.target.withSuffix c.encryption.tempSuffix]

def unstamped : (a : DetourCall) → a.Outcome → a.Outcome
  | .put _, (result, sent) => ((result.mapError Error.unstamped).map WriteResult.unstamped, sent)
  | .rekey _, result => Except.mapError Error.unstamped result

/-- Nothing that it does goes beyond its places. -/
theorem resembles_perform (c : EncryptingClient) (a : DetourCall) :
    Resembles (· ∈ a.places c) (fun x y => a.unstamped x = a.unstamped y) (a.perform c) (a.perform c) := by
  have htarget : a.target ∈ a.places c := List.mem_cons_self
  have htemp : a.target.withSuffix c.encryption.tempSuffix ∈ a.places c :=
    List.mem_cons_of_mem _ List.mem_cons_self
  cases a with
  | put p => exact (c.resembles_put p htarget htemp).mono fun _ _ h => Prod.ext h.1 h.2
  | rekey target =>
    refine (c.resembles_rekey target htarget htemp).mono fun x y h => ?_
    unfold SameOutcome at h
    rwa [Except.map_id, id, id] at h

end DetourCall

namespace EncryptingClient

/-- Two clients share a store, and each writes or rekeys an object of its own,
with a temporary object of its own. They take turns in any order, and what is
left to do after that is done by the left one first. Whichever of their calls
fail, both are handed out what they would have been if one had begun when the
other was done, after the same calls and with the same random bytes, and the
store is left with the same objects, but for times and versions. -/
theorem disjoint_detours_serialize (first second : EncryptingClient) (a b : DetourCall)
    (hdisjoint : ∀ i ∈ a.places first, i ∉ b.places second) (w v : World Nat)
    (faults faults' : Nat → Option Error) (s : Storage) (turns : List Side) :
    let start : Joint a.Outcome b.Outcome :=
      { left := { program := a.perform first, world := w, faults }
        right := { program := b.perform second, world := v, faults := faults' }
        storage := s }
    let ending := (start.after turns).leftFirst
    ending.Alike a.unstamped b.unstamped start.leftFirst ∧
      ending.Alike a.unstamped b.unstamped start.rightFirst := by
  intro start ending
  have hleft : start.left.Confined (· ∈ a.places first) a.unstamped := a.resembles_perform first
  have hright : start.right.Confined (· ∈ b.places second) b.unstamped := b.resembles_perform second
  exact Joint.after_alike hleft hright hdisjoint turns

/-- An object is rekeyed while another client writes its neighbour, and fails to
publish it. -/
theorem disjoint_detours_serialize_neighbour : ∃ (s : Storage) (object : StoredObject) (d : Decoder),
    s.objects.get? threeBytes.target = some object ∧
    twoKeys.encryption.decoder object.metadata.user = .ok d ∧
    d.envelope.masterKeyId ≠ twoKeys.encryption.ring.current.keyId ∧
    let rekeying : DetourCall := .rekey threeBytes.target
    let writing : DetourCall := .put (oneByte "key.temp.temp" 1)
    let start : Joint rekeying.Outcome writing.Outcome :=
      { left :=
          { program := rekeying.perform (make twoKeys {} Filter.default)
            world := { entropy := Entropy.ofSeed "left", state := 0 }
            faults := fun _ => none }
        right :=
          { program := writing.perform (make oneKey {} Filter.default)
            world := { entropy := Entropy.ofSeed "right", state := 0 }
            faults := fun made => if made = 1 then some .badTag else none }
        storage := s }
    let ending := (start.after [.left, .right, .right, .left, .right, .left, .left, .right]).leftFirst
    ending.Alike rekeying.unstamped writing.unstamped start.leftFirst ∧
      ending.Alike rekeying.unstamped writing.unstamped start.rightFirst := by
  obtain ⟨v, object, hget, -, hreaders⟩ := exists_threeSealed
  obtain ⟨-, d, hd, hid, -⟩ := hreaders twoKeys.encryption rfl
  refine ⟨v.state, object, d, hget, hd, ?_, ?_⟩
  · rw [hid]
    decide
  · exact disjoint_detours_serialize (make twoKeys {} Filter.default) (make oneKey {} Filter.default)
      (.rekey threeBytes.target) (.put (oneByte "key.temp.temp" 1)) (by decide) _ _ _ _ v.state _

end EncryptingClient

end SealedStore
