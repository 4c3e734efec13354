import SealedStore.Program
/-!
# Detours over a temporary object

No store writes content and sets metadata at once, so an encrypted object is
first written under a temporary name, then published under its own by a copy,
and the temporary object is deleted:

    started → written → published → cleaned up

The copy is the point of no return. The temporary object is deleted whatever
happens. If that fails after another error, at whatever phase, the failure is
logged and the first error stands. If it is the only failure and the object is
published, the error says which object was left behind, and holds the result.
-/

namespace SealedStore

inductive Phase (ρ : Type) where
  | started
  | written
  | published (result : ρ)
  | cleanedUp (result : ρ)

def Phase.state {ρ : Type} : Phase ρ → DetourState
  | .started => .started
  | .written => .written
  | .published _ => .published
  | .cleanedUp _ => .cleanedUp

def Phase.result? {ρ : Type} : Phase ρ → Option ρ
  | .started | .written => none
  | .published r | .cleanedUp r => some r

/-- One detour: the object, its temporary sibling, and how far it has come. -/
structure Detour (ρ : Type) where
  target : Identity
  temp : Identity
  phase : Phase ρ := .started

def Detour.start {ρ : Type} (target : Identity) (suffix : String) : Detour ρ :=
  { target, temp := target.withSuffix suffix }

/-- What is done on a detour: a program that knows the detour and may fail. -/
abbrev DetourStep (I : Interface) (ρ α : Type) := ExceptT Error (StateT (Detour ρ) (Program I)) α

/-- How a detour fails: with an error of its own, or with an object left behind
after its result was published. -/
inductive DetourFailure (ρ : Type) where
  | failed (error : Error)
  | orphaned (result : ρ) (cause : Error)

namespace Detour
variable {I : Interface} {ρ α : Type}

/-! ## Steps -/

def attempt (p : Attempt I α) : DetourStep I ρ α := ExceptT.mk (StateT.lift p.run)

/-- Moves on from the phase that has to be the current one. -/
def advance (d : Detour ρ) (next : Phase ρ) : Program I (Except Error Unit × Detour ρ) := do
  Program.report (.moved d.target d.phase.state next.state)
  return (.ok (), { d with phase := next })

/-- A step that is not allowed in the current phase. -/
def outOfOrder (d : Detour ρ) (next : DetourState) : Program I (Except Error Unit × Detour ρ) :=
  return (.error (.outOfOrder d.phase.state next), d)

def written : DetourStep I ρ Unit := ExceptT.mk fun d =>
  match d.phase with
  | .started => d.advance .written
  | _ => d.outOfOrder .written

def published (result : ρ) : DetourStep I ρ Unit := ExceptT.mk fun d =>
  match d.phase with
  | .written => d.advance (.published result)
  | _ => d.outOfOrder .published

/-! ## The whole way -/

def conclude (delete : Identity → Attempt I Unit) (d : Detour ρ) (result : Except Error α) :
    Program I (Except (DetourFailure ρ) α × Detour ρ) := do
  -- The temporary object is deleted whatever has happened before.
  match ← (delete d.temp).run, result with
  | .ok (), .error e => return (.error (.failed e), d)
  | .ok (), .ok a =>
    match d.phase with
    | .published r =>
      Program.report (.moved d.target .published .cleanedUp)
      return (.ok a, { d with phase := .cleanedUp r })
    | _ => return (.ok a, d)
  | .error cause, .error e =>
    -- Of two errors the first one is raised.
    Program.report (.cleanupFailed d.temp cause)
    return (.error (.failed e), d)
  | .error cause, .ok _ =>
    match d.phase with
    | .published r =>
      Program.report (.orphaned d.temp d.target cause)
      return (.error (.orphaned r cause), d)
    | _ => return (.error (.failed cause), d)

/-- Goes the whole way: the steps, then the end. -/
def travel (delete : Identity → Attempt I Unit) (d : Detour ρ) (steps : DetourStep I ρ α) :
    Program I (Except (DetourFailure ρ) α × Detour ρ) := do
  let (result, d) ← steps.run.run d
  conclude delete d result

end Detour

def DetourFailure.toError (target temp : Identity) : DetourFailure WriteResult → Error
  | .failed e => e
  | .orphaned result cause => .orphanedTemp target temp result cause

end SealedStore
