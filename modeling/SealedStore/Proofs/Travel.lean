import SealedStore.Detour
import SealedStore.Proofs.Outcome
/-!
# The way of a detour

A detour goes the way of its three parts, which write, publish and delete: as
one program without phases to keep account of, and so also in what it ends
with.

What is proved:
  1. `Detour.travel_eq` — the whole way, step by step.
  2. `Detour.travel_ensures` — how it ends, whatever fails on it.
-/

namespace SealedStore.Detour

open Program (Ensures)

variable {I : Interface} {σ ρ α β : Type} {serve : Program.Service I σ} {s : σ} {d : Detour ρ}

/-! ## The whole way -/

theorem run_attempt_bind (p : Attempt I α) (f : α → DetourStep I ρ β) (d : Detour ρ) :
    (attempt p >>= f).run.run d = p.run >>= fun r =>
      match r with
      | .ok a => (f a).run.run d
      | .error e => pure (.error e, d) := by
  rw [ExceptT.run_bind, StateT.run_bind]
  show (p.run >>= fun r => pure (r, d)) >>= _ = _
  rw [bind_assoc]
  refine bind_congr fun r => ?_
  cases r <;> rfl

/-- No step of a detour is out of order. -/
theorem travel_eq (hd : d.phase = .started) (write : Attempt I β) (publish : Attempt I ρ) (finish : ρ → α)
    (delete : Identity → Attempt I Unit) :
    (travel delete d do
      let _ ← attempt write
      written
      let result ← attempt publish
      published result
      return finish result) =
    (do
      match ← write.run with
      | .error e => conclude delete d (.error e)
      | .ok _ =>
        Program.report (.moved d.target .started .written)
        match ← publish.run with
        | .error e => conclude delete { d with phase := .written } (.error e)
        | .ok result =>
          Program.report (.moved d.target .written .published)
          conclude delete { d with phase := .published result } (.ok (finish result))) := by
  obtain ⟨target, temp, phase⟩ := d
  obtain rfl : phase = .started := hd
  unfold travel
  rw [run_attempt_bind, bind_assoc]
  refine bind_congr fun wrote => ?_
  cases wrote with
  | error e => rfl
  | ok b =>
    refine congrArg (Program.log _) ?_
    let rest : DetourStep I ρ α :=
      attempt publish >>= fun result => published result >>= fun _ => pure (finish result)
    show rest.run.run { target, temp, phase := .written } >>= _ = publish.run >>= _
    rw [run_attempt_bind, bind_assoc]
    refine bind_congr fun done => ?_
    cases done <;> rfl

/-! ## How it ends -/

/-- How a detour ends that writes its object, publishes it, and deletes the
temporary object whatever happened before. What is left undone after the object
was published is the deletion alone. -/
def Ends (serve : Program.Service I σ) (write : Attempt I α) (publish : Attempt I ρ)
    (delete : Attempt I Unit) (R : Except (DetourFailure ρ) ρ → σ → Prop) (s : σ) : Prop :=
  Ensures serve write.run s fun written t =>
    match written with
    | .error e => Ensures serve delete.run t fun _ u => R (.error (.failed e)) u
    | .ok _ => Ensures serve publish.run t fun published u =>
      match published with
      | .error e => Ensures serve delete.run u fun _ v => R (.error (.failed e)) v
      | .ok result => Ensures serve delete.run u fun deleted v =>
        match deleted with
        | .error cause => R (.error (.orphaned result cause)) v
        | .ok () => R (.ok result) v

theorem Ends.weaken {write : Attempt I α} {publish : Attempt I ρ} {delete : Attempt I Unit}
    {R R' : Except (DetourFailure ρ) ρ → σ → Prop} (h : Ends serve write publish delete R s)
    (hi : ∀ r t, R r t → R' r t) : Ends serve write publish delete R' s := by
  refine Ensures.mono h fun wrote t ht => ?_
  cases wrote with
  | error e => exact ht.mono fun _ u hu => hi _ u hu
  | ok a =>
    refine ht.mono fun done u hu => ?_
    cases done with
    | error e => exact hu.mono fun _ v hv => hi _ v hv
    | ok result =>
      refine hu.mono fun deleted v hv => ?_
      cases deleted with
      | error cause => exact hi _ v hv
      | ok => exact hi _ v hv

theorem conclude_failed {delete : Identity → Attempt I Unit} {e : Error}
    {R : Except (DetourFailure ρ) α → σ → Prop}
    (h : Ensures serve (delete d.temp).run s fun _ t => R (.error (.failed e)) t) :
    Ensures serve (conclude delete d (.error e)) s fun out t => R out.1 t := by
  refine .seq h fun deleted t hr => ?_
  cases deleted with
  | ok => exact .done hr
  | error cause => exact .log (.done hr)

theorem conclude_published {delete : Identity → Attempt I Unit} {result : ρ} {a : α}
    {R : Except (DetourFailure ρ) α → σ → Prop} (hd : d.phase = .published result)
    (h : Ensures serve (delete d.temp).run s fun deleted t =>
      match deleted with
      | .error cause => R (.error (.orphaned result cause)) t
      | .ok () => R (.ok a) t) :
    Ensures serve (conclude delete d (.ok a)) s fun out t => R out.1 t := by
  obtain ⟨target, temp, phase⟩ := d
  obtain rfl : phase = .published result := hd
  refine .seq h fun deleted t hr => ?_
  cases deleted with
  | ok => exact .log (.done hr)
  | error cause => exact .log (.done hr)

/-- A detour goes the way of its parts. -/
theorem travel_ensures {write : Attempt I β} {publish : Attempt I ρ} {finish : ρ → α}
    {delete : Identity → Attempt I Unit} {R : Except (DetourFailure ρ) α → σ → Prop}
    (hd : d.phase = .started) (h : Ends serve write publish (delete d.temp) (fun r t => R (r.map finish) t) s) :
    Ensures serve (travel delete d do
      let _ ← attempt write
      written
      let result ← attempt publish
      published result
      return finish result) s fun out t => R out.1 t := by
  rw [travel_eq hd]
  refine .seq h fun wrote t ht => ?_
  cases wrote with
  | error e => exact conclude_failed ht
  | ok b =>
    refine .log (.bind (.done (.seq ht fun done u hu => ?_)))
    cases done with
    | error e => exact conclude_failed (d := { d with phase := .written }) hu
    | ok result =>
      refine .log (.bind (.done (conclude_published (d := { d with phase := .published result }) rfl
        (hu.mono fun deleted v hv => ?_))))
      cases deleted with
      | ok => exact hv
      | error cause => exact hv

end SealedStore.Detour
