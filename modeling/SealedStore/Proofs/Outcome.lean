import SealedStore.Program
/-!
# Outcomes of programs

What a program is certain to end with, whatever random bytes it draws and
whatever has been logged: its result, and the state behind its calls. The rules
take a program apart along its steps, so that what is known of a part carries
over to the whole.

What is proved:
  1. `Ensures.bind`, `Ensures.seq` — one program after the other.
  2. `Ensures.attempt`, `Ensures.attempt_ok` — the same for programs that may
     fail.
-/

namespace SealedStore.Program
variable {I : Interface} {α β σ : Type} {serve : Service I σ} {s : σ}

/-- From every world with the state `s` the program ends with a result and a
state of which `Q` holds. -/
def Ensures (serve : Service I σ) (p : Program I α) (s : σ) (Q : α → σ → Prop) : Prop :=
  ∀ w : World σ, w.state = s → Q (p.run serve w).1 (p.run serve w).2.state

namespace Ensures
variable {Q : α → σ → Prop} {R : β → σ → Prop}

theorem mono {P : α → σ → Prop} {p : Program I α} (h : Ensures serve p s P)
    (hi : ∀ a t, P a t → Q a t) : Ensures serve p s Q := fun w hw => hi _ _ (h w hw)

theorem and {P : α → σ → Prop} {p : Program I α} (hp : Ensures serve p s P) (hq : Ensures serve p s Q) :
    Ensures serve p s fun a t => P a t ∧ Q a t := fun w hw => ⟨hp w hw, hq w hw⟩

theorem done {a : α} (h : Q a s) : Ensures serve (.done a) s Q := by
  intro w hw
  subst hw
  exact h

theorem bind {p : Program I α} {f : α → Program I β}
    (h : Ensures serve p s fun a t => Ensures serve (f a) t R) : Ensures serve (p >>= f) s R := by
  intro w hw
  rw [run_bind]
  exact h w hw _ rfl

theorem seq {p : Program I α} {f : α → Program I β} (hp : Ensures serve p s Q)
    (hf : ∀ a t, Q a t → Ensures serve (f a) t R) : Ensures serve (p >>= f) s R :=
  .bind (hp.mono hf)

theorem discard {p : Program I α} {P : σ → Prop} (h : Ensures serve p s fun _ t => P t) :
    Ensures serve (discard p) s fun _ t => P t := .seq h fun _ _ hp => .done hp

theorem draw {kind : Draw} {size : Nat} {next : Bytes → Program I α}
    (h : ∀ b, b.length = size → Ensures serve (next b) s Q) : Ensures serve (.draw kind size next) s Q := by
  intro w hw
  rw [run_draw]
  exact h _ (w.length_nextBytes kind size) _ ((w.state_afterDraw kind).trans hw)

theorem log {event : LogEvent} {next : Program I α} (h : Ensures serve next s Q) :
    Ensures serve (.log event next) s Q := by
  intro w hw
  rw [run_log]
  exact h _ hw

theorem call {c : I.Call} {next : I.Reply c → Program I α}
    (h : Ensures serve (next (serve c s).1) (serve c s).2 Q) : Ensures serve (.call c next) s Q := by
  intro w hw
  subst hw
  exact h _ rfl

/-! ## Programs that may fail -/

/-- What follows a program that may fail is skipped if it fails. -/
theorem attempt {p : Attempt I α} {f : α → Attempt I β} {R : Except Error β → σ → Prop}
    (h : Ensures serve p.run s fun r t =>
      match r with
      | .ok a => Ensures serve (f a).run t R
      | .error e => R (.error e) t) : Ensures serve (p >>= f).run s R := by
  rw [ExceptT.run_bind]
  refine .bind (h.mono fun r t hr => ?_)
  cases r with
  | ok a => exact hr
  | error e => exact .done hr

theorem of {r : Except Error α} {R : Except Error α → σ → Prop} (h : R r s) :
    Ensures serve (Attempt.of r : Attempt I α).run s R := .done h

theorem attempt_ok {p : Attempt I α} {f : α → Attempt I β} {Q : α → σ → Prop}
    {R : Except Error β → σ → Prop} (hp : Ensures serve p.run s fun r t => ∃ a, r = .ok a ∧ Q a t)
    (hf : ∀ a t, Q a t → Ensures serve (f a).run t R) : Ensures serve (p >>= f).run s R := by
  refine .attempt (hp.mono ?_)
  rintro r t ⟨a, rfl, h⟩
  exact hf a t h

theorem map {p : Attempt I α} {f : α → β} {R : Except Error β → σ → Prop}
    (h : Ensures serve p.run s fun r t => R (r.map f) t) :
    Ensures serve (p >>= fun a => pure (f a)).run s R := by
  refine .attempt (h.mono fun r t hr => ?_)
  cases r with
  | ok a => exact .done hr
  | error e => exact hr

end Ensures

end SealedStore.Program
