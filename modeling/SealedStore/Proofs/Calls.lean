import SealedStore.Proofs.Outcome
/-!
# Calls of programs

The calls that a program makes, in their order. A service that keeps what it
was asked shows them as part of its state, so the rules for outcomes cover
them. What every call of a program keeps, its runs keep.

What is proved:
  1. `calls_bind` — one program after the other makes the calls of both.
  2. `Ensures.of_recording` — outcomes with the calls that led to them.
  3. `Only.bind`, `Only.attempt` — programs whose calls are all of one kind.
  4. `Only.keeps` — what such calls keep, a run keeps.
-/

namespace SealedStore.Program
variable {I : Interface} {α β σ : Type} {serve : Service I σ}

/-! ## Calls in order -/

/-- The calls that a run makes. -/
def calls (serve : Service I σ) : Program I α → World σ → List I.Call
  | .done _, _ => []
  | .draw kind size next, w => calls serve (next (w.nextBytes kind size)) (w.afterDraw kind)
  | .log event next, w => calls serve next (w.reported event)
  | .call c next, w => c :: calls serve (next (serve c w.state).1) { w with state := (serve c w.state).2 }

theorem calls_bind (p : Program I α) (f : α → Program I β) (w : World σ) :
    (p >>= f).calls serve w = p.calls serve w ++ (f (p.run serve w).1).calls serve (p.run serve w).2 := by
  induction p generalizing w with
  | done a => rfl
  | draw kind size next ih => exact ih _ _
  | log event next ih => exact ih _
  | call c next ih => exact congrArg (c :: ·) (ih _ _)

def recording (serve : Service I σ) : Service I (σ × List I.Call) := fun c s =>
  ((serve c s.1).1, (serve c s.1).2, s.2 ++ [c])

/-- A world beside the calls that were made so far. -/
def beside {τ : Type} (w : World σ) (made : τ) : World (σ × τ) :=
  { entropy := w.entropy, secrets := w.secrets, fillers := w.fillers, log := w.log, state := (w.state, made) }

theorem beside_afterDraw {τ : Type} (w : World σ) (made : τ) (kind : Draw) :
    beside (w.afterDraw kind) made = (beside w made).afterDraw kind := by
  cases kind <;> rfl

theorem nextBytes_beside {τ : Type} (w : World σ) (made : τ) (kind : Draw) (size : Nat) :
    (beside w made).nextBytes kind size = w.nextBytes kind size := by
  cases kind <;> rfl

theorem run_recording (p : Program I α) (w : World σ) (made : List I.Call) :
    p.run (recording serve) (beside w made) =
      ((p.run serve w).1, beside (p.run serve w).2 (made ++ p.calls serve w)) := by
  -- The calls that were made before stand in front, and grow along the run.
  induction p generalizing w made with
  | done a => rw [calls, List.append_nil, run_done, run_done]
  | draw kind size next ih =>
    rw [run_draw, run_draw, nextBytes_beside, ← beside_afterDraw, ih]
    rfl
  | log event next ih =>
    rw [run_log, run_log]
    exact ih (w.reported event) made
  | call c next ih =>
    have hnext := ih (serve c w.state).1 { w with state := (serve c w.state).2 } (made ++ [c])
    rw [List.append_assoc] at hnext
    exact hnext

/-- What is known of a service that keeps its calls is known of the calls of
every run. -/
theorem Ensures.of_recording {p : Program I α} {s : σ} {Q : α → σ → List I.Call → Prop}
    (h : Ensures (recording serve) p (s, []) fun a t => Q a t.1 t.2) {w : World σ} (hw : w.state = s) :
    Q (p.run serve w).1 (p.run serve w).2.state (p.calls serve w) := by
  have hrun := h (beside w []) (by rw [beside, hw])
  rw [run_recording] at hrun
  exact hrun

/-! ## Calls of one kind -/

/-- Whatever it is answered, a program makes no call but such as `P` holds of. -/
def Only (P : I.Call → Prop) : Program I α → Prop
  | .done _ => True
  | .draw _ _ next => ∀ b, Only P (next b)
  | .log _ next => Only P next
  | .call c next => P c ∧ ∀ r, Only P (next r)

namespace Only
variable {P : I.Call → Prop}

theorem bind {p : Program I α} {f : α → Program I β} (h : Only P p) (hf : ∀ a, Only P (f a)) :
    Only P (p >>= f) := by
  induction p with
  | done a => exact hf a
  | draw kind size next ih => exact fun b => ih b (h b)
  | log event next ih => exact ih h
  | call c next ih => exact ⟨h.1, fun r => ih r (h.2 r)⟩

theorem attempt {p : Attempt I α} {f : α → Attempt I β} (h : Only P p.run)
    (hf : ∀ a, Only P (f a).run) : Only P (p >>= f).run := by
  rw [ExceptT.run_bind]
  refine h.bind fun r => ?_
  cases r with
  | ok a => exact hf a
  | error e => trivial

theorem recover {p : Attempt I α} {f : Error → Attempt I α} (h : Only P p.run)
    (hf : ∀ e, Only P (f e).run) : Only P (tryCatch p f).run := by
  refine h.bind fun r => ?_
  cases r with
  | ok a => trivial
  | error e => exact hf e

/-- What every such call keeps of the state, a run keeps. -/
theorem keeps {p : Program I α} {R : σ → Prop} (h : Only P p)
    (hkeep : ∀ c s, P c → R s → R (serve c s).2) {s : σ} (hs : R s) : Ensures serve p s fun _ t => R t := by
  induction p generalizing s with
  | done a => exact .done hs
  | draw kind size next ih => exact .draw fun b _ => ih b (h b) hs
  | log event next ih => exact .log (ih h hs)
  | call c next ih => exact .call (ih _ (h.2 _) (hkeep c s h.1 hs))

end Only

end SealedStore.Program
