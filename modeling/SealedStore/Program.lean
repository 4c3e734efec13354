import SealedStore.Log
/-!
# Programs

Everything in this library that draws random bytes, writes to the log or calls
a store is a `Program`: a tree of such effects, built without performing any.
`run` performs them in order on a `World`, which holds the random bytes still
to come, the log, and the state behind the calls.

What is proved:
  1. `run_bind` — one program after the other runs like their composition.
  2. `Program` is a lawful monad.
  3. `run_interpret` — replacing every call by a program that answers alike
     changes nothing.
-/

namespace SealedStore

/-- What a program may call and the reply each call gets. -/
structure Interface where
  Call : Type
  Reply : Call → Type

/-- What random bytes are drawn for. Secrets and fillers come from separate
sequences. -/
inductive Draw where
  | secret
  | filler
  deriving DecidableEq, Repr

/-- A tree of effects with a result at its end. -/
inductive Program (I : Interface) (α : Type) where
  | done (a : α)
  | draw (kind : Draw) (size : Nat) (next : Bytes → Program I α)
  | log (event : LogEvent) (next : Program I α)
  | call (c : I.Call) (next : I.Reply c → Program I α)

namespace Program
variable {I J : Interface} {α β γ σ : Type}

/-! ## Composition -/

protected def bind (f : α → Program I β) : Program I α → Program I β
  | .done a => f a
  | .draw kind size next => .draw kind size fun b => Program.bind f (next b)
  | .log event next => .log event (Program.bind f next)
  | .call c next => .call c fun r => Program.bind f (next r)

instance : Monad (Program I) where
  pure := .done
  bind p f := p.bind f

@[simp] theorem done_bind (a : α) (f : α → Program I β) : (Program.done a : Program I α) >>= f = f a := rfl

@[simp] theorem draw_bind (kind : Draw) (size : Nat) (next : Bytes → Program I α) (f : α → Program I β) :
    Program.draw kind size next >>= f = .draw kind size fun b => next b >>= f := rfl

@[simp] theorem log_bind (event : LogEvent) (next : Program I α) (f : α → Program I β) :
    Program.log event next >>= f = .log event (next >>= f) := rfl

@[simp] theorem call_bind (c : I.Call) (next : I.Reply c → Program I α) (f : α → Program I β) :
    Program.call c next >>= f = .call c fun r => next r >>= f := rfl

theorem bind_done (p : Program I α) : p >>= Program.done = p := by
  induction p with
  | done a => rfl
  | draw kind size next ih => simp only [draw_bind, ih]
  | log event next ih => simp only [log_bind, ih]
  | call c next ih => simp only [call_bind, ih]

theorem assoc (p : Program I α) (f : α → Program I β) (g : β → Program I γ) :
    p >>= f >>= g = p >>= fun a => f a >>= g := by
  induction p with
  | done a => rfl
  | draw kind size next ih => simp only [draw_bind, ih]
  | log event next ih => simp only [log_bind, ih]
  | call c next ih => simp only [call_bind, ih]

instance : LawfulMonad (Program I) :=
  LawfulMonad.mk' (Program I)
    (fun p => bind_done p)
    (fun _ _ => rfl)
    (fun p f g => assoc p f g)

/-! ## Single effects -/

def secret (size : Nat) : Program I Bytes := .draw .secret size .done

def filler (size : Nat) : Program I Bytes := .draw .filler size .done

def report (event : LogEvent) : Program I Unit := .log event (.done ())

def invoke (c : I.Call) : Program I (I.Reply c) := .call c .done

end Program

/-! ## Worlds -/

/-- The random bytes of a run: draw number `i` of either kind, in any size. -/
structure Entropy where
  bytes : (kind : Draw) → (i size : Nat) → Bytes
  length_bytes : ∀ kind i size, (bytes kind i size).length = size

/-- What a program runs on. -/
structure World (σ : Type) where
  entropy : Entropy
  secrets : Nat := 0
  fillers : Nat := 0
  log : Array LogEvent := #[]
  state : σ

namespace World
variable {σ : Type}

def drawn (w : World σ) : Draw → Nat
  | .secret => w.secrets
  | .filler => w.fillers

def nextBytes (w : World σ) (kind : Draw) (size : Nat) : Bytes :=
  w.entropy.bytes kind (w.drawn kind) size

theorem length_nextBytes (w : World σ) (kind : Draw) (size : Nat) :
    (w.nextBytes kind size).length = size := w.entropy.length_bytes _ _ _

def afterDraw (w : World σ) : Draw → World σ
  | .secret => { w with secrets := w.secrets + 1 }
  | .filler => { w with fillers := w.fillers + 1 }

def reported (w : World σ) (event : LogEvent) : World σ := { w with log := w.log.push event }

@[simp] theorem state_afterDraw (w : World σ) (kind : Draw) : (w.afterDraw kind).state = w.state := by
  cases kind <;> rfl

@[simp] theorem state_reported (w : World σ) (event : LogEvent) : (w.reported event).state = w.state := rfl

end World

namespace Program
variable {I J : Interface} {α β σ : Type}

/-- How calls are answered and what they do to the state behind them. -/
abbrev Service (I : Interface) (σ : Type) := (c : I.Call) → σ → I.Reply c × σ

def run (serve : Service I σ) : Program I α → World σ → α × World σ
  | .done a, w => (a, w)
  | .draw kind size next, w => run serve (next (w.nextBytes kind size)) (w.afterDraw kind)
  | .log event next, w => run serve next (w.reported event)
  | .call c next, w => run serve (next (serve c w.state).1) { w with state := (serve c w.state).2 }

variable (serve : Service I σ) (w : World σ)

@[simp] theorem run_done (a : α) : run serve (Program.done a : Program I α) w = (a, w) := rfl

@[simp] theorem run_pure (a : α) : run serve (pure a : Program I α) w = (a, w) := rfl

@[simp] theorem run_draw (kind : Draw) (size : Nat) (next : Bytes → Program I α) :
    run serve (.draw kind size next) w = run serve (next (w.nextBytes kind size)) (w.afterDraw kind) := rfl

@[simp] theorem run_log (event : LogEvent) (next : Program I α) :
    run serve (.log event next) w = run serve next (w.reported event) := rfl

@[simp] theorem run_call (c : I.Call) (next : I.Reply c → Program I α) :
    run serve (.call c next) w =
      run serve (next (serve c w.state).1) { w with state := (serve c w.state).2 } := rfl

theorem run_bind (p : Program I α) (f : α → Program I β) :
    run serve (p >>= f) w = run serve (f (run serve p w).1) (run serve p w).2 := by
  induction p generalizing w with
  | done a => rfl
  | draw kind size next ih => exact ih _ _
  | log event next ih => exact ih _
  | call c next ih => exact ih _ _

/-! ## Calls answered by programs -/

/-- Replaces every call by a program over another interface. -/
def interpret (answer : (c : I.Call) → Program J (I.Reply c)) : Program I α → Program J α
  | .done a => .done a
  | .draw kind size next => .draw kind size fun b => interpret answer (next b)
  | .log event next => .log event (interpret answer next)
  | .call c next => answer c >>= fun r => interpret answer (next r)

theorem run_interpret {serveJ : Service J σ} {serveI : Service I σ}
    {answer : (c : I.Call) → Program J (I.Reply c)}
    (h : ∀ c w, run serveJ (answer c) w = ((serveI c w.state).1, { w with state := (serveI c w.state).2 }))
    (p : Program I α) : run serveJ (interpret answer p) w = run serveI p w := by
  induction p generalizing w with
  | done a => rfl
  | draw kind size next ih => exact ih _ _
  | log event next ih => exact ih _
  | call c next ih => simp only [interpret, run_bind, h, ih, run_call]

end Program

/-- A program that may end in an error. -/
abbrev Attempt (I : Interface) (α : Type) := ExceptT Error (Program I) α

namespace Attempt
variable {I : Interface} {α : Type}

/-- Takes over a result that needs no effects. -/
def of (r : Except Error α) : Attempt I α := ExceptT.mk (.done r)

/-- Takes over a program that cannot fail. -/
def always (p : Program I α) : Attempt I α := ExceptT.lift p

end Attempt

end SealedStore
