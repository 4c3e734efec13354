import SealedStore.Request
/-!
# Filter chains

A filter is a handler around a handler: it may change the request before and
the response after, or answer by itself. A chain is a list of filters, the
first of which meets requests first and responses last, before a handler at
the end. Filters are inserted by their place relative to others. A chain that is
kept somewhere is emptied for that and filled again; since its new filters are
collected before it is, this comes to the same.

What is proved:
  1. `through_append` — a chain in two parts is one part around the other.
  2. `Chain.run_insertInPlace` — what is left of a chain that filters are
     inserted into in place, also if a test fails.
-/

namespace SealedStore

/-- Filters in order, the head first. -/
def throughFilters {I : Interface} (filters : List (Handler I → Handler I)) (last : Handler I) : Handler I :=
  filters.foldr (fun f next => f next) last

theorem through_append {I : Interface} (a b : List (Handler I → Handler I)) (last : Handler I) :
    throughFilters (a ++ b) last = throughFilters a (throughFilters b last) :=
  List.foldr_append ..

namespace Chain
variable {φ ε : Type}

/-- The chain with `new` in front of every filter that matches. -/
def splice (test : φ → Except ε Bool) (new : φ) : List φ → Except ε (List φ)
  | [] => .ok []
  | f :: rest => do
    let found ← test f
    let spliced ← splice test new rest
    return if found then new :: f :: spliced else f :: spliced

/-- The number of filters that match. -/
def matching (test : φ → Except ε Bool) (l : List φ) : Nat :=
  l.countP fun f => match test f with
    | .ok found => found
    | .error _ => false

/-- Inserts a filter in front of every filter that matches, and says how often
that was. A filter that is in the chain already is not inserted again. -/
def insertBefore [DecidableEq φ] (test : φ → Except ε Bool) (new : φ) (l : List φ) :
    Except ε (Nat × List φ) :=
  if new ∈ l then .ok (0, l)
  else (splice test new l).map fun spliced => (matching test l, spliced)

/-! ## Insertions in place -/

/-- Collects the filters of the new chain, and counts insertions. -/
def rebuild (test : φ → Except ε Bool) (new : φ) (l : List φ) (inserted : Nat) (rebuilt : List φ) :
    Except ε (Nat × List φ) :=
  l.foldlM (fun (inserted, rebuilt) f => do
    if ← test f then return (inserted + 1, rebuilt ++ [new, f])
    else return (inserted, rebuilt ++ [f])) (inserted, rebuilt)

def refill (filters : List φ) : ExceptT ε (StateM (List φ)) Unit := do
  set ([] : List φ)
  filters.forM fun f => modify (· ++ [f])

/-- Inserts into a chain that is kept somewhere, which is refilled with the
filters that were collected. -/
def insertInPlace [DecidableEq φ] (test : φ → Except ε Bool) (new : φ) : ExceptT ε (StateM (List φ)) Nat := do
  let filters ← get
  if new ∈ filters then return 0
  let (inserted, rebuilt) ← liftExcept (rebuild test new filters 0 [])
  refill rebuilt
  return inserted

/-- What is collected is the spliced list. -/
theorem rebuild_eq (test : φ → Except ε Bool) (new : φ) (l : List φ) (inserted : Nat) (rebuilt : List φ) :
    rebuild test new l inserted rebuilt =
      (splice test new l).map fun spliced => (inserted + matching test l, rebuilt ++ spliced) := by
  induction l generalizing inserted rebuilt with
  | nil => exact congrArg Except.ok (Prod.ext rfl (List.append_nil _).symm)
  | cons f rest ih =>
    unfold rebuild at ih ⊢
    rw [List.foldlM_cons, splice]
    cases hf : test f with
    | error e => rfl
    | ok found =>
      cases found with
      | true =>
        have hcount : matching test (f :: rest) = matching test rest + 1 :=
          List.countP_cons_of_pos (by rw [hf])
        refine (ih (inserted + 1) (rebuilt ++ [new, f])).trans ?_
        rw [hcount]
        cases splice test new rest with
        | error e => rfl
        | ok spliced => exact congrArg Except.ok (Prod.ext (by dsimp only; omega) (List.append_assoc ..))
      | false =>
        have hcount : matching test (f :: rest) = matching test rest :=
          List.countP_cons_of_neg (by rw [hf]; exact Bool.false_ne_true)
        refine (ih inserted (rebuilt ++ [f])).trans ?_
        rw [hcount]
        cases splice test new rest with
        | error e => rfl
        | ok spliced => exact congrArg Except.ok (Prod.ext rfl (List.append_assoc ..))

theorem run_refill (filters chain : List φ) :
    (refill filters : ExceptT ε (StateM (List φ)) Unit).run.run chain = (.ok (), filters) := by
  -- The induction needs a chain that is refilled from any beginning.
  suffices hadded : ∀ chain, (filters.forM fun f => modify (· ++ [f]) : ExceptT ε (StateM (List φ)) Unit).run.run
      chain = (.ok (), chain ++ filters) from hadded []
  induction filters with
  | nil =>
    intro chain
    rw [List.append_nil]
    rfl
  | cons f rest ih =>
    intro chain
    refine (ih (chain ++ [f])).trans ?_
    rw [List.append_assoc]
    rfl

/-- In place the same is inserted, and a test that fails leaves the chain. -/
theorem run_insertInPlace [DecidableEq φ] (test : φ → Except ε Bool) (new : φ) (l : List φ) :
    (insertInPlace test new).run.run l =
      match insertBefore test new l with
      | .ok (inserted, spliced) => (.ok inserted, spliced)
      | .error e => (.error e, l) := by
  have hrun : (insertInPlace test new).run.run l = (if new ∈ l then pure 0 else do
      let (inserted, rebuilt) ← liftExcept (rebuild test new l 0 [])
      refill rebuilt
      return inserted : ExceptT ε (StateM (List φ)) Nat).run.run l := rfl
  rw [hrun, insertBefore]
  by_cases hmem : new ∈ l
  · rw [if_pos hmem, if_pos hmem]
    rfl
  · rw [if_neg hmem, if_neg hmem, rebuild_eq]
    cases splice test new l with
    | error e => rfl
    | ok spliced =>
      show (refill spliced >>= fun _ => pure (0 + matching test l)).run.run l = (.ok (matching test l), spliced)
      rw [ExceptT.run_bind, StateT.run_bind, run_refill, Nat.zero_add]
      rfl

end Chain

end SealedStore
