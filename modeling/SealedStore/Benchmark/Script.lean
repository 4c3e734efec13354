import SealedStore.Benchmark.Run
/-!
# Scripted benchmarks

A benchmark whose terminal, clock and new keys are given beforehand. What is
printed is kept, so that a run is a function of its script.
-/

namespace SealedStore.Benchmark

/-- Items to be taken in order; the last one never runs out. -/
structure Supply (α : Type) where
  current : α
  later : List α := []

/-- Items that begin with a list, or a substitute for an empty one. -/
def Supply.ofList {α : Type} (substitute : α) : List α → Supply α
  | [] => { current := substitute }
  | a :: rest => { current := a, later := rest }

def Supply.take {α : Type} (s : Supply α) : α × Supply α :=
  match s.later with
  | [] => (s.current, s)
  | a :: rest => (s.current, { current := a, later := rest })

/-- A store, a terminal and what comes from outside. -/
structure Script where
  storage : Storage := {}
  printed : String := ""
  input : String := ""
  times : Supply Float := { current := 0 }
  newKeys : Supply MasterKey

def splitLine (input : String) : Option String × String :=
  if input.isEmpty then (none, input)
  else
    let line := input.toList.takeWhile (· != '\n')
    (some (String.ofList line), String.ofList (input.toList.drop (line.length + 1)))

def Script.serve : Program.Service BenchmarkInterface Script
  | .storage c, s =>
    let (reply, storage) := Storage.serve c s.storage
    (reply, { s with storage })
  | .print line, s => ((), { s with printed := s.printed ++ line ++ "\n" })
  | .ask prompt, s =>
    let (line, input) := splitLine s.input
    (line, { s with input, printed := s.printed ++ prompt })
  | .time, s =>
    let (now, times) := s.times.take
    (now, { s with times })
  | .newKey, s =>
    let (key, newKeys) := s.newKeys.take
    (key, { s with newKeys })

end SealedStore.Benchmark
