import SealedStore.Error
/-!
# Sources

Where content comes from: chunks in order, some of which may be faults. A read
takes from the first chunk only, so an empty chunk reads once like the end. A
fault is raised by the read that reaches it and is then gone.

What is proved:
  1. `length_readSome_le` — a read returns no more than was asked for.
-/

namespace SealedStore

/-- How much a read asks for. -/
inductive Amount where
  | atMost (n : Nat)
  | rest
  deriving DecidableEq, Repr

/-- A piece of content, or a fault in its place. -/
inductive Chunk where
  | data (bytes : Bytes)
  | fault (text : String)
  deriving DecidableEq

def Chunk.size : Chunk → Nat
  | .data bytes => bytes.length
  | .fault _ => 0

/-- Content that is still to be read. -/
structure Source where
  chunks : List Chunk
  closed : Bool := false
  deriving DecidableEq

namespace Source

def ofBytes (content : Bytes) : Source := { chunks := [.data content] }

def readSome (n : Nat) : List Chunk → Except Error Bytes × List Chunk
  | [] => (.ok [], [])
  | .fault text :: rest => (.error (.io text), rest)
  | .data b :: rest => if n < b.length then (.ok (b.take n), .data (b.drop n) :: rest) else (.ok b, rest)

/-- Reads all chunks; a fault loses what was read before it. -/
def readRest : List Chunk → Except Error Bytes × List Chunk
  | [] => (.ok [], [])
  | .fault text :: rest => (.error (.io text), rest)
  | .data b :: rest =>
    match readRest rest with
    | (.ok more, left) => (.ok (b ++ more), left)
    | (.error e, left) => (.error e, left)

def read (s : Source) (amount : Amount) : Except Error Bytes × Source :=
  if s.closed then (.error (.value .closedStream), s)
  else
    let (result, left) :=
      match amount with
      | .atMost n => readSome n s.chunks
      | .rest => readRest s.chunks
    (result, { s with chunks := left })

def close (s : Source) : Source := { s with closed := true }

def remaining (s : Source) : Nat := s.chunks.foldr (fun c n => c.size + n) 0

theorem length_readSome_le {n : Nat} {l left : List Chunk} {b : Bytes}
    (h : readSome n l = (.ok b, left)) : b.length ≤ n := by
  match l with
  | [] =>
    cases h
    exact Nat.zero_le n
  | .fault _ :: _ => cases h
  | .data d :: _ =>
    simp only [readSome] at h
    split at h
    · cases h
      rw [List.length_take]
      omega
    · cases h
      omega

end Source

end SealedStore
