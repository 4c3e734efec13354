import SealedStore.Stream.Source
import SealedStore.Stream.Stage
/-!
# Streams

A stream is a source under any number of layers. A layer reads the stream
below it in large chunks, passes them through its stage, and hands out what
its stage emitted. It reads on only while it has nothing to hand out, so a
read may return less than was asked for, and only an empty read marks the end.
When the stream below has ended, the layer counts as exhausted at once, also
if its stage then refuses the content.

What is proved:
  1. `Layer.length_readSome_le` — a read of a layer returns no more than was
     asked for.
-/

namespace SealedStore

/-- How much a layer asks of the stream below it. -/
def chunkSize : Nat := 64 * 1024

def bufferSize : Nat := 8192

/-- One layer of a stream. -/
structure Layer where
  stage : Stage
  closesSource : Bool := true
  seen : Bytes := []
  pending : Bytes := []
  exhausted : Bool := false
  closed : Bool := false
  deriving DecidableEq

namespace Layer
variable {σ : Type}

def receive (l : Layer) (piece : Bytes) : Layer :=
  { l with seen := l.seen ++ piece, pending := l.pending ++ l.stage.update l.seen piece }

/-- Reads on until there is something to hand out or the end is reached. Every
silent round brings at least one of the bytes a stage may hold back. -/
def fill (pull : σ → Except Error Bytes × σ) : (rounds : Nat) → Layer → σ → Except Error Unit × Layer × σ
  | 0, l, s => (.ok (), l, s)
  | rounds + 1, l, s =>
    if !l.pending.isEmpty || l.exhausted then (.ok (), l, s)
    else match pull s with
      | (.error e, s') => (.error e, l, s')
      | (.ok [], s') =>
        match l.stage.finish l.seen with
        | .error e => (.error e, { l with exhausted := true }, s')
        | .ok last => (.ok (), { l with exhausted := true, pending := last }, s')
      | (.ok piece, s') => fill pull rounds (l.receive piece) s'

def readSome (pull : σ → Except Error Bytes × σ) (n : Nat) (l : Layer) (s : σ) :
    Except Error Bytes × Layer × σ :=
  match fill pull (l.stage.slack + 2) l s with
  | (.error e, l', s') => (.error e, l', s')
  | (.ok (), l', s') => (.ok (l'.pending.take n), { l' with pending := l'.pending.drop n }, s')

theorem length_readSome_le {pull : σ → Except Error Bytes × σ} {n : Nat} {l l' : Layer} {s s' : σ}
    {b : Bytes} (h : readSome pull n l s = (.ok b, l', s')) : b.length ≤ n := by
  unfold readSome at h
  split at h
  · cases h
  · cases h
    exact List.length_take_le _ _

/-- Reads until an empty read; a fault loses what was read before it. -/
def readRest (pull : σ → Except Error Bytes × σ) :
    (reads : Nat) → (before : Bytes) → Layer → σ → Except Error Bytes × Layer × σ
  | 0, before, l, s => (.ok before, l, s)
  | reads + 1, before, l, s =>
    match readSome pull bufferSize l s with
    | (.error e, l', s') => (.error e, l', s')
    | (.ok [], l', s') => (.ok before, l', s')
    | (.ok piece, l', s') => readRest pull reads (before ++ piece) l' s'

end Layer

/-- A source under `n` layers. -/
inductive Stack : Nat → Type where
  | source (s : Source) : Stack 0
  | layered {n : Nat} (l : Layer) (below : Stack n) : Stack (n + 1)

namespace Stack

def remaining : {n : Nat} → Stack n → Nat
  | _, .source s => s.remaining
  | _, .layered l below => l.pending.length + l.stage.slack + below.remaining

def read : {n : Nat} → Amount → Stack n → Except Error Bytes × Stack n
  | 0, amount, .source s =>
    match s.read amount with
    | (r, s') => (r, .source s')
  | n + 1, amount, .layered l below =>
    let pull : Stack n → Except Error Bytes × Stack n := fun s => read (.atMost chunkSize) s
    match amount with
    | .atMost k =>
      match l.readSome pull k below with
      | (r, l', below') => (r, .layered l' below')
    | .rest =>
      -- Every read takes one of these bytes at least, and one more read meets the end.
      match l.readRest pull (l.pending.length + l.stage.slack + below.remaining + 1) [] below with
      | (r, l', below') => (r, .layered l' below')

/-- Closes the top, and what lies below it as far as the layers ask for. -/
def close : {n : Nat} → Stack n → Stack n
  | _, .source s => .source s.close
  | _, .layered l below =>
    .layered { l with closed := true } (if !l.closed && l.closesSource then below.close else below)

def closed : {n : Nat} → Stack n → Bool
  | _, .source s => s.closed
  | _, .layered l _ => l.closed

def origin : {n : Nat} → Stack n → Source
  | _, .source s => s
  | _, .layered _ below => below.origin

end Stack

/-- Readable content: a source under some layers. -/
structure Stream where
  depth : Nat
  stack : Stack depth

namespace Stream

def ofSource (s : Source) : Stream := ⟨0, .source s⟩

def ofBytes (content : Bytes) : Stream := ofSource (Source.ofBytes content)

instance : Inhabited Stream := ⟨ofBytes []⟩

def layered (l : Layer) (s : Stream) : Stream := ⟨s.depth + 1, .layered l s.stack⟩

def top? : Stream → Option Layer
  | ⟨_, .source _⟩ => none
  | ⟨_, .layered l _⟩ => some l

/-- What lies below the layer on top; a source lies at the bottom of itself. -/
def below : Stream → Stream
  | ⟨_, .source s⟩ => ofSource s
  | ⟨_, .layered _ rest⟩ => ⟨_, rest⟩

@[simp] theorem top?_layered (l : Layer) (s : Stream) : (s.layered l).top? = some l := rfl

@[simp] theorem below_layered (l : Layer) (s : Stream) : (s.layered l).below = s := rfl

def read (s : Stream) (amount : Amount) : Except Error Bytes × Stream :=
  match s.stack.read amount with
  | (r, stack) => (r, ⟨s.depth, stack⟩)

def close (s : Stream) : Stream := ⟨s.depth, s.stack.close⟩

def closed (s : Stream) : Bool := s.stack.closed

def readable (s : Stream) : Except Error Bool :=
  if s.top?.isNone && s.closed then .error (.value .closedStream) else .ok true

/-- The stream below the top has ended and the last bytes were emitted. A
source that can be read on is never exhausted. -/
def exhausted (s : Stream) : Bool := s.top?.any Layer.exhausted

def origin (s : Stream) : Source := s.stack.origin

/-! ## What layers know -/

def digest (s : Stream) : String := Md5.hex ((s.top?.map Layer.seen).getD [])

def envelope (s : Stream) : Except Error Envelope :=
  match s.top? with
  | some { stage := .encode e, exhausted := true, seen, .. } => .ok (e.envelope seen)
  | _ => .error (.transform .notDrained)

end Stream

end SealedStore
