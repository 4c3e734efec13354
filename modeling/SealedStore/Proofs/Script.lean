import SealedStore.Proofs.Keystream
import SealedStore.Stream.Basic
/-!
# Scripts

What a stream still has to hand out, apart from how its readers cut it: the
bytes to come in order, with the faults between them. The script of a layer is
computed from the script below it, byte by byte, so that chunks and reads do
not occur in it.

What is proved:
  1. `Stage.update_append` — what a stage emits for a piece does not depend on
     how the piece is cut.
  2. `Stage.script_append` — hence its script can be taken in pieces.
  3. `Stage.script_ofBytes` — over a content without faults a stage emits one
     string of bytes and then accepts or refuses the whole.
  4. `Script.Read.eq_outcome`, `Stage.outcome_script_of_error` — what a read of
     everything returns, and that no stage hides a fault.
  5. `Script.Run.cut` — reads that follow a script without faults cut its
     content.
-/

namespace SealedStore

/-- A read that asks for at least one byte. -/
def Amount.Positive : Amount → Prop
  | .atMost n => 0 < n
  | .rest => True

/-- Bytes still to come, and the faults between them. -/
abbrev Script := List (Except Error UInt8)

namespace Script

def ofBytes (b : Bytes) : Script := b.map .ok

def content (s : Script) : Bytes := s.filterMap Except.toOption

@[simp] theorem ofBytes_nil : ofBytes [] = [] := rfl

@[simp] theorem ofBytes_cons (x : UInt8) (b : Bytes) : ofBytes (x :: b) = .ok x :: ofBytes b := rfl

@[simp] theorem ofBytes_append (a b : Bytes) : ofBytes (a ++ b) = ofBytes a ++ ofBytes b :=
  List.map_append

@[simp] theorem ofBytes_eq_nil {b : Bytes} : ofBytes b = [] ↔ b = [] := List.map_eq_nil_iff

@[simp] theorem content_nil : content [] = [] := rfl

@[simp] theorem content_ok (x : UInt8) (s : Script) : content (.ok x :: s) = x :: content s := rfl

@[simp] theorem content_error (e : Error) (s : Script) : content (.error e :: s) = content s := rfl

@[simp] theorem content_append (s t : Script) : content (s ++ t) = content s ++ content t :=
  List.filterMap_append

@[simp] theorem content_ofBytes (b : Bytes) : content (ofBytes b) = b := by
  induction b with
  | nil => rfl
  | cons x b ih => rw [ofBytes_cons, content_ok, ih]

theorem ofBytes_injective {a b : Bytes} (h : ofBytes a = ofBytes b) : a = b := by
  rw [← content_ofBytes a, h, content_ofBytes]

/-- The fault that ended something, if one did. -/
def met {α : Type} : Except Error α → Script
  | .ok _ => []
  | .error e => [.error e]

/-! ## Reads -/

/-- What a read of everything returns: all bytes, or the first fault. -/
def outcome : Script → Except Error Bytes
  | [] => .ok []
  | .ok x :: rest => (outcome rest).map (x :: ·)
  | .error e :: _ => .error e

theorem outcome_append (b : Bytes) (s : Script) :
    outcome (ofBytes b ++ s) = (outcome s).map (b ++ ·) := by
  induction b with
  | nil => cases h : outcome s <;> simp [h, Except.map]
  | cons x b ih =>
    show (outcome (ofBytes b ++ s)).map (x :: ·) = _
    rw [ih]
    cases outcome s <;> rfl

theorem outcome_ofBytes (b : Bytes) : outcome (ofBytes b) = .ok b := by
  have h := outcome_append b []
  rw [List.append_nil] at h
  exact h.trans (congrArg Except.ok b.append_nil)

theorem outcome_met (verdict : Except Error Unit) : outcome (met verdict) = verdict.map fun _ => [] := by
  cases verdict <;> rfl

theorem eq_ofBytes_of_outcome {s : Script} {b : Bytes} (h : outcome s = .ok b) : s = ofBytes b := by
  induction s generalizing b with
  | nil =>
    cases h
    rfl
  | cons x s ih =>
    cases x with
    | error e => cases h
    | ok x =>
      have h : (outcome s).map (x :: ·) = .ok b := h
      cases hs : outcome s with
      | error e =>
        rw [hs] at h
        cases h
      | ok c =>
        rw [hs] at h
        cases h
        exact congrArg (.ok x :: ·) (ih hs)

/-- What a read may return of a script, and what it leaves. Only a read at the
end is empty, and a fault is met once. -/
inductive Read : Amount → Script → Except Error Bytes → Script → Prop
  | ended {n : Nat} : Read (.atMost n) [] (.ok []) []
  | piece {n : Nat} {b : Bytes} {rest : Script} (hb : b ≠ []) (hn : b.length ≤ n) :
      Read (.atMost n) (ofBytes b ++ rest) (.ok b) rest
  | fault {n : Nat} {e : Error} {rest : Script} : Read (.atMost n) (.error e :: rest) (.error e) rest
  | all {b : Bytes} : Read .rest (ofBytes b) (.ok b) []
  | broken {b : Bytes} {e : Error} {rest : Script} :
      Read .rest (ofBytes b ++ .error e :: rest) (.error e) rest

/-- What reads one after the other may return, and what they leave. -/
inductive Run : List Amount → Script → List (Except Error Bytes) → Script → Prop
  | nil {s : Script} : Run [] s [] s
  | cons {a : Amount} {plan : List Amount} {s t u : Script} {r : Except Error Bytes}
      {rs : List (Except Error Bytes)} (h : Read a s r t) (ht : Run plan t rs u) :
      Run (a :: plan) s (r :: rs) u

namespace Read
variable {a : Amount} {n : Nat} {s t : Script} {b : Bytes} {e : Error}

theorem of_ok_nil (h : Read (.atMost n) s (.ok []) t) : s = [] ∧ t = [] := by
  cases h with
  | ended => exact ⟨rfl, rfl⟩
  | piece hb => exact absurd rfl hb

theorem of_ok (h : Read a s (.ok b) t) : s = ofBytes b ++ t := by
  cases h <;> simp

theorem of_error (h : Read (.atMost n) s (.error e) t) : s = .error e :: t := by
  cases h
  rfl

/-- A read of everything returns a content without faults. -/
theorem of_content {c : Bytes} {r : Except Error Bytes} (h : Read .rest (ofBytes c) r t) :
    r = .ok c ∧ t = [] := by
  generalize hs : ofBytes c = s at h
  cases h with
  | all => exact ⟨congrArg _ (ofBytes_injective hs).symm, rfl⟩
  | broken =>
    -- The bytes of a content are no faults.
    obtain ⟨c₁, c₂, rfl, -, h₂⟩ := List.map_eq_append_iff.mp hs
    cases c₂ <;> simp at h₂

theorem eq_outcome {r : Except Error Bytes} (h : Read .rest s r t) : r = outcome s := by
  cases h with
  | all => exact (outcome_ofBytes _).symm
  | @broken b e _ => exact (outcome_append b (.error e :: t)).symm

/-- Bytes in front are part of what a read of everything returns, or lost with it. -/
theorem append {r : Except Error Bytes} (h : Read .rest s r t) (b : Bytes) :
    Read .rest (ofBytes b ++ s) (r.map (b ++ ·)) t := by
  cases h with
  | all =>
    rw [← ofBytes_append]
    exact .all
  | broken =>
    rw [← List.append_assoc, ← ofBytes_append]
    exact .broken

end Read

end Script

/-! ## Contents -/

/-- How reads of some amounts may cut a content: the pieces, and what is left.
No piece is longer than was asked for, and none is empty before the end. -/
inductive Cut : List Amount → Bytes → List Bytes → Bytes → Prop
  | nil {c : Bytes} : Cut [] c [] c
  | some {n : Nat} {plan : List Amount} {piece c left : Bytes} {pieces : List Bytes}
      (hn : piece.length ≤ n) (hend : piece = [] → c = []) (h : Cut plan c pieces left) :
      Cut (.atMost n :: plan) (piece ++ c) (piece :: pieces) left
  | rest {plan : List Amount} {c left : Bytes} {pieces : List Bytes} (h : Cut plan [] pieces left) :
      Cut (.rest :: plan) c (c :: pieces) left

namespace Cut
variable {plan : List Amount} {c left : Bytes} {pieces : List Bytes}

theorem flatten_append (h : Cut plan c pieces left) : pieces.flatten ++ left = c := by
  induction h with
  | nil => rfl
  | some _ _ _ ih => rw [List.flatten_cons, List.append_assoc, ih]
  | rest _ ih => rw [List.flatten_cons, List.append_assoc, ih, List.append_nil]

/-- Nothing is left after an empty piece, nor after a read of everything. -/
theorem left_eq_nil (h : Cut plan c pieces left) (hend : [] ∈ pieces ∨ Amount.rest ∈ plan) :
    left = [] := by
  induction h with
  | nil => simp at hend
  | @some n plan piece c left pieces hn hc h ih =>
    by_cases hp : piece = []
    · -- An empty piece is only cut where nothing is left.
      have := h.flatten_append
      rw [hc hp] at this
      exact (List.append_eq_nil_iff.mp this).2
    · refine ih (hend.imp (fun hm => ?_) (fun hm => ?_))
      · exact (List.mem_cons.mp hm).resolve_left fun he => hp he.symm
      · exact (List.mem_cons.mp hm).resolve_left nofun
  | rest h _ => exact (List.append_eq_nil_iff.mp h.flatten_append).2

end Cut

/-- Reads that follow a content without faults cut it. -/
theorem Script.Run.cut {plan : List Amount} {c : Bytes} {rs : List (Except Error Bytes)} {t : Script}
    (h : Script.Run plan (Script.ofBytes c) rs t) :
    ∃ pieces left, rs = pieces.map .ok ∧ t = Script.ofBytes left ∧ Cut plan c pieces left := by
  generalize hs : Script.ofBytes c = s at h
  -- A content without faults meets neither of the rules for faults.
  induction h generalizing c with
  | nil => exact ⟨[], c, rfl, hs.symm, .nil⟩
  | @cons a plan s t u r rs hr _ ih =>
    cases hr with
    | @ended n =>
      obtain rfl := Script.ofBytes_eq_nil.mp hs
      obtain ⟨pieces, left, rfl, hu, hc⟩ := ih Script.ofBytes_nil
      have hcut : Cut (.atMost n :: plan) ([] ++ []) ([] :: pieces) left :=
        .some (Nat.zero_le _) (fun _ => rfl) hc
      exact ⟨[] :: pieces, left, rfl, hu, hcut⟩
    | @piece n b _ hb hn =>
      obtain ⟨c₁, c₂, rfl, h₁, h₂⟩ := List.map_eq_append_iff.mp hs
      obtain rfl : c₁ = b := Script.ofBytes_injective h₁
      obtain ⟨pieces, left, rfl, hu, hc⟩ := ih h₂
      exact ⟨c₁ :: pieces, left, rfl, hu, .some hn (fun he => absurd he hb) hc⟩
    | fault => cases c <;> simp [Script.ofBytes] at hs
    | all =>
      obtain rfl := Script.ofBytes_injective hs
      obtain ⟨pieces, left, rfl, hu, hc⟩ := ih Script.ofBytes_nil
      exact ⟨c :: pieces, left, rfl, hu, .rest hc⟩
    | broken =>
      obtain ⟨c₁, c₂, rfl, h₁, h₂⟩ := List.map_eq_append_iff.mp hs
      cases c₂ <;> simp at h₂

/-! ## Sources -/

namespace Chunk

/-- What chunks hand out. -/
def script : List Chunk → Script
  | [] => []
  | .data b :: rest => Script.ofBytes b ++ script rest
  | .fault text :: rest => .error (.io text) :: script rest

/-- No chunk is empty while others hold anything, so that only the end of the
content reads like an end. -/
def Steady : List Chunk → Prop
  | [] => True
  | .data b :: rest => (b = [] → script rest = []) ∧ Steady rest
  | .fault _ :: rest => Steady rest

theorem content_script_length (l : List Chunk) :
    (script l).content.length = l.foldr (fun c n => c.size + n) 0 := by
  induction l with
  | nil => rfl
  | cons c l ih => cases c <;> simp [script, Chunk.size, ih]

end Chunk

/-! ## Stages -/

namespace Decoder

theorem content_append (d : Decoder) (received piece : Bytes) :
    d.content (received ++ piece) = d.content received ++ d.release received piece := by
  -- The last 16 bytes are held back each time, so that the ends of what is
  -- released move on by the length of the piece at most.
  let start := released received
  let stop := released (received ++ piece)
  have hle : start ≤ stop := by
    simp only [start, stop, released, List.length_append]
    omega
  have hstart : start ≤ received.length := by
    simp only [start, released]
    omega
  have htake : (received ++ piece).take stop =
      received.take start ++ ((received ++ piece).drop start).take (stop - start) := by
    rw [show stop = start + (stop - start) by omega, List.take_add, Nat.add_sub_cancel_left,
      List.take_append_of_le_length hstart]
  have hlen : (received.take start).length = start := by
    rw [List.length_take, Nat.min_eq_left hstart]
  rw [content, htake, Gcm.Context.crypt_append, hlen, Nat.zero_add]
  rfl

@[simp] theorem release_nil (d : Decoder) (received : Bytes) : d.release received [] = [] := by
  simp [release]

theorem release_append (d : Decoder) (received p q : Bytes) :
    d.release received (p ++ q) = d.release received p ++ d.release (received ++ p) q := by
  have h := d.content_append received (p ++ q)
  rw [← List.append_assoc, content_append, content_append, List.append_assoc] at h
  exact (List.append_cancel_left h).symm

theorem content_nil (d : Decoder) : d.content [] = [] := by
  simp [content]

theorem release_nil_left (d : Decoder) (received : Bytes) : d.release [] received = d.content received := by
  have h := d.content_append [] received
  rw [content_nil, List.nil_append, List.nil_append] at h
  exact h.symm

end Decoder

namespace Stage

@[simp] theorem update_nil (s : Stage) (seen : Bytes) : s.update seen [] = [] := by
  cases s with
  | plain | digest | verify => rfl
  | encode e => exact e.cipher.crypt_nil seen.length
  | decode d => exact d.release_nil seen

/-- How a piece is cut does not show in what is emitted. -/
theorem update_append (s : Stage) (seen p q : Bytes) :
    s.update seen (p ++ q) = s.update seen p ++ s.update (seen ++ p) q := by
  cases s with
  | plain | digest | verify => rfl
  | encode e =>
    simp only [update, Encoder.encrypt, Gcm.Context.crypt_append, List.length_append]
  | decode d => exact d.release_append seen p q

/-- What a stage hands out while a script passes through it. -/
def script (s : Stage) : (seen : Bytes) → Script → Script
  | seen, [] =>
    match s.finish seen with
    | .ok last => Script.ofBytes last
    | .error e => [.error e]
  | seen, .ok x :: rest => Script.ofBytes (s.update seen [x]) ++ s.script (seen ++ [x]) rest
  | seen, .error e :: rest => .error e :: s.script seen rest

theorem script_append (s : Stage) (seen b : Bytes) (rest : Script) :
    s.script seen (Script.ofBytes b ++ rest) =
      Script.ofBytes (s.update seen b) ++ s.script (seen ++ b) rest := by
  induction b generalizing seen with
  | nil => simp
  | cons x b ih =>
    calc s.script seen (.ok x :: (Script.ofBytes b ++ rest))
        = Script.ofBytes (s.update seen [x]) ++
            (Script.ofBytes (s.update (seen ++ [x]) b) ++ s.script (seen ++ [x] ++ b) rest) := by
          rw [script, ih]
      _ = Script.ofBytes (s.update seen ([x] ++ b)) ++ s.script (seen ++ ([x] ++ b)) rest := by
          rw [update_append, Script.ofBytes_append, List.append_assoc, List.append_assoc]

/-- The end of a stage's script. -/
def verdict (s : Stage) (seen : Bytes) : Script :=
  match s.finish seen with
  | .ok last => Script.ofBytes last
  | .error e => [.error e]

theorem script_nil (s : Stage) (seen : Bytes) : s.script seen [] = s.verdict seen := rfl

theorem script_ofBytes (s : Stage) (seen b : Bytes) :
    s.script seen (Script.ofBytes b) = Script.ofBytes (s.update seen b) ++ s.verdict (seen ++ b) := by
  have h := s.script_append seen b []
  rwa [List.append_nil, script_nil] at h

/-- A stage passes on the fault that ends what is below it. -/
theorem outcome_script_of_error (s : Stage) {below : Script} {e : Error}
    (h : below.outcome = .error e) (seen : Bytes) : (s.script seen below).outcome = .error e := by
  induction below generalizing seen with
  | nil => cases h
  | cons x below ih =>
    cases x with
    | error f => exact h
    | ok x =>
      have hbelow : Script.outcome below = .error e := by
        have h : (Script.outcome below).map (x :: ·) = .error e := h
        cases hb : Script.outcome below with
        | ok b =>
          rw [hb] at h
          cases h
        | error f =>
          rw [hb] at h
          exact h
      rw [script, Script.outcome_append, ih hbelow]
      rfl

/-! ## How much a stage adds -/

theorem length_update_le (s : Stage) (seen piece : Bytes) :
    (s.update seen piece).length ≤ piece.length := by
  have h := s.length_update seen piece
  cases s with
  | plain | digest | verify | encode => exact Nat.le_of_eq h
  | decode d =>
    simp only [Decoder.released, List.length_append] at h
    omega

theorem length_verdict_le (s : Stage) (seen : Bytes) : (s.verdict seen).content.length ≤ s.slack := by
  cases s with
  | plain | digest => exact Nat.le_refl 0
  | verify etag =>
    simp only [verdict, finish]
    by_cases h : Md5.hex seen = etag <;> simp [h]
  | encode e => simp [verdict, finish, slack, Encoder.tag, Gcm.length_tag, tagSize]
  | decode d =>
    simp only [verdict, finish]
    cases d.check seen with
    | error fault => exact Nat.zero_le _
    | ok _ => exact Nat.zero_le _

theorem length_script_le (s : Stage) (seen : Bytes) (below : Script) :
    (s.script seen below).content.length ≤ below.content.length + s.slack := by
  induction below generalizing seen with
  | nil => simpa [script_nil] using s.length_verdict_le seen
  | cons x below ih =>
    cases x with
    | error e => exact ih seen
    | ok x =>
      -- A byte that goes in brings out at most one.
      have h₁ := s.length_update_le seen [x]
      have h₂ := ih (seen ++ [x])
      simp only [script, Script.content_append, Script.content_ofBytes, List.length_append,
        Script.content_ok, List.length_cons, List.length_nil] at h₁ h₂ ⊢
      omega

/-! ## Single stages -/

theorem script_digest (seen : Bytes) (below : Script) : digest.script seen below = below := by
  induction below generalizing seen with
  | nil => rfl
  | cons x below ih =>
    cases x with
    | error e => exact congrArg (.error e :: ·) (ih seen)
    | ok x => exact congrArg (.ok x :: ·) (ih (seen ++ [x]))

theorem tagSize_le_length_script (e : Encoder) (seen : Bytes) (below : Script) :
    tagSize ≤ ((encode e).script seen below).content.length := by
  induction below generalizing seen with
  | nil => exact Nat.le_of_eq (by simp [script_nil, verdict, finish, Encoder.tag, Gcm.length_tag, tagSize])
  | cons x below ih =>
    cases x with
    | error f => exact ih seen
    | ok x =>
      have h := ih (seen ++ [x])
      simp only [script, Script.content_append, List.length_append]
      omega

end Stage

end SealedStore
