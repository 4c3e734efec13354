import SealedStore.Proofs.EncryptedWrite
import SealedStore.Proofs.Parts
/-!
# Ranges of contents

A write at an offset puts its bytes in their places and keeps all others; what
it leaves between the old end and its first byte is filled with zeros. A read of
a range hands out the bytes whose positions are in it. Two writes that share no
position can be made in either order.

Filters do not show in any of this: digests are compared for whole contents
only, and the codec is not asked. So contents are followed position by position
first, and clients come to that in one step.

What is proved:
  1. `getD_overwrite`, `overwrite_comm` — the bytes after a
     write, and after two of them in either order.
  2. `Client.put_piece_ensures`, `Client.get_range_ensures` — writes and reads
     through any filters.
  3. `Client.ranges_bytewise` — what is written at an offset, and what any later
     read of a range hands out of it.
-/

namespace SealedStore

open Program (Ensures)

/-! ## Bytes by position -/

theorem Bytes.ext_getD {a b : Bytes} (hlen : a.length = b.length) (h : ∀ i, a.getD i 0 = b.getD i 0) :
    a = b := by
  refine List.ext_getElem hlen fun i ha hb => ?_
  have hbyte := h i
  rwa [List.getD_eq_getElem?_getD, List.getD_eq_getElem?_getD, List.getElem?_eq_getElem ha,
    List.getElem?_eq_getElem hb] at hbyte

theorem Bytes.getD_padded (b : Bytes) (n i : Nat) : (b ++ List.replicate n 0).getD i 0 = b.getD i 0 := by
  rw [List.getD_eq_getElem?_getD, List.getD_eq_getElem?_getD, List.getElem?_append]
  split
  · rfl
  · next h =>
    rw [List.getElem?_eq_none (Nat.not_lt.mp h), List.getElem?_replicate]
    split <;> rfl

theorem position_natCast (length i : Nat) : position length i = min i length :=
  if_neg (Int.not_lt.mpr (Int.natCast_nonneg i))

/-- A write changes the positions that it covers, and no others. -/
theorem getD_overwrite (content piece : Bytes) (offset i : Nat) :
    (overwrite content offset piece).getD i 0 =
      if offset ≤ i ∧ i < offset + piece.length then piece.getD (i - offset) 0 else content.getD i 0 := by
  let current := content ++ List.replicate (offset - content.length) 0
  have hlong : offset ≤ current.length := by
    simp only [current, List.length_append, List.length_replicate]
    omega
  have hstart : position current.length offset = offset := by
    rw [position_natCast]
    exact Nat.min_eq_left hlong
  have hstop : position current.length (offset + piece.length) = min (offset + piece.length) current.length := by
    rw [← Int.natCast_add]
    exact position_natCast ..
  have hparts : overwrite content offset piece =
      current.take offset ++ (piece ++ current.drop (min (offset + piece.length) current.length)) := by
    rw [← hstop, ← List.append_assoc]
    exact congrArg (fun n => current.take n ++ piece ++ _) hstart
  have hhead : (current.take offset).length = offset := List.length_take_of_le hlong
  rw [hparts, List.getD_eq_getElem?_getD, List.getElem?_append, hhead,
    ← Bytes.getD_padded content (offset - content.length)]
  -- The place is before the piece, in it, or behind it.
  by_cases hbefore : i < offset
  · rw [if_pos hbefore, if_neg (by omega), List.getElem?_take_of_lt hbefore]
    rfl
  rw [if_neg hbefore, List.getElem?_append]
  by_cases hinside : i - offset < piece.length
  · rw [if_pos hinside, if_pos (by omega)]
    rfl
  · rw [if_neg hinside, if_neg (by omega), List.getElem?_drop, List.getD_eq_getElem?_getD]
    show _ = current[i]?.getD 0
    by_cases hi : i < current.length
    · congr 2
      omega
    · rw [List.getElem?_eq_none (by omega), List.getElem?_eq_none (by omega)]

/-- Pieces that share no position may be written in either order. -/
theorem overwrite_comm (content : Bytes) {a b : Nat} {p q : Bytes}
    (h : ∀ i, ¬((a ≤ i ∧ i < a + p.length) ∧ (b ≤ i ∧ i < b + q.length))) :
    overwrite (overwrite content a p) b q = overwrite (overwrite content b q) a p := by
  refine Bytes.ext_getD ?_ fun i => ?_
  · simp only [length_overwrite]
    omega
  · simp only [getD_overwrite]
    by_cases ha : a ≤ i ∧ i < a + p.length
    · have hb : ¬(b ≤ i ∧ i < b + q.length) := fun hb => h i ⟨ha, hb⟩
      simp only [ha, hb, and_self, if_true, if_false]
    · simp only [if_neg ha]

/-! ## Writes of pieces through filters -/

/-- What the write of a piece ends with, once its entity has been read. -/
def Storage.putPiece (s : Storage) (target : Identity) (metadata : Option Metadata) (acl : Option AccessList)
    (offset : Nat) : Except Error Bytes → Except Error Response × Storage
  | .error e => (.error e, s)
  | .ok piece =>
    let (object, after) := s.put target piece metadata acl (some offset)
    (.ok (shown object), after)

/-- A handler puts the piece that is read of an entity behind the filters where
its range begins. -/
def Handler.PutsPieces (passed : Stream → Stream) (h : Handler StorageInterface) : Prop :=
  ∀ {r : Request} {metadata : Option Metadata} {acl : Option AccessList} {range : ByteRange} {s : Storage},
    r.operation = .put metadata acl (some range) → r.properties.encode = false → r.properties.decode = false →
    Ensures Storage.serve (h r) s fun out t =>
      out.2.operation = r.operation ∧ out.2.properties = r.properties ∧
      (out.1, t) = s.putPiece r.target metadata acl range.first (arrived (r.entity.map passed))

namespace Handler.PutsPieces
variable {next : Handler StorageInterface} {passed : Stream → Stream}

theorem carryOut : Handler.PutsPieces id Storage.carryOut := by
  intro r metadata acl range s hop hencode hdecode
  rw [Option.map_id]
  refine Handler.carryOut_arrived
    (Q := fun reply t => (reply, t) = s.putPiece r.target metadata acl range.first (arrived r.entity)) ?_
  cases arrived r.entity with
  | error e => rfl
  | ok content =>
    rw [hop]
    exact .map (StorageCall.send_ensures rfl)

theorem log (h : next.PutsPieces passed) : Handler.PutsPieces passed (Filter.log next) :=
  fun hop hencode hdecode => Handler.log_ensures (h hop hencode hdecode)

/-- The digest of a piece is compared with nothing. -/
theorem checkDigests (h : next.PutsPieces passed) :
    Handler.PutsPieces (fun s => passed s.digested) (Filter.checkDigests next) := by
  intro r metadata acl range s hop hencode hdecode
  cases hentity : r.entity with
  | none =>
    rw [Filter.checkDigests_eq next (.inl hentity)]
    refine .seq (h hop hencode hdecode) fun out t hout => .done ?_
    have hfull : Filter.readsInFull out.2.operation = false := by rw [hout.1, hop]; rfl
    rw [hfull]
    rwa [hentity] at hout
  | some stream =>
    have hwrites : Filter.writesContent r.operation = true := by rw [hop]; rfl
    have hpartial : Filter.isPartialWrite r.operation = true := by rw [hop]; rfl
    rw [Filter.checkDigests_write_eq next hentity hwrites]
    refine .seq (h (r := { r with entity := some stream.digested }) hop hencode hdecode) fun out t hout => .done ?_
    obtain ⟨hoperation, hproperties, hput⟩ := hout
    -- What is written in part is not compared, so the answer goes through.
    have hanswer : (Filter.undigesting r stream out).1 = out.1 := by
      obtain ⟨reply, back⟩ := out
      cases reply with
      | error e => rfl
      | ok response => simp only [Filter.undigesting, hpartial, if_true]
    rw [Filter.undigesting_snd, hanswer]
    exact ⟨hoperation, hproperties, hput⟩

theorem transcode (e : Encryption) (h : next.PutsPieces passed) :
    Handler.PutsPieces passed (Filter.transcode e next) :=
  fun hop hencode hdecode => Handler.transcode_unasked hencode hdecode
    ((h hop hencode hdecode).mono fun _ _ hout => ⟨hout.2.1, hout⟩)

theorem through (h : next.PutsPieces id) (filters : List Filter) :
    Handler.PutsPieces (Filter.passedAll filters) (Filter.through filters next) := by
  induction filters with
  | nil => exact h
  | cons f rest ih =>
    cases f with
    | logging => exact ih.log
    | checksum => exact ih.checkDigests
    | codec e => exact ih.transcode e

end Handler.PutsPieces

/-! ## Clients -/

namespace Storage

def contentAt (s : Storage) (target : Identity) : Bytes :=
  ((s.objects.get? target).map StoredObject.content).getD []

/-- An object as it is once a piece was written over what was there before. -/
structure Pieced (s : Storage) (p : Put) (offset : Nat) (piece : Bytes) (object : StoredObject) : Prop where
  /-- It reaches as far as the old content or the piece does. -/
  length_eq : object.content.length = max (s.contentAt p.target).length (offset + piece.length)
  /-- Its bytes are those of the piece, or the old ones, or zero. -/
  byte_eq : ∀ i, object.content.getD i 0 =
    if offset ≤ i ∧ i < offset + piece.length then piece.getD (i - offset) 0
    else (s.contentAt p.target).getD i 0
  /-- Metadata stay unless the write brings others. -/
  contentType : object.metadata.contentType =
    ((p.metadata.or ((s.objects.get? p.target).map StoredObject.metadata)).getD {}).contentType
  user : object.metadata.user =
    ((p.metadata.or ((s.objects.get? p.target).map StoredObject.metadata)).getD {}).user
  /-- So does the access list. -/
  acl : object.acl = (p.acl.or ((s.objects.get? p.target).map StoredObject.acl)).getD {}

theorem pieced_put (s : Storage) (p : Put) (offset : Nat) (piece : Bytes) :
    s.Pieced p offset piece (s.put p.target piece p.metadata p.acl (some offset)).1 where
  length_eq := length_overwrite ..
  byte_eq := getD_overwrite _ piece offset
  contentType := rfl
  user := rfl
  acl := rfl

theorem contentAt_put (s : Storage) (target : Identity) (piece : Bytes) (metadata : Option Metadata)
    (acl : Option AccessList) (offset : Nat) :
    (s.put target piece metadata acl (some offset)).2.contentAt target =
      overwrite (s.contentAt target) offset piece := by
  have hget : (s.put target piece metadata acl (some offset)).2.objects.get? target =
      some (s.put target piece metadata acl (some offset)).1 := get?_store ..
  rw [contentAt, hget]
  rfl

end Storage

namespace Client
variable (c : Client) {s : Storage} {target : Identity} {p : Put} {range : ByteRange} {piece : Bytes}

theorem arrived_of_brings (filters : List Filter) (hp : p.Brings piece) :
    arrived (p.request.entity.map (Filter.passedAll filters)) = .ok piece := by
  show arrived (p.entity.map _) = _
  unfold Put.Brings at hp
  cases hentity : p.entity with
  | none =>
    rw [hentity] at hp
    exact congrArg Except.ok hp.symm
  | some stream =>
    rw [hentity] at hp
    obtain ⟨hsteady, hscript⟩ := Filter.steady_passedAll filters hp.steady
    refine (Stream.read_rest_eq hsteady).trans ?_
    rw [hscript, hp.script_eq, Script.outcome_ofBytes]

/-- A write with a range puts what it brings where the range begins, whatever
the filters are. -/
theorem put_piece_ensures (hrange : p.range = some range) (hp : p.Brings piece) :
    Ensures Storage.serve (c.put p) s fun out t =>
      let put := s.put p.target piece p.metadata p.acl (some range.first)
      out.1 = .ok (written (Storage.shown put.1)) ∧ t = put.2 := by
  have hop : p.request.operation = .put p.metadata p.acl (some range) := by rw [← hrange]; rfl
  have hputs : Ensures Storage.serve (c.handle p.request) s _ :=
    Handler.PutsPieces.carryOut.through c.filters (r := p.request) hop rfl rfl
  refine .seq hputs fun out t hout => .done ?_
  obtain ⟨-, -, hput⟩ := hout
  rw [arrived_of_brings c.filters hp] at hput
  obtain ⟨hreply, rfl⟩ := Prod.mk.inj hput
  rw [hreply]
  exact ⟨rfl, rfl⟩

theorem contentAt_put_piece (hrange : p.range = some range) (hp : p.Brings piece) (htarget : p.target = target)
    (w : World Storage) :
    ((c.put p).run Storage.serve w).2.state.contentAt target =
      overwrite (w.state.contentAt target) range.first piece := by
  subst htarget
  obtain ⟨-, hstate⟩ := c.put_piece_ensures hrange hp w rfl
  rw [hstate]
  exact Storage.contentAt_put ..

theorem get_range_ensures (range : ByteRange) {object : StoredObject}
    (hget : s.objects.get? target = some object) :
    Ensures Storage.serve (c.get target (some range)).run s fun x t => t = s ∧
      x = .ok {
        body := Stream.ofBytes (range.slice object.content)
        metadata := { object.metadata with contentLength := some (range.slice object.content).length } } := by
  refine .map (execute_ensures ⟨rfl, rfl, rfl, rfl⟩ (.map (StorageCall.send_ensures ?_)))
  rw [Storage.serve_get hget]
  exact ⟨rfl, rfl⟩

/-- Ranges agree byte for byte. A write with a range succeeds and leaves its
bytes where the range begins, all other bytes as they were, and zeros in a gap;
metadata and access list stay unless it brings others, and so does every other
object. From then on every read of a range hands out the bytes of this content
whose positions are in the range, and says how many they are. Two writes that
share no position leave the same content in either order. -/
theorem ranges_bytewise (c : Client) (target : Identity) (w : World Storage) :
    (∀ p range piece, p.target = target → p.range = some range → p.Brings piece →
      let out := (c.put p).run Storage.serve w
      ∃ object, out.1.1 = .ok (written (Storage.shown object)) ∧
        out.2.state.objects.get? target = some object ∧ w.state.Pieced p range.first piece object ∧
        (∀ other, other ≠ target → out.2.state.objects.get? other = w.state.objects.get? other) ∧
        ∀ (reader : Client) (v : World Storage) (part : ByteRange), v.state.objects.get? target = some object →
          let bytes := (object.content.zipIdx.filter fun e => part.covers e.2).map (·.1)
          ∃ content, ((reader.get target (some part)).run.run Storage.serve v).1 = .ok content ∧
            content.read.1 = .ok bytes ∧ content.metadata.contentLength = some bytes.length) ∧
    ∀ (d : Client) p q first second piece other, p.target = target → q.target = target →
      p.range = some first → q.range = some second → p.Brings piece → q.Brings other →
      (∀ i, ¬((first.first ≤ i ∧ i < first.first + piece.length) ∧
        (second.first ≤ i ∧ i < second.first + other.length))) →
      ((d.put q).run Storage.serve ((c.put p).run Storage.serve w).2).2.state.contentAt target =
        ((c.put p).run Storage.serve ((d.put q).run Storage.serve w).2).2.state.contentAt target := by
  constructor
  · rintro p range piece rfl hrange hp
    obtain ⟨hresult, hstate⟩ := c.put_piece_ensures hrange hp w rfl
    refine ⟨_, hresult, ?_, w.state.pieced_put p range.first piece, ?_, ?_⟩
    · rw [hstate]
      exact Storage.get?_store ..
    · intro other hother
      rw [hstate]
      exact Storage.get?_store_other _ hother.symm ..
    · intro reader v part hv bytes
      obtain ⟨-, hgot⟩ := reader.get_range_ensures part hv v rfl
      have hbytes : part.slice _ = bytes := part.slice_eq_covered _
      rw [hbytes] at hgot
      exact ⟨_, hgot, (Stream.holds_ofBytes bytes).read_rest.1, rfl⟩
  · intro d p q first second piece other hptarget hqtarget hfirst hsecond hp hq hapart
    calc ((d.put q).run Storage.serve ((c.put p).run Storage.serve w).2).2.state.contentAt target
        = overwrite (overwrite (w.state.contentAt target) first.first piece) second.first other := by
          rw [d.contentAt_put_piece hsecond hq hqtarget, c.contentAt_put_piece hfirst hp hptarget]
      _ = overwrite (overwrite (w.state.contentAt target) second.first other) first.first piece :=
          overwrite_comm _ hapart
      _ = ((c.put p).run Storage.serve ((d.put q).run Storage.serve w).2).2.state.contentAt target := by
          rw [c.contentAt_put_piece hfirst hp hptarget, d.contentAt_put_piece hsecond hq hqtarget]

/-- A byte two places behind the end of three: a read from the third byte on,
and beyond the end, gets zeros between the two. Another byte put in the middle
of the three may as well have been put there before. -/
theorem ranges_bytewise_gap :
    let target : Identity := ⟨"bucket", "doc"⟩
    let p : Put := Put.make target (some (.bytes [9])) none none (some ⟨5, none⟩)
    let q : Put := Put.make target (some (.bytes [7])) none none (some ⟨1, none⟩)
    let w : World Storage :=
      { entropy := Entropy.ofSeed "", state := (({} : Storage).put target [1, 2, 3] none none none).2 }
    let put (p : Put) (w : World Storage) := ((({} : Client).put p).run Storage.serve w).2
    (∃ content, ((({} : Client).get target (some ⟨2, some 7⟩)).run.run Storage.serve (put p w)).1 = .ok content ∧
      content.read.1 = .ok [3, 0, 0, 9] ∧ content.metadata.contentLength = some 4) ∧
    (put q (put p w)).state.contentAt target = (put p (put q w)).state.contentAt target := by
  intro target p q w put
  have hp : p.Brings [9] := Stream.holds_ofBytes [9]
  have hq : q.Brings [7] := Stream.holds_ofBytes [7]
  obtain ⟨object, -, hget, hpieced, -, hreads⟩ := (ranges_bytewise {} target w).1 p ⟨5, none⟩ [9] rfl rfl hp
  have hbefore : w.state.contentAt target = [1, 2, 3] := by
    have hold : w.state.objects.get? target = some (({} : Storage).put target [1, 2, 3] none none none).1 :=
      Storage.get?_store ..
    rw [Storage.contentAt, hold]
    rfl
  have hcontent : object.content = [1, 2, 3, 0, 0, 9] := by
    refine Bytes.ext_getD ?_ fun i => ?_
    · rw [hpieced.length_eq]
      show max (w.state.contentAt target).length _ = _
      rw [hbefore]
      rfl
    · rw [hpieced.byte_eq]
      show (if _ then _ else (w.state.contentAt target).getD i 0) = _
      rw [hbefore]
      match i with
      | 0 | 1 | 2 | 3 | 4 | 5 => rfl
      | i + 6 => exact if_neg (by simp)
  have hread := hreads {} (put p w) ⟨2, some 7⟩ hget
  rw [hcontent] at hread
  have hapart : ∀ i, ¬((5 ≤ i ∧ i < 5 + 1) ∧ (1 ≤ i ∧ i < 1 + 1)) := by omega
  exact ⟨hread, (ranges_bytewise {} target w).2 {} p q ⟨5, none⟩ ⟨1, none⟩ [9] [7] rfl rfl rfl rfl hp hq hapart⟩

end Client

end SealedStore
