import SealedStore.Proofs.Atomicity
/-!
# Writes that are tried again

A write comes back with everything it was given, so that it can be sent again,
but its content is a stream that has been read. Whether the first write was
stored or which of its calls was refused, a second one stores an object of
which nothing is left but the metadata: it is read as an empty content, though
the length that the write declares is still that of the content.

What is proved:
  1. `Put.Drained.brings` — what a write brings that has come back.
  2. `EncryptingClient.retried_empty` — what the second write stores.
-/

namespace SealedStore

open Program (Ensures recording)

theorem Put.Drained.brings {p back : Put} {content : Bytes} (h : p.Drained back) (hp : p.Brings content) :
    back.Brings [] := by
  obtain ⟨read, rfl, hread⟩ := h
  have hread := hread ⟨content, hp⟩
  unfold Brings
  cases p.entity with
  | none => rfl
  | some stream => exact hread

namespace EncryptingClient
variable {settings : EncryptionSettings} {base : ClientSettings} {filters : List Filter}

/-- A write comes back as it was, but for its content, whatever the store has
refused. -/
theorem put_comes_back (base : ClientSettings) {p : Put} {content : Bytes} (hf : OneChecksum filters)
    (hsuffix : settings.tempSuffix ≠ "") (hrange : p.range = none) (hp : p.Brings content)
    (hk : settings.encryption.ring.current.Dependable) {w : World Monitored} (hetag : w.state.reportedEtag = none) :
    let again := (((make settings base filters).put p).run Monitored.serve w).1.2
    again = { p with entity := again.entity } ∧ again.Brings [] := by
  intro again
  have hput : Ensures (recording Monitored.serve) ((make settings base filters).put p) (w.state, [])
      fun out _ => p.Drained out.2 :=
    (put_refusals hf hsuffix hk hetag hrange hp.holds.steady).mono fun _ _ h => h.2
  have hdrained : p.Drained again :=
    hput.of_recording (Q := fun (out : Except Error WriteResult × Put) _ _ => p.Drained out.2) rfl
  have hbrings := hdrained.brings hp
  obtain ⟨stream, hagain, -⟩ := hdrained
  exact ⟨by rw [hagain], hbrings⟩

/-- A write of nothing is read as nothing by whoever holds its master key. -/
theorem put_empty_read (base : ClientSettings) {p : Put} (hf : OneChecksum filters)
    (hsuffix : settings.tempSuffix ≠ "") (hrange : p.range = none) (hp : p.Brings [])
    (hk : settings.encryption.ring.current.Dependable) (v : World Storage) :
    let out := ((make settings base filters).put p).run Storage.serve v
    (∃ result, out.1.1 = .ok result) ∧
      ∀ w : World Storage, w.state = out.2.state →
        (((make settings base filters).read p.target).run.run Storage.serve w).1 = .ok [] := by
  intro out
  have hwrote : Ensures Storage.serve ((make settings base filters).put p) v.state _ :=
    put_wrote hf hsuffix hrange hp hk
  have hopened : Ensures Storage.serve ((make settings base filters).put p) v.state _ :=
    put_opened hf hsuffix hrange hp hk (Nat.pow_pos (by decide))
  obtain ⟨_, -, -, hresult⟩ := hwrote v rfl
  obtain ⟨object, hget, hhonest, hopens⟩ := hopened v rfl
  refine ⟨⟨_, hresult⟩, fun w hw => ?_⟩
  -- The reader's world may have another entropy, but it has the same store.
  have hget : w.state.objects.get? p.target = some object := by rw [hw]; exact hget
  exact (read_opened hf hget hhonest (hopens _ settings.encryption.ring.get?_current) w rfl).2

/-- A write to a store that may refuse any of its calls, and then the same write
once more, when nothing is refused. What was handed in comes back, with the
length that it declares, but the content is used up. So the second write
succeeds, and its object is read as an empty content, which is the content that
was handed in only if that was empty itself. -/
theorem retried_empty (settings : EncryptionSettings) (hsuffix : settings.tempSuffix ≠ "")
    (hk : settings.encryption.ring.current.Dependable) (base : ClientSettings) {filters : List Filter}
    (hf : OneChecksum filters) {p : Put} (hrange : p.range = none) {content : Bytes} (hp : p.Brings content)
    {w : World Monitored} (hetag : w.state.reportedEtag = none) :
    let c := make settings base filters
    let first := (c.put p).run Monitored.serve w
    let again := first.1.2
    (again = { p with entity := again.entity } ∧ again.Brings []) ∧
    ∀ v : World Storage, v.state = first.2.state.storage →
      let second := (c.put again).run Storage.serve v
      (∃ result, second.1.1 = .ok result) ∧
      ∀ u : World Storage, u.state = second.2.state →
        let read := ((c.read p.target).run.run Storage.serve u).1
        read = .ok [] ∧ (read = .ok content ↔ content = []) := by
  intro c first again
  obtain ⟨hsame, hbrings⟩ : again = { p with entity := again.entity } ∧ again.Brings [] :=
    put_comes_back base hf hsuffix hrange hp hk hetag
  have htarget : again.target = p.target := by rw [hsame]
  have hagain : again.range = none := by rw [hsame]; exact hrange
  refine ⟨⟨hsame, hbrings⟩, fun v _ => ?_⟩
  intro second
  obtain ⟨hresult, hread⟩ := put_empty_read base hf hsuffix hagain hbrings hk v
  refine ⟨hresult, fun u hu => ?_⟩
  intro read
  have hempty : read = .ok [] := by
    have hread := hread u hu
    rwa [htarget] at hread
  refine ⟨hempty, ?_⟩
  rw [hempty]
  exact ⟨fun h => (Except.ok.inj h).symm, fun h => by rw [h]⟩

def isCopy : StorageCall → Bool
  | .copy _ _ _ _ => true
  | _ => false

def isPut : StorageCall → Bool
  | .put _ _ _ _ _ => true
  | _ => false

def refusing (calls : StorageCall → Bool) : World Monitored where
  entropy := Entropy.ofSeed ""
  state := { refuses := fun c => if calls c then some .badTag else none }

/-- The copy that publishes three bytes is refused, and the second write of them
is read as nothing. -/
theorem retried_empty_copy_refused :
    ∃ first second,
      first = ((make oneKey {} Filter.default).put threeBytes).run Monitored.serve (refusing isCopy) ∧
      second = ((make oneKey {} Filter.default).put first.1.2).run Storage.serve
        { entropy := Entropy.ofSeed "again", state := first.2.state.storage } ∧
      (((make oneKey {} Filter.default).read threeBytes.target).run.run Storage.serve second.2).1 = .ok [] := by
  obtain ⟨first, hfirst⟩ : ∃ first, first =
    ((make oneKey {} Filter.default).put threeBytes).run Monitored.serve (refusing isCopy) := ⟨_, rfl⟩
  refine ⟨first, _, hfirst, rfl, ?_⟩
  have hrange : threeBytes.range = none := rfl
  have hetag : (refusing isCopy).state.reportedEtag = none := rfl
  obtain ⟨-, hretry⟩ :=
    retried_empty oneKey (by decide) rfl {} oneChecksum_default hrange threeBytes_brings hetag
  rw [← hfirst] at hretry
  exact ((hretry _ rfl).2 _ rfl).1

theorem put_refused {p : Put} {content : Bytes} (hrange : p.range = none) (hp : p.Brings content) :
    (((make oneKey {} Filter.default).put p).run Monitored.serve (refusing isPut)).1.1 = .error .badTag := by
  let m := (refusing isPut).state
  have hends : Ensures (recording Monitored.serve) ((make oneKey {} Filter.default).put p) (m, [])
      fun out _ => out.1 = .error .badTag := by
    have hput : Ensures (recording Monitored.serve) ((make oneKey {} Filter.default).put p) (m, []) _ :=
      put_atomic oneChecksum_default (by decide) rfl rfl hrange hp.holds.steady
    refine hput.mono fun out t h => ?_
    simp only [hp.holds.read_rest.1] at h
    obtain ⟨encoder, -, hcalls, hatomic⟩ := h
    -- The write is refused, so that only the deletion follows.
    let write := StorageCall.put (p.target.withSuffix oneKey.tempSuffix) (encoder.output content)
      (some (p.metadata.getD {})) none none
    have hwrite : m.refuses write = some .badTag := rfl
    have hbroken : ¬m.refuses write = none := by simp [hwrite]
    rw [Monitored.WentDetour, if_neg hbroken] at hcalls
    have hrefused : m.refused t.2 = [write] := by
      rw [hcalls]
      exact (m.refused_cons_of_some hwrite _).trans (congrArg _ (m.refused_cons_of_none rfl []))
    obtain ⟨e, he, hresult⟩ := hatomic.first _ _ hrefused (by rw [hrefused]; simp [write])
    obtain rfl : Error.badTag = e := Option.some.inj (hwrite.symm.trans he)
    exact hresult
  exact hends.of_recording (Q := fun (out : Except Error WriteResult × Put) _ _ => out.1 = .error .badTag) rfl

/-- The first write of three bytes raises, and the second one succeeds, but what
it stores is not read as the three bytes. -/
theorem three_bytes_lost :
    ∃ first second,
      first = ((make oneKey {} Filter.default).put threeBytes).run Monitored.serve (refusing isPut) ∧
      second = ((make oneKey {} Filter.default).put first.1.2).run Storage.serve
        { entropy := Entropy.ofSeed "again", state := first.2.state.storage } ∧
      first.1.1 = .error .badTag ∧ (∃ result, second.1.1 = .ok result) ∧
      (((make oneKey {} Filter.default).read threeBytes.target).run.run Storage.serve second.2).1 ≠
        .ok [1, 2, 3] := by
  obtain ⟨first, hfirst⟩ : ∃ first, first =
    ((make oneKey {} Filter.default).put threeBytes).run Monitored.serve (refusing isPut) := ⟨_, rfl⟩
  refine ⟨first, _, hfirst, rfl, ?_⟩
  have hraised : first.1.1 = .error .badTag := by
    rw [hfirst]
    exact put_refused rfl threeBytes_brings
  have hdependable : oneKey.encryption.ring.current.Dependable := rfl
  have hetag : (refusing isPut).state.reportedEtag = none := rfl
  obtain ⟨hsame, hbrings⟩ :=
    put_comes_back {} oneChecksum_default (by decide) rfl threeBytes_brings hdependable hetag
  rw [← hfirst] at hsame hbrings
  have htarget : first.1.2.target = threeBytes.target := by rw [hsame]
  have hrange : first.1.2.range = none := by rw [hsame]; rfl
  obtain ⟨hresult, hread⟩ := put_empty_read {} oneChecksum_default (by decide) hrange hbrings hdependable
    { entropy := Entropy.ofSeed "again", state := first.2.state.storage }
  refine ⟨hraised, hresult, ?_⟩
  have hempty := hread _ rfl
  rw [htarget] at hempty
  rw [hempty]
  exact fun h => List.cons_ne_nil _ _ (Except.ok.inj h).symm

end EncryptingClient

end SealedStore
