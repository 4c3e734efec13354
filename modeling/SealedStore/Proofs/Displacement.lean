import SealedStore.Proofs.Rotation
/-!
# Displaced keys

A rotated ring finds the new key under its name and every other name as
before. Names of AES keys are free to choose, so the new key may take the name
of an older one, which no ring finds from then on. What was wrapped by the
displaced key is lost unless the new key unwraps it to the same; everything
else is read as before the rotation.

What is proved:
  1. `KeyRing.get?_rotated_eq` — look-ups in a rotated ring.
  2. `Encryption.unwrap_rotated_iff` — which keys of content a rotation keeps.
  3. `EncryptingClient.read_rotated`, `read_displaced` — what is read after it.
-/

namespace SealedStore

open Program (Ensures)

/-! ## Look-ups -/

theorem find?_distinctBy {κ : Type} (name : κ → String) (keyId : String) (l : List κ) :
    ∀ seen : List String, keyId ∉ seen →
      (distinctBy name seen l).find? (fun k => name k == keyId) = l.find? fun k => name k == keyId := by
  -- The names seen grow along the list, but the one that is looked for is never among them.
  induction l with
  | nil =>
    intro seen _
    rfl
  | cons a rest ih =>
    intro seen hseen
    unfold distinctBy
    by_cases hkept : name a ∈ seen
    · have hne : (name a == keyId) = false := by
        simp only [beq_eq_false_iff_ne, ne_eq]
        intro heq
        exact hseen (heq ▸ hkept)
      simp only [if_pos hkept, List.find?_cons, hne]
      exact ih seen hseen
    · simp only [if_neg hkept, List.find?_cons]
      split
      · rfl
      · next hne =>
        simp only [beq_eq_false_iff_ne, ne_eq] at hne
        apply ih
        intro hmem
        rcases List.mem_cons.mp hmem with heq | hmem
        · exact hne heq.symm
        · exact hseen hmem

namespace KeyRing
variable {κ : Type} [Keyed κ]

/-- A rotated ring finds the new key under its name, and what it found before
under any other. -/
theorem get?_rotated_eq (r : KeyRing κ) (newCurrent : κ) (keyId : String) :
    (r.rotated newCurrent).get? keyId =
      if Keyed.keyId newCurrent = keyId then some newCurrent else r.get? keyId := by
  by_cases hid : Keyed.keyId newCurrent = keyId
  · subst hid
    rw [if_pos rfl]
    exact (r.rotated newCurrent).get?_current
  · have hfront : ¬(Keyed.keyId newCurrent == keyId) = true := fun h => hid (beq_iff_eq.mp h)
    have hseen : keyId ∉ [Keyed.keyId newCurrent] := fun h => hid (List.mem_singleton.mp h).symm
    rw [if_neg hid]
    calc (r.rotated newCurrent).get? keyId
        = (distinctBy Keyed.keyId [Keyed.keyId newCurrent] r.members).find?
            (fun k => Keyed.keyId k == keyId) := List.find?_cons_of_neg hfront
      _ = r.get? keyId := find?_distinctBy Keyed.keyId keyId r.members _ hseen

/-- A member stays a member that is found under its name unless another key
takes that name. -/
theorem get?_rotated_member_iff {r : KeyRing κ} {newCurrent member : κ} (h : member ∈ r.members) :
    (r.rotated newCurrent).get? (Keyed.keyId member) = some member ↔
      (Keyed.keyId member = Keyed.keyId newCurrent → member = newCurrent) := by
  rw [get?_rotated_eq]
  by_cases hid : Keyed.keyId newCurrent = Keyed.keyId member
  · rw [if_pos hid, Option.some.injEq]
    constructor
    · intro heq _
      exact heq.symm
    · intro hsame
      exact (hsame hid.symm).symm
  · have hfound : r.get? (Keyed.keyId member) = some member := (r.get?_eq_some_iff _ _).mpr ⟨h, rfl⟩
    rw [if_neg hid]
    constructor
    · intro _ heq
      exact absurd heq.symm hid
    · intro _
      exact hfound

end KeyRing

/-! ## Keys of content -/

namespace Encryption
variable {e : Encryption} {key : MasterKey} {envelope : Envelope} {dataKey : SecretKey} {m : UserMetadata}
  {d : Decoder}

def rotated (e : Encryption) (key : MasterKey) : Encryption := { e with ring := e.ring.rotated key }

theorem unwrap_rotated_of_ne (hid : envelope.masterKeyId ≠ key.keyId) :
    (e.rotated key).unwrap envelope = e.unwrap envelope := by
  have hget : (e.rotated key).ring.get? envelope.masterKeyId = e.ring.get? envelope.masterKeyId :=
    (e.ring.get?_rotated_eq key _).trans (if_neg fun h => hid h.symm)
  rw [unwrap, hget]
  rfl

theorem get?_rotated_of_eq (hid : envelope.masterKeyId = key.keyId) :
    (e.rotated key).ring.get? envelope.masterKeyId = some key :=
  (e.ring.get?_rotated_eq key _).trans (if_pos hid.symm)

/-- A key of content is unwrapped after a rotation as before it, unless it was
wrapped under the name of the new key, which then has to unwrap it. -/
theorem unwrap_rotated_iff (h : e.unwrap envelope = .ok dataKey) :
    (e.rotated key).unwrap envelope = .ok dataKey ↔
      (envelope.masterKeyId = key.keyId → key.unwrap envelope.wrappedKey = .ok dataKey) := by
  by_cases hid : envelope.masterKeyId = key.keyId
  · obtain ⟨-, size, -, -, hsize⟩ := unwrap_eq_ok_iff.mp h
    have hget : (e.rotated key).ring.get? envelope.masterKeyId = some key := get?_rotated_of_eq hid
    constructor
    · intro hrotated _
      obtain ⟨master, -, hmaster, hunwrap, -⟩ := unwrap_eq_ok_iff.mp hrotated
      rw [hget] at hmaster
      rw [Option.some.inj hmaster]
      exact hunwrap
    · intro hunwrap
      exact unwrap_eq_ok_iff.mpr ⟨key, size, hget, hunwrap hid, hsize⟩
  · rw [unwrap_rotated_of_ne hid]
    constructor
    · intro _ heq
      exact absurd heq hid
    · intro _
      exact h

theorem decoder_rotated (hd : e.decoder m = .ok d)
    (hkey : d.envelope.masterKeyId = key.keyId → key.unwrap d.envelope.wrappedKey = .ok d.dataKey) :
    (e.rotated key).decoder m = .ok d := by
  obtain ⟨hread, hmode, hunwrap, hiv⟩ := decoder_eq_ok_iff.mp hd
  exact decoder_eq_ok_iff.mpr ⟨hread, hmode, (unwrap_rotated_iff hunwrap).mpr hkey, hiv⟩

end Encryption

/-! ## Objects -/

def EncryptionSettings.rotated (settings : EncryptionSettings) (key : MasterKey) : EncryptionSettings :=
  { settings with encryption := settings.encryption.rotated key }

namespace EncryptingClient
variable {settings : EncryptionSettings} {base : ClientSettings} {filters : List Filter} {s : Storage}
  {target : Identity} {object : StoredObject} {key : MasterKey} {d : Decoder} {plain : Bytes}

theorem read_unencrypted (hf : OneChecksum filters) (hget : s.objects.get? target = some object)
    (hhonest : (Storage.shown object).Honest object.content)
    (hmode : Envelope.modeOf? object.metadata.user = none) :
    Ensures Storage.serve ((make settings base filters).read target).run s fun r t =>
      t = s ∧ r = .ok object.content := by
  refine .attempt (get_ensures hf (StorageCall.send_ensures ?_))
  rw [Storage.serve_get hget]
  intro stream hstream
  have hdecrypt : Filter.decrypt settings.encryption { Storage.shown object with entity := some stream } =
      .ok { Storage.shown object with entity := some stream } := by
    simp only [Filter.decrypt, Storage.shown, hmode]
  rw [hdecrypt]
  exact .of ⟨rfl, (hstream.holds hhonest).read_rest.1⟩

/-- What was read before a rotation is read after it, unless the object was
written under the name of the new key, which then has to unwrap its key. -/
theorem read_rotated (hf : OneChecksum filters) (hs : s.Reachable)
    (hget : s.objects.get? target = some object) {w : World Storage} (hw : w.state = s)
    (hread : (((make settings base filters).read target).run.run Storage.serve w).1 = .ok plain)
    (hkey : ∀ d, settings.encryption.decoder object.metadata.user = .ok d →
      d.envelope.masterKeyId = key.keyId → key.unwrap d.envelope.wrappedKey = .ok d.dataKey) :
    Ensures Storage.serve ((make (settings.rotated key) base filters).read target).run s fun r t =>
      t = s ∧ r = .ok plain := by
  have hhonest : (Storage.shown object).Honest object.content :=
    (hs.consistent.objects target object hget).honest
  cases hmode : Envelope.modeOf? object.metadata.user with
  | none =>
    have hbefore : Ensures Storage.serve ((make settings base filters).read target).run s fun r t =>
        t = s ∧ r = .ok object.content := read_unencrypted hf hget hhonest hmode
    have hplain : plain = object.content := Except.ok.inj (hread.symm.trans (hbefore w hw).2)
    rw [hplain]
    exact read_unencrypted hf hget hhonest hmode
  | some mode =>
    have hopens : settings.encryption.Opens object plain := by
      have hbefore : Ensures Storage.serve ((make settings base filters).read target).run s _ :=
        opened_of_read hf
      obtain ⟨found, hfound, hcases⟩ := (hbefore w hw).2 plain hread
      obtain rfl : object = found := Option.some.inj (hget.symm.trans hfound)
      rcases hcases with hnone | ⟨d, -, hopens⟩
      · rw [hmode] at hnone
        cases hnone
      · exact hopens hhonest
    obtain ⟨d, hd, hcheck, hcontent⟩ := hopens
    exact read_opened hf hget hhonest ⟨d, Encryption.decoder_rotated hd (hkey d hd), hcheck, hcontent⟩

/-- An object under a displaced key is lost if the new key does not unwrap its
key: every read says so. -/
theorem read_displaced (hf : OneChecksum filters) (hget : s.objects.get? target = some object)
    (hd : settings.encryption.decoder object.metadata.user = .ok d)
    (hid : d.envelope.masterKeyId = key.keyId) {fault : KeyFault}
    (hfault : key.unwrap d.envelope.wrappedKey = .error fault) :
    Ensures Storage.serve ((make (settings.rotated key) base filters).read target).run s fun r t =>
      t = s ∧ r = .error (.transform (.notUnwrapped fault)) := by
  obtain ⟨hread, haes, -, -⟩ := Encryption.decoder_eq_ok_iff.mp hd
  obtain ⟨hmode, hname, -⟩ := Encryption.canDecode_of_decoder hd
  have hring : (settings.encryption.rotated key).ring.get? d.envelope.masterKeyId = some key :=
    Encryption.get?_rotated_of_eq hid
  -- A key of that name is there, so that the test passes, and what fails is the key.
  have hcan : (settings.encryption.rotated key).canDecode d.envelope.mode object.metadata.user = true := by
    simp [Encryption.canDecode, haes, hname, KeyRing.contains, hring]
  have hrequire : (settings.encryption.rotated key).requireMode object.metadata.user = .ok d.envelope.mode :=
    (Encryption.requireMode_eq_ok_iff ..).mpr ⟨hmode, hcan⟩
  have hunwrap : (settings.encryption.rotated key).unwrap d.envelope =
      .error (.transform (.notUnwrapped fault)) := by
    simp only [Encryption.unwrap, hring, hfault]
  have hdecoder : (settings.encryption.rotated key).decoder object.metadata.user =
      .error (.transform (.notUnwrapped fault)) := by
    simp only [Encryption.decoder, hread, haes, hunwrap, bind, Except.bind, ne_eq, not_true_eq_false, if_false]
  refine .attempt (get_ensures hf (StorageCall.send_ensures ?_))
  rw [Storage.serve_get hget]
  intro stream _
  have hdecrypt : Filter.decrypt (settings.rotated key).encryption
      { Storage.shown object with entity := some stream } = .error (.transform (.notUnwrapped fault)) := by
    simp only [EncryptionSettings.rotated, Filter.decrypt, Storage.shown, hmode, hrequire, hdecoder, bind,
      Except.bind]
  rw [hdecrypt]
  exact ⟨rfl, rfl⟩

/-- What a rotation keeps: the members whose name the new key does not take,
the keys of content that such members unwrap or the new key unwraps to the
same, and what was read of objects under these. An object whose key the new
key of that name does not unwrap is lost. -/
theorem kept_by_rotation (settings : EncryptionSettings) (key : MasterKey) (base : ClientSettings)
    {filters : List Filter} (hf : OneChecksum filters) :
    let before := settings.encryption
    let after := (settings.rotated key).encryption
    (∀ member ∈ before.ring.members, after.ring.get? member.keyId = some member ↔
      (member.keyId = key.keyId → member = key)) ∧
    (∀ m envelope dataKey, Envelope.read m = .ok envelope → before.unwrap envelope = .ok dataKey →
      (after.unwrap envelope = .ok dataKey ↔
        (envelope.masterKeyId = key.keyId → key.unwrap envelope.wrappedKey = .ok dataKey))) ∧
    ∀ (w v : World Storage) target object plain, w.state.Reachable → v.state = w.state →
      w.state.objects.get? target = some object →
      (((make settings base filters).read target).run.run Storage.serve w).1 = .ok plain →
      let again := ((make (settings.rotated key) base filters).read target).run.run Storage.serve v
      ((∀ d, before.decoder object.metadata.user = .ok d → d.envelope.masterKeyId = key.keyId →
        key.unwrap d.envelope.wrappedKey = .ok d.dataKey) → again.1 = .ok plain) ∧
      ∀ d fault, before.decoder object.metadata.user = .ok d → d.envelope.masterKeyId = key.keyId →
        key.unwrap d.envelope.wrappedKey = .error fault →
        again.1 = .error (.transform (.notUnwrapped fault)) := by
  refine ⟨?_, ?_, ?_⟩
  · intro member hmember
    exact KeyRing.get?_rotated_member_iff hmember
  · intro m envelope dataKey _ hunwrap
    exact Encryption.unwrap_rotated_iff hunwrap
  · intro w v target object plain hs hv hget hread
    constructor
    · intro hkey
      exact (read_rotated hf hs hget rfl hread hkey v hv).2
    · intro d fault hd hid hfault
      exact (read_displaced hf hget hd hid hfault v hv).2

theorem exists_threeStored : ∃ (w : World Storage) (object : StoredObject), w.state.Reachable ∧
    w.state.objects.get? threeBytes.target = some object ∧ oneKey.encryption.Opens object [1, 2, 3] := by
  let empty : World Storage := { entropy := Entropy.ofSeed "", state := {} }
  have hput : Ensures Storage.serve ((make oneKey {} Filter.default).put threeBytes) {} _ :=
    put_opened oneChecksum_default (by decide) rfl threeBytes_brings rfl (Integer.lt_of_lt_ten (by decide))
  obtain ⟨object, hget, -, hopens⟩ := hput empty rfl
  exact ⟨_, object, Storage.Reachable.run (w := empty) .empty _, hget, hopens oneKey.encryption rfl⟩

/-- A key of another name leaves three bytes readable that were written. -/
theorem kept_by_rotation_next : ∃ w : World Storage,
    (((make oneKey {} Filter.default).read threeBytes.target).run.run Storage.serve w).1 = .ok [1, 2, 3] ∧
    (((make (oneKey.rotated (.aes ⟨List.replicate 32 8⟩ "next")) {} Filter.default).read
      threeBytes.target).run.run Storage.serve w).1 = .ok [1, 2, 3] := by
  obtain ⟨w, object, hs, hget, hopens⟩ := exists_threeStored
  have hhonest := (hs.consistent.objects _ object hget).honest
  have hread : Ensures Storage.serve ((make oneKey {} Filter.default).read threeBytes.target).run w.state _ :=
    read_opened oneChecksum_default hget hhonest hopens
  have hbefore := (hread w rfl).2
  have hkept := (kept_by_rotation oneKey (.aes ⟨List.replicate 32 8⟩ "next") {} oneChecksum_default).2.2
    w w threeBytes.target object [1, 2, 3] hs rfl hget hbefore
  refine ⟨w, hbefore, hkept.1 ?_⟩
  intro d hd hid
  -- The ring holds no key of the new name, so no object is read under it.
  obtain ⟨-, -, hunwrap, -⟩ := Encryption.decoder_eq_ok_iff.mp hd
  obtain ⟨master, -, hring, -⟩ := Encryption.unwrap_eq_ok_iff.mp hunwrap
  rw [hid] at hring
  cases hring

/-- Of two keys that are called alike a rotated ring holds the new one. The
older one is not found any more, and what it wrapped is not unwrapped. -/
theorem main_displaced :
    (∃ member ∈ oneKey.encryption.ring.members,
      (oneKey.rotated (.aes ⟨List.replicate 32 8⟩ "main")).encryption.ring.get? member.keyId ≠
        some member) ∧
    ¬∀ (settings : EncryptionSettings) (key : MasterKey) m envelope dataKey,
      Envelope.read m = .ok envelope → settings.encryption.unwrap envelope = .ok dataKey →
        (settings.rotated key).encryption.unwrap envelope = .ok dataKey := by
  refine ⟨⟨oneKey.encryption.ring.current, List.mem_cons_self, by decide⟩, ?_⟩
  intro hall
  obtain ⟨w, object, -, -, d, hd, -⟩ := exists_threeStored
  obtain ⟨hread, -, hunwrap, -⟩ := Encryption.decoder_eq_ok_iff.mp hd
  obtain ⟨master, -, hring, -⟩ := Encryption.unwrap_eq_ok_iff.mp hunwrap
  have hid : d.envelope.masterKeyId = "main" := by
    obtain ⟨hmember, hname⟩ := (oneKey.encryption.ring.get?_eq_some_iff _ _).mp hring
    rw [← hname, List.mem_singleton.mp hmember]
    rfl
  -- The new key is too short, so it unwraps nothing.
  have hafter := hall oneKey (.aes ⟨List.replicate 16 8⟩ "main") object.metadata.user _ _ hread hunwrap
  have hnew := (Encryption.unwrap_rotated_iff hunwrap).mp hafter hid
  cases hnew

end EncryptingClient

end SealedStore
