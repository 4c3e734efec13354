import SealedStore.Proofs.Contents
/-!
# What decoding accepts

A decoded stream hands out the decryption of what it received without the last
16 bytes, and its end says whether the whole is accepted. Neither depends on
how the content arrives and how it is read.

What is proved:
  1. `Decoder.check_eq_ok_iff` — which contents are accepted.
  2. `Decoder.check_eq_error_iff` — for what reason another is refused.
  3. `Decoder.reads_of_decode` — what reads of a decoded stream return.
-/

namespace SealedStore

theorem SecretKey.size?_of_length {key : SecretKey} {size : KeySize} (h : key.material.length = size.bytes) :
    key.size? = some size := by
  rw [size?, h, KeySize.ofBytes?_bytes]

theorem KeySize.bytes_of_ofBytes? {n : Int} {size : KeySize} (h : ofBytes? n = some size) : n = size.bytes := by
  have hfound := List.find?_some h
  exact (eq_of_beq hfound).symm

/-- What a cipher makes of a content without its tag. -/
def Gcm.Context.plain (cipher : Gcm.Context) (c : Bytes) : Bytes :=
  cipher.crypt 0 (c.take (c.length - tagSize))

/-- The last 16 bytes of a content are the tag of the others. -/
def Gcm.Context.Authentic (cipher : Gcm.Context) (c : Bytes) : Prop :=
  cipher.tag [] (c.take (c.length - tagSize)) = c.drop (c.length - tagSize)

/-- An encrypted content is accepted: it holds a tag, which is authentic, and
has the size and the digest that were recorded, as far as they were. -/
structure Accepts (cipher : Gcm.Context) (envelope : Envelope) (c : Bytes) : Prop where
  long : tagSize ≤ c.length
  tag : cipher.Authentic c
  size : ∀ n, envelope.size = some n → n = (c.length - tagSize : Nat)
  digest : ∀ d, envelope.sha256 = some d → d = Sha256.hex (cipher.plain c)

/-- The first condition of `Accepts` that fails. -/
inductive Refuses (cipher : Gcm.Context) (envelope : Envelope) (c : Bytes) : TransformFault → Prop
  | truncated (hl : c.length < tagSize) : Refuses cipher envelope c .truncated
  | notAuthentic (hl : tagSize ≤ c.length) (ht : ¬cipher.Authentic c) :
      Refuses cipher envelope c .notAuthentic
  | wrongSize {n : Int} (hl : tagSize ≤ c.length) (ht : cipher.Authentic c)
      (hs : envelope.size = some n) (hn : n ≠ (c.length - tagSize : Nat)) :
      Refuses cipher envelope c (.wrongSize (c.length - tagSize) n)
  | wrongDigest {d : String} (hl : tagSize ≤ c.length) (ht : cipher.Authentic c)
      (hs : ∀ n, envelope.size = some n → n = (c.length - tagSize : Nat))
      (hd : envelope.sha256 = some d) (hne : d ≠ Sha256.hex (cipher.plain c)) :
      Refuses cipher envelope c .wrongDigest

namespace Decoder
variable (d : Decoder) (c : Bytes)

theorem content_eq_plain : d.content c = d.cipher.plain c := rfl

theorem length_content : (d.content c).length = c.length - tagSize := by
  rw [content, Gcm.length_crypt, List.length_take]
  exact Nat.min_eq_left (Nat.sub_le _ _)

theorem checkSize_cases :
    (d.checkSize (d.content c) = .ok () ∧
        ∀ n, d.envelope.size = some n → n = (c.length - tagSize : Nat)) ∨
      ∃ n, d.checkSize (d.content c) = .error (.wrongSize (c.length - tagSize) n) ∧
        d.envelope.size = some n ∧ n ≠ (c.length - tagSize : Nat) := by
  unfold checkSize
  rw [length_content]
  cases hs : d.envelope.size with
  | none => exact .inl ⟨rfl, nofun⟩
  | some n =>
    by_cases hn : n = (c.length - tagSize : Nat)
    · refine .inl ⟨if_pos hn, fun m hm => ?_⟩
      rwa [← Option.some.inj hm]
    · exact .inr ⟨n, if_neg hn, rfl, hn⟩

theorem checkDigest_cases :
    (d.checkDigest (d.content c) = .ok () ∧
        ∀ digest, d.envelope.sha256 = some digest → digest = Sha256.hex (d.cipher.plain c)) ∨
      ∃ digest, d.checkDigest (d.content c) = .error .wrongDigest ∧
        d.envelope.sha256 = some digest ∧ digest ≠ Sha256.hex (d.cipher.plain c) := by
  unfold checkDigest
  rw [content_eq_plain]
  cases hd : d.envelope.sha256 with
  | none => exact .inl ⟨rfl, nofun⟩
  | some digest =>
    by_cases hne : digest = Sha256.hex (d.cipher.plain c)
    · refine .inl ⟨if_pos hne, fun other ho => ?_⟩
      rwa [← Option.some.inj ho]
    · exact .inr ⟨digest, if_neg hne, rfl, hne⟩

/-- A content is accepted, or refused for the first condition that fails. -/
theorem check_cases :
    (d.check c = .ok () ∧ Accepts d.cipher d.envelope c) ∨
      ∃ fault, d.check c = .error fault ∧ Refuses d.cipher d.envelope c fault := by
  unfold check
  -- One case for each check, in the order in which they are made.
  by_cases hl : c.length < tagSize
  · exact .inr ⟨_, if_pos hl, .truncated hl⟩
  rw [if_neg hl]
  have hl : tagSize ≤ c.length := Nat.le_of_not_lt hl
  by_cases ht : d.cipher.Authentic c
  · rw [if_neg (fun hne => hne ht)]
    rcases d.checkSize_cases c with ⟨hsize, hs⟩ | ⟨n, hsize, hs, hn⟩
    · rcases d.checkDigest_cases c with ⟨hdigest, hd⟩ | ⟨digest, hdigest, hd, hne⟩
      · rw [hsize, hdigest]
        exact .inl ⟨rfl, hl, ht, hs, hd⟩
      · rw [hsize, hdigest]
        exact .inr ⟨_, rfl, .wrongDigest hl ht hs hd hne⟩
    · rw [hsize]
      exact .inr ⟨_, rfl, .wrongSize hl ht hs hn⟩
  · exact .inr ⟨_, if_pos ht, .notAuthentic hl ht⟩

end Decoder

/-! ## Accepting and refusing -/

section
variable {cipher : Gcm.Context} {envelope : Envelope} {c : Bytes} {fault other : TransformFault}

theorem Accepts.not_refuses (h : Accepts cipher envelope c) : ¬Refuses cipher envelope c fault := by
  intro hr
  cases hr with
  | truncated hl => exact absurd h.long (Nat.not_le_of_lt hl)
  | notAuthentic _ ht => exact ht h.tag
  | wrongSize _ _ hs hn => exact hn (h.size _ hs)
  | wrongDigest _ _ _ hd hne => exact hne (h.digest _ hd)

theorem Refuses.unique (h : Refuses cipher envelope c fault) (h' : Refuses cipher envelope c other) :
    fault = other := by
  cases h with
  | truncated hl =>
    cases h' with
    | truncated => rfl
    | notAuthentic hl' | wrongSize hl' | wrongDigest hl' => exact absurd hl' (Nat.not_le_of_lt hl)
  | notAuthentic hl ht =>
    cases h' with
    | truncated hl' => exact absurd hl (Nat.not_le_of_lt hl')
    | notAuthentic => rfl
    | wrongSize _ ht' | wrongDigest _ ht' => exact absurd ht' ht
  | wrongSize hl ht hs hn =>
    cases h' with
    | truncated hl' => exact absurd hl (Nat.not_le_of_lt hl')
    | notAuthentic _ ht' => exact absurd ht ht'
    | wrongSize _ _ hs' => rw [Option.some.inj (hs.symm.trans hs')]
    | wrongDigest _ _ hs' => exact absurd (hs' _ hs) hn
  | wrongDigest hl ht hs =>
    cases h' with
    | truncated hl' => exact absurd hl (Nat.not_le_of_lt hl')
    | notAuthentic _ ht' => exact absurd ht ht'
    | wrongSize _ _ hs' hn' => exact absurd (hs _ hs') hn'
    | wrongDigest => rfl

end

namespace Decoder
variable (d : Decoder) (c : Bytes)

theorem check_eq_ok_iff : d.check c = .ok () ↔ Accepts d.cipher d.envelope c := by
  rcases d.check_cases c with ⟨hc, h⟩ | ⟨fault, hc, h⟩
  · exact ⟨fun _ => h, fun _ => hc⟩
  · refine ⟨fun ho => ?_, fun ha => absurd h ha.not_refuses⟩
    rw [hc] at ho
    cases ho

theorem check_eq_error_iff (fault : TransformFault) :
    d.check c = .error fault ↔ Refuses d.cipher d.envelope c fault := by
  rcases d.check_cases c with ⟨hc, h⟩ | ⟨found, hc, h⟩
  · refine ⟨fun he => ?_, fun hr => absurd hr h.not_refuses⟩
    rw [hc] at he
    cases he
  · refine ⟨fun he => ?_, fun hr => ?_⟩
    · rw [hc] at he
      cases he
      exact h
    · rw [hc, h.unique hr]

end Decoder

/-! ## Reads up to a verdict -/

/-- Results of reads that have not met the end of a content. -/
def Within (content : Bytes) (results : List (Except Error Bytes)) : Prop :=
  ∃ (pieces : List Bytes) (left : Bytes),
    results = pieces.map .ok ∧ [] ∉ pieces ∧ pieces.flatten ++ left = content

/-- Results of reads that have met the end: the content in pieces, the verdict
once, and nothing more. -/
def UpTo (content : Bytes) (verdict : Except Error Unit) (results : List (Except Error Bytes)) : Prop :=
  ∃ (pieces : List Bytes) (later : Nat), [] ∉ pieces ∧ pieces.flatten = content ∧
    results = pieces.map .ok ++ verdict.map (fun _ => []) :: List.replicate later (.ok [])

section
variable {content piece : Bytes} {verdict : Except Error Unit} {results : List (Except Error Bytes)}

theorem Within.cons (hp : piece ≠ []) (h : Within content results) :
    Within (piece ++ content) (.ok piece :: results) := by
  obtain ⟨pieces, left, rfl, hne, rfl⟩ := h
  refine ⟨piece :: pieces, left, rfl, fun hm => ?_, List.append_assoc ..⟩
  rcases List.mem_cons.mp hm with he | he
  · exact hp he.symm
  · exact hne he

theorem UpTo.cons (hp : piece ≠ []) (h : UpTo content verdict results) :
    UpTo (piece ++ content) verdict (.ok piece :: results) := by
  obtain ⟨pieces, later, hne, rfl, rfl⟩ := h
  refine ⟨piece :: pieces, later, fun hm => ?_, rfl, rfl⟩
  rcases List.mem_cons.mp hm with he | he
  · exact hp he.symm
  · exact hne he

end

namespace Script

theorem Run.of_nil {sizes : List Nat} {rs : List (Except Error Bytes)} {t : Script}
    (h : Run (sizes.map .atMost) [] rs t) : rs = List.replicate sizes.length (.ok []) := by
  induction sizes generalizing rs with
  | nil =>
    cases h
    rfl
  | cons n sizes ih =>
    cases h with
    | cons hr ht =>
      -- The rules are told apart by the script, which has to be a variable for that.
      generalize hs : ([] : Script) = s at hr
      cases hr with
      | ended => exact congrArg (.ok [] :: ·) (ih ht)
      | piece hb => exact absurd (ofBytes_eq_nil.mp (List.append_eq_nil_iff.mp hs.symm).1) hb
      | fault => cases hs

theorem split_verdict {b c : Bytes} {rest : Script} {verdict : Except Error Unit}
    (h : ofBytes b ++ rest = ofBytes c ++ met verdict) :
    ∃ c', c = b ++ c' ∧ rest = ofBytes c' ++ met verdict := by
  induction b generalizing c with
  | nil => exact ⟨c, rfl, h⟩
  | cons x b ih =>
    cases c with
    | nil => cases verdict <;> cases h
    | cons y c =>
      obtain ⟨hx, hrest⟩ := List.cons.inj h
      obtain ⟨c', rfl, hc'⟩ := ih hrest
      exact ⟨c', by rw [Except.ok.inj hx]; rfl, hc'⟩

/-- Reads of a content that ends in a verdict cut it, and the read after its
last byte returns the verdict. -/
theorem Run.of_verdict {sizes : List Nat} {c : Bytes} {verdict : Except Error Unit}
    {rs : List (Except Error Bytes)} {t : Script}
    (h : Run (sizes.map .atMost) (ofBytes c ++ met verdict) rs t) :
    (Within c rs ∧ sizes.length ≤ c.length) ∨ UpTo c verdict rs := by
  -- Every read before the end takes at least a byte, which bounds their number.
  induction sizes generalizing c rs with
  | nil =>
    cases h
    exact .inl ⟨⟨[], c, rfl, nofun, rfl⟩, Nat.zero_le _⟩
  | cons n sizes ih =>
    cases h with
    | cons hr ht =>
      generalize hs : ofBytes c ++ met verdict = s at hr
      cases hr with
      | ended =>
        obtain ⟨hc, hv⟩ := List.append_eq_nil_iff.mp hs
        obtain rfl := ofBytes_eq_nil.mp hc
        cases verdict with
        | error e => cases hv
        | ok => exact .inr ⟨[], sizes.length, nofun, rfl, by rw [ht.of_nil]; rfl⟩
      | piece hb =>
        -- The verdict holds no bytes, so that a piece is one of the content.
        obtain ⟨c', rfl, rfl⟩ := split_verdict hs.symm
        have hpos := List.length_pos_iff.mpr hb
        rcases ih ht with ⟨hin, hlen⟩ | hup
        · refine .inl ⟨hin.cons hb, ?_⟩
          rw [List.length_cons, List.length_append]
          omega
        · exact .inr (hup.cons hb)
      | fault =>
        cases c with
        | cons x c => cases hs
        | nil =>
          cases verdict with
          | ok => cases hs
          | error e =>
            cases hs
            exact .inr ⟨[], sizes.length, nofun, rfl, by rw [ht.of_nil]; rfl⟩

end Script

/-! ## Decoded streams -/

namespace Decoder
variable {d : Decoder} {c : Bytes} {chunks : List Chunk} {sizes : List Nat}

theorem decryptor_eq {size : KeySize} (hkey : d.dataKey.material.length = size.bytes)
    (hiv : d.envelope.iv.length = nonceSize) :
    Gcm.decryptor d.dataKey d.envelope.iv = .ok d.cipher := by
  unfold Gcm.decryptor
  rw [SecretKey.size?_of_length hkey]
  exact if_neg fun hne => hne hiv

theorem script_decoded (d : Decoder) {s : Stream} (hs : s.Holds c) :
    (s.layered { stage := .decode d }).script =
      Script.ofBytes (d.content c) ++ Script.met ((d.check c).mapError .transform) := by
  have hupdate : (Stage.decode d).update [] c = d.content c := d.release_nil_left c
  have hverdict : (Stage.decode d).verdict c = Script.met ((d.check c).mapError .transform) := by
    simp only [Stage.verdict, Stage.finish]
    cases d.check c <;> rfl
  rw [Stream.script_layered ⟨rfl, rfl, rfl⟩, hs.script_eq, Stage.script_ofBytes, hupdate,
    List.nil_append, hverdict]

theorem holds_content {s : Stream} (hs : s.Holds c) (hc : d.check c = .ok ()) :
    (s.layered { stage := .decode d }).Holds (d.content c) := by
  refine ⟨hs.steady, ?_⟩
  rw [d.script_decoded hs, hc]
  exact List.append_nil _

/-- Reads of a decoded stream return the decryption of the content without its
last 16 bytes, and the read that meets the end accepts or refuses the whole. -/
theorem reads_of_decode {size : KeySize} (hkey : d.dataKey.material.length = size.bytes)
    (hiv : d.envelope.iv.length = nonceSize) (hd : Chunk.Divides chunks c) (hpos : ∀ n ∈ sizes, 0 < n) :
    ∃ cipher, Gcm.decryptor d.dataKey d.envelope.iv = .ok cipher ∧
      let results :=
        (((Stream.ofSource { chunks }).layered { stage := .decode d }).readAll (sizes.map .atMost)).1
      (Within (cipher.plain c) results ∧ sizes.length ≤ c.length - tagSize) ∨
        ∃ verdict : Except TransformFault Unit,
          UpTo (cipher.plain c) (verdict.mapError .transform) results ∧
            (verdict = .ok () ↔ Accepts cipher d.envelope c) ∧
            (∀ fault, verdict = .error fault ↔ Refuses cipher d.envelope c fault) ∧
            ∀ n, d.envelope.size = some n → (c.length : Int) ≠ n + tagSize → verdict ≠ .ok () := by
  refine ⟨d.cipher, decryptor_eq hkey hiv, ?_⟩
  intro results
  have hs : (Stream.ofSource { chunks }).Holds c := Stream.holds_ofSource hd
  have hsteady : ((Stream.ofSource { chunks }).layered { stage := .decode d }).Steady := hs.steady
  have hplan : ∀ a ∈ sizes.map Amount.atMost, a.Positive := by
    intro a ha
    obtain ⟨n, hn, rfl⟩ := List.mem_map.mp ha
    exact hpos n hn
  have hrun := Stream.readAll_follows hsteady hplan
  rw [d.script_decoded hs] at hrun
  rcases hrun.of_verdict with ⟨hin, hlen⟩ | hup
  · rw [length_content] at hlen
    exact .inl ⟨hin, hlen⟩
  · refine .inr ⟨d.check c, hup, d.check_eq_ok_iff c, d.check_eq_error_iff c, ?_⟩
    intro n hn hlen hok
    have hacc := (d.check_eq_ok_iff c).mp hok
    have hlong := hacc.long
    have hsize := hacc.size n hn
    omega

/-- Three bytes in two chunks are refused by the first read, since they hold no
tag. -/
theorem reads_of_decode_three :
    let envelope : Envelope :=
      { mode := Envelope.aesGcm, wrappedKey := [], masterKeyId := "", iv := List.replicate 12 0 }
    let d : Decoder := { dataKey := ⟨List.replicate 16 0⟩, envelope }
    let s := Stream.ofSource { chunks := [.data [1, 2], .data [3]] }
    ∃ later, ((s.layered { stage := .decode d }).readAll [.atMost 4, .atMost 1]).1 =
      .error (.transform .truncated) :: List.replicate later (.ok []) := by
  intro envelope d s
  have hkey : d.dataKey.material.length = KeySize.bits128.bytes := rfl
  have hiv : d.envelope.iv.length = nonceSize := rfl
  have hd : Chunk.Divides [.data [1, 2], .data [3]] [1, 2, 3] := ⟨[[1, 2], [3]], rfl, by decide, rfl⟩
  have hpos : ∀ n ∈ [4, 1], 0 < n := by decide
  obtain ⟨cipher, -, ⟨-, hlen⟩ | ⟨verdict, hup, -, hrefuses, -⟩⟩ := reads_of_decode hkey hiv hd hpos
  · exact absurd hlen (by decide)
  · obtain ⟨pieces, later, hne, hplain, hresults⟩ := hup
    have hverdict : verdict = .error .truncated := (hrefuses _).mpr (.truncated (by decide))
    have hpieces : pieces = [] := by
      cases pieces with
      | nil => rfl
      | cons b rest =>
        have hb : b = [] := (List.append_eq_nil_iff.mp hplain).1
        exact absurd (hb ▸ List.mem_cons_self) hne
    subst hverdict hpieces
    exact ⟨later, hresults⟩

end Decoder

end SealedStore
