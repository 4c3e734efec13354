import SealedStore.Entropy
import SealedStore.Proofs.Acceptance
import SealedStore.Proofs.Endpoint
/-!
# Alarms of the checksum filter

An ETag contradicts a content if it is the digest of another one. The filter
that compares checksums raises if and only if it sees a contradiction: for a
write when the handler behind has answered, for a read when the content has been
handed out in full. How the content is divided and in what amounts it is read
does not matter to either, and what passes the filter is the content unchanged.
Writes and reads of a range are not compared.

What is proved:
  1. `Filter.mismatch?_eq_some_iff` — the comparison finds contradictions.
  2. `Stream.digest_of_ended` — what a digesting layer knows once all is read.
  3. `Stream.reads_verified` — reads of a content that is compared.
  4. `Filter.raises_iff_contradicted` — writes and reads through the filter.
-/

namespace SealedStore

namespace Filter

/-- An ETag is a digest, and not that of the content. -/
def Contradicts (etag : Option String) (content : Bytes) (expected : String) : Prop :=
  etag = some expected ∧ expected ≠ "" ∧ '-' ∉ expected.toList ∧ expected ≠ Md5.hex content

theorem digestOf?_eq_some_iff {etag : Option String} {expected : String} :
    digestOf? etag = some expected ↔ etag = some expected ∧ expected ≠ "" ∧ '-' ∉ expected.toList := by
  rw [digestOf?, Option.filter_eq_some_iff, isDigest_iff]

theorem mismatch?_eq_some_iff {content : Bytes} {etag : Option String} {e : Error} :
    mismatch? (Md5.hex content) etag = some e ↔
      ∃ expected, Contradicts etag content expected ∧ e = .checksum (Md5.hex content) expected := by
  unfold mismatch? Contradicts
  -- An ETag that is no digest contradicts nothing, and one that is a digest is compared.
  cases hdigest : digestOf? etag with
  | none =>
    have hnone : ∀ expected, ¬(etag = some expected ∧ expected ≠ "" ∧ '-' ∉ expected.toList) := by
      intro expected h
      rw [digestOf?_eq_some_iff.mpr h] at hdigest
      cases hdigest
    constructor
    · intro h
      cases h
    · rintro ⟨expected, ⟨hetag, hfull, hplain, -⟩, -⟩
      exact absurd ⟨hetag, hfull, hplain⟩ (hnone expected)
  | some found =>
    obtain ⟨hetag, hfull, hplain⟩ := digestOf?_eq_some_iff.mp hdigest
    by_cases hsame : Md5.hex content = found
    · simp only [hsame, if_true]
      constructor
      · intro h
        cases h
      · rintro ⟨expected, ⟨hexpected, -, -, hne⟩, -⟩
        exact absurd (Option.some.inj (hexpected.symm.trans hetag)) hne
    · simp only [hsame, if_false, Option.some.injEq]
      constructor
      · intro h
        exact ⟨found, ⟨hetag, hfull, hplain, fun heq => hsame heq.symm⟩, h.symm⟩
      · rintro ⟨expected, ⟨hexpected, -, -, -⟩, rfl⟩
        rw [Option.some.inj (hexpected.symm.trans hetag)]

/-- What comparing a content with the ETag that was reported for it ends with. -/
def verdict (content : Bytes) (etag : Option String) : Except Error Unit :=
  match mismatch? (Md5.hex content) etag with
  | some e => .error e
  | none => .ok ()

theorem verdict_eq_error_iff {content : Bytes} {etag : Option String} {e : Error} :
    verdict content etag = .error e ↔
      ∃ expected, Contradicts etag content expected ∧ e = .checksum (Md5.hex content) expected := by
  rw [← mismatch?_eq_some_iff, verdict]
  cases mismatch? (Md5.hex content) etag with
  | none => simp
  | some found => simp

theorem verdict_of_digest {content : Bytes} {etag : Option String} {expected : String}
    (h : digestOf? etag = some expected) :
    verdict content etag =
      if Md5.hex content = expected then .ok () else .error (.checksum (Md5.hex content) expected) := by
  simp only [verdict, mismatch?, h]
  by_cases hsame : Md5.hex content = expected
  · simp only [hsame, if_true]
  · simp only [hsame, if_false]

theorem isPartialWrite_iff {op : Operation} :
    isPartialWrite op = true ↔ ∃ metadata acl range, op = .put metadata acl (some range) := by
  cases op with
  | put metadata acl range =>
    cases range with
    | none => simp [isPartialWrite]
    | some range => simp [isPartialWrite]
  | _ => simp [isPartialWrite]

end Filter

/-! ## Contents that are digested -/

namespace Stream
variable {s : Stream} {content : Bytes}

theorem holds_digested (h : s.Holds content) : s.digested.Holds content :=
  ⟨h.steady, s.script_digested.trans h.script_eq⟩

/-- Once nothing is left of a content, the reads have returned all of it, and the
layer that digests it has seen all of it. -/
theorem digest_of_ended (h : s.Holds content) (plan : List Amount)
    (hend : ((s.digested.readAll plan).2.read .rest).1 = .ok []) :
    handedOut (s.digested.readAll plan).1 = content ∧ (s.digested.readAll plan).2.digest = Md5.hex content := by
  have hdigested := holds_digested h
  have hnone : (s.digested.readAll plan).2.script = [] := by
    rw [read_rest_eq (readAll_steady hdigested.steady plan)] at hend
    exact Script.eq_ofBytes_of_outcome hend
  constructor
  · have hall := (readAll_content hdigested.steady plan).2 (hdigested.raised_eq plan)
    rwa [hnone, Script.content_nil, List.append_nil, hdigested.script_eq, Script.content_ofBytes] at hall
  · let layer : Layer := { stage := .digest, closesSource := false }
    obtain ⟨l, t, hleft, hstage, hpasses⟩ :=
      readAll_passes (l := layer) h.steady (passes_of_fresh ⟨rfl, rfl, rfl⟩ s) plan
    have hleft : (s.digested.readAll plan).2 = t.layered l := hleft
    rw [hleft] at hnone ⊢
    -- The layer has met the end, or there is nothing left below it.
    have hbelow : t.script = [] := by
      have hlayer : (if l.exhausted then [] else l.stage.script l.seen t.script) = [] :=
        (List.append_eq_nil_iff.mp hnone).2
      by_cases hex : l.exhausted = true
      · exact hpasses.ended hex
      · rwa [if_neg hex, hstage, Stage.script_digest] at hlayer
    have hseen : l.seen = content := by
      have htotal := hpasses.total
      rwa [hbelow, Script.content_nil, List.append_nil, h.script_eq, Script.content_ofBytes] at htotal
    show Md5.hex l.seen = Md5.hex content
    rw [hseen]

/-- Reads of a content that is compared with an ETag: its bytes, and then the
alarm in the place of the end if the ETag is the digest of another. -/
theorem reads_verified (h : s.Holds content) {etag : Option String} {expected : String}
    (hdigest : Filter.digestOf? etag = some expected) {sizes : List Nat} (hsizes : ∀ n ∈ sizes, 0 < n) :
    let results := ((s.layered { stage := .verify expected }).readAll (sizes.map .atMost)).1
    (Within content results ∧ sizes.length ≤ content.length) ∨
      UpTo content (Filter.verdict content etag) results := by
  intro results
  have hsteady : (s.layered { stage := .verify expected }).Steady := h.steady
  have hend : (Stage.verify expected).verdict content = Script.met (Filter.verdict content etag) := by
    rw [Filter.verdict_of_digest hdigest, Stage.verdict, Stage.finish]
    by_cases hsame : Md5.hex content = expected
    · simp only [hsame, if_true]
      rfl
    · simp only [hsame, if_false]
      rfl
  have hscript : (s.layered { stage := .verify expected }).script =
      Script.ofBytes content ++ Script.met (Filter.verdict content etag) := by
    rw [script_layered ⟨rfl, rfl, rfl⟩, h.script_eq, Stage.script_ofBytes, List.nil_append, hend]
    rfl
  have hrun := readAll_follows hsteady (positive_atMost hsizes)
  rw [hscript] at hrun
  exact hrun.of_verdict

theorem Holds.reads (h : s.Holds content) {sizes : List Nat} (hsizes : ∀ n ∈ sizes, 0 < n) :
    (Within content (s.readAll (sizes.map .atMost)).1 ∧ sizes.length ≤ content.length) ∨
      UpTo content (.ok ()) (s.readAll (sizes.map .atMost)).1 := by
  have hrun := readAll_follows h.steady (positive_atMost hsizes)
  have hscript : s.script = Script.ofBytes content ++ Script.met (.ok () : Except Error Unit) :=
    h.script_eq.trans (List.append_nil _).symm
  rw [hscript] at hrun
  exact hrun.of_verdict

end Stream

/-! ## The filter -/

namespace Filter
variable {σ : Type} {serve : Program.Service Endpoint σ} {w : World σ} {r : Request} {response : Response}
  {content : Bytes}

theorem checkDigests_write {stream : Stream} {plan : List Amount} (hwrites : writesContent r.operation = true)
    (hentity : r.entity = some stream) (h : stream.Holds content)
    (hreply : (serve { r with entity := some stream.digested } w.state).1 =
      (.ok response, { r with entity := some (stream.digested.readAll plan).2 }))
    (hend : ((stream.digested.readAll plan).2.read .rest).1 = .ok []) :
    (checkDigests Handler.ask r).calls serve w = [{ r with entity := some stream.digested }] ∧
      ((checkDigests Handler.ask r).run serve w).1.1 =
        if isPartialWrite r.operation then .ok response
        else (verdict content response.etag).map fun _ => response := by
  let sent : Request := { r with entity := some stream.digested }
  have hhandle : checkDigests Handler.ask r = Handler.ask sent >>= fun out => pure (undigesting r stream out) :=
    checkDigests_write_eq Handler.ask hentity hwrites
  have hrun : ((Handler.ask sent >>= fun out => pure (undigesting r stream out)).run serve w).1 =
      undigesting r stream (serve sent w.state).1 := rfl
  have hdigest := (Stream.digest_of_ended h plan hend).2
  rw [hhandle]
  refine ⟨rfl, ?_⟩
  rw [hrun, hreply]
  -- The entity was read to its end, so that the digest of the layer is that of the content.
  simp only [undigesting, Option.getD_some, hdigest, verdict]
  by_cases hpartial : isPartialWrite r.operation = true
  · simp only [hpartial, if_true]
  · simp only [hpartial]
    cases mismatch? (Md5.hex content) response.etag with
    | none => rfl
    | some e => rfl

/-- The content that a read brings as the filter passes it on. -/
theorem checkDigests_read {range : Option ByteRange} {back : Request} {body : Stream}
    (hget : r.operation = .get range) (hreply : (serve r w.state).1 = (.ok response, back))
    (hback : back.operation = r.operation) (hbody : response.entity = some body) (h : body.Holds content) :
    ∃ shown stream, ((checkDigests Handler.ask r).run serve w).1.1 = .ok shown ∧ shown.entity = some stream ∧
      ∀ sizes : List Nat, (∀ n ∈ sizes, 0 < n) →
        let results := (stream.readAll (sizes.map .atMost)).1
        (Within content results ∧ sizes.length ≤ content.length) ∨
          UpTo content (if range.isNone then verdict content response.etag else .ok ()) results := by
  have hreads : writesContent r.operation = false := by rw [hget]; rfl
  have hrun : ((checkDigests Handler.ask r).run serve w).1.1 =
      if range.isNone then .ok (verifyRead response) else .ok response := by
    have hreply : ((Handler.ask r).run serve w).1 = (.ok response, back) := hreply
    rw [checkDigests_eq Handler.ask (.inr hreads), Program.run_bind, Program.run_pure, hreply]
    simp only [hback, hget]
    cases range with
    | none => rfl
    | some range => rfl
  rw [hrun]
  cases range with
  | some range => exact ⟨response, body, rfl, hbody, fun sizes hsizes => h.reads hsizes⟩
  | none =>
    cases hdigest : digestOf? response.etag with
    | none =>
      -- There is no digest to compare the content with.
      have hcalm : verdict content response.etag = .ok () := by
        simp only [verdict, mismatch?, hdigest]
      refine ⟨response, body, ?_, hbody, fun sizes hsizes => ?_⟩
      · simp only [verifyRead, hbody, hdigest]
        rfl
      · rw [if_pos (by rfl), hcalm]
        exact h.reads hsizes
    | some expected =>
      let shown : Response := { response with entity := some (body.layered { stage := .verify expected }) }
      refine ⟨shown, _, ?_, rfl, fun sizes hsizes => ?_⟩
      · simp only [verifyRead, hbody, hdigest]
        rfl
      · rw [if_pos (by rfl)]
        exact Stream.reads_verified h hdigest hsizes

/-- A write whose entity holds a content goes through the filter to a handler
that reads the entity to its end, in any amounts, and answers. The handler gets
the content, and the write fails if and only if it is of a whole object and the
ETag of the answer contradicts the content. A read whose answer brings a content
returns it, and reads of it, in any amounts, get the content, and the alarm in
the place of its end if and only if the read is of a whole object and the ETag
contradicts the content. -/
theorem raises_iff_contradicted (serve : Program.Service Endpoint σ) (w : World σ) (r : Request)
    (content : Bytes) (response : Response) :
    let handle := checkDigests Handler.ask r
    let out := (handle.run serve w).1
    (∀ stream plan, writesContent r.operation = true → r.entity = some stream → stream.Holds content →
      let sent := { r with entity := some stream.digested }
      let left := (stream.digested.readAll plan).2
      (serve sent w.state).1 = (.ok response, { sent with entity := some left }) → (left.read .rest).1 = .ok [] →
      handle.calls serve w = [sent] ∧ handedOut (stream.digested.readAll plan).1 = content ∧
        (∀ e, out.1 = .error e ↔ (¬∃ metadata acl range, r.operation = .put metadata acl (some range)) ∧
          ∃ expected, Contradicts response.etag content expected ∧ e = .checksum (Md5.hex content) expected) ∧
        ((∀ e, out.1 ≠ .error e) → out.1 = .ok response)) ∧
    (∀ range back body, r.operation = .get range → (serve r w.state).1 = (.ok response, back) →
      back.operation = r.operation → response.entity = some body → body.Holds content →
      ∃ (shown : Response) (stream : Stream) (verdict : Except Error Unit),
        out.1 = .ok shown ∧ shown.entity = some stream ∧
        (∀ e, verdict = .error e ↔ range = none ∧
          ∃ expected, Contradicts response.etag content expected ∧ e = .checksum (Md5.hex content) expected) ∧
        ∀ sizes : List Nat, (∀ n ∈ sizes, 0 < n) →
          let results := (stream.readAll (sizes.map .atMost)).1
          (Within content results ∧ sizes.length ≤ content.length) ∨ UpTo content verdict results) := by
  intro handle out
  constructor
  · intro stream plan hwrites hentity h sent left hreply hend
    obtain ⟨hcalls, hout⟩ := checkDigests_write hwrites hentity h hreply hend
    have hout : out.1 = if isPartialWrite r.operation then .ok response
        else (verdict content response.etag).map fun _ => response := hout
    refine ⟨hcalls, (Stream.digest_of_ended h plan hend).1, ?_⟩
    rw [hout, ← isPartialWrite_iff]
    cases isPartialWrite r.operation with
    | true => simp
    | false =>
      simp only [← verdict_eq_error_iff, Bool.false_eq_true, if_false, not_false_eq_true, true_and]
      cases verdict content response.etag with
      | ok => simp [Except.map]
      | error e => simp [Except.map]
  · intro range back body hget hreply hback hbody h
    obtain ⟨shown, stream, hshown, hstream, hreads⟩ := checkDigests_read hget hreply hback hbody h
    refine ⟨shown, stream, _, hshown, hstream, fun e => ?_, hreads⟩
    rw [← verdict_eq_error_iff]
    cases range with
    | none => simp
    | some range => simp

/-- An answer with the ETag of neither content: three bytes that are written are
refused, and two that are read are followed by an alarm. -/
theorem raises_iff_contradicted_zero :
    let response : Response := { etag := some "0", entity := some (Stream.ofBytes [1, 2]) }
    let serve : Program.Service Endpoint Unit := fun sent s => ((.ok response, sent.readOn [.atMost 2, .rest]), s)
    let write : Request :=
      { target := ⟨"bucket", "key"⟩, operation := .put none none none, entity := some (Stream.ofBytes [1, 2, 3]) }
    let read : Request := { target := ⟨"bucket", "key"⟩, operation := .get none }
    ∃ w : World Unit,
      ((checkDigests Handler.ask write).run serve w).1.1 = .error (.checksum (Md5.hex [1, 2, 3]) "0") ∧
      ∃ shown stream, ((checkDigests Handler.ask read).run serve w).1.1 = .ok shown ∧ shown.entity = some stream ∧
        .error (.checksum (Md5.hex [1, 2]) "0") ∈ (stream.readAll [.atMost 1, .atMost 1, .atMost 1]).1 := by
  intro response serve write read
  let w : World Unit := { entropy := Entropy.ofSeed "", state := () }
  have hwritten : Contradicts response.etag [1, 2, 3] "0" := ⟨rfl, by decide, by decide, by decide +kernel⟩
  have hread : Contradicts response.etag [1, 2] "0" := ⟨rfl, by decide, by decide, by decide +kernel⟩
  obtain ⟨hwrite, -⟩ := raises_iff_contradicted serve w write [1, 2, 3] response
  obtain ⟨-, hget⟩ := raises_iff_contradicted serve w read [1, 2] response
  obtain ⟨-, -, hraises, -⟩ := hwrite (Stream.ofBytes [1, 2, 3]) [.atMost 2, .rest] rfl rfl
    (Stream.holds_ofBytes [1, 2, 3]) rfl rfl
  obtain ⟨shown, stream, verdict, hshown, hstream, hverdict, hreads⟩ :=
    hget none read (Stream.ofBytes [1, 2]) rfl rfl rfl rfl (Stream.holds_ofBytes [1, 2])
  refine ⟨w, (hraises _).mpr ⟨?_, "0", hwritten, rfl⟩, shown, stream, hshown, hstream, ?_⟩
  · rintro ⟨metadata, acl, range, hrange⟩
    cases hrange
  · have halarm : verdict = .error (.checksum (Md5.hex [1, 2]) "0") := (hverdict _).mpr ⟨rfl, "0", hread, rfl⟩
    rcases hreads [1, 1, 1] (by decide) with ⟨-, hlen⟩ | ⟨pieces, later, -, -, hresults⟩
    · exact absurd hlen (by decide)
    · have hmem := List.mem_append_right (pieces.map .ok) (List.mem_cons_self (a := verdict.map fun _ => ([] : Bytes))
        (l := List.replicate later (.ok [])))
      rw [← hresults, halarm] at hmem
      exact hmem

end Filter

end SealedStore
