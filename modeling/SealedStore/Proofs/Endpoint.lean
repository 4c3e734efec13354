import SealedStore.Filter
import SealedStore.Proofs.Amounts
import SealedStore.Proofs.Calls
import SealedStore.Proofs.Sealing
/-!
# Endpoints

What stands behind the filters of a chain, as a party of its own: it is called
with a request, may read the entity as far as it likes, and answers. The calls
of a chain are then the requests that its endpoint gets to see; a chain that
makes none has answered by itself.

A filter that replaces the entity is described in three parts: how it comes to
the request that it passes on, what the handler behind it does with that, and
what it makes of the outcome.

What is proved:
  1. `Filter.encrypt_ensures_next` — encrypting, in front of any handler.
  2. `Filter.checkDigests_write_eq`, `Filter.checkDigests_eq` — comparing what is
     written and what comes back, in front of any handler.
-/

namespace SealedStore

open Program (Ensures)

/-- A party that is called with requests. It gives them back with its answer. -/
def Endpoint : Interface where
  Call := Request
  Reply _ := Except Error Response × Request

namespace Request

/-- The request once its entity has been read. -/
def readOn (r : Request) (plan : List Amount) : Request :=
  { r with entity := r.entity.map fun s => (s.readAll plan).2 }

/-- What reads of the entity return. -/
def reads (r : Request) (plan : List Amount) : List (Except Error Bytes) :=
  (r.entity.map fun s => (s.readAll plan).1).getD []

end Request

/-- An endpoint that does nothing to a request but read its entity, in amounts
that it chooses with the request at hand. -/
def OnlyReads {σ : Type} (serve : Program.Service Endpoint σ) (plan : Request → σ → List Amount) : Prop :=
  ∀ sent s, (serve sent s).1.2 = sent.readOn (plan sent s)

namespace Handler

def ask : Handler Endpoint := fun request => .call request .done

theorem ask_ensures {σ : Type} {serve : Program.Service Endpoint σ} {s : σ} {r : Request}
    {Q : Except Error Response × Request → σ → Prop} (h : Q (serve r s).1 (serve r s).2) :
    Ensures serve (ask r) s Q := .call (.done h)

end Handler

section
variable {I : Interface} {σ : Type} {serve : Program.Service I σ} {s : σ} {e : Encryption}

/-! ## Filters that replace the entity -/

def Stream.encrypted (s : Stream) (encoder : Encoder) : Stream :=
  s.layered { stage := .encode encoder, closesSource := false }

def Stream.digested (s : Stream) : Stream := s.layered { stage := .digest, closesSource := false }

theorem Stream.script_encrypted (s : Stream) (encoder : Encoder) :
    (s.encrypted encoder).script.content = encoder.output s.script.content := by
  have hscript : (s.encrypted encoder).script = (Stage.encode encoder).script [] s.script :=
    script_layered ⟨rfl, rfl, rfl⟩ s
  have hverdict : (Stage.encode encoder).verdict s.script.content =
      Script.ofBytes (encoder.tag s.script.content) := rfl
  rw [hscript, Stage.content_script, List.nil_append, hverdict, Script.content_ofBytes]
  rfl

theorem Stream.script_digested (s : Stream) : s.digested.script = s.script :=
  (script_layered ⟨rfl, rfl, rfl⟩ s).trans (Stage.script_digest [] _)

namespace Filter
variable {r : Request} {next : Handler I} {Q : Except Error Response × Request → σ → Prop}

/-- The request that is passed on with an encrypted entity. -/
def sealing (r : Request) (encrypted : Stream) : Request :=
  { r with entity := some encrypted, contentLength := r.contentLength.map Encryption.encodedLength }

/-- What becomes of the outcome when the entity of `r` was passed on encrypted:
`r` gets its entity back as far as it was read, and its length, and the envelope
is added if there is one. -/
def unsealing (r : Request) (encrypted : Stream) : Except Error Response × Request → Except Error Response × Request
  | (result, back) =>
    let read := back.entity.getD encrypted
    let restored := { back with entity := some read.below, contentLength := r.contentLength }
    match result with
    | .error e => (.error e, restored)
    | .ok response =>
      match read.envelope with
      | .error e => (.error e, restored)
      | .ok envelope =>
        let entries := envelope.toUserMetadata
        (.ok { response with encoded := some entries }, { restored with
          properties := { restored.properties with
            userMetadata := restored.properties.userMetadata.map (·.merge entries) } })

/-- What becomes of the outcome when the entity of `r` was passed on digested. -/
def undigesting (r : Request) (content : Stream) : Except Error Response × Request → Except Error Response × Request
  | (result, back) =>
    let read := back.entity.getD content
    let restored := { back with entity := some read.below }
    match result with
    | .error e => (.error e, restored)
    | .ok response =>
      if isPartialWrite r.operation then (.ok response, restored)
      else match mismatch? read.digest response.etag with
        | some e => (.error e, restored)
        | none => (.ok response, restored)

theorem undigesting_snd (r : Request) (content : Stream) (out : Except Error Response × Request) :
    (undigesting r content out).2 = { out.2 with entity := some (out.2.entity.getD content).below } := by
  obtain ⟨result, back⟩ := out
  cases result with
  | error e => rfl
  | ok response =>
    simp only [undigesting]
    split
    · rfl
    · split <;> rfl

theorem undigesting_error {content : Stream} {out : Except Error Response × Request} {fault : Error}
    (h : out.1 = .error fault) : (undigesting r content out).1 = .error fault := by
  obtain ⟨result, back⟩ := out
  obtain rfl : result = .error fault := h
  rfl

theorem undigesting_ok {content : Stream} {out : Except Error Response × Request} {response : Response}
    (h : (undigesting r content out).1 = .ok response) : out.1 = .ok response := by
  obtain ⟨result, back⟩ := out
  cases result with
  | error fault => cases h
  | ok answer =>
    simp only [undigesting] at h
    split at h
    · exact h
    · split at h
      · cases h
      · exact h

theorem encrypt_ensures_next {content : Stream} (hentity : r.entity = some content)
    (h : Ensures serve e.newEncoder.run s fun made t =>
      match made with
      | .error fault => Q (.error fault, r) t
      | .ok encoder =>
        Ensures serve (next (sealing r (content.encrypted encoder))) t fun out u =>
          Q (unsealing r (content.encrypted encoder) out) u) :
    Ensures serve (encrypt e next r) s Q := by
  unfold encrypt
  rw [hentity]
  refine .bind (.map (h.mono fun made t hmade => ?_))
  cases made with
  | error fault => exact .done hmade
  | ok encoder =>
    refine .bind (hmade.mono fun out u hout => ?_)
    obtain ⟨result, back⟩ := out
    cases result with
    | error fault => exact .done hout
    | ok response =>
      simp only [unsealing] at hout
      show Ensures serve (match (back.entity.getD (content.encrypted encoder)).envelope with
        | .error _ => _
        | .ok _ => _) u Q
      -- Without an envelope the filter fails, whatever it was answered.
      cases henvelope : (back.entity.getD (content.encrypted encoder)).envelope with
      | error fault =>
        simp only [henvelope] at hout
        exact .done hout
      | ok envelope =>
        simp only [henvelope] at hout
        exact .log (.done hout)

theorem checkDigests_write_eq (next : Handler I) {content : Stream} (hentity : r.entity = some content)
    (hwrites : writesContent r.operation = true) :
    checkDigests next r = next { r with entity := some content.digested } >>= fun out =>
      pure (undigesting r content out) := by
  have hverify : checkDigests next r = verifyWrite next content r := by
    simp only [checkDigests, hentity, hwrites]
  rw [hverify]
  refine bind_congr fun out => ?_
  obtain ⟨result, back⟩ := out
  cases result with
  | error fault => rfl
  | ok response =>
    simp only [undigesting]
    split
    · rfl
    · cases mismatch? (back.entity.getD content).digest response.etag with
      | some fault => rfl
      | none => rfl

theorem checkDigests_eq (next : Handler I) (h : r.entity = none ∨ writesContent r.operation = false) :
    checkDigests next r = next r >>= fun out =>
      pure (if readsInFull out.2.operation then (out.1.map verifyRead, out.2) else out) := by
  have hpass : checkDigests next r = next r >>= fun out =>
      if readsInFull out.2.operation then pure (out.1.map verifyRead, out.2) else pure (out.1, out.2) := by
    unfold checkDigests
    cases hentity : r.entity with
    | none => rfl
    | some content =>
      rcases h with hnone | hreads
      · cases hentity.symm.trans hnone
      · rw [hreads]
  rw [hpass]
  refine bind_congr fun out => ?_
  split
  · rfl
  · rfl

end Filter

end

end SealedStore
