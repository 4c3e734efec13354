import SealedStore.Entropy
import SealedStore.Proofs.Sealing
import SealedStore.Storage.Basic
/-!
# Encoding and decoding

What is encoded and then decoded by a ring that holds the master key is the
content again. Neither how the content arrives, nor how it is read, shows in
its encrypted form or in its envelope.

What is proved:
  1. `Encryption.decode_encode` — decoding undoes encoding.
-/

namespace SealedStore.Encryption
variable {I : Interface} {σ : Type}

theorem encode_run (e : Encryption) (hk : e.ring.current.Dependable) (serve : Program.Service I σ)
    (w : World σ) :
    ∃ encoder w', e.Sound encoder ∧ ∀ source, (e.encode source).run.run serve w =
      (.ok (source.layered { stage := .encode encoder, closesSource := false }), w') := by
  have hnew : Program.Ensures serve e.newEncoder.run w.state _ := newEncoder_ensures hk
  obtain ⟨encoder, hrun, hsound, -⟩ := hnew w rfl
  refine ⟨encoder, (e.newEncoder.run.run serve w).2, hsound, fun source => ?_⟩
  show ((e.newEncoder >>= fun encoder =>
    pure (source.layered { stage := .encode encoder, closesSource := false })).run).run serve w = _
  rw [ExceptT.run_bind, Program.run_bind, hrun]
  rfl

/-- Decoding undoes encoding, however the content and its encrypted form are
divided and read. The length of the content has to be one that can be read
from an envelope. -/
theorem decode_encode (serve : Program.Service I σ) (w : World σ) (e : Encryption)
    (hk : e.ring.current.Dependable) {plaintext : Bytes}
    (hlen : plaintext.length < 10 ^ Integer.maxDigits) :
    ∃ (envelope : Envelope) (ciphertext : Bytes) (w' : World σ),
      (ciphertext.length : Int) = encodedLength plaintext.length ∧
      envelope.size = some (plaintext.length : Int) ∧
      envelope.sha256 = some (Sha256.hex plaintext) ∧
      envelope.masterKeyId = e.ring.current.keyId ∧
      (∀ chunks, Chunk.Divides chunks plaintext →
        ∃ stream, (e.encode (.ofSource { chunks })).run.run serve w = (.ok stream, w') ∧
          stream.Serves ciphertext ∧
          ∀ plan : List Amount, (∀ a ∈ plan, a.Positive) →
            ∃ pieces : List Bytes, (stream.readAll plan).1 = pieces.map .ok ∧
              let after := (stream.readAll plan).2
              (after.exhausted = true ↔ plaintext.length < pieces.flatten.length) ∧
              after.envelope =
                if after.exhausted then .ok envelope else .error (.transform .notDrained)) ∧
      ∀ reader : Encryption, reader.ring.get? envelope.masterKeyId = some e.ring.current →
        ∀ chunks, Chunk.Divides chunks ciphertext →
          ∃ decoded, reader.decode (.ofSource { chunks }) envelope.toUserMetadata = .ok decoded ∧
            decoded.Serves plaintext := by
  obtain ⟨encoder, w', hsound, hrun⟩ := encode_run e hk serve w
  refine ⟨encoder.envelope plaintext, encoder.output plaintext, w', ?_, rfl, rfl, hsound.masterKeyId, ?_, ?_⟩
  · rw [encoder.length_output, encodedLength, Int.natCast_add]
  · intro chunks hd
    have hs := Stream.holds_ofSource hd
    have hfresh : Stream.Fresh { stage := .encode encoder, closesSource := false } := ⟨rfl, rfl, rfl⟩
    have houtput := encoder.holds_output hs hfresh rfl
    refine ⟨_, hrun _, houtput.serves, fun plan hplan => ?_⟩
    obtain ⟨pieces, left, hresults, hleft, hcut⟩ := houtput.cut hplan
    refine ⟨pieces, hresults, ?_⟩
    obtain ⟨-, hexhausted, henvelope⟩ :=
      Stream.envelope_of_reaches hfresh rfl hs (Stream.readAll_reaches _ hplan)
    refine ⟨hexhausted.trans ?_, henvelope⟩
    -- What was handed out and what is left make up the content and its tag.
    have hsum : pieces.flatten.length + left.length = plaintext.length + tagSize := by
      rw [← encoder.length_output, ← hcut.flatten_append, List.length_append]
    rw [hleft.script_eq, Script.content_ofBytes]
    omega
  · intro reader hreader chunks hd
    have hkey : (encoder.envelope plaintext).masterKeyId = e.ring.current.keyId := hsound.masterKeyId
    rw [hkey] at hreader
    have hseals := seals_of_sound hsound hreader hlen
    obtain ⟨decoded, hdecode, hholds⟩ :=
      decode_of_seals hseals (Envelope.carries_toUserMetadata _) (Stream.holds_ofSource hd)
    exact ⟨decoded, hdecode, hholds.serves⟩

/-- Three bytes go out as nineteen and come back. -/
theorem decode_encode_three :
    let e : Encryption := { ring := KeyRing.make (.aes ⟨List.replicate 32 7⟩ "main") [] }
    ∃ (envelope : Envelope) (ciphertext : Bytes),
      ciphertext.length = 19 ∧ envelope.size = some 3 ∧
      ∀ chunks, Chunk.Divides chunks ciphertext →
        ∃ decoded, e.decode (.ofSource { chunks }) envelope.toUserMetadata = .ok decoded ∧
          decoded.Serves [1, 2, 3] := by
  intro e
  have hk : e.ring.current.Dependable := rfl
  have hlen : ([1, 2, 3] : Bytes).length < 10 ^ Integer.maxDigits := Integer.lt_of_lt_ten (by decide)
  let w : World Storage := { entropy := Entropy.ofSeed "", state := {} }
  obtain ⟨envelope, ciphertext, w', hlength, hsize, -, hid, -, hback⟩ :=
    decode_encode Storage.serve w e hk hlen
  refine ⟨envelope, ciphertext, ?_, hsize, hback e ?_⟩
  · exact Int.ofNat.inj hlength
  · rw [hid]
    exact e.ring.get?_current

end SealedStore.Encryption
