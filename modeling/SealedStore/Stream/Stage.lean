import SealedStore.Envelope
import SealedStore.Hash.Md5
/-!
# Stages

What one layer of a stream does to the bytes that pass through it, as a
function of all bytes that have passed so far. A stage emits bytes as content
arrives and once more at the end, where it may refuse the whole content.

An encoding stage emits the encrypted content and, at the end, its tag. A
decoding stage holds back the last 16 bytes it has seen, since they may be the
tag, and at the end checks length, tag, size and digest in this order.

What is proved:
  1. `update_eq_nil` — a stage is silent on new bytes only while it decodes
     and has seen no more than a tag.
-/

namespace SealedStore

/-- What encrypts one content. -/
structure Encoder where
  mode : String
  wrappedKey : Bytes
  masterKeyId : String
  iv : Bytes
  dataKey : SecretKey
  deriving DecidableEq

/-- What decrypts one content. -/
structure Decoder where
  dataKey : SecretKey
  envelope : Envelope
  deriving DecidableEq

namespace Encoder

def cipher (e : Encoder) : Gcm.Context := Gcm.context e.dataKey.material e.iv

def encrypt (e : Encoder) (start : Nat) (piece : Bytes) : Bytes := e.cipher.crypt start piece

def tag (e : Encoder) (content : Bytes) : Bytes := e.cipher.tag [] (e.encrypt 0 content)

def envelope (e : Encoder) (content : Bytes) : Envelope where
  mode := e.mode
  wrappedKey := e.wrappedKey
  masterKeyId := e.masterKeyId
  iv := e.iv
  size := some content.length
  sha256 := some (Sha256.hex content)

end Encoder

namespace Decoder

def cipher (d : Decoder) : Gcm.Context := Gcm.context d.dataKey.material d.envelope.iv

/-- How much of what was received is content for certain. -/
def released (received : Bytes) : Nat := received.length - tagSize

def release (d : Decoder) (received piece : Bytes) : Bytes :=
  let start := released received
  let all := received ++ piece
  d.cipher.crypt start ((all.drop start).take (released all - start))

def content (d : Decoder) (received : Bytes) : Bytes :=
  d.cipher.crypt 0 (received.take (released received))

def checkSize (d : Decoder) (content : Bytes) : Except TransformFault Unit :=
  match d.envelope.size with
  | none => .ok ()
  | some n => if n = content.length then .ok () else .error (.wrongSize content.length n)

def checkDigest (d : Decoder) (content : Bytes) : Except TransformFault Unit :=
  match d.envelope.sha256 with
  | none => .ok ()
  | some digest => if digest = Sha256.hex content then .ok () else .error .wrongDigest

def check (d : Decoder) (received : Bytes) : Except TransformFault Unit :=
  let size := released received
  if received.length < tagSize then .error .truncated
  -- The tag stands behind the last byte that is released.
  else if d.cipher.tag [] (received.take size) ≠ received.drop size then .error .notAuthentic
  else do
    d.checkSize (d.content received)
    d.checkDigest (d.content received)

end Decoder

/-- What a layer does. -/
inductive Stage where
  | plain
  | digest
  | verify (etag : String)
  | encode (encoder : Encoder)
  | decode (decoder : Decoder)
  deriving DecidableEq

namespace Stage

/-- What is emitted when `piece` arrives after `seen`. -/
def update (s : Stage) (seen piece : Bytes) : Bytes :=
  match s with
  | .plain | .digest | .verify _ => piece
  | .encode e => e.encrypt seen.length piece
  | .decode d => d.release seen piece

/-- What is emitted at the end, or why the content is refused. -/
def finish (s : Stage) (seen : Bytes) : Except Error Bytes :=
  match s with
  | .plain | .digest => .ok []
  | .verify etag => if Md5.hex seen = etag then .ok [] else .error (.checksum (Md5.hex seen) etag)
  | .encode e => .ok (e.tag seen)
  | .decode d => (d.check seen).map (fun _ => []) |>.mapError .transform

/-- The most bytes a stage adds or holds back. -/
def slack : Stage → Nat
  | .plain | .digest | .verify _ => 0
  | .encode _ | .decode _ => tagSize

theorem length_update (s : Stage) (seen piece : Bytes) :
    (s.update seen piece).length =
      match s with
      | .decode _ => Decoder.released (seen ++ piece) - Decoder.released seen
      | _ => piece.length := by
  cases s with
  | plain | digest | verify => rfl
  | encode e => exact Gcm.length_crypt _ _ _
  | decode d =>
    simp only [update, Decoder.release, Gcm.length_crypt, List.length_take, List.length_drop,
      Decoder.released, List.length_append]
    omega

theorem update_eq_nil {s : Stage} {seen piece : Bytes} (hp : piece ≠ [])
    (h : s.update seen piece = []) : s.slack = tagSize ∧ (seen ++ piece).length ≤ tagSize := by
  have hl := length_update s seen piece
  have hpos : 0 < piece.length := List.length_pos_iff.mpr hp
  rw [h] at hl
  cases s with
  | plain | digest | verify | encode => simp at hl; omega
  | decode d =>
    refine ⟨rfl, ?_⟩
    simp only [Decoder.released, List.length_append, List.length_nil] at hl ⊢
    omega

end Stage

end SealedStore
