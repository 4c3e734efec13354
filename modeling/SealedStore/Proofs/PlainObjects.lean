import SealedStore.Client.Either
import SealedStore.Proofs.EncryptedWrite
import SealedStore.Proofs.Rotation
/-!
# Plain objects

A client that encrypts serves the objects that are not encrypted as a client
over the same filters does that does not: a read hands out the same metadata
over the same stream, so that it goes on alike however the stream is read. What
does not look at contents is the same for all objects, encrypted or not.

The codec is left out of what a request without content meets, so there the two
clients are one program. A read is another request for either of them, and two
runs are compared: the codec is told to decrypt, and finds nothing to decrypt.

What is proved:
  1. `EncryptingClient.uncoded_make` — without its codecs an encrypting client
     is the plain one.
  2. `Filter.through_alike` — a read through filters with codecs and without,
     whether it asks for decryption or not.
  3. `Client.run_get_plain`, `EncryptingClient.run_get_plain` — reads by either
     kind of client.
  4. `Overview.perform_uncoded` — operations without content.
  5. `EncryptingClient.serves_plain_alike` — all that the two have in common.
-/

namespace SealedStore

/-! ## The codec taken away -/

namespace EncryptingClient

/-- Taking the codecs away undoes putting one in. -/
theorem filter_withCodec (e : Encryption) (filters : List Filter) :
    (withCodec e filters).filter (fun f => !f.isCodec) = filters.filter fun f => !f.isCodec := by
  unfold withCodec
  split
  · next hany =>
    clear hany
    induction filters with
    | nil => rfl
    | cons f rest ih =>
      rw [List.flatMap_cons, List.filter_append, ih]
      -- A codec goes with the one put before its filter, and the filter stays.
      cases f <;> rfl
  · rw [List.filter_append]
    exact List.append_nil _

theorem uncoded_make (settings : EncryptionSettings) (base : ClientSettings) (filters : List Filter) :
    (make settings base filters).base.uncoded = ({ settings := base, filters } : Client).uncoded :=
  congrArg (Client.mk base) (filter_withCodec settings.encryption filters)

end EncryptingClient

/-! ## Reads -/

/-- There is no encrypted object at an address. -/
def Storage.PlainAt (s : Storage) (target : Identity) : Prop :=
  ∀ object, s.objects.get? target = some object → Envelope.modeOf? object.metadata.user = none

/-- A read of a whole object, which may ask for its content to be decrypted. -/
def Request.whole (target : Identity) (decode : Bool) : Request :=
  { target, operation := .get none, properties := { decode } }

/-- An answer does not come with the metadata of an encrypted object. -/
def Unmarked (reply : Except Error Response) : Prop :=
  ∀ response metadata, reply = .ok response → response.metadata = some metadata →
    Envelope.modeOf? metadata.user = none

/-- A handler answers a read alike whether it asks for decryption or not. -/
def Handler.Answers (h : Handler StorageInterface) (w : World Storage) (target : Identity)
    (reply : Except Error Response) (v : World Storage) : Prop :=
  ∀ decode, (h (.whole target decode)).run Storage.serve w = ((reply, .whole target decode), v)

namespace Handler
variable {next : Handler StorageInterface} {w v : World Storage} {target : Identity}
  {reply : Except Error Response}

theorem answers_carryOut (w : World Storage) (target : Identity) :
    Answers Storage.carryOut w target ((w.state.find target).map fun object => Storage.handedOut object none) w := by
  intro decode
  rw [carryOut_get rfl rfl]
  rfl

/-- The world after an answer to a read is logged. -/
def logged (target : Identity) (w : World Storage) : Except Error Response → World Storage
  | .error _ => w
  | .ok response => w.reported (.answered "GET" target response.status)

theorem Answers.log (h : Answers next w target reply v) :
    Answers (Filter.log next) w target reply (logged target v reply) := by
  intro decode
  rw [Filter.log, Program.run_bind, h decode]
  cases reply <;> rfl

theorem Answers.checkDigests (h : Answers next w target reply v) :
    Answers (Filter.checkDigests next) w target (reply.map Filter.verifyRead) v := by
  intro decode
  have hpass : Filter.checkDigests next (.whole target decode) = next (.whole target decode) >>= fun out =>
      if Filter.readsInFull out.2.operation then pure (out.1.map Filter.verifyRead, out.2) else pure out := rfl
  rw [hpass, Program.run_bind, h decode]
  rfl

theorem bind_decrypt (e : Encryption) (h : Unmarked reply) : reply.bind (Filter.decrypt e) = reply := by
  cases reply with
  | error fault => rfl
  | ok response =>
    show Filter.decrypt e response = .ok response
    unfold Filter.decrypt
    split
    · next metadata entity hmetadata hentity => rw [h response metadata rfl hmetadata]
    · rfl

theorem Answers.transcode (e : Encryption) (hmarked : Unmarked reply) (h : Answers next w target reply v) :
    Answers (Filter.transcode e next) w target reply v := by
  intro decode
  have hpass : Filter.transcode e next (.whole target decode) = next (.whole target decode) >>= fun out =>
      if out.2.properties.decode then pure (out.1.bind (Filter.decrypt e), out.2) else pure out := rfl
  rw [hpass, Program.run_bind, h decode]
  cases decode with
  -- Nobody asked for a decryption.
  | false => rfl
  | true =>
    show ((reply.bind (Filter.decrypt e), Request.whole target true), v) = _
    rw [bind_decrypt e hmarked]

end Handler

theorem Unmarked.verified {reply : Except Error Response} (h : Unmarked reply) :
    Unmarked (reply.map Filter.verifyRead) := by
  have hkept : ∀ response, (Filter.verifyRead response).metadata = response.metadata := by
    intro response
    unfold Filter.verifyRead
    split <;> rfl
  intro response metadata hresponse hmetadata
  cases reply with
  | error e => cases hresponse
  | ok found =>
    obtain rfl := Except.ok.inj hresponse
    exact h found metadata rfl ((hkept found).symm.trans hmetadata)

theorem Storage.PlainAt.unmarked {s : Storage} {target : Identity} (h : s.PlainAt target) :
    Unmarked ((s.find target).map fun object => handedOut object none) := by
  intro response metadata hresponse hmetadata
  unfold find at hresponse
  cases hget : s.objects.get? target with
  | none =>
    rw [hget] at hresponse
    cases hresponse
  | some object =>
    rw [hget] at hresponse
    obtain rfl := Except.ok.inj hresponse
    obtain rfl : object.metadata = metadata := Option.some.inj hmetadata
    exact h object hget

/-- A read of what is not encrypted is answered alike through filters with
codecs among them and through the others alone. -/
theorem Filter.through_alike {w : World Storage} {target : Identity} (hplain : w.state.PlainAt target)
    (filters : List Filter) :
    ∃ reply v, Unmarked reply ∧ Handler.Answers (through filters Storage.carryOut) w target reply v ∧
      Handler.Answers (through (filters.filter fun f => !f.isCodec) Storage.carryOut) w target reply v := by
  -- The two lists grow together, but for the codecs, which pass what is there on.
  induction filters with
  | nil => exact ⟨_, _, hplain.unmarked, Handler.answers_carryOut w target, Handler.answers_carryOut w target⟩
  | cons f rest ih =>
    obtain ⟨reply, v, hmarked, hall, hothers⟩ := ih
    cases f with
    | logging => exact ⟨reply, Handler.logged target v reply, hmarked, hall.log, hothers.log⟩
    | checksum => exact ⟨_, v, hmarked.verified, hall.checkDigests, hothers.checkDigests⟩
    | codec e => exact ⟨reply, v, hmarked, hall.transcode e hmarked, hothers⟩

variable {w : World Storage} {target : Identity}

theorem Client.run_execute_plain (c : Client) (hplain : w.state.PlainAt target) (decode : Bool) :
    (c.execute (.whole target decode)).run.run Storage.serve w =
      (c.uncoded.execute (.whole target false)).run.run Storage.serve w := by
  have hrun : ∀ {h : Handler StorageInterface} {decode reply v}, h.Answers w target reply v →
      (h (.whole target decode) >>= fun out => pure out.1 : Program _ _).run Storage.serve w = (reply, v) := by
    intro h decode reply v hanswers
    rw [Program.run_bind, hanswers decode]
    rfl
  obtain ⟨reply, v, -, hall, hothers⟩ := Filter.through_alike hplain c.filters
  exact (hrun hall).trans (hrun hothers).symm

theorem Client.run_get_plain (c : Client) (hplain : w.state.PlainAt target) :
    (c.get target none).run.run Storage.serve w = (c.uncoded.get target none).run.run Storage.serve w := by
  have hexecute := c.run_execute_plain hplain false
  unfold Request.whole at hexecute
  rw [get, get, ExceptT.run_bind, ExceptT.run_bind, Program.run_bind, Program.run_bind, hexecute]

theorem EncryptingClient.run_get_plain (c : EncryptingClient) (hplain : w.state.PlainAt target) :
    (c.get target none).run.run Storage.serve w =
      (c.base.uncoded.get target none).run.run Storage.serve w := by
  have hexecute := c.base.run_execute_plain hplain true
  unfold Request.whole at hexecute
  have hget : c.get target none = c.base.execute (.whole target true) >>= fun response =>
      pure { body := response.entity.getD default, metadata := response.metadata.getD {} } := rfl
  rw [hget, Client.get, ExceptT.run_bind, ExceptT.run_bind, Program.run_bind, Program.run_bind]
  rw [Request.whole, hexecute]

/-- Without codecs a read of an object hands out its metadata over a stream
that delivers its content. -/
theorem Client.get_delivers (c : Client) {object : StoredObject}
    (hget : w.state.objects.get? target = some object) :
    ∃ body : Stream, body.Delivers object.content object.metadata.etag ∧
      ((c.uncoded.get target none).run.run Storage.serve w).1 =
        .ok { body, metadata := object.metadata } := by
  have hcodecs : ∀ f ∈ c.uncoded.filters, f.isCodec = false := by
    intro f hf
    simpa using (List.mem_filter.mp hf).2
  have hfetches : Handler.Fetches Storage.serve c.uncoded.handle :=
    Filter.fetches_through hcodecs Handler.fetches_carryOut
  have hends : Program.Ensures Storage.serve (c.uncoded.get target none).run w.state fun x _ =>
      ∃ body : Stream, body.Delivers object.content object.metadata.etag ∧
        x = .ok { body, metadata := object.metadata } := by
    refine .map (.bind (hfetches rfl rfl (StorageCall.send_ensures ?_)))
    rw [Storage.serve_get hget]
    exact fun body hbody => .done ⟨body, hbody, rfl⟩
  exact hends w rfl

/-! ## What does not look at contents -/

/-- An operation for which it does not matter whether an object is encrypted. -/
inductive Overview where
  | metadata (target : Identity)
  | acl (target : Identity)
  | list (bucket start : String)
  | delete (target : Identity)
  | copy (source target : Identity) (access : Option AccessList)

namespace Overview

abbrev Result : Overview → Type
  | .metadata _ => Metadata
  | .acl _ => AccessList
  | .list _ _ => List String
  | .delete _ => Unit
  | .copy _ _ _ => WriteResult

/-- What a client of either kind does when it is asked. -/
def perform (c : AnyClient) : (a : Overview) → StorageTask a.Result
  | .metadata target => c.base.metadata target
  | .acl target => c.base.acl target
  | .list bucket start => Client.list bucket start
  | .delete target => c.base.delete target
  | .copy source target access => c.copy source target none access

theorem perform_uncoded (c : Client) (a : Overview) :
    a.perform (.plain c.uncoded) = a.perform (.plain c) := by
  cases a with
  | metadata target => exact c.metadata_uncoded target
  | acl target => exact c.acl_uncoded target
  | list bucket start => rfl
  | delete target => exact congrFun c.delete_uncoded target
  | copy source target access => exact c.copy_uncoded target source none access

theorem perform_encrypting (c : EncryptingClient) (a : Overview) :
    a.perform (.encrypting c) = a.perform (.plain c.base) := by
  cases a <;> rfl

end Overview

namespace EncryptingClient

/-- Two clients over one store and the same filters, of which one encrypts.
Where there is no encrypted object, a read ends alike for both: an object is
handed out with its metadata over one and the same stream, which delivers its
content, so that every sequence of reads has the same results. Whatever does
not look at contents is the same program for both, and so has the same result
and leaves the same store at every object, encrypted or not. -/
theorem serves_plain_alike (settings : EncryptionSettings) (base : ClientSettings) (filters : List Filter)
    (w : World Storage) :
    let coded := AnyClient.encrypting (make settings base filters)
    let plain := AnyClient.plain { settings := base, filters }
    (∀ target, w.state.PlainAt target →
      let got := (coded.get target none).run.run Storage.serve w
      got = (plain.get target none).run.run Storage.serve w ∧
      (coded.read target).run.run Storage.serve w = (plain.read target).run.run Storage.serve w ∧
      ∀ object, w.state.objects.get? target = some object →
        ∃ body : Stream, got.1 = .ok { body, metadata := object.metadata } ∧
          body.Delivers object.content object.metadata.etag) ∧
    (∀ operation : Overview, operation.perform coded = operation.perform plain) := by
  intro coded plain
  let client : Client := { settings := base, filters }
  refine ⟨fun target hplain => ?_, fun operation => ?_⟩
  · -- Both reads are those of one client, which has no codec.
    have hcoded : ((make settings base filters).get target none).run.run Storage.serve w =
        (client.uncoded.get target none).run.run Storage.serve w := by
      rw [run_get_plain _ hplain, uncoded_make]
    have hsame : ((make settings base filters).get target none).run.run Storage.serve w =
        (client.get target none).run.run Storage.serve w := hcoded.trans (client.run_get_plain hplain).symm
    refine ⟨hsame, ?_, fun object hget => ?_⟩
    · show ((make settings base filters).read target).run.run Storage.serve w =
        (client.read target).run.run Storage.serve w
      rw [read, Client.read, ExceptT.run_bind, ExceptT.run_bind, Program.run_bind, Program.run_bind, hsame]
    · obtain ⟨body, hbody, hgot⟩ := client.get_delivers hget
      exact ⟨body, (congrArg Prod.fst hcoded).trans hgot, hbody⟩
  · rw [Overview.perform_encrypting, ← Overview.perform_uncoded, uncoded_make]
    exact Overview.perform_uncoded client operation

/-- An object that was stored by a client without keys is handed out by one
with keys, and both read it. -/
theorem serves_plain_alike_stored :
    let target : Identity := ⟨"bucket", "doc"⟩
    let w : World Storage :=
      { entropy := Entropy.ofSeed "", state := (({} : Storage).put target [1, 2, 3] none none none).2 }
    let coded := AnyClient.encrypting (make oneKey {} Filter.default)
    (∃ body metadata, ((coded.get target none).run.run Storage.serve w).1 = .ok { body, metadata } ∧
      body.Holds [1, 2, 3]) ∧
    ((coded.read target).run.run Storage.serve w).1 =
      (((AnyClient.plain {}).read target).run.run Storage.serve w).1 := by
  intro target w coded
  have hget : w.state.objects.get? target = some (({} : Storage).put target [1, 2, 3] none none none).1 :=
    Storage.get?_store ..
  have hplain : w.state.PlainAt target := by
    intro object hobject
    obtain rfl := Option.some.inj (hget.symm.trans hobject)
    rfl
  obtain ⟨-, hread, hobject⟩ := (serves_plain_alike oneKey {} Filter.default w).1 target hplain
  obtain ⟨body, hgot, hbody⟩ := hobject _ hget
  exact ⟨⟨body, _, hgot, hbody.holds (Filter.mismatch?_self _)⟩, congrArg Prod.fst hread⟩

end EncryptingClient

end SealedStore
