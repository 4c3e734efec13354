import SealedStore.Storage.Basic
/-!
# Monitored storage

A store that keeps a journal of the calls it gets, refuses those that a rule
names, and can report another ETag than the one it keeps. A call that is
refused is in the journal and has no effect.

What is proved:
  1. `storage_refused` — a refused call leaves the store as it was.
  2. `storage_served` — every other call does what it does without a monitor.
-/

namespace SealedStore

/-- A call in the journal. Listing keys and reading the clock are not recorded. -/
def StorageCall.label? : StorageCall → Option String
  | .put target _ _ _ _ => some ("put " ++ target.label)
  | .get target => some ("get " ++ target.label)
  | .copy source target _ _ => some ("copy " ++ source.label ++ "->" ++ target.label)
  | .delete target => some ("delete " ++ target.label)
  | .acl target => some ("acl " ++ target.label)
  | .initiate target _ _ => some ("initiate " ++ target.label)
  | .uploadPart uploadId _ _ => some ("upload_part " ++ uploadId)
  | .complete uploadId _ => some ("complete " ++ uploadId)
  | .abort uploadId => some ("abort " ++ uploadId)
  | .list _ _ | .now => none

/-- A store under observation. -/
structure Monitored where
  storage : Storage := {}
  journal : List String := []
  refuses : StorageCall → Option Error := fun _ => none
  reportedEtag : Option String := none

namespace Monitored

def recorded (m : Monitored) (c : StorageCall) : Monitored :=
  { m with journal := m.journal ++ c.label?.toList }

/-- What a write reports. -/
def disguise (m : Monitored) : (c : StorageCall) → Except Error c.Result → Except Error c.Result
  | .put _ _ _ _ _, .ok object =>
    .ok { object with metadata := { object.metadata with etag := m.reportedEtag.or object.metadata.etag } }
  | _, reply => reply

def serve : Program.Service StorageInterface Monitored := fun c m =>
  match m.refuses c with
  | some e => (.error e, m.recorded c)
  | none =>
    let (reply, after) := Storage.serve c m.storage
    (m.disguise c reply, { m.recorded c with storage := after })

theorem storage_refused {c : StorageCall} {m : Monitored} {e : Error} (h : m.refuses c = some e) :
    (serve c m).2.storage = m.storage := by
  simp [serve, h, recorded]

theorem storage_served {c : StorageCall} {m : Monitored} (h : m.refuses c = none) :
    (serve c m).2.storage = (Storage.serve c m.storage).2 := by
  simp [serve, h]

end Monitored

end SealedStore
