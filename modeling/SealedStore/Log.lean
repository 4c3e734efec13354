import SealedStore.Error
/-!
# The log

What the parts of the library report while they work, as values. An event
knows the part it comes from, how grave it is and its wording. How long a call
took is never part of an event: the wording leaves a mark in its place.
-/

namespace SealedStore

inductive LogTopic where
  | calls
  | encryption
  | detours
  | rekeying
  deriving DecidableEq, Repr

inductive LogLevel where
  | debug
  | info
  | warning
  deriving DecidableEq, Repr

def LogLevel.name : LogLevel → String
  | .debug => "DEBUG"
  | .info => "INFO"
  | .warning => "WARNING"

/-- What happened. -/
inductive LogEvent where
  | answered (method : String) (target : Identity) (status : Int)
  | encrypted (target : Identity)
  | moved (target : Identity) (state next : DetourState)
  | cleanupFailed (temp : Identity) (error : Error)
  | orphaned (temp target : Identity) (error : Error)
  | alreadyCurrent (target : Identity) (keyId : String)
  | rekeyed (target : Identity) (oldKeyId newKeyId : String)
  deriving DecidableEq

def LogEvent.topic : LogEvent → LogTopic
  | .answered _ _ _ => .calls
  | .encrypted _ => .encryption
  | .moved _ _ _ | .cleanupFailed _ _ | .orphaned _ _ _ => .detours
  | .alreadyCurrent _ _ | .rekeyed _ _ _ => .rekeying

def LogEvent.level : LogEvent → LogLevel
  | .answered _ _ _ | .encrypted _ | .moved _ _ _ | .alreadyCurrent _ _ => .debug
  | .rekeyed _ _ _ => .info
  | .cleanupFailed _ _ | .orphaned _ _ _ => .warning

def LogEvent.message : LogEvent → String
  | .answered method target status => s!"{method} {target.label} -> {status} (*ms)"
  | .encrypted target => "Encrypted " ++ target.label
  | .moved target state next => s!"{target.label}: {state.name} -> {next.name}"
  | .cleanupFailed temp error => s!"Failed to delete temp object {temp.label}: {error.message}"
  | .orphaned temp target error =>
    s!"Temp object {temp.label} orphaned after publishing {target.label}: {error.message}"
  | .alreadyCurrent target keyId => s!"{target.label} already uses master key {keyId}"
  | .rekeyed target oldKeyId newKeyId =>
    s!"Rekeyed {target.label} from master key {oldKeyId} to {newKeyId}"

end SealedStore
