import SealedStore.Key.Secret
import SealedStore.KeyFile.PrivateKey
/-!
# Master keys

A master key wraps the keys of contents. It is an AES key, which wraps
under its own name as associated data, or an RSA key. Either has a name that is
stored with every key it wraps.

What is proved:
  1. `keyId_ofAes` — an AES key has the name it was given, if it was given one.
  2. `run_wrap_rsa` — wrapping under an RSA key draws what its padding is filled
     with, and nothing else.
-/

namespace SealedStore

/-- A key for other keys. -/
inductive MasterKey where
  | aes (key : SecretKey) (keyId : String)
  | rsa (key : Rsa.Key)
  deriving DecidableEq

namespace MasterKey
variable {I : Interface}

/-! ## Names -/

/-- The name of an AES key that was given none. -/
def defaultId (key : SecretKey) : String :=
  String.ofList ((Sha256.hex (Bytes.ofText "envelope-s3:" ++ key.material)).toList.take 40)

/-- An AES master key; an empty name counts as none. -/
def ofAes (key : SecretKey) (keyId : Option String) : MasterKey :=
  match keyId with
  | none | some "" => .aes key (defaultId key)
  | some name => .aes key name

def keyId : MasterKey → String
  | .aes _ name => name
  | .rsa key => key.fingerprint

theorem keyId_ofAes (key : SecretKey) {name : String} (h : name ≠ "") :
    (ofAes key (some name)).keyId = name := by
  unfold ofAes
  split
  · contradiction
  · next he => exact absurd (Option.some.inj he) h
  · next he => exact (Option.some.inj he).symm ▸ rfl

def kindName : MasterKey → String
  | .aes _ _ => "AesMasterKey"
  | .rsa _ => "RsaMasterKey"

def summary (k : MasterKey) : String := k.kindName ++ "(key_id=" ++ Text.quoted k.keyId ++ ")"

/-! ## Wrapping -/

def wrap (k : MasterKey) (dataKey : SecretKey) : Attempt I Bytes :=
  match k with
  | .aes key name => key.wrap dataKey (Bytes.ofText name)
  | .rsa key => do
    let seed ← Attempt.always (Program.filler 32)
    match key.encrypt? seed dataKey.material with
    | none => throw (.value .notEncrypted)
    | some wrapped => return wrapped

theorem run_wrap_rsa (key : Rsa.Key) (dataKey : SecretKey) :
    (wrap (.rsa key) dataKey : Attempt I Bytes).run = .draw .filler 32 fun seed =>
      .done ((key.encrypt? seed dataKey.material).elim (.error (.value .notEncrypted)) .ok) := by
  refine congrArg (Program.draw .filler 32) (funext fun seed => ?_)
  dsimp only [Program.bind, Function.comp, ExceptT.bindCont]
  cases key.encrypt? seed dataKey.material <;> rfl

def unwrap (k : MasterKey) (wrapped : Bytes) : Except KeyFault SecretKey :=
  match k with
  | .aes key name => key.unwrap wrapped (Bytes.ofText name)
  | .rsa key =>
    match key.decrypt? wrapped with
    | none => .error .notUnwrapped
    | some material => .ok ⟨material⟩

/-! ## Making, reading and writing -/

def generateAes (keyId : Option String) : Program I MasterKey := do
  return ofAes (← SecretKey.fresh .bits256) keyId

def ofText (text : String) (password : Option Bytes) : Except Error MasterKey :=
  match KeyFile.PrivateKey.ofText text password with
  | .error .malformed => .error (.key .unloadable)
  | .error (.unknownCurve id) => .error (.unknownCurve id.toText)
  | .ok .otherKind => .error (.key .notRsa)
  | .ok (.rsa key) => .ok (.rsa key)

/-- The most bytes a password may have under which a key is written. -/
def maxPassword : Nat := 1023

/-- An RSA master key in armoured text, under a password unless that is empty. -/
def toText? (k : MasterKey) (password : Bytes) : Attempt I (Option String) :=
  match k with
  | .aes _ _ => return none
  | .rsa key =>
    if password.isEmpty then return some key.toText
    else do
      if maxPassword < password.length then throw (.value .passwordTooLong)
      let salt ← Attempt.always (Program.filler Rsa.protectedSize)
      let iv ← Attempt.always (Program.filler Rsa.protectedSize)
      return some (key.toProtectedText password salt iv)

end MasterKey

end SealedStore
