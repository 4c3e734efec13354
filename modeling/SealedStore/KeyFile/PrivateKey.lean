import SealedStore.KeyFile.EllipticKey
import SealedStore.KeyFile.Password
import SealedStore.Rsa.Encoding
/-!
# Private keys in armoured text

A private key stands in a text on its own, wrapped together with its algorithm,
or wrapped and encrypted under a password. A password has to be given exactly
for an encrypted key. Keys of every kind are read and checked, but only RSA keys
are of use afterwards.

What is proved:
  1. `consistent_of_ofText` — the parts of an RSA key that a text gives belong
     together.
-/

namespace SealedStore

namespace KeyFile

inductive PrivateKey where
  | rsa (key : Rsa.Key)
  | otherKind

/-! ## Keys of other kinds -/

def areNumbers (count : Nat) (values : List Der.Value) (more : List Der.Value → Bool) : Bool :=
  (values.take count).length == count && (values.take count).all (·.nat?.isSome) &&
    more (values.drop count)

/-- A number and a sequence, either of which may be left out. -/
def areGroupProofs : List Der.Value → Bool
  | [] => true
  | [v] => v.nat?.isSome || v.parts?.isSome
  | [v, w] => v.nat?.isSome && w.parts?.isSome
  | _ => false

def hasGroup (a : Algorithm) : Bool :=
  a.settings?.any fun values =>
    if a.id = Algorithm.dsa then areNumbers 3 values List.isEmpty
    else if a.id = Algorithm.diffieHellman then
      areNumbers 2 values fun rest => rest.length ≤ 1 && rest.all fun v => v.nat?.any (· < UInt32.size)
    else a.id = Algorithm.diffieHellmanGroup && areNumbers 3 values areGroupProofs

def isOtherKey (a : Algorithm) (content : Bytes) : Bool :=
  (Der.readSingle? content).any fun v =>
    match Algorithm.ownCurves.lookup a.id with
    | some size => a.isBare && v.octets?.any (·.length == size)
    | none => hasGroup a && v.nat?.isSome

/-- A key of the oldest kind on its own: a version of zero and five numbers. -/
def isPlainDsa (der : Bytes) : Bool :=
  match (Der.readSequence? der).bind fun values => values.mapM Der.Value.nat? with
  | some [0, _, _, _, _, _] => true
  | _ => false

/-! ## Wrapped keys -/

/-- A key together with its algorithm. -/
structure Wrapped where
  algorithm : Algorithm
  content : Bytes

def isAttribute (v : Der.Value) : Bool :=
  match v.parts? with
  | some [id, values] => id.object?.isSome && (values.members? 0x31).isSome
  | _ => false

/-- A version of zero, the algorithm and the key; attributes may follow. -/
def Wrapped.ofDer? (der : Bytes) : Option Wrapped := do
  match ← Der.readSequence? der with
  | version :: algorithm :: content :: rest =>
    let isAttributes (v : Der.Value) : Bool := (v.members? 0xa0).any fun l => l.all isAttribute
    if version.nat? = some 0 ∧ rest.length ≤ 1 ∧ rest.all isAttributes then
      return ⟨← Algorithm.ofValue? algorithm, ← content.octets?⟩
    else none
  | _ => none

def Wrapped.key (w : Wrapped) : Except Refusal PrivateKey := do
  let a := w.algorithm
  if Rsa.isAlgorithm a then return .rsa (← liftM (Rsa.Key.ofDer? w.content))
  else
    if a.id = Algorithm.elliptic then
      require a.parameters.isSome
      checkElliptic a.parameters w.content
    else require (isOtherKey a w.content)
    return .otherKind

theorem Wrapped.consistent_of_key {w : Wrapped} {k : Rsa.Key} (h : w.key = .ok (.rsa k)) :
    k.Consistent := by
  unfold Wrapped.key at h
  dsimp only at h
  split at h
  · obtain ⟨found, hf, hk⟩ := bind_eq_ok.mp h
    cases hk
    exact Rsa.consistent_of_ofDer? (liftM_eq_ok.mp hf)
  · -- Keys of other kinds are checked and not kept, so no RSA key comes of them.
    split at h
    · obtain ⟨_, -, h⟩ := bind_eq_ok.mp h
      obtain ⟨_, -, h⟩ := bind_eq_ok.mp h
      cases h
    · obtain ⟨_, -, h⟩ := bind_eq_ok.mp h
      cases h

/-! ## Texts -/

/-- How a block holds a private key. -/
inductive Form where
  | wrapped
  | encrypted
  | rsa
  | elliptic
  | dsa
  deriving DecidableEq

def Form.ofLabel? : String → Option Form
  | "PRIVATE KEY" => some .wrapped
  | "ENCRYPTED PRIVATE KEY" => some .encrypted
  | "RSA PRIVATE KEY" => some .rsa
  | "EC PRIVATE KEY" => some .elliptic
  | "DSA PRIVATE KEY" => some .dsa
  | _ => none

def Form.read (password : Option Bytes) (content : Bytes) : Form → Except Refusal PrivateKey
  | .wrapped => do (← liftM (Wrapped.ofDer? content)).key
  | .encrypted => do
    let opened ← liftM (password.bind fun p => open? p content)
    (← liftM (Wrapped.ofDer? opened)).key
  | .rsa => do return .rsa (← liftM (Rsa.Key.ofDer? content))
  | .elliptic => do
    checkElliptic none content
    return .otherKind
  | .dsa => do
    require (isPlainDsa content)
    return .otherKind

theorem Form.consistent_of_read {form : Form} {password : Option Bytes} {content : Bytes} {k : Rsa.Key}
    (h : form.read password content = .ok (.rsa k)) : k.Consistent := by
  cases form with
  | wrapped =>
    obtain ⟨_, -, h⟩ := bind_eq_ok.mp h
    exact Wrapped.consistent_of_key h
  | encrypted =>
    obtain ⟨_, -, h⟩ := bind_eq_ok.mp h
    obtain ⟨_, -, h⟩ := bind_eq_ok.mp h
    exact Wrapped.consistent_of_key h
  | rsa =>
    obtain ⟨found, hf, hk⟩ := bind_eq_ok.mp h
    cases hk
    exact Rsa.consistent_of_ofDer? (liftM_eq_ok.mp hf)
  | elliptic | dsa =>
    obtain ⟨_, -, h⟩ := bind_eq_ok.mp h
    cases h

/-- The first block that holds a private key, and its form. -/
def firstKey? (blocks : List Armour.Block) : Option (Armour.Block × Form) :=
  blocks.findSome? fun b => (Form.ofLabel? b.label).map (b, ·)

def PrivateKey.ofText (text : String) (password : Option Bytes) : Except Refusal PrivateKey := do
  let (block, form) ← liftM ((Armour.blocks? text).bind firstKey?)
  let locked ← liftM (saysEncrypted? block)
  let content ← liftM (
    if locked then password.bind fun p => openBlock? p block else some block.content)
  let key ← form.read password content
  -- A password for which there is no use is refused.
  require (password.isNone || locked || form = .encrypted)
  return key

theorem PrivateKey.consistent_of_ofText {text : String} {password : Option Bytes} {k : Rsa.Key}
    (h : PrivateKey.ofText text password = .ok (.rsa k)) : k.Consistent := by
  obtain ⟨_, -, h⟩ := bind_eq_ok.mp h
  obtain ⟨_, -, h⟩ := bind_eq_ok.mp h
  obtain ⟨_, -, h⟩ := bind_eq_ok.mp h
  obtain ⟨key, hk, h⟩ := bind_eq_ok.mp h
  obtain ⟨_, -, h⟩ := bind_eq_ok.mp h
  cases h
  exact Form.consistent_of_read hk

end KeyFile

/-! ## Writing -/

namespace Rsa
open KeyFile

def Key.wrapped (k : Key) : Bytes := Der.sequence [Der.integer 0, algorithm, Der.octets k.toDer]

def Key.toText (k : Key) : String := Armour.render "PRIVATE KEY" k.wrapped

def protectedRounds : Nat := 2048

def protectedSize : Nat := 16

def Key.toProtectedText (k : Key) (password salt iv : Bytes) : String :=
  let key := Pbkdf2.derive .sha256 password salt protectedRounds 32
  let derivation := Der.sequence [Der.object Algorithm.iteratedDerivation, Der.sequence [
    Der.octets salt, Der.integer protectedRounds,
    Der.sequence [Der.object Algorithm.hmacSha256, Der.null]]]
  let cipher := Der.sequence [Der.object Algorithm.aes256Cbc, Der.octets iv]
  Armour.render "ENCRYPTED PRIVATE KEY" (Der.sequence [
    Der.sequence [Der.object Algorithm.passwordScheme, Der.sequence [derivation, cipher]],
    Der.octets (Cbc.encrypt (.aes key) iv k.wrapped)])

end Rsa

end SealedStore
