import SealedStore.Cipher.Cbc
import SealedStore.Hash.Scrypt
import SealedStore.KeyFile.Algorithm
import SealedStore.KeyFile.Armour
/-!
# Keys under a password

A key that is kept under a password is encrypted as a whole. What it is
encrypted with stands beside it: as an algorithm in a tagged value, or in the
headers of an armoured block.
-/

namespace SealedStore.KeyFile

/-! ## Ciphers -/

/-- A block cipher in chaining mode: the length of its keys, and of its blocks. -/
structure Cipher where
  keySize : Nat
  blockSize : Nat
  under : (key : Bytes) → BlockCipher

namespace Cipher

def aes (keySize : Nat) : Cipher := ⟨keySize, 16, .aes⟩

def tripleDes : Cipher := ⟨24, 8, .tripleDes⟩

def rc2 (keySize : Nat) : Cipher := ⟨keySize, 8, .rc2 (8 * keySize)⟩

def byId : List (Der.ObjectId × Cipher) := [
  (Algorithm.aes128Cbc, aes 16), (Algorithm.aes192Cbc, aes 24), (Algorithm.aes256Cbc, aes 32),
  (Algorithm.tripleDesCbc, tripleDes)]

def byName : List (String × Cipher) :=
  [("AES-128-CBC", aes 16), ("AES-256-CBC", aes 32), ("DES-EDE3-CBC", tripleDes)]

def decrypt? (c : Cipher) (key iv content : Bytes) : Option Bytes :=
  if iv.length = c.blockSize then Cbc.decrypt? (c.under key) iv content else none

end Cipher

/-! ## Tagged values -/

def derivationHashes : List (Der.ObjectId × HashFunction) := [
  (Algorithm.hmacSha1, .sha1), (Algorithm.hmacSha224, .sha224), (Algorithm.hmacSha256, .sha256),
  (Algorithm.hmacSha384, .sha384), (Algorithm.hmacSha512, .sha512)]

/-- What a derivation iterates where nothing is named, and then must not be. -/
def usualCode : Algorithm := ⟨Algorithm.hmacSha1, some ⟨[5], []⟩⟩

def word? (v : Der.Value) : Option Nat := v.nat?.filter (· < UInt64.size)

/-- How often something is iterated: once at least. -/
def rounds? (v : Der.Value) : Option Nat := (word? v).filter (0 < ·)

/-- How key bytes are made from a password. -/
inductive Derivation where
  | iterated (hash : HashFunction) (salt : Bytes) (rounds : Nat)
  | memory (settings : Scrypt.Settings)

namespace Derivation

def derive (password : Bytes) (length : Nat) : Derivation → Bytes
  | iterated hash salt rounds => Pbkdf2.derive hash password salt rounds length
  | memory settings => Scrypt.derive settings password length

def hash? : List Der.Value → Option HashFunction
  | [] => some .sha1
  | [code] => do
    let code ← Algorithm.ofValue? code
    if code.isPlain ∧ code ≠ usualCode then derivationHashes.lookup code.id else none
  | _ => none

/-- The values without the length of the key, which changes nothing and may be
left out. -/
def dropLength : List Der.Value → List Der.Value
  | [] => []
  | length :: rest => if (word? length).isSome then rest else length :: rest

def ofAlgorithm? (a : Algorithm) : Option Derivation := do
  match ← a.settings? with
  | salt :: rest =>
    let salt ← salt.octets?
    if a.id = Algorithm.iteratedDerivation then
      match rest with
      | rounds :: rest => return .iterated (← hash? (dropLength rest)) salt (← rounds? rounds)
      | [] => none
    else if a.id = Algorithm.memoryDerivation then
      match rest with
      | cost :: blockSize :: parallel :: rest =>
        let s : Scrypt.Settings := ⟨salt, ← word? cost, ← word? blockSize, ← word? parallel⟩
        if s.areValid ∧ (dropLength rest).isEmpty then return .memory s else none
      | _ => none
    else none
  | [] => none

end Derivation

/-- How RC2 writes that all bits of a key of 16 bytes count. -/
def allBitsCount : Nat := 58

def readCipher? (a : Algorithm) : Option (Cipher × Bytes) := do
  if a.id = Algorithm.rc2Cbc then
    match ← a.settings? with
    | [bits, iv] =>
      if bits.nat? = some allBitsCount then return (.rc2 16, ← iv.octets?) else none
    | _ => none
  else return (← Cipher.byId.lookup a.id, ← (← a.parameters).octets?)

/-- Decrypts with a derivation and a cipher that are named apart. -/
def openNamed? (password : Bytes) (settings : List Der.Value) (content : Bytes) : Option Bytes := do
  match settings with
  | [derivation, scheme] =>
    let derivation ← Derivation.ofAlgorithm? (← Algorithm.ofValue? derivation)
    let (cipher, iv) ← readCipher? (← Algorithm.ofValue? scheme)
    cipher.decrypt? (derivation.derive password cipher.keySize) iv content
  | _ => none

/-- A password in 16-bit units, the more significant byte first, with a zero at
its end. -/
def wideText? (password : Bytes) : Option Bytes := do
  let text ← String.fromUTF8? (ByteArray.mk password.toArray)
  let units := text.toList.flatMap fun c =>
    if c.toNat < 0x10000 then [c.toNat]
    else [0xd800 + (c.toNat - 0x10000) / 1024, 0xdc00 + (c.toNat - 0x10000) % 1024]
  return (units ++ [0]).flatMap (Bytes.ofNat 2)

def openDiversified? (cipher : Cipher) (password : Bytes) (settings : List Der.Value)
    (content : Bytes) : Option Bytes := do
  match settings with
  | [salt, rounds] =>
    let salt ← salt.octets?
    let rounds ← rounds? rounds
    let password ← wideText? password
    -- This derivation goes with a salt of one size.
    if salt.length ≠ 8 then none
    else
      let derive (purpose : Diversified.Purpose) := Diversified.derive .sha1 purpose password salt rounds
      cipher.decrypt? (derive .key cipher.keySize) (derive .initialBlock cipher.blockSize) content
  | _ => none

def diversifiedCiphers : List (Der.ObjectId × Cipher) :=
  [(Algorithm.diversifiedTripleDes, .tripleDes), (Algorithm.diversifiedRc2, .rc2 5)]

/-- Decrypts a key that is kept as the algorithm it is encrypted with and the
encrypted bytes. -/
def open? (password der : Bytes) : Option Bytes := do
  if password.isEmpty then none
  else match ← Der.readSequence? der with
    | [algorithm, content] =>
      let algorithm ← Algorithm.ofValue? algorithm
      let settings ← algorithm.settings?
      let content ← content.octets?
      if algorithm.id = Algorithm.passwordScheme then openNamed? password settings content
      else openDiversified? (← diversifiedCiphers.lookup algorithm.id) password settings content
    | _ => none

/-! ## Headers -/

/-- Whether the headers of a block say that it is encrypted, if they say either
one. -/
def saysEncrypted? (b : Armour.Block) : Option Bool :=
  match b.header? "Proc-Type" with
  | none => some false
  | some "4,ENCRYPTED" => some true
  | some _ => none

/-- Decrypts the bytes of a block whose headers name a cipher and the initial
block, the first half of which is the salt. -/
def openBlock? (password : Bytes) (b : Armour.Block) : Option Bytes := do
  if password.isEmpty then none
  else
    let info := (← b.header? "DEK-Info").toList
    let name := info.takeWhile (· != ',')
    let cipher ← Cipher.byName.lookup (String.ofList name)
    let iv ← Bytes.ofHexChars? (info.drop (name.length + 1))
    cipher.decrypt? (chainedKey password (iv.take 8) cipher.keySize) iv b.content

end SealedStore.KeyFile
