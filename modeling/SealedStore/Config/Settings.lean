import SealedStore.Client.Encrypting
import SealedStore.Config.Directory
import SealedStore.Config.Dotenv
/-!
# Settings from the environment

Clients and their encryption are set up by environment variables. Their values
are bytes to the system, so they are raw texts here. A settings file may supply
variables that are not set, not even to nothing. Numbers that are blank count as
absent; master keys come from files, the current one first.

What is proved:
  1. `supply_cases`, `withFile_keeps` — what one entry of a file does, and what
     all of them keep.
  2. `get?_withFile_of_set` — a variable that is set wins over the file.
-/

namespace SealedStore

/-- The variables a program sees. -/
abbrev Environment := Table String RawText

/-- Settings as the environment has them. -/
structure Configuration where
  encryption : Encryption
  tempSuffix : RawText

namespace Configuration

def make (ring : KeyRing MasterKey) (bits : Int) (tempSuffix : RawText) : Except ConfigFault Configuration :=
  (EncryptionSettings.make ring bits tempSuffix.shown).map fun s => { encryption := s.encryption, tempSuffix }

/-- The settings of a client, which names temporary objects by texts. -/
def settings (c : Configuration) : EncryptionSettings where
  encryption := c.encryption
  tempSuffix := c.tempSuffix.shown

end Configuration

namespace Environment

def checkVariable (name : String) (value : RawText) : Except Error Unit :=
  if name.contains '\x00' || value.contains (.char '\x00') then .error (.value .embeddedNull)
  else if name.contains '=' then .error (.value .variableName)
  else .ok ()

def supply (env : Environment) (name : String) (value : Option RawText) : Except Error Environment :=
  match value with
  | some v => if env.contains name then .ok env else (checkVariable name v).map fun _ => env.insert name v
  | none => .ok env

/-- The environment with what a settings file supplies; there may be no file. -/
def withFile (env : Environment) (file : Option String) : Except Error Environment :=
  match file with
  | none => .ok env
  | some text =>
    (Dotenv.settings env text).entries.foldlM (fun now (name, value) => supply now name value) env

/-- A variable that is not set is set to what it can hold, or nothing changes. -/
theorem supply_cases {env now : Environment} {name : String} {value : Option RawText}
    (h : supply env name value = .ok now) :
    now = env ∨ ∃ v, env.get? name = none ∧ checkVariable name v = .ok () ∧ now = env.insert name v := by
  unfold supply at h
  split at h
  · next v =>
    split at h
    · exact .inl (Except.ok.inj h).symm
    · next hset =>
      cases hcheck : checkVariable name v with
      | error e =>
        rw [hcheck] at h
        cases h
      | ok =>
        rw [hcheck] at h
        exact .inr ⟨v, by simpa [Table.contains] using hset, hcheck, (Except.ok.inj h).symm⟩
  · exact .inl (Except.ok.inj h).symm

/-- What every step of a file keeps is kept by the file. -/
theorem withFile_keeps {P : Environment → Prop} {env now : Environment} {file : Option String}
    (hstep : ∀ before after name value, P before → supply before name value = .ok after → P after)
    (hP : P env) (h : env.withFile file = .ok now) : P now := by
  unfold withFile at h
  split at h
  · exact Except.ok.inj h ▸ hP
  · next text =>
    -- the invariant has to speak of any environment that the entries are supplied to
    generalize (Dotenv.settings env text).entries = entries at h
    induction entries generalizing env with
    | nil => exact Except.ok.inj h ▸ hP
    | cons entry rest ih =>
      obtain ⟨name, value⟩ := entry
      rw [List.foldlM_cons] at h
      cases hsupply : supply env name value with
      | error e =>
        simp only [hsupply] at h
        cases h
      | ok next =>
        simp only [hsupply] at h
        exact ih (hstep env next name value hP hsupply) h

theorem get?_withFile_of_set {env now : Environment} {file : Option String} {name : String} {v : RawText}
    (hv : env.get? name = some v) (h : env.withFile file = .ok now) : now.get? name = some v := by
  refine withFile_keeps (P := fun env => env.get? name = some v) ?_ hv h
  intro before after other value hbefore hsupply
  rcases supply_cases hsupply with rfl | ⟨w, hunset, -, rfl⟩
  · exact hbefore
  · have hne : other ≠ name := by
      rintro rfl
      cases hbefore.symm.trans hunset
    rw [Table.get?_insert, if_neg hne, hbefore]

/-! ## Values -/

def isBlankText (s : RawText) : Bool := s.all Sign.isBlank

def integer (env : Environment) (name : String) (default : Int) : Except ConfigFault Int :=
  match env.get? name with
  | none => .ok default
  | some raw =>
    if isBlankText raw then .ok default
    else match raw.toText.toOption.map Integer.read with
      | some (.ok n) => .ok n
      | _ => .error (.notInteger name raw)

def dropSlashes (s : String) : String :=
  String.ofList (s.toList.reverse.dropWhile (· == '/')).reverse

/-! ## Clients -/

def clientSettings (env : Environment) : Except ConfigFault ClientSettings := do
  let usual : ClientSettings := {}
  let linkLifetime ← env.integer "ENVELOPE_S3_PRESIGN_EXPIRY" usual.linkLifetime
  return {
    endpoint := dropSlashes ((env.get? "ENVELOPE_S3_ENDPOINT").elim usual.endpoint RawText.shown)
    accessKey := (env.get? "ENVELOPE_S3_ACCESS_KEY").map RawText.shown
    secretKey := (env.get? "ENVELOPE_S3_SECRET_KEY").map RawText.shown
    linkLifetime }

/-! ## Encryption -/

/-- The key files that are named, in order. -/
def keyFiles (env : Environment) : List RawText :=
  ((Text.pieces (.char ',') ((env.get? keyFilesSetting).getD [])).map RawText.trim).filter (!·.isEmpty)

/-- The password of the key files; an empty one counts as none. -/
def keyPassword (env : Environment) : Option RawText :=
  (env.get? "ENVELOPE_MASTER_KEY_PASSWORD").filter (!·.isEmpty)

section
variable {α : Type} (read : Path → Except FileFault α) (load : α → Option Bytes → Except Error MasterKey)

/-- The master key that `load` makes of a file. The password is encoded for each
file anew, when the file has been read. -/
def readKey (password : Option RawText) (file : RawText) : Except Error MasterKey :=
  let path := Path.ofRaw file
  if file.contains (.char '\x00') then .error (.value .embeddedNull)
  else match read path with
    | .error fault => .error (.config (.unreadableKeyFile path.toRaw fault))
    | .ok content =>
      match password.mapM RawText.encode with
      | .error fault => .error (.unencodable fault)
      | .ok password => (load content password).mapError fun
        | .key fault => .config (.invalidKeyFile path.toRaw fault)
        | other => other

def settingsFrom (env : Environment) : Except Error Configuration := do
  match ← env.keyFiles.mapM (readKey read load env.keyPassword) with
  | [] => throw (.config .noKeyFiles)
  | current :: previous =>
    -- The other settings are looked at only if there is a key.
    let bits ← (env.integer "ENVELOPE_AES_KEY_SIZE" 256).mapError .config
    (Configuration.make (KeyRing.make current previous) bits
      ((env.get? "ENVELOPE_TEMP_SUFFIX").getD (.ofText ".temp"))).mapError .config

end

/-- How contents are encrypted, under the keys in the named files. -/
def encryptionSettings (env : Environment) (read : FileReader) : Except Error Configuration :=
  env.settingsFrom read MasterKey.ofText

end Environment

end SealedStore
