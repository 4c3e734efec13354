import SealedStore.ByteRange
import SealedStore.Metadata
import SealedStore.Text.Base64
import SealedStore.Text.Integer
import SealedStore.Text.Raw
/-!
# Errors

Every failure is a value that holds its cause. Faults that can only arise in
one place have a type of their own, so that a signature says which of them a
function can give; `Error` gathers them. `Error.kind` is what a caller
distinguishes, `Error.message` the wording, `Error.cause` the error that one
was raised from.
-/

namespace SealedStore

/-! ## Faults of keys -/

inductive KeyFault where
  | notBytes
  | unknownSize (size : Int)
  | wrongLength (length : Nat)
  | wrongNonce (length : Nat)
  | blobTooShort (length : Nat)
  | notAuthentic
  | notBase64 (fault : Base64.Fault)
  | unloadable
  | notRsa
  | notUnwrapped
  deriving DecidableEq

def KeyFault.message : KeyFault → String
  | .notBytes => "Key material must be bytes"
  | .unknownSize size => s!"Invalid AES key size: {size}"
  | .wrongLength length => s!"Invalid key size: {length}"
  | .wrongNonce length => s!"Invalid nonce size: expected 12, got {length}"
  | .blobTooShort length => s!"Wrapped key too small: {length} bytes"
  | .notAuthentic => "Decryption failed"
  | .notBase64 fault => "Base64 decode error: " ++ fault.message
  | .unloadable => "Unable to load master key"
  | .notRsa => "Master key must be an RSA private key"
  | .notUnwrapped => "Unable to unwrap object key"

/-! ## Faults of envelopes and of encrypted content -/

inductive FieldFault where
  | base64 (fault : Base64.Fault)
  | integer (fault : Integer.Fault)
  deriving DecidableEq

inductive TransformFault where
  | missingField (name : String)
  | malformedField (fault : FieldFault)
  | notWrapped (fault : KeyFault)
  | noDecryption (fault : KeyFault)
  | notUnwrapped (fault : KeyFault)
  | dataKeyLength (length : Nat)
  | notDrained
  | truncated
  | notAuthentic
  | wrongSize (actual : Nat) (expected : Int)
  | wrongDigest
  | nothingToEncrypt (target : Identity)
  | notRekeyed (target : Identity) (cause : TransformFault)
  deriving DecidableEq

def FieldFault.message : FieldFault → String
  | .base64 fault => (KeyFault.notBase64 fault).message
  | .integer fault => fault.message

def TransformFault.message : TransformFault → String
  | .missingField name => "Envelope metadata is missing " ++ name
  | .malformedField fault => "Envelope metadata is malformed: " ++ fault.message
  | .notWrapped fault => "Unable to wrap object key: " ++ fault.message
  | .noDecryption fault => "Unable to initialize decryption: " ++ fault.message
  | .notUnwrapped fault => "Unable to unwrap object key: " ++ fault.message
  | .dataKeyLength length => s!"Unwrapped object key has invalid size {length}"
  | .notDrained => "Envelope metadata is not available until the content is fully read"
  | .truncated => "Encrypted content is truncated"
  | .notAuthentic => "Encrypted content failed authentication"
  | .wrongSize actual expected => s!"Decrypted size {actual} does not match expected {expected}"
  | .wrongDigest => "Decrypted content digest does not match"
  | .nothingToEncrypt target => "Nothing to encrypt for " ++ target.label
  | .notRekeyed target _ => "Error rekeying object: " ++ target.label

/-- Why the master key of an object is out of reach. -/
inductive Obstacle where
  | mode (name : String)
  | modeOrKey (name : String) (keyId : Option String)
  | unknownKey (keyId : String)
  deriving DecidableEq

def unknownKeyMessage (keyId : String) : String := s!"Master key {keyId} is not in the key ring"

def Obstacle.message : Obstacle → String
  | .mode name => "Cannot handle encryption mode '" ++ name ++ "'"
  | .modeOrKey name keyId =>
    "Cannot handle encryption mode '" ++ name ++ "' (master key " ++ keyId.getD "None" ++ ")"
  | .unknownKey keyId => unknownKeyMessage keyId

/-! ## Faults of requests and of storage -/

inductive Unsupported where
  | partialRead (target : Identity)
  | partialUpdate (target : Identity)
  | presignedLink
  | metadataUpdate
  | multipart
  | copyReplacingMetadata
  deriving DecidableEq

def Unsupported.message : Unsupported → String
  | .partialRead target => "Partial object reads are not supported: " ++ target.label
  | .partialUpdate target => "Partial object updates are not supported: " ++ target.label
  | .presignedLink => "Pre-signed URLs are not supported for encrypted objects"
  | .metadataUpdate => "Updating metadata of encrypted objects is not supported"
  | .multipart => "Multipart uploads are not supported for encrypted objects"
  | .copyReplacingMetadata =>
    "Copy requests that replace metadata are not supported; the envelope would be lost"

inductive StorageFault where
  | noSuchUpload (uploadId : String)
  | invalidPart (number : Int) (uploadId : String)
  | unsupportedRequest
  deriving DecidableEq

def StorageFault.message : StorageFault → String
  | .noSuchUpload uploadId => "No such upload: " ++ uploadId
  | .invalidPart number uploadId => s!"Invalid part {number} for upload {uploadId}"
  | .unsupportedRequest => "Unsupported request type: ObjectRequest"

/-! ## Faults of files and settings -/

inductive FileFault where
  | absent (path : RawText)
  | directory (path : RawText)
  | notDirectory (path : RawText)
  | nameTooLong (path : RawText)
  deriving DecidableEq

def FileFault.message : FileFault → String
  | .absent path => "[Errno 2] No such file or directory: " ++ path.quoted
  | .directory path => "[Errno 21] Is a directory: " ++ path.quoted
  | .notDirectory path => "[Errno 20] Not a directory: " ++ path.quoted
  | .nameTooLong path => "[Errno 36] File name too long: " ++ path.quoted

inductive ConfigFault where
  | keySize (bits : Int)
  | emptySuffix
  | notInteger (setting : String) (raw : RawText)
  | noKeyFiles
  | unreadableKeyFile (path : RawText) (cause : FileFault)
  | invalidKeyFile (path : RawText) (cause : KeyFault)
  | noCredentials
  deriving DecidableEq

def keyFilesSetting : String := "ENVELOPE_MASTER_KEY_FILES"

def ConfigFault.message : ConfigFault → String
  | .keySize bits => s!"Invalid AES key size: {bits}"
  | .emptySuffix => "Temp object suffix must not be empty"
  | .notInteger setting raw => setting ++ " must be an integer, got " ++ raw.quoted
  | .noKeyFiles => keyFilesSetting ++ " must name at least one PEM file"
  | .unreadableKeyFile path cause => "Cannot read master key file " ++ path.shown ++ ": " ++ cause.message
  | .invalidKeyFile path cause => "Invalid master key file " ++ path.shown ++ ": " ++ cause.message
  | .noCredentials => "Pre-signed URLs require an access key and secret key"

def ConfigFault.setting? : ConfigFault → Option String
  | .keySize _ => some "key_size"
  | .emptySuffix => some "temp_suffix"
  | .notInteger setting _ => some setting
  | .noKeyFiles | .unreadableKeyFile _ _ | .invalidKeyFile _ _ => some keyFilesSetting
  | .noCredentials => none

/-! ## Faults of single values -/

inductive ValueFault where
  | range (fault : ByteRange.Fault)
  | integer (fault : Integer.Fault)
  | permission (name : String)
  | nonceLength
  | tagTooShort
  | tagTooLong
  | notEncrypted
  | yearOutOfRange (year : Int)
  | embeddedNull
  | variableName
  | closedStream
  | passwordTooLong
  deriving DecidableEq

def ValueFault.message : ValueFault → String
  | .range fault => fault.message
  | .integer fault => fault.message
  | .permission name => Text.quoted name ++ " is not a valid Permission"
  | .nonceLength =>
    "initialization_vector must be between 8 and 128 bytes (64 and 1024 bits)."
  | .tagTooShort => "Authentication tag must be 16 bytes or longer."
  | .tagTooLong => "Authentication tag cannot be more than 16 bytes."
  | .notEncrypted => "Encryption failed"
  | .yearOutOfRange year => s!"year {year} is out of range"
  | .embeddedNull => "embedded null byte"
  | .variableName => "illegal environment variable name"
  | .closedStream => "I/O operation on closed file."
  | .passwordTooLong => "Passwords longer than 1023 bytes are not supported by this backend"

inductive OverflowFault where
  | integer
  | instant
  | date
  deriving DecidableEq

def OverflowFault.message : OverflowFault → String
  | .integer => "int too large to convert to float"
  | .instant => "timestamp out of range for platform time_t"
  | .date => "date value out of range"

def yearTooLarge : String := "[Errno 75] Value too large for defined data type"

/-! ## All errors -/

inductive DetourState where
  | started
  | written
  | published
  | cleanedUp
  deriving DecidableEq, Repr

def DetourState.name : DetourState → String
  | .started => "started"
  | .written => "written"
  | .published => "published"
  | .cleanedUp => "cleaned_up"

/-- An error with its cause. -/
inductive Error where
  | key (fault : KeyFault)
  | transform (fault : TransformFault)
  | unknownKey (keyId : String)
  | notEncrypted (target : Option Identity)
  | cannotUnwrap (obstacle : Obstacle)
  | alreadyCurrent (keyId : String)
  | unsupported (what : Unsupported)
  | notFound (target : Identity)
  | storage (fault : StorageFault)
  | checksum (actual etag : String)
  | orphanedTemp (target temp : Identity) (result : WriteResult) (cause : Error)
  | config (fault : ConfigFault)
  | value (fault : ValueFault)
  | base64 (fault : Base64.Fault)
  | unencodable (fault : RawText.Unencodable)
  | missingEntry (name : String)
  | unknownCurve (name : String)
  | badTag
  | io (text : String)
  | file (fault : FileFault)
  | outOfOrder (state next : DetourState)
  | overflow (fault : OverflowFault)
  deriving DecidableEq

/-- What a caller distinguishes. -/
inductive ErrorKind where
  | crypto | transform | keyNotFound | notEncrypted | cannotUnwrap | doesNotNeedRekey
  | partialRead | partialUpdate | presignedLink | metadataUpdate | multipart | copyReplacingMetadata
  | objectNotFound | storage | checksum | orphanedTemp | config
  | value | unencodable | base64 | missingEntry | unknownCurve | badTag
  | io | fileNotFound | isDirectory | notDirectory | outOfOrder | overflow
  deriving DecidableEq, Repr

def Unsupported.kind : Unsupported → ErrorKind
  | .partialRead _ => .partialRead
  | .partialUpdate _ => .partialUpdate
  | .presignedLink => .presignedLink
  | .metadataUpdate => .metadataUpdate
  | .multipart => .multipart
  | .copyReplacingMetadata => .copyReplacingMetadata

def FileFault.kind : FileFault → ErrorKind
  | .absent _ => .fileNotFound
  | .directory _ => .isDirectory
  | .notDirectory _ => .notDirectory
  | .nameTooLong _ => .io

def Error.kind : Error → ErrorKind
  | .key _ => .crypto
  | .transform _ => .transform
  | .unknownKey _ => .keyNotFound
  | .notEncrypted _ => .notEncrypted
  | .cannotUnwrap _ => .cannotUnwrap
  | .alreadyCurrent _ => .doesNotNeedRekey
  | .unsupported what => what.kind
  | .notFound _ => .objectNotFound
  | .storage _ => .storage
  | .checksum _ _ => .checksum
  | .orphanedTemp _ _ _ _ => .orphanedTemp
  | .config _ => .config
  | .value _ => .value
  | .base64 (.notAscii _ _ _) | .unencodable _ => .unencodable
  | .base64 _ => .base64
  | .missingEntry _ => .missingEntry
  | .unknownCurve _ => .unknownCurve
  | .badTag => .badTag
  | .io _ => .io
  | .file fault => fault.kind
  | .outOfOrder _ _ => .outOfOrder
  | .overflow _ => .overflow

def Error.message : Error → String
  | .key fault => fault.message
  | .transform fault => fault.message
  | .unknownKey keyId => unknownKeyMessage keyId
  | .notEncrypted none => "Object is not encrypted"
  | .notEncrypted (some target) => "Object is not encrypted: " ++ target.label
  | .cannotUnwrap obstacle => obstacle.message
  | .alreadyCurrent keyId => "Object key is already wrapped by master key " ++ keyId
  | .unsupported what => what.message
  | .notFound target => "Object not found: " ++ target.label
  | .storage fault => fault.message
  | .checksum actual etag => s!"Content MD5 {actual} does not match ETag {etag}"
  | .orphanedTemp target temp _ _ =>
    "Published " ++ target.label ++ " but could not delete temp object " ++ temp.label
  | .config fault => fault.message
  | .value fault => fault.message
  | .base64 fault => fault.message
  | .unencodable fault => fault.message
  | .missingEntry name => Text.quoted name
  | .unknownCurve name => "Curve " ++ name ++ " is not supported"
  | .badTag => ""
  | .io text => text
  | .file fault => fault.message
  | .outOfOrder state next => "Cannot move from " ++ state.name ++ " to " ++ next.name
  | .overflow fault => fault.message

def FieldFault.asError : FieldFault → Error
  | .base64 fault => .key (.notBase64 fault)
  | .integer fault => .value (.integer fault)

def KeyFault.cause : KeyFault → Option Error
  | .notBase64 fault => some (.base64 fault)
  | _ => none

def TransformFault.cause : TransformFault → Option Error
  | .missingField name => some (.missingEntry name)
  | .malformedField fault => some fault.asError
  | .notWrapped fault | .noDecryption fault | .notUnwrapped fault => some (.key fault)
  | .notRekeyed _ cause => some (.transform cause)
  | _ => none

def ConfigFault.cause : ConfigFault → Option Error
  | .unreadableKeyFile _ cause => some (.file cause)
  | .invalidKeyFile _ cause => some (.key cause)
  | _ => none

def Error.cause : Error → Option Error
  | .key fault => fault.cause
  | .transform fault => fault.cause
  | .cannotUnwrap (.unknownKey keyId) => some (.unknownKey keyId)
  | .orphanedTemp _ _ _ cause => some cause
  | .config fault => fault.cause
  | _ => none

end SealedStore
