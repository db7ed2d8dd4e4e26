import KeyWallet.CrashProgram

/-! The files and variables behind the FIDO device key: EF_KEY_DEV in its storage formats, the RAM
copy of an unlocked key, and the functions of fido.c and cbor_client_pin.c that convert between
them. Hashes and ciphers are taken as given. -/
namespace KeyWallet

open CrashProgram

abbrev Byte := BitVec 8
abbrev Bytes := List Byte

inductive Fid
  | efPin
  | efKeyDev
  | efKeyDevEnc
  | efMinPinLen
  | efPinComplexityPolicy
  | efAuthToken
  | efPAuthToken
  deriving DecidableEq, Repr

/-- A file with data. A write that is not longer than the old content happens in place, so the old
bytes behind the new end stay where they were: that is the slack. -/
structure Ef where
  bytes : Bytes
  slack : Bytes
  deriving DecidableEq, Repr

/-- `none` is a file whose data pointer is NULL. -/
abbrev Files := Fid → Option Ef

def fileBytes : Option Ef → Bytes
  | none => []
  | some ef => ef.bytes

def fileGetSize (f : Option Ef) : Nat := (fileBytes f).length

def fileHasData (f : Option Ef) : Bool := 0 < fileGetSize f

/-- What memory holds behind the end of a file, of a received byte string and of a stack buffer:
several reads do not stop there. -/
structure Beyond where
  flash : Nat → Byte
  heap : Nat → Byte
  stack : Nat → Byte

/-- `n` bytes from offset `i` of the file's data pointer. Nothing checks the size: behind the file
come its slack and then whatever the flash holds there. -/
def readRaw (past : Nat → Byte) (f : Option Ef) (i n : Nat) : Bytes :=
  match f with
  | none => []
  | some ef =>
    (List.range n).map fun j =>
      (ef.bytes ++ ef.slack).getD (i + j) (past (i + j - (ef.bytes ++ ef.slack).length))

/-- flash_write_data_to_file: in place when the new content fits the old size, else anew. -/
def fileWritten (old : Option Ef) (data : Bytes) : Option Ef :=
  match old with
  | none => some ⟨data, []⟩
  | some ef =>
    if data.length ≤ ef.bytes.length then some ⟨data, (ef.bytes ++ ef.slack).drop data.length⟩
    else some ⟨data, []⟩

/-- The device's primitives: hashes, ciphers, the key agreement, the random source and the fused
key, as functions. -/
structure Device where
  sha256 : Bytes → Bytes
  hashMulti : Bytes → Bytes
  doubleHashPin : Bytes → Bytes
  pinDeriveVerifier : Bytes → Bytes
  pinDeriveSession : Bytes → Bytes
  -- nonce, ciphertext and tag together
  encryptWithAad : (version : Nat) → (key msg nonce : Bytes) → Bytes
  decryptWithAad : (version : Nat) → (key data : Bytes) → Option Bytes
  -- AES-CBC under the key that derive_kbase gives
  kbaseEncrypt : Bytes → Bytes
  kbaseDecrypt : Bytes → Bytes
  otpKey1 : Option Bytes
  aesDecrypt : (key data : Bytes) → Bytes
  chachaEncrypt : (key msg nonce : Bytes) → Bytes
  chachaDecrypt : (key nonce ct tag : Bytes) → Option Bytes
  -- the key of a secure channel, and what it carries
  mseKey : (draw : Nat) → (kax kay : Bytes) → Option Bytes
  mseOpen : (channel data : Bytes) → Option Bytes
  ecdh : (hkey protocol : Nat) → (kax kay : Bytes) → Option Bytes
  hmac : (key data : Bytes) → Bytes
  decrypt : (protocol : Nat) → (secret data : Bytes) → Option Bytes
  random : (draw len : Nat) → Bytes

structure FidoVars where
  sessionPin : Bytes
  needsPowerCycle : Bool
  newPinMismatches : Byte
  keydevUnlocked : Bool
  hasKeydevDec : Bool
  keydevDec : Bytes
  -- the secure channel, when one is open
  mse : Option Bytes
  -- generation of the key agreement key, 0 before the first
  hkey : Nat
  -- how many random strings have been drawn
  drawn : Nat
  -- what the pinUvAuthToken and the persistent one may be used for
  permissions : Byte
  persistentPermissions : Byte
  deriving DecidableEq, Repr

/-- The static initialisers. -/
def FidoVars.atBoot : FidoVars where
  sessionPin := List.replicate 32 0
  needsPowerCycle := false
  newPinMismatches := 0
  keydevUnlocked := false
  hasKeydevDec := false
  keydevDec := List.replicate 32 0
  mse := none
  hkey := 0
  drawn := 0
  permissions := 0
  persistentPermissions := 0

inductive CtapErr
  | invalidParameter
  | missingParameter
  | processing
  | notAllowed
  | pinInvalid
  | pinBlocked
  | pinAuthInvalid
  | pinAuthBlocked
  | pinNotSet
  | pinPolicyViolation
  | unauthorizedPermission
  | integrityFailure
  | puatRequired
  deriving DecidableEq, Repr

/-- A candidate PIN was compared with the stored verifier. -/
inductive PinEvent
  | compared (correct : Bool)
  deriving DecidableEq, Repr

abbrev Fido := Prog Fid (Option Ef) FidoVars PinEvent CtapErr
abbrev FidoMachine := Machine Fid (Option Ef) FidoVars PinEvent

def readFile (k : Fid) : Fido (Option Ef) := consult fun _ files => files k

def readVars : Fido FidoVars := consult fun v _ => v

/-- file_put_data whose result the caller checks. -/
def filePutChecked (k : Fid) (data : Bytes) : Fido Bool := do
  let old ← readFile k
  putFile k (fileWritten old data)

/-- file_put_data whose result the caller ignores. -/
def filePutData (k : Fid) (data : Bytes) : Fido Unit := do
  let old ← readFile k
  writeFile k (fileWritten old data)

def flashCommit : Fido Unit := commitLater

def flashCommitSync : Fido Bool := commitSync

def randomFill (d : Device) (len : Nat) : Fido Bytes := do
  let v ← readVars
  setting fun v => { v with drawn := v.drawn + 1 }
  pure (d.random v.drawn len)

def encryptWithAad (d : Device) (key msg : Bytes) (version : Nat) : Fido Bytes := do
  let nonce ← randomFill d 12
  pure (d.encryptWithAad version key msg nonce)

/-- The PIN-wrapped part of load_keydev: formats 0x02 and 0x03. -/
def loadWrapped (d : Device) (payload : Bytes) (format : Byte) : Fido (Option Bytes) := do
  let v ← readVars
  match d.decryptWithAad (if format = 3 then 2 else 1) v.sessionPin payload with
  | none => pure none
  | some key =>
    -- a key wrapped the first way is wrapped the second way as soon as it is read
    if format = 2 then
      let sealed ← encryptWithAad d v.sessionPin key 2
      filePutData .efKeyDev (3 :: sealed)
      flashCommit
    setting fun v => { v with keydevUnlocked := true }
    pure (some (d.kbaseDecrypt key))

/-- The key in an untagged file, which is encrypted when a key is fused. -/
def rawKey (d : Device) (data : Bytes) : Bytes :=
  match d.otpKey1 with
  | none => data
  | some otp => d.aesDecrypt otp data

/-- load_keydev into a buffer that holds `key`; `none` is an error code. -/
def loadKeydev (d : Device) (b : Beyond) (key : Bytes) : Fido (Option Bytes) := do
  let v ← readVars
  let ef ← readFile .efKeyDev
  if v.hasKeydevDec = false ∧ fileHasData ef = false then
    pure none
  else if v.hasKeydevDec then
    pure (some v.keydevDec)
  else if fileGetSize ef = 32 then
    pure (some (rawKey d (readRaw b.flash ef 0 32)))
  else if fileGetSize ef = 33 ∨ fileGetSize ef = 61 then
    let format := (fileBytes ef).headD 0
    if format = 2 ∨ format = 3 then
      loadWrapped d (readRaw b.flash ef 1 60) format
    else if format = 1 then
      pure (some (d.kbaseDecrypt (readRaw b.flash ef 1 32)))
    else
      -- an unknown format leaves the caller's buffer as it is
      pure (some key)
  else
    pure (some key)

def encryptKeydevF1 (d : Device) (keydev : Bytes) : Fido Unit := do
  filePutData .efKeyDev (1 :: d.kbaseEncrypt keydev)
  flashCommit

/-- Only the first byte is looked at, and 32 bytes behind it are taken whatever the size is. -/
def checkKeydevEncrypted (d : Device) (b : Beyond) (pinToken : Bytes) : Fido Unit := do
  let ef ← readFile .efKeyDev
  if readRaw b.flash ef 0 1 = [1] then
    let sealed ← encryptWithAad d pinToken (readRaw b.flash ef 1 32) 2
    filePutData .efKeyDev (3 :: sealed)
    flashCommit
    setting fun v => { v with keydevUnlocked := true }

/-- scan_files_fido, as far as the device key goes: a key is generated when there is none. -/
def scanFilesFido (d : Device) (generated : Bytes) : Fido Unit := do
  let ef ← readFile .efKeyDev
  let enc ← readFile .efKeyDevEnc
  if fileHasData ef = false ∧ fileHasData enc = false then
    encryptKeydevF1 d generated
  flashCommit

def initFido (d : Device) (generated : Bytes) : Fido Unit := do
  setting fun v => { v with keydevUnlocked := false }
  scanFilesFido d generated
  setting fun v => { v with needsPowerCycle := false }

end KeyWallet
