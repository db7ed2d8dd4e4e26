import KeyWallet.KeyDevice

/-! The clientPIN subcommands of cbor_client_pin.c that touch the PIN: setPIN, changePIN and
getPinToken, from the parsed request on. -/
namespace KeyWallet

open CrashProgram

def maxPinRetries : Byte := 8
def pinRetryCountMask : Byte := 0x7f
def pinRetryPowerCycle : Byte := 0x80
def pinLegacyDataLen : Nat := 34
def pinDataLen : Nat := 35
def ivSize : Nat := 16

def permissionMc : Nat := 0x01
def permissionGa : Nat := 0x02
def permissionBe : Nat := 0x08
def permissionAcfg : Nat := 0x20
def permissionPcmr : Nat := 0x40

/-- The retry count in the first byte of EF_PIN. -/
def retryCount (b : Byte) : Nat := (b &&& pinRetryCountMask).toNat

/-- The soft-lock marker in the same byte. -/
def retryLocked (b : Byte) : Bool := b &&& pinRetryPowerCycle ≠ 0

def retryDecremented (b : Byte) : Byte :=
  (b &&& pinRetryPowerCycle) ||| ((b &&& pinRetryCountMask) - 1)

/-- The fields of a clientPIN request that the three subcommands read. -/
structure PinRequest where
  pinUvAuthProtocol : Nat
  kax : Option Bytes
  kay : Option Bytes
  alg : Int
  pinUvAuthParam : Option Bytes
  newPinEnc : Option Bytes
  pinHashEnc : Option Bytes
  permissions : Nat
  rpId : Option Bytes
  deriving DecidableEq, Repr

/-- verify: an HMAC of which protocol 1 compares 16 bytes and protocol 2 all 32. -/
def verifyMac (d : Device) (b : Beyond) (protocol : Nat) (key data sign : Bytes) : Bool :=
  if protocol = 1 then readRaw b.heap (some ⟨sign, []⟩) 0 16 = (d.hmac key data).take 16
  else if protocol = 2 then readRaw b.heap (some ⟨sign, []⟩) 0 32 = (d.hmac key data).take 32
  else false

/-- The shared secret of the request, or the error for a point that cannot be used. -/
def sharedSecret (d : Device) (v : FidoVars) (req : PinRequest) : Except CtapErr Bytes :=
  match d.ecdh v.hkey req.pinUvAuthProtocol (req.kax.getD []) (req.kay.getD []) with
  | some secret => .ok secret
  | none => .error .invalidParameter

/-- The length checks on newPinEnc that setPIN and changePIN share. -/
def newPinEncFits (protocol len : Nat) : Bool :=
  (protocol = 1 ∧ 64 ≤ len ∧ len % 16 = 0) ∨
    (protocol = 2 ∧ 64 + ivSize ≤ len ∧ (len - ivSize) % 16 = 0)

def newPinPlainLen (protocol len : Nat) : Nat := if protocol = 1 then len else len - ivSize

/-- Bytes up to the first zero. -/
def pinBytes (padded : Bytes) : Bytes := padded.takeWhile (· ≠ 0)

def pinCodepointLen (pin : Bytes) : Nat := (pin.filter fun b => b &&& 0xC0 ≠ 0x80).length

/-- minpin_read_length; `none` is a read error. -/
def minpinReadLength : Option Ef → Option Nat
  | none => some 4
  | some ef => ef.bytes.head?.map BitVec.toNat

def minpinRecordHasHeader (f : Option Ef) : Bool := fileHasData f && 2 ≤ fileGetSize f

def minpinForceChangePending : Option Ef → Bool
  | none => false
  | some ef =>
    match ef.bytes[1]? with
    | none => true
    | some pending => pending ≠ 0

/-- Which of the four character classes a PIN has. -/
structure PinClasses where
  upper : Bool
  lower : Bool
  digit : Bool
  symbol : Bool
  deriving DecidableEq, Repr

def PinClasses.add (cs : PinClasses) (b : Byte) : PinClasses :=
  if 0x41 ≤ b ∧ b ≤ 0x5A then { cs with upper := true }
  else if 0x61 ≤ b ∧ b ≤ 0x7A then { cs with lower := true }
  else if 0x30 ≤ b ∧ b ≤ 0x39 then { cs with digit := true }
  else { cs with symbol := true }

def pinPolicyPass (b : Beyond) (policyFile : Option Ef) (pin : Bytes) : Bool :=
  if fileHasData policyFile = false then true
  else
    let policy := readRaw b.flash policyFile 0 2
    let low := policy.getD 1 0
    let cs := pin.foldl PinClasses.add ⟨false, false, false, false⟩
    -- all four policy bits sit in the low byte of the big-endian word
    (low &&& 1 = 0 || cs.upper) && (low &&& 2 = 0 || cs.lower) &&
      (low &&& 4 = 0 || cs.digit) && (low &&& 8 = 0 || cs.symbol)

/-- The checks on a decrypted new PIN. On success its bytes. -/
def checkNewPin (b : Beyond) (files : Files) (plainLen : Nat) (padded : Bytes) :
    Except CtapErr Bytes :=
  if 64 < plainLen ∨ padded.getD 63 0 ≠ 0 then .error .pinPolicyViolation
  else
    match minpinReadLength (files .efMinPinLen) with
    | none => .error .processing
    | some minPin =>
      if pinCodepointLen (pinBytes padded) < minPin then .error .pinPolicyViolation
      else if pinPolicyPass b (files .efPinComplexityPolicy) (pinBytes padded) = false then
        .error .pinPolicyViolation
      else .ok (pinBytes padded)

/-- The first 16 bytes of a SHA-256, which is what the platform sends of a PIN. -/
def pinHash (d : Device) (pin : Bytes) : Bytes := (d.sha256 pin).take 16

/-- load_pin_data: the 35-byte buffer and the stored length. -/
def loadPinData (ef : Option Ef) : Option (Bytes × Nat) :=
  if fileGetSize ef = pinLegacyDataLen ∨ fileGetSize ef = pinDataLen then
    some (fileBytes ef ++ List.replicate (pinDataLen - fileGetSize ef) 0, fileGetSize ef)
  else none

/-- What the stored file says a candidate must hash to. -/
def pinVerifies (d : Device) (pinData : Bytes) (len : Nat) (candidate : Bytes) : Bool :=
  if len = pinLegacyDataLen then d.doubleHashPin candidate = (pinData.drop 2).take 32
  else d.pinDeriveVerifier candidate = (pinData.drop 3).take 32

def persistPinRetryCounter (pinData : Bytes) (len : Nat) : Fido Bool := do
  let put ← filePutChecked .efPin (pinData.take len)
  if put = false then
    pure false
  else
    let committed ← flashCommitSync
    let ef ← readFile .efPin
    if committed = false ∨ fileGetSize ef ≠ len then pure false
    else pure ((fileBytes ef).headD 0 = pinData.headD 0)

def regenerate : Fido Unit := setting fun v => { v with hkey := v.hkey + 1 }

/-- The token of this file loses its permissions. -/
def withdrawn (fid : Fid) (v : FidoVars) : FidoVars :=
  { v with
    permissions := if fid = .efPAuthToken then v.permissions else 0
    persistentPermissions := if fid = .efPAuthToken then 0 else v.persistentPermissions }

/-- resetPinUvAuthToken and resetPersistentPinUvAuthToken. -/
def resetAuthToken (d : Device) (fid : Fid) : Fido Unit := do
  let t ← randomFill d 32
  filePutData fid t
  flashCommit
  setting (withdrawn fid)

/-- The exit after a candidate that did not verify. -/
def pinMismatch (d : Device) (pinData : Bytes) (len : Nat) : Fido Unit := do
  regenerate
  resetAuthToken d .efAuthToken
  if retryCount (pinData.headD 0) = 0 then
    Prog.fail .pinBlocked
  else if retryLocked (pinData.headD 0) then
    setting fun v => { v with needsPowerCycle := true }
    Prog.fail .pinAuthBlocked
  else
    setting fun v => { v with newPinMismatches := v.newPinMismatches + 1 }
    let v ← readVars
    if v.newPinMismatches < 3 then
      Prog.fail .pinInvalid
    else
      let marked := pinData.set 0 (pinData.headD 0 ||| pinRetryPowerCycle)
      let stored ← persistPinRetryCounter marked len
      if stored = false then
        Prog.fail .processing
      else
        setting fun v => { v with needsPowerCycle := true }
        Prog.fail .pinAuthBlocked

/-- From load_pin_data to the durable decrement, which changePIN and getPinToken repeat word for
word. On success the buffer and the stored length. -/
def spendRetry : Fido (Bytes × Nat) := do
  let ef ← readFile .efPin
  match loadPinData ef with
  | none => Prog.fail .processing
  | some (loaded, len) =>
    if retryCount (loaded.headD 0) = 0 then
      Prog.fail .pinBlocked
    else
      let pinData := loaded.set 0 (retryDecremented (loaded.headD 0))
      let stored ← persistPinRetryCounter pinData len
      if stored = false then
        Prog.fail .processing
      else
        pure (pinData, len)

/-- From the decryption of pinHashEnc to the end of the comparison, common to the two as well. On
success the candidate. -/
def judgeCandidate (d : Device) (b : Beyond) (protocol : Nat) (secret hashEnc pinData : Bytes)
    (len : Nat) : Fido Bytes :=
  match d.decrypt protocol secret hashEnc with
  | none => Prog.fail .pinAuthInvalid
  | some plain => do
    let candidate := readRaw b.stack (some ⟨plain, []⟩) 0 16
    event (.compared (pinVerifies d pinData len candidate))
    if pinVerifies d pinData len candidate = false then
      pinMismatch d pinData len
    let v ← readVars
    if v.needsPowerCycle then
      Prog.fail .pinAuthBlocked
    else
      pure candidate

/-- The buffer with the verifier of `candidate` in the new format. -/
def pinDataFor (d : Device) (pinData candidate : Bytes) : Bytes :=
  (pinData.take 2 ++ [1]) ++ d.pinDeriveVerifier candidate

def setSession (key : Bytes) : Fido Unit := setting fun v => { v with sessionPin := key }

/-- The upgrade of a 34-byte PIN file: the device key is brought back to format 0x01. Returns the
buffer and the key buffer. -/
def upgradeLegacy (d : Device) (b : Beyond) (pinData : Bytes) (len : Nat)
    (candidate keydev : Bytes) : Fido (Bytes × Bytes) :=
  if len = pinLegacyDataLen then do
    setSession (d.hashMulti candidate)
    let loaded ← loadKeydev d b keydev
    match loaded with
    | none => Prog.fail .pinInvalid
    | some key =>
      encryptKeydevF1 d key
      pure (pinDataFor d pinData candidate, key)
  else
    pure (pinData, keydev)

/-- The checks of setPIN before anything is decrypted; the secret and newPinEnc. -/
def setPinGuards (d : Device) (b : Beyond) (req : PinRequest) (v : FidoVars)
    (files : Files) : Except CtapErr (Bytes × Bytes) :=
  match req.kax, req.kay, req.newPinEnc, req.pinUvAuthParam with
  | some _, some _, some newPinEnc, some param =>
    if req.alg = 0 then .error .missingParameter
    else if fileHasData (files .efPin) then .error .notAllowed
    else if newPinEncFits req.pinUvAuthProtocol newPinEnc.length = false then
      .error .invalidParameter
    else do
      let secret ← sharedSecret d v req
      if verifyMac d b req.pinUvAuthProtocol secret newPinEnc param = false then
        .error .pinAuthInvalid
      else if 256 + ivSize < newPinPlainLen req.pinUvAuthProtocol newPinEnc.length then
        .error .invalidParameter
      else .ok (secret, newPinEnc)
  | _, _, _, _ => .error .missingParameter

theorem guard_ok {ε α : Type} {c : Prop} [Decidable c] {e : ε} {x : Except ε α} {a : α}
    (h : (if c then .error e else x) = .ok a) : ¬ c ∧ x = .ok a := by
  by_cases hc : c
  · rw [if_pos hc] at h
    cases h
  · rw [if_neg hc] at h
    exact ⟨hc, h⟩

theorem guard_bind {ε α β : Type} {c : Prop} [Decidable c] {e : ε} {x : Except ε α} {f : α → Except ε β} :
    (if c then .error e else x) >>= f = if c then .error e else x >>= f := by
  by_cases hc : c
  · rw [if_pos hc, if_pos hc]
    rfl
  · rw [if_neg hc, if_neg hc]

/-- setPIN from the decryption of the new PIN on. -/
def setAccepted (d : Device) (b : Beyond) (req : PinRequest) (secret newPinEnc : Bytes) :
    Fido Unit :=
  match d.decrypt req.pinUvAuthProtocol secret newPinEnc with
  | none => Prog.fail .pinAuthInvalid
  | some padded => do
    let plainLen := newPinPlainLen req.pinUvAuthProtocol newPinEnc.length
    let checked ← consult fun _ files => checkNewPin b files plainLen padded
    let pin ← liftCheck checked
    let hash := pinHash d pin
    filePutData .efPin (maxPinRetries :: BitVec.ofNat 8 (pinCodepointLen pin) :: 1 ::
      d.pinDeriveVerifier hash)
    flashCommit
    setSession (d.pinDeriveSession hash)
    checkKeydevEncrypted d b (d.pinDeriveSession hash)
    setting fun v => { v with newPinMismatches := 0, needsPowerCycle := false }

def setPin (d : Device) (b : Beyond) (req : PinRequest) : Fido Unit := do
  let guards ← consult (setPinGuards d b req)
  let (secret, newPinEnc) ← liftCheck guards
  setAccepted d b req secret newPinEnc

/-- The checks of changePIN before the retry counter is touched; the secret, newPinEnc and
pinHashEnc. -/
def changePinGuards (d : Device) (b : Beyond) (req : PinRequest) (v : FidoVars)
    (files : Files) : Except CtapErr (Bytes × Bytes × Bytes) :=
  match req.kax, req.kay, req.newPinEnc, req.pinUvAuthParam, req.pinHashEnc with
  | some _, some _, some newPinEnc, some param, some pinHashEnc =>
    if req.alg = 0 then .error .missingParameter
    else if fileHasData (files .efPin) = false then .error .pinNotSet
    else if retryCount ((fileBytes (files .efPin)).headD 0) = 0 then .error .pinBlocked
    else if v.needsPowerCycle then .error .pinAuthBlocked
    else if newPinEncFits req.pinUvAuthProtocol newPinEnc.length = false ∨
        (req.pinUvAuthProtocol = 1 ∧ pinHashEnc.length ≠ 16) ∨
        (req.pinUvAuthProtocol = 2 ∧ pinHashEnc.length ≠ 16 + ivSize) then
      .error .invalidParameter
    else if (req.pinUvAuthProtocol = 1 ∧ 256 < newPinEnc.length) ∨
        (req.pinUvAuthProtocol = 2 ∧ 256 + ivSize < newPinEnc.length) then
      .error .invalidParameter
    else do
      let secret ← sharedSecret d v req
      if verifyMac d b req.pinUvAuthProtocol secret (newPinEnc ++ pinHashEnc) param = false then
        .error .pinAuthInvalid
      else .ok (secret, newPinEnc, pinHashEnc)
  | _, _, _, _, _ => .error .missingParameter

/-- The old PIN has verified: its file is written back, then the device key is wrapped under it. -/
def storeOldPin (d : Device) (b : Beyond) (pinData candidate : Bytes) : Fido Unit := do
  setSession (d.pinDeriveSession candidate)
  filePutData .efPin (pinData.set 0 maxPinRetries)
  flashCommit
  checkKeydevEncrypted d b (d.pinDeriveSession candidate)
  setting fun v => { v with newPinMismatches := 0 }

/-- Everything up to the new PIN. Returns the key buffer. -/
def acceptOldPin (d : Device) (b : Beyond) (pinData : Bytes) (len : Nat) (candidate : Bytes) :
    Fido Bytes := do
  let (pinData, keydev) ← upgradeLegacy d b pinData len candidate (List.replicate 32 0)
  storeOldPin d b pinData candidate
  pure keydev

/-- The new PIN as changePIN decrypts and checks it. -/
def changeNewPin (d : Device) (b : Beyond) (req : PinRequest) (secret newPinEnc : Bytes)
    (files : Files) : Except CtapErr Bytes :=
  -- newPinEnc is at most 256 bytes long here, so the second length check of the source is idle
  match d.decrypt req.pinUvAuthProtocol secret newPinEnc with
  | none => .error .pinAuthInvalid
  | some padded =>
    checkNewPin b files (newPinPlainLen req.pinUvAuthProtocol newPinEnc.length) padded

/-- The device key moves from the old PIN to the new one. -/
def rewrapKeydev (d : Device) (b : Beyond) (keydev hash : Bytes) : Fido Unit := do
  let loaded ← loadKeydev d b keydev
  match loaded with
  | none => Prog.fail .pinInvalid
  | some key =>
    encryptKeydevF1 d key
    setSession (d.pinDeriveSession hash)
    checkKeydevEncrypted d b (d.pinDeriveSession hash)

/-- The forced-change marker is cleared in the minimum-PIN record. -/
def clearForceChange : Fido Unit := do
  let ef ← readFile .efMinPinLen
  if minpinRecordHasHeader ef ∧ (fileBytes ef).getD 1 0 = 1 then
    filePutData .efMinPinLen ((fileBytes ef).set 1 0)

/-- What follows the write of the new verifier: the old tokens end with the old PIN. -/
def finishNewPin (d : Device) : Fido Unit := do
  clearForceChange
  flashCommit
  resetAuthToken d .efAuthToken
  resetAuthToken d .efPAuthToken
  setting fun v => { v with needsPowerCycle := false }

/-- The verifier moves to the new PIN, only now. -/
def storeNewPin (d : Device) (pin : Bytes) : Fido Unit := do
  let pinData := maxPinRetries :: BitVec.ofNat 8 (pinCodepointLen pin) :: 1 ::
    d.pinDeriveVerifier (pinHash d pin)
  let minpin ← readFile .efMinPinLen
  let ef ← readFile .efPin
  if minpinRecordHasHeader minpin ∧ (fileBytes minpin).getD 1 0 = 1 ∧
      (pinData.drop 3).take 32 = ((fileBytes ef).drop 3).take 32 then
    Prog.fail .pinPolicyViolation
  else
    filePutData .efPin pinData
    finishNewPin d

/-- changePIN from the accepted old PIN on. -/
def changeAccepted (d : Device) (b : Beyond) (req : PinRequest)
    (secret newPinEnc pinData : Bytes) (len : Nat) (candidate : Bytes) : Fido Unit := do
  let keydev ← acceptOldPin d b pinData len candidate
  let checked ← consult fun _ files => changeNewPin d b req secret newPinEnc files
  let pin ← liftCheck checked
  rewrapKeydev d b keydev (pinHash d pin)
  flashCommit
  storeNewPin d pin

def changePin (d : Device) (b : Beyond) (req : PinRequest) : Fido Unit := do
  let guards ← consult (changePinGuards d b req)
  let (secret, newPinEnc, pinHashEnc) ← liftCheck guards
  let (pinData, len) ← spendRetry
  let candidate ← judgeCandidate d b req.pinUvAuthProtocol secret pinHashEnc pinData len
  changeAccepted d b req secret newPinEnc pinData len candidate

/-- The checks of getPinToken before the retry counter; the secret and pinHashEnc. Unlike changePIN
this does not ask for needs_power_cycle. -/
def getPinTokenGuards (d : Device) (withPermissions : Bool) (req : PinRequest) (v : FidoVars)
    (files : Files) : Except CtapErr (Bytes × Bytes) :=
  match req.kax, req.kay, req.pinHashEnc with
  | some _, some _, some pinHashEnc =>
    if req.alg = 0 then .error .missingParameter
    else if withPermissions = false ∧ (req.permissions ≠ 0 ∨ req.rpId.isSome) then
      .error .invalidParameter
    else if withPermissions ∧ req.permissions = 0 then .error .invalidParameter
    else if withPermissions ∧ req.permissions &&& permissionBe ≠ 0 then
      .error .unauthorizedPermission
    else if withPermissions ∧ req.permissions &&& permissionPcmr ≠ 0 ∧
        req.permissions ≠ permissionPcmr then
      .error .unauthorizedPermission
    else if fileHasData (files .efPin) = false then .error .pinNotSet
    else if retryCount ((fileBytes (files .efPin)).headD 0) = 0 then .error .pinBlocked
    else do
      let secret ← sharedSecret d v req
      .ok (secret, pinHashEnc)
  | _, _, _ => .error .missingParameter

/-- The verified PIN's file is written back and the device key wrapped, in this order. -/
def acceptTokenPin (d : Device) (b : Beyond) (pinData : Bytes) (len : Nat)
    (candidate : Bytes) : Fido Unit := do
  let (pinData, _) ← upgradeLegacy d b pinData len candidate (List.replicate 32 0)
  setSession (d.pinDeriveSession candidate)
  checkKeydevEncrypted d b (d.pinDeriveSession candidate)
  setting fun v => { v with newPinMismatches := 0 }
  filePutData .efPin (pinData.set 0 maxPinRetries)
  flashCommit

/-- getPinToken without permissions grants these two. -/
def grantedPermissions (withPermissions : Bool) (req : PinRequest) : Byte :=
  BitVec.ofNat 8 (if withPermissions then req.permissions else permissionMc ||| permissionGa)

/-- A persistent token keeps its data; any other token is drawn anew. -/
def issueToken (d : Device) (withPermissions : Bool) (req : PinRequest) : Fido Unit :=
  if req.permissions &&& permissionPcmr = 0 then do
    resetAuthToken d .efAuthToken
    setting fun v => { v with permissions := grantedPermissions withPermissions req }
  else
    setting fun v => { v with persistentPermissions := BitVec.ofNat 8 permissionPcmr }

/-- getPinToken from the accepted PIN on. -/
def tokenAccepted (d : Device) (b : Beyond) (withPermissions : Bool) (req : PinRequest)
    (pinData : Bytes) (len : Nat) (candidate : Bytes) : Fido Unit := do
  acceptTokenPin d b pinData len candidate
  let minpin ← readFile .efMinPinLen
  if minpinForceChangePending minpin then
    if withPermissions ∧ req.permissions = permissionAcfg ∧ req.rpId.isNone then
      Prog.fail .pinPolicyViolation
    else
      Prog.fail .pinInvalid
  else
    issueToken d withPermissions req
    setting fun v => { v with needsPowerCycle := false }

def getPinToken (d : Device) (b : Beyond) (withPermissions : Bool) (req : PinRequest) :
    Fido Unit := do
  let guards ← consult (getPinTokenGuards d withPermissions req)
  let (secret, pinHashEnc) ← liftCheck guards
  let (pinData, len) ← spendRetry
  let candidate ← judgeCandidate d b req.pinUvAuthProtocol secret pinHashEnc pinData len
  tokenAccepted d b withPermissions req pinData len candidate

inductive PinCommand
  | setPin (req : PinRequest)
  | changePin (req : PinRequest)
  | getPinToken (withPermissions : Bool) (req : PinRequest)
  deriving DecidableEq, Repr

def PinCommand.request : PinCommand → PinRequest
  | .setPin req => req
  | .changePin req => req
  | .getPinToken _ req => req

/-- initialize: the key agreement key exists from the first clientPIN request on. -/
def initializeHkey (d : Device) : Fido Unit := do
  let v ← readVars
  if v.hkey = 0 then
    regenerate
    resetAuthToken d .efAuthToken

/-- cbor_client_pin for these subcommands. -/
def cborClientPin (d : Device) (b : Beyond) (cmd : PinCommand) : Fido Unit := do
  initializeHkey d
  if cmd.request.pinUvAuthProtocol ≠ 1 ∧ cmd.request.pinUvAuthProtocol ≠ 2 then
    Prog.fail .invalidParameter
  else
    match cmd with
    | .setPin req => setPin d b req
    | .changePin req => changePin d b req
    | .getPinToken withPermissions req => getPinToken d b withPermissions req

end KeyWallet
