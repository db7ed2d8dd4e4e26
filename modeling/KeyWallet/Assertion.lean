import KeyWallet.CredMgmt
import KeyWallet.ExchangeSort

/-! authenticatorGetAssertion and authenticatorGetNextAssertion, cbor_get_assertion.c, from the
request as it was parsed. Hashes, ciphers, signatures and the CBOR of the extension outputs are
parameters; keys are named by their group and their secret. -/
namespace KeyWallet

namespace Cred

namespace Assert

def maxCredentialCountInList : Nat := 16

/-- CTAP_PERMISSION_GA and CTAP_PERMISSION_LBW. -/
def permissionGa : BitVec 8 := 0x02

def permissionLbw : BitVec 8 := 0x10

/-- FIDO2_AUT_FLAG_UP, FIDO2_AUT_FLAG_UV and FIDO2_AUT_FLAG_ED. -/
def flagUp : BitVec 8 := 0x01

def flagUv : BitVec 8 := 0x04

def flagEd : BitVec 8 := 0x80

/-- CRED_PROT_UV_OPTIONAL_WITH_LIST and CRED_PROT_UV_REQUIRED. -/
def uvOptionalWithList : Nat := 2

def uvRequired : Nat := 3

inductive Status where
  | missingParameter
  | invalidParameter
  | invalidLen
  | invalidOption
  | unsupportedOption
  | pinNotSet
  | pinAuthInvalid
  | operationDenied
  | noCredentials
  | notAllowed
  | processing
  | other
  deriving DecidableEq, Repr

/-- An entry of allowList; of the type, whether it is "public-key". -/
structure Descriptor where
  id : Option Data
  isPublicKey : Option Bool
  deriving DecidableEq, Repr

structure Options where
  rk : Option Bool := none
  up : Option Bool := none
  uv : Option Bool := none
  deriving DecidableEq, Repr

/-- The input of hmac-secret: the key of the platform and the salts. -/
structure HmacInput where
  kax : Option Data := none
  kay : Option Data := none
  crv : Int := 0
  alg : Int := 0
  saltEnc : Option Data := none
  saltAuth : Option Data := none
  protocol : Nat := 1
  deriving DecidableEq, Repr

structure Extensions where
  hmacSecret : Option HmacInput := none
  credBlob : Option Bool := none
  largeBlobKey : Option Bool := none
  thirdPartyPayment : Option Bool := none
  deriving DecidableEq, Repr

structure Request where
  rpId : Option Data := none
  clientDataHash : Option Data := none
  allowList : List Descriptor := []
  extensions : Option Extensions := none
  options : Option Options := none
  pinUvAuthParam : Option Data := none
  pinUvAuthProtocol : Option Nat := none
  deriving DecidableEq, Repr

namespace Request

variable (req : Request)

def up : Option Bool := req.options.bind (·.up)

def hmacSecret : Option HmacInput := req.extensions.bind (·.hmacSecret)

def largeBlobKey : Option Bool := req.extensions.bind (·.largeBlobKey)

def asks : Bool := req.up ≠ some false

end Request

/-- The curves of mbedTLS. -/
inductive Group where
  | secp256r1
  | secp384r1
  | secp521r1
  | secp256k1
  | curve25519
  | curve448
  | ed25519
  | ed448
  | bp256r1
  | bp384r1
  | bp512r1
  deriving DecidableEq, Repr

structure Key where
  group : Group
  secret : Data
  deriving DecidableEq, Repr

inductive Digest where
  | sha256
  | sha384
  | sha512
  deriving DecidableEq, Repr

def fidoCurveToMbedtls (curve : Int) : Option Group :=
  if curve = 1 then some .secp256r1
  else if curve = 2 then some .secp384r1
  else if curve = 3 then some .secp521r1
  else if curve = 8 then some .secp256k1
  else if curve = 4 then some .curve25519
  else if curve = 5 then some .curve448
  else if curve = 6 then some .ed25519
  else if curve = 7 then some .ed448
  else if curve = 9 then some .bp256r1
  else if curve = 10 then some .bp384r1
  else if curve = 11 then some .bp512r1
  else none

/-- The extension outputs of a response. -/
structure ExtOutputs where
  credBlob : Option Data := none
  hmacSecret : Option Data := none
  thirdPartyPayment : Option Bool := none
  deriving DecidableEq, Repr

structure Crypto where
  sha256 : Data → Data
  verify : (protocol : Nat) → (key message param : Data) → Bool
  -- credential_silent_tag, of the record without its last 16 bytes
  silentTag : (record rpIdHash : Data) → Data
  -- derive_key over the path that fido_load_key makes of the seed
  derive : Group → (seed : Data) → Option Data
  -- derive_key over the seed itself, for the RP and on secp256r1
  deriveU2f : (rpIdHash seed : Data) → Option Data
  -- mbedtls_ecp_read_key and the public key
  readKey : Group → (privateKey : Data) → Option Data
  hash : Digest → Data → Data
  ecdsa : Key → Digest → (hash : Data) → Option Data
  eddsa : Key → (message : Data) → Option Data
  largeBlobKey : (seed : Data) → Option Data
  encodeExt : ExtOutputs → Data
  -- hmac-secret
  ecdh : (protocol : Nat) → (kax kay : Data) → Option Data
  verifyHmacSecret : (protocol : Nat) → (secret saltEnc saltAuth : Data) → Bool
  decrypt : (protocol : Nat) → (secret data : Data) → Option Data
  encrypt : (protocol : Nat) → (secret data : Data) → Data
  hmacKey : (seed : Data) → Option Data
  hmac : (key data : Data) → Data

/-- The pinUvAuthToken with its flags. -/
structure PinState where
  paut : Mgmt.AuthToken
  inUse : Bool
  userPresent : Bool
  userVerified : Bool
  deriving DecidableEq, Repr

/-- What a call reads besides the request. `present` is what check_user_presence gives if it is asked,
`cid` the channel in the receive buffer. -/
structure Setting where
  crypto : Crypto
  device : Device
  storage : Storage
  pin : PinState
  pinSet : Bool
  present : Bool
  now : BitVec 32
  cid : BitVec 32
  counter : BitVec 32

structure User where
  id : Option Data
  name : Option Data := none
  displayName : Option Data := none
  deriving DecidableEq, Repr

/-- A response. The flags and the counter stand in authData. -/
structure Body where
  id : Data
  authData : Data
  signature : Data
  user : Option User
  numberOfCredentials : Option Nat
  largeBlobKey : Option Data
  deriving DecidableEq, Repr

/-! The checks before the credentials are looked for. -/

section Checks

variable (e : Setting) (req : Request)

/-- getUserPresentFlagValue. -/
def PinState.presentFlag (p : PinState) : Bool := p.inUse && p.userPresent

/-- getUserVerifiedFlagValue. -/
def PinState.verifiedFlag (p : PinState) : Bool := p.inUse && p.userVerified

/-- clearUserPresentFlag, clearUserVerifiedFlag and clearPinUvAuthTokenPermissionsExceptLbw. -/
def PinState.used (p : PinState) : PinState :=
  if p.inUse then
    { p with userPresent := false, userVerified := false, paut.permissions := permissionLbw }
  else p

def rpIdHash : Data := e.crypto.sha256 (req.rpId.getD [])

/-- The checks of the parameters that come first, on every call. -/
def precheck : Option Status :=
  if req.rpId = none ∨ req.clientDataHash = none then some .missingParameter
  else if req.pinUvAuthProtocol.any fun p => p ≠ 1 ∧ p ≠ 2 then some .invalidParameter
  else none

/-- An empty pinUvAuthParam asks for presence and then fails. -/
def checkParam : Option Status :=
  match req.pinUvAuthParam with
  | none => none
  | some [] =>
    if e.present = false then some .operationDenied
    else if e.pinSet then some .pinAuthInvalid else some .pinNotSet
  | some (_ :: _) => if req.pinUvAuthProtocol = none then some .missingParameter else none

def checkOptions : Option Status :=
  match req.options with
  | none => none
  | some o =>
    if o.uv = some true then some .invalidOption
    else if o.rk ≠ none then some .unsupportedOption
    else none

def tokenVerifies : Bool :=
  e.crypto.verify (req.pinUvAuthProtocol.getD 0) e.pin.paut.data (req.clientDataHash.getD [])
      (req.pinUvAuthParam.getD []) &&
    e.pin.verifiedFlag && decide (e.pin.paut.permissions &&& permissionGa ≠ 0) &&
    !(e.pin.paut.hasRpId && decide (e.pin.paut.rpIdHash ≠ rpIdHash e req))

def checkHmac : Option Status :=
  match req.hmacSecret with
  | none => none
  | some h =>
    match h.kax, h.kay, h.saltEnc, h.saltAuth with
    | some _, some _, some saltEnc, some saltAuth =>
      if h.crv = 0 ∨ h.alg = 0 then some .missingParameter
      else if h.protocol ≠ 1 ∧ h.protocol ≠ 2 then some .invalidParameter
      else if saltEnc.length ∉ [32, 48, 64, 80] ∨ saltAuth.length ∉ [16, 32] then some .invalidLen
      else if req.up = some false then some .invalidOption
      else none
    | _, _, _, _ => some .missingParameter

/-- The checks up to that of the token. -/
def checksOfToken : Option Status :=
  (precheck req).or <| (checkParam e req).or <| (checkOptions req).or <|
    if req.pinUvAuthParam ≠ none ∧ tokenVerifies e req = false then some .pinAuthInvalid else none

/-- All of them, in the order of the code. -/
def checks : Option Status := (checksOfToken e req).or (checkHmac req)

/-- The flags after the checks. -/
def startFlags : BitVec 8 := if req.pinUvAuthParam = none then 0 else flagUv

/-- The token after the checks is bound to the RP. -/
def boundPin : PinState :=
  if req.pinUvAuthParam = none ∨ e.pin.paut.hasRpId then e.pin
  else { e.pin with paut.rpIdHash := rpIdHash e req, paut.hasRpId := true }

/-- The token when the checks have failed; that of the extension comes when it is bound already. -/
def checkedPin : PinState := if checksOfToken e req = none then boundPin e req else e.pin

/-- `silent`, before any credential is found. Without options `up` stays false. -/
def startSilent : Bool := !(req.options.any fun o => o.up.getD true)

end Checks

/-! Where the credentials come from. -/

/-- The list so far, `resident` and `silent`. -/
structure Located where
  creds : List Credential
  resident : Bool
  silent : Bool
  deriving DecidableEq, Repr

section Locate

variable (e : Setting) (hash : Data)

/-- The files EF_CRED with data that are of the RP, in their order. -/
def rpSlots : List SlotFile :=
  (List.finRange 256).filterMap fun i => (e.storage.slots i).filter fun s => matchesRp s (some hash)

/-- The first of them that has this id and can be loaded. -/
def loadById (id : Data) : Option Credential :=
  (rpSlots e hash).findSome? fun s =>
    if matchesId e.device s id then (loadResident e.device s hash).toOption else none

/-- A credential that was loaded makes the call not silent. -/
def Located.add (l : Located) (cred : Credential) : Located :=
  { l with creds := l.creds ++ [cred], silent := false }

/-- One entry of allowList. The flag says that the loop is left. -/
def locateEntry (l : Located) (id : Data) : Located × Bool :=
  if isResident id then
    match loadById e hash id with
    | none => (l, false)
    | some cred =>
      if l.creds.length < maxCredentialCountInList then ({ l.add cred with resident := true }, false)
      else (l, false)
  else
    match e.device.load id hash with
    | none => (l, false)
    | some cred =>
      if l.resident then (l.add cred, false)
      else if l.creds.length + 1 < maxCredentialCountInList ∧
          (rpSlots e hash).any fun s => matchesId e.device s id then
        ({ l.add cred with resident := true }, true)
      else (l.add cred, false)

def locateList (l : Located) : List Descriptor → Except Status Located
  | [] => .ok l
  | entry :: entries =>
    match entry.isPublicKey, entry.id with
    | some isPublicKey, some id =>
      if isPublicKey then
        let next := locateEntry e hash l id
        if next.2 then .ok next.1 else locateList next.1 entries
      else locateList l entries
    | _, _ => .error .missingParameter

/-- The loop over the files, without allowList: it stops when the list is full. -/
def locateResident (silent : Bool) : Located :=
  let creds := ((rpSlots e hash).filterMap fun s => (loadResident e.device s hash).toOption).take
    maxCredentialCountInList
  { creds := creds, resident := true, silent := silent && creds.isEmpty }

def locate (silent : Bool) (allowList : List Descriptor) : Except Status Located :=
  if allowList = [] then .ok (locateResident e hash silent)
  else locateList e hash { creds := [], resident := false, silent := silent } allowList

/-- The filter of credProtect. -/
def admitted (flags : BitVec 8) (listed : Bool) (cred : Credential) : Bool :=
  !(cred.credProtect = uvRequired ∧ flags &&& flagUv = 0) &&
    !(cred.credProtect = uvOptionalWithList ∧ listed = false ∧ flags &&& flagUv = 0)

/-! Silent authentication: the tags verify without the key of the device. -/

def envelopeOverhead : Nat := 32

def silentTagLen : Nat := 16

def residentRecordLen : Nat := 59

/-- The last 16 bytes are the tag of the rest. -/
def tagVerifies (record : Data) : Bool :=
  (e.crypto.silentTag record hash).take silentTagLen = record.drop (record.length - silentTagLen)

/-- credential_verify with `silent`: only the formats 22 and 25 have a tag. -/
def verifySilent (credId : Data) : Bool :=
  decide (envelopeOverhead ≤ credId.length) &&
    (credId.take 4 = [0xf1, 0xd0, 0x02, 0x02] || credId.take 4 = [0xf1, 0xd0, 0x02, 0x05]) &&
    tagVerifies e hash credId

/-- credential_resident_verify with `silent`. -/
def residentVerifySilent (s : SlotFile) : Bool :=
  if s.marker then
    residentUsable e.device s &&
      (match s.objects.clientId with
      | .error _ => false
      | .ok record => decide (record.length = residentRecordLen) &&
          decide (record.getD residentLen 0 = 1) && tagVerifies e hash record)
  else
    decide (rpIdHashLen < s.data.length) &&
      verifySilent e hash (s.data.drop
        (if isResident (s.data.drop rpIdHashLen) then rpIdHashLen + residentLen else rpIdHashLen))

/-- An entry of allowList that the silent check counts. -/
def countsSilently (room : Bool) (entry : Descriptor) : Bool :=
  match entry.isPublicKey, entry.id with
  | some true, some id =>
    if isResident id then
      room && ((rpSlots e hash).find? fun s => matchesId e.device s id).any (residentVerifySilent e hash)
    else verifySilent e hash id
  | _, _ => false

end Locate

/-! The response. -/

section Respond

variable (e : Setting) (req : Request)

/-- The hash that goes with the group of the key; none is pure EdDSA. -/
def digestOf : Group → Option Digest
  | .secp384r1 => some .sha384
  | .secp521r1 => some .sha512
  | .ed25519 => none
  | _ => some .sha256

/-- fido_load_key. -/
def loadKey (curve : Int) (seed : Data) : Option Key :=
  (fidoCurveToMbedtls curve).bind fun g => (e.crypto.derive g seed).map fun secret => ⟨g, secret⟩

/-- The key that a credential signs with. Where it cannot be loaded, that of a U2F key handle is
tried. -/
def signingKey (hash : Data) (cred : Credential) : Option Key :=
  let own : Option Key := match cred.privateKey with
    | some privateKey => (fidoCurveToMbedtls cred.curve).bind fun g =>
        (e.crypto.readKey g privateKey).map fun secret => ⟨g, secret⟩
    | none => loadKey e cred.curve (Mgmt.keySeed cred)
  own.or ((e.crypto.deriveU2f hash (Mgmt.keySeed cred)).map fun secret => ⟨.secp256r1, secret⟩)

def sign (key : Key) (message : Data) : Option Data :=
  match digestOf key.group with
  | some d => e.crypto.ecdsa key d (e.crypto.hash d message)
  | none => e.crypto.eddsa key message

def hmacOutput (h : HmacInput) (seed : Data) (uv : Bool) : Except Status Data :=
  let saltEnc := h.saltEnc.getD []
  let offset := (h.protocol - 1) * 16
  match e.crypto.ecdh h.protocol (h.kax.getD []) (h.kay.getD []) with
  | none => .error .invalidParameter
  | some secret =>
    if e.crypto.verifyHmacSecret h.protocol secret saltEnc (h.saltAuth.getD []) = false then
      .error .pinAuthInvalid
    else if saltEnc.length ≠ 32 + offset ∧ saltEnc.length ≠ 64 + offset then .error .invalidParameter
    else
      match e.crypto.decrypt h.protocol secret saltEnc, e.crypto.hmacKey seed with
      | some salt, some random =>
        let key := if uv then random.drop 32 else random.take 32
        let first := e.crypto.hmac key (salt.take 32)
        let second := if saltEnc.length = 64 + offset then e.crypto.hmac key (salt.drop 32) else []
        .ok (e.crypto.encrypt h.protocol secret (first ++ second))
      | _, _ => .error .invalidParameter

/-- The extension outputs for the selected credential, if any are asked for. -/
def extOutputs (cred : Credential) (flags : BitVec 8) : Except Status (Option ExtOutputs) :=
  let hmac := if req.up = some false then none else req.hmacSecret
  let wantsBlob := decide (req.extensions.bind (·.credBlob) = some true)
  let wantsPayment := decide (req.extensions.bind (·.thirdPartyPayment) = some true)
  if hmac.isNone && !wantsBlob && !wantsPayment then .ok none
  else
    let outputs : ExtOutputs :=
      { credBlob := if wantsBlob then some (cred.credBlob.getD []) else none
        thirdPartyPayment := if wantsPayment then some cred.thirdPartyPayment else none }
    match hmac with
    | none => .ok (some outputs)
    | some h =>
      match hmacOutput e h (Mgmt.keySeed cred) (flags &&& flagUv ≠ 0) with
      | .error status => .error status
      | .ok out => .ok (some { outputs with hmacSecret := some out })

def counterBytes (ctr : BitVec 32) : Data :=
  [ctr.extractLsb' 24 8, ctr.extractLsb' 16 8, ctr.extractLsb' 8 8, ctr.extractLsb' 0 8]

/-- authData: the RP ID hash, the flags, the counter and the extension outputs. -/
def authDataOf (flags : BitVec 8) (ctr : BitVec 32) (ext : Option ExtOutputs) : Data :=
  rpIdHash e req ++
    [if ext.isSome then flags ||| flagEd else flags] ++ counterBytes ctr ++
    (ext.map e.crypto.encodeExt).getD []

/-- The user of a response; the names are only told after verification, when there are several. -/
def userOf (cred : Credential) (number : Nat) (flags : BitVec 8) : Option User :=
  if cred.rk = some true then
    if 1 < number ∧ req.allowList = [] ∧ flags &&& flagUv ≠ 0 then
      some { id := cred.userId, name := cred.userName, displayName := cred.userDisplayName }
    else some { id := cred.userId }
  else none

/-- The id that the response names. -/
def responseId (cred : Credential) (resident : Bool) : Data :=
  if resident then cred.residentId.getD (e.device.deriveResident cred.id) else cred.id

/-- The total is told on the first call, when there are several credentials. -/
def totalOf (next resident : Bool) (number : Nat) : Option Nat :=
  if 1 < number ∧ next = false ∧ (resident = false ∨ req.allowList.length ≤ 1) then some number
  else none

/-- From the selected credential to the response. -/
def respond (next : Bool) (cred : Credential) (resident : Bool) (number : Nat) (flags : BitVec 8) :
    Except Status Body :=
  let wantsLargeBlob := req.largeBlobKey = some true ∧ cred.largeBlobKey = true
  let largeBlobKey := if wantsLargeBlob then e.crypto.largeBlobKey (Mgmt.keySeed cred) else none
  if wantsLargeBlob ∧ largeBlobKey = none then .error .processing
  else
    match extOutputs e req cred flags with
    | .error status => .error status
    | .ok ext =>
      let authData := authDataOf e req flags (if cred.imported then 0 else e.counter) ext
      match signingKey e (rpIdHash e req) cred with
      | none => .error .other
      | some key =>
        match sign e key (authData ++ req.clientDataHash.getD []) with
        | none => .error .processing
        | some signature => .ok
            { id := responseId e cred resident
              authData := authData
              signature := signature
              user := userOf req cred number flags
              numberOfCredentials := totalOf req next resident number
              largeBlobKey := largeBlobKey }

/-- The answer of silent authentication: an id and a signature that mean nothing. -/
def bogus (number : Nat) (flags : BitVec 8) : Body where
  id := [0, 1, 0, 1, 0, 1, 0, 1, 0, 1, 0, 1, 0, 1, 0, 1]
  authData := authDataOf e req flags e.counter none
  signature := List.replicate 64 0x0b
  user := none
  numberOfCredentials := totalOf req false false number
  largeBlobKey := none

end Respond

/-! The walk over several credentials. -/

/-- The variables of the module. -/
structure Walk where
  resident : Bool := false
  creds : List Credential := []
  counter : Nat := 1
  number : Nat := 0
  flags : BitVec 8 := 0
  timer : BitVec 32 := 0
  channel : BitVec 32 := 0
  request : Option Request := none
  deriving DecidableEq, Repr

/-- reset_gna_state. -/
def Walk.reset : Walk := { counter := 0 }

/-- What a call gives: the response, the walk and the token. -/
structure Outcome where
  result : Except Status Body
  walk : Walk
  pin : PinState

section Calls

variable (e : Setting) (req : Request)

/-- Presence is needed, unless the token says that it was there. -/
def presenceFails : Bool :=
  req.asks && !(req.pinUvAuthParam.isSome && e.pin.presentFlag) && !e.present

def pinAfter : PinState := if req.asks then (boundPin e req).used else boundPin e req

/-- The flags of the response, without that of the extensions. -/
def flagsAfter : BitVec 8 := if req.asks then startFlags req ||| flagUp else startFlags req

/-- How many credentials a call has found: those that it may use, or else those of a silent check. -/
def numberFound (l : Located) (usable : List Credential) : Nat :=
  if usable.isEmpty ∧ l.silent ∧ req.allowList ≠ [] then
    req.allowList.countP (countsSilently e (rpIdHash e req)
      (decide (l.creds.length < maxCredentialCountInList)))
  else usable.length

/-- With several entries in allowList a resident credential stands alone. -/
def numberShown (resident : Bool) (number : Nat) : Nat :=
  if resident ∧ 1 < req.allowList.length then 1 else min number maxCredentialCountInList

/-- The walk that a call with several credentials begins. -/
def beginWalk (usable : List Credential) (resident : Bool) (number : Nat) : Walk :=
  { resident := resident
    creds := usable.take number
    counter := 1
    number := number
    flags := flagsAfter req
    timer := e.now
    channel := e.cid
    request := some req }

/-- cbor_get_assertion, when it is not for the next credential. Every error resets the walk. -/
def getAssertion : Outcome :=
  let failed (status : Status) (pin : PinState) : Outcome := ⟨.error status, .reset, pin⟩
  match checks e req with
  | some status => failed status (checkedPin e req)
  | none =>
    let hash := rpIdHash e req
    match locate e hash (startSilent req) req.allowList with
    | .error status => failed status (boundPin e req)
    | .ok l =>
      let usable := l.creds.filter (admitted (startFlags req) (req.allowList ≠ []))
      let found := numberFound e req l usable
      if presenceFails e req then failed .operationDenied (boundPin e req)
      else if found = 0 then failed .noCredentials (pinAfter e req)
      else if req.largeBlobKey = some false then failed .invalidOption (pinAfter e req)
      else if l.silent ∧ l.resident = false then
        ⟨.ok (bogus e req found (flagsAfter req)), .reset, pinAfter e req⟩
      else
        let sorted := if l.silent then usable else ExchangeSort.sort (·.boardCreation) usable
        let shown := numberShown req l.resident found
        match sorted with
        | [] => failed .other (pinAfter e req)
        | cred :: _ =>
          match respond e req false cred l.resident shown (flagsAfter req) with
          | .error status => failed status (pinAfter e req)
          | .ok body => ⟨.ok body,
              if 1 < shown then beginWalk e req sorted l.resident shown else .reset, pinAfter e req⟩

/-- cbor_get_assertion for the next credential of the walk. -/
def nextAssertion (w : Walk) (saved : Request) : Except Status Body :=
  match precheck saved with
  | some status => .error status
  | none =>
    match w.creds[w.counter]? with
    | none => .error .other
    | some cred => respond e saved true cred w.resident w.number w.flags

/-- The walk has been left alone for too long, STATEFUL_WALK_IDLE_MS. -/
def Walk.idle (w : Walk) (now : BitVec 32) : Bool := Mgmt.idle now w.timer

/-- cbor_get_next_assertion. Every error resets the walk, and so does its last credential. -/
def getNextAssertion (w : Walk) : Outcome :=
  let failed (status : Status) : Outcome := ⟨.error status, .reset, e.pin⟩
  if w.channel ≠ e.cid then failed .notAllowed
  else if w.number ≤ w.counter then failed .notAllowed
  else if w.idle e.now then failed .notAllowed
  else
    match w.request with
    | none => failed .missingParameter
    | some saved =>
      match nextAssertion e w saved with
      | .error status => failed status
      | .ok body => ⟨.ok body,
          if w.counter + 1 = w.number then .reset
          else { w with timer := e.now, counter := w.counter + 1 }, e.pin⟩

end Calls

/-- A command over CTAPHID_CBOR; of those that are not modelled here only what cbor_parse does to the
walk. -/
inductive Command where
  | getAssertion (req : Request)
  | getNextAssertion
  | otherCommand

/-- cbor_parse, as far as the walk goes: every command but getNextAssertion resets it first. -/
def cborParse (e : Setting) (w : Walk) : Command → Option (Except Status Body) × Walk
  | .getAssertion req => (some (getAssertion e req).result, (getAssertion e req).walk)
  | .getNextAssertion => (some (getNextAssertion e w).result, (getNextAssertion e w).walk)
  | .otherCommand => (none, .reset)

end Assert

end Cred

end KeyWallet
