import KeyWallet.PinBuffers
import KeyWallet.AssertionWalk
import KeyWallet.ExcludeList
import KeyWallet.CredPayload
import KeyWallet.CredStore

/-! authenticatorMakeCredential, cbor_make_credential.c, from the request as it was parsed to the files it
leaves. Ciphers, signatures, the bytes of CBOR and the answers of the storage are parameters of a call. -/
namespace KeyWallet.Cred.Make

open CrashProgram
open Assert (PinState Digest Group Key flagUp flagUv flagEd)
open Container.Resident (Blob RpIdHash)

/-- CTAP_PERMISSION_MC. -/
def permissionMc : BitVec 8 := 0x01

/-- FIDO2_AUT_FLAG_AT. -/
def flagAt : BitVec 8 := 0x40

/-- FIDO2_ALG_ES256. -/
def algEs256 : Int := -7

inductive Status
  | check (e : McErr)
  | credentialExcluded
  -- the errors of hmac-secret-mc
  | hmacSecret (e : Assert.Status)
  | processing
  | keyStoreFull
  | other
  -- the errors of the CBOR encoder
  | encoding
  deriving DecidableEq, Repr

/-- The extension inputs that the checks before verify do not read. -/
structure Inputs where
  minPinLength : Option Bool := none
  credBlob : Option Data := none
  largeBlobKey : Option Bool := none
  thirdPartyPayment : Option Bool := none
  pinComplexityPolicy : Option Bool := none
  uvm : Option Bool := none
  deriving DecidableEq, Repr

def aaguid : Data :=
  [0x89, 0xfb, 0x94, 0xb7, 0x06, 0xc9, 0x36, 0x73, 0x9b, 0x7e, 0x30, 0x52, 0x6d, 0x96, 0x81, 0x45]

/-- A request as it was parsed: without the map of extensions none of them is set. -/
structure Request extends McRequest where
  rpId : Option Data := none
  user : Assert.User
  excludeList : List Assert.Descriptor := []
  extensions : Option Inputs := none
  parsed : extensions = none → credProtect = none ∧ hmacSecret = none ∧ hmacSecretMc = none

namespace Request

variable (req : Request)

def up : Option Bool := req.options.bind (·.up)

def rk : Option Bool := req.options.bind (·.rk)

def largeBlobKey : Option Bool := req.extensions.bind (·.largeBlobKey)

end Request

/-- known_app_t, without its label. -/
structure KnownApp where
  useSignCount : Option Bool
  useSelfAttestation : Option Bool
  deriving DecidableEq, Repr

/-- The extension outputs; a number that is zero is left out. -/
structure Outputs where
  uvm : Bool
  credBlob : Option Bool
  credProtect : Nat
  hmacSecret : Bool
  minPinLength : Nat
  thirdPartyPayment : Bool
  hmacSecretMc : Option Data
  pinComplexityPolicy : Option Bool
  deriving DecidableEq, Repr

/-- A public key as COSE_key_params writes it. -/
structure CoseKey where
  kty : Nat
  alg : Int
  crv : Int
  x : Data
  y : Option Data
  deriving DecidableEq, Repr

/-- A response: authData and the parts of the attestation statement. -/
structure Body where
  authData : Data
  alg : Int
  signature : Data
  x5c : Option Data
  epAtt : Bool
  largeBlobKey : Option Data
  deriving DecidableEq, Repr

/-- What a call reads besides the request. -/
structure Setting extends McSetting where
  maker : Account.Maker
  disk : Account.Disk
  rtc : Option Nat
  device_eq : device = maker.deviceAt rtc
  slots_eq : ∀ i, storage.slots i = Account.slotAt maker disk i
  sha256_length : ∀ d, (crypto.sha256 d).length = 32
  knownApp : (rpIdHash : Data) → Option KnownApp
  -- EF_MINPINLEN, and whether there is EF_PIN_COMPLEXITY_POLICY
  minPin : Option Data
  pinComplexity : Bool
  times : Payload.Times
  -- the AEAD over the map, with its IV and the silent tag
  sealMap : RpIdHash → Payload.CborMap → Option Blob
  encodeOutputs : Outputs → Option Data
  publicX : Key → Data
  publicY : Key → Data
  compressed : Key → Data
  encodeKey : CoseKey → Option Blob
  -- load_keydev
  keydev : Option Data
  -- the certificates, and the flag of an initialisation with a vendor nonce
  eaCert : Data
  devCert : Data
  isNk : Bool
  responseFits : Body → Bool
  -- the replies of the storage to the write of the counter and to credential_store
  counterWritten : Bool
  replies : List Reply

section Checks

variable (e : Setting) (req : Request)

def rpIdHash : RpIdHash := ⟨e.crypto.sha256 (req.rpId.getD []), e.sha256_length _⟩

/-- The token is good for this request. -/
def tokenVerifies : Bool :=
  e.crypto.verify (req.pinUvAuthProtocol.getD 0 % 256) e.pin.paut.data (req.clientDataHash.getD [])
      (req.pinUvAuthParam.getD []) &&
    decide (e.pin.paut.permissions &&& permissionMc ≠ 0) &&
    !(e.pin.paut.hasRpId && decide (e.pin.paut.rpIdHash ≠ (rpIdHash e req).1)) && e.pin.verifiedFlag

/-- The checks before the exclude list, in the order of the code. -/
def checks : Option McErr :=
  (mcChecks e.toMcSetting req.toMcRequest).or
    (if req.pinUvAuthParam ≠ none ∧ tokenVerifies e req = false then some .pinAuthInvalid else none)

/-- The flags after the checks. -/
def startFlags : BitVec 8 := if req.pinUvAuthParam = none then flagAt else flagAt ||| flagUv

/-- The token after the checks is bound to the RP. -/
def boundPin : PinState :=
  if req.pinUvAuthParam = none ∨ e.pin.paut.hasRpId then e.pin
  else { e.pin with paut.rpIdHash := (rpIdHash e req).1, paut.hasRpId := true }

/-- The exclude list as its step takes it. -/
def excludeRequest (hup : req.up ≠ some false) : Exclude.Request where
  list := req.excludeList
  uv := decide (startFlags req &&& flagUv ≠ 0)
  up := req.up
  optionsPresent := req.options.isSome
  paramPresent := req.pinUvAuthParam.isSome
  userPresent := (boundPin e req).presentFlag
  pressed := e.present
  reached := fun _ => hup

/-- The buffers of the credentials that the step loads are left out. -/
def excludeEnv : Exclude.Env := ⟨e.device, e.storage, fun _ => none, fun _ => none⟩

def excludeOutcome (hup : req.up ≠ some false) : Exclude.Outcome :=
  Exclude.excludeList (excludeEnv e) (rpIdHash e req).1 (excludeRequest e req hup)

/-- The check of largeBlobKey. -/
def largeBlobRefused : Bool :=
  decide (req.largeBlobKey = some false ∨ (req.largeBlobKey = some true ∧ req.rk ≠ some true))

/-- The token says that presence is settled. -/
def tokenPresent : Bool := req.pinUvAuthParam.isSome && (boundPin e req).presentFlag

/-- Step 14 asks for presence: only where there is pinUvAuthParam. -/
def asksPresence : Bool := req.pinUvAuthParam.isSome && !(boundPin e req).presentFlag

/-- An empty pinUvAuthParam asks for presence as well, before it is turned down. -/
def checksAsk : Bool :=
  decide (req.pinUvAuthParam = some []) && !(req.pinUvAuthProtocol.any fun p => p ≠ 1 ∧ p ≠ 2) &&
    (mcExtensions e.toMcSetting req.toMcRequest).isNone

end Checks

/-! The algorithm and its curve. -/

section Algorithm

variable (e : McSetting)

/-- The curve that an algorithm of the list sets. -/
def curveOf (alg : Int) : Option Int :=
  if alg = -7 ∨ alg = -9 then some 1
  else if alg = -35 ∨ alg = -51 then some 2
  else if alg = -36 ∨ alg = -52 then some 3
  else if alg = -265 then some 9
  else if alg = -267 then some 10
  else if alg = -268 then some 11
  else if alg = -47 ∧ e.secp256k1 then some 8
  else if alg = -8 ∨ alg = -19 then some 6
  else if alg = -53 then some 7
  else none

/-- The loop over pubKeyCredParams, from the curve and the algorithm so far. -/
def selectAlg : List CredParam → (curve alg : Int) → Int × Int
  | [], curve, alg => (curve, alg)
  | p :: ps, curve, alg =>
    if p.isPublicKey = some true then
      let curve := if curve ≤ 0 then (curveOf e p.alg).getD curve else curve
      selectAlg ps curve (if 0 < curve ∧ alg = 0 then p.alg else alg)
    else selectAlg ps curve alg

end Algorithm

/-! The new credential. -/

section Build

variable (e : Setting) (req : Request)

/-- The curve and the algorithm of the credential. -/
def selected : Int × Int := selectAlg e.toMcSetting req.pubKeyCredParams (-1) 0

/-- The arguments of credential_create. Where the map of options is there, `rk` is false if it is left
out. -/
def createArguments : Payload.Arguments where
  cred :=
    { rpId := req.rpId
      userId := req.user.id
      extensionsPresent := req.extensions.isSome
      credBlob := req.extensions.bind (·.credBlob)
      credProtect := req.credProtect.getD 0
      hmacSecret := req.hmacSecret
      largeBlobKey := decide (req.largeBlobKey = some true)
      thirdPartyPayment := decide (req.extensions.bind (·.thirdPartyPayment) = some true)
      optsPresent := req.options.isSome
      rk := req.options.map fun o => o.rk.getD false }
  name := req.user.name
  displayName := req.user.displayName
  useSignCount := (e.knownApp (rpIdHash e req).1).all fun ka => ka.useSignCount = some true
  alg := BitVec.ofInt 32 (selected e req).2
  curve := BitVec.ofInt 32 (selected e req).1

def credentialCreate : Option Blob :=
  e.sealMap (rpIdHash e req) (Payload.payload e.times (rpIdHash e req).1 (createArguments e req))

/-- What the keys are derived from. -/
def keySeed (credId : Data) : Data :=
  if req.rk = some true then e.device.deriveResident credId else credId

def minpinContainsRp : Bool :=
  match e.minPin with
  | none => false
  | some data =>
    decide (34 ≤ data.length) &&
      (List.range ((data.length - 34) / 32 + 1)).any fun k =>
        decide ((data.drop (2 + 32 * k)).take 32 = (rpIdHash e req).1)

/-- The length that the output minPinLength tells, if it does. -/
def minPinOutput : Nat :=
  if minpinContainsRp e req then ((e.minPin.getD []).getD 0 0).toNat else 0

/-- The output of hmac-secret-mc. -/
def hmacSecretMc (seed : Data) (flags : BitVec 8) : Except Status (Option Data) :=
  match req.hmacSecretMc with
  | none => .ok none
  | some h =>
    match Assert.hmacOutput e.toSetting h seed (flags &&& flagUv ≠ 0) with
    | .error status => .error (.hmacSecret status)
    | .ok out => .ok (some out)

def outputsOf (x : Inputs) (hmac : Option Data) : Outputs where
  uvm := decide (x.uvm = some true)
  credBlob := x.credBlob.map fun b => decide (b.length < Payload.maxCredBlobLength)
  credProtect := req.credProtect.getD 0
  hmacSecret := decide (req.hmacSecret = some true)
  minPinLength := if x.minPinLength = some true then minPinOutput e req else 0
  thirdPartyPayment := decide (x.thirdPartyPayment = some true)
  hmacSecretMc := hmac
  pinComplexityPolicy :=
    if x.pinComplexityPolicy = some true ∧ minpinContainsRp e req then some e.pinComplexity else none

/-- Some output is told. -/
def Outputs.some? (o : Outputs) : Bool :=
  o.uvm || o.credBlob.isSome || decide (o.credProtect ≠ 0) || o.hmacSecret || decide (o.minPinLength ≠ 0) ||
    o.thirdPartyPayment || o.hmacSecretMc.isSome || o.pinComplexityPolicy.isSome

/-- The extension outputs, encoded; none where there is nothing to tell. -/
def extOutputs (seed : Data) (flags : BitVec 8) : Except Status (Option Data) :=
  match req.extensions with
  | none => .ok none
  | some x =>
    match hmacSecretMc e req seed flags with
    | .error status => .error status
    | .ok hmac =>
      if (outputsOf e req x hmac).some? then
        match e.encodeOutputs (outputsOf e req x hmac) with
        | none => .error .encoding
        | some ext => .ok (some ext)
      else .ok none

def mbedtlsCurveToFido : Group → Int
  | .secp256r1 => 1
  | .secp384r1 => 2
  | .secp521r1 => 3
  | .secp256k1 => 8
  | .curve25519 => 4
  | .curve448 => 5
  | .ed25519 => 6
  | .ed448 => 7
  | _ => 0

def coseKey (key : Key) (alg : Int) : CoseKey :=
  let crv := mbedtlsCurveToFido key.group
  if crv = 1 ∨ crv = 2 ∨ crv = 3 ∨ crv = 8 then ⟨2, alg, crv, e.publicX key, some (e.publicY key)⟩
  else ⟨1, alg, crv, e.compressed key, none⟩

/-- authData: the RP ID hash, the flags, the counter, the aaguid with the id and the key, and the extension
outputs. -/
def authDataOf (credId publicKey : Data) (flags : BitVec 8) (ext : Option Data) : Data :=
  (rpIdHash e req).1 ++ [if ext.isSome then flags ||| flagEd else flags] ++
    Assert.counterBytes e.counter ++ aaguid ++
    [BitVec.ofNat 8 (credId.length / 256), BitVec.ofNat 8 credId.length] ++ credId ++ publicKey ++
    ext.getD []

/-- The hash that goes with the group of the key; none is pure EdDSA. -/
def digestOf : Group → Option Digest
  | .secp384r1 => some .sha384
  | .bp384r1 => some .sha384
  | .secp521r1 => some .sha512
  | .bp512r1 => some .sha512
  | .ed25519 => none
  | .ed448 => none
  | _ => some .sha256

/-- The credential signs for itself. -/
def selfAttestation : Bool :=
  !(decide (req.enterpriseAttestation = some 2) ||
    (e.knownApp (rpIdHash e req).1).any fun ka => ka.useSelfAttestation = some false)

/-- The hash that is made before the signing key is settled; where there is none the buffer stays zero. -/
def attestedHash (key : Key) (message : Data) : Data :=
  match digestOf key.group with
  | some d => e.crypto.hash d message
  | none => List.replicate 64 0

/-- The attestation signature: by the key of the credential, or by that of the device, which takes the
first 32 bytes of the hash. -/
def attest (key : Key) (message : Data) : Except Status Data :=
  if selfAttestation e req then
    match (digestOf key.group).elim (e.crypto.eddsa key message)
        fun d => e.crypto.ecdsa key d (e.crypto.hash d message) with
    | none => .error .processing
    | some sig => .ok sig
  else
    match e.keydev with
    | none => .error .other
    | some keydev =>
      match (e.crypto.readKey .secp256r1 keydev).bind fun secret =>
          e.crypto.ecdsa ⟨.secp256r1, secret⟩ .sha256 ((attestedHash e key message).take 32) with
      | none => .error .processing
      | some sig => .ok sig

/-- The largeBlobKey of the response, for a resident credential. -/
def largeBlobKeyOf (seed : Data) : Except Status (Option Data) :=
  if req.largeBlobKey = some true ∧ req.rk = some true then
    match e.crypto.largeBlobKey seed with
    | none => .error .processing
    | some key => .ok (some key)
  else .ok none

/-- The certificate of the statement. -/
def x5cOf : Option Data :=
  if selfAttestation e req = false ∨ e.isNk then
    some (if req.enterpriseAttestation = some 2 ∧ e.eaCert ≠ [] then e.eaCert else e.devCert)
  else none

/-- The id with the encoded public key, and the response. -/
structure Made where
  credId : Blob
  publicKey : Blob
  body : Body

/-- The id that the response names. -/
def shownId (credId : Data) : Data := if req.rk = some true then e.device.deriveResident credId else credId

def bodyOf (authData signature : Data) (largeBlobKey : Option Data) : Body where
  authData := authData
  alg := if selfAttestation e req || e.isNk then (selected e req).2 else algEs256
  signature := signature
  x5c := x5cOf e req
  epAtt := decide (req.enterpriseAttestation = some 2)
  largeBlobKey := largeBlobKey

/-- From the credential id to the response. -/
def finish (flags : BitVec 8) (credId : Blob) : Except Status Made :=
  match extOutputs e req (keySeed e req credId.1) flags with
  | .error status => .error status
  | .ok ext =>
    match Assert.loadKey e.toSetting (selected e req).1 (keySeed e req credId.1) with
    | none => .error .other
    | some key =>
      match e.encodeKey (coseKey e key (selected e req).2) with
      | none => .error .encoding
      | some publicKey =>
        let authData := authDataOf e req (shownId e req credId.1) publicKey.1 flags ext
        match attest e req key (authData ++ req.clientDataHash.getD []) with
        | .error status => .error status
        | .ok signature =>
          match largeBlobKeyOf e req (keySeed e req credId.1) with
          | .error status => .error status
          | .ok largeBlobKey =>
            if e.responseFits (bodyOf e req authData signature largeBlobKey) then
              .ok ⟨credId, publicKey, bodyOf e req authData signature largeBlobKey⟩
            else .error .encoding

end Build

/-- What a call leaves. `pressed` says that the person was asked and was there. -/
structure Outcome where
  result : Except Status Body
  pin : PinState
  disk : Account.Disk
  counter : BitVec 32
  pressed : Bool

section Call

variable (e : Setting) (req : Request)

/-- The request of credential_store. -/
def storeRequest (made : Made) : Account.Request := ⟨made.credId, rpIdHash e req, made.publicKey, e.rtc⟩

/-- The end of the command: the counter, and credential_store for a resident credential. -/
def store (pin : PinState) (pressed : Bool) (made : Made) : Outcome :=
  if e.counterWritten = false then ⟨.error .processing, pin, e.disk, e.counter, pressed⟩
  else if req.rk = some true then
    let stored := Account.credentialStore e.maker e.disk (storeRequest e req made) e.replies
    ⟨if stored.1 then .ok made.body else .error .keyStoreFull, pin, stored.2, e.counter + 1, pressed⟩
  else ⟨.ok made.body, pin, e.disk, e.counter + 1, pressed⟩

/-- The flags once presence is settled; the token may still say that the user was verified. -/
def finalFlags (pin : PinState) : BitVec 8 :=
  if pin.verifiedFlag then startFlags req ||| flagUp ||| flagUv else startFlags req ||| flagUp

/-- The command behind step 14. -/
def create (pin : PinState) (pressed : Bool) : Outcome :=
  match credentialCreate e req with
  | none => ⟨.error .encoding, pin, e.disk, e.counter, pressed⟩
  | some credId =>
    match finish e req (finalFlags req pin) credId with
    | .error status => ⟨.error status, pin, e.disk, e.counter, pressed⟩
    | .ok made => store e req pin pressed made

theorem up_of_checks {e : Setting} {req : Request} (h : checks e req = none) : req.up ≠ some false := by
  have hmc := (Option.or_eq_none_iff.mp h).1
  unfold mcChecks at hmc
  simp only [Option.or_eq_none_iff] at hmc
  have hoptions := hmc.2.2.2.2.1
  unfold mcOptions at hoptions
  intro hup
  obtain ⟨o, ho, hfalse⟩ := Option.bind_eq_some_iff.mp hup
  rw [ho] at hoptions
  dsimp only at hoptions
  split_ifs at hoptions

/-- The command behind the checks. -/
def afterChecks (hup : req.up ≠ some false) : Outcome :=
  let pin := boundPin e req
  let failed (status : Status) : Outcome := ⟨.error status, pin, e.disk, e.counter, false⟩
  let excluded := excludeOutcome e req hup
  match excluded.verdict with
  | .missingParameter => failed (.check .missingParameter)
  | .operationDenied => failed (.check .operationDenied)
  | .excluded =>
    ⟨.error .credentialExcluded, if excluded.cleared then pin.used else pin, e.disk, e.counter,
      !tokenPresent e req && e.present⟩
  | .goesOn =>
    if largeBlobRefused req then failed (.check .invalidOption)
    else if asksPresence e req && !e.present then failed (.check .operationDenied)
    else create e req pin.used (asksPresence e req)

/-- cbor_make_credential. -/
def makeCredential : Outcome :=
  match h : checks e req with
  | some err => ⟨.error (.check err), e.pin, e.disk, e.counter, checksAsk e req && e.present⟩
  | none => afterChecks e req (up_of_checks h)

end Call

/-! What a request has passed. -/

/-- The request passes every step up to the response, and this is what is made for it. -/
structure Ready (e : Setting) (req : Request) (credId : Blob) (made : Made) : Prop where
  checks : checks e req = none
  goesOn : ∀ hup, (excludeOutcome e req hup).verdict = .goesOn
  largeBlob : largeBlobRefused req = false
  present : asksPresence e req = true → e.present = true
  created : credentialCreate e req = some credId
  finished : finish e req (finalFlags req (boundPin e req).used) credId = .ok made

/-- credential_store for what was made. -/
def stored (e : Setting) (req : Request) (made : Made) : Bool × Account.Disk :=
  Account.credentialStore e.maker e.disk (storeRequest e req made) e.replies

/-- The request passes every step. -/
structure Completes (e : Setting) (req : Request) (credId : Blob) (made : Made) : Prop
    extends Ready e req credId made where
  counted : e.counterWritten = true
  kept : req.rk = some true → (stored e req made).1 = true

section Steps

variable {e : Setting} {req : Request}

theorem makeCredential_of_checks (h : checks e req = none) :
    makeCredential e req = afterChecks e req (up_of_checks h) := by
  unfold makeCredential
  split
  case h_1 err herr => cases h.symm.trans herr
  case h_2 => rfl

theorem makeCredential_refused {err : McErr} (h : checks e req = some err) :
    makeCredential e req = ⟨.error (.check err), e.pin, e.disk, e.counter, checksAsk e req && e.present⟩ := by
  unfold makeCredential
  split
  case h_1 err' herr => rw [Option.some.inj (h.symm.trans herr)]
  case h_2 hnone => cases h.symm.trans hnone

/-- The token as a call may leave it. -/
def PinLeft (e : Setting) (req : Request) (pin : PinState) : Prop :=
  pin = e.pin ∨ pin = boundPin e req ∨ pin = (boundPin e req).used

/-- A request comes to the end of the command, or fails before anything is written. -/
theorem makeCredential_cases :
    (∃ credId made, Ready e req credId made ∧
      makeCredential e req = store e req (boundPin e req).used (asksPresence e req) made) ∨
    ∃ status pin pressed, makeCredential e req = ⟨.error status, pin, e.disk, e.counter, pressed⟩ ∧
      PinLeft e req pin := by
  cases hchecks : checks e req with
  | some err => exact .inr ⟨_, _, _, makeCredential_refused hchecks, .inl rfl⟩
  | none =>
  have hup := up_of_checks hchecks
  rw [makeCredential_of_checks hchecks]
  unfold afterChecks
  dsimp only
  cases hverdict : (excludeOutcome e req hup).verdict with
  | missingParameter => exact .inr ⟨_, _, _, rfl, .inr (.inl rfl)⟩
  | operationDenied => exact .inr ⟨_, _, _, rfl, .inr (.inl rfl)⟩
  | excluded =>
    refine .inr ⟨_, _, _, rfl, ?_⟩
    by_cases hcleared : (excludeOutcome e req hup).cleared = true
    · rw [if_pos hcleared]
      exact .inr (.inr rfl)
    · rw [if_neg hcleared]
      exact .inr (.inl rfl)
  | goesOn =>
  dsimp only
  by_cases hlarge : largeBlobRefused req = true
  · rw [if_pos hlarge]
    exact .inr ⟨_, _, _, rfl, .inr (.inl rfl)⟩
  rw [if_neg hlarge]
  by_cases hdenied : (asksPresence e req && !e.present) = true
  · rw [if_pos hdenied]
    exact .inr ⟨_, _, _, rfl, .inr (.inl rfl)⟩
  rw [if_neg hdenied]
  have hpresent : asksPresence e req = true → e.present = true := by
    intro hasks
    by_contra hno
    exact hdenied (by rw [hasks, Bool.eq_false_of_not_eq_true hno]; rfl)
  unfold create
  cases hcreate : credentialCreate e req with
  | none => exact .inr ⟨_, _, _, rfl, .inr (.inr rfl)⟩
  | some credId =>
    dsimp only
    cases hfinish : finish e req (finalFlags req (boundPin e req).used) credId with
    | error status => exact .inr ⟨_, _, _, rfl, .inr (.inr rfl)⟩
    | ok made =>
      exact .inl ⟨credId, made, ⟨hchecks, fun _ => hverdict, Bool.eq_false_of_not_eq_true hlarge, hpresent,
        hcreate, hfinish⟩, rfl⟩

theorem Ready.eq_store {credId : Blob} {made : Made} (h : Ready e req credId made) :
    makeCredential e req = store e req (boundPin e req).used (asksPresence e req) made := by
  have hdenied : ¬ (asksPresence e req && !e.present) = true := by
    intro hyes
    rw [Bool.and_eq_true] at hyes
    rw [h.present hyes.1] at hyes
    exact Bool.false_ne_true hyes.2
  rw [makeCredential_of_checks h.checks]
  unfold afterChecks
  dsimp only
  rw [h.goesOn, if_neg (Bool.eq_false_iff.mp h.largeBlob), if_neg hdenied]
  unfold create
  rw [h.created]
  dsimp only
  rw [h.finished]

section Store

variable {pin : PinState} {pressed : Bool} {made : Made}

theorem store_uncounted (h : e.counterWritten = false) :
    store e req pin pressed made = ⟨.error .processing, pin, e.disk, e.counter, pressed⟩ := by
  unfold store
  rw [if_pos h]

theorem store_plain (hcount : e.counterWritten = true) (hrk : req.rk ≠ some true) :
    store e req pin pressed made = ⟨.ok made.body, pin, e.disk, e.counter + 1, pressed⟩ := by
  unfold store
  rw [if_neg (by rw [hcount]; exact Bool.noConfusion), if_neg hrk]

theorem store_resident (hcount : e.counterWritten = true) (hrk : req.rk = some true) :
    store e req pin pressed made = ⟨if (stored e req made).1 then .ok made.body else .error .keyStoreFull, pin,
      (stored e req made).2, e.counter + 1, pressed⟩ := by
  unfold store
  rw [if_neg (by rw [hcount]; exact Bool.noConfusion), if_pos hrk]
  rfl

theorem store_left (pin : PinState) (pressed : Bool) (made : Made) :
    (store e req pin pressed made).pressed = pressed ∧ (store e req pin pressed made).pin = pin := by
  unfold store
  split_ifs <;> exact ⟨rfl, rfl⟩

theorem store_ok {body : Body} (h : (store e req pin pressed made).result = .ok body) :
    body = made.body ∧ e.counterWritten = true ∧ (req.rk = some true → (stored e req made).1 = true) := by
  cases hcount : e.counterWritten with
  | false =>
    rw [store_uncounted hcount] at h
    cases h
  | true =>
  by_cases hrk : req.rk = some true
  · rw [store_resident hcount hrk] at h
    by_cases hkept : (stored e req made).1 = true
    · rw [if_pos hkept] at h
      exact ⟨(Except.ok.inj h).symm, rfl, fun _ => hkept⟩
    · rw [if_neg hkept] at h
      cases h
  · rw [store_plain hcount hrk] at h
    exact ⟨(Except.ok.inj h).symm, rfl, fun hyes => absurd hyes hrk⟩

end Store

/-- A request that succeeds has passed every step. -/
theorem makeCredential_ok {body : Body} (h : (makeCredential e req).result = .ok body) :
    ∃ credId made, Completes e req credId made ∧ body = made.body ∧
      (makeCredential e req).pressed = asksPresence e req := by
  rcases @makeCredential_cases e req with ⟨credId, made, hready, hstore⟩ | ⟨_, _, _, herror, -⟩
  · rw [hstore] at h ⊢
    obtain ⟨hbody, hcount, hkept⟩ := store_ok h
    exact ⟨credId, made, ⟨hready, hcount, hkept⟩, hbody, (store_left _ _ _).1⟩
  · rw [herror] at h
    cases h

theorem Completes.result {credId : Blob} {made : Made} (h : Completes e req credId made) :
    (makeCredential e req).result = .ok made.body ∧
      (makeCredential e req).pressed = asksPresence e req := by
  rw [h.toReady.eq_store]
  refine ⟨?_, (store_left _ _ _).1⟩
  by_cases hrk : req.rk = some true
  · rw [store_resident h.counted hrk, if_pos (h.kept hrk)]
  · rw [store_plain h.counted hrk]

/-- What a credential and its response are made of. -/
structure Parts where
  ext : Option Data
  key : Key
  signature : Data
  largeBlobKey : Option Data

/-- The parts come from the request, and the response is put together from them. -/
structure Finishes (e : Setting) (req : Request) (flags : BitVec 8) (credId : Blob) (made : Made)
    (p : Parts) : Prop where
  ext : extOutputs e req (keySeed e req credId.1) flags = .ok p.ext
  key : Assert.loadKey e.toSetting (selected e req).1 (keySeed e req credId.1) = some p.key
  publicKey : e.encodeKey (coseKey e p.key (selected e req).2) = some made.publicKey
  signature : attest e req p.key (authDataOf e req (shownId e req credId.1) made.publicKey.1 flags p.ext ++
    req.clientDataHash.getD []) = .ok p.signature
  largeBlobKey : largeBlobKeyOf e req (keySeed e req credId.1) = .ok p.largeBlobKey
  sameId : made.credId = credId
  body : made.body = bodyOf e req
    (authDataOf e req (shownId e req credId.1) made.publicKey.1 flags p.ext) p.signature p.largeBlobKey

theorem finish_ok {flags : BitVec 8} {credId : Blob} {made : Made}
    (h : finish e req flags credId = .ok made) : ∃ p, Finishes e req flags credId made p := by
  unfold finish at h
  cases hext : extOutputs e req (keySeed e req credId.1) flags with
  | error status =>
    rw [hext] at h
    cases h
  | ok ext =>
  rw [hext] at h
  dsimp only at h
  cases hkey : Assert.loadKey e.toSetting (selected e req).1 (keySeed e req credId.1) with
  | none =>
    rw [hkey] at h
    cases h
  | some key =>
  rw [hkey] at h
  dsimp only at h
  cases hpublic : e.encodeKey (coseKey e key (selected e req).2) with
  | none =>
    rw [hpublic] at h
    cases h
  | some publicKey =>
  rw [hpublic] at h
  dsimp only at h
  cases hsign : attest e req key (authDataOf e req (shownId e req credId.1) publicKey.1 flags ext ++
      req.clientDataHash.getD []) with
  | error status =>
    rw [hsign] at h
    cases h
  | ok signature =>
  rw [hsign] at h
  dsimp only at h
  cases hblob : largeBlobKeyOf e req (keySeed e req credId.1) with
  | error status =>
    rw [hblob] at h
    cases h
  | ok largeBlobKey =>
  rw [hblob] at h
  dsimp only at h
  by_cases hfits : e.responseFits (bodyOf e req (authDataOf e req (shownId e req credId.1) publicKey.1 flags ext)
      signature largeBlobKey) = true
  · rw [if_pos hfits] at h
    obtain rfl := Except.ok.inj h
    exact ⟨⟨ext, key, signature, largeBlobKey⟩, hext, hkey, hpublic, hsign, hblob, rfl, rfl⟩
  · rw [if_neg hfits] at h
    cases h

theorem authDataOf_flags (credId publicKey : Data) (flags : BitVec 8) (ext : Option Data) :
    (authDataOf e req credId publicKey flags ext).getD 32 0 =
      if ext.isSome then flags ||| flagEd else flags := by
  have hlen : (rpIdHash e req).1.length = 32 := (rpIdHash e req).2
  unfold authDataOf
  simp only [List.append_assoc]
  rw [List.getD_eq_getElem?_getD, List.getElem?_append_right hlen.le, hlen]
  rfl

theorem finish_flags {flags : BitVec 8} {credId : Blob} {made : Made}
    (h : finish e req flags credId = .ok made) : made.body.authData.getD 32 0 = flags ∨
      made.body.authData.getD 32 0 = flags ||| flagEd := by
  obtain ⟨p, hp⟩ := finish_ok h
  have hdata : made.body.authData = authDataOf e req (shownId e req credId.1) made.publicKey.1 flags p.ext :=
    congrArg Body.authData hp.body
  rw [hdata, authDataOf_flags]
  cases p.ext with
  | none => exact .inl rfl
  | some ext => exact .inr rfl

end Steps

/-! A device without a PIN, at which nobody is. -/

def plainSetting (maker : Account.Maker) (disk : Account.Disk) (credId publicKey : Blob) : Setting where
  crypto := Assert.plainCrypto
  device := maker.deviceAt none
  storage := ⟨Account.slotAt maker disk, fun _ => none⟩
  pin := ⟨⟨[], 0, false, []⟩, false, false, false⟩
  pinSet := false
  present := false
  now := 0
  cid := 7
  counter := 0
  opts := 0
  eaCertificate := false
  secp256k1 := false
  maker := maker
  disk := disk
  rtc := none
  device_eq := rfl
  slots_eq _ := rfl
  sha256_length _ := List.length_replicate
  knownApp _ := none
  minPin := none
  pinComplexity := false
  times := ⟨0, none⟩
  sealMap _ _ := some credId
  encodeOutputs _ := some []
  publicX key := key.secret
  publicY key := key.secret
  compressed key := key.secret
  encodeKey _ := some publicKey
  keydev := none
  eaCert := []
  devCert := []
  isNk := false
  responseFits _ := true
  counterWritten := true
  replies := []

/-- ES256, without pinUvAuthParam. -/
def plainRequest (options : Option Assert.Options) : Request where
  clientDataHash := some [1]
  pubKeyCredParams := [⟨some true, -7⟩]
  options := options
  rpId := some [2]
  user := { id := some [3] }
  parsed _ := ⟨rfl, rfl, rfl⟩

end KeyWallet.Cred.Make
