import KeyWallet.KeyFormats
import KeyWallet.Assertion

/-! The buffers of cbor_client_pin.c: what decrypt writes and verify reads for the lengths that a request
brings, and whether the request has used up a retry by then. -/
namespace KeyWallet

/-- A use of a fixed array or of a string of the request. `inLen` is the length argument of decrypt,
`available` the length of pinUvAuthParam. -/
inductive Access
  | decrypt (protocol inLen capacity : Nat)
  | verify (protocol available : Nat)
  | copy (length capacity : Nat)
  deriving DecidableEq, Repr

/-- The bytes of its last argument that verify compares. -/
def macLen (protocol : Nat) : Nat := if protocol = 1 then 16 else if protocol = 2 then 32 else 0

/-- decrypt stays inside its destination; under protocol 2 the first 16 bytes are the IV. -/
def decryptFits (protocol inLen capacity : Nat) : Prop :=
  (protocol = 1 → inLen ≤ capacity) ∧ (protocol = 2 → ivSize ≤ inLen ∧ inLen - ivSize ≤ capacity)

instance (protocol inLen capacity : Nat) : Decidable (decryptFits protocol inLen capacity) :=
  inferInstanceAs (Decidable (_ ∧ _))

def Access.Fits : Access → Prop
  | .decrypt protocol inLen capacity => decryptFits protocol inLen capacity
  | .verify protocol available => macLen protocol ≤ available
  | .copy length capacity => length ≤ capacity

/-- What a request does before it goes on, or is turned down. -/
inductive BufferStep
  | access (a : Access)
  | retry
  deriving DecidableEq, Repr

/-- The steps, and the error if the request got no further. -/
abbrev Steps (ε : Type) := List BufferStep × Option ε

/-- The lengths are cut to 16 bits on the way into decrypt. -/
def cut16 (n : Nat) : Nat := n % 65536

/-- new_pin_plain_len. -/
def newPinPlainLen16 (protocol len : Nat) : Nat :=
  if protocol = 1 then cut16 len else cut16 (len - ivSize)

/-- The array paddedNewPin of setPIN and changePIN, that of getPinToken, and tmp of changePIN. -/
def paddedNewPinSize : Nat := 256 + ivSize
def tokenPinSize : Nat := 64
def changeTmpSize : Nat := 256 + ivSize + 32

section Commands

variable (d : Device) (b : Beyond)

/-- The checks of setPIN before verify: the secret, newPinEnc and pinUvAuthParam. -/
def setPinPre (req : PinRequest) (v : FidoVars) (files : Files) :
    Except CtapErr (Bytes × Bytes × Bytes) :=
  match req.kax, req.kay, req.newPinEnc, req.pinUvAuthParam with
  | some _, some _, some newPinEnc, some param =>
    if req.alg = 0 then .error .missingParameter
    else if fileHasData (files .efPin) then .error .notAllowed
    else if newPinEncFits req.pinUvAuthProtocol newPinEnc.length = false then
      .error .invalidParameter
    else
      match sharedSecret d v req with
      | .error e => .error e
      | .ok secret => .ok (secret, newPinEnc, param)
  | _, _, _, _ => .error .missingParameter

/-- The checks of changePIN before verify. -/
def changePinPre (req : PinRequest) (v : FidoVars) (files : Files) :
    Except CtapErr (Bytes × Bytes × Bytes × Bytes) :=
  match req.kax, req.kay, req.newPinEnc, req.pinUvAuthParam, req.pinHashEnc with
  | some _, some _, some newPinEnc, some param, some pinHashEnc =>
    if req.alg = 0 then .error .missingParameter
    else if fileHasData (files .efPin) = false then .error .pinNotSet
    else if retryCount ((fileBytes (files .efPin)).headD 0) = 0 then .error .pinBlocked
    else if v.needsPowerCycle then .error .pinAuthBlocked
    else if newPinEncFits req.pinUvAuthProtocol newPinEnc.length = false ∨
        (req.pinUvAuthProtocol = 1 ∧ pinHashEnc.length ≠ 16) ∨
        (req.pinUvAuthProtocol = 2 ∧ pinHashEnc.length ≠ 16 + ivSize) then
      .error .invalidParameter
    else if (req.pinUvAuthProtocol = 1 ∧ 256 < newPinEnc.length) ∨
        (req.pinUvAuthProtocol = 2 ∧ 256 + ivSize < newPinEnc.length) then
      .error .invalidParameter
    else
      match sharedSecret d v req with
      | .error e => .error e
      | .ok secret => .ok (secret, newPinEnc, pinHashEnc, param)
  | _, _, _, _, _ => .error .missingParameter

/-- What the storage and the stored PIN answer: whether the retry counter was written, and whether the
old PIN is right. -/
structure PinReplies where
  persisted : Bool
  accepted : Bool
  deriving DecidableEq, Repr

/-- setPIN up to its decrypt call. -/
def setPinSteps (req : PinRequest) (v : FidoVars) (files : Files) : Steps CtapErr :=
  match setPinPre d req v files with
  | .error e => ([], some e)
  | .ok (secret, newPinEnc, param) =>
    let checked := BufferStep.access (.verify req.pinUvAuthProtocol param.length)
    if verifyMac d b req.pinUvAuthProtocol secret newPinEnc param = false then
      ([checked], some .pinAuthInvalid)
    else if paddedNewPinSize < newPinPlainLen16 req.pinUvAuthProtocol newPinEnc.length then
      ([checked], some .invalidParameter)
    else
      ([checked, .access (.decrypt req.pinUvAuthProtocol (cut16 newPinEnc.length) paddedNewPinSize)], none)

/-- The retry counter is loaded, counted down and written. -/
def spendSteps (r : PinReplies) (files : Files) (next : Steps CtapErr) : Steps CtapErr :=
  match loadPinData (files .efPin) with
  | none => ([], some .processing)
  | some (loaded, _) =>
    if retryCount (loaded.headD 0) = 0 then ([], some .pinBlocked)
    else if r.persisted = false then ([], some .processing)
    else (.retry :: next.1, next.2)

/-- changePIN up to its last decrypt call. -/
def changePinSteps (r : PinReplies) (req : PinRequest) (v : FidoVars) (files : Files) : Steps CtapErr :=
  match changePinPre d req v files with
  | .error e => ([], some e)
  | .ok (secret, newPinEnc, pinHashEnc, param) =>
    let protocol := req.pinUvAuthProtocol
    let before := [BufferStep.access (.copy newPinEnc.length changeTmpSize),
      .access (.copy (newPinEnc.length + pinHashEnc.length) changeTmpSize),
      .access (.verify protocol param.length)]
    if verifyMac d b protocol secret (newPinEnc ++ pinHashEnc) param = false then
      (before, some .pinAuthInvalid)
    else
      let hashed := BufferStep.access (.decrypt protocol (cut16 pinHashEnc.length) paddedNewPinSize)
      let after : Steps CtapErr :=
        if r.accepted = false then ([hashed], some .pinInvalid)
        else if paddedNewPinSize < newPinPlainLen16 protocol newPinEnc.length then
          ([hashed], some .invalidParameter)
        else ([hashed, .access (.decrypt protocol (cut16 newPinEnc.length) paddedNewPinSize)], none)
      let spent := spendSteps r files after
      (before ++ spent.1, spent.2)

/-- getPinToken up to its decrypt call. -/
def getPinTokenSteps (r : PinReplies) (withPermissions : Bool) (req : PinRequest) (v : FidoVars)
    (files : Files) : Steps CtapErr :=
  match getPinTokenGuards d withPermissions req v files with
  | .error e => ([], some e)
  | .ok (_, pinHashEnc) =>
    spendSteps r files
      ([.access (.decrypt req.pinUvAuthProtocol (cut16 pinHashEnc.length) tokenPinSize)], none)

/-- cbor_client_pin. -/
def clientPinSteps (r : PinReplies) (cmd : PinCommand) (v : FidoVars) (files : Files) : Steps CtapErr :=
  if cmd.request.pinUvAuthProtocol ≠ 1 ∧ cmd.request.pinUvAuthProtocol ≠ 2 then
    ([], some .invalidParameter)
  else
    match cmd with
    | .setPin req => setPinSteps d b req v files
    | .changePin req => changePinSteps d b r req v files
    | .getPinToken withPermissions req => getPinTokenSteps d r withPermissions req v files

end Commands

/-! makeCredential and getAssertion up to their verify calls. -/

section Authenticated

open Cred

/-- FIDO2_OPT_EA, FIDO2_OPT_AUV, FIDO2_OPT_NORK and FIDO2_OPT_MCUV_NOTRQD. -/
def optEa : BitVec 8 := 0x01
def optAuv : BitVec 8 := 0x02
def optNork : BitVec 8 := 0x04
def optMcuvNotrqd : BitVec 8 := 0x08

inductive McErr
  | missingParameter
  | invalidParameter
  | invalidLen
  | invalidOption
  | invalidCbor
  | unsupportedOption
  | unsupportedAlgorithm
  | operationDenied
  | pinNotSet
  | pinAuthInvalid
  | puatRequired
  deriving DecidableEq, Repr

/-- An entry of pubKeyCredParams; of the type, whether it is "public-key". -/
structure CredParam where
  isPublicKey : Option Bool
  alg : Int
  deriving DecidableEq, Repr

/-- The parsed request, as far as the checks before verify read it. -/
structure McRequest where
  clientDataHash : Option Data := none
  pubKeyCredParams : List CredParam := []
  options : Option Assert.Options := none
  credProtect : Option Nat := none
  hmacSecret : Option Bool := none
  hmacSecretMc : Option Assert.HmacInput := none
  pinUvAuthParam : Option Data := none
  pinUvAuthProtocol : Option Nat := none
  enterpriseAttestation : Option Nat := none
  deriving DecidableEq, Repr

/-- What makeCredential reads besides: the option byte, whether there is an enterprise certificate, and
whether secp256k1 is enabled. -/
structure McSetting extends Assert.Setting where
  opts : BitVec 8
  eaCertificate : Bool
  secp256k1 : Bool

section MakeCredential

variable (e : McSetting) (req : McRequest)

/-- An algorithm that sets the curve. -/
def algSupported (alg : Int) : Bool :=
  decide (alg ∈ ([-7, -9, -35, -51, -36, -52, -265, -267, -268, -8, -19, -53] : List Int)) ||
    (decide (alg = -47) && e.secp256k1)

/-- The loop over pubKeyCredParams; the flag says that a curve was found. -/
def checkCredParams : List CredParam → Bool → Option McErr
  | [], found => if found then none else some .unsupportedAlgorithm
  | p :: ps, found =>
    match p.isPublicKey with
    | none => some .invalidCbor
    | some isPublicKey =>
      if p.alg = 0 then some .invalidCbor
      else checkCredParams ps (found || (isPublicKey && algSupported e p.alg))

/-- enterpriseAttestation and hmac-secret-mc. -/
def mcExtensions : Option McErr :=
  if req.enterpriseAttestation ≠ none ∧ (e.opts &&& optEa = 0 ∨ e.eaCertificate = false) then
    some .invalidParameter
  else if req.enterpriseAttestation.any fun n => n ≠ 1 ∧ n ≠ 2 then some .invalidOption
  else
    match req.hmacSecretMc with
    | none => none
    | some h =>
      if req.hmacSecret ≠ some true then some .missingParameter
      else
        match h.kax, h.kay, h.saltEnc, h.saltAuth with
        | some _, some _, some saltEnc, some saltAuth =>
          if h.crv = 0 ∨ h.alg = 0 then some .missingParameter
          else if h.protocol ≠ 1 ∧ h.protocol ≠ 2 then some .invalidParameter
          else if saltEnc.length ∉ [32, 48, 64, 80] ∨ saltAuth.length ∉ [16, 32] then some .invalidLen
          else none
        | _, _, _, _ => some .missingParameter

/-- An empty pinUvAuthParam asks for presence and then fails. -/
def mcParam : Option McErr :=
  match req.pinUvAuthParam with
  | none => none
  | some [] =>
    if e.present = false then some .operationDenied
    else if e.pinSet then some .pinAuthInvalid else some .pinNotSet
  | some (_ :: _) => if req.pinUvAuthProtocol = none then some .missingParameter else none

/-- The options; `uv` is false without them and `rk` false where the map leaves it out. -/
def mcOptions : Option McErr :=
  match req.options with
  | none => none
  | some o =>
    if o.uv = some true then some .invalidOption
    else if o.rk ≠ none ∧ e.opts &&& optNork ≠ 0 then some .unsupportedOption
    else if o.up = some false then some .invalidOption
    else none

/-- The rules on when a token is required. `uv` is never true any more. -/
def mcRequired : Option McErr :=
  if e.opts &&& optAuv ≠ 0 then
    if e.pinSet = false ∨ req.pinUvAuthParam = none then some .puatRequired else none
  else if e.opts &&& optMcuvNotrqd ≠ 0 then
    if e.pinSet ∧ req.pinUvAuthParam = none ∧ (req.options.bind (·.rk)) = some true then
      some .puatRequired
    else none
  else if e.pinSet ∧ req.pinUvAuthParam = none then some .puatRequired
  else none

/-- The checks of makeCredential before verify, in the order of the code. -/
def mcChecks : Option McErr :=
  (if req.pinUvAuthProtocol.any fun p => p ≠ 1 ∧ p ≠ 2 then some .invalidParameter else none).or <|
    (mcExtensions e req).or <| (mcParam e req).or <|
    (if req.pubKeyCredParams = [] then some .missingParameter
      else checkCredParams e req.pubKeyCredParams false).or <|
    (mcOptions e req).or <| (mcRequired e req).or <|
    if req.credProtect.any fun n => n < 1 ∨ 3 < n then some .invalidOption else none

end MakeCredential

/-- The checks of getAssertion before verify. -/
def gaChecks (e : Assert.Setting) (req : Assert.Request) : Option Assert.Status :=
  (Assert.precheck req).or <| (Assert.checkParam e req).or (Assert.checkOptions req)

/-- The verify call that both make: only a request with pinUvAuthParam comes to it. -/
def authSteps {ε : Type} (verifies : Nat → Data → Bool) (denied : ε) (checks : Option ε)
    (param : Option Data) (protocol : Option Nat) : Steps ε :=
  match checks with
  | some err => ([], some err)
  | none =>
    match param with
    | none => ([], none)
    | some sign =>
      let checked := BufferStep.access (.verify (protocol.getD 0 % 256) sign.length)
      if verifies (protocol.getD 0 % 256) sign = false then ([checked], some denied)
      else ([checked], none)

def makeCredentialSteps (e : McSetting) (req : McRequest) : Steps McErr :=
  authSteps (fun protocol sign =>
      e.crypto.verify protocol e.pin.paut.data (req.clientDataHash.getD []) sign)
    .pinAuthInvalid (mcChecks e req) req.pinUvAuthParam req.pinUvAuthProtocol

def getAssertionSteps (e : Assert.Setting) (req : Assert.Request) : Steps Assert.Status :=
  authSteps (fun protocol sign =>
      e.crypto.verify protocol e.pin.paut.data (req.clientDataHash.getD []) sign)
    .pinAuthInvalid (gaChecks e req) req.pinUvAuthParam req.pinUvAuthProtocol

end Authenticated


/-! The checks are those of the commands. -/

theorem setPinGuards_eq (d : Device) (b : Beyond) (req : PinRequest) (v : FidoVars) (files : Files) :
    setPinGuards d b req v files = setPinPre d req v files >>= fun found =>
      if verifyMac d b req.pinUvAuthProtocol found.1 found.2.1 found.2.2 = false then .error .pinAuthInvalid
      else if 256 + ivSize < newPinPlainLen req.pinUvAuthProtocol found.2.1.length then
        .error .invalidParameter
      else .ok (found.1, found.2.1) := by
  unfold setPinGuards setPinPre
  cases req.kax with
  | none => rfl
  | some x =>
    cases req.kay with
    | none => rfl
    | some y =>
      cases req.newPinEnc with
      | none => rfl
      | some newPinEnc =>
        cases req.pinUvAuthParam with
        | none => rfl
        | some param =>
          dsimp only
          rw [guard_bind, guard_bind, guard_bind]
          cases sharedSecret d v req <;> rfl

theorem changePinGuards_eq (d : Device) (b : Beyond) (req : PinRequest) (v : FidoVars) (files : Files) :
    changePinGuards d b req v files = changePinPre d req v files >>= fun found =>
      if verifyMac d b req.pinUvAuthProtocol found.1 (found.2.1 ++ found.2.2.1) found.2.2.2 = false then
        .error .pinAuthInvalid
      else .ok (found.1, found.2.1, found.2.2.1) := by
  unfold changePinGuards changePinPre
  cases req.kax with
  | none => rfl
  | some x =>
    cases req.kay with
    | none => rfl
    | some y =>
      cases req.newPinEnc with
      | none => rfl
      | some newPinEnc =>
        cases req.pinUvAuthParam with
        | none => rfl
        | some param =>
          cases req.pinHashEnc with
          | none => rfl
          | some pinHashEnc =>
            dsimp only
            rw [guard_bind, guard_bind, guard_bind, guard_bind, guard_bind, guard_bind]
            cases sharedSecret d v req <;> rfl

/-! When the buffers hold. -/

/-- Every access fits, and lengths that would not fit are turned down before a retry is used. -/
structure Guarded {ε : Type} (violates : Prop) (s : Steps ε) : Prop where
  fits : ∀ a, .access a ∈ s.1 → a.Fits
  rejects : violates → s.2 ≠ none ∧ .retry ∉ s.1

/-- The length of a string of the request, zero if it is absent. -/
def lengthOf (s : Option Bytes) : Nat := (s.getD []).length

/-- These lengths do not fit the calls of the subcommand. -/
def PinCommand.Violates : PinCommand → Prop
  | .setPin req =>
    lengthOf req.pinUvAuthParam < macLen req.pinUvAuthProtocol ∨
      ¬ decryptFits req.pinUvAuthProtocol (cut16 (lengthOf req.newPinEnc)) paddedNewPinSize
  | .changePin req =>
    lengthOf req.pinUvAuthParam < macLen req.pinUvAuthProtocol ∨
      ¬ decryptFits req.pinUvAuthProtocol (cut16 (lengthOf req.pinHashEnc)) paddedNewPinSize ∨
      ¬ decryptFits req.pinUvAuthProtocol (cut16 (lengthOf req.newPinEnc)) paddedNewPinSize
  | .getPinToken _ req =>
    ¬ decryptFits req.pinUvAuthProtocol (cut16 (lengthOf req.pinHashEnc)) tokenPinSize

/-- The call that goes wrong is reached with lengths that it does not check: verify with too short a
pinUvAuthParam, or decrypt in getPinToken with any pinHashEnc. -/
def PinCommand.Overruns (d : Device) (r : PinReplies) (v : FidoVars) (files : Files) : PinCommand → Prop
  | .setPin req => (setPinPre d req v files).isOk = true ∧
      lengthOf req.pinUvAuthParam < macLen req.pinUvAuthProtocol
  | .changePin req => (changePinPre d req v files).isOk = true ∧
      lengthOf req.pinUvAuthParam < macLen req.pinUvAuthProtocol
  | .getPinToken withPermissions req =>
    (getPinTokenGuards d withPermissions req v files).isOk = true ∧
      (∃ loaded, loadPinData (files .efPin) = some loaded ∧ retryCount (loaded.1.headD 0) ≠ 0) ∧
      r.persisted = true ∧
      ¬ decryptFits req.pinUvAuthProtocol (cut16 (lengthOf req.pinHashEnc)) tokenPinSize

/-- pinUvAuthParam is shorter than what verify compares. -/
def ShortParam (param : Option Bytes) (protocol : Option Nat) : Prop :=
  param.isSome = true ∧ lengthOf param < macLen (protocol.getD 0 % 256)

section Proofs

variable {d : Device} {b : Beyond} {r : PinReplies} {req : PinRequest} {v : FidoVars} {files : Files}

theorem guarded_error {ε : Type} (P : Prop) (e : ε) : Guarded P ([], some e) := by
  constructor
  · intro a ha
    cases ha
  · intro _
    exact ⟨Option.some_ne_none e, List.not_mem_nil⟩

theorem decryptFits_of_plainLen {protocol len : Nat} (hfits : newPinEncFits protocol len = true)
    (hlen : ¬ paddedNewPinSize < newPinPlainLen16 protocol len) :
    decryptFits protocol (cut16 len) paddedNewPinSize := by
  have hsize : paddedNewPinSize = 272 := rfl
  have hiv : ivSize = 16 := rfl
  unfold newPinEncFits at hfits
  rw [decide_eq_true_eq] at hfits
  unfold newPinPlainLen16 cut16 at hlen
  constructor
  · intro hp
    rw [if_pos hp] at hlen
    unfold cut16
    omega
  · intro hp
    rw [if_neg (by omega)] at hlen
    unfold cut16
    omega

theorem setPinPre_ok {secret newPinEnc param : Bytes}
    (h : setPinPre d req v files = .ok (secret, newPinEnc, param)) :
    req.newPinEnc = some newPinEnc ∧ req.pinUvAuthParam = some param ∧
      newPinEncFits req.pinUvAuthProtocol newPinEnc.length = true := by
  unfold setPinPre at h
  split at h
  · next hx hy hnew hparam =>
    obtain ⟨-, h⟩ := guard_ok h
    obtain ⟨-, h⟩ := guard_ok h
    obtain ⟨h3, h⟩ := guard_ok h
    cases hs : sharedSecret d v req with
    | error e =>
      rw [hs] at h
      cases h
    | ok s =>
      rw [hs] at h
      injection h with h
      injection h with h4 h
      injection h with h5 h6
      subst h5
      subst h6
      exact ⟨hnew, hparam, Bool.eq_true_of_not_eq_false h3⟩
  · cases h

theorem changePinPre_ok {secret newPinEnc pinHashEnc param : Bytes}
    (h : changePinPre d req v files = .ok (secret, newPinEnc, pinHashEnc, param)) :
    req.newPinEnc = some newPinEnc ∧ req.pinHashEnc = some pinHashEnc ∧ req.pinUvAuthParam = some param ∧
      newPinEncFits req.pinUvAuthProtocol newPinEnc.length = true ∧
      (req.pinUvAuthProtocol = 1 → pinHashEnc.length = 16 ∧ newPinEnc.length ≤ 256) ∧
      (req.pinUvAuthProtocol = 2 → pinHashEnc.length = 32 ∧ newPinEnc.length ≤ 272) := by
  have hiv : ivSize = 16 := rfl
  unfold changePinPre at h
  split at h
  · next hx hy hnew hparam hhash =>
    obtain ⟨-, h⟩ := guard_ok h
    obtain ⟨-, h⟩ := guard_ok h
    obtain ⟨-, h⟩ := guard_ok h
    obtain ⟨-, h⟩ := guard_ok h
    obtain ⟨h5, h⟩ := guard_ok h
    obtain ⟨h6, h⟩ := guard_ok h
    cases hs : sharedSecret d v req with
    | error e =>
      rw [hs] at h
      cases h
    | ok s =>
      rw [hs] at h
      injection h with h
      injection h with h7 h
      injection h with h8 h
      injection h with h9 h10
      subst h8
      subst h9
      subst h10
      rw [not_or, not_or] at h5
      refine ⟨hnew, hhash, hparam, Bool.eq_true_of_not_eq_false h5.1, ?_, ?_⟩
      · intro hp
        constructor <;> omega
      · intro hp
        constructor <;> omega
  · cases h

theorem getPinTokenGuards_found {withPermissions : Bool} {secret pinHashEnc : Bytes}
    (h : getPinTokenGuards d withPermissions req v files = .ok (secret, pinHashEnc)) :
    req.pinHashEnc = some pinHashEnc := by
  unfold getPinTokenGuards at h
  split at h
  · next hx hy hhash =>
    obtain ⟨-, h⟩ := guard_ok h
    obtain ⟨-, h⟩ := guard_ok h
    obtain ⟨-, h⟩ := guard_ok h
    obtain ⟨-, h⟩ := guard_ok h
    obtain ⟨-, h⟩ := guard_ok h
    obtain ⟨-, h⟩ := guard_ok h
    obtain ⟨-, h⟩ := guard_ok h
    cases hs : sharedSecret d v req with
    | error e =>
      rw [hs] at h
      cases h
    | ok s =>
      rw [hs] at h
      injection h with h
      injection h with _ h
      rw [hhash, h]
  · cases h

theorem setPin_guarded_iff :
    Guarded (PinCommand.Violates (.setPin req)) (setPinSteps d b req v files) ↔
      ¬ PinCommand.Overruns d r v files (.setPin req) := by
  show Guarded (lengthOf req.pinUvAuthParam < macLen req.pinUvAuthProtocol ∨ _) _ ↔
    ¬ ((setPinPre d req v files).isOk = true ∧ lengthOf req.pinUvAuthParam < macLen req.pinUvAuthProtocol)
  unfold setPinSteps
  cases hpre : setPinPre d req v files with
  | error e => exact ⟨fun _ hand => Bool.false_ne_true hand.1, fun _ => guarded_error _ e⟩
  | ok found =>
    obtain ⟨secret, newPinEnc, param⟩ := found
    obtain ⟨hnew, hparam, hfits⟩ := setPinPre_ok hpre
    have hlenNew : lengthOf req.newPinEnc = newPinEnc.length := by
      rw [hnew]
      rfl
    have hlenParam : lengthOf req.pinUvAuthParam = param.length := by
      rw [hparam]
      rfl
    rw [hlenNew, hlenParam]
    dsimp only
    constructor
    · intro h hand
      -- verify is called in every case
      have hmem : BufferStep.access (.verify req.pinUvAuthProtocol param.length) ∈
          (if verifyMac d b req.pinUvAuthProtocol secret newPinEnc param = false then
            (([BufferStep.access (.verify req.pinUvAuthProtocol param.length)], some .pinAuthInvalid) : Steps CtapErr)
          else if paddedNewPinSize < newPinPlainLen16 req.pinUvAuthProtocol newPinEnc.length then
            ([.access (.verify req.pinUvAuthProtocol param.length)], some .invalidParameter)
          else ([.access (.verify req.pinUvAuthProtocol param.length),
            .access (.decrypt req.pinUvAuthProtocol (cut16 newPinEnc.length) paddedNewPinSize)], none)).1 := by
        split_ifs <;> exact List.mem_cons_self
      have hle : macLen req.pinUvAuthProtocol ≤ param.length := h.fits _ hmem
      exact absurd hand.2 (Nat.not_lt_of_le hle)
    · intro hno
      have hlong : macLen req.pinUvAuthProtocol ≤ param.length := by
        by_contra hshort
        exact hno ⟨rfl, Nat.lt_of_not_le hshort⟩
      by_cases hmac : verifyMac d b req.pinUvAuthProtocol secret newPinEnc param = false
      · rw [if_pos hmac]
        refine ⟨?_, fun _ => ⟨Option.some_ne_none _, ?_⟩⟩
        · intro a ha
          rw [List.mem_singleton, BufferStep.access.injEq] at ha
          rw [ha]
          exact hlong
        · intro hmem
          cases List.mem_singleton.mp hmem
      rw [if_neg hmac]
      by_cases hplain : paddedNewPinSize < newPinPlainLen16 req.pinUvAuthProtocol newPinEnc.length
      · rw [if_pos hplain]
        refine ⟨?_, fun _ => ⟨Option.some_ne_none _, ?_⟩⟩
        · intro a ha
          rw [List.mem_singleton, BufferStep.access.injEq] at ha
          rw [ha]
          exact hlong
        · intro hmem
          cases List.mem_singleton.mp hmem
      rw [if_neg hplain]
      have hdec := decryptFits_of_plainLen hfits hplain
      refine ⟨?_, ?_⟩
      · intro a ha
        rcases List.mem_cons.mp ha with ha | ha
        · rw [BufferStep.access.injEq] at ha
          rw [ha]
          exact hlong
        · rw [List.mem_singleton, BufferStep.access.injEq] at ha
          rw [ha]
          exact hdec
      · rintro (hshort | hbad)
        · exact absurd hshort (Nat.not_lt_of_le hlong)
        · exact absurd hdec hbad

theorem spendSteps_fits {next : Steps CtapErr} {a : Access} (h : .access a ∈ (spendSteps r files next).1) :
    .access a ∈ next.1 := by
  unfold spendSteps at h
  split at h
  · cases h
  · split_ifs at h
    · cases h
    · cases h
    · rcases List.mem_cons.mp h with h | h
      · cases h
      · exact h

theorem changePin_guarded_iff :
    Guarded (PinCommand.Violates (.changePin req)) (changePinSteps d b r req v files) ↔
      ¬ PinCommand.Overruns d r v files (.changePin req) := by
  have hsize : paddedNewPinSize = 272 := rfl
  have htmp : changeTmpSize = 304 := rfl
  have hiv : ivSize = 16 := rfl
  show Guarded (lengthOf req.pinUvAuthParam < macLen req.pinUvAuthProtocol ∨ _) _ ↔
    ¬ ((changePinPre d req v files).isOk = true ∧ lengthOf req.pinUvAuthParam < macLen req.pinUvAuthProtocol)
  unfold changePinSteps
  cases hpre : changePinPre d req v files with
  | error e => exact ⟨fun _ hand => Bool.false_ne_true hand.1, fun _ => guarded_error _ e⟩
  | ok found =>
    obtain ⟨secret, newPinEnc, pinHashEnc, param⟩ := found
    obtain ⟨hnew, hhash, hparam, hfits, hone, htwo⟩ := changePinPre_ok hpre
    have hlenNew : lengthOf req.newPinEnc = newPinEnc.length := by
      rw [hnew]
      rfl
    have hlenHash : lengthOf req.pinHashEnc = pinHashEnc.length := by
      rw [hhash]
      rfl
    have hlenParam : lengthOf req.pinUvAuthParam = param.length := by
      rw [hparam]
      rfl
    have hproto : req.pinUvAuthProtocol = 1 ∨ req.pinUvAuthProtocol = 2 := by
      unfold newPinEncFits at hfits
      rw [decide_eq_true_eq] at hfits
      omega
    have hdecHash : decryptFits req.pinUvAuthProtocol (cut16 pinHashEnc.length) paddedNewPinSize := by
      unfold cut16
      constructor <;> omega
    have hdecNew : decryptFits req.pinUvAuthProtocol (cut16 newPinEnc.length) paddedNewPinSize := by
      unfold cut16
      constructor
      · intro hp
        have := hone hp
        omega
      · intro hp
        have := htwo hp
        unfold newPinEncFits at hfits
        rw [decide_eq_true_eq] at hfits
        omega
    have hroom : newPinEnc.length + pinHashEnc.length ≤ changeTmpSize := by omega
    rw [hlenNew, hlenHash, hlenParam]
    dsimp only
    have hverify : ∀ tail : List BufferStep, BufferStep.access (.verify req.pinUvAuthProtocol param.length) ∈
        [BufferStep.access (.copy newPinEnc.length changeTmpSize),
          .access (.copy (newPinEnc.length + pinHashEnc.length) changeTmpSize),
          .access (.verify req.pinUvAuthProtocol param.length)] ++ tail := by
      intro tail
      apply List.mem_append_left
      exact List.mem_cons_of_mem _ (List.mem_cons_of_mem _ List.mem_cons_self)
    constructor
    · intro h hand
      have hle : macLen req.pinUvAuthProtocol ≤ param.length := by
        by_cases hmac : verifyMac d b req.pinUvAuthProtocol secret (newPinEnc ++ pinHashEnc) param = false
        · rw [if_pos hmac] at h
          exact h.fits _ (List.append_nil _ ▸ hverify [])
        · rw [if_neg hmac] at h
          exact h.fits _ (hverify _)
      exact absurd hand.2 (Nat.not_lt_of_le hle)
    · intro hno
      have hlong : macLen req.pinUvAuthProtocol ≤ param.length := by
        by_contra hshort
        exact hno ⟨rfl, Nat.lt_of_not_le hshort⟩
      have hbefore : ∀ a, BufferStep.access a ∈
          [BufferStep.access (.copy newPinEnc.length changeTmpSize),
            .access (.copy (newPinEnc.length + pinHashEnc.length) changeTmpSize),
            .access (.verify req.pinUvAuthProtocol param.length)] → a.Fits := by
        intro a ha
        simp only [List.mem_cons, BufferStep.access.injEq, List.not_mem_nil, or_false] at ha
        rcases ha with rfl | rfl | rfl
        · show newPinEnc.length ≤ changeTmpSize
          omega
        · exact hroom
        · exact hlong
      -- with these checks no length of the request violates anything
      have hnone : ¬ (param.length < macLen req.pinUvAuthProtocol ∨
          ¬ decryptFits req.pinUvAuthProtocol (cut16 pinHashEnc.length) paddedNewPinSize ∨
          ¬ decryptFits req.pinUvAuthProtocol (cut16 newPinEnc.length) paddedNewPinSize) := by
        rintro (hshort | hbad | hbad)
        · exact absurd hshort (Nat.not_lt_of_le hlong)
        · exact hbad hdecHash
        · exact hbad hdecNew
      refine ⟨?_, fun hviolates => absurd hviolates hnone⟩
      intro a ha
      by_cases hmac : verifyMac d b req.pinUvAuthProtocol secret (newPinEnc ++ pinHashEnc) param = false
      · rw [if_pos hmac] at ha
        exact hbefore a ha
      rw [if_neg hmac] at ha
      rcases List.mem_append.mp ha with ha | ha
      · exact hbefore a ha
      · have hafter := spendSteps_fits ha
        have hcases : a = .decrypt req.pinUvAuthProtocol (cut16 pinHashEnc.length) paddedNewPinSize ∨
            a = .decrypt req.pinUvAuthProtocol (cut16 newPinEnc.length) paddedNewPinSize := by
          split_ifs at hafter
          · exact .inl (BufferStep.access.inj (List.mem_singleton.mp hafter))
          · exact .inl (BufferStep.access.inj (List.mem_singleton.mp hafter))
          · rcases List.mem_cons.mp hafter with hx | hx
            · exact .inl (BufferStep.access.inj hx)
            · exact .inr (BufferStep.access.inj (List.mem_singleton.mp hx))
        rcases hcases with rfl | rfl
        · exact hdecHash
        · exact hdecNew

theorem getPinToken_guarded_iff {withPermissions : Bool} :
    Guarded (PinCommand.Violates (.getPinToken withPermissions req))
        (getPinTokenSteps d r withPermissions req v files) ↔
      ¬ PinCommand.Overruns d r v files (.getPinToken withPermissions req) := by
  show Guarded (¬ decryptFits req.pinUvAuthProtocol (cut16 (lengthOf req.pinHashEnc)) tokenPinSize) _ ↔
    ¬ ((getPinTokenGuards d withPermissions req v files).isOk = true ∧ _ ∧ r.persisted = true ∧
      ¬ decryptFits req.pinUvAuthProtocol (cut16 (lengthOf req.pinHashEnc)) tokenPinSize)
  unfold getPinTokenSteps
  cases hguards : getPinTokenGuards d withPermissions req v files with
  | error e => exact ⟨fun _ hand => Bool.false_ne_true hand.1, fun _ => guarded_error _ e⟩
  | ok found =>
    obtain ⟨secret, pinHashEnc⟩ := found
    have hlen : lengthOf req.pinHashEnc = pinHashEnc.length := by
      rw [getPinTokenGuards_found hguards]
      rfl
    rw [hlen]
    dsimp only
    unfold spendSteps
    cases hload : loadPinData (files .efPin) with
    | none =>
      refine ⟨fun _ hand => ?_, fun _ => guarded_error _ _⟩
      obtain ⟨-, ⟨loaded, hloaded, -⟩, -⟩ := hand
      cases hloaded
    | some loaded =>
      dsimp only
      by_cases hzero : retryCount (loaded.1.headD 0) = 0
      · rw [if_pos hzero]
        refine ⟨fun _ hand => ?_, fun _ => guarded_error _ _⟩
        obtain ⟨-, ⟨loaded', hloaded, hne⟩, -⟩ := hand
        obtain rfl := Option.some.inj hloaded
        exact hne hzero
      rw [if_neg hzero]
      by_cases hpersist : r.persisted = false
      · rw [if_pos hpersist]
        refine ⟨fun _ hand => ?_, fun _ => guarded_error _ _⟩
        rw [hpersist] at hand
        exact Bool.false_ne_true hand.2.2.1
      rw [if_neg hpersist]
      have hpersisted : r.persisted = true := Bool.eq_true_of_not_eq_false hpersist
      constructor
      · intro h hand
        exact hand.2.2.2 (h.fits (.decrypt _ _ _) (List.mem_cons_of_mem _ List.mem_cons_self))
      · intro hno
        have hfit : decryptFits req.pinUvAuthProtocol (cut16 pinHashEnc.length) tokenPinSize := by
          by_contra hbad
          exact hno ⟨rfl, ⟨loaded, rfl, hzero⟩, hpersisted, hbad⟩
        refine ⟨?_, fun hviolates => absurd hfit hviolates⟩
        intro a ha
        rcases List.mem_cons.mp ha with ha | ha
        · cases ha
        · rw [List.mem_singleton, BufferStep.access.injEq] at ha
          rw [ha]
          exact hfit

theorem auth_guarded_iff {ε : Type} (verifies : Nat → Bytes → Bool) (denied : ε) (checks : Option ε)
    (param : Option Bytes) (protocol : Option Nat) :
    Guarded (ShortParam param protocol) (authSteps verifies denied checks param protocol) ↔
      ¬ (checks = none ∧ ShortParam param protocol) := by
  unfold authSteps
  cases checks with
  | some err => exact ⟨fun _ hand => Option.some_ne_none err hand.1, fun _ => guarded_error _ err⟩
  | none =>
    cases param with
    | none =>
      refine ⟨fun _ hand => Bool.false_ne_true hand.2.1, fun _ => ⟨?_, fun h => ?_⟩⟩
      · intro a ha
        cases ha
      · exact absurd h.1 Bool.false_ne_true
    | some sign =>
      have hshort : ShortParam (some sign) protocol ↔ sign.length < macLen (protocol.getD 0 % 256) :=
        ⟨fun h => h.2, fun h => ⟨rfl, h⟩⟩
      dsimp only
      rw [hshort]
      constructor
      · intro h hand
        have hle : macLen (protocol.getD 0 % 256) ≤ sign.length := by
          by_cases hmac : verifies (protocol.getD 0 % 256) sign = false
          · rw [if_pos hmac] at h
            exact h.fits _ List.mem_cons_self
          · rw [if_neg hmac] at h
            exact h.fits _ List.mem_cons_self
        exact absurd hand.2 (Nat.not_lt_of_le hle)
      · intro hno
        have hlong : macLen (protocol.getD 0 % 256) ≤ sign.length := by
          by_contra hlt
          exact hno ⟨rfl, Nat.lt_of_not_le hlt⟩
        refine ⟨?_, fun h => absurd h (Nat.not_lt_of_le hlong)⟩
        intro a ha
        have hsame : a = .verify (protocol.getD 0 % 256) sign.length := by
          split_ifs at ha
          · exact BufferStep.access.inj (List.mem_singleton.mp ha)
          · exact BufferStep.access.inj (List.mem_singleton.mp ha)
        rw [hsame]
        exact hlong

end Proofs

theorem not_overruns_of_protocol {d : Device} {r : PinReplies} {v : FidoVars} {files : Files}
    {cmd : PinCommand} (h1 : cmd.request.pinUvAuthProtocol ≠ 1) (h2 : cmd.request.pinUvAuthProtocol ≠ 2) :
    ¬ cmd.Overruns d r v files := by
  have hmac : macLen cmd.request.pinUvAuthProtocol = 0 := by
    unfold macLen
    rw [if_neg h1, if_neg h2]
  cases cmd with
  | setPin req =>
    intro hover
    have hlt : lengthOf req.pinUvAuthParam < macLen req.pinUvAuthProtocol := hover.2
    have hzero : macLen req.pinUvAuthProtocol = 0 := hmac
    omega
  | changePin req =>
    intro hover
    have hlt : lengthOf req.pinUvAuthParam < macLen req.pinUvAuthProtocol := hover.2
    have hzero : macLen req.pinUvAuthProtocol = 0 := hmac
    omega
  | getPinToken withPermissions req =>
    intro hover
    exact hover.2.2.2 ⟨fun hp => absurd hp h1, fun hp => absurd hp h2⟩

/-- The buffers hold exactly for the requests that do not reach one of the unchecked calls with lengths
that it cannot take: for every clientPIN request, and for the verify calls of makeCredential and
getAssertion. -/
theorem buffers_guarded_iff (d : Device) (b : Beyond) (r : PinReplies) (v : FidoVars) (files : Files)
    (cmd : PinCommand) (mc : McSetting) (mcReq : McRequest) (ga : Cred.Assert.Setting)
    (gaReq : Cred.Assert.Request) :
    (Guarded cmd.Violates (clientPinSteps d b r cmd v files) ↔ ¬ cmd.Overruns d r v files) ∧
    (Guarded (ShortParam mcReq.pinUvAuthParam mcReq.pinUvAuthProtocol) (makeCredentialSteps mc mcReq) ↔
      ¬ (mcChecks mc mcReq = none ∧ ShortParam mcReq.pinUvAuthParam mcReq.pinUvAuthProtocol)) ∧
    (Guarded (ShortParam gaReq.pinUvAuthParam gaReq.pinUvAuthProtocol) (getAssertionSteps ga gaReq) ↔
      ¬ (gaChecks ga gaReq = none ∧ ShortParam gaReq.pinUvAuthParam gaReq.pinUvAuthProtocol)) := by
  refine ⟨?_, auth_guarded_iff _ _ _ _ _, auth_guarded_iff _ _ _ _ _⟩
  unfold clientPinSteps
  by_cases hstop : cmd.request.pinUvAuthProtocol ≠ 1 ∧ cmd.request.pinUvAuthProtocol ≠ 2
  · rw [if_pos hstop]
    exact ⟨fun _ => not_overruns_of_protocol hstop.1 hstop.2, fun _ => guarded_error _ _⟩
  rw [if_neg hstop]
  cases cmd with
  | setPin req => exact setPin_guarded_iff
  | changePin req => exact changePin_guarded_iff
  | getPinToken withPermissions req => exact getPinToken_guarded_iff

/-- getPinToken under protocol 1 with a pinHashEnc of `n` bytes, and nothing that needs a token. -/
def tokenRequest (n : Nat) : PinCommand :=
  .getPinToken false {
    pinUvAuthProtocol := 1
    kax := some []
    kay := some []
    alg := -25
    pinUvAuthParam := none
    newPinEnc := none
    pinHashEnc := some (List.replicate n 0)
    permissions := 0
    rpId := none }

/-- A device with a PIN, all eight retries left. -/
def pinFiles : Files := fun fid =>
  if fid = .efPin then some ⟨8 :: List.replicate 34 0, []⟩ else none

def zeroBeyond : Beyond where
  flash := fun _ => 0
  heap := fun _ => 0
  stack := fun _ => 0

def plainVars : FidoVars where
  sessionPin := []
  needsPowerCycle := false
  newPinMismatches := 0
  keydevUnlocked := false
  hasKeydevDec := false
  keydevDec := []
  mse := none
  hkey := 1
  drawn := 0
  permissions := 0
  persistentPermissions := 0

theorem tokenRequest_steps :
    clientPinSteps plainDevice zeroBeyond ⟨true, true⟩ (tokenRequest 80) plainVars pinFiles =
      ([.retry, .access (.decrypt 1 80 64)], none) := by
  decide

/-- 80 bytes go into an array of 64, behind a retry that is used up. -/
theorem pinHashEnc_overruns :
    ¬ Guarded (PinCommand.Violates (tokenRequest 80))
      (clientPinSteps plainDevice zeroBeyond ⟨true, true⟩ (tokenRequest 80) plainVars pinFiles) := by
  rw [tokenRequest_steps]
  intro h
  have hfits : Access.Fits (.decrypt 1 80 64) :=
    h.fits _ (List.mem_cons_of_mem _ List.mem_cons_self)
  have hle : 80 ≤ 64 := hfits.1 rfl
  omega

end KeyWallet
