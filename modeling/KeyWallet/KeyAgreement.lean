import KeyWallet.AssertionWalk
import KeyWallet.KeyFormats

/-! The key agreement of cbor_client_pin.c on which setPIN, changePIN, getPinToken, hmac-secret and hmac-secret-mc
rest. The curve, the hash and HKDF are parameters. -/
namespace KeyWallet.Agree

open CrashProgram
open Cred.Assert (Setting HmacInput hmacOutput recordSetting)

/-- What the library does. -/
structure Library where
  -- mbedtls_mpi_read_binary succeeds
  readBinary : Bytes → Bool
  -- mbedtls_ecdh_compute_shared: whether it succeeds, and z as it leaves it
  computeShared : (hkey : Nat) → (kax kay : Bytes) → Bool × Nat
  sha256 : Bytes → Option Bytes
  hkdf : (info key : Bytes) → Option Bytes

variable (lib : Library)

/-- mbedtls_mpi_write_binary into 32 bytes. -/
def writeBinary (z : Nat) : Option Bytes :=
  let bytes := (List.range 32).map fun i => BitVec.ofNat 8 (z >>> (8 * (31 - i)))
  if z >>> 256 = 0 then some bytes else none

def hmacKeyInfo : Bytes := [67, 84, 65, 80, 50, 32, 72, 77, 65, 67, 32, 107, 101, 121]
def aesKeyInfo : Bytes := [67, 84, 65, 80, 50, 32, 65, 69, 83, 32, 107, 101, 121]

def kdf (protocol z : Nat) : Option Bytes :=
  match writeBinary z with
  | none => none
  | some buf =>
    if protocol = 1 then lib.sha256 buf
    else if protocol = 2 then
      match lib.hkdf hmacKeyInfo buf, lib.hkdf aesKeyInfo buf with
      | some first, some second => some (first ++ second)
      | _, _ => none
    else none

/-- ecdh, whose result is the one of kdf. -/
def ecdh (hkey protocol : Nat) (kax kay : Bytes) : Option Bytes :=
  let z := (lib.computeShared hkey kax kay).2
  kdf lib protocol z

/-- The point of the platform has a shared point with the key of the device. -/
def computed (hkey : Nat) (kax kay : Bytes) : Bool := (lib.computeShared hkey kax kay).1

/-- The shared secret of a request; both coordinates are read first. -/
def secretOf (hkey protocol : Nat) (kax kay : Bytes) : Option Bytes :=
  if lib.readBinary kax && lib.readBinary kay then ecdh lib hkey protocol kax kay else none

/-- A device that agrees on keys with this library. -/
def onDevice (d : Device) : Device := { d with ecdh := secretOf lib }

def onSetting (hkey : Nat) (e : Setting) : Setting := { e with crypto := { e.crypto with ecdh := secretOf lib hkey } }

/-! What a refused key agreement comes to. -/

/-- The flow ends with an error that is the same whatever the cipher gives and the storage replies, without any
storage operation and with nothing changed. -/
def Refuses (flow : Device → Fido Unit) (d : Device) (m : FidoMachine) : Prop :=
  ∃ err, ∀ decrypt rs, exec (flow { d with decrypt := decrypt }) m rs = (.fail err, m, rs)

/-- The same for the outputs of hmac-secret and hmac-secret-mc, also whatever the keys of the credential are. -/
def RefusesHmac (e : Setting) (h : HmacInput) (seed : Bytes) (uv : Bool) : Prop :=
  ∃ status, ∀ decrypt hmacKey,
    hmacOutput { e with crypto := { e.crypto with decrypt := decrypt, hmacKey := hmacKey } } h seed uv = .error status

/-! The other checks of the flows, for a given secret. -/

structure SetPinPasses (d : Device) (b : Beyond) (req : PinRequest) (files : Files) (secret : Bytes) : Prop where
  kax : req.kax.isSome = true
  kay : req.kay.isSome = true
  alg : req.alg ≠ 0
  fresh : fileHasData (files .efPin) = false
  encrypted : ∃ newPinEnc param, req.newPinEnc = some newPinEnc ∧ req.pinUvAuthParam = some param ∧
    newPinEncFits req.pinUvAuthProtocol newPinEnc.length = true ∧
    verifyMac d b req.pinUvAuthProtocol secret newPinEnc param = true ∧
    newPinPlainLen req.pinUvAuthProtocol newPinEnc.length ≤ 256 + ivSize

/-- A PIN is set, and its file can be read and has retries left. -/
structure PinReady (files : Files) : Prop where
  present : fileHasData (files .efPin) = true
  retries : retryCount ((fileBytes (files .efPin)).headD 0) ≠ 0
  readable : (loadPinData (files .efPin)).isSome = true

structure ChangePinPasses (d : Device) (b : Beyond) (req : PinRequest) (v : FidoVars) (files : Files)
    (secret : Bytes) : Prop where
  kax : req.kax.isSome = true
  kay : req.kay.isSome = true
  alg : req.alg ≠ 0
  ready : PinReady files
  unlocked : v.needsPowerCycle = false
  encrypted : ∃ newPinEnc param pinHashEnc, req.newPinEnc = some newPinEnc ∧ req.pinUvAuthParam = some param ∧
    req.pinHashEnc = some pinHashEnc ∧
    ¬ (newPinEncFits req.pinUvAuthProtocol newPinEnc.length = false ∨
      (req.pinUvAuthProtocol = 1 ∧ pinHashEnc.length ≠ 16) ∨
      (req.pinUvAuthProtocol = 2 ∧ pinHashEnc.length ≠ 16 + ivSize)) ∧
    ¬ ((req.pinUvAuthProtocol = 1 ∧ 256 < newPinEnc.length) ∨
      (req.pinUvAuthProtocol = 2 ∧ 256 + ivSize < newPinEnc.length)) ∧
    verifyMac d b req.pinUvAuthProtocol secret (newPinEnc ++ pinHashEnc) param = true

/-- getPinToken has no authenticator over its input. -/
structure GetPinTokenPasses (withPermissions : Bool) (req : PinRequest) (files : Files) : Prop where
  kax : req.kax.isSome = true
  kay : req.kay.isSome = true
  hash : req.pinHashEnc.isSome = true
  alg : req.alg ≠ 0
  bare : ¬ (withPermissions = false ∧ (req.permissions ≠ 0 ∨ req.rpId.isSome))
  some : ¬ (withPermissions = true ∧ req.permissions = 0)
  noBe : ¬ (withPermissions = true ∧ req.permissions &&& permissionBe ≠ 0)
  alone : ¬ (withPermissions = true ∧ req.permissions &&& permissionPcmr ≠ 0 ∧ req.permissions ≠ permissionPcmr)
  ready : PinReady files

structure HmacPasses (e : Setting) (h : HmacInput) (secret : Bytes) : Prop where
  auth : e.crypto.verifyHmacSecret h.protocol secret (h.saltEnc.getD []) (h.saltAuth.getD []) = true
  salts : (h.saltEnc.getD []).length = 32 + (h.protocol - 1) * 16 ∨
    (h.saltEnc.getD []).length = 64 + (h.protocol - 1) * 16

/-! setPIN. -/
section SetPin

variable (d : Device) (b : Beyond) (req : PinRequest) (m : FidoMachine)

theorem exec_setPin (rs : List Reply) : exec (setPin d b req) m rs =
    match setPinGuards d b req m.vars m.view with
    | .error err => (.fail err, m, rs)
    | .ok (secret, newPinEnc) => exec (setAccepted d b req secret newPinEnc) m rs := by
  unfold setPin
  rw [bind_eq]
  cases hguards : setPinGuards d b req m.vars m.view <;>
    simp only [consult, Prog.bind, exec, hguards, bind_eq, liftCheck]

theorem setPinGuards_pass {secret : Bytes} (hsecret : sharedSecret d m.vars req = .ok secret)
    (h : SetPinPasses d b req m.view secret) :
    ∃ newPinEnc, setPinGuards d b req m.vars m.view = .ok (secret, newPinEnc) := by
  obtain ⟨newPinEnc, param, henc, hparam, hfits, hmac, hlen⟩ := h.encrypted
  obtain ⟨kax, hkax⟩ := Option.isSome_iff_exists.mp h.kax
  obtain ⟨kay, hkay⟩ := Option.isSome_iff_exists.mp h.kay
  refine ⟨newPinEnc, ?_⟩
  unfold setPinGuards
  simp only [hkax, hkay, henc, hparam]
  rw [if_neg h.alg, h.fresh, if_neg Bool.false_ne_true, hfits, if_neg (by decide), hsecret]
  simp only [bind, Except.bind]
  rw [hmac, if_neg (by decide), if_neg (Nat.not_lt.mpr hlen)]

theorem setPinGuards_ok {secret newPinEnc : Bytes}
    (h : setPinGuards d b req m.vars m.view = .ok (secret, newPinEnc)) :
    sharedSecret d m.vars req = .ok secret ∧ SetPinPasses d b req m.view secret := by
  unfold setPinGuards at h
  split at h
  · next hkax hkay henc hparam =>
    by_cases halg : req.alg = 0
    · rw [if_pos halg] at h
      cases h
    rw [if_neg halg] at h
    by_cases hfresh : fileHasData (m.view .efPin) = true
    · rw [if_pos hfresh] at h
      cases h
    rw [if_neg hfresh] at h
    split at h
    · cases h
    next hfits =>
    cases hsecret : sharedSecret d m.vars req with
    | error err =>
      rw [hsecret] at h
      cases h
    | ok agreed =>
      rw [hsecret] at h
      simp only [bind, Except.bind] at h
      split at h
      · cases h
      next hmac =>
      split at h
      · cases h
      next hlen =>
      cases h
      refine ⟨rfl, ?_⟩
      exact ⟨Option.isSome_iff_exists.mpr ⟨_, hkax⟩, Option.isSome_iff_exists.mpr ⟨_, hkay⟩, halg,
        Bool.not_eq_true _ ▸ hfresh, _, _, henc, hparam, by simpa using hfits, by simpa using hmac, Nat.not_lt.mp hlen⟩
  · cases h

theorem setAccepted_bad (secret newPinEnc : Bytes) (hdecrypt : ∀ p k x, d.decrypt p k x = some (List.replicate 64 1)) :
    exec (setAccepted d b req secret newPinEnc) m [] = (.fail .pinPolicyViolation, m, []) := by
  have hcheck (plainLen : Nat) : checkNewPin b m.view plainLen (List.replicate 64 1) = .error .pinPolicyViolation := by
    unfold checkNewPin
    exact if_pos (.inr (by decide))
  unfold setAccepted
  simp only [hdecrypt, bind_eq, consult, Prog.bind, exec, hcheck, liftCheck]

theorem setPin_refuses_iff : Refuses (fun d => setPin d b req) d m ↔
    ∀ secret, sharedSecret d m.vars req = .ok secret → ¬ SetPinPasses d b req m.view secret := by
  constructor
  · intro h secret hsecret hpasses
    obtain ⟨err, h⟩ := h
    obtain ⟨newPinEnc, hguards⟩ := setPinGuards_pass d b req m hsecret hpasses
    -- two ciphers that end differently
    have hnone := h (fun _ _ _ => none) []
    have hsome := h (fun _ _ _ => some (List.replicate 64 1)) []
    simp only [exec_setPin] at hnone hsome
    have hguards' (decrypt : Nat → Bytes → Bytes → Option Bytes) :
        setPinGuards { d with decrypt := decrypt } b req m.vars m.view = .ok (secret, newPinEnc) := hguards
    rw [hguards'] at hnone hsome
    have hinvalid : err = .pinAuthInvalid := Outcome.fail.inj (congrArg Prod.fst hnone).symm
    have hbad := setAccepted_bad { d with decrypt := fun _ _ _ => some (List.replicate 64 1) } b req m secret newPinEnc
      fun _ _ _ => rfl
    have hpolicy : err = .pinPolicyViolation := Outcome.fail.inj (congrArg Prod.fst (hsome.symm.trans hbad))
    rw [hinvalid] at hpolicy
    cases hpolicy
  · intro h
    cases hguards : setPinGuards d b req m.vars m.view with
    | error err =>
      refine ⟨err, ?_⟩
      intro decrypt rs
      have hguards' : setPinGuards { d with decrypt := decrypt } b req m.vars m.view = .error err := hguards
      simp only [exec_setPin, hguards']
    | ok got =>
      obtain ⟨hsecret, hpasses⟩ := setPinGuards_ok d b req m hguards
      exact (h _ hsecret hpasses).elim

end SetPin

/-! changePIN and getPinToken spend a retry behind their checks. -/
section Spend

variable (d : Device) (b : Beyond) (req : PinRequest) (m : FidoMachine)

theorem spendRetry_lost (hready : PinReady m.view) : (exec spendRetry m [.powerLoss]).1 = .lost := by
  obtain ⟨⟨loaded, len⟩, hload⟩ := Option.isSome_iff_exists.mp hready.readable
  have hhead : loaded.headD 0 = (fileBytes (m.view .efPin)).headD 0 := by
    unfold loadPinData at hload
    split at hload
    · next hsize =>
      cases hload
      cases hbytes : fileBytes (m.view .efPin) with
      | nil =>
        have hzero : fileGetSize (m.view .efPin) = 0 := congrArg List.length hbytes
        rw [hzero] at hsize
        rcases hsize with hsize | hsize <;> cases hsize
      | cons x xs => rfl
    · cases hload
  have hcount : retryCount (loaded.headD 0) ≠ 0 := hhead ▸ hready.retries
  unfold spendRetry
  simp only [bind_eq, readFile, consult, Prog.bind, exec, hload]
  rw [if_neg hcount]
  rfl

theorem spendRetry_unreadable (hload : loadPinData (m.view .efPin) = none) (rs : List Reply) :
    exec spendRetry m rs = (.fail .processing, m, rs) := by
  unfold spendRetry
  simp only [bind_eq, readFile, consult, Prog.bind, exec, hload]

theorem spend_refuses_iff {α : Type} (flow : Device → Fido Unit) (guards : Except CtapErr α)
    (rest : Device → α → Bytes × Nat → Fido Unit)
    (hflow : ∀ decrypt rs, exec (flow { d with decrypt := decrypt }) m rs =
      exec ((liftCheck guards).bind fun a => spendRetry.bind (rest { d with decrypt := decrypt } a)) m rs)
    (hready : ∀ a, guards = .ok a → fileHasData (m.view .efPin) = true ∧
      retryCount ((fileBytes (m.view .efPin)).headD 0) ≠ 0) :
    Refuses flow d m ↔ ∀ a, guards = .ok a → (loadPinData (m.view .efPin)).isSome = false := by
  unfold Refuses
  simp only [hflow]
  cases guards with
  | error err =>
    constructor
    · intro _ a ha
      cases ha
    · exact fun _ => ⟨err, fun _ _ => rfl⟩
  | ok a =>
    obtain ⟨hpresent, hretries⟩ := hready a rfl
    constructor
    · intro h a' _
      obtain ⟨err, h⟩ := h
      have hlost := h d.decrypt [.powerLoss]
      by_contra hreadable
      rw [Bool.not_eq_false] at hreadable
      -- the power goes at the write of the retry counter
      have hspent := exec_bind_lost (g := rest d a) (spendRetry_lost m ⟨hpresent, hretries, hreadable⟩)
      have hrun : (exec (spendRetry.bind (rest d a)) m [.powerLoss]).1 = .fail err := congrArg Prod.fst hlost
      rw [hspent] at hrun
      cases hrun
    · intro h
      refine ⟨.processing, ?_⟩
      intro decrypt rs
      have hload : loadPinData (m.view .efPin) = none := by
        have hnone := h a rfl
        rwa [Option.isSome_eq_false_iff, Option.isNone_iff_eq_none] at hnone
      have hrun : exec (spendRetry.bind (rest { d with decrypt := decrypt } a)) m rs = (.fail .processing, m, rs) :=
        exec_bind_fail (spendRetry_unreadable m hload rs)
      exact hrun

theorem changePinGuards_pass {secret : Bytes} (hsecret : sharedSecret d m.vars req = .ok secret)
    (h : ChangePinPasses d b req m.vars m.view secret) :
    ∃ a, changePinGuards d b req m.vars m.view = .ok a := by
  obtain ⟨newPinEnc, param, pinHashEnc, henc, hparam, hhash, hfits, hlen, hmac⟩ := h.encrypted
  obtain ⟨kax, hkax⟩ := Option.isSome_iff_exists.mp h.kax
  obtain ⟨kay, hkay⟩ := Option.isSome_iff_exists.mp h.kay
  refine ⟨(secret, newPinEnc, pinHashEnc), ?_⟩
  unfold changePinGuards
  simp only [hkax, hkay, henc, hparam, hhash]
  rw [if_neg h.alg, h.ready.present, if_neg (by decide), if_neg h.ready.retries, h.unlocked, if_neg Bool.false_ne_true,
    if_neg hfits, if_neg hlen, hsecret]
  simp only [bind, Except.bind]
  rw [hmac, if_neg (by decide)]

theorem changePinGuards_ok {a : Bytes × Bytes × Bytes} (h : changePinGuards d b req m.vars m.view = .ok a) :
    ∃ secret, sharedSecret d m.vars req = .ok secret ∧ fileHasData (m.view .efPin) = true ∧
      retryCount ((fileBytes (m.view .efPin)).headD 0) ≠ 0 ∧
      ((loadPinData (m.view .efPin)).isSome = true → ChangePinPasses d b req m.vars m.view secret) := by
  unfold changePinGuards at h
  split at h
  · next hkax hkay henc hparam hhash =>
    by_cases halg : req.alg = 0
    · rw [if_pos halg] at h
      cases h
    rw [if_neg halg] at h
    by_cases hpresent : fileHasData (m.view .efPin) = false
    · rw [if_pos hpresent] at h
      cases h
    rw [if_neg hpresent] at h
    by_cases hretries : retryCount ((fileBytes (m.view .efPin)).headD 0) = 0
    · rw [if_pos hretries] at h
      cases h
    rw [if_neg hretries] at h
    by_cases hlocked : m.vars.needsPowerCycle = true
    · rw [if_pos hlocked] at h
      cases h
    rw [if_neg hlocked] at h
    split at h
    · cases h
    next hfits =>
    split at h
    · cases h
    next hlen =>
    cases hsecret : sharedSecret d m.vars req with
    | error err =>
      rw [hsecret] at h
      cases h
    | ok agreed =>
      rw [hsecret] at h
      simp only [bind, Except.bind] at h
      split at h
      · cases h
      next hmac =>
      have hpresent' : fileHasData (m.view .efPin) = true := by simpa using hpresent
      refine ⟨agreed, rfl, hpresent', hretries, ?_⟩
      intro hreadable
      exact ⟨Option.isSome_iff_exists.mpr ⟨_, hkax⟩, Option.isSome_iff_exists.mpr ⟨_, hkay⟩, halg,
        ⟨hpresent', hretries, hreadable⟩, by simpa using hlocked, _, _, _, henc, hparam, hhash, hfits, hlen,
        by simpa using hmac⟩
  · cases h

theorem changePin_refuses_iff : Refuses (fun d => changePin d b req) d m ↔
    ∀ secret, sharedSecret d m.vars req = .ok secret → ¬ ChangePinPasses d b req m.vars m.view secret := by
  have hready (a : Bytes × Bytes × Bytes) (ha : changePinGuards d b req m.vars m.view = .ok a) :
      fileHasData (m.view .efPin) = true ∧ retryCount ((fileBytes (m.view .efPin)).headD 0) ≠ 0 := by
    obtain ⟨-, -, hpresent, hretries, -⟩ := changePinGuards_ok d b req m ha
    exact ⟨hpresent, hretries⟩
  rw [spend_refuses_iff d m (fun d => changePin d b req) (changePinGuards d b req m.vars m.view)
    (fun d a r => (judgeCandidate d b req.pinUvAuthProtocol a.1 a.2.2 r.1 r.2).bind
      fun candidate => changeAccepted d b req a.1 a.2.1 r.1 r.2 candidate) (fun _ _ => rfl) hready]
  constructor
  · intro h secret hsecret hpasses
    obtain ⟨a, ha⟩ := changePinGuards_pass d b req m hsecret hpasses
    have hunreadable := h a ha
    rw [hpasses.ready.readable] at hunreadable
    cases hunreadable
  · intro h a ha
    obtain ⟨secret, hsecret, -, -, hpasses⟩ := changePinGuards_ok d b req m ha
    by_contra hreadable
    exact h secret hsecret (hpasses (Bool.eq_true_of_not_eq_false hreadable))

variable (withPermissions : Bool)

theorem getPinTokenGuards_pass {secret : Bytes} (hsecret : sharedSecret d m.vars req = .ok secret)
    (h : GetPinTokenPasses withPermissions req m.view) :
    ∃ a, getPinTokenGuards d withPermissions req m.vars m.view = .ok a := by
  obtain ⟨kax, hkax⟩ := Option.isSome_iff_exists.mp h.kax
  obtain ⟨kay, hkay⟩ := Option.isSome_iff_exists.mp h.kay
  obtain ⟨pinHashEnc, hhash⟩ := Option.isSome_iff_exists.mp h.hash
  refine ⟨(secret, pinHashEnc), ?_⟩
  unfold getPinTokenGuards
  simp only [hkax, hkay, hhash]
  rw [if_neg h.alg, if_neg h.bare, if_neg h.some, if_neg h.noBe, if_neg h.alone, h.ready.present, if_neg (by decide),
    if_neg h.ready.retries, hsecret]
  rfl

theorem getPinTokenGuards_ok {a : Bytes × Bytes} (h : getPinTokenGuards d withPermissions req m.vars m.view = .ok a) :
    ∃ secret, sharedSecret d m.vars req = .ok secret ∧ fileHasData (m.view .efPin) = true ∧
      retryCount ((fileBytes (m.view .efPin)).headD 0) ≠ 0 ∧
      ((loadPinData (m.view .efPin)).isSome = true → GetPinTokenPasses withPermissions req m.view) := by
  unfold getPinTokenGuards at h
  split at h
  · next hkax hkay hhash =>
    by_cases halg : req.alg = 0
    · rw [if_pos halg] at h
      cases h
    rw [if_neg halg] at h
    split at h
    · cases h
    next hbare =>
    split at h
    · cases h
    next hsome =>
    split at h
    · cases h
    next hnoBe =>
    split at h
    · cases h
    next halone =>
    by_cases hpresent : fileHasData (m.view .efPin) = false
    · rw [if_pos hpresent] at h
      cases h
    rw [if_neg hpresent] at h
    by_cases hretries : retryCount ((fileBytes (m.view .efPin)).headD 0) = 0
    · rw [if_pos hretries] at h
      cases h
    rw [if_neg hretries] at h
    cases hsecret : sharedSecret d m.vars req with
    | error err =>
      rw [hsecret] at h
      cases h
    | ok agreed =>
      have hpresent' : fileHasData (m.view .efPin) = true := Bool.eq_true_of_not_eq_false hpresent
      refine ⟨agreed, rfl, hpresent', hretries, ?_⟩
      intro hreadable
      exact ⟨Option.isSome_iff_exists.mpr ⟨_, hkax⟩, Option.isSome_iff_exists.mpr ⟨_, hkay⟩,
        Option.isSome_iff_exists.mpr ⟨_, hhash⟩, halg, hbare, hsome, hnoBe, halone, ⟨hpresent', hretries, hreadable⟩⟩
  · cases h

theorem getPinToken_refuses_iff : Refuses (fun d => getPinToken d b withPermissions req) d m ↔
    ∀ secret, sharedSecret d m.vars req = .ok secret → ¬ GetPinTokenPasses withPermissions req m.view := by
  have hready (a : Bytes × Bytes) (ha : getPinTokenGuards d withPermissions req m.vars m.view = .ok a) :
      fileHasData (m.view .efPin) = true ∧ retryCount ((fileBytes (m.view .efPin)).headD 0) ≠ 0 := by
    obtain ⟨-, -, hpresent, hretries, -⟩ := getPinTokenGuards_ok d req m withPermissions ha
    exact ⟨hpresent, hretries⟩
  rw [spend_refuses_iff d m (fun d => getPinToken d b withPermissions req)
    (getPinTokenGuards d withPermissions req m.vars m.view)
    (fun d a r => (judgeCandidate d b req.pinUvAuthProtocol a.1 a.2 r.1 r.2).bind
      fun candidate => tokenAccepted d b withPermissions req r.1 r.2 candidate) (fun _ _ => rfl) hready]
  constructor
  · intro h secret hsecret hpasses
    obtain ⟨a, ha⟩ := getPinTokenGuards_pass d req m withPermissions hsecret hpasses
    have hunreadable := h a ha
    rw [hpasses.ready.readable] at hunreadable
    cases hunreadable
  · intro h a ha
    obtain ⟨secret, hsecret, -, -, hpasses⟩ := getPinTokenGuards_ok d req m withPermissions ha
    by_contra hreadable
    exact h secret hsecret (hpasses (Bool.eq_true_of_not_eq_false hreadable))

end Spend

/-! hmac-secret and hmac-secret-mc: cbor_get_assertion.c and cbor_make_credential.c have the same text. -/
section Hmac

variable (e : Setting) (h : HmacInput) (seed : Bytes) (uv : Bool)

theorem hmac_refuses_iff : RefusesHmac e h seed uv ↔
    ∀ secret, e.crypto.ecdh h.protocol (h.kax.getD []) (h.kay.getD []) = some secret → ¬ HmacPasses e h secret := by
  constructor
  · intro hrefuses secret hsecret hpasses
    obtain ⟨status, hrefuses⟩ := hrefuses
    have hrun := hrefuses (fun _ _ _ => some []) fun _ => some []
    have hlen : ¬ ((h.saltEnc.getD []).length ≠ 32 + (h.protocol - 1) * 16 ∧
        (h.saltEnc.getD []).length ≠ 64 + (h.protocol - 1) * 16) := by
      have hsalts := hpasses.salts
      omega
    unfold hmacOutput at hrun
    simp only [hsecret, hpasses.auth, if_neg hlen] at hrun
    cases hrun
  · intro hrefused
    cases hsecret : e.crypto.ecdh h.protocol (h.kax.getD []) (h.kay.getD []) with
    | none =>
      refine ⟨.invalidParameter, ?_⟩
      intro decrypt hmacKey
      unfold hmacOutput
      simp only [hsecret]
    | some secret =>
      by_cases hauth : e.crypto.verifyHmacSecret h.protocol secret (h.saltEnc.getD []) (h.saltAuth.getD []) = true
      · have hlen : (h.saltEnc.getD []).length ≠ 32 + (h.protocol - 1) * 16 ∧
            (h.saltEnc.getD []).length ≠ 64 + (h.protocol - 1) * 16 := by
          by_contra hlen
          exact hrefused secret hsecret ⟨hauth, by omega⟩
        refine ⟨.invalidParameter, ?_⟩
        intro decrypt hmacKey
        unfold hmacOutput
        simp only [hsecret, hauth]
        rw [if_neg (by decide), if_pos hlen]
      · refine ⟨.pinAuthInvalid, ?_⟩
        intro decrypt hmacKey
        unfold hmacOutput
        simp only [hsecret]
        rw [if_pos (Bool.eq_false_of_not_eq_true hauth)]

end Hmac

theorem sharedSecret_onDevice (d : Device) (v : FidoVars) (req : PinRequest) (secret : Bytes) :
    sharedSecret (onDevice lib d) v req = .ok secret ↔
      secretOf lib v.hkey req.pinUvAuthProtocol (req.kax.getD []) (req.kay.getD []) = some secret := by
  have hecdh : (onDevice lib d).ecdh = secretOf lib := rfl
  unfold sharedSecret
  rw [hecdh]
  cases secretOf lib v.hkey req.pinUvAuthProtocol (req.kax.getD []) (req.kay.getD []) with
  | none =>
    constructor
    · intro h
      cases h
    · intro h
      cases h
  | some agreed =>
    constructor
    · intro h
      cases h
      rfl
    · intro h
      cases h
      rfl

/-! The key agreement itself. -/

/-- No key is derived: z is too long, the protocol is unknown, or the library fails. -/
def KdfFails (protocol z : Nat) : Prop :=
  ∀ buf, writeBinary z = some buf →
    (protocol ≠ 1 ∧ protocol ≠ 2) ∨ (protocol = 1 ∧ lib.sha256 buf = none) ∨
      (protocol = 2 ∧ (lib.hkdf hmacKeyInfo buf = none ∨ lib.hkdf aesKeyInfo buf = none))

theorem kdf_none_iff (protocol z : Nat) : kdf lib protocol z = none ↔ KdfFails lib protocol z := by
  unfold kdf KdfFails
  cases writeBinary z with
  | none =>
    constructor
    · intro _ buf hbuf
      cases hbuf
    · exact fun _ => rfl
  | some buf =>
    simp only [Option.some.injEq, forall_eq']
    by_cases h1 : protocol = 1
    · simp [h1]
    · by_cases h2 : protocol = 2
      · simp only [h2]
        cases lib.hkdf hmacKeyInfo buf <;> cases lib.hkdf aesKeyInfo buf <;> simp
      · simp [h1, h2]

/-- The platform and the device have this secret in common, as far as ecdh tells. -/
structure Agreed (hkey protocol : Nat) (kax kay secret : Bytes) : Prop where
  readX : lib.readBinary kax = true
  readY : lib.readBinary kay = true
  derived : kdf lib protocol (lib.computeShared hkey kax kay).2 = some secret

theorem secretOf_iff (hkey protocol : Nat) (kax kay secret : Bytes) :
    secretOf lib hkey protocol kax kay = some secret ↔ Agreed lib hkey protocol kax kay secret := by
  unfold secretOf
  constructor
  · intro h
    split at h
    · next hread =>
      rw [Bool.and_eq_true] at hread
      exact ⟨hread.1, hread.2, h⟩
    · cases h
  · intro h
    rw [h.readX, h.readY]
    exact h.derived

section Flows

variable (d : Device) (b : Beyond) (req : PinRequest) (withPermissions : Bool) (m : FidoMachine)
variable (e : Setting) (h : HmacInput) (seed : Bytes) (uv : Bool)

/-- Whether the computation of the shared point fails or not, ecdh fails only with the key derivation, and each flow
refuses exactly where its other checks refuse the request or its authenticator does not fit what was derived. Nothing
in the code looks at how the computation ended. -/
theorem failed_agreement_iff :
    (ecdh lib m.vars.hkey req.pinUvAuthProtocol (req.kax.getD []) (req.kay.getD []) = none ↔
      KdfFails lib req.pinUvAuthProtocol (lib.computeShared m.vars.hkey (req.kax.getD []) (req.kay.getD [])).2) ∧
    (Refuses (fun d => setPin d b req) (onDevice lib d) m ↔
      ∀ secret, Agreed lib m.vars.hkey req.pinUvAuthProtocol (req.kax.getD []) (req.kay.getD []) secret →
        ¬ SetPinPasses (onDevice lib d) b req m.view secret) ∧
    (Refuses (fun d => changePin d b req) (onDevice lib d) m ↔
      ∀ secret, Agreed lib m.vars.hkey req.pinUvAuthProtocol (req.kax.getD []) (req.kay.getD []) secret →
        ¬ ChangePinPasses (onDevice lib d) b req m.vars m.view secret) ∧
    (Refuses (fun d => getPinToken d b withPermissions req) (onDevice lib d) m ↔
      ∀ secret, Agreed lib m.vars.hkey req.pinUvAuthProtocol (req.kax.getD []) (req.kay.getD []) secret →
        ¬ GetPinTokenPasses withPermissions req m.view) ∧
    (RefusesHmac (onSetting lib m.vars.hkey e) h seed uv ↔
      ∀ secret, Agreed lib m.vars.hkey h.protocol (h.kax.getD []) (h.kay.getD []) secret →
        ¬ HmacPasses (onSetting lib m.vars.hkey e) h secret) := by
  have hcrypto : (onSetting lib m.vars.hkey e).crypto.ecdh = secretOf lib m.vars.hkey := rfl
  refine ⟨kdf_none_iff lib _ _, ?_, ?_, ?_, ?_⟩
  · rw [setPin_refuses_iff]
    simp only [sharedSecret_onDevice, secretOf_iff]
  · rw [changePin_refuses_iff]
    simp only [sharedSecret_onDevice, secretOf_iff]
  · rw [getPinToken_refuses_iff]
    simp only [sharedSecret_onDevice, secretOf_iff]
  · rw [hmac_refuses_iff, hcrypto]
    simp only [secretOf_iff]

end Flows

/-- A library for which no point is on the curve. -/
def noPoint : Library where
  readBinary _ := true
  computeShared _ _ _ := (false, 0)
  sha256 data := some (data.take 32)
  hkdf _ key := some key

def nothingBeyond : Beyond := ⟨fun _ => 0, fun _ => 0, fun _ => 0⟩

def machineOf (files : Files) : FidoMachine :=
  { view := files, flash := files, vars := { FidoVars.atBoot with hkey := 1 }, log := [], dropped := [] }

/-- A device with a PIN. -/
def pinMachine : FidoMachine :=
  machineOf fun k => if k = .efPin then some ⟨8 :: List.replicate 34 0, []⟩ else none

/-- getPinToken with an invalid point. -/
def tokenRequest (pinHashEnc : Option Bytes) : PinRequest where
  pinUvAuthProtocol := 1
  kax := some []
  kay := some []
  alg := -25
  pinUvAuthParam := none
  newPinEnc := none
  pinHashEnc := pinHashEnc
  permissions := 0
  rpId := none

/-- setPIN with an invalid point, and an authenticator of ones. -/
def setRequest : PinRequest :=
  { tokenRequest none with newPinEnc := some (List.replicate 64 3), pinUvAuthParam := some (List.replicate 16 1) }

/-- The authenticator does not fit, and setPIN is refused. -/
theorem misfit_refused : Refuses (fun d => setPin d nothingBeyond setRequest) (onDevice noPoint plainDevice)
    (machineOf fun _ => none) := by
  refine (failed_agreement_iff noPoint plainDevice nothingBeyond setRequest false (machineOf fun _ => none)
    (recordSetting 0) {} [] false).2.1.mpr ?_
  rintro secret - hpasses
  obtain ⟨newPinEnc, param, hnew, hparam, -, hverify, -⟩ := hpasses.encrypted
  cases hnew
  cases hparam
  have hmisfit : readRaw nothingBeyond.heap (some ⟨List.replicate 16 1, []⟩) 0 16 ≠ (List.replicate 32 0).take 16 := by
    decide
  exact hmisfit (of_decide_eq_true hverify)

/-- With sixteen bytes for one, the computation fails, ecdh succeeds, and a retry is spent. -/
theorem token_retry_spent :
    computed noPoint 1 [] [] = false ∧ (ecdh noPoint 1 1 [] []).isSome = true ∧
      ¬ Refuses (fun d => getPinToken d nothingBeyond false (tokenRequest (some (List.replicate 16 9))))
        (onDevice noPoint plainDevice) pinMachine := by
  refine ⟨rfl, by decide, ?_⟩
  rw [getPinToken_refuses_iff]
  intro hrefused
  refine hrefused (List.replicate 32 0) (by decide) ?_
  exact ⟨rfl, rfl, rfl, by decide, by decide, by decide, by decide, by decide, ⟨by decide, by decide, by decide⟩⟩

end KeyWallet.Agree
