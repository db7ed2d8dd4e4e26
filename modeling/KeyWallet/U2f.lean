import Mathlib.Data.List.TakeDrop
import KeyWallet.CredEnvelope

/-! U2F: the key handles that cmd_register makes, which carry the path of their key, and the buffer that
cmd_authenticate reads them from. -/
namespace KeyWallet.U2f

open Envelope (Primitives AeadCall credentialVerify credentialLoad magic)

inductive Sw
  | ok
  | wrongLength
  | wrongData
  | incorrectParams
  | incorrectP1P2
  | conditionsNotSatisfied
  | securityStatusNotSatisfied
  | execError
  | channelBusy
  deriving DecidableEq, Repr

def ctapAuthEnforce : Byte := 0x03
def ctapAuthCheckOnly : Byte := 0x07
def ctapAuthFlagTup : Byte := 0x01
def keyPathLen : Nat := 32
def keyHandleLen : Nat := 64
def keyPathEntries : Nat := 8
def maxAttCertSize : Nat := 2048
def credProtUvRequired : Nat := 3

/-- mbedtls_md_hmac with SHA-256. Under one key and with one path, two application ids have two digests. -/
structure Hmac where
  digest : (key data : Bytes) → Bytes
  length : ∀ key data, (digest key data).length = 32
  collisionFree : ∀ key path a b, a.length = 32 → b.length = 32 →
    digest key (a ++ path) = digest key (b ++ path) → a = b

/-- The formats that the device has ever sealed with keys of their own. -/
def formats : List Byte := [0x01, 0x02, 0x04, 0x05]

/-- mbedtls_chachapoly_auth_decrypt under the keys of credential_derive_chacha_key: it opens what the
device has sealed. -/
structure Aead where
  deriveChachaKey : Bytes → Bytes
  authDecrypt : AeadCall → Int × Bytes
  silentTag : (record rpIdHash : Bytes) → Bytes
  distinct : ∀ a b, deriveChachaKey a = deriveChachaKey b → a = b
  authentic : ∀ call, (authDecrypt call).1 = 0 → ∃ v ∈ formats, call.key = deriveChachaKey (magic v)

/-- What does not change from one request to the next. `keydev` is what load_keydev gives, `parse` reads
credProtect of a credential that was opened, and `validScalar` is the check of mbedtls_ecp_read_key. -/
structure Device where
  keydev : Option Bytes
  hkdf : (salt ikm info : Bytes) → Bytes
  hmac : Hmac
  aead : Aead
  validScalar : Bytes → Bool
  parse : (length : Nat) → Bytes → Option Nat
  publicKey : Bytes → Bytes
  certificate : Bytes
  sign : (key message : Bytes) → Option Bytes

/-- What the request finds: FIDO2_OPT_AUV, a PIN that has not unlocked the key, the button, the counter. -/
structure Session where
  auv : Bool
  locked : Bool
  pressed : Bool
  counter : Nat

/-- A request in the buffer of apdu.data, which `nc` bytes of it were received for. What is behind them was
there before. -/
structure Request where
  p1 : Byte
  nc : Nat
  buffer : Bytes
  received : nc ≤ buffer.length
  room : 320 ≤ buffer.length

def Request.chal (r : Request) : Bytes := r.buffer.take 32

def Request.appId (r : Request) : Bytes := (r.buffer.drop 32).take 32

def Request.keyHandleLen (r : Request) : Nat := (r.buffer.getD 64 0).toNat

def Request.keyHandle (r : Request) : Bytes := (r.buffer.drop 65).take r.keyHandleLen

/-- An entry of a key path. -/
def entry (path : Bytes) (i : Nat) : Bytes := (path.drop (4 * i)).take 4

/-- Bit 31 of every entry is set. -/
def hardened (path : Bytes) : Bool :=
  (List.range keyPathEntries).all fun i => decide (128 ≤ (path.getD (4 * i + 3) 0).toNat)

/-- A path of random entries with bit 31 set in each. -/
def harden (draw : Bytes) : Bytes := draw.mapIdx fun i b => if i % 4 = 3 then b ||| 0x80 else b

section Commands

variable (d : Device)

/-- derive_key up to the key: HKDF along the path. -/
def deriveOutk (path : Bytes) : Option Bytes :=
  d.keydev.map fun k =>
    (List.range keyPathEntries).foldl
      (fun outk i => d.hkdf (entry path i) (outk.take 32) ((outk.drop 32).take 32))
      (k ++ List.replicate 35 0)

/-- derive_key for a path that is there, on P-256. -/
def deriveKey (path : Bytes) : Option Bytes :=
  (deriveOutk d path).bind fun outk => if d.validScalar (outk.take 32) then some (outk.take 32) else none

/-- derive_key for a new key: the key handle, and the key. -/
def newKey (appId draw : Bytes) : Option (Bytes × Bytes) :=
  (deriveKey d (harden draw)).map fun key =>
    (harden draw ++ d.hmac.digest key (appId ++ harden draw), key)

/-- verify_key; without a key there is nothing to write. -/
def verifyKey (appId keyHandle : Bytes) (key : Option Bytes) : Bool :=
  hardened keyHandle && key.any fun s =>
    decide ((keyHandle.drop keyPathLen).take 32 = d.hmac.digest s (appId ++ keyHandle.take keyPathLen))

def primitives : Primitives where
  deriveChachaKey := d.aead.deriveChachaKey
  authDecrypt := d.aead.authDecrypt
  silentTag := d.aead.silentTag
  verifyKey := fun appId keyHandle =>
    if verifyKey d appId keyHandle (deriveKey d (keyHandle.take keyPathLen)) then 0 else -1

/-- The path of fido_load_key: its own first entry, and the others hardened. -/
def credentialPath (credId : Bytes) : Bytes :=
  [0x26, 0x27, 0x00, 0x80] ++ harden ((credId.take keyPathLen).drop 4)

/-- The key handle is a credential id that opens for the application. -/
def opens (appId keyHandle : Bytes) : Bool :=
  decide ((credentialVerify (primitives d) keyHandle appId false).ret = 0)

/-- cmd_authenticate from the copy of the key handle on to its key. -/
def loadKey (appId keyHandle : Bytes) : Except Sw Bytes :=
  if opens d appId keyHandle then
    match (credentialLoad (primitives d) d.parse 0 keyHandle appId).1 with
    | none => .error .incorrectParams
    | some credProtect =>
      if credProtect = credProtUvRequired then .error .securityStatusNotSatisfied
      else
        match deriveKey d (credentialPath keyHandle) with
        | none => .error .execError
        | some key => .ok key
  else
    let key := deriveKey d (keyHandle.take keyPathLen)
    if verifyKey d appId keyHandle key then
      match key with
      | none => .error .execError
      | some key => .ok key
    else .error .incorrectParams

/-- The answer to a request, how far the request was read, the flags, the counter and the signature of the
response, and the counter behind it. -/
structure Outcome where
  sw : Sw
  readTo : Nat
  response : Option (Byte × Nat × Bytes)
  counter : Nat
  deriving DecidableEq, Repr

/-- What is signed. -/
def sigBase (appId : Bytes) (flags : Byte) (ctr : Nat) (chal : Bytes) : Bytes :=
  appId ++ [flags] ++
    [BitVec.ofNat 8 (ctr / 16777216), BitVec.ofNat 8 (ctr / 65536), BitVec.ofNat 8 (ctr / 256),
      BitVec.ofNat 8 ctr] ++ chal

/-- cmd_authenticate from its key on. -/
def respond (s : Session) (r : Request) (key : Bytes) : Outcome :=
  if r.p1 = ctapAuthCheckOnly then ⟨.conditionsNotSatisfied, 65 + r.keyHandleLen, none, s.counter⟩
  else
    match d.sign key (sigBase r.appId ctapAuthFlagTup s.counter r.chal) with
    | none => ⟨.execError, 65 + r.keyHandleLen, none, s.counter⟩
    | some sig =>
      ⟨.ok, 65 + r.keyHandleLen, some (ctapAuthFlagTup, s.counter, sig), (s.counter + 1) % 4294967296⟩

def cmdAuthenticate (s : Session) (r : Request) : Outcome :=
  if r.nc < 66 then ⟨.wrongData, 0, none, s.counter⟩
  else if r.keyHandleLen < keyHandleLen then ⟨.incorrectParams, 65, none, s.counter⟩
  else if r.p1 ≠ ctapAuthEnforce ∧ r.p1 ≠ ctapAuthCheckOnly then ⟨.incorrectP1P2, 65, none, s.counter⟩
  else if s.auv || s.locked then ⟨.conditionsNotSatisfied, 65, none, s.counter⟩
  else if r.p1 = ctapAuthEnforce ∧ s.pressed = false then ⟨.conditionsNotSatisfied, 65, none, s.counter⟩
  else
    match loadKey d r.appId r.keyHandle with
    | .error sw => ⟨sw, 65 + r.keyHandleLen, none, s.counter⟩
    | .ok key => respond d s r key

def bogusFirefox : Bytes := List.replicate 32 0x00
def bogusChrome : Bytes := List.replicate 32 0x41

structure Registration where
  pubKey : Bytes
  keyHandle : Bytes
  certificate : Bytes
  signature : Bytes
  deriving DecidableEq, Repr

/-- cmd_register; `draw` are the random bytes of the path. -/
def cmdRegister (s : Session) (r : Request) (draw : Bytes) : Except Sw Registration :=
  if r.nc ≠ 64 then .error .wrongLength
  else if s.pressed = false then .error .conditionsNotSatisfied
  else if r.appId = bogusFirefox ∨ r.appId = bogusChrome then .error .channelBusy
  else
    match newKey d r.appId draw with
    | none => .error .execError
    | some (keyHandle, key) =>
      if maxAttCertSize < d.certificate.length then .error .execError
      else
        match d.keydev.bind fun k =>
            if d.validScalar k then
              d.sign k ([0x00] ++ r.appId ++ r.chal ++ keyHandle ++ d.publicKey key)
            else none with
        | none => .error .execError
        | some sig => .ok ⟨d.publicKey key, keyHandle, d.certificate, sig⟩

end Commands

/-! What a request may do. -/

section Own

variable (d : Device)

/-- The key handle is a credential id of this device for the application, or a handle that a registration
for the application gives. -/
def Made (appId keyHandle : Bytes) : Prop :=
  opens d appId keyHandle = true ∨
    ∃ draw, draw.length = keyPathLen ∧ (newKey d appId draw).map Prod.fst = some keyHandle

/-- Nothing is read behind the request, and nothing is signed for a key handle that was not made for the
application. -/
structure OwnOnly (s : Session) (r : Request) : Prop where
  reads : (cmdAuthenticate d s r).readTo ≤ r.nc
  signs : (cmdAuthenticate d s r).response ≠ none → Made d r.appId r.keyHandle

/-- The request comes as far as its key handle. -/
def Passes (s : Session) (r : Request) : Prop :=
  66 ≤ r.nc ∧ keyHandleLen ≤ r.keyHandleLen ∧ (r.p1 = ctapAuthEnforce ∨ r.p1 = ctapAuthCheckOnly) ∧
    (s.auv || s.locked) = false ∧ (r.p1 = ctapAuthEnforce → s.pressed = true)

instance (s : Session) (r : Request) : Decidable (Passes s r) :=
  inferInstanceAs (Decidable (_ ∧ _ ∧ _ ∧ _ ∧ _))

/-- The key handle was received, and where it is longer than a registration's, it does not start with one
that signs. -/
def Fits (s : Session) (r : Request) : Prop :=
  Passes s r → 65 + r.keyHandleLen ≤ r.nc ∧
    (keyHandleLen < r.keyHandleLen → r.p1 = ctapAuthEnforce → opens d r.appId r.keyHandle = false →
      ∀ key, deriveKey d (r.keyHandle.take keyPathLen) = some key →
        verifyKey d r.appId r.keyHandle (some key) = true →
          d.sign key (sigBase r.appId ctapAuthFlagTup s.counter r.chal) = none)

/-- The key handle is taken: it is confirmed, and it signs. -/
def Accepts (s : Session) (r : Request) : Prop :=
  Passes s r →
    (r.p1 = ctapAuthCheckOnly → (cmdAuthenticate d s r).sw = .conditionsNotSatisfied) ∧
    (r.p1 = ctapAuthEnforce → ∃ key, deriveKey d (r.keyHandle.take keyPathLen) = some key ∧
      (cmdAuthenticate d s r).response =
        (d.sign key (sigBase r.appId ctapAuthFlagTup s.counter r.chal)).map fun sig =>
          (ctapAuthFlagTup, s.counter, sig))

def Rejects (s : Session) (r : Request) : Prop :=
  (cmdAuthenticate d s r).response = none ∧ (Passes s r → (cmdAuthenticate d s r).sw = .incorrectParams)

/-- A registered key handle is good for its own application and for no other. -/
def Bound : Prop :=
  ∀ s r draw reg, draw.length = keyPathLen → cmdRegister d s r draw = .ok reg →
    ∀ s' r', r'.keyHandle = reg.keyHandle →
      (r'.appId = r.appId → Accepts d s' r') ∧ (r'.appId ≠ r.appId → Rejects d s' r')

end Own

/-! Key paths. -/

section Paths

variable {path draw tail keyHandle : Bytes}

theorem or_high : ∀ b : Byte, 128 ≤ b.toNat → b ||| 0x80 = b := by decide +kernel

theorem high_or : ∀ b : Byte, 128 ≤ (b ||| 0x80).toNat := by decide +kernel

theorem harden_get (draw : Bytes) (i : Nat) :
    (harden draw)[i]? = (draw[i]?).map fun b => if i % 4 = 3 then b ||| 0x80 else b :=
  List.getElem?_mapIdx

theorem harden_length (draw : Bytes) : (harden draw).length = draw.length := by
  unfold harden
  rw [List.length_mapIdx]

theorem hardened_entry (h : hardened keyHandle = true) {i : Nat} (hi : i < keyPathEntries) :
    128 ≤ (keyHandle.getD (4 * i + 3) 0).toNat := by
  have hall := List.all_eq_true.mp h i (List.mem_range.mpr hi)
  exact of_decide_eq_true hall

theorem hardened_harden (hlen : draw.length = keyPathLen) (tail : Bytes) :
    hardened (harden draw ++ tail) = true := by
  have hentries : keyPathEntries = 8 := rfl
  have hpath : keyPathLen = 32 := rfl
  unfold hardened
  rw [List.all_eq_true]
  intro i hi
  have hi' := List.mem_range.mp hi
  obtain ⟨b, hb⟩ : ∃ b, draw[4 * i + 3]? = some b := by
    cases hget : draw[4 * i + 3]? with
    | none =>
      have hle := List.getElem?_eq_none_iff.mp hget
      omega
    | some b => exact ⟨b, rfl⟩
  have hlt : 4 * i + 3 < (harden draw).length := by
    rw [harden_length]
    omega
  rw [decide_eq_true_eq, List.getD_eq_getElem?_getD, List.getElem?_append_left hlt, harden_get, hb,
    Option.map_some, Option.getD_some, if_pos (by omega)]
  exact high_or b

theorem harden_of_hardened (h : hardened keyHandle = true) :
    harden (keyHandle.take keyPathLen) = keyHandle.take keyPathLen := by
  have hentries : keyPathEntries = 8 := rfl
  have hpath : keyPathLen = 32 := rfl
  apply List.ext_getElem?
  intro i
  rw [harden_get]
  by_cases hi : i < keyPathLen
  · rw [List.getElem?_take_of_lt hi]
    cases hb : keyHandle[i]? with
    | none => rfl
    | some b =>
      rw [Option.map_some]
      by_cases hlast : i % 4 = 3
      · rw [if_pos hlast]
        have hent := hardened_entry h (i := i / 4) (by omega)
        have hidx : 4 * (i / 4) + 3 = i := by omega
        rw [hidx, List.getD_eq_getElem?_getD, hb, Option.getD_some] at hent
        rw [or_high b hent]
      · rw [if_neg hlast]
  · have hnone : (keyHandle.take keyPathLen)[i]? = none := by
      apply List.getElem?_eq_none_iff.mpr
      rw [List.length_take]
      omega
    rw [hnone, Option.map_none]

end Paths

/-! New key handles. -/

section New

variable {d : Device} {appId draw keyHandle key : Bytes}

theorem newKey_length (hdraw : draw.length = keyPathLen) (h : newKey d appId draw = some (keyHandle, key)) :
    keyHandle.length = keyHandleLen := by
  obtain ⟨k, -, heq⟩ := Option.map_eq_some_iff.mp h
  rw [← (Prod.mk.inj heq).1, List.length_append, harden_length, hdraw, d.hmac.length]
  rfl

theorem newKey_verifies (hdraw : draw.length = keyPathLen)
    (h : newKey d appId draw = some (keyHandle, key)) :
    deriveKey d (keyHandle.take keyPathLen) = some key ∧ verifyKey d appId keyHandle (some key) = true ∧
      hardened keyHandle = true ∧
      (keyHandle.drop keyPathLen).take 32 = d.hmac.digest key (appId ++ keyHandle.take keyPathLen) := by
  obtain ⟨k, hk, heq⟩ := Option.map_eq_some_iff.mp h
  obtain ⟨hhandle, rfl⟩ := Prod.mk.inj heq
  have hpath : (harden draw).length = keyPathLen := (harden_length draw).trans hdraw
  have htake : keyHandle.take keyPathLen = harden draw := by
    rw [← hhandle, ← hpath, List.take_left]
  have htag : (keyHandle.drop keyPathLen).take 32 = d.hmac.digest k (appId ++ harden draw) := by
    rw [← hhandle, ← hpath, List.drop_left]
    apply List.take_of_length_le
    rw [d.hmac.length]
  have hhard : hardened keyHandle = true := by
    rw [← hhandle]
    exact hardened_harden hdraw _
  rw [htake]
  refine ⟨hk, ?_, hhard, htag⟩
  unfold verifyKey
  rw [hhard, htake, htag, Bool.true_and, Option.any_some, decide_eq_true rfl]

/-- What verify_key lets through starts with a key handle that a registration could have given. -/
theorem newKey_of_verifies (hlen : keyHandleLen ≤ keyHandle.length)
    (hkey : deriveKey d (keyHandle.take keyPathLen) = some key)
    (h : verifyKey d appId keyHandle (some key) = true) :
    (keyHandle.take keyPathLen).length = keyPathLen ∧
      newKey d appId (keyHandle.take keyPathLen) = some (keyHandle.take keyHandleLen, key) := by
  have hpath : keyPathLen = 32 := rfl
  have hhandle : keyHandleLen = keyPathLen + 32 := rfl
  obtain ⟨hhard, hany⟩ := Bool.and_eq_true_iff.mp h
  have htag := of_decide_eq_true hany
  have hfix := harden_of_hardened hhard
  refine ⟨?_, ?_⟩
  · rw [List.length_take]
    omega
  · unfold newKey
    rw [hfix, hkey, Option.map_some, ← htag, hhandle, List.take_add]

theorem opens_format (h : opens d appId keyHandle = true) :
    ∃ v ∈ formats, keyHandle.take Envelope.credProtoLen = magic v := by
  have hret := of_decide_eq_true h
  by_cases hshort : keyHandle.length < Envelope.credEnvelopeOverhead
  · rw [Envelope.credentialVerify_short false hshort] at hret
    cases hret
  · have hcall : ∃ call, (d.aead.authDecrypt call).1 = 0 ∧
        call.key = d.aead.deriveChachaKey (keyHandle.take Envelope.credProtoLen) := by
      unfold credentialVerify at hret
      dsimp only at hret
      rw [if_neg hshort, if_pos rfl] at hret
      exact ⟨_, hret, rfl⟩
    obtain ⟨call, hzero, hkey⟩ := hcall
    obtain ⟨v, hv, hsealed⟩ := d.aead.authentic call hzero
    exact ⟨v, hv, d.aead.distinct _ _ (hkey.symm.trans hsealed)⟩

theorem not_opens_of_hardened (h : hardened keyHandle = true) : opens d appId keyHandle = false := by
  rw [Bool.eq_false_iff]
  intro hopens
  obtain ⟨v, hv, hmagic⟩ := opens_format hopens
  have hhigh := hardened_entry h (i := 0) (by decide)
  have hthird : keyHandle.getD 3 0 = v := by
    have hproto : Envelope.credProtoLen = 4 := rfl
    have hget : (keyHandle.take Envelope.credProtoLen)[3]? = keyHandle[3]? :=
      List.getElem?_take_of_lt (by omega)
    rw [hmagic] at hget
    rw [List.getD_eq_getElem?_getD, ← hget]
    rfl
  have hlow : ∀ v ∈ formats, v.toNat < 128 := by decide
  rw [show 4 * 0 + 3 = 3 from rfl, hthird] at hhigh
  exact absurd hhigh (Nat.not_le.mpr (hlow v hv))

end New

/-! Requests. -/

section Requests

variable {d : Device} {s : Session} {r : Request}

theorem keyHandle_length (r : Request) : r.keyHandle.length = r.keyHandleLen := by
  have hroom := r.room
  have hbyte : r.keyHandleLen < 256 := (r.buffer.getD 64 0).isLt
  unfold Request.keyHandle
  rw [List.length_take, List.length_drop]
  omega

theorem appId_length (r : Request) : r.appId.length = 32 := by
  have hroom := r.room
  unfold Request.appId
  rw [List.length_take, List.length_drop]
  omega

theorem cmdAuthenticate_refused (d : Device) (h : ¬ Passes s r) :
    ∃ sw n, cmdAuthenticate d s r = ⟨sw, n, none, s.counter⟩ ∧ n ≤ r.nc := by
  unfold cmdAuthenticate
  by_cases hnc : r.nc < 66
  · rw [if_pos hnc]
    exact ⟨_, _, rfl, Nat.zero_le _⟩
  rw [if_neg hnc]
  by_cases hlen : r.keyHandleLen < keyHandleLen
  · rw [if_pos hlen]
    exact ⟨_, _, rfl, by omega⟩
  rw [if_neg hlen]
  by_cases hp1 : r.p1 ≠ ctapAuthEnforce ∧ r.p1 ≠ ctapAuthCheckOnly
  · rw [if_pos hp1]
    exact ⟨_, _, rfl, by omega⟩
  rw [if_neg hp1]
  by_cases hpin : (s.auv || s.locked) = true
  · rw [if_pos hpin]
    exact ⟨_, _, rfl, by omega⟩
  rw [if_neg hpin]
  by_cases hbutton : r.p1 = ctapAuthEnforce ∧ s.pressed = false
  · rw [if_pos hbutton]
    exact ⟨_, _, rfl, by omega⟩
  · exfalso
    apply h
    refine ⟨Nat.not_lt.mp hnc, Nat.not_lt.mp hlen, ?_, Bool.eq_false_of_not_eq_true hpin, ?_⟩
    · by_cases henforce : r.p1 = ctapAuthEnforce
      · exact .inl henforce
      · exact .inr (not_not.mp fun hcheck => hp1 ⟨henforce, hcheck⟩)
    · intro henforce
      exact Bool.eq_true_of_not_eq_false fun hno => hbutton ⟨henforce, hno⟩

theorem cmdAuthenticate_passes (d : Device) (h : Passes s r) :
    (∀ sw, loadKey d r.appId r.keyHandle = .error sw →
      cmdAuthenticate d s r = ⟨sw, 65 + r.keyHandleLen, none, s.counter⟩) ∧
    ∀ key, loadKey d r.appId r.keyHandle = .ok key → cmdAuthenticate d s r = respond d s r key := by
  obtain ⟨hnc, hlen, hp1, hpin, hbutton⟩ := h
  have hknown : ¬ (r.p1 ≠ ctapAuthEnforce ∧ r.p1 ≠ ctapAuthCheckOnly) := by
    rintro ⟨hno, hno'⟩
    rcases hp1 with hp1 | hp1
    · exact hno hp1
    · exact hno' hp1
  have hfree : ¬ (s.auv || s.locked) = true := by
    rw [hpin]
    exact Bool.false_ne_true
  have hpressed : ¬ (r.p1 = ctapAuthEnforce ∧ s.pressed = false) := by
    rintro ⟨henforce, hno⟩
    rw [hbutton henforce] at hno
    cases hno
  unfold cmdAuthenticate
  rw [if_neg (Nat.not_lt.mpr hnc), if_neg (Nat.not_lt.mpr hlen), if_neg hknown, if_neg hfree,
    if_neg hpressed]
  constructor
  · intro sw hload
    rw [hload]
  · intro key hload
    rw [hload]

theorem respond_readTo (d : Device) (s : Session) (r : Request) (key : Bytes) :
    (respond d s r key).readTo = 65 + r.keyHandleLen := by
  unfold respond
  split_ifs
  · rfl
  · cases d.sign key (sigBase r.appId ctapAuthFlagTup s.counter r.chal) <;> rfl

theorem respond_check {key : Bytes} (h : r.p1 = ctapAuthCheckOnly) :
    respond d s r key = ⟨.conditionsNotSatisfied, 65 + r.keyHandleLen, none, s.counter⟩ := by
  unfold respond
  rw [if_pos h]

theorem respond_enforce {key : Bytes} (h : r.p1 = ctapAuthEnforce) :
    (respond d s r key).response =
      (d.sign key (sigBase r.appId ctapAuthFlagTup s.counter r.chal)).map fun sig =>
        (ctapAuthFlagTup, s.counter, sig) := by
  have hno : ¬ r.p1 = ctapAuthCheckOnly := by
    rw [h]
    decide
  unfold respond
  rw [if_neg hno]
  cases d.sign key (sigBase r.appId ctapAuthFlagTup s.counter r.chal) <;> rfl

theorem cmdAuthenticate_readTo (d : Device) (h : Passes s r) :
    (cmdAuthenticate d s r).readTo = 65 + r.keyHandleLen := by
  obtain ⟨herror, hok⟩ := cmdAuthenticate_passes d h
  cases hload : loadKey d r.appId r.keyHandle with
  | error sw => rw [herror sw hload]
  | ok key => rw [hok key hload, respond_readTo]

/-- A key handle that is no credential id is taken when verify_key lets it through. -/
theorem loadKey_handle {appId keyHandle : Bytes} (h : opens d appId keyHandle = false) :
    (∀ key, deriveKey d (keyHandle.take keyPathLen) = some key →
      verifyKey d appId keyHandle (some key) = true → loadKey d appId keyHandle = .ok key) ∧
    ((∀ key, deriveKey d (keyHandle.take keyPathLen) = some key →
      verifyKey d appId keyHandle (some key) = false) → loadKey d appId keyHandle = .error .incorrectParams) := by
  unfold loadKey
  rw [if_neg (by rw [h]; exact Bool.false_ne_true)]
  constructor
  · intro key hkey hverify
    rw [hkey]
    dsimp only
    rw [if_pos hverify]
  · intro hnone
    dsimp only
    cases hkey : deriveKey d (keyHandle.take keyPathLen) with
    | none =>
      have hno : verifyKey d appId keyHandle none = false := Bool.and_false _
      rw [if_neg (by rw [hno]; exact Bool.false_ne_true)]
    | some key => rw [if_neg (by rw [hnone key hkey]; exact Bool.false_ne_true)]

theorem made_iff {appId keyHandle key : Bytes} (hlen : keyHandleLen ≤ keyHandle.length)
    (hopens : opens d appId keyHandle = false) (hkey : deriveKey d (keyHandle.take keyPathLen) = some key)
    (h : verifyKey d appId keyHandle (some key) = true) :
    Made d appId keyHandle ↔ keyHandle.length = keyHandleLen := by
  obtain ⟨hdraw, hnew⟩ := newKey_of_verifies hlen hkey h
  constructor
  · rintro (hyes | ⟨draw, hdraw', hmade⟩)
    · rw [hopens] at hyes
      cases hyes
    · obtain ⟨pair, hpair, rfl⟩ := Option.map_eq_some_iff.mp hmade
      exact newKey_length hdraw' hpair
  · intro hexact
    refine .inr ⟨keyHandle.take keyPathLen, hdraw, ?_⟩
    rw [hnew, Option.map_some, ← hexact, List.take_length]

theorem ownOnly_iff (d : Device) (s : Session) (r : Request) : OwnOnly d s r ↔ Fits d s r := by
  by_cases hpass : Passes s r
  swap
  · constructor
    · intro _ h
      exact absurd h hpass
    · intro _
      obtain ⟨sw, n, heq, hle⟩ := cmdAuthenticate_refused d hpass
      constructor
      · rw [heq]
        exact hle
      · rw [heq]
        intro hsome
        exact absurd rfl hsome
  have hread := cmdAuthenticate_readTo d hpass
  have hlength := keyHandle_length r
  have hlong : keyHandleLen ≤ r.keyHandleLen := hpass.2.1
  obtain ⟨herror, hok⟩ := cmdAuthenticate_passes d hpass
  constructor
  · rintro ⟨hreads, hsigns⟩ -
    rw [hread] at hreads
    refine ⟨hreads, ?_⟩
    intro hlonger henforce hopens key hkey hverify
    have hload := (loadKey_handle hopens).1 key hkey hverify
    rw [hok key hload, respond_enforce henforce] at hsigns
    cases hsign : d.sign key (sigBase r.appId ctapAuthFlagTup s.counter r.chal) with
    | none => rfl
    | some sig =>
      rw [hsign] at hsigns
      have hmade := hsigns (Option.some_ne_none _)
      have hexact := (made_iff (by omega) hopens hkey hverify).mp hmade
      omega
  · intro hfits
    obtain ⟨hreads, hexact⟩ := hfits hpass
    constructor
    · rw [hread]
      exact hreads
    · intro hsigns
      by_cases hopens : opens d r.appId r.keyHandle = true
      · exact .inl hopens
      have hopens' := Bool.eq_false_of_not_eq_true hopens
      -- only a handle that verify_key lets through is left
      have hverified : ∃ key, deriveKey d (r.keyHandle.take keyPathLen) = some key ∧
          verifyKey d r.appId r.keyHandle (some key) = true := by
        by_contra hno
        push Not at hno
        have hload := (loadKey_handle hopens').2 fun key hkey =>
          Bool.eq_false_of_not_eq_true (hno key hkey)
        rw [herror _ hload] at hsigns
        exact hsigns rfl
      obtain ⟨key, hkey, hverify⟩ := hverified
      apply (made_iff (by omega) hopens' hkey hverify).mpr
      rw [hok key ((loadKey_handle hopens').1 key hkey hverify)] at hsigns
      have henforce : r.p1 = ctapAuthEnforce := by
        rcases hpass.2.2.1 with hp1 | hp1
        · exact hp1
        · rw [respond_check hp1] at hsigns
          exact absurd rfl hsigns
      rw [respond_enforce henforce] at hsigns
      by_contra hne
      have hnone := hexact (by omega) henforce hopens' key hkey hverify
      rw [hnone] at hsigns
      exact hsigns rfl

theorem cmdRegister_newKey {draw : Bytes} {reg : Registration} (h : cmdRegister d s r draw = .ok reg) :
    ∃ key, newKey d r.appId draw = some (reg.keyHandle, key) := by
  unfold cmdRegister at h
  cases hnew : newKey d r.appId draw with
  | none =>
    rw [hnew] at h
    split_ifs at h
  | some pair =>
    obtain ⟨keyHandle, key⟩ := pair
    rw [hnew] at h
    dsimp only at h
    generalize (d.keydev.bind fun k =>
      if d.validScalar k = true then
        d.sign k ([0x00] ++ r.appId ++ r.chal ++ keyHandle ++ d.publicKey key)
      else none) = sig at h
    split_ifs at h
    cases sig with
    | none => cases h
    | some sig =>
      obtain rfl := Except.ok.inj h
      exact ⟨key, rfl⟩

theorem handle_bound (d : Device) : Bound d := by
  intro s r draw reg hdraw hreg s' r' hcarries
  obtain ⟨key, hnew⟩ := cmdRegister_newKey hreg
  obtain ⟨hkey, hverify, hhard, htag⟩ := newKey_verifies hdraw hnew
  rw [← hcarries] at hkey hverify hhard htag
  have hopens : opens d r'.appId r'.keyHandle = false := not_opens_of_hardened hhard
  constructor
  · intro happ hpass
    rw [← happ] at hverify
    have hload := (loadKey_handle hopens).1 key hkey hverify
    have hrespond := (cmdAuthenticate_passes d hpass).2 key hload
    constructor
    · intro hcheck
      rw [hrespond, respond_check hcheck]
    · intro henforce
      refine ⟨key, hkey, ?_⟩
      rw [hrespond, respond_enforce henforce]
  · intro hother
    have hno : ∀ k, deriveKey d (r'.keyHandle.take keyPathLen) = some k →
        verifyKey d r'.appId r'.keyHandle (some k) = false := by
      intro k hk
      obtain rfl := Option.some.inj (hkey.symm.trans hk)
      rw [Bool.eq_false_iff]
      intro hyes
      have htag' := of_decide_eq_true (Bool.and_eq_true_iff.mp hyes).2
      rw [htag] at htag'
      exact hother (d.hmac.collisionFree _ _ _ _ (appId_length r') (appId_length r) htag'.symm)
    have hload := (loadKey_handle hopens).2 hno
    by_cases hpass : Passes s' r'
    · have herror := (cmdAuthenticate_passes d hpass).1 _ hload
      rw [Rejects, herror]
      exact ⟨rfl, fun _ => rfl⟩
    · obtain ⟨sw, n, heq, -⟩ := cmdAuthenticate_refused d hpass
      rw [Rejects, heq]
      exact ⟨rfl, fun h => absurd h hpass⟩

/-- A request reads only itself, and signs only for key handles that were made for its application, exactly
when its key handle was received whole and is not a registration's with more behind it. A registered key
handle is good for its own application and for no other, always. -/
theorem authenticate_own_iff (d : Device) (s : Session) (r : Request) :
    (OwnOnly d s r ∧ Bound d) ↔ Fits d s r := by
  rw [ownOnly_iff]
  exact ⟨fun h => h.1, fun h => ⟨h, handle_bound d⟩⟩

end Requests

/-! A request that leaves its key handle to the one before it. -/

/-- The digest of an application id and a path is the application id. -/
def plainDigest (_ data : Bytes) : Bytes := data.takeD 32 0

theorem plainDigest_length (key data : Bytes) : (plainDigest key data).length = 32 :=
  List.takeD_length 32 data 0

theorem plainDigest_append (key : Bytes) {a : Bytes} (path : Bytes) (h : a.length = 32) :
    plainDigest key (a ++ path) = a := by
  unfold plainDigest
  rw [List.takeD_eq_take _ (by rw [List.length_append]; omega), ← h, List.take_left]

theorem plainDigest_free (key path a b : Bytes) (ha : a.length = 32) (hb : b.length = 32)
    (h : plainDigest key (a ++ path) = plainDigest key (b ++ path)) : a = b := by
  rwa [plainDigest_append key path ha, plainDigest_append key path hb] at h

theorem closed_authentic (call : AeadCall) (h : ((-1 : Int), ([] : Bytes)).1 = 0) :
    ∃ v ∈ formats, call.key = id (magic v) := by
  cases h

/-- A device that has sealed no credential. -/
def plainDevice : Device where
  keydev := some (List.replicate 32 1)
  hkdf := fun _ _ _ => List.replicate 67 1
  hmac := ⟨plainDigest, plainDigest_length, plainDigest_free⟩
  aead := ⟨id, fun _ => (-1, []), fun _ _ => [], fun _ _ h => h, closed_authentic⟩
  validScalar := fun _ => true
  parse := fun _ _ => none
  publicKey := fun key => key
  certificate := []
  sign := fun key _ => some key

def unlocked : Session := ⟨false, false, true, 0⟩

/-- Challenge and application id, the length of the key handle, and the handle that was registered for this
application. -/
def authenticateBuffer (len : Byte) : Bytes :=
  List.replicate 32 7 ++ List.replicate 32 9 ++ [len] ++
    (List.replicate 8 [0, 0, 0, 0x80]).flatten ++ List.replicate 32 9 ++ List.replicate 191 0

theorem authenticateBuffer_length (len : Byte) : (authenticateBuffer len).length = 320 := by
  unfold authenticateBuffer
  simp only [List.length_append, List.length_replicate, List.length_flatten, List.map_replicate,
    List.length_cons, List.length_nil, List.sum_replicate_nat]

theorem authenticateBuffer_room (len : Byte) {n : Nat} (h : n ≤ 320) :
    n ≤ (authenticateBuffer len).length :=
  h.trans (Nat.le_of_eq (authenticateBuffer_length len).symm)

theorem short_received : 66 ≤ (authenticateBuffer 64).length := authenticateBuffer_room 64 (by decide)

theorem long_received : 130 ≤ (authenticateBuffer 65).length := authenticateBuffer_room 65 (by decide)

/-- Only one byte of the key handle has come. -/
def shortRequest : Request :=
  ⟨ctapAuthEnforce, 66, authenticateBuffer 64, short_received, authenticateBuffer_room 64 (Nat.le_refl _)⟩

/-- The key handle has come, and a byte more of it. -/
def longRequest : Request :=
  ⟨ctapAuthEnforce, 130, authenticateBuffer 65, long_received, authenticateBuffer_room 65 (Nat.le_refl _)⟩

/-- The short request signs with the bytes that were there before it, the long one with a key handle that was
never made. -/
theorem short_request_signs :
    (∀ d, ¬ OwnOnly d unlocked shortRequest) ∧
    (cmdAuthenticate plainDevice unlocked shortRequest).sw = .ok ∧
    (cmdAuthenticate plainDevice unlocked longRequest).sw = .ok ∧
    ¬ OwnOnly plainDevice unlocked longRequest := by
  refine ⟨?_, by decide +kernel, by decide +kernel, ?_⟩
  · intro d h
    have hpass : Passes unlocked shortRequest := by decide +kernel
    have hread := cmdAuthenticate_readTo d hpass
    have hlen : shortRequest.keyHandleLen = 64 := rfl
    have hnc : shortRequest.nc = 66 := rfl
    have hle := h.reads
    omega
  · intro h
    have hpass : Passes unlocked longRequest := by decide +kernel
    have hfits := ((ownOnly_iff plainDevice unlocked longRequest).mp h hpass).2 (by decide) rfl
      (by decide +kernel) (List.replicate 32 1) (by decide +kernel) (by decide +kernel)
    cases hfits

end KeyWallet.U2f
