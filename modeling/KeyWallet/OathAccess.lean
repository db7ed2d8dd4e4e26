import KeyWallet.StepSystem
import KeyWallet.ObjectContainer

/-! The OATH application of oath.c, as far as its access code and its PIN are concerned: what each
command does to the two secrets and to the flags that guard the credentials. What the guarded
commands do to the credentials themselves is a parameter. -/
namespace KeyWallet

namespace Oath

abbrev Data := Container.Data

def accessCodeMaxLen : Nat := 65
def maxOtpCounter : Nat := 3
def otpPinFormatV1 : BitVec 8 := 1
def otpPinLegacySize : Nat := 33
def otpPinV1Size : Nat := 34
def secureKeyOverhead : Nat := 33
def challengeLen : Nat := 8

def tagKey : Nat := 0x73
def tagChallenge : Nat := 0x74
def tagResponse : Nat := 0x75
def tagPassword : Nat := 0x80
def tagNewPassword : Nat := 0x81

/-- The status words. -/
inductive Sw
  | ok
  | bytesRemaining
  | securityStatusNotSatisfied
  | conditionsNotSatisfied
  | incorrectParams
  | incorrectP1P2
  | wrongData
  | wrongLength
  | dataInvalid
  | execError
  | memoryFailure
  | fileFull
  | claNotSupported
  | insNotSupported
  deriving DecidableEq, Repr

/-- The command has done what it was asked. -/
def Sw.success : Sw → Bool
  | .ok => true
  | .bytesRemaining => true
  | _ => false

inductive Ins
  | put
  | delete
  | setCode
  | reset
  | rename
  | list
  | validate
  | calculate
  | calculateAll
  | sendRemaining
  | setPin
  | changePin
  | verifyPin
  | verifyCode
  | getCredential
  | unknown
  deriving DecidableEq, Repr

/-- An APDU; `field` is what tlv_find_tag finds in its data. -/
structure Apdu where
  cla : Nat
  ins : Ins
  p1 : Nat
  p2 : Nat
  nc : Nat
  field : Nat → Option Data

inductive Chain
  | none
  | list
  | calculateAll
  deriving DecidableEq, Repr

/-- What a failed storage operation leaves of the file. -/
inductive Left
  | same
  | written
  | emptied
  | gone
  deriving DecidableEq, Repr

/-- The result of an operation on a file. -/
inductive Storage
  | ok
  | failed (left : Left)
  deriving DecidableEq, Repr

/-- `none` has no data at all, `some []` has a length of zero. -/
abbrev Ef := Option Data

def Ef.hasData (f : Ef) : Bool := f.any fun d => d ≠ []

/-- file_put_data: a write that fails leaves the old data or the new. -/
def Storage.put (old : Ef) (new : Data) : Storage → Ef
  | .ok => some new
  | .failed .written => some new
  | .failed _ => old

/-- flash_clear_file and file_delete: one that fails may have removed the data already. -/
def Storage.clear (old : Ef) : Storage → Ef
  | .ok => none
  | .failed .same => old
  | .failed .written => none
  | .failed .emptied => some []
  | .failed .gone => none

/-- What the storage and the random generator do during one command. -/
structure Env where
  clear : Storage
  delete : Storage
  fileNew : Bool
  put : Storage
  retry : Storage
  purge : Bool
  fresh : Data
  capable : Bool

/-- The primitives, and what the guarded commands do with the credentials. -/
structure Provider (C : Type) where
  hmac : (algorithm : Nat) → (key message : Data) → Data
  verifier : Data → Data
  verifier_length : ∀ pin, (verifier pin).length = 32
  doubleHash : Data → Data
  encrypt : Data → Data
  decrypt : Data → Option Data
  body : Ins → Apdu → C → Sw × C
  migrate : C → Bool × C

structure State (C : Type) where
  validated : Bool
  otpPinVerified : Bool
  migrationDone : Bool
  challenge : Data
  code : Ef
  pin : Ef
  chain : Chain
  creds : C

section Commands

variable {C : Type} (P : Provider C)

/-- oath_key_is_secure. -/
def keyIsSecure (d : Data) : Bool :=
  secureKeyOverhead < d.length && d.take 5 = [0x4f, 0x41, 0x54, 0x48, 1]

/-- oath_decrypt_key. -/
def decryptKey (stored : Data) : Option Data :=
  if keyIsSecure stored then P.decrypt stored else some stored

/-- What oath_put_code_key stores. -/
def sealedKey (key : Data) : Data := if keyIsSecure key then key else P.encrypt key

/-- get_oath_md_info. -/
def mdInfo (algorithm : BitVec 8) : Option Nat :=
  let n := algorithm.toNat % 16
  if n = 1 ∨ n = 2 ∨ n = 3 then some n else none

/-- The access code, when one is stored: its algorithm and its key. -/
def accessCode (code : Ef) : Option (Nat × Data) :=
  match code with
  | none => none
  | some stored =>
    match decryptKey P stored with
    | none => none
    | some key =>
      if key.length < 2 ∨ accessCodeMaxLen < key.length then none
      else (mdInfo (key.getD 0 0)).map fun md => (md, key.drop 1)

/-- otp_pin_matches. -/
def pinMatches (record pin : Data) : Bool :=
  if record.length = otpPinV1Size ∧ record.getD 1 0 = otpPinFormatV1 then
    record.drop 2 = P.verifier pin
  else if record.length = otpPinLegacySize ∧ 0 < pin.length then record.drop 1 = P.doubleHash pin
  else false

/-- otp_pin_record_v1. -/
def pinRecordV1 (pin : Data) : Data :=
  BitVec.ofNat 8 maxOtpCounter :: otpPinFormatV1 :: P.verifier pin

inductive Match
  | match
  | mismatch
  | blocked
  | storageError
  deriving DecidableEq, Repr

/-- A record of a size that counts. -/
def pinUsable (pin : Ef) : Bool :=
  Ef.hasData pin && pin.any fun r => r.length = otpPinLegacySize || r.length = otpPinV1Size

/-- oath_check_pin: a try is spent before the PIN is compared. -/
def checkPin (e : Env) (pinFile : Ef) (pin : Data) : Match × Ef :=
  match pinFile with
  | none => (.storageError, pinFile)
  | some record =>
    if pinUsable pinFile = false then (.storageError, pinFile)
    else if record.getD 0 0 = 0 then (.blocked, pinFile)
    else
      let spent := (record.getD 0 0 - 1) :: record.drop 1
      match e.retry with
      | .failed _ => (.storageError, e.retry.put pinFile spent)
      | .ok => (if pinMatches P spent pin then .match else .mismatch, some spent)

/-- The removal of the access code in cmd_set_code. -/
def removeCode (e : Env) (s : State C) : Sw × State C :=
  match s.code with
  | none => (.ok, { s with validated := true })
  | some _ =>
    (if e.delete = .ok then .ok else .memoryFailure,
      { s with code := e.delete.clear s.code, validated := true })

/-- cmd_set_code once the new code has been checked. -/
def storeCode (e : Env) (key : Data) (s : State C) : Sw × State C :=
  let s := { s with validated := false }
  if Ef.hasData s.pin && e.clear ≠ .ok then (.memoryFailure, { s with pin := e.clear.clear s.pin })
  else
    let s := { s with pin := if Ef.hasData s.pin then none else s.pin, challenge := e.fresh }
    if e.fileNew = false then (.execError, s)
    else (if e.put = .ok then .ok else .execError,
      { s with code := e.put.put s.code (sealedKey P key) })

def cmdSetCode (a : Apdu) (e : Env) (s : State C) : Sw × State C :=
  if s.validated = false then (.securityStatusNotSatisfied, s)
  else if a.nc = 0 then removeCode e s
  else
    match a.field tagKey with
    | none => (.incorrectParams, s)
    | some key =>
      if key.length = 1 ∨ accessCodeMaxLen < key.length then (.wrongData, s)
      else if key.length = 0 then removeCode e s
      else
        match a.field tagChallenge, a.field tagResponse with
        | some chal, some resp =>
          match mdInfo (key.getD 0 0) with
          | none => (.incorrectParams, s)
          | some md =>
            if resp ≠ P.hmac md (key.drop 1) chal then (.dataInvalid, s) else storeCode P e key s
        | _, _ => (.incorrectParams, s)

/-- cmd_reset; whether the code and the PIN could be removed is not looked at. -/
def cmdReset (a : Apdu) (e : Env) (s : State C) : Sw × State C :=
  if a.p1 ≠ 0xde ∨ a.p2 ≠ 0xad then (.incorrectP1P2, s)
  else
    let s := { s with creds := (P.body .reset a s.creds).2 }
    if e.purge = false then (.execError, s)
    else
      (.ok, { s with
        code := if s.code.isSome then e.delete.clear s.code else none
        pin := if s.pin.isSome then e.clear.clear s.pin else none
        validated := true
        otpPinVerified := false })

def cmdValidate (a : Apdu) (s : State C) : Sw × State C :=
  match a.field tagChallenge, a.field tagResponse with
  | some _, some resp =>
    if Ef.hasData s.code = false then (.dataInvalid, { s with validated := true })
    else
      match s.code with
      | none => (.execError, s)
      | some stored =>
        match decryptKey P stored with
        | none => (.execError, s)
        | some key =>
          if key.length < 2 ∨ accessCodeMaxLen < key.length then (.wrongData, s)
          else
            match mdInfo (key.getD 0 0) with
            | none => (.incorrectParams, s)
            | some md =>
              if resp ≠ P.hmac md (key.drop 1) s.challenge then (.dataInvalid, s)
              else (.ok, { s with validated := true })
  | _, _ => (.incorrectParams, s)

def cmdSetOtpPin (a : Apdu) (e : Env) (s : State C) : Sw × State C :=
  if s.validated = false then (.securityStatusNotSatisfied, s)
  else if Ef.hasData s.pin then (.conditionsNotSatisfied, s)
  else
    match a.field tagPassword with
    | none => (.incorrectParams, s)
    | some pw =>
      let s := { s with pin := e.put.put s.pin (pinRecordV1 P pw) }
      if e.put = .ok then (.ok, { s with otpPinVerified := false }) else (.memoryFailure, s)

def cmdChangeOtpPin (a : Apdu) (e : Env) (s : State C) : Sw × State C :=
  if pinUsable s.pin = false then (.conditionsNotSatisfied, s)
  else
    match a.field tagPassword, a.field tagNewPassword with
    | some pw, some newPw =>
      match checkPin P e s.pin pw with
      | (.storageError, pin) => (.memoryFailure, { s with pin := pin, otpPinVerified := false })
      | (.match, pin) =>
        let s := { s with pin := e.put.put pin (pinRecordV1 P newPw) }
        if e.put = .ok then (.ok, { s with otpPinVerified := false }) else (.memoryFailure, s)
      | (_, pin) => (.securityStatusNotSatisfied, { s with pin := pin, otpPinVerified := false })
    | _, _ => (.incorrectParams, s)

def cmdVerifyOtpPin (a : Apdu) (e : Env) (s : State C) : Sw × State C :=
  if pinUsable s.pin = false then (.conditionsNotSatisfied, s)
  else
    let s := { s with otpPinVerified := false }
    match a.field tagPassword with
    | none => (.incorrectParams, s)
    | some pw =>
      match checkPin P e s.pin pw with
      | (.storageError, pin) => (.memoryFailure, { s with pin := pin })
      | (.match, pin) =>
        let s := { s with pin := e.put.put pin (pinRecordV1 P pw) }
        if e.put = .ok then (.ok, { s with validated := true, otpPinVerified := true })
        else (.memoryFailure, s)
      | (_, pin) => (.securityStatusNotSatisfied, { s with pin := pin, validated := false })

/-- The body of a guarded command. -/
def work (a : Apdu) (s : State C) : Sw × State C :=
  ((P.body a.ins a s.creds).1, { s with creds := (P.body a.ins a s.creds).2 })

/-- A command that only looks at the flag. -/
def guarded (a : Apdu) (s : State C) : Sw × State C :=
  if s.validated = false then (.securityStatusNotSatisfied, s) else work P a s

/-- A command that looks at the flag and at the PIN. -/
def guardedByPin (a : Apdu) (s : State C) : Sw × State C :=
  if s.validated = false then (.securityStatusNotSatisfied, s)
  else if Ef.hasData s.pin && !s.otpPinVerified then (.securityStatusNotSatisfied, s)
  else work P a s

/-- oath_list_next and oath_calculate_all_next: the chain goes on while there is more to send. -/
def sendNext (a : Apdu) (s : State C) : Sw × State C :=
  if s.validated = false then (.securityStatusNotSatisfied, { s with chain := .none })
  else
    let (sw, s) := work P a s
    (sw, if sw = .bytesRemaining then s else { s with chain := .none })

def cmdCalculateAll (a : Apdu) (s : State C) : Sw × State C :=
  if a.p2 ≠ 0 ∧ a.p2 ≠ 1 then (.incorrectP1P2, s)
  else if s.validated = false then (.securityStatusNotSatisfied, s)
  else
    match a.field tagChallenge with
    | none => (.incorrectParams, s)
    | some chal =>
      if 255 < chal.length then (.incorrectParams, s)
      else sendNext P a { s with chain := .calculateAll }

def cmdSendRemaining (a : Apdu) (s : State C) : Sw × State C :=
  if s.chain = .none then (.ok, s) else sendNext P a s

/-- The handlers. -/
def handle (a : Apdu) (e : Env) (s : State C) : Sw × State C :=
  match a.ins with
  | .put => guarded P a s
  | .delete => guarded P a s
  | .setCode => cmdSetCode P a e s
  | .reset => cmdReset P a e s
  | .rename => guarded P a s
  | .list => sendNext P a { s with chain := .list }
  | .validate => cmdValidate P a s
  | .calculate => if a.p2 ≠ 0 ∧ a.p2 ≠ 1 then (.incorrectP1P2, s) else guarded P a s
  | .calculateAll => cmdCalculateAll P a s
  | .sendRemaining => cmdSendRemaining P a s
  | .setPin => cmdSetOtpPin P a e s
  | .changePin => cmdChangeOtpPin P a e s
  | .verifyPin => cmdVerifyOtpPin P a e s
  | .verifyCode => guardedByPin P a s
  | .getCredential => guardedByPin P a s
  | .unknown => (.insNotSupported, s)

/-- oath_process_apdu. -/
def processApdu (a : Apdu) (e : Env) (s : State C) : Sw × State C :=
  if a.cla ≠ 0 then (.claNotSupported, { s with chain := .none })
  else
    let s := if a.ins = .sendRemaining then s else { s with chain := .none }
    if e.capable = false then (.insNotSupported, s) else handle P a e s

/-- oath_migrate_secrets: keys that are stored in the clear are encrypted. -/
def migrateSecrets (e : Env) (s : State C) : Bool × State C :=
  if s.migrationDone then (true, s)
  else
    match P.migrate s.creds with
    | (false, creds) => (false, { s with creds := creds })
    | (true, creds) =>
      let s := { s with creds := creds }
      match s.code with
      | some stored =>
        if stored ≠ [] ∧ keyIsSecure stored = false then
          (decide (e.put = .ok), { s with
            code := e.put.put s.code (P.encrypt stored), migrationDone := decide (e.put = .ok) })
        else (true, { s with migrationDone := true })
      | none => (true, { s with migrationDone := true })

/-- oath_select; whether it succeeds. -/
def select (e : Env) (s : State C) : Bool × State C :=
  if e.capable = false then (false, s)
  else
    let codePresent := s.code.isSome
    let s := { s with
      chain := .none
      validated := !codePresent && !Ef.hasData s.pin
      otpPinVerified := false }
    match migrateSecrets P e s with
    | (false, s) => (false, s)
    | (true, s) => (true, { s with challenge := if codePresent then e.fresh else s.challenge })

end Commands

end Oath

end KeyWallet
