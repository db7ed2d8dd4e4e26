import KeyWallet.OathAccess
import KeyWallet.CrashProgram

/-! The retry counter of the OATH PIN, with the storage below it: what is written, what is durable
when a candidate is compared, and what a power loss brings back. -/
namespace KeyWallet.Oath.Retry

open CrashProgram StepSystem
open CrashProgram.Prog (look put commit done fail)

/-- EF_OATH_CODE and EF_OTP_PIN. -/
inductive EfId
  | code
  | pin
  deriving DecidableEq, Repr

structure Vars where
  validated : Bool := false
  otpPinVerified : Bool := false
  deriving DecidableEq, Repr

/-- A candidate is compared with the stored verifier, or the PIN is gone from EF_OTP_PIN. -/
inductive Event
  | compared (matched : Bool)
  | removed
  deriving DecidableEq, Repr

abbrev Files := EfId → Ef
abbrev OathMachine := Machine EfId Ef Vars Event
abbrev OathProg := Prog EfId Ef Vars Event Sw

section Commands

variable {C : Type} (P : Provider C)

/-- The record with one try less. -/
def spent (record : Data) : Data := (record.getD 0 0 - 1) :: record.drop 1

/-- What oath_check_pin reads back before it compares. -/
def readBack (record : Data) (stored : Ef) : Bool :=
  stored.any fun r => r.length = record.length && r.getD 0 0 = record.getD 0 0

/-- The comparison at the end of oath_check_pin. -/
def compare (record pin : Data) (stored : Ef) : OathProg Match :=
  if readBack record stored then do
    let matched := pinMatches P (stored.getD []) pin
    event (.compared matched)
    return if matched then .match else .mismatch
  else return .storageError

/-- oath_check_pin. -/
def checkPin (pin : Data) : OathProg Match :=
  look fun _ files =>
    match files .pin with
    | none => done .storageError
    | some record =>
      if pinUsable (some record) = false then done .storageError
      else if record.getD 0 0 = 0 then done .blocked
      else
        put .pin (some (spent record)) fun stored =>
          if stored then
            commit fun synced =>
              if synced then look fun _ now => compare P (spent record) pin (now .pin)
              else done .storageError
          else done .storageError

/-- The new record that ends cmd_verify_otp_pin and cmd_change_otp_pin. -/
def renewRecord (pin : Data) (flags : Vars → Vars) : OathProg Unit :=
  put .pin (some (pinRecordV1 P pin)) fun stored =>
    if stored then do
      commitLater
      setting flags
    else fail .memoryFailure

def cmdVerifyOtpPin (password : Option Data) : OathProg Unit :=
  look fun _ files =>
    if pinUsable (files .pin) = false then fail .conditionsNotSatisfied
    else do
      setting fun s => { s with otpPinVerified := false }
      match password with
      | none => fail .incorrectParams
      | some pw =>
        (checkPin P pw).bind fun
          | .storageError => fail .memoryFailure
          | .match => renewRecord P pw fun _ => { validated := true, otpPinVerified := true }
          | _ => do
            setting fun s => { s with validated := false }
            fail .securityStatusNotSatisfied

def cmdChangeOtpPin (password newPassword : Option Data) : OathProg Unit :=
  look fun _ files =>
    if pinUsable (files .pin) = false then fail .conditionsNotSatisfied
    else
      match password, newPassword with
      | some pw, some newPw =>
        (checkPin P pw).bind fun
          | .match => renewRecord P newPw fun s => { s with otpPinVerified := false }
          | m => do
            setting fun s => { s with otpPinVerified := false }
            fail (if m = .storageError then .memoryFailure else .securityStatusNotSatisfied)
      | _, _ => fail .incorrectParams

def cmdSetOtpPin (password : Option Data) : OathProg Unit :=
  look fun s files =>
    if s.validated = false then fail .securityStatusNotSatisfied
    else if Ef.hasData (files .pin) then fail .conditionsNotSatisfied
    else
      match password with
      | none => fail .incorrectParams
      | some pw => renewRecord P pw fun s => { s with otpPinVerified := false }

/-- The record is gone: there is no PIN to guess any more. -/
def noteRemoval : OathProg Unit :=
  look fun _ files => if Ef.hasData (files .pin) then done () else event .removed

/-- cmd_set_code once the new code has been checked. -/
def storeCode (key : Data) : OathProg Unit :=
  look fun _ files =>
    if Ef.hasData (files .pin) then
      put .pin none fun cleared => do
        noteRemoval
        if cleared then storeKey else fail .memoryFailure
    else storeKey
where
  storeKey : OathProg Unit :=
    put .code (some (sealedKey P key)) fun stored =>
      if stored then commitLater else fail .execError

/-- The removal of the access code in cmd_set_code. -/
def removeCode : OathProg Unit :=
  put .code none fun removed => do
    setting fun s => { s with validated := true }
    if removed then return () else fail .memoryFailure

def cmdSetCode (a : Apdu) : OathProg Unit :=
  look fun s _ =>
    if s.validated = false then fail .securityStatusNotSatisfied
    else if a.nc = 0 then removeCode
    else
      match a.field tagKey with
      | none => fail .incorrectParams
      | some key =>
        if key.length = 1 ∨ accessCodeMaxLen < key.length then fail .wrongData
        else if key.length = 0 then removeCode
        else
          match a.field tagChallenge, a.field tagResponse with
          | some chal, some resp =>
            match mdInfo (key.getD 0 0) with
            | none => fail .incorrectParams
            | some md =>
              if resp ≠ P.hmac md (key.drop 1) chal then fail .dataInvalid
              else do
                setting fun s => { s with validated := false }
                storeCode P key
          | _, _ => fail .incorrectParams

/-- The end of cmd_reset. -/
def resetEnd : OathProg Unit := do
  commitLater
  setting fun _ => { validated := true, otpPinVerified := false }

/-- cmd_reset, once the credentials are gone. -/
def cmdReset : OathProg Unit := do
  writeFile .code none
  writeFile .pin none
  noteRemoval
  resetEnd

/-- oath_select. -/
def select : OathProg Unit :=
  look fun _ files => setting fun _ =>
    { validated := !(files .code).isSome && !Ef.hasData (files .pin), otpPinVerified := false }

/-- cmd_validate, where `proved` says whether the response was right. -/
def cmdValidate (proved : Bool) : OathProg Unit :=
  look fun _ files =>
    if Ef.hasData (files .code) = false then do
      setting fun s => { s with validated := true }
      fail .dataInvalid
    else if proved then setting fun s => { s with validated := true }
    else fail .dataInvalid

end Commands

/-- One thing that happens: a command with the replies of the storage to it, the pages of the cache
written by flash_task, or a power loss between commands. -/
inductive Input
  | verify (password : Option Data) (replies : List Reply)
  | change (password newPassword : Option Data) (replies : List Reply)
  | setPin (password : Option Data) (replies : List Reply)
  | setCode (a : Apdu) (replies : List Reply)
  | reset (replies : List Reply)
  | select
  | validate (proved : Bool)
  | drain
  | powerCycle

variable {C : Type}

/-- After a power loss the applet starts anew from the flash. -/
def after (r : Outcome Sw Unit × OathMachine × List Reply) : OathMachine :=
  match r.1 with
  | .lost => r.2.1.reboot {}
  | _ => r.2.1

/-- The command of an input. -/
def command (P : Provider C) : Input → OathProg Unit
  | .verify pw _ => cmdVerifyOtpPin P pw
  | .change pw newPw _ => cmdChangeOtpPin P pw newPw
  | .setPin pw _ => cmdSetOtpPin P pw
  | .setCode a _ => cmdSetCode P a
  | .reset _ => cmdReset
  | .select => select
  | .validate proved => cmdValidate proved
  | .drain => done ()
  | .powerCycle => done ()

def replies : Input → List Reply
  | .verify _ rs => rs
  | .change _ _ rs => rs
  | .setPin _ rs => rs
  | .setCode _ rs => rs
  | .reset rs => rs
  | _ => []

def step (P : Provider C) (m : OathMachine) : Input → OathMachine
  | .drain => m.sync
  | .powerCycle => m.reboot {}
  | i => after (exec (command P i) m (replies i))

/-! The budget of wrong candidates. -/

/-- The counter of a record. -/
def count (file : Ef) : Nat := ((file.getD []).getD 0 0).toNat

/-- The wrong candidates that EF_OTP_PIN still allows; before a PIN is set, all of them, and none
where the record cannot be used. -/
def budget (file : Ef) : Nat :=
  if Ef.hasData file then if pinUsable file then count file else 0 else maxOtpCounter

abbrev Log := List (Event × Files)

/-- Wrong candidates since the last right one, or since the PIN was removed. The log is oldest
first. -/
def wrongGuesses (log : Log) : Nat :=
  log.foldl (fun n e => if e.1 = .compared false then n + 1 else 0) 0

theorem wrongGuesses_append (log : Log) (e : Event) (files : Files) :
    wrongGuesses (log ++ [(e, files)]) = if e = .compared false then wrongGuesses log + 1 else 0 := by
  unfold wrongGuesses
  rw [List.foldl_append]
  rfl

theorem pinUsable_some {record : Data} (h : pinUsable (some record) = true) :
    record ≠ [] ∧ (record.length = otpPinLegacySize ∨ record.length = otpPinV1Size) := by
  unfold pinUsable Ef.hasData at h
  simpa using h

theorem pinUsable_of {record : Data} (hne : record ≠ [])
    (hlen : record.length = otpPinLegacySize ∨ record.length = otpPinV1Size) :
    pinUsable (some record) = true := by
  unfold pinUsable Ef.hasData
  simpa using ⟨hne, hlen⟩

theorem hasData_of_usable {file : Ef} (h : pinUsable file = true) : Ef.hasData file = true := by
  unfold pinUsable at h
  rw [Bool.and_eq_true] at h
  exact h.1

theorem spent_length {record : Data} (h : record ≠ []) : (spent record).length = record.length := by
  cases record with
  | nil => exact absurd rfl h
  | cons x xs => rfl

theorem pinUsable_spent {record : Data} (h : pinUsable (some record) = true) :
    pinUsable (some (spent record)) = true := by
  obtain ⟨hne, hlen⟩ := pinUsable_some h
  apply pinUsable_of
  · exact List.cons_ne_nil _ _
  · rw [spent_length hne]
    exact hlen

theorem count_spent {record : Data} (h : record.getD 0 0 ≠ 0) :
    count (some (spent record)) + 1 = count (some record) := by
  have hhead : (spent record).getD 0 0 = record.getD 0 0 - 1 := rfl
  unfold count
  dsimp only [Option.getD_some]
  rw [hhead]
  have hpos : (record.getD 0 0).toNat ≠ 0 := by
    intro hzero
    exact h (BitVec.eq_of_toNat_eq (by rw [hzero]; rfl))
  have hlt := (record.getD 0 0).isLt
  have hone : (1 : BitVec 8).toNat = 1 := rfl
  rw [BitVec.toNat_sub, hone]
  omega

theorem budget_usable {file : Ef} (h : pinUsable file = true) : budget file = count file := by
  unfold budget
  rw [if_pos (hasData_of_usable h), if_pos h]

theorem budget_spent {record : Data} (h : pinUsable (some record) = true)
    (hcount : record.getD 0 0 ≠ 0) :
    budget (some (spent record)) + 1 = budget (some record) := by
  rw [budget_usable h, budget_usable (pinUsable_spent h)]
  exact count_spent hcount

theorem budget_noData {file : Ef} (h : ¬ Ef.hasData file = true) : budget file = maxOtpCounter :=
  if_neg h

theorem pinRecordV1_usable (P : Provider C) (pin : Data) :
    pinUsable (some (pinRecordV1 P pin)) = true := by
  apply pinUsable_of
  · exact List.cons_ne_nil _ _
  · right
    unfold pinRecordV1
    rw [List.length_cons, List.length_cons, P.verifier_length]
    rfl

theorem count_recordV1 (P : Provider C) (pin : Data) :
    count (some (pinRecordV1 P pin)) = maxOtpCounter := rfl

theorem budget_recordV1 (P : Provider C) (pin : Data) :
    budget (some (pinRecordV1 P pin)) = maxOtpCounter :=
  budget_usable (pinRecordV1_usable P pin)

/-- What must hold whenever the power may go. -/
structure Bounded (m : OathMachine) : Prop where
  view : wrongGuesses m.log + budget (m.view .pin) ≤ maxOtpCounter
  flash : wrongGuesses m.log + budget (m.flash .pin) ≤ maxOtpCounter

/-- Every comparison made since `m` found a counter one lower than that of `m` in the flash. -/
def Paid (m n : OathMachine) : Prop :=
  ∃ new, n.log = m.log ++ new ∧ ∀ e ∈ new, ∀ matched, e.1 = .compared matched →
    pinUsable (e.2 .pin) = true ∧ count (e.2 .pin) + 1 = count (m.view .pin)

theorem Paid.of_log {m n : OathMachine} (h : n.log = m.log) : Paid m n := by
  refine ⟨[], ?_, ?_⟩
  · rw [h, List.append_nil]
  · intro e he
    cases he

theorem Paid.record {m n : OathMachine} (h : n.log = m.log) {e : Event}
    (he : ∀ matched, e = .compared matched →
      pinUsable (n.flash .pin) = true ∧ count (n.flash .pin) + 1 = count (m.view .pin)) :
    Paid m (n.record e) := by
  refine ⟨[(e, n.flash)], ?_, ?_⟩
  · rw [Machine.record_log, h]
  · intro e' he' matched hmatched
    rw [List.mem_singleton.mp he'] at hmatched ⊢
    exact he matched hmatched

/-- What a command may do to the counter. -/
structure Kept (m n : OathMachine) : Prop where
  bounded : Bounded n
  paid : Paid m n

section Specs

variable {P : Provider C} {f : Faults} {m : OathMachine} {pin : Data}

/-- The candidate was right: the record of `m` says so, and no wrong one is open. -/
structure Matched (P : Provider C) (pin : Data) (m n : OathMachine) : Prop where
  matched : ∃ record, m.view .pin = some record ∧ pinMatches P record pin = true
  guesses : wrongGuesses n.log = 0

theorem pinMatches_spent {record : Data} (h : record ≠ []) :
    pinMatches P (spent record) pin = pinMatches P record pin := by
  cases record with
  | nil => exact absurd rfl h
  | cons x xs => rfl

theorem compare_spec {n : OathMachine} {record : Data} (hrecord : record ≠ [])
    (hlog : n.log = m.log) (hfile : m.view .pin = some record)
    (hview : n.view .pin = some (spent record)) (hflash : n.flash .pin = some (spent record))
    (husable : pinUsable (some record) = true) (hzero : record.getD 0 0 ≠ 0) (h : Bounded m) :
    wp f (compare P (spent record) pin (some (spent record)))
      (fun r n => Kept m n ∧ (r = .match → Matched P pin m n)) (fun _ _ => False) (Kept m) n := by
  have hback : readBack (spent record) (some (spent record)) = true := by
    unfold readBack
    simp
  have hbudget := budget_spent husable hzero
  have hbounded := h.view
  rw [hfile] at hbounded
  have hpaid : ∀ matched, Paid m (n.record (.compared matched)) := by
    intro matched
    apply Paid.record hlog
    intro _ _
    rw [hflash, hfile]
    exact ⟨pinUsable_spent husable, count_spent hzero⟩
  rw [compare, if_pos hback]
  show Kept m (n.record (.compared (pinMatches P (spent record) pin))) ∧
    ((if pinMatches P (spent record) pin = true then Match.match else Match.mismatch) = .match →
      Matched P pin m (n.record (.compared (pinMatches P (spent record) pin))))
  rw [pinMatches_spent hrecord]
  cases hmatch : pinMatches P record pin with
  | true =>
    have hguesses : wrongGuesses (n.record (.compared true)).log = 0 := by
      rw [Machine.record_log, wrongGuesses_append, if_neg (by decide)]
    refine ⟨⟨⟨?_, ?_⟩, hpaid true⟩, fun _ => ⟨⟨record, hfile, hmatch⟩, hguesses⟩⟩
    · rw [hguesses, Machine.record_view, hview]
      omega
    · rw [hguesses, Machine.record_flash, hflash]
      omega
  | false =>
    have hguesses : wrongGuesses (n.record (.compared false)).log = wrongGuesses m.log + 1 := by
      rw [Machine.record_log, wrongGuesses_append, if_pos rfl, hlog]
    refine ⟨⟨⟨?_, ?_⟩, hpaid false⟩, ?_⟩
    · rw [hguesses, Machine.record_view, hview]
      omega
    · rw [hguesses, Machine.record_flash, hflash]
      omega
    · intro hno
      cases hno

theorem checkPin_spec (h : Bounded m) :
    wp f (checkPin P pin) (fun r n => Kept m n ∧ (r = .match → Matched P pin m n))
      (fun _ _ => False) (Kept m) m := by
  have hsame : Kept m m := ⟨h, .of_log rfl⟩
  have hother : ∀ {r : Match} {n : OathMachine}, r ≠ .match → Kept m n →
      Kept m n ∧ (r = .match → Matched P pin m n) :=
    fun hr hn => ⟨hn, fun hmatch => absurd hmatch hr⟩
  unfold checkPin
  dsimp only [wp]
  cases hfile : m.view .pin with
  | none => exact hother (by decide) hsame
  | some record =>
    dsimp only
    by_cases husable : pinUsable (some record) = true
    swap
    · rw [if_pos (Bool.eq_false_iff.mpr husable)]
      exact hother (by decide) hsame
    rw [if_neg (by rw [husable]; decide)]
    by_cases hzero : record.getD 0 0 = 0
    · rw [if_pos hzero]
      exact hother (by decide) hsame
    rw [if_neg hzero]
    have hview := h.view
    rw [hfile] at hview
    have hbudget := budget_spent husable hzero
    have hnow : (m.write .pin (some (spent record))).view .pin = some (spent record) := by
      rw [Machine.write_view, Function.update_self]
    -- the spent record in the view, the old one still in the flash
    have hwritten : Kept m (m.write .pin (some (spent record))) := by
      refine ⟨⟨?_, h.flash⟩, .of_log rfl⟩
      rw [Machine.write_log, hnow]
      omega
    -- the spent record in both
    have hsynced : Kept m (m.write .pin (some (spent record))).sync :=
      ⟨⟨hwritten.bounded.view, hwritten.bounded.view⟩, .of_log rfl⟩
    refine ⟨hsame, ⟨hwritten, ?_, fun _ => ⟨?_, ?_⟩⟩, fun _ => ⟨?_, ?_⟩⟩
    · show wp f (compare P (spent record) pin ((m.write .pin (some (spent record))).view .pin)) _ _ _ _
      rw [hnow]
      exact compare_spec (pinUsable_some husable).1 rfl hfile hnow hnow husable hzero h
    · exact hother (by decide) hwritten
    · exact hother (by decide) hsynced
    · exact hother (by decide) hsame
    · exact hother (by decide) hwritten

theorem checkPin_agrees (e : Env) (he : e.retry = .ok) (m : OathMachine) (pin : Data) :
    (exec (checkPin P pin) m []).1 = .done (Oath.checkPin P e (m.view .pin) pin).1 ∧
      (exec (checkPin P pin) m []).2.1.view .pin = (Oath.checkPin P e (m.view .pin) pin).2 := by
  unfold checkPin Oath.checkPin
  dsimp only [exec]
  cases hfile : m.view .pin with
  | none => exact ⟨rfl, hfile⟩
  | some record =>
    dsimp only
    by_cases husable : pinUsable (some record) = false
    · rw [if_pos husable, if_pos husable]
      exact ⟨rfl, hfile⟩
    rw [if_neg husable, if_neg husable]
    by_cases hzero : record.getD 0 0 = 0
    · rw [if_pos hzero, if_pos hzero]
      exact ⟨rfl, hfile⟩
    rw [if_neg hzero, if_neg hzero, he]
    have hnow : (m.write .pin (some (spent record))).view .pin = some (spent record) := by
      rw [Machine.write_view, Function.update_self]
    have hback : readBack (spent record) (some (spent record)) = true := by
      unfold readBack
      simp
    show (exec (compare P (spent record) pin ((m.write .pin (some (spent record))).view .pin)) _ []).1 = _ ∧
      (exec (compare P (spent record) pin ((m.write .pin (some (spent record))).view .pin)) _ []).2.1.view
        .pin = _
    rw [hnow, compare, if_pos hback]
    exact ⟨rfl, hnow⟩

/-- No wrong candidate is open. -/
structure Cleared (m : OathMachine) : Prop where
  guesses : wrongGuesses m.log = 0
  view : budget (m.view .pin) ≤ maxOtpCounter
  flash : budget (m.flash .pin) ≤ maxOtpCounter

theorem Cleared.bounded (h : Cleared m) : Bounded m := by
  refine ⟨?_, ?_⟩
  · rw [h.guesses, Nat.zero_add]
    exact h.view
  · rw [h.guesses, Nat.zero_add]
    exact h.flash

theorem Bounded.cleared (h : Bounded m) (hguesses : wrongGuesses m.log = 0) : Cleared m := by
  have hview := h.view
  have hflash := h.flash
  refine ⟨hguesses, ?_, ?_⟩
  · omega
  · omega

theorem Cleared.flags (h : Cleared m) (s : Vars) : Cleared (m.setVars s) :=
  ⟨h.guesses, h.view, h.flash⟩

theorem renewRecord_spec (h : Cleared m) (flags : Vars → Vars) :
    wp f (renewRecord P pin flags)
      (fun _ n => (Cleared n ∧ n.log = m.log) ∧ n.view .pin = some (pinRecordV1 P pin))
      (fun _ n => Cleared n ∧ n.log = m.log) (fun n => Cleared n ∧ n.log = m.log) m := by
  have hnow : (m.write .pin (some (pinRecordV1 P pin))).view .pin = some (pinRecordV1 P pin) := by
    rw [Machine.write_view, Function.update_self]
  have hwritten : Cleared (m.write .pin (some (pinRecordV1 P pin))) := by
    refine ⟨h.guesses, ?_, h.flash⟩
    rw [hnow, budget_recordV1]
  have hsynced : Cleared (m.write .pin (some (pinRecordV1 P pin))).sync :=
    ⟨h.guesses, hwritten.view, hwritten.view⟩
  unfold renewRecord
  refine ⟨⟨h, rfl⟩, ?_, fun _ => ⟨⟨h, rfl⟩, ⟨hwritten, rfl⟩⟩⟩
  refine ⟨⟨hwritten, rfl⟩, ⟨⟨hsynced.flags _, rfl⟩, hnow⟩, fun _ =>
    ⟨⟨⟨hwritten.flags _, rfl⟩, hnow⟩, ⟨⟨hsynced.flags _, rfl⟩, hnow⟩⟩⟩

/-- Steps that leave EF_OTP_PIN alone, in the view and as far as the flash goes. -/
structure SamePin (m n : OathMachine) : Prop where
  view : n.view .pin = m.view .pin
  flash : n.flash .pin = m.flash .pin ∨ n.flash .pin = m.view .pin
  log : n.log = m.log

theorem SamePin.refl (m : OathMachine) : SamePin m m := ⟨rfl, .inl rfl, rfl⟩

theorem SamePin.kept {n : OathMachine} (hs : SamePin m n) (h : Bounded m) : Kept m n := by
  refine ⟨⟨?_, ?_⟩, .of_log hs.log⟩
  · rw [hs.log, hs.view]
    exact h.view
  · rw [hs.log]
    rcases hs.flash with hflash | hflash
    · rw [hflash]
      exact h.flash
    · rw [hflash]
      exact h.view

theorem SamePin.synced {n : OathMachine} (hs : SamePin m n) : SamePin m n.sync :=
  ⟨hs.view, .inr hs.view, hs.log⟩

theorem SamePin.flags {n : OathMachine} (hs : SamePin m n) (s : Vars) : SamePin m (n.setVars s) :=
  ⟨hs.view, hs.flash, hs.log⟩

theorem SamePin.code {n : OathMachine} (hs : SamePin m n) (v : Ef) : SamePin m (n.write .code v) := by
  refine ⟨?_, hs.flash, hs.log⟩
  rw [Machine.write_view, Function.update_of_ne (by decide)]
  exact hs.view

theorem Kept.flags {n : OathMachine} (h : Kept m n) (s : Vars) : Kept m (n.setVars s) :=
  ⟨⟨h.bounded.view, h.bounded.flash⟩, h.paid⟩

theorem Cleared.kept {n n' : OathMachine} (h : Cleared n') (hlog : n'.log = n.log) (hn : Kept m n) :
    Kept m n' := by
  obtain ⟨new, hnew, hpaid⟩ := hn.paid
  exact ⟨h.bounded, new, hlog.trans hnew, hpaid⟩

theorem checked_spec (pin newPin : Data) {flags : Vars → Vars} {g : Match → OathProg Unit}
    (h : Bounded m) (hmatch : g .match = renewRecord P newPin flags)
    (hother : ∀ r n, r ≠ .match → Kept m n →
      wp f (g r) (fun _ _ => False) (fun _ => Kept m) (Kept m) n) :
    wp f ((checkPin P pin).bind g)
      (fun _ n => Kept m n ∧ n.view .pin = some (pinRecordV1 P newPin) ∧
        ∃ record, m.view .pin = some record ∧ pinMatches P record pin = true)
      (fun _ => Kept m) (Kept m) m := by
  rw [wp_bind]
  refine wp_mono (checkPin_spec h) ?_ ?_ ?_
  · intro r n hr
    obtain ⟨hkept, hmatched⟩ := hr
    by_cases heq : r = .match
    · obtain ⟨hrecord, hguesses⟩ := hmatched heq
      rw [heq, hmatch]
      refine wp_mono (renewRecord_spec (hkept.bounded.cleared hguesses) flags) ?_ ?_ ?_
      · intro _ n' hn'
        exact ⟨hn'.1.1.kept hn'.1.2 hkept, hn'.2, hrecord⟩
      · intro _ n' hn'
        exact hn'.1.kept hn'.2 hkept
      · intro n' hn'
        exact hn'.1.kept hn'.2 hkept
    · refine wp_mono (hother r n heq hkept) ?_ ?_ ?_
      · intro _ _ hfalse
        exact absurd hfalse not_false
      · exact fun _ _ hn => hn
      · exact fun _ hn => hn
  · intro _ _ hfalse
    exact absurd hfalse not_false
  · exact fun _ hn => hn

theorem verify_spec (h : Bounded m) (password : Option Data) :
    wp f (cmdVerifyOtpPin P password)
      (fun _ n => Kept m n ∧ ∃ pw, password = some pw ∧ n.view .pin = some (pinRecordV1 P pw) ∧
        ∃ record, m.view .pin = some record ∧ pinMatches P record pw = true)
      (fun _ => Kept m) (Kept m) m := by
  have hsame : Kept m m := ⟨h, .of_log rfl⟩
  unfold cmdVerifyOtpPin
  dsimp only [wp]
  split_ifs
  · exact hsame
  · cases password with
    | none => exact hsame.flags _
    | some pw =>
      -- the flags are not part of what is compared and written
      have hstart : Bounded (m.setVars { m.vars with otpPinVerified := false }) :=
        ⟨h.view, h.flash⟩
      refine wp_mono (checked_spec pw pw hstart rfl ?_) ?_ ?_ ?_
      · intro r n hr hn
        cases r with
        | «match» => exact absurd rfl hr
        | mismatch => exact hn.flags _
        | blocked => exact hn.flags _
        | storageError => exact hn
      · intro _ n hn
        exact ⟨⟨hn.1.bounded, hn.1.paid⟩, pw, rfl, hn.2⟩
      · exact fun _ _ hn => ⟨hn.bounded, hn.paid⟩
      · exact fun _ hn => ⟨hn.bounded, hn.paid⟩

theorem change_spec (h : Bounded m) (password newPassword : Option Data) :
    wp f (cmdChangeOtpPin P password newPassword) (fun _ => Kept m) (fun _ => Kept m) (Kept m) m := by
  have hsame : Kept m m := ⟨h, .of_log rfl⟩
  unfold cmdChangeOtpPin
  dsimp only [wp]
  split_ifs
  · exact hsame
  · cases password with
    | none => exact hsame
    | some pw =>
      cases newPassword with
      | none => exact hsame
      | some newPw =>
        refine wp_mono (checked_spec pw newPw h rfl ?_) ?_ ?_ ?_
        · intro r n hr hn
          cases r with
          | «match» => exact absurd rfl hr
          | mismatch => exact hn.flags _
          | blocked => exact hn.flags _
          | storageError => exact hn.flags _
        · exact fun _ _ hn => hn.1
        · exact fun _ _ hn => hn
        · exact fun _ hn => hn

theorem setPin_spec (h : Bounded m) (password : Option Data) :
    wp f (cmdSetOtpPin P password) (fun _ => Kept m) (fun _ => Kept m) (Kept m) m := by
  have hsame : Kept m m := ⟨h, .of_log rfl⟩
  unfold cmdSetOtpPin
  dsimp only [wp]
  split_ifs with hvalidated hdata
  · exact hsame
  · exact hsame
  · cases password with
    | none => exact hsame
    | some pw =>
      -- without a record no wrong candidate can be open
      have hview := h.view
      rw [budget_noData hdata] at hview
      have hcleared : Cleared m := h.cleared (by omega)
      refine wp_mono (renewRecord_spec hcleared _) ?_ ?_ ?_
      · exact fun _ _ hn => hn.1.1.kept hn.1.2 hsame
      · exact fun _ _ hn => hn.1.kept hn.2 hsame
      · exact fun _ hn => hn.1.kept hn.2 hsame

theorem Kept.removed {n : OathMachine} (hlog : n.log = m.log) (h : Bounded m)
    (hgone : ¬ Ef.hasData (n.view .pin) = true)
    (hflash : n.flash .pin = m.flash .pin ∨ n.flash .pin = m.view .pin) :
    Kept m (n.record .removed) := by
  have hguesses : wrongGuesses (n.record .removed).log = 0 := by
    rw [Machine.record_log, wrongGuesses_append, if_neg (by decide)]
  have hview := h.view
  have hold := h.flash
  refine ⟨⟨?_, ?_⟩, ?_⟩
  · rw [hguesses, Machine.record_view, budget_noData hgone]
    exact Nat.le_refl _
  · rw [hguesses, Machine.record_flash]
    rcases hflash with hflash | hflash
    · rw [hflash]
      omega
    · rw [hflash]
      omega
  · apply Paid.record hlog
    intro _ hno
    cases hno

theorem noteRemoval_spec {n : OathMachine} {Q : Unit → OathMachine → Prop} (h : Bounded m)
    (hlog : n.log = m.log) (hflash : n.flash .pin = m.flash .pin ∨ n.flash .pin = m.view .pin)
    (hview : n.view .pin = m.view .pin ∨ n.view .pin = none)
    (hQ : ∀ n', Kept m n' → n'.vars = n.vars → Q () n') :
    wp f noteRemoval Q (fun _ => Kept m) (Kept m) n := by
  unfold noteRemoval
  dsimp only [wp]
  split_ifs with hdata
  · rcases hview with hview | hview
    · exact hQ n (SamePin.kept ⟨hview, hflash, hlog⟩ h) rfl
    · rw [hview] at hdata
      cases hdata
  · exact hQ _ (Kept.removed hlog h hdata hflash) rfl

theorem Kept.same {n n' : OathMachine} (h : Kept m n) (hs : SamePin n n') : Kept m n' := by
  obtain ⟨new, hnew, hpaid⟩ := h.paid
  exact ⟨(hs.kept h.bounded).bounded, new, hs.log.trans hnew, hpaid⟩

theorem storeKey_spec {n : OathMachine} (h : Kept m n) (key : Data) :
    wp f (storeCode.storeKey P key) (fun _ => Kept m) (fun _ => Kept m) (Kept m) n := by
  have hwritten : SamePin n (n.write .code (some (sealedKey P key))) := (SamePin.refl n).code _
  unfold storeCode.storeKey
  refine ⟨h, ⟨h.same hwritten, h.same hwritten.synced, fun _ =>
    ⟨h.same hwritten, h.same hwritten.synced⟩⟩, fun _ => ⟨h, h.same hwritten⟩⟩

theorem storeCode_spec (h : Bounded m) (key : Data) :
    wp f (storeCode P key) (fun _ => Kept m) (fun _ => Kept m) (Kept m) m := by
  have hsame : Kept m m := ⟨h, .of_log rfl⟩
  have hgone : (m.write .pin none).view .pin = none := by
    rw [Machine.write_view, Function.update_self]
  unfold storeCode
  dsimp only [wp]
  split_ifs with hdata
  · refine ⟨hsame, ?_, fun _ => ⟨?_, ?_⟩⟩
    · show wp f (noteRemoval.bind _) _ _ _ _
      rw [wp_bind]
      refine noteRemoval_spec h ?_ ?_ (.inr hgone) ?_
      · rfl
      · exact .inl rfl
      · exact fun n hn _ => storeKey_spec hn key
    · show wp f (noteRemoval.bind _) _ _ _ _
      rw [wp_bind]
      apply noteRemoval_spec h rfl (.inl rfl) (.inl rfl)
      exact fun n hn _ => hn
    · show wp f (noteRemoval.bind _) _ _ _ _
      rw [wp_bind]
      refine noteRemoval_spec h ?_ ?_ (.inr hgone) ?_
      · rfl
      · exact .inl rfl
      · exact fun n hn _ => hn
  · exact storeKey_spec hsame key

theorem removeCode_spec (h : Bounded m) :
    wp f removeCode (fun _ => Kept m) (fun _ => Kept m) (Kept m) m := by
  have hsame : SamePin m m := SamePin.refl m
  unfold removeCode
  refine ⟨hsame.kept h, ((hsame.code none).flags _).kept h, fun _ => ⟨(hsame.flags _).kept h,
    ((hsame.code none).flags _).kept h⟩⟩

theorem setCode_spec (h : Bounded m) (a : Apdu) :
    wp f (cmdSetCode P a) (fun _ => Kept m) (fun _ => Kept m) (Kept m) m := by
  have hsame : Kept m m := ⟨h, .of_log rfl⟩
  unfold cmdSetCode
  dsimp only [wp]
  split_ifs
  · exact hsame
  · exact removeCode_spec h
  · cases a.field tagKey with
    | none => exact hsame
    | some key =>
      dsimp only
      split_ifs
      · exact hsame
      · exact removeCode_spec h
      · cases a.field tagChallenge with
        | none => exact hsame
        | some chal =>
          cases a.field tagResponse with
          | none => exact hsame
          | some resp =>
            dsimp only
            cases mdInfo (key.getD 0 0) with
            | none => exact hsame
            | some md =>
              dsimp only
              split_ifs
              · exact hsame
              · have hstart : Bounded (m.setVars { m.vars with validated := false }) :=
                  ⟨h.view, h.flash⟩
                refine wp_mono (storeCode_spec hstart key) ?_ ?_ ?_
                · exact fun _ _ hn => ⟨hn.bounded, hn.paid⟩
                · exact fun _ _ hn => ⟨hn.bounded, hn.paid⟩
                · exact fun _ hn => ⟨hn.bounded, hn.paid⟩

theorem resetEnd_spec {n : OathMachine} (h : Kept m n) :
    wp f resetEnd (fun _ => Kept m) (fun _ => Kept m) (Kept m) n := by
  have hsynced : Kept m n.sync := h.same (SamePin.refl n).synced
  exact ⟨h, hsynced.flags _, fun _ => ⟨h.flags _, hsynced.flags _⟩⟩

theorem clearPin_spec {n : OathMachine} (h : Bounded m) (hs : SamePin m n) :
    wp f ((writeFile .pin none : OathProg Unit).bind fun _ => noteRemoval.bind fun _ => resetEnd)
      (fun _ => Kept m) (fun _ => Kept m) (Kept m) n := by
  refine ⟨hs.kept h, ?_, fun _ => ?_⟩
  · show wp f (noteRemoval.bind _) _ _ _ _
    rw [wp_bind]
    refine noteRemoval_spec h ?_ ?_ ?_ ?_
    · exact hs.log
    · exact hs.flash
    · right
      rw [Machine.write_view, Function.update_self]
    · exact fun _ hn' _ => resetEnd_spec hn'
  · show wp f (noteRemoval.bind _) _ _ _ _
    rw [wp_bind]
    refine noteRemoval_spec h ?_ ?_ (.inl hs.view) ?_
    · exact hs.log
    · exact hs.flash
    · exact fun _ hn' _ => resetEnd_spec hn'

theorem reset_spec (h : Bounded m) :
    wp f cmdReset (fun _ => Kept m) (fun _ => Kept m) (Kept m) m := by
  have hsame : SamePin m m := SamePin.refl m
  unfold cmdReset
  refine ⟨hsame.kept h, ?_, fun _ => ?_⟩
  · exact clearPin_spec h (hsame.code none)
  · exact clearPin_spec h ⟨rfl, .inl rfl, rfl⟩

theorem select_spec (h : Bounded m) :
    wp f select (fun _ => Kept m) (fun _ => Kept m) (Kept m) m :=
  ((SamePin.refl m).flags _).kept h

theorem validate_spec (h : Bounded m) (proved : Bool) :
    wp f (cmdValidate proved) (fun _ => Kept m) (fun _ => Kept m) (Kept m) m := by
  have hsame : SamePin m m := SamePin.refl m
  unfold cmdValidate
  dsimp only [wp]
  split_ifs
  · exact (hsame.flags _).kept h
  · exact (hsame.flags _).kept h
  · exact hsame.kept h

end Specs

/-! Whole runs. -/

section Runs

variable {P : Provider C} {f : Faults} {m : OathMachine}

theorem command_spec (h : Bounded m) (i : Input) :
    wp f (command P i) (fun _ => Kept m) (fun _ => Kept m) (Kept m) m := by
  cases i with
  | verify pw rs => exact wp_mono (verify_spec h pw) (fun _ _ hn => hn.1) (fun _ _ hn => hn) fun _ hn => hn
  | change pw newPw rs => exact change_spec h pw newPw
  | setPin pw rs => exact setPin_spec h pw
  | setCode a rs => exact setCode_spec h a
  | reset rs => exact reset_spec h
  | select => exact select_spec h
  | validate proved => exact validate_spec h proved
  | drain => exact ⟨h, .of_log rfl⟩
  | powerCycle => exact ⟨h, .of_log rfl⟩

theorem Kept.restart {n : OathMachine} (h : Kept m n) : Kept m (n.reboot {}) :=
  ⟨⟨h.bounded.flash, h.bounded.flash⟩, h.paid⟩

theorem after_kept {r : Outcome Sw Unit × OathMachine × List Reply}
    (h : Ends (fun _ => Kept m) (fun _ => Kept m) (Kept m) r) : Kept m (after r) := by
  obtain ⟨o, n, rs⟩ := r
  cases o with
  | done a => exact h
  | fail e => exact h
  | lost => exact Kept.restart h

theorem step_kept (h : Bounded m) (i : Input) : Kept m (step P m i) := by
  have hcommand : Kept m (after (exec (command P i) m (replies i))) :=
    after_kept (wp_sound (f := .all) (command_spec h i) trivial _ (.inl trivial))
  cases i with
  | drain => exact (SamePin.refl m).synced.kept h
  | powerCycle => exact Kept.restart ⟨h, .of_log rfl⟩
  | verify pw rs => exact hcommand
  | change pw newPw rs => exact hcommand
  | setPin pw rs => exact hcommand
  | setCode a rs => exact hcommand
  | reset rs => exact hcommand
  | select => exact hcommand
  | validate proved => exact hcommand

/-- A record without tries. -/
def Blocked (file : Ef) : Prop := pinUsable file = true ∧ count file = 0

/-- No power loss brings a try back. -/
def DurablyBlocked (m : OathMachine) : Prop := Blocked (m.view .pin) ∧ Blocked (m.flash .pin)

/-- The commands that may remove a record: RESET, and SET CODE for an authorized host. -/
def Removes (m : OathMachine) : Input → Prop
  | .reset _ => True
  | .setCode _ _ => m.vars.validated = true
  | _ => False

theorem SamePin.blocked {n : OathMachine} (hs : SamePin m n) (h : DurablyBlocked m) :
    DurablyBlocked n := by
  refine ⟨?_, ?_⟩
  · rw [hs.view]
    exact h.1
  · rcases hs.flash with hflash | hflash
    · rw [hflash]
      exact h.2
    · rw [hflash]
      exact h.1

theorem checkPin_blocked (pin : Data) (h : Blocked (m.view .pin)) :
    wp f (checkPin P pin) (fun r n => r = .blocked ∧ n = m) (fun _ _ => False) (fun _ => False) m := by
  obtain ⟨husable, hcount⟩ := h
  unfold checkPin
  dsimp only [wp]
  cases hfile : m.view .pin with
  | none =>
    rw [hfile] at husable
    cases husable
  | some record =>
    rw [hfile] at husable hcount
    have hzero : record.getD 0 0 = 0 := BitVec.eq_of_toNat_eq hcount
    dsimp only
    rw [if_neg (by rw [husable]; decide), if_pos hzero]
    exact ⟨rfl, rfl⟩

theorem checked_blocked (pin : Data) {n : OathMachine} {g : Match → OathProg Unit}
    (hs : SamePin m n) (h : Blocked (m.view .pin))
    (hg : wp f (g .blocked) (fun _ => SamePin m) (fun _ => SamePin m) (SamePin m) n) :
    wp f ((checkPin P pin).bind g) (fun _ => SamePin m) (fun _ => SamePin m) (SamePin m) n := by
  have hblocked : Blocked (n.view .pin) := by
    rw [hs.view]
    exact h
  rw [wp_bind]
  refine wp_mono (checkPin_blocked pin hblocked) ?_ ?_ ?_
  · intro r n' hr
    obtain ⟨rfl, rfl⟩ := hr
    exact hg
  · exact fun _ _ hfalse => absurd hfalse not_false
  · exact fun _ hfalse => absurd hfalse not_false

theorem command_blocked (h : Blocked (m.view .pin)) (i : Input) (hi : ¬ Removes m i) :
    wp f (command P i) (fun _ => SamePin m) (fun _ => SamePin m) (SamePin m) m := by
  have hsame : SamePin m m := SamePin.refl m
  cases i with
  | verify password rs =>
    show wp f (cmdVerifyOtpPin P password) _ _ _ _
    unfold cmdVerifyOtpPin
    dsimp only [wp]
    rw [if_neg (by rw [h.1]; decide)]
    cases password with
    | none => exact hsame.flags _
    | some pw => exact checked_blocked pw (hsame.flags _) h ((hsame.flags _).flags _)
  | change password newPassword rs =>
    show wp f (cmdChangeOtpPin P password newPassword) _ _ _ _
    unfold cmdChangeOtpPin
    dsimp only [wp]
    rw [if_neg (by rw [h.1]; decide)]
    cases password with
    | none => exact hsame
    | some pw =>
      cases newPassword with
      | none => exact hsame
      | some newPw => exact checked_blocked pw hsame h (hsame.flags _)
  | setPin password rs =>
    show wp f (cmdSetOtpPin P password) _ _ _ _
    unfold cmdSetOtpPin
    dsimp only [wp]
    split_ifs with hvalidated hdata
    · exact hsame
    · exact hsame
    · exact absurd (hasData_of_usable h.1) hdata
  | setCode a rs =>
    show wp f (cmdSetCode P a) _ _ _ _
    unfold cmdSetCode
    dsimp only [wp]
    rw [if_pos (Bool.eq_false_iff.mpr hi)]
    exact hsame
  | reset rs => exact absurd trivial hi
  | select => exact hsame.flags _
  | validate proved =>
    show wp f (cmdValidate proved) _ _ _ _
    unfold cmdValidate
    dsimp only [wp]
    split_ifs
    · exact hsame.flags _
    · exact hsame.flags _
    · exact hsame
  | drain => exact hsame
  | powerCycle => exact hsame

theorem after_blocked (h : DurablyBlocked m) {r : Outcome Sw Unit × OathMachine × List Reply}
    (hr : Ends (fun _ => SamePin m) (fun _ => SamePin m) (SamePin m) r) : DurablyBlocked (after r) := by
  obtain ⟨o, n, rs⟩ := r
  cases o with
  | done a => exact SamePin.blocked hr h
  | fail e => exact SamePin.blocked hr h
  | lost =>
    have hn : DurablyBlocked n := SamePin.blocked hr h
    exact ⟨hn.2, hn.2⟩

theorem step_blocked (h : DurablyBlocked m) (i : Input) (hi : ¬ Removes m i) :
    DurablyBlocked (step P m i) := by
  have hcommand : DurablyBlocked (after (exec (command P i) m (replies i))) :=
    after_blocked h (wp_sound (f := .all) (command_blocked h.1 i hi) trivial _ (.inl trivial))
  cases i with
  | drain => exact ⟨h.1, h.1⟩
  | powerCycle => exact ⟨h.2, h.2⟩
  | verify pw rs => exact hcommand
  | change pw newPw rs => exact hcommand
  | setPin pw rs => exact hcommand
  | setCode a rs => exact hcommand
  | reset rs => exact hcommand
  | select => exact hcommand
  | validate proved => exact hcommand

/-- The two hashes tell the candidate and the PIN apart. -/
def NoCollision (P : Provider C) (pin candidate : Data) : Prop :=
  (P.verifier candidate = P.verifier pin → candidate = pin) ∧
    (P.doubleHash candidate = P.doubleHash pin → candidate = pin)

/-- The record has the full count and the new format, and the same PIN matches it. -/
structure Restored (P : Provider C) (pin : Data) (old new : Ef) : Prop where
  record : new = some (pinRecordV1 P pin)
  full : count new = maxOtpCounter
  matched : ∃ record, old = some record ∧ pinMatches P record pin = true ∧
    ∀ candidate, NoCollision P pin candidate →
      pinMatches P (pinRecordV1 P pin) candidate = pinMatches P record candidate

theorem pinMatches_recordV1 (P : Provider C) (pin candidate : Data) :
    pinMatches P (pinRecordV1 P pin) candidate = decide (P.verifier pin = P.verifier candidate) := by
  have hlen : (pinRecordV1 P pin).length = otpPinV1Size := by
    unfold pinRecordV1
    rw [List.length_cons, List.length_cons, P.verifier_length]
    rfl
  unfold pinMatches
  rw [if_pos ⟨hlen, rfl⟩]
  rfl

theorem pinMatches_upgraded {record pin candidate : Data} (h : pinMatches P record pin = true)
    (hc : NoCollision P pin candidate) :
    pinMatches P (pinRecordV1 P pin) candidate = pinMatches P record candidate := by
  rw [pinMatches_recordV1]
  unfold pinMatches at h ⊢
  by_cases hv1 : record.length = otpPinV1Size ∧ record.getD 1 0 = otpPinFormatV1
  · rw [if_pos hv1] at h ⊢
    rw [of_decide_eq_true h]
  · rw [if_neg hv1] at h ⊢
    by_cases hlegacy : record.length = otpPinLegacySize ∧ 0 < pin.length
    · rw [if_pos hlegacy] at h
      have hstored : record.drop 1 = P.doubleHash pin := of_decide_eq_true h
      -- an old record matches its own PIN only, and so does the new one
      by_cases hsame : candidate = pin
      · rw [hsame, if_pos hlegacy, hstored]
        simp
      · have hnew : ¬ P.verifier pin = P.verifier candidate := fun heq => hsame (hc.1 heq.symm)
        have hold : ¬ record.drop 1 = P.doubleHash candidate := fun heq =>
          hsame (hc.2 (heq.symm.trans hstored))
        rw [decide_eq_false hnew, decide_eq_false hold]
        split_ifs <;> rfl
    · rw [if_neg hlegacy] at h
      cases h

theorem verify_restores (h : Bounded m) {pw : Data} {rs : List Reply}
    (hdone : (exec (cmdVerifyOtpPin P (some pw)) m rs).1 = .done ()) :
    Restored P pw (m.view .pin) ((step P m (.verify (some pw) rs)).view .pin) := by
  have hends := wp_sound (f := .all) (verify_spec (P := P) h (some pw)) trivial rs (.inl trivial)
  obtain ⟨-, pw', hpw, hrecord, record, hold, hmatch⟩ := hends.done hdone
  have hstep : step P m (.verify (some pw) rs) = (exec (cmdVerifyOtpPin P (some pw)) m rs).2.1 := by
    show after (exec (cmdVerifyOtpPin P (some pw)) m rs) = _
    unfold after
    rw [hdone]
  obtain rfl := Option.some.inj hpw
  rw [hstep, hrecord]
  exact ⟨rfl, count_recordV1 P pw, record, hold, hmatch, fun _ hc => pinMatches_upgraded hmatch hc⟩

/-- What each step of a run keeps to. -/
structure Discipline (P : Provider C) (m : OathMachine) (i : Input) : Prop where
  paid : Paid m (step P m i)
  bounded : wrongGuesses (step P m i).log ≤ maxOtpCounter
  blocked : DurablyBlocked m → ¬ Removes m i → DurablyBlocked (step P m i)
  restored : ∀ pw rs, i = .verify (some pw) rs →
    (exec (cmdVerifyOtpPin P (some pw)) m rs).1 = .done () →
    Restored P pw (m.view .pin) ((step P m i).view .pin)

/-- The applet comes up with a record that has at most the full count, or with none. -/
structure Fresh (m : OathMachine) : Prop where
  stored : m.view = m.flash
  log : m.log = []
  counter : budget (m.flash .pin) ≤ maxOtpCounter

/-- In every run, whatever the storage does and wherever the power goes, each step keeps the retry
discipline. -/
theorem pin_retry_discipline (P : Provider C) (m : OathMachine) (hm : Fresh m) (inputs : List Input) :
    Along (step P) (Discipline P) m inputs := by
  have hstart : Bounded m := by
    have hguesses : wrongGuesses m.log = 0 := by
      rw [hm.log]
      rfl
    apply Cleared.bounded
    refine ⟨hguesses, ?_, hm.counter⟩
    rw [hm.stored]
    exact hm.counter
  refine along_law ?_ m inputs (along_true _ m inputs) hstart
  intro n i _ hn
  have hkept : Kept n (step P n i) := step_kept hn i
  refine ⟨hkept.bounded, hkept.paid, ?_, fun hb hi => step_blocked hb i hi, ?_⟩
  · exact Nat.le_trans (Nat.le_add_right _ _) hkept.bounded.view
  · intro pw rs hi hdone
    rw [hi]
    exact verify_restores hn hdone

end Runs

/-- Primitives to try the commands with: a hash that keeps the first bytes. -/
def padded (pin : Data) : Data := (pin ++ List.replicate 32 0).take 32

theorem padded_length (pin : Data) : (padded pin).length = 32 := by
  unfold padded
  rw [List.length_take, List.length_append, List.length_replicate]
  omega

def paddedProvider : Provider Unit where
  hmac := fun _ _ _ => []
  verifier := padded
  verifier_length := padded_length
  doubleHash := padded
  encrypt := fun d => d
  decrypt := some
  body := fun _ _ c => (.ok, c)
  migrate := fun c => (true, c)

/-- A PIN of two bytes with `n` tries, in the old format. -/
def withTries (n : BitVec 8) : OathMachine where
  view := fun e => if e = .pin then some (n :: padded [1, 2]) else none
  flash := fun e => if e = .pin then some (n :: padded [1, 2]) else none
  vars := {}
  log := []
  dropped := []

theorem withTries_fresh : Fresh (withTries 3) := ⟨rfl, rfl, by decide⟩

/-- One wrong candidate, the right one, and a power loss. -/
theorem pin_retry_discipline_upgrade : Fresh (withTries 3) ∧
    Along (step paddedProvider) (Discipline paddedProvider) (withTries 3)
      [.verify (some [7]) [], .verify (some [1, 2]) [], .powerCycle] :=
  ⟨withTries_fresh, pin_retry_discipline paddedProvider (withTries 3) withTries_fresh _⟩

/-- The last try is spent and the commit times out: the PIN is blocked until the power goes, and
then a candidate is compared again. And a right candidate at the last try, with the power lost
before its record is written: the PIN is blocked. -/
theorem blocked_until_power_loss :
    Blocked ((step paddedProvider (withTries 1) (.verify (some [7]) [.ok, .refused false])).view .pin) ∧
    ¬ Blocked ((run (step paddedProvider) (withTries 1)
      [.verify (some [7]) [.ok, .refused false], .powerCycle]).view .pin) ∧
    (run (step paddedProvider) (withTries 1)
      [.verify (some [7]) [.ok, .refused false], .powerCycle, .verify (some [7]) []]).log.length = 1 ∧
    (exec (cmdVerifyOtpPin paddedProvider (some [1, 2])) (withTries 1)
      [.ok, .ok, .ok, .refused false]).1 = .done () ∧
    Blocked ((run (step paddedProvider) (withTries 1)
      [.verify (some [1, 2]) [.ok, .ok, .ok, .refused false], .powerCycle]).view .pin) := by
  refine ⟨⟨?_, ?_⟩, ?_, ?_, ?_, ⟨?_, ?_⟩⟩
  · decide +kernel
  · decide +kernel
  · intro hblocked
    exact absurd hblocked.2 (by decide +kernel)
  · decide +kernel
  · decide +kernel
  · decide +kernel
  · decide +kernel

end KeyWallet.Oath.Retry
