import KeyWallet.UiState

/-! `pin_submit` and what it calls: the lock record, the stored hash and the scheduled wipe. -/
namespace KeyWallet

variable {Salt H : Type} [DecidableEq H]

/-- Everything one pass of `wallet_ui_task` reads from outside: the tick count, the GPIO levels,
the RTC at each of its three reads, random numbers and the NVS answers. With `cut` the power is
lost during the pass, after the last of its NVS operations that took effect. -/
structure TaskEnv where
  now : UInt32 := 0
  levels : ButtonLevels := {}
  lockBack : Bool := true
  resetYes : Bool := true
  rtcRefresh : RtcBus := ⟨none, none⟩
  rtcSubmit : RtcBus := ⟨none, none⟩
  rtcAfter : RtcBus := ⟨none, none⟩
  submitTick : UInt32 := 0
  random : Octets := []
  random32 : Nat := 0
  lockSet : NvsReply := .ok
  lockCommit : NvsReply := .ok
  hashSet : NvsReply := .ok
  hashCommit : NvsReply := .ok
  wipeSet : NvsReply := .ok
  wipeCommit : NvsReply := .ok
  cut : Bool := false

def World.emit (w : World H) (ev : UiEvent H) : World H :=
  { w with trace := ev :: w.trace }

def uint32Max : Nat := 4294967295

def pinLockStore (env : TaskEnv) (record : PinLockRecord) (w : World H) : Bool × World H :=
  if !w.lock.storageOk || !w.pinStoreOpen then
    (false, { w with lock.storageOk := false })
  else
    let stored := w.nvs.store env.lockSet env.lockCommit fun i => { i with pinLock := some record }
    if stored.1 then (true, { w with nvs := stored.2, lock.record := record })
    else (false, { w with nvs := stored.2, lock.storageOk := false })

/-- `pin_lock_check`: the gate and, when the clock could be used, its reading. -/
def pinLockCheck (bus : RtcBus) (w : World H) : PinGate × Nat :=
  if !w.lock.storageOk || !w.pinStoreOpen then (.flashError, 0) else
  match rtcSeconds w.rtcPresent bus with
  | none => (.rtcError, 0)
  | some now =>
    if now < w.lock.record.lastSeen then (.rtcError, 0)
    else if w.lock.record.lockedUntil > now then (.wait, now)
    else (.ready, now)

def lockDelay (failures : Nat) : Nat :=
  if failures = 5 then 30 else if failures = 6 then 120 else if failures = 7 then 600
  else if failures ≥ 8 then 3600 else 0

def nextFailures (failures : Nat) : Nat :=
  if failures < uint32Max then failures + 1 else failures

def nextLockRecord (record : PinLockRecord) (correct : Bool) (now : Nat) : PinLockRecord :=
  if correct then { version := 1, failures := 0, lockedUntil := 0, lastSeen := now }
  else
    let failures := nextFailures record.failures
    { version := 1, failures := failures
      lockedUntil := if lockDelay failures ≠ 0 then now + lockDelay failures else 0
      lastSeen := now }

def pinLockRecordResult (env : TaskEnv) (correct : Bool) (now : Nat) (w : World H) :
    Bool × World H :=
  pinLockStore env (nextLockRecord w.lock.record correct now) w

def World.pinClear (w : World H) : World H := { w with pad.entry := {} }

def World.zeroizeFirst (w : World H) : World H := { w with pad.first := List.replicate 7 0 }

def cString (bytes : Octets) : Octets := bytes.takeWhile (· != 0)

/-- `pin_calculate` against the stored hash; an empty `pin_hash` is no valid setting. -/
def pinCalculate (B : Bcrypt Salt H) (entry : PinEntry) (pinHash : Option H) : Option H :=
  pinHash.bind fun h => B.rn (cString entry.bytes) (.inr h)

def pinStoreNew (B : Bcrypt Salt H) (env : TaskEnv) (w : World H) : Option H × World H :=
  match (B.gensalt env.random).bind fun salt => B.rn (cString w.pad.entry.bytes) (.inl salt) with
  | none => (none, w)
  | some generated =>
    if !w.pinStoreOpen then (none, w) else
    let stored := w.nvs.store env.hashSet env.hashCommit fun i => { i with bcrypt := some generated }
    if stored.1 then (some generated, { w with nvs := stored.2, pinHash := some generated })
    else (none, { w with nvs := stored.2 })

/-- The four decimal digits `snprintf(.., "%04lu", n)` writes for `n < 10000`. -/
def fourDigits (n : Nat) : Octets :=
  [n / 1000 % 10, n / 100 % 10, n / 10 % 10, n % 10].map fun d => UInt8.ofNat (48 + d)

def resetChallengeStart (env : TaskEnv) (w : World H) : World H :=
  { w with
    pad.resetChallenge := fourDigits (env.random32 % 10000)
    pad.entry := {}
    pad.selectedKey := 0
    pad.notice := none
    pad.backDown := false
    pad.backCancelled := false
    pad.previousButtons := none
    pad.mode := .resetChallenge }

def resetScheduleWipe (env : TaskEnv) (w : World H) : Bool × World H :=
  if !w.pinStoreOpen then (false, w) else
  let stored := w.nvs.store env.wipeSet env.wipeCommit fun i => { i with wipePending := some 1 }
  (stored.1, { w with nvs := stored.2 })

/-- The branches of `pin_submit` after the lock record has been written. -/
def pinOutcome (env : TaskEnv) (ok : Bool) (w : World H) : SubmitOutcome × World H :=
  if w.pad.mode = .changeCurrent then
    if ok then
      (.currentAccepted,
        { w with pad.mode := .changeNew, pad.notice := none, pad.selectedKey := 0 })
    else (.wrongPin, { w with pad.notice := some .wrongPin })
  else if w.pad.mode = .resetVerify then
    if !ok then (.wrongPin, { w with pad.notice := some .wrongPin })
    else
      let scheduled := resetScheduleWipe env w
      if !scheduled.1 then
        (.resetNotScheduled, { scheduled.2 with pad.notice := some .flashError })
      else
        -- `esp_restart` ends the run of this boot.
        (.resetScheduled,
          { scheduled.2 with
            pad.mode := .idle
            screen.settingsOpen := false
            screen.shownCommand := .resetDevice
            screen.status := .resetting
            powered := false })
  else if ok then
    (.authorized, { w with pad.mode := .idle, localAuthResult := 1, pad.notice := none })
  else (.wrongPin, { w with pad.notice := some .wrongPin })

/-- The record of a call, for the trace. -/
def submissionOf (env : TaskEnv) (w : World H) (candidate : Option H) (correct persisted : Bool)
    (outcome : SubmitOutcome) : Submission H where
  mode := w.pad.mode
  entry := w.pad.entry
  gate := (pinLockCheck env.rtcSubmit w).1
  time := (pinLockCheck env.rtcSubmit w).2
  durableSeen := w.nvs.durableSeen
  stored := w.pinHash
  candidate := candidate
  correct := correct
  persisted := persisted
  outcome := if env.cut then .powerLost else outcome

/-- `pin_submit` from the comparison on. `w` is the state at the call, `cleared` the one with the
gate stored and the entry cleared. -/
def pinRecordEntry (env : TaskEnv) (w cleared : World H) (candidate : H) : World H :=
  let ok : Bool := some candidate = w.pinHash
  let recorded := pinLockRecordResult env ok (pinLockCheck env.rtcSubmit w).2 cleared
  if !recorded.1 then
    World.emit
      { recorded.2 with lock.gate := .flashError, pad.notice := some .flashError }
      (.submission (submissionOf env w (some candidate) ok false .notRecorded))
  else
    let checked := { recorded.2 with lock.gate := (pinLockCheck env.rtcAfter recorded.2).1 }
    let outcome := pinOutcome env ok checked
    outcome.2.emit (.submission (submissionOf env w (some candidate) ok true outcome.1))

/-- The part of `pin_submit` that verifies a six-digit entry against `pin_hash`. -/
def pinVerifyEntry (B : Bcrypt Salt H) (env : TaskEnv) (w : World H) : World H :=
  let check := pinLockCheck env.rtcSubmit w
  let gated := { w with lock.gate := check.1 }
  if check.1 ≠ .ready then
    gated.pinClear.emit (.submission (submissionOf env w none false false .gateClosed))
  else match pinCalculate B w.pad.entry w.pinHash with
  | none =>
    World.emit
      { gated.pinClear with
        lock.storageOk := false
        lock.gate := .flashError
        pad.notice := some .hashError }
      (.submission (submissionOf env w none false false .hashError))
  | some candidate => pinRecordEntry env w gated.pinClear candidate

/-- `memcmp(pin_first, pin_entry, 6) == 0`. -/
def firstMatches (w : World H) : Bool :=
  w.pad.first.take 6 = w.pad.entry.bytes.take 6

/-- The `PIN_RETYPE` branch of `pin_submit`. -/
def pinSubmitRetype (B : Bcrypt Salt H) (env : TaskEnv) (w : World H) : World H :=
  if !firstMatches w then
    { w.pinClear.zeroizeFirst with
      pad.mode := .create, pad.notice := some .mismatch, pad.selectedKey := 0 }
  else
    let stored := pinStoreNew B env w
    let cleared := stored.2.zeroizeFirst.pinClear
    match stored.1 with
    | none => { cleared with pad.notice := some .flashError }
    | some generated =>
      let done := if w.pad.setupAtBoot then
          { cleared with
            pad.mode := .idle
            pad.setupAtBoot := false
            screen.waiting := false
            screen.shownCommand := .ready
            screen.status := .ready
            screen.command := .ready }
        else { cleared with pad.mode := .idle, localAuthResult := 1 }
      done.emit (.stored .retype w.pad.entry generated)

/-- The `PIN_CHANGE_RETYPE` branch of `pin_submit`. -/
def pinSubmitChangeRetype (B : Bcrypt Salt H) (env : TaskEnv) (w : World H) : World H :=
  if !firstMatches w then
    { w.pinClear.zeroizeFirst with pad.mode := .changeNew, pad.notice := some .mismatch }
  else
    let stored := pinStoreNew B env w
    let cleared := stored.2.pinClear.zeroizeFirst
    match stored.1 with
    | none => { cleared with pad.mode := .changeNew, pad.notice := some .flashError }
    | some generated =>
      World.emit
        { cleared with
          pad.mode := .idle
          pad.notice := none
          screen.settingsChangeSuccess := true
          screen.settingsChangeSuccessUntil := env.submitTick + 500 }
        (.stored .changeRetype w.pad.entry generated)

def pinSubmit (B : Bcrypt Salt H) (env : TaskEnv) (w : World H) : World H :=
  if w.pad.mode = .resetChallenge then
    if w.pad.entry.length ≠ 4 then w
    else if w.pad.entry.bytes.take 4 = w.pad.resetChallenge then
      { w.pinClear with pad.mode := .resetVerify, pad.notice := none, lock.checkedAt := 0 }
    else w.pinClear
  else if w.pad.entry.length ≠ 6 then w
  else match w.pad.mode with
  | .create =>
    World.emit
      { w.pinClear with pad.first := w.pad.entry.bytes, pad.mode := .retype, pad.notice := none }
      (.createEntry w.pad.entry)
  | .retype => pinSubmitRetype B env w
  | .changeNew =>
    { w.pinClear with
      pad.first := w.pad.entry.bytes, pad.mode := .changeRetype, pad.notice := none }
  | .changeRetype => pinSubmitChangeRetype B env w
  | _ => pinVerifyEntry B env w

end KeyWallet
