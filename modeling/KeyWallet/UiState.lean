import KeyWallet.RtcClock

/-! The globals of `wallet_ui.c` and `button.c` on the ESP32 build, the NVS namespace
`device-pin`, and the record of what a run has done. The frame buffer is not part of the state:
nothing but the display reads it. -/
namespace KeyWallet

abbrev Octets := List UInt8

inductive PinMode
  | idle | create | retype | verify
  | changeCurrent | changeNew | changeRetype
  | resetChallenge | resetVerify
deriving DecidableEq, Repr

def PinMode.requiresVerification : PinMode → Bool
  | .verify | .changeCurrent | .resetVerify => true
  | _ => false

inductive PinGate
  | ready | wait | rtcError | flashError
deriving DecidableEq, Repr

/-- The texts `pin_notice` can point to. -/
inductive PinNotice
  | mismatch | flashError | wrongPin | hashError
deriving DecidableEq, Repr

/-- The labels passed to `wallet_ui_command` or stored in `shown_command`. -/
inductive CommandLabel
  | ready | register | select | reset | pinCommand | pinSet | getInfo | otherRequest
  | auth | removal | resetDevice
deriving DecidableEq, Repr

/-- The texts `status` can point to. -/
inductive UiStatus
  | ready | confirm | working | resetting | cancelled | approved | timedOut
deriving DecidableEq, Repr

inductive ResultMessage
  | approved | timedOut | gpioSixCancel | hostCancel
deriving DecidableEq, Repr

/-- `strstr(message, "CANCEL") ? "CANCELLED" : message`. -/
def ResultMessage.status : ResultMessage → UiStatus
  | .approved => .approved
  | .timedOut => .timedOut
  | .gpioSixCancel | .hostCancel => .cancelled

structure PinLockRecord where
  version : Nat := 0
  failures : Nat := 0
  lockedUntil : Nat := 0
  lastSeen : Nat := 0
deriving DecidableEq

/-- Logic levels of the seven buttons; they are active low. -/
structure ButtonLevels where
  gpio5 : Bool := true
  gpio6 : Bool := true
  gpio7 : Bool := true
  gpio10 : Bool := true
  gpio17 : Bool := true
  gpio18 : Bool := true
  gpio21 : Bool := true
deriving DecidableEq

/-- The seven-byte buffer `pin_entry` with its `pin_length`. -/
structure PinEntry where
  bytes : Octets := List.replicate 7 0
  length : Nat := 0
deriving DecidableEq

/-- The keypad half of the state: the entry in progress and the Back key's long press.
`previousButtons` holds the pressed keys of the last pass, `none` for the source's `-1`. -/
structure PinPad where
  mode : PinMode := .idle
  entry : PinEntry := {}
  first : Octets := List.replicate 7 0
  selectedKey : Nat := 0
  notice : Option PinNotice := none
  backStarted : UInt32 := 0
  backDown : Bool := false
  backCancelled : Bool := false
  previousButtons : Option ButtonLevels := none
  setupAtBoot : Bool := false
  resetChallenge : Octets := List.replicate 4 0
deriving DecidableEq

structure PinLock where
  record : PinLockRecord := {}
  storageOk : Bool := true
  gate : PinGate := .ready
  checkedAt : UInt32 := 0
  backPrevious : Bool := false
deriving DecidableEq

structure Screen where
  command : CommandLabel := .ready
  removalLatchedUntil : UInt32 := 0
  shownCommand : CommandLabel := .ready
  status : UiStatus := .ready
  waiting : Bool := false
  resultVisible : Bool := false
  resultUntil : UInt32 := 0
  settingsOpen : Bool := false
  settingsDetailOpen : Bool := false
  settingsChangeConfirm : Bool := false
  settingsResetConfirm : Bool := false
  resetYesArmed : Bool := false
  resetSuccessVisible : Bool := false
  resetSuccessUntil : UInt32 := 0
  settingsChangeSuccess : Bool := false
  settingsChangeSuccessUntil : UInt32 := 0
  settingsSelection : Nat := 0
  deviceInfoPage : Nat := 0
  deviceInfoId : Nat := 0
  historyOpen : Bool := false
  previousButtons : Option ButtonLevels := none
  lastPoll : UInt32 := 0
  suppressSettingsBackRelease : Bool := false
deriving DecidableEq

structure ButtonWait where
  asyncButtonWait : Bool := false
  asyncButtonPressed : Bool := false
  asyncButtonStarted : UInt32 := 0
  asyncButtonTimeout : UInt32 := 0
  approveArmed : Bool := false
  approveRaw : Bool := false
  approveStable : Bool := false
  approveChanged : UInt32 := 0
  cancelRaw : Bool := false
  cancelChanged : UInt32 := 0
  physicalCancel : Bool := false
  cancelButton : Bool := false
deriving DecidableEq

/-- One image of the keys of the NVS namespace `device-pin`; `H` is the type of the 60-byte
bcrypt strings. -/
structure NvsImage (H : Type) where
  bcrypt : Option H := none
  pinLock : Option PinLockRecord := none
  wipePending : Option Nat := none
  resetDone : Option Nat := none
  deviceId : Option Nat := none
deriving DecidableEq

/-- NVS as the handle sees it (`ram`) and what is certain to survive a power loss (`flash`). -/
structure Nvs (H : Type) where
  ram : NvsImage H := {}
  flash : NvsImage H := {}
deriving DecidableEq

/-- The answer of one NVS write or commit. A reported failure may still have taken effect. -/
inductive NvsReply
  | ok
  | fail (written : Bool)
deriving DecidableEq

def Nvs.put {H : Type} (nvs : Nvs H) (reply : NvsReply) (image : NvsImage H → NvsImage H) : Nvs H :=
  match reply with
  | .fail false => nvs
  | _ => { nvs with ram := image nvs.ram }

def Nvs.commit {H : Type} (nvs : Nvs H) (reply : NvsReply) : Nvs H :=
  match reply with
  | .fail false => nvs
  | _ => { nvs with flash := nvs.ram }

/-- A set followed, when it was reported as done, by a commit: the pattern of every writer in
`wallet_ui.c`. The flag is the caller's success. -/
def Nvs.store {H : Type} (nvs : Nvs H) (set commit : NvsReply)
    (image : NvsImage H → NvsImage H) : Bool × Nvs H :=
  let nvs := nvs.put set image
  if set = .ok then (commit = .ok, nvs.commit commit) else (false, nvs)

/-- Which uncommitted keys a power loss happens to keep. -/
structure NvsKept where
  bcrypt : Bool := false
  pinLock : Bool := false
  wipePending : Bool := false
  resetDone : Bool := false
  deviceId : Bool := false
deriving DecidableEq

/-- The contents found after a power loss: each key is either its committed value or its last
written one. -/
def Nvs.reopen {H : Type} (nvs : Nvs H) (kept : NvsKept) : Nvs H :=
  let image : NvsImage H :=
    { bcrypt := if kept.bcrypt then nvs.ram.bcrypt else nvs.flash.bcrypt
      pinLock := if kept.pinLock then nvs.ram.pinLock else nvs.flash.pinLock
      wipePending := if kept.wipePending then nvs.ram.wipePending else nvs.flash.wipePending
      resetDone := if kept.resetDone then nvs.ram.resetDone else nvs.flash.resetDone
      deviceId := if kept.deviceId then nvs.ram.deviceId else nvs.flash.deviceId }
  { ram := image, flash := image }

/-- The two bcrypt entry points. A setting is a fresh salt or a stored hash. -/
structure Bcrypt (Salt H : Type) where
  gensalt : Octets → Option Salt
  rn : Octets → Salt ⊕ H → Option H

/-- How a `pin_submit` call in a verifying mode ended. `powerLost` is a call cut off by a power
loss after its last NVS write, before anything could be seen. -/
inductive SubmitOutcome
  | gateClosed | hashError | notRecorded | wrongPin
  | authorized | currentAccepted | resetScheduled | resetNotScheduled
  | powerLost
deriving DecidableEq, Repr

def SubmitOutcome.observable : SubmitOutcome → Bool
  | .wrongPin | .authorized | .currentAccepted | .resetScheduled => true
  | _ => false

/-- The `last_seen` that is certain to survive a power loss. -/
def Nvs.durableSeen {H : Type} (nvs : Nvs H) : Nat := (nvs.flash.pinLock.getD {}).lastSeen

/-- What one `pin_submit` call in a verifying mode did: the `pin_lock_check` result with the RTC
time it read, the comparison, and whether the new lock record was persisted. `durableSeen` is the
persisted `last_seen` at the call. -/
structure Submission (H : Type) where
  mode : PinMode
  entry : PinEntry
  gate : PinGate
  time : Nat
  durableSeen : Nat
  stored : Option H
  candidate : Option H
  correct : Bool
  persisted : Bool
  outcome : SubmitOutcome
deriving DecidableEq

/-- `button_event_t`, less `BUTTON_EV_NONE`. -/
inductive ButtonEvent
  | pressed | cancelled | timeout
deriving DecidableEq, Repr

/-- The steps of a run that the specifications speak about, newest first in `World.trace`. -/
inductive UiEvent (H : Type)
  | boot (hashNotFound : Bool)
  | wiped
  | prompt (hashPresent : Bool)
  | waitStart
  | createEntry (entry : PinEntry)
  | stored (mode : PinMode) (entry : PinEntry) (hash : H)
  | submission (r : Submission H)
  | button (ev : ButtonEvent)
deriving DecidableEq

def UiEvent.isBoot {H : Type} : UiEvent H → Bool
  | .boot _ => true
  | _ => false

def UiEvent.isWiped {H : Type} : UiEvent H → Bool
  | .wiped => true
  | _ => false

def UiEvent.isWaitStart {H : Type} : UiEvent H → Bool
  | .waitStart => true
  | _ => false

def sinceBoot {H : Type} (trace : List (UiEvent H)) : List (UiEvent H) :=
  trace.takeWhile fun ev => !ev.isBoot

def sinceWipe {H : Type} (trace : List (UiEvent H)) : List (UiEvent H) :=
  trace.takeWhile fun ev => !ev.isWiped

/-- The device: RAM of both files, NVS, and the trace of the run. While `powered` is false only a
boot can happen. -/
structure World (H : Type) where
  powered : Bool := false
  pad : PinPad := {}
  lock : PinLock := {}
  screen : Screen := {}
  wait : ButtonWait := {}
  pinHash : Option H := none
  pinStoreOpen : Bool := false
  rtcPresent : Bool := false
  localAuthResult : Int := 0
  nvs : Nvs H := {}
  trace : List (UiEvent H) := []
deriving DecidableEq

end KeyWallet
