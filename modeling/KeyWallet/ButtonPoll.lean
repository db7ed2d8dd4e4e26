import KeyWallet.WalletUi

/-! `button_wait_start`, `button_wait_poll`, the boot sequence, and the device as a step function
over everything that can happen to it. -/
namespace KeyWallet

variable {Salt H : Type} [DecidableEq H]

/-- What `button_wait_start` reads: `board_millis` and the levels of GPIO5 and GPIO6. -/
structure WaitEnv where
  millis : UInt32 := 0
  gpio5 : Bool := true
  gpio6 : Bool := true

/-- `button_wait_start`. The ESP32 build always waits, for 30 s. -/
def buttonWaitStart (env : WaitEnv) (w : World H) : World H :=
  let prompted := walletUiPrompt (w.emit .waitStart)
  { prompted with
    wait :=
      { prompted.wait with
        asyncButtonWait := true
        asyncButtonStarted := env.millis
        asyncButtonPressed := false
        physicalCancel := false
        approveArmed := false
        approveRaw := env.gpio5
        approveStable := env.gpio5
        cancelRaw := env.gpio6
        approveChanged := env.millis
        cancelChanged := env.millis
        asyncButtonTimeout := 30000 } }

/-- What `button_wait_poll` reads, with the tick count of the `wallet_ui_result` it may call. -/
structure PollEnv where
  millis : UInt32 := 0
  gpio5 : Bool := true
  gpio6 : Bool := true
  tick : UInt32 := 0

/-- The authorization taken from the UI: a refusal cancels, an approval stands for a press. -/
def pollAuthorize (authorization : Int) (b : ButtonWait) : ButtonWait :=
  if authorization < 0 then { b with cancelButton := true } else { b with asyncButtonPressed := true }

def pollApproveRaw (env : PollEnv) (pressed : Bool) (b : ButtonWait) : ButtonWait :=
  if pressed != b.approveRaw then { b with approveRaw := pressed, approveChanged := env.millis } else b

/-- After 30 ms the approve level is stable; seen low, it arms the button. -/
def pollApproveStable (env : PollEnv) (b : ButtonWait) : ButtonWait :=
  if (env.millis - b.approveChanged).toNat ≥ 30 then
    { b with
      approveStable := b.approveRaw
      approveArmed := if !b.approveRaw then true else b.approveArmed }
  else b

def pollCancelRaw (env : PollEnv) (b : ButtonWait) : ButtonWait :=
  if env.gpio6 != b.cancelRaw then { b with cancelRaw := env.gpio6, cancelChanged := env.millis } else b

def pollCancel (env : PollEnv) (b : ButtonWait) : ButtonWait :=
  if b.cancelRaw && decide ((env.millis - b.cancelChanged).toNat ≥ 30) then
    { b with
      physicalCancel := if !b.cancelButton then true else b.physicalCancel
      cancelButton := true }
  else b

/-- `button_wait_poll` up to its decision: the wait after it, and `pressed`. -/
def pollDebounce (env : PollEnv) (authorization : Int) (b : ButtonWait) : ButtonWait × Bool :=
  let raw := if authorization < 0 then env.gpio5 else false
  let b := pollCancel env (pollCancelRaw env (pollApproveStable env
    (pollApproveRaw env raw (pollAuthorize authorization b))))
  let pressed := b.approveArmed && b.approveStable
  ({ b with asyncButtonPressed := b.asyncButtonPressed || pressed }, pressed)

/-- The event `button_wait_poll` decides on, before a held cancel button overrides it. -/
def pollResult (env : PollEnv) (b : ButtonWait) (pressed : Bool) : Option ButtonEvent :=
  if b.cancelButton then some .cancelled
  else if (env.millis - b.asyncButtonStarted).toNat ≥ b.asyncButtonTimeout.toNat then some .timeout
  else if b.asyncButtonPressed && !pressed then some .pressed
  else none

def resultMessage (ev : ButtonEvent) (physicalCancel : Bool) : ResultMessage :=
  match ev with
  | .pressed => .approved
  | .timeout => .timedOut
  | .cancelled => if physicalCancel then .gpioSixCancel else .hostCancel

/-- The end of a wait: a pending cancel wins over an approval. -/
def finishWait (env : PollEnv) (b : ButtonWait) (ev : ButtonEvent) (w : World H) : World H :=
  let held := ev = .pressed ∧ b.cancelRaw
  let b := { b with
    asyncButtonWait := false
    physicalCancel := if held then true else b.physicalCancel }
  let ev := if held then .cancelled else ev
  let shown := walletUiResult env.tick (resultMessage ev b.physicalCancel) { w with wait := b }
  shown.emit (.button ev)

/-- `button_wait_poll`, with `wallet_ui_take_local_authorization`. -/
def buttonWaitPoll (env : PollEnv) (w : World H) : World H :=
  if !w.wait.asyncButtonWait then w else
  let authorization := w.localAuthResult
  if authorization = 0 then w else
  let debounced := pollDebounce env authorization w.wait
  let w := { w with localAuthResult := 0, wait := debounced.1 }
  match pollResult env debounced.1 debounced.2 with
  | none => w
  | some ev => finishWait env debounced.1 ev w

/-- The answer of an NVS read; `otherSize` is an answer of the wrong length. -/
inductive NvsRead (α : Type)
  | ok (value : α)
  | otherSize
  | notFound
  | error
deriving DecidableEq

/-- How far a wipe at boot gets: the data partition, then NVS as a whole, then the flag that
makes the next boot show the success banner. -/
structure WipeEnv where
  partErased : Bool := true
  nvsErased : Bool := true
  reopened : Bool := true
  doneSet : NvsReply := .ok
  doneCommit : NvsReply := .ok

structure BootEnv (H : Type) where
  kept : NvsKept := {}
  resetInit : Bool := true
  resetOpen : Bool := true
  wipeRead : NvsRead Nat := .notFound
  wipe : WipeEnv := {}
  oled : Bool := true
  rtc : Bool := true
  nvsInit : Bool := true
  nvsOpen : Bool := true
  resetDoneRead : NvsRead Nat := .notFound
  tick : UInt32 := 0
  doneErase : NvsReply := .ok
  doneCommit : NvsReply := .ok
  hashRead : NvsRead H := .notFound
  lockRead : NvsRead PinLockRecord := .notFound
  deviceIdRead : NvsRead Nat := .notFound
  random32 : Nat := 1
  idSet : NvsReply := .ok
  idCommit : NvsReply := .ok

/-- `wallet_ui_reset_on_boot` past its check: erase everything and restart. A failed
`ESP_ERROR_CHECK` restarts as well. -/
def wipeDevice (env : WipeEnv) (w : World H) : World H :=
  if !env.partErased || !env.nvsErased then w else
  let erased := World.emit { w with nvs := {} } .wiped
  if !env.reopened then erased else
  { erased with
    nvs := (erased.nvs.store env.doneSet env.doneCommit
      fun i => { i with resetDone := some 1 }).2 }

def BootEnv.wipes (env : BootEnv H) : Bool :=
  env.resetInit && env.resetOpen && env.wipeRead == .ok 1

def NvsRead.hash : NvsRead H → Option H
  | .ok h => some h
  | _ => none

/-- The lock record after its read: only a missing record or a good one leaves the storage
usable. -/
def initLock : NvsRead PinLockRecord → PinLock
  | .notFound => { record := { version := 1 } }
  | .ok record => { record := record, storageOk := record.version = 1 }
  | _ => { storageOk := false }

def initResetDone (env : BootEnv H) (w : World H) : World H :=
  if env.resetDoneRead = .ok 1 then
    { w with
      screen.resetSuccessVisible := true
      screen.resetSuccessUntil := env.tick + 300
      nvs := (w.nvs.store env.doneErase env.doneCommit fun i => { i with resetDone := none }).2 }
  else w

/-- A new device id; one that could not be stored is shown as unavailable. -/
def drawDeviceId (env : BootEnv H) (w : World H) : World H :=
  let id := if env.random32 = 0 then 1 else env.random32
  let stored := w.nvs.store env.idSet env.idCommit fun i => { i with deviceId := some id }
  { w with nvs := stored.2, screen.deviceInfoId := if stored.1 then id else 0 }

def initDeviceId (env : BootEnv H) (w : World H) : World H :=
  match env.deviceIdRead with
  | .ok id => if id = 0 then drawDeviceId env w else { w with screen.deviceInfoId := id }
  | _ => drawDeviceId env w

def initNvs (env : BootEnv H) (w : World H) : World H :=
  if !env.nvsInit || !env.nvsOpen then w else
  let opened := initResetDone env { w with pinStoreOpen := true }
  initDeviceId env { opened with pinHash := env.hashRead.hash, lock := initLock env.lockRead }

/-- The end of `wallet_ui_init`: without a hash the setup starts. -/
def initSetup (w : World H) : World H :=
  if w.pinHash.isNone then
    { w with
      pad.mode := .create
      pad.setupAtBoot := true
      pad.entry.length := 0
      pad.selectedKey := 0
      pad.previousButtons := none }
  else w

/-- `wallet_ui_init`. A display that does not answer ends it before NVS is opened. -/
def walletUiInit (env : BootEnv H) (w : World H) : World H :=
  if !env.oled then w else initSetup (initNvs env { w with rtcPresent := env.rtc })

def BootEnv.hashNotFound (env : BootEnv H) : Bool :=
  !env.wipes && env.oled && env.nvsInit && env.nvsOpen && env.hashRead == .notFound

/-- A power-on: RAM starts from its initializers. -/
def boot (env : BootEnv H) (w : World H) : World H :=
  let fresh : World H :=
    { nvs := w.nvs.reopen env.kept, trace := .boot env.hashNotFound :: w.trace }
  if env.wipes then wipeDevice env.wipe fresh
  else walletUiInit env { fresh with powered := true }

/-- One thing that happens to the device. `prompt` and `result` are direct calls of
`wallet_ui_prompt` and `wallet_ui_result`; the firmware reaches them through `button.c`. -/
inductive UiInput (H : Type)
  | task (env : TaskEnv)
  | command (tick : UInt32) (name : CommandLabel)
  | waitStart (env : WaitEnv)
  | poll (env : PollEnv)
  | prompt
  | result (tick : UInt32) (message : ResultMessage)
  | hostCancel (value : Bool)
  | powerOff
  | boot (env : BootEnv H)

/-- The device takes one step. A pass of the task that the power loss cuts leaves only NVS. -/
def uiStep (B : Bcrypt Salt H) (w : World H) : UiInput H → World H
  | .boot env => boot env w
  | .powerOff => { w with powered := false }
  | .task env =>
    if !w.powered then w
    else if env.cut then { walletUiTask B env w with powered := false }
    else walletUiTask B env w
  | .command tick name => if w.powered then walletUiCommand tick name w else w
  | .waitStart env => if w.powered then buttonWaitStart env w else w
  | .poll env => if w.powered then buttonWaitPoll env w else w
  | .prompt => if w.powered then walletUiPrompt w else w
  | .result tick message => if w.powered then walletUiResult tick message w else w
  | .hostCancel value => if w.powered then { w with wait.cancelButton := value } else w

end KeyWallet
