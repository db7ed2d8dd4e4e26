import KeyWallet.ButtonPoll
import KeyWallet.StepSystem

/-! What the PIN logic is, away from menus and buttons: a small state and the steps a pass of
`wallet_ui_task` can make in it. `walletUiTask_refines` ties the two together, so that the
results about runs need one case for each kind of step. -/
namespace KeyWallet

open Relation

variable {Salt H : Type} [DecidableEq H]

/-- The part of the device the PIN logic is about. -/
structure Core (H : Type) where
  powered : Bool
  mode : PinMode
  entry : PinEntry
  first : Octets
  setupAtBoot : Bool
  settingsOpen : Bool
  waiting : Bool
  auth : Int
  asyncWait : Bool
  armed : Bool
  hash : Option H
  storeOpen : Bool
  storageOk : Bool
  record : PinLockRecord
  nvs : Nvs H
  trace : List (UiEvent H)

@[simps] def World.core (w : World H) : Core H where
  powered := w.powered
  mode := w.pad.mode
  entry := w.pad.entry
  first := w.pad.first
  setupAtBoot := w.pad.setupAtBoot
  settingsOpen := w.screen.settingsOpen
  waiting := w.screen.waiting
  auth := w.localAuthResult
  asyncWait := w.wait.asyncButtonWait
  armed := w.wait.approveArmed
  hash := w.pinHash
  storeOpen := w.pinStoreOpen
  storageOk := w.lock.storageOk
  record := w.lock.record
  nvs := w.nvs
  trace := w.trace

/-- An ASCII digit. -/
def isDigit (b : UInt8) : Prop := 48 ≤ b.toNat ∧ b.toNat ≤ 57

instance : DecidablePred isDigit := fun b =>
  inferInstanceAs (Decidable (48 ≤ b.toNat ∧ b.toNat ≤ 57))

/-- Seven bytes, of which the first `length` are digits and the others zero. -/
structure EntryOk (e : PinEntry) : Prop where
  size : e.bytes.length = 7
  le_six : e.length ≤ 6
  digits : ∀ i, i < e.length → isDigit (e.bytes.getD i 0)
  zeros : ∀ i, e.length ≤ i → e.bytes.getD i 0 = 0

/-- The zeroized `pin_first`. -/
def zeroFirst : Octets := List.replicate 7 0

/-- The facts about a submission that passed the lock gate. -/
structure Accepted (B : Bcrypt Salt H) (c : Core H) (r : Submission H) : Prop where
  verifying : c.mode.requiresVerification = true
  mode : r.mode = c.mode
  entry : r.entry = c.entry
  six : c.entry.length = 6
  gate : r.gate = .ready
  durableSeen : r.durableSeen = c.nvs.durableSeen
  stored : r.stored = c.hash
  candidate : r.candidate = pinCalculate B c.entry c.hash
  correct : r.correct = decide (r.candidate.isSome ∧ r.candidate = c.hash)
  storageOk : c.storageOk = true
  storeOpen : c.storeOpen = true
  lastSeen : c.record.lastSeen ≤ r.time
  lockedUntil : c.record.lockedUntil ≤ r.time

/-- The outcome the code reached, or the power loss that hid it. -/
def Submission.ended (r : Submission H) (outcome : SubmitOutcome) : Prop :=
  r.outcome = outcome ∨ r.outcome = .powerLost

/-- The NVS images a write of the lock record can leave, with the caller's answer. -/
def LockWrite (c : Core H) (record : PinLockRecord) (done : Bool) (nvs : Nvs H) : Prop :=
  ∃ set commit, c.nvs.store set commit (fun i => { i with pinLock := some record }) = (done, nvs)

/-- The same for a write of the hash. -/
def HashWrite (c : Core H) (h : H) (done : Bool) (nvs : Nvs H) : Prop :=
  ∃ set commit, c.nvs.store set commit (fun i => { i with bcrypt := some h }) = (done, nvs)

/-- The bcrypt string is one of the entry, under some salt. -/
def HashOf (B : Bcrypt Salt H) (e : PinEntry) (h : H) : Prop :=
  ∃ salt, B.rn (cString e.bytes) (.inl salt) = some h

/-- The same for `wipe-pending`. -/
def WipeWrite (c : Core H) (done : Bool) (nvs : Nvs H) : Prop :=
  ∃ set commit, c.nvs.store set commit (fun i => { i with wipePending := some 1 }) = (done, nvs)

/-- A failed `pin_store_new`: nothing was tried, or the write was not confirmed. -/
def StoreFailed (c : Core H) (nvs : Nvs H) : Prop :=
  nvs = c.nvs ∨ (c.storeOpen = true ∧ ∃ h, HashWrite c h false nvs)

/-- The steps of the PIN logic within one pass. -/
inductive PinStep (B : Bcrypt Salt H) : Core H → Core H → Prop
  | edit (c e) (hm : c.mode ≠ .idle) (he : EntryOk c.entry → EntryOk e) :
      PinStep B c { c with entry := e }
  | cancel (c m f) (hm : c.mode ≠ .idle) (hs : c.settingsOpen = false)
      (hf : m = c.mode ∧ f = zeroFirst ∨ m = .idle ∧ f = c.first) :
      PinStep B c { c with mode := m, entry := {}, first := f, auth := -1 }
  | leave (c f) (hm : c.mode ≠ .idle) (hs : c.settingsOpen = true) :
      PinStep B c { c with mode := .idle, entry := {}, first := f }
  | menus (c b) (hm : c.mode = .idle) (hw : c.waiting = false) :
      PinStep B c { c with settingsOpen := b }
  | openChange (c) (hm : c.mode = .idle) (hw : c.waiting = false) (hs : c.settingsOpen = true) :
      PinStep B c { c with mode := .changeCurrent, entry := {}, first := zeroFirst }
  | openReset (c) (hm : c.mode = .idle) (hw : c.waiting = false) (hs : c.settingsOpen = true) :
      PinStep B c { c with mode := .resetChallenge, entry := {} }
  | challenge (c) (hm : c.mode = .resetChallenge) :
      PinStep B c { c with mode := .resetVerify, entry := {} }
  | createEntry (c) (hm : c.mode = .create) (h6 : c.entry.length = 6) :
      PinStep B c
        { c with
          mode := .retype, entry := {}, first := c.entry.bytes
          trace := .createEntry c.entry :: c.trace }
  | mismatch (c) (hm : c.mode = .retype) :
      PinStep B c { c with mode := .create, entry := {}, first := zeroFirst }
  | retypeFailed (c nvs) (hm : c.mode = .retype) (hn : StoreFailed c nvs) :
      PinStep B c { c with nvs := nvs, entry := {}, first := zeroFirst }
  | setupStored (c h nvs) (hm : c.mode = .retype) (hb : c.setupAtBoot = true)
      (ho : c.storeOpen = true) (hh : HashOf B c.entry h) (hn : HashWrite c h true nvs) :
      PinStep B c
        { c with
          mode := .idle, entry := {}, first := zeroFirst, setupAtBoot := false, waiting := false
          hash := some h, nvs := nvs, trace := .stored .retype c.entry h :: c.trace }
  | retypeStored (c h nvs) (hm : c.mode = .retype) (hb : c.setupAtBoot = false)
      (ho : c.storeOpen = true) (h6 : c.entry.length = 6)
      (hf : c.first.take 6 = c.entry.bytes.take 6) (hh : HashOf B c.entry h)
      (hn : HashWrite c h true nvs) :
      PinStep B c
        { c with
          mode := .idle, entry := {}, first := zeroFirst, auth := 1
          hash := some h, nvs := nvs, trace := .stored .retype c.entry h :: c.trace }
  | changeEntry (c) (hm : c.mode = .changeNew) :
      PinStep B c { c with mode := .changeRetype, entry := {}, first := c.entry.bytes }
  | changeMismatch (c) (hm : c.mode = .changeRetype) :
      PinStep B c { c with mode := .changeNew, entry := {}, first := zeroFirst }
  | changeFailed (c nvs) (hm : c.mode = .changeRetype) (hn : StoreFailed c nvs) :
      PinStep B c { c with mode := .changeNew, nvs := nvs, entry := {}, first := zeroFirst }
  | changeStored (c h nvs) (hm : c.mode = .changeRetype) (ho : c.storeOpen = true)
      (hh : HashOf B c.entry h) (hn : HashWrite c h true nvs) :
      PinStep B c
        { c with
          mode := .idle, entry := {}, first := zeroFirst, hash := some h, nvs := nvs
          trace := .stored .changeRetype c.entry h :: c.trace }
  | gateClosed (c r) (hg : r.gate ≠ .ready) (hp : r.persisted = false)
      (ho : r.ended .gateClosed) :
      PinStep B c { c with entry := {}, trace := .submission r :: c.trace }
  | hashError (c r) (ha : Accepted B c r) (hc : r.candidate = none) (hp : r.persisted = false)
      (ho : r.ended .hashError) :
      PinStep B c
        { c with entry := {}, storageOk := false, trace := .submission r :: c.trace }
  | notRecorded (c r nvs) (ha : Accepted B c r) (hp : r.persisted = false)
      (ho : r.ended .notRecorded)
      (hn : LockWrite c (nextLockRecord c.record r.correct r.time) false nvs) :
      PinStep B c
        { c with entry := {}, storageOk := false, nvs := nvs, trace := .submission r :: c.trace }
  | wrong (c r nvs) (ha : Accepted B c r) (hc : r.correct = false) (hp : r.persisted = true)
      (ho : r.ended .wrongPin)
      (hn : LockWrite c (nextLockRecord c.record false r.time) true nvs) :
      PinStep B c
        { c with
          entry := {}, record := nextLockRecord c.record false r.time, nvs := nvs
          trace := .submission r :: c.trace }
  | authorized (c r nvs) (hm : c.mode = .verify) (ha : Accepted B c r) (hc : r.correct = true)
      (hp : r.persisted = true) (ho : r.ended .authorized)
      (hn : LockWrite c (nextLockRecord c.record true r.time) true nvs) :
      PinStep B c
        { c with
          mode := .idle, auth := 1, entry := {}
          record := nextLockRecord c.record true r.time, nvs := nvs
          trace := .submission r :: c.trace }
  | currentAccepted (c r nvs) (hm : c.mode = .changeCurrent) (ha : Accepted B c r)
      (hc : r.correct = true) (hp : r.persisted = true) (ho : r.ended .currentAccepted)
      (hn : LockWrite c (nextLockRecord c.record true r.time) true nvs) :
      PinStep B c
        { c with
          mode := .changeNew, entry := {}
          record := nextLockRecord c.record true r.time, nvs := nvs
          trace := .submission r :: c.trace }
  | resetNotScheduled (c r nvs nvs') (hm : c.mode = .resetVerify) (ha : Accepted B c r)
      (hc : r.correct = true) (hp : r.persisted = true) (ho : r.ended .resetNotScheduled)
      (hn : LockWrite c (nextLockRecord c.record true r.time) true nvs)
      (hw : WipeWrite { c with nvs := nvs } false nvs') :
      PinStep B c
        { c with
          entry := {}, record := nextLockRecord c.record true r.time, nvs := nvs'
          trace := .submission r :: c.trace }
  | resetScheduled (c r nvs nvs') (hm : c.mode = .resetVerify) (ha : Accepted B c r)
      (hc : r.correct = true) (hp : r.persisted = true) (ho : r.ended .resetScheduled)
      (hn : LockWrite c (nextLockRecord c.record true r.time) true nvs)
      (hw : WipeWrite { c with nvs := nvs } true nvs') :
      PinStep B c
        { c with
          powered := false, mode := .idle, settingsOpen := false, entry := {}
          record := nextLockRecord c.record true r.time, nvs := nvs'
          trace := .submission r :: c.trace }

/-! ### The other entry points on the core -/

def Core.prompt (c : Core H) : Core H :=
  { c with
    settingsOpen := false, waiting := true, auth := 0, entry := {}, first := zeroFirst
    mode := if c.hash.isSome then .verify else .create
    trace := .prompt c.hash.isSome :: c.trace }

def Core.waitStart (c : Core H) : Core H :=
  { Core.prompt { c with trace := .waitStart :: c.trace } with asyncWait := true, armed := false }

def Core.result (c : Core H) : Core H :=
  { c with waiting := false, settingsOpen := false, mode := .idle }

/-- The end of a wait with the event `ev`. -/
def Core.finish (c : Core H) (ev : ButtonEvent) (armed : Bool) : Core H :=
  { c.result with
    auth := 0, asyncWait := false, armed := armed, trace := .button ev :: c.trace }

/-- RAM after a reset of the chip. -/
def Core.fresh (nvs : Nvs H) (trace : List (UiEvent H)) : Core H where
  powered := true
  mode := .idle
  entry := {}
  first := zeroFirst
  setupAtBoot := false
  settingsOpen := false
  waiting := false
  auth := 0
  asyncWait := false
  armed := false
  hash := none
  storeOpen := false
  storageOk := true
  record := {}
  nvs := nvs
  trace := trace

/-- A boot that opened NVS: what it read, and the setup it starts without a hash. -/
def Core.opened (c : Core H) (hash : Option H) (lock : PinLock) : Core H :=
  { c with
    storeOpen := true, hash := hash, storageOk := lock.storageOk, record := lock.record
    mode := if hash.isNone then .create else .idle
    setupAtBoot := hash.isNone }

/-- The ways a boot can end. -/
inductive BootStep (c : Core H) (env : BootEnv H) : Core H → Prop
  | wipeCut (hw : env.wipes = true) :
      BootStep c env
        { Core.fresh (c.nvs.reopen env.kept) (.boot env.hashNotFound :: c.trace) with
          powered := false }
  | wiped (nvs : Nvs H) (hw : env.wipes = true)
      (hr : nvs.ram.bcrypt = none ∧ nvs.ram.pinLock = none)
      (hf : nvs.flash.bcrypt = none ∧ nvs.flash.pinLock = none) :
      BootStep c env
        { Core.fresh nvs (.wiped :: .boot env.hashNotFound :: c.trace) with powered := false }
  | dark (hw : env.wipes = false) (ho : env.oled = false) :
      BootStep c env (Core.fresh (c.nvs.reopen env.kept) (.boot env.hashNotFound :: c.trace))
  | closed (hw : env.wipes = false) (ho : env.oled = true)
      (hn : env.nvsInit = false ∨ env.nvsOpen = false) :
      BootStep c env
        { Core.fresh (c.nvs.reopen env.kept) (.boot env.hashNotFound :: c.trace) with
          mode := .create, setupAtBoot := true }
  | opened (nvs : Nvs H) (hw : env.wipes = false) (ho : env.oled = true)
      (hi : env.nvsInit = true) (hn : env.nvsOpen = true)
      (hr : nvs.ram.bcrypt = (c.nvs.reopen env.kept).ram.bcrypt ∧
        nvs.ram.pinLock = (c.nvs.reopen env.kept).ram.pinLock)
      (hf : nvs.flash.bcrypt = (c.nvs.reopen env.kept).flash.bcrypt ∧
        nvs.flash.pinLock = (c.nvs.reopen env.kept).flash.pinLock) :
      BootStep c env
        ((Core.fresh nvs (.boot env.hashNotFound :: c.trace)).opened env.hashRead.hash
          (initLock env.lockRead))

end KeyWallet
