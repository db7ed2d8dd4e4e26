import KeyWallet.PinSubmit

/-! `wallet_ui_task` and the other entry points of `wallet_ui.c`. Ticks are at 100 Hz, so
`pdMS_TO_TICKS(25)` is 2 and `pdMS_TO_TICKS(1000)` is 100. -/
namespace KeyWallet

variable {Salt H : Type} [DecidableEq H]

/-- `(int32_t)(now - until) >= 0`. -/
def tickReached (now target : UInt32) : Bool := (now - target).toNat < 2147483648

/-- `pin_keys`, blanks as `none`. -/
def pinKeys : List (Option UInt8) :=
  [some 49, some 50, some 51, some 52, some 53, some 54, some 55, some 56, some 57, none, some 48, none]

def pinKey (i : Nat) : Option UInt8 := (pinKeys[i]?).join

/-- `newly & mask`: pressed now and not in the pass before; `-1` stands for all pressed. -/
def newlyPressed (previous : Option ButtonLevels) (now : ButtonLevels)
    (gpio : ButtonLevels → Bool) : Bool :=
  !gpio now && (match previous with | none => false | some p => gpio p)

/-- The cursor of the on-screen keypad after the arrow keys. -/
def moveSelection (selected : Nat) (up right down left : Bool) : Nat :=
  let row := selected / 3
  let col := selected % 3
  let row := if up then (row + 3) % 4 else row
  let row := if down then (row + 1) % 4 else row
  let col := if right then (col + 1) % 3 else col
  let col := if left then (col + 2) % 3 else col
  let candidate := row * 3 + col
  if pinKey candidate = none then 10 else candidate

def PinEntry.push (e : PinEntry) (key : UInt8) : PinEntry :=
  { bytes := (e.bytes.set e.length key).set (e.length + 1) 0, length := e.length + 1 }

def PinEntry.pop (e : PinEntry) : PinEntry :=
  if e.length = 0 then e else { bytes := e.bytes.set (e.length - 1) 0, length := e.length - 1 }

def PinMode.requiredDigits : PinMode → Nat
  | .resetChallenge => 4
  | _ => 6

def padSelect (env : TaskEnv) (w : World H) : World H :=
  let newly := newlyPressed w.pad.previousButtons env.levels
  let key := moveSelection w.pad.selectedKey (newly (·.gpio21)) (newly (·.gpio18))
    (newly (·.gpio17)) (newly (·.gpio10))
  let moved := { w with pad.selectedKey := key }
  match pinKey key with
  | some digit =>
    if newly (·.gpio7) && w.pad.entry.length < w.pad.mode.requiredDigits then
      { moved with pad.entry := w.pad.entry.push digit, pad.notice := none }
    else moved
  | none => moved

/-- A new press of Back starts the long-press timer. -/
def padBackDown (env : TaskEnv) (w : World H) : World H :=
  if newlyPressed w.pad.previousButtons env.levels (·.gpio5) then
    { w with pad.backDown := true, pad.backCancelled := false, pad.backStarted := env.now }
  else w

/-- Back held for a second cancels the entry: it leaves the settings flow, or refuses the
pending request. -/
def padLongPress (env : TaskEnv) (w : World H) : World H :=
  if !w.pad.setupAtBoot && w.pad.backDown && !env.levels.gpio5 && !w.pad.backCancelled &&
      decide ((env.now - w.pad.backStarted).toNat ≥ 100) then
    let cancelled := if w.screen.settingsOpen then
        { w with
          pad.mode := .idle
          pad.notice := none
          screen.settingsDetailOpen := false
          screen.settingsChangeConfirm := false
          screen.settingsResetConfirm := false
          screen.suppressSettingsBackRelease := true }
      else { w with localAuthResult := -1 }
    { cancelled.pinClear.zeroizeFirst with pad.backCancelled := true }
  else w

/-- A short press of Back removes one digit when it is released. -/
def padBackUp (env : TaskEnv) (w : World H) : World H :=
  if w.pad.backDown && env.levels.gpio5 then
    { w with
      pad.entry := if !w.pad.backCancelled then w.pad.entry.pop else w.pad.entry
      pad.backDown := false }
  else w

/-- One pass over the keypad, before Submit is looked at. -/
def padEdit (env : TaskEnv) (w : World H) : World H :=
  padBackUp env (padLongPress env (padBackDown env (padSelect env w)))

/-- The keypad pass of `wallet_ui_task` (`pin_mode != PIN_IDLE`). -/
def padTask (B : Bcrypt Salt H) (env : TaskEnv) (w : World H) : World H :=
  let edited := padEdit env w
  let submitted := if newlyPressed w.pad.previousButtons env.levels (·.gpio6) then
      pinSubmit B env edited else edited
  { submitted with pad.previousButtons := some env.levels }

/-- The gate of a verifying mode is computed again every second. -/
def lockRefresh (env : TaskEnv) (w : World H) : World H :=
  if w.lock.checkedAt = 0 ∨ (env.now - w.lock.checkedAt).toNat ≥ 100 then
    let gate := (pinLockCheck env.rtcRefresh w).1
    { w with
      lock.gate := gate
      lock.checkedAt := env.now
      pad.notice := if w.lock.gate ≠ .ready ∧ gate = .ready then none else w.pad.notice }
  else w

/-- The lock screen, while the gate is closed. The flag says whether the pass goes on to the
keypad. -/
def lockScreen (env : TaskEnv) (w : World H) : Bool × World H :=
  if w.lock.gate = .ready then (true, { w with lock.backPrevious := false }) else
  let back := !env.lockBack
  if back && !w.lock.backPrevious then
    let left := { w.pinClear with
      pad.notice := none
      pad.mode := .idle
      screen.previousButtons := none
      lock.backPrevious := back }
    if w.screen.settingsOpen then
      (false,
        { left with
          screen.settingsDetailOpen := false
          screen.settingsChangeConfirm := false
          screen.settingsResetConfirm := false
          screen.suppressSettingsBackRelease := true })
    else (false, { left with localAuthResult := -1 })
  else (false, { w with lock.backPrevious := back })

/-- The part of `wallet_ui_task` for the verifying modes. -/
def lockTask (env : TaskEnv) (w : World H) : Bool × World H :=
  lockScreen env (lockRefresh env w)

def Screen.closeMenus (s : Screen) : Screen :=
  { s with
    settingsOpen := false
    settingsDetailOpen := false
    settingsChangeConfirm := false
    settingsResetConfirm := false
    settingsChangeSuccess := false
    historyOpen := false }

/-- YES on the change screen: the current PIN is asked first. -/
def openChangePin (w : World H) : World H :=
  { w.pinClear.zeroizeFirst with
    screen.settingsChangeConfirm := false
    pad.mode := .changeCurrent
    lock.checkedAt := 0
    pad.notice := none
    pad.selectedKey := 0
    pad.backDown := false
    pad.backCancelled := false
    pad.previousButtons := none }

def Screen.openItem (s : Screen) : Screen :=
  { s with
    settingsDetailOpen := true
    deviceInfoPage := 0
    settingsChangeConfirm := if s.settingsSelection = 1 then true else s.settingsChangeConfirm
    settingsResetConfirm := if s.settingsSelection = 2 then true else s.settingsResetConfirm
    resetYesArmed := if s.settingsSelection = 2 then false else s.resetYesArmed }

/-- Back in the settings menus acts when it is released. -/
def Screen.settingsBack (s : Screen) : Screen :=
  if s.suppressSettingsBackRelease then { s with suppressSettingsBackRelease := false }
  else if s.settingsDetailOpen then
    { s with
      settingsDetailOpen := false
      settingsChangeConfirm := false
      settingsResetConfirm := false
      settingsChangeSuccess := false }
  else { s with settingsOpen := false }

/-- Button edges on the ready screen and in the settings menus. -/
def menuTask (pins prev : ButtonLevels) (w : World H) : World H :=
  let s := w.screen
  let select := !pins.gpio7 && prev.gpio7
  if s.settingsOpen then
    if pins.gpio5 && !prev.gpio5 then { w with screen := s.settingsBack }
    else if s.settingsChangeConfirm && select then openChangePin w
    else if s.settingsDetailOpen && s.settingsSelection = 0 && select then
      { w with screen.deviceInfoPage := 1 - s.deviceInfoPage }
    else if !s.settingsDetailOpen then
      if !pins.gpio21 && prev.gpio21 then
        { w with screen.settingsSelection := (s.settingsSelection + 2) % 3 }
      else if !pins.gpio17 && prev.gpio17 then
        { w with screen.settingsSelection := (s.settingsSelection + 1) % 3 }
      else if select then { w with screen := s.openItem }
      else w
    else w
  else if pins.gpio5 && !prev.gpio5 && !s.historyOpen then
    { w with
      screen.settingsOpen := true
      screen.settingsSelection := 0
      screen.settingsDetailOpen := false }
  else if pins.gpio6 && !prev.gpio6 then { w with screen.historyOpen := !s.historyOpen }
  else w

/-- What the menus leave of a screen. -/
structure MenuScreen (s s' : Screen) : Prop where
  waiting : s'.waiting = s.waiting
  latch : s'.removalLatchedUntil = s.removalLatchedUntil
  command : s'.command = s.command

/-- A pass of the menus is one on the screen, or opens the flow that changes the PIN. -/
def MenuStep (w w' : World H) : Prop :=
  (∃ s, MenuScreen w.screen s ∧ w' = { w with screen := s }) ∨
    (w.screen.settingsOpen = true ∧ w' = openChangePin w)

omit [DecidableEq H] in
theorem MenuStep.screen {w : World H} {s : Screen} (hs : MenuScreen w.screen s) :
    MenuStep w { w with screen := s } := .inl ⟨s, hs, rfl⟩

theorem settingsBack_screen (s : Screen) : MenuScreen s s.settingsBack := by
  unfold Screen.settingsBack
  split_ifs <;> exact ⟨rfl, rfl, rfl⟩

omit [DecidableEq H] in
theorem menuTask_step (pins prev : ButtonLevels) (w : World H) : MenuStep w (menuTask pins prev w) := by
  have hsame : MenuStep w w := .screen ⟨rfl, rfl, rfl⟩
  unfold menuTask
  -- along the branches of the definition
  refine iteInduction (motive := MenuStep w) (fun hopen => ?_) (fun _ => ?_)
  · refine iteInduction (motive := MenuStep w) (fun _ => .screen (settingsBack_screen _)) (fun _ => ?_)
    refine iteInduction (motive := MenuStep w) (fun _ => .inr ⟨hopen, rfl⟩) (fun _ => ?_)
    refine iteInduction (motive := MenuStep w) (fun _ => .screen ⟨rfl, rfl, rfl⟩) (fun _ => ?_)
    refine iteInduction (motive := MenuStep w) (fun _ => ?_) (fun _ => hsame)
    refine iteInduction (motive := MenuStep w) (fun _ => .screen ⟨rfl, rfl, rfl⟩) (fun _ => ?_)
    refine iteInduction (motive := MenuStep w) (fun _ => .screen ⟨rfl, rfl, rfl⟩) (fun _ => ?_)
    exact iteInduction (motive := MenuStep w) (fun _ => .screen ⟨rfl, rfl, rfl⟩) (fun _ => hsame)
  · refine iteInduction (motive := MenuStep w) (fun _ => .screen ⟨rfl, rfl, rfl⟩) (fun _ => ?_)
    exact iteInduction (motive := MenuStep w) (fun _ => .screen ⟨rfl, rfl, rfl⟩) (fun _ => hsame)

def Screen.resultExpired (s : Screen) (pins : ButtonLevels) : Screen :=
  { s.closeMenus with
    resultVisible := false
    shownCommand := .ready
    status := .ready
    removalLatchedUntil := 0
    command := .ready
    previousButtons := some pins }

/-- A label published since the last pass replaces the menus, background GET INFO excepted. -/
def Screen.takeCommand (s : Screen) : Screen :=
  if !s.waiting && !s.resultVisible && s.command != s.shownCommand && s.command != .getInfo then
    { s.closeMenus with shownCommand := s.command, status := .working, previousButtons := none }
  else s

/-- YES on the reset screen must be seen released once before it counts. -/
def resetConfirmTask (env : TaskEnv) (w : World H) : Bool × World H :=
  let s := w.screen
  if !s.waiting && !s.resultVisible && s.settingsOpen && s.settingsResetConfirm &&
      s.status == .ready then
    if env.resetYes then (true, { w with screen.resetYesArmed := true })
    else if s.resetYesArmed then
      (false, resetChallengeStart env
        { w with
          screen.resetYesArmed := false
          screen.settingsResetConfirm := false
          screen.previousButtons := some env.levels })
    else (true, w)
  else (true, w)

def idleMenus (env : TaskEnv) (w : World H) : World H :=
  let s := w.screen
  let menus : World H := match s.previousButtons with
    | none => w
    | some prev =>
      if !s.waiting && !s.resultVisible && s.status == .ready then menuTask env.levels prev w else w
  { menus with screen.previousButtons := some env.levels }

/-- The pass of `wallet_ui_task` while `pin_mode == PIN_IDLE`. -/
def idleTask (env : TaskEnv) (w : World H) : World H :=
  let s := w.screen
  if s.settingsChangeSuccess && tickReached env.now s.settingsChangeSuccessUntil then
    { w with
      screen.settingsChangeSuccess := false
      screen.settingsDetailOpen := false
      screen.previousButtons := some env.levels }
  else if !s.waiting && s.resultVisible && tickReached env.now s.resultUntil then
    { w with screen := s.resultExpired env.levels }
  else
    let confirmed := resetConfirmTask env { w with screen := s.takeCommand }
    if confirmed.1 then idleMenus env confirmed.2 else confirmed.2

/-- A pass of `wallet_ui_task` that is due and not covered by the reset banner. -/
def passTask (B : Bcrypt Salt H) (env : TaskEnv) (w : World H) : World H :=
  let locked := if w.pad.mode.requiresVerification then lockTask env w else (true, w)
  if !locked.1 then locked.2
  else if locked.2.pad.mode = .idle then idleTask env locked.2
  else padTask B env locked.2

def walletUiTask (B : Bcrypt Salt H) (env : TaskEnv) (w : World H) : World H :=
  if (env.now - w.screen.lastPoll).toNat < 2 then w else
  let polled := { w with screen.lastPoll := env.now }
  if w.screen.resetSuccessVisible then
    if tickReached env.now w.screen.resetSuccessUntil then
      { polled with
        screen.resetSuccessVisible := false
        pad.previousButtons := none
        screen.previousButtons := none }
    else polled
  else passTask B env polled

def walletUiPrompt (w : World H) : World H :=
  World.emit
    { w.pinClear.zeroizeFirst with
      screen.settingsOpen := false
      screen.settingsDetailOpen := false
      screen.settingsChangeConfirm := false
      screen.settingsResetConfirm := false
      screen.settingsChangeSuccess := false
      screen.historyOpen := false
      screen.waiting := true
      screen.resultVisible := false
      screen.shownCommand := w.screen.command
      screen.status := .confirm
      screen.previousButtons := none
      localAuthResult := 0
      pad.selectedKey := 0
      pad.notice := none
      pad.mode := if w.pinHash.isSome then .verify else .create
      pad.backDown := false
      pad.backCancelled := false
      pad.previousButtons := none
      lock.checkedAt := 0
      lock.backPrevious := false }
    (.prompt w.pinHash.isSome)

def walletUiResult (tick : UInt32) (message : ResultMessage) (w : World H) : World H :=
  { w with
    screen.removalLatchedUntil := 0
    screen.waiting := false
    screen.settingsOpen := false
    screen.settingsDetailOpen := false
    screen.settingsChangeConfirm := false
    screen.settingsResetConfirm := false
    screen.settingsChangeSuccess := false
    screen.historyOpen := false
    screen.resultVisible := true
    screen.resultUntil := tick + 500
    screen.status := message.status
    screen.previousButtons := none
    pad.mode := .idle
    pad.backDown := false }

/-- `wallet_ui_command`. An assertion keeps the label of a removal latched in the last 15 s. -/
def walletUiCommand (tick : UInt32) (name : CommandLabel) (w : World H) : World H :=
  match name with
  | .removal => { w with screen.removalLatchedUntil := tick + 1500, screen.command := .removal }
  | .auth =>
    let latched := w.screen.removalLatchedUntil
    -- `(int32_t)(until - now) > 0`
    if latched != 0 && latched != tick && tickReached latched tick then w
    else { w with screen.command := .auth }
  | name => { w with screen.command := name }

end KeyWallet
