import KeyWallet.ButtonPoll
import KeyWallet.HidReceive

/-! Requests that ask for presence. The worker executes one request at a time, from CTAPHID or from
CCID; the label on the screen, the wait for the person and the cancel flag are globals that all of
them share. -/
namespace KeyWallet

/-- What a request asks for, as far as the label and the presence go. -/
inductive Request
  -- CBOR
  | makeCredential
  | getAssertion (removal : Bool)
  | getNextAssertion (removal : Bool)
  | selection
  | reset
  | clientPin (setPin : Bool)
  | getInfo
  | otherCbor
  -- vendor commands
  | vendor
  -- APDUs
  | u2fRegister
  | u2fAuthenticate
  | oath
  | otp
  | management
  | rescue
  | otherApdu
  deriving DecidableEq, Repr

namespace Request

/-- The label of an assertion. -/
def assertionLabel (removal : Bool) : CommandLabel := if removal then .removal else .auth

/-- The calls of wallet_ui_command that a request makes before it may ask for presence: in
cbor_parse, in cbor_get_assertion and in cbor_client_pin. No other handler makes one. -/
def labels : Request → List CommandLabel
  | .makeCredential => [.register]
  | .getAssertion removal => [assertionLabel removal]
  | .getNextAssertion removal => [.otherRequest, assertionLabel removal]
  | .selection => [.select]
  | .reset => [.reset]
  | .clientPin setPin => if setPin then [.pinCommand, .pinSet] else [.pinCommand]
  | .getInfo => [.getInfo]
  | .otherCbor => [.otherRequest]
  | _ => []

/-- Whether a message with this CTAPHID command can hold the request. An APDU can hold every one:
INS 0x10 is cmd_cbor, and INS 0x41 cmd_vendor. -/
def carriedBy (cmd : Byte) (r : Request) : Bool :=
  decide (Hid.isApdu cmd) ||
    if r = .vendor then decide (Hid.ctaphidVendorFirst ≤ cmd) && decide (cmd ≠ Hid.ctaphidOtp)
    else decide (r.labels ≠ []) && decide (cmd = Hid.ctaphidCbor)

theorem carriedBy_message {cmd : Byte} {r : Request} (h : r.carriedBy cmd = true) :
    Hid.isApdu cmd ∨ Hid.isCbor cmd := by
  rw [carriedBy, Bool.or_eq_true, decide_eq_true_eq] at h
  refine h.imp_right fun hcbor => ?_
  split_ifs at hcbor
  · rw [Bool.and_eq_true, decide_eq_true_eq] at hcbor
    exact .inr hcbor.1
  · rw [Bool.and_eq_true, decide_eq_true_eq, decide_eq_true_eq] at hcbor
    exact .inl hcbor.2

end Request

/-- Where a request came from. -/
inductive Origin
  | hid (cid : Hid.Cid) (cmd : Byte)
  | ccid
  deriving DecidableEq

/-- A request that is being executed. `todo` are its calls of wallet_ui_command that are still to
come, and `refused` says that a wait of it did not end in an approval: every handler then gives up.
The other fields record what has happened to it: the label it has stored, as long as that stands,
that it is an assertion within 15 s of a removal, and that a CTAPHID_CANCEL for it has come in. -/
structure Execution where
  origin : Origin
  request : Request
  todo : List CommandLabel
  refused : Bool := false
  own : Option CommandLabel := none
  excused : Bool := false
  hostCancelled : Bool := false
  deriving DecidableEq

/-- The device between its transports and the person. `removalAt` records when the last assertion
that was marked as a removal set its label, until there is a result; `clock` is in ticks. -/
structure Session (H : Type) where
  world : World H
  lastCmd : Byte := 0
  lastReqCid : Hid.Cid := 0
  current : Option Execution := none
  queued : Option (Origin × Request) := none
  removalAt : Option Nat := none
  clock : Nat := 0

inductive SessionInput (H : Type)
  -- a complete message for a handler, and an init frame that is none
  | message (cid : Hid.Cid) (cmd : Byte) (r : Request)
  | frame (cid : Hid.Cid) (cmd : Byte)
  | cancel (cid : Hid.Cid)
  | ccid (r : Request)
  -- a message that came in while the worker was busy is taken up, or is lost
  | takeQueued
  | dropQueued
  -- the request that is executed calls wallet_ui_command, asks for presence, or ends
  | label (elapsed : Nat)
  | ask (env : WaitEnv)
  | finish
  | task (elapsed : Nat) (env : TaskEnv)
  | poll (env : PollEnv)
  | restart (env : BootEnv H)

def SessionInput.isRestart {H : Type} : SessionInput H → Bool
  | .restart _ => true
  | _ => false

section

variable {Salt H : Type} [DecidableEq H]

namespace Session

def begin (origin : Origin) (r : Request) (s : Session H) : Session H :=
  { s with current := some { origin := origin, request := r, todo := r.labels } }

/-- The worker starts on a request, or the request waits until it is free. -/
def deliver (origin : Origin) (r : Request) (s : Session H) : Session H :=
  if s.current.isSome then { s with queued := some (origin, r) } else s.begin origin r

/-- A complete message has come in. Only the branch of CTAPHID_CBOR and of the vendor commands
clears the cancel flag. -/
def receive (cid : Hid.Cid) (cmd : Byte) (s : Session H) : Session H :=
  { s with
    lastCmd := cmd
    lastReqCid := cid
    world.wait.cancelButton := if Hid.isApdu cmd then s.world.wait.cancelButton
      else if Hid.isCbor cmd then false else s.world.wait.cancelButton }

/-- The end of driver_process_usb_packet_hid. -/
def dispatch (cid : Hid.Cid) (cmd : Byte) (r : Request) (s : Session H) : Session H :=
  if r.carriedBy cmd then (s.receive cid cmd).deliver (.hid cid cmd) r else s.receive cid cmd

/-- CTAPHID_CANCEL goes by the last message that came in. -/
def cancel (cid : Hid.Cid) (s : Session H) : Session H :=
  let s := { s with
    current := s.current.map fun e =>
      if e.origin = .hid cid Hid.ctaphidCbor then { e with hostCancelled := true } else e }
  if s.current.isSome ∧ s.lastCmd = Hid.ctaphidCbor ∧ cid = s.lastReqCid then
    { s with world.wait.cancelButton := true }
  else s

/-- At most 15 s have passed since a removal, without a result. -/
def afterRemoval (time : Nat) (s : Session H) : Bool :=
  match s.removalAt with
  | none => false
  | some removed => time ≤ removed + 1500

/-- The next call of wallet_ui_command, `elapsed` ticks after the last one that read the clock. -/
def label (elapsed : Nat) (s : Session H) : Session H :=
  match s.current with
  | none => s
  | some e =>
    match e.todo with
    | [] => s
    | name :: todo =>
      let time := s.clock + elapsed
      let world := walletUiCommand (UInt32.ofNat time) name s.world
      { s with
        world := world
        clock := time
        removalAt := if name = .removal then some time else s.removalAt
        current := some { e with
          todo := todo
          own := if world.screen.command = name then some name else none
          excused := decide (name = .auth) && s.afterRemoval time } }

/-- EV_PRESS_BUTTON reaches button_wait_start. -/
def ask (env : WaitEnv) (s : Session H) : Session H :=
  match s.current with
  | none => s
  | some e =>
    if e.todo = [] ∧ e.refused = false ∧ s.world.wait.asyncButtonWait = false then
      { s with world := buttonWaitStart env s.world }
    else s

/-- A pass of wallet_ui_task. Where it stores a label, that of the request no longer stands. -/
def task (B : Bcrypt Salt H) (elapsed : Nat) (env : TaskEnv) (s : Session H) : Session H :=
  let time := s.clock + elapsed
  let world := uiStep B s.world (.task { env with now := UInt32.ofNat time })
  { s with
    world := world
    clock := time
    current := s.current.map fun e =>
      if e.own = some world.screen.command then e else { e with own := none } }

/-- A pass of button_wait_poll. Its result goes to the request. -/
def poll (env : PollEnv) (s : Session H) : Session H :=
  let world := buttonWaitPoll env s.world
  if s.world.wait.asyncButtonWait ∧ world.wait.asyncButtonWait = false then
    { s with
      world := world
      removalAt := none
      current := s.current.map fun e =>
        { e with refused := decide (world.trace.head? ≠ some (.button .pressed)) } }
  else { s with world := world }

def act (B : Bcrypt Salt H) (s : Session H) : SessionInput H → Session H
  | .message cid cmd r => s.dispatch cid cmd r
  | .frame cid cmd => { s with lastCmd := cmd, lastReqCid := cid }
  | .cancel cid => s.cancel cid
  | .ccid r => if s.current.isNone then s.begin .ccid r else s
  | .takeQueued =>
    match s.current, s.queued with
    | none, some (origin, r) => { s with queued := none }.begin origin r
    | _, _ => s
  | .dropQueued => { s with queued := none }
  | .label elapsed => s.label elapsed
  | .ask env => s.ask env
  | .finish => if s.world.wait.asyncButtonWait then s else { s with current := none }
  | .task elapsed env => s.task B elapsed env
  | .poll env => s.poll env
  | .restart env => { world := boot env s.world }

/-- The device takes one step. Without power nothing happens but a restart. -/
def step (B : Bcrypt Salt H) (s : Session H) (i : SessionInput H) : Session H :=
  if s.world.powered ∨ i.isRestart then s.act B i else s

end Session

end

section Frame

variable {Salt H : Type}

/-- What a pass of wallet_ui_task leaves alone: the wait and, unless it ends the setup at boot, the
label. -/
structure UiKeeps (w w' : World H) : Prop where
  wait : w'.wait = w.wait
  latch : w'.screen.removalLatchedUntil = w.screen.removalLatchedUntil
  setup : w.pad.setupAtBoot = false → w'.pad.setupAtBoot = false
  command : w'.pad.setupAtBoot = w.pad.setupAtBoot → w'.screen.command = w.screen.command

theorem UiKeeps.refl (w : World H) : UiKeeps w w := ⟨rfl, rfl, id, fun _ => rfl⟩

theorem UiKeeps.trans {w w' w'' : World H} (h : UiKeeps w w') (h' : UiKeeps w' w'') : UiKeeps w w'' where
  wait := h'.wait.trans h.wait
  latch := h'.latch.trans h.latch
  setup := fun hs => h'.setup (h.setup hs)
  command := by
    intro hsame
    have hmid : w'.pad.setupAtBoot = w.pad.setupAtBoot := by
      cases hw : w.pad.setupAtBoot with
      | false => exact h.setup hw
      | true =>
        by_contra hno
        rw [h'.setup (Bool.not_eq_true _ ▸ hno), hw] at hsame
        cases hsame
    exact (h'.command (hsame.trans hmid.symm)).trans (h.command hmid)

/-- A step of the debouncing. Only the person sets the cancel flag there. -/
structure Debounces (person : Prop) (b b' : ButtonWait) : Prop where
  wait : b'.asyncButtonWait = b.asyncButtonWait
  cancel : b'.cancelButton = true → b.cancelButton = true ∨ person

theorem Debounces.trans {person : Prop} {b b' b'' : ButtonWait} (h : Debounces person b b')
    (h' : Debounces person b' b'') : Debounces person b b'' where
  wait := h'.wait.trans h.wait
  cancel := by
    intro hc
    rcases h'.cancel hc with hc' | hp
    · exact h.cancel hc'
    · exact .inr hp

theorem pollAuthorize_debounces (env : PollEnv) (authorization : Int) (b : ButtonWait) :
    Debounces (authorization < 0 ∨ env.gpio6 = true) b (pollAuthorize authorization b) := by
  unfold pollAuthorize
  split_ifs with hneg
  · exact ⟨rfl, fun _ => .inr (.inl hneg)⟩
  · exact ⟨rfl, .inl⟩

theorem pollApproveRaw_debounces {person : Prop} (env : PollEnv) (pressed : Bool) (b : ButtonWait) :
    Debounces person b (pollApproveRaw env pressed b) := by
  unfold pollApproveRaw
  split_ifs <;> exact ⟨rfl, .inl⟩

theorem pollApproveStable_debounces {person : Prop} (env : PollEnv) (b : ButtonWait) :
    Debounces person b (pollApproveStable env b) := by
  unfold pollApproveStable
  split_ifs <;> exact ⟨rfl, .inl⟩

theorem pollCancelRaw_debounces {person : Prop} (env : PollEnv) (b : ButtonWait) :
    Debounces person b (pollCancelRaw env b) := by
  unfold pollCancelRaw
  split_ifs <;> exact ⟨rfl, .inl⟩

@[simp] theorem pollCancelRaw_cancelRaw (env : PollEnv) (b : ButtonWait) :
    (pollCancelRaw env b).cancelRaw = env.gpio6 := by
  unfold pollCancelRaw
  split_ifs with h
  · rfl
  · rw [bne_iff_ne, ne_eq, not_not] at h
    exact h.symm

@[simp] theorem pollCancel_cancelRaw (env : PollEnv) (b : ButtonWait) :
    (pollCancel env b).cancelRaw = b.cancelRaw := by
  unfold pollCancel
  split <;> rfl

theorem pollCancel_debounces (env : PollEnv) (authorization : Int) (b : ButtonWait)
    (hraw : b.cancelRaw = env.gpio6) :
    Debounces (authorization < 0 ∨ env.gpio6 = true) b (pollCancel env b) := by
  unfold pollCancel
  split
  · next h =>
    rw [Bool.and_eq_true, hraw] at h
    exact ⟨rfl, fun _ => .inr (.inr h.1)⟩
  · exact ⟨rfl, .inl⟩

theorem pollDebounce_debounces (env : PollEnv) (authorization : Int) (b : ButtonWait) :
    Debounces (authorization < 0 ∨ env.gpio6 = true) b (pollDebounce env authorization b).1 := by
  have h := ((((pollAuthorize_debounces env authorization b).trans
    (pollApproveRaw_debounces env (if authorization < 0 then env.gpio5 else false) _)).trans
    (pollApproveStable_debounces env _)).trans (pollCancelRaw_debounces env _)).trans
    (pollCancel_debounces env authorization _ (pollCancelRaw_cancelRaw env _))
  exact ⟨h.wait, h.cancel⟩

theorem pollDebounce_cancelRaw (env : PollEnv) (authorization : Int) (b : ButtonWait) :
    (pollDebounce env authorization b).1.cancelRaw = env.gpio6 := by
  unfold pollDebounce
  dsimp only
  rw [pollCancel_cancelRaw, pollCancelRaw_cancelRaw]

/-- Nothing waits, no wait has just ended, and no removal is latched. -/
structure Quiet (w : World H) : Prop where
  wait : w.wait = {}
  latch : w.screen.removalLatchedUntil = 0
  trace : ∀ ev, w.trace.head? ≠ some (.button ev)

theorem Quiet.initResetDone {env : BootEnv H} {w : World H} (h : Quiet w) :
    Quiet (initResetDone env w) := by
  unfold KeyWallet.initResetDone
  split_ifs
  · exact ⟨h.wait, h.latch, h.trace⟩
  · exact h

theorem Quiet.initDeviceId {env : BootEnv H} {w : World H} (h : Quiet w) :
    Quiet (initDeviceId env w) := by
  unfold KeyWallet.initDeviceId drawDeviceId
  split
  · split_ifs <;> exact ⟨h.wait, h.latch, h.trace⟩
  · exact ⟨h.wait, h.latch, h.trace⟩

theorem Quiet.initNvs {env : BootEnv H} {w : World H} (h : Quiet w) : Quiet (initNvs env w) := by
  unfold KeyWallet.initNvs
  split_ifs
  · exact h
  · have hopened : Quiet (KeyWallet.initResetDone env { w with pinStoreOpen := true }) :=
      Quiet.initResetDone ⟨h.wait, h.latch, h.trace⟩
    exact Quiet.initDeviceId ⟨hopened.wait, hopened.latch, hopened.trace⟩

theorem Quiet.initSetup {w : World H} (h : Quiet w) : Quiet (initSetup w) := by
  unfold KeyWallet.initSetup
  split_ifs <;> exact ⟨h.wait, h.latch, h.trace⟩

theorem Quiet.walletUiInit {env : BootEnv H} {w : World H} (h : Quiet w) :
    Quiet (walletUiInit env w) := by
  unfold KeyWallet.walletUiInit
  split_ifs
  · exact h
  · have hrtc : Quiet { w with rtcPresent := env.rtc } := ⟨h.wait, h.latch, h.trace⟩
    exact hrtc.initNvs.initSetup

theorem padSelect_keeps (env : TaskEnv) (w : World H) : UiKeeps w (padSelect env w) := by
  unfold padSelect
  dsimp only
  split
  · split_ifs <;> exact ⟨rfl, rfl, id, fun _ => rfl⟩
  · exact ⟨rfl, rfl, id, fun _ => rfl⟩

theorem padBackDown_keeps (env : TaskEnv) (w : World H) : UiKeeps w (padBackDown env w) := by
  unfold padBackDown
  split_ifs <;> exact ⟨rfl, rfl, id, fun _ => rfl⟩

theorem padLongPress_keeps (env : TaskEnv) (w : World H) : UiKeeps w (padLongPress env w) := by
  unfold padLongPress World.pinClear World.zeroizeFirst
  dsimp only
  split_ifs <;> exact ⟨rfl, rfl, id, fun _ => rfl⟩

theorem padBackUp_keeps (env : TaskEnv) (w : World H) : UiKeeps w (padBackUp env w) := by
  unfold padBackUp
  split_ifs <;> exact ⟨rfl, rfl, id, fun _ => rfl⟩

theorem pinLockRecordResult_keeps (env : TaskEnv) (correct : Bool) (now : Nat) (w : World H) :
    UiKeeps w (pinLockRecordResult env correct now w).2 := by
  unfold pinLockRecordResult pinLockStore
  dsimp only
  split_ifs <;> exact ⟨rfl, rfl, id, fun _ => rfl⟩

theorem pinOutcome_keeps (env : TaskEnv) (ok : Bool) (w : World H) :
    UiKeeps w (pinOutcome env ok w).2 := by
  unfold pinOutcome resetScheduleWipe
  dsimp only
  split_ifs <;> exact ⟨rfl, rfl, id, fun _ => rfl⟩

theorem pinStoreNew_keeps (B : Bcrypt Salt H) (env : TaskEnv) (w : World H) :
    UiKeeps w (pinStoreNew B env w).2 := by
  unfold pinStoreNew
  dsimp only
  split <;> try split_ifs
  all_goals exact ⟨rfl, rfl, id, fun _ => rfl⟩

theorem lockRefresh_keeps (env : TaskEnv) (w : World H) : UiKeeps w (lockRefresh env w) := by
  unfold lockRefresh
  split_ifs <;> exact ⟨rfl, rfl, id, fun _ => rfl⟩

theorem lockScreen_keeps (env : TaskEnv) (w : World H) : UiKeeps w (lockScreen env w).2 := by
  unfold lockScreen World.pinClear
  dsimp only
  split_ifs <;> exact ⟨rfl, rfl, id, fun _ => rfl⟩

@[simp] theorem lockRefresh_mode (env : TaskEnv) (w : World H) :
    (lockRefresh env w).pad.mode = w.pad.mode := by
  unfold lockRefresh
  split_ifs <;> rfl

theorem lockScreen_mode (env : TaskEnv) (w : World H) (h : (lockScreen env w).1 = true) :
    (lockScreen env w).2.pad.mode = w.pad.mode := by
  unfold lockScreen at h ⊢
  dsimp only at h ⊢
  by_cases hgate : w.lock.gate = .ready
  · rw [if_pos hgate]
  · rw [if_neg hgate] at h
    split_ifs at h

theorem pinSubmitRetype_keeps (B : Bcrypt Salt H) (env : TaskEnv) (w : World H) :
    UiKeeps w (pinSubmitRetype B env w) := by
  obtain ⟨hwait, hlatch, hsetup, hcommand⟩ := pinStoreNew_keeps B env w
  unfold pinSubmitRetype World.zeroizeFirst World.pinClear World.emit
  dsimp only
  split_ifs
  · exact ⟨rfl, rfl, id, fun _ => rfl⟩
  · split
    · exact ⟨hwait, hlatch, hsetup, hcommand⟩
    · exact ⟨hwait, hlatch, fun _ => rfl, fun h => absurd h (by simp [*])⟩
  · split
    · exact ⟨hwait, hlatch, hsetup, hcommand⟩
    · exact ⟨hwait, hlatch, hsetup, hcommand⟩

theorem pinSubmitChangeRetype_keeps (B : Bcrypt Salt H) (env : TaskEnv) (w : World H) :
    UiKeeps w (pinSubmitChangeRetype B env w) := by
  obtain ⟨hwait, hlatch, hsetup, hcommand⟩ := pinStoreNew_keeps B env w
  unfold pinSubmitChangeRetype World.zeroizeFirst World.pinClear World.emit
  dsimp only
  split_ifs
  · exact ⟨rfl, rfl, id, fun _ => rfl⟩
  · split
    · exact ⟨hwait, hlatch, hsetup, hcommand⟩
    · exact ⟨hwait, hlatch, hsetup, hcommand⟩

theorem menuTask_keeps (pins prev : ButtonLevels) (w : World H) : UiKeeps w (menuTask pins prev w) := by
  rcases menuTask_step pins prev w with ⟨s, hs, heq⟩ | ⟨-, heq⟩
  · rw [heq]
    exact ⟨rfl, hs.latch, id, fun _ => hs.command⟩
  · rw [heq]
    exact ⟨rfl, rfl, id, fun _ => rfl⟩

theorem takeCommand_keeps (w : World H) : UiKeeps w { w with screen := w.screen.takeCommand } := by
  unfold Screen.takeCommand Screen.closeMenus
  split_ifs <;> exact ⟨rfl, rfl, id, fun _ => rfl⟩

theorem resetConfirmTask_keeps (env : TaskEnv) (w : World H) : UiKeeps w (resetConfirmTask env w).2 := by
  unfold resetConfirmTask resetChallengeStart
  dsimp only
  split_ifs <;> exact ⟨rfl, rfl, id, fun _ => rfl⟩

theorem idleMenus_keeps (env : TaskEnv) (w : World H) : UiKeeps w (idleMenus env w) := by
  unfold idleMenus
  dsimp only
  split
  · exact ⟨rfl, rfl, id, fun _ => rfl⟩
  · split_ifs
    · obtain ⟨hwait, hlatch, hsetup, hcommand⟩ := menuTask_keeps env.levels ‹ButtonLevels› w
      exact ⟨hwait, hlatch, hsetup, hcommand⟩
    · exact ⟨rfl, rfl, id, fun _ => rfl⟩

@[simp] theorem walletUiCommand_wait (tick : UInt32) (name : CommandLabel) (w : World H) :
    (walletUiCommand tick name w).wait = w.wait := by
  cases name with
  | auth =>
    unfold walletUiCommand
    dsimp only
    split_ifs <;> rfl
  | _ => rfl

theorem Session.label_wait (s : Session H) (elapsed : Nat) :
    (s.label elapsed).world.wait = s.world.wait := by
  unfold Session.label
  split
  · rfl
  · split
    · rfl
    · exact walletUiCommand_wait _ _ s.world

/-- A pass of button_wait_poll leaves the label alone. Where it ends the wait it shows the result,
which drops the latch of a removal. -/
theorem buttonWaitPoll_keeps (env : PollEnv) (w : World H) :
    (buttonWaitPoll env w).screen.command = w.screen.command ∧
      ((buttonWaitPoll env w).wait.asyncButtonWait = w.wait.asyncButtonWait ∧
          (buttonWaitPoll env w).screen = w.screen ∨
        w.wait.asyncButtonWait = true ∧ (buttonWaitPoll env w).wait.asyncButtonWait = false ∧
          (buttonWaitPoll env w).screen.removalLatchedUntil = 0) := by
  unfold buttonWaitPoll
  by_cases hwait : w.wait.asyncButtonWait = true
  · dsimp only
    rw [hwait, Bool.not_true, if_neg Bool.false_ne_true]
    by_cases hauth : w.localAuthResult = 0
    · rw [if_pos hauth]
      exact ⟨rfl, .inl ⟨hwait, rfl⟩⟩
    · rw [if_neg hauth]
      split
      · exact ⟨rfl, .inl ⟨(pollDebounce_debounces env _ _).wait.trans hwait, rfl⟩⟩
      · exact ⟨rfl, .inr ⟨rfl, rfl, rfl⟩⟩
  · rw [Bool.not_eq_true] at hwait
    rw [hwait, Bool.not_false, if_pos rfl]
    exact ⟨rfl, .inl ⟨hwait, rfl⟩⟩

/-- The display of a result is over: the branch of wallet_ui_task that stores READY. -/
def ResultEnds (env : TaskEnv) (w : World H) : Prop :=
  w.pad.mode = .idle ∧
    ¬ (w.screen.settingsChangeSuccess = true ∧
      tickReached env.now w.screen.settingsChangeSuccessUntil = true) ∧
    w.screen.waiting = false ∧ w.screen.resultVisible = true ∧
    tickReached env.now w.screen.resultUntil = true

instance (env : TaskEnv) (w : World H) : Decidable (ResultEnds env w) :=
  inferInstanceAs (Decidable (_ ∧ _))

/-- What a pass does to the wait and to the label. -/
structure TaskKeeps (env : TaskEnv) (w w' : World H) : Prop where
  wait : w'.wait = w.wait
  latch : w'.screen.removalLatchedUntil = w.screen.removalLatchedUntil ∨
    w'.screen.removalLatchedUntil = 0
  setup : w.pad.setupAtBoot = false → w'.pad.setupAtBoot = false
  command : w'.pad.setupAtBoot = w.pad.setupAtBoot → ¬ ResultEnds env w →
    w'.screen.command = w.screen.command

theorem UiKeeps.task {env : TaskEnv} {w w' : World H} (h : UiKeeps w w') : TaskKeeps env w w' :=
  ⟨h.wait, .inl h.latch, h.setup, fun hs _ => h.command hs⟩

theorem idleTask_keeps (env : TaskEnv) (w : World H) (hmode : w.pad.mode = .idle) :
    TaskKeeps env w (idleTask env w) := by
  unfold idleTask
  dsimp only
  split_ifs with hchange hresult hconfirm
  · exact ⟨rfl, .inl rfl, id, fun _ _ => rfl⟩
  · refine ⟨rfl, .inr rfl, id, fun _ hno => ?_⟩
    simp only [Bool.and_eq_true, Bool.not_eq_true'] at hchange hresult
    exact absurd ⟨hmode, hchange, hresult.1.1, hresult.1.2, hresult.2⟩ hno
  · exact (((takeCommand_keeps w).trans (resetConfirmTask_keeps env _)).trans
      (idleMenus_keeps env _)).task
  · exact ((takeCommand_keeps w).trans (resetConfirmTask_keeps env _)).task

end Frame

section TaskFrame

variable {Salt H : Type} [DecidableEq H]

theorem boot_quiet (env : BootEnv H) (w : World H) : Quiet (boot env w) := by
  unfold boot wipeDevice World.emit
  dsimp only
  split_ifs
  · exact ⟨rfl, rfl, fun ev h => by cases h⟩
  · exact ⟨rfl, rfl, fun ev h => by cases h⟩
  · exact ⟨rfl, rfl, fun ev h => by cases h⟩
  · exact Quiet.walletUiInit ⟨rfl, rfl, fun ev h => by cases h⟩

theorem pinRecordEntry_keeps (env : TaskEnv) (w cleared : World H) (candidate : H) :
    UiKeeps cleared (pinRecordEntry env w cleared candidate) := by
  have hrecord := pinLockRecordResult_keeps env (decide (some candidate = w.pinHash))
    (pinLockCheck env.rtcSubmit w).2 cleared
  unfold pinRecordEntry World.emit
  dsimp only
  split_ifs
  · exact ⟨hrecord.wait, hrecord.latch, hrecord.setup, hrecord.command⟩
  · have hgate : UiKeeps cleared
        { (pinLockRecordResult env (decide (some candidate = w.pinHash))
            (pinLockCheck env.rtcSubmit w).2 cleared).2 with
          lock.gate := (pinLockCheck env.rtcAfter (pinLockRecordResult env
            (decide (some candidate = w.pinHash)) (pinLockCheck env.rtcSubmit w).2 cleared).2).1 } :=
      ⟨hrecord.wait, hrecord.latch, hrecord.setup, hrecord.command⟩
    have hboth := hgate.trans (pinOutcome_keeps env (decide (some candidate = w.pinHash)) _)
    exact ⟨hboth.wait, hboth.latch, hboth.setup, hboth.command⟩

theorem pinVerifyEntry_keeps (B : Bcrypt Salt H) (env : TaskEnv) (w : World H) :
    UiKeeps w (pinVerifyEntry B env w) := by
  unfold pinVerifyEntry
  dsimp only
  split_ifs
  · exact ⟨rfl, rfl, id, fun _ => rfl⟩
  · split
    · exact ⟨rfl, rfl, id, fun _ => rfl⟩
    · obtain ⟨hwait, hlatch, hsetup, hcommand⟩ := pinRecordEntry_keeps env w
        (World.pinClear { w with lock.gate := (pinLockCheck env.rtcSubmit w).1 }) ‹H›
      exact ⟨hwait, hlatch, hsetup, hcommand⟩

theorem pinSubmit_keeps (B : Bcrypt Salt H) (env : TaskEnv) (w : World H) :
    UiKeeps w (pinSubmit B env w) := by
  unfold pinSubmit World.pinClear World.emit
  split_ifs
  · exact .refl w
  · exact ⟨rfl, rfl, id, fun _ => rfl⟩
  · exact ⟨rfl, rfl, id, fun _ => rfl⟩
  · exact .refl w
  · split
    · exact ⟨rfl, rfl, id, fun _ => rfl⟩
    · exact pinSubmitRetype_keeps B env w
    · exact ⟨rfl, rfl, id, fun _ => rfl⟩
    · exact pinSubmitChangeRetype_keeps B env w
    · exact pinVerifyEntry_keeps B env w

theorem padTask_keeps (B : Bcrypt Salt H) (env : TaskEnv) (w : World H) :
    UiKeeps w (padTask B env w) := by
  have hedit : UiKeeps w (padEdit env w) :=
    (((padSelect_keeps env w).trans (padBackDown_keeps env _)).trans
      (padLongPress_keeps env _)).trans (padBackUp_keeps env _)
  unfold padTask
  dsimp only
  split_ifs
  · obtain ⟨hwait, hlatch, hsetup, hcommand⟩ := hedit.trans (pinSubmit_keeps B env _)
    exact ⟨hwait, hlatch, hsetup, hcommand⟩
  · exact ⟨hedit.wait, hedit.latch, hedit.setup, hedit.command⟩

theorem passTask_keeps (B : Bcrypt Salt H) (env : TaskEnv) (w : World H) :
    TaskKeeps env w (passTask B env w) := by
  unfold passTask
  dsimp only
  by_cases hverify : w.pad.mode.requiresVerification = true
  · rw [if_pos hverify]
    have hlock := (lockRefresh_keeps env w).trans (lockScreen_keeps env _)
    split_ifs with hgo hidle
    · exact hlock.task
    · rw [Bool.not_eq_true', Bool.not_eq_false] at hgo
      rw [lockTask, lockScreen_mode env _ hgo, lockRefresh_mode] at hidle
      rw [hidle] at hverify
      cases hverify
    · exact (hlock.trans (padTask_keeps B env _)).task
  · rw [if_neg hverify]
    dsimp only
    rw [Bool.not_true, if_neg Bool.false_ne_true]
    split_ifs with hidle
    · exact idleTask_keeps env w hidle
    · exact (padTask_keeps B env w).task

/-- A pass of wallet_ui_task leaves the wait alone, and it stores a label only when the setup at boot
or the display of a result ends. -/
theorem walletUiTask_keeps (B : Bcrypt Salt H) (env : TaskEnv) (w : World H) :
    TaskKeeps env w (walletUiTask B env w) := by
  unfold walletUiTask
  split_ifs
  · exact (UiKeeps.refl w).task
  · exact ⟨rfl, .inl rfl, id, fun _ _ => rfl⟩
  · exact ⟨rfl, .inl rfl, id, fun _ _ => rfl⟩
  · obtain ⟨hwait, hlatch, hsetup, hcommand⟩ := passTask_keeps B env { w with screen.lastPoll := env.now }
    exact ⟨hwait, hlatch, hsetup, hcommand⟩

theorem uiStep_task_keeps (B : Bcrypt Salt H) (env : TaskEnv) (w : World H) :
    TaskKeeps env w (uiStep B w (.task env)) := by
  have h := walletUiTask_keeps B env w
  dsimp only [uiStep]
  split_ifs
  · exact (UiKeeps.refl w).task
  · exact ⟨h.wait, h.latch, h.setup, h.command⟩
  · exact h

theorem Session.step_wait (B : Bcrypt Salt H) (s : Session H) (i : SessionInput H) :
    (s.step B i).world.wait.asyncButtonWait = s.world.wait.asyncButtonWait ∨
      (∃ env, i = .ask env) ∨ (∃ env, i = .poll env) ∨ ∃ env, i = .restart env := by
  unfold Session.step
  split_ifs
  · cases i with
    | ask env => exact .inr (.inl ⟨env, rfl⟩)
    | poll env => exact .inr (.inr (.inl ⟨env, rfl⟩))
    | restart env => exact .inr (.inr (.inr ⟨env, rfl⟩))
    | message cid cmd r =>
      left
      dsimp only [Session.act, Session.dispatch, Session.deliver]
      split_ifs <;> rfl
    | frame cid cmd => exact .inl rfl
    | cancel cid =>
      left
      dsimp only [Session.act, Session.cancel]
      split_ifs <;> rfl
    | ccid r =>
      left
      dsimp only [Session.act]
      split_ifs <;> rfl
    | takeQueued =>
      left
      dsimp only [Session.act]
      split <;> rfl
    | dropQueued => exact .inl rfl
    | label elapsed => exact .inl (congrArg ButtonWait.asyncButtonWait (s.label_wait elapsed))
    | finish =>
      left
      dsimp only [Session.act]
      split_ifs <;> rfl
    | task elapsed env =>
      exact .inl (congrArg ButtonWait.asyncButtonWait (uiStep_task_keeps B _ s.world).wait)
  · exact .inl rfl

theorem Session.step_opens (B : Bcrypt Salt H) {s : Session H} {i : SessionInput H}
    (hclosed : s.world.wait.asyncButtonWait = false)
    (hopen : (s.step B i).world.wait.asyncButtonWait = true) :
    ∃ env e, i = .ask env ∧ s.current = some e ∧ e.todo = [] ∧ e.refused = false ∧
      s.step B i = { s with world := buttonWaitStart env s.world } := by
  rcases s.step_wait B i with hsame | ⟨env, rfl⟩ | ⟨env, rfl⟩ | ⟨env, rfl⟩
  · rw [hsame, hclosed] at hopen
    cases hopen
  · unfold Session.step at hopen ⊢
    by_cases hpower : s.world.powered = true ∨ (SessionInput.ask env : SessionInput H).isRestart = true
    · rw [if_pos hpower] at hopen ⊢
      dsimp only [Session.act, Session.ask] at hopen ⊢
      cases hcurrent : s.current with
      | none =>
        simp only [hcurrent, hclosed] at hopen
        cases hopen
      | some e =>
        simp only [hcurrent] at hopen ⊢
        split_ifs at hopen ⊢ with hask
        · exact ⟨env, e, rfl, rfl, hask.1, hask.2.1, rfl⟩
        · rw [hclosed] at hopen
          cases hopen
    · rw [if_neg hpower, hclosed] at hopen
      cases hopen
  · unfold Session.step at hopen
    split_ifs at hopen
    · dsimp only [Session.act, Session.poll] at hopen
      rcases (buttonWaitPoll_keeps env s.world).2 with ⟨hwait, -⟩ | ⟨hwait, -⟩
      · split_ifs at hopen <;>
        · rw [show _ = s.world.wait.asyncButtonWait from hwait, hclosed] at hopen
          cases hopen
      · rw [hclosed] at hwait
        cases hwait
    · rw [hclosed] at hopen
      cases hopen
  · unfold Session.step at hopen
    rw [if_pos (.inr rfl)] at hopen
    dsimp only [Session.act] at hopen
    rw [show _ = _ from congrArg ButtonWait.asyncButtonWait (boot_quiet env s.world).wait] at hopen
    cases hopen

end TaskFrame

end KeyWallet
