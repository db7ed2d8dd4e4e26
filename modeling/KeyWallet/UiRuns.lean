import KeyWallet.UiRefines

/-! Every input of the device on the core, and the invariant rule for whole runs. -/
namespace KeyWallet

open Relation

variable {Salt H : Type}

theorem walletUiCommand_core (tick : UInt32) (name : CommandLabel) (w : World H) :
    (walletUiCommand tick name w).core = w.core := by
  cases name <;> try rfl
  simp only [walletUiCommand]
  split_ifs <;> rfl

theorem pollCancel_frame (env : PollEnv) (b : ButtonWait) :
    (pollCancel env (pollCancelRaw env b)).asyncButtonWait = b.asyncButtonWait ∧
    (pollCancel env (pollCancelRaw env b)).asyncButtonPressed = b.asyncButtonPressed ∧
    (pollCancel env (pollCancelRaw env b)).approveArmed = b.approveArmed ∧
    (pollCancel env (pollCancelRaw env b)).approveStable = b.approveStable ∧
    (b.cancelButton = true → (pollCancel env (pollCancelRaw env b)).cancelButton = true) := by
  simp only [pollCancel, pollCancelRaw]
  split_ifs <;> simp

theorem pollApprove_frame (env : PollEnv) (raw : Bool) (b : ButtonWait) :
    (pollApproveStable env (pollApproveRaw env raw b)).asyncButtonWait = b.asyncButtonWait ∧
    (pollApproveStable env (pollApproveRaw env raw b)).asyncButtonPressed = b.asyncButtonPressed ∧
    (pollApproveStable env (pollApproveRaw env raw b)).cancelButton = b.cancelButton := by
  simp only [pollApproveStable, pollApproveRaw]
  split_ifs <;> simp

/-- A refusal sets `cancel_button`, and nothing in the poll clears it. -/
theorem pollDebounce_cancel (env : PollEnv) (a : Int) (b : ButtonWait) (ha : a < 0) :
    (pollDebounce env a b).1.cancelButton = true := by
  refine (pollCancel_frame env _).2.2.2.2 ?_
  rw [(pollApprove_frame env _ _).2.2, pollAuthorize, if_pos ha]

theorem pollDebounce_wait (env : PollEnv) (a : Int) (b : ButtonWait) :
    (pollDebounce env a b).1.asyncButtonWait = b.asyncButtonWait := by
  refine (pollCancel_frame env _).1.trans ((pollApprove_frame env _ _).1.trans ?_)
  unfold pollAuthorize
  split_ifs <;> rfl

theorem pollDebounce_approve (env : PollEnv) (a : Int) (b : ButtonWait) (ha : ¬ a < 0)
    (hb : b.approveArmed = false) :
    (pollDebounce env a b).1.asyncButtonPressed = true ∧ (pollDebounce env a b).2 = false := by
  have hreleased : ((pollApproveStable env (pollApproveRaw env false (pollAuthorize a b))).approveArmed
      && (pollApproveStable env (pollApproveRaw env false (pollAuthorize a b))).approveStable) =
      false := by
    simp only [pollApproveStable, pollApproveRaw, pollAuthorize, if_neg ha]
    split_ifs <;> simp_all
  obtain ⟨-, hpressed, harmed, hstable, -⟩ := pollCancel_frame env
    (pollApproveStable env (pollApproveRaw env false (pollAuthorize a b)))
  simp only [pollDebounce, if_neg ha, hpressed, harmed, hstable, hreleased,
    (pollApprove_frame env _ _).2.1, Bool.or_false, and_true]
  simp only [pollAuthorize, if_neg ha]

theorem buttonWaitPoll_cases (env : PollEnv) (w : World H) :
    (buttonWaitPoll env w).core = w.core ∨
    (w.wait.asyncButtonWait = true ∧ w.wait.approveArmed = true ∧
      ∃ armed, (buttonWaitPoll env w).core = { w.core with auth := 0, armed := armed }) ∨
    (w.wait.asyncButtonWait = true ∧ ∃ ev armed, (ev = .pressed → 0 < w.localAuthResult) ∧
      (buttonWaitPoll env w).core = w.core.finish ev armed) := by
  simp only [buttonWaitPoll]
  split_ifs with hwait hauth
  · exact .inl rfl
  · exact .inl rfl
  have hw : w.wait.asyncButtonWait = true := by simpa using hwait
  refine .inr ?_
  split
  · rename_i hnone
    refine .inl ⟨hw, ?_, (pollDebounce env w.localAuthResult w.wait).1.approveArmed, ?_⟩
    · by_contra hunarmed
      rw [pollResult] at hnone
      by_cases hneg : w.localAuthResult < 0
      · rw [if_pos (pollDebounce_cancel env _ _ hneg)] at hnone
        cases hnone
      · obtain ⟨hp, hr⟩ :=
          pollDebounce_approve env _ w.wait hneg (Bool.eq_false_of_not_eq_true hunarmed)
        simp only [hp, hr, Bool.not_false, Bool.and_self, if_true] at hnone
        split_ifs at hnone
    · simp only [World.core, pollDebounce_wait]
  · rename_i ev hev
    refine .inr ⟨hw, if ev = .pressed ∧ (pollDebounce env w.localAuthResult w.wait).1.cancelRaw
      then .cancelled else ev, (pollDebounce env w.localAuthResult w.wait).1.approveArmed, ?_, rfl⟩
    intro hpressed
    by_contra hneg
    have hlt : w.localAuthResult < 0 := by omega
    rw [pollResult, if_pos (pollDebounce_cancel env _ _ hlt)] at hev
    cases hev
    simp at hpressed

theorem buttonWaitPoll_ends (env : PollEnv) (w : World H) (hwait : w.wait.asyncButtonWait = true)
    (hauth : w.localAuthResult ≠ 0) (harmed : w.wait.approveArmed = false) :
    ∃ ev armed, (buttonWaitPoll env w).core = w.core.finish ev armed := by
  have hchanged : (buttonWaitPoll env w).core ≠ w.core := by
    intro heq
    have h := congrArg Core.auth heq
    rw [World.core_auth, World.core_auth] at h
    simp only [buttonWaitPoll, hwait, hauth, Bool.not_true, Bool.false_eq_true, if_false] at h
    split at h <;> exact hauth h.symm
  rcases buttonWaitPoll_cases env w with h | ⟨-, h, -⟩ | ⟨-, ev, armed, -, h⟩
  · exact absurd h hchanged
  · exact absurd (harmed.symm.trans h) Bool.false_ne_true
  · exact ⟨ev, armed, h⟩

/-! ### Boots -/

theorem store_frame (nvs : Nvs H) (set commit : NvsReply) (image : NvsImage H → NvsImage H)
    {α : Type} (key : NvsImage H → α) (himage : ∀ i, key (image i) = key i) :
    key (nvs.store set commit image).2.ram = key nvs.ram ∧
      (key nvs.ram = key nvs.flash →
        key (nvs.store set commit image).2.flash = key nvs.flash) := by
  cases set with
  | ok => cases commit with
    | ok => simp [Nvs.store, Nvs.put, Nvs.commit, himage]
    | fail b => cases b <;> simp [Nvs.store, Nvs.put, Nvs.commit, himage]
  | fail b => cases b <;> simp [Nvs.store, Nvs.put, himage]

/-- The two keys the PIN logic reads. -/
def NvsImage.pinKeys (i : NvsImage H) : Option H × Option PinLockRecord := (i.bcrypt, i.pinLock)

/-- Both images hold the same PIN keys as before. -/
def SamePinKeys (nvs nvs' : Nvs H) : Prop :=
  nvs'.ram.pinKeys = nvs.ram.pinKeys ∧ nvs'.flash.pinKeys = nvs.flash.pinKeys

theorem samePinKeys_store (nvs : Nvs H) (set commit : NvsReply)
    (image : NvsImage H → NvsImage H) (himage : ∀ i, (image i).pinKeys = i.pinKeys)
    (hsync : nvs.ram.pinKeys = nvs.flash.pinKeys) :
    SamePinKeys nvs (nvs.store set commit image).2 := by
  obtain ⟨hr, hf⟩ := store_frame nvs set commit image NvsImage.pinKeys himage
  exact ⟨hr, hf hsync⟩

theorem initResetDone_core [DecidableEq H] (env : BootEnv H) (w : World H)
    (hsync : w.nvs.ram.pinKeys = w.nvs.flash.pinKeys) :
    ∃ nvs, (initResetDone env w).core = { w.core with nvs := nvs } ∧ SamePinKeys w.nvs nvs := by
  unfold initResetDone
  split_ifs
  · exact ⟨_, rfl, samePinKeys_store _ _ _ _ (fun _ => rfl) hsync⟩
  · exact ⟨w.nvs, rfl, rfl, rfl⟩

theorem initDeviceId_core [DecidableEq H] (env : BootEnv H) (w : World H)
    (hsync : w.nvs.ram.pinKeys = w.nvs.flash.pinKeys) :
    ∃ nvs, (initDeviceId env w).core = { w.core with nvs := nvs } ∧ SamePinKeys w.nvs nvs := by
  unfold initDeviceId
  split
  · split_ifs
    · exact ⟨_, rfl, samePinKeys_store _ _ _ _ (fun _ => rfl) hsync⟩
    · exact ⟨w.nvs, rfl, rfl, rfl⟩
  · exact ⟨_, rfl, samePinKeys_store _ _ _ _ (fun _ => rfl) hsync⟩

theorem wipeDevice_core (env : WipeEnv) (w : World H) :
    wipeDevice env w = w ∨
    ∃ nvs : Nvs H, (wipeDevice env w).core = { w.core with nvs := nvs, trace := .wiped :: w.trace } ∧
      nvs.ram.pinKeys = (none, none) ∧ nvs.flash.pinKeys = (none, none) := by
  simp only [wipeDevice]
  split_ifs
  · exact .inl rfl
  · exact .inr ⟨{}, rfl, rfl, rfl⟩
  · obtain ⟨hr, hf⟩ := samePinKeys_store ({} : Nvs H) env.doneSet env.doneCommit
      (fun i => { i with resetDone := some 1 }) (fun _ => rfl) rfl
    exact .inr ⟨_, rfl, hr, hf⟩

theorem boot_core [DecidableEq H] (env : BootEnv H) (w : World H) :
    BootStep w.core env (boot env w).core := by
  simp only [boot]
  split_ifs with hw
  · rcases wipeDevice_core env.wipe 
        { nvs := w.nvs.reopen env.kept, trace := .boot env.hashNotFound :: w.trace } with h | ⟨nvs, h, hr, hf⟩
    · rw [h]
      exact .wipeCut hw
    · rw [h]
      exact .wiped nvs hw (Prod.ext_iff.mp hr) (Prod.ext_iff.mp hf)
  have hw' : env.wipes = false := Bool.eq_false_of_not_eq_true hw
  simp only [walletUiInit, initNvs]
  split_ifs with ho hn
  · exact .dark hw' (by simpa using ho)
  · exact .closed hw' (by simpa using ho) (by simpa using hn)
  · simp only [Bool.or_eq_true, Bool.not_eq_true', not_or, Bool.not_eq_false] at ho hn
    obtain ⟨nvs₁, h₁, hr₁, hf₁⟩ := initResetDone_core env
      { nvs := w.nvs.reopen env.kept, trace := .boot env.hashNotFound :: w.trace
        powered := true, rtcPresent := env.rtc, pinStoreOpen := true } rfl
    generalize initResetDone env _ = w₁ at h₁ ⊢
    have hnvs : w₁.nvs = nvs₁ := congrArg Core.nvs h₁
    obtain ⟨nvs₂, h₂, hr₂, hf₂⟩ := initDeviceId_core env
      { w₁ with pinHash := env.hashRead.hash, lock := initLock env.lockRead }
      (by rw [hnvs, hr₁, hf₁]; rfl)
    generalize initDeviceId env _ = w₂ at h₂ ⊢
    have hr : nvs₂.ram.pinKeys = (w.nvs.reopen env.kept).ram.pinKeys := by
      rw [hr₂, hnvs, hr₁]
    have hf : nvs₂.flash.pinKeys = (w.nvs.reopen env.kept).flash.pinKeys := by
      rw [hf₂, hnvs, hf₁]
    have hcore : (initSetup w₂).core =
        (Core.fresh nvs₂ (.boot env.hashNotFound :: w.trace)).opened env.hashRead.hash
          (initLock env.lockRead) := by
      have hw₂ : w₂.core = { w₁.core with
          hash := env.hashRead.hash, storageOk := (initLock env.lockRead).storageOk
          record := (initLock env.lockRead).record, nvs := nvs₂ } := h₂
      rw [h₁] at hw₂
      have hhash : w₂.pinHash = env.hashRead.hash := congrArg Core.hash h₂
      have hentry : w₂.pad.entry = {} := congrArg Core.entry hw₂
      rw [initSetup, hhash]
      cases hread : env.hashRead.hash with
      | some h =>
        rw [hread] at hw₂
        exact hw₂
      | none =>
        change { w₂.core with
          mode := PinMode.create, setupAtBoot := true, hash := none
          entry := { w₂.pad.entry with length := 0 } } = _
        rw [hentry, hw₂, hread]
        rfl
    rw [hcore]
    exact .opened nvs₂ hw' ho hn.1 hn.2 (Prod.ext_iff.mp hr) (Prod.ext_iff.mp hf)

/-! ### Runs -/

/-- What an invariant of the core has to survive. -/
structure CorePreserved (B : Bcrypt Salt H) [DecidableEq H] (ok : Core H → UiInput H → Prop)
    (Inv : Core H → Prop) : Prop where
  pin : ∀ c c', PinStep B c c' → Inv c → Inv c'
  off : ∀ c, Inv c → Inv { c with powered := false }
  prompt : ∀ c, c.powered = true → ok c .prompt → Inv c → Inv c.prompt
  waitStart : ∀ c env, c.powered = true → ok c (.waitStart env) → Inv c → Inv c.waitStart
  result : ∀ c tick message, ok c (.result tick message) → Inv c → Inv c.result
  consume : ∀ c armed, c.asyncWait = true → c.armed = true → Inv c →
    Inv { c with auth := 0, armed := armed }
  finish : ∀ c ev armed, c.asyncWait = true → (ev = .pressed → 0 < c.auth) → Inv c →
    Inv (c.finish ev armed)
  boot : ∀ c env c', ok c (.boot env) → BootStep c env c' → Inv c → Inv c'

theorem CorePreserved.step [DecidableEq H] {B : Bcrypt Salt H} {ok : Core H → UiInput H → Prop}
    {Inv : Core H → Prop} (h : CorePreserved B ok Inv) (w : World H) (i : UiInput H)
    (hok : ok w.core i) (hw : Inv w.core) : Inv (uiStep B w i).core := by
  have htask (env : TaskEnv) : Inv (walletUiTask B env w).core :=
    StepSystem.reach_invariant h.pin (walletUiTask_refines B env w) hw
  cases i with
  | task env =>
    simp only [uiStep]
    split_ifs
    · exact hw
    · exact h.off _ (htask env)
    · exact htask env
  | command tick name =>
    simp only [uiStep]
    split_ifs
    · rwa [walletUiCommand_core]
    · exact hw
  | waitStart env =>
    simp only [uiStep]
    split_ifs with hp
    · exact h.waitStart _ env hp hok hw
    · exact hw
  | poll env =>
    simp only [uiStep]
    split_ifs
    · rcases buttonWaitPoll_cases env w with
        hc | ⟨ha, harmed, armed, hc⟩ | ⟨ha, ev, armed, hev, hc⟩
      · rwa [hc]
      · rw [hc]
        exact h.consume _ armed ha harmed hw
      · rw [hc]
        exact h.finish _ ev armed ha hev hw
    · exact hw
  | prompt =>
    simp only [uiStep]
    split_ifs with hp
    · exact h.prompt _ hp hok hw
    · exact hw
  | result tick message =>
    simp only [uiStep]
    split_ifs
    · exact h.result _ tick message hok hw
    · exact hw
  | hostCancel value =>
    simp only [uiStep]
    split_ifs <;> exact hw
  | powerOff => exact h.off _ hw
  | boot env => exact h.boot _ env _ hok (boot_core env w) hw

/-- The device before its first boot, with whatever NVS holds. -/
def deviceOff (image : NvsImage H) : World H := { nvs := { ram := image, flash := image } }

theorem CorePreserved.run [DecidableEq H] {B : Bcrypt Salt H} {ok : Core H → UiInput H → Prop}
    {Inv : Core H → Prop} (h : CorePreserved B ok Inv) (w : World H) (inputs : List (UiInput H))
    (hok : StepSystem.Along (uiStep B) (fun v i => ok v.core i) w inputs) (hw : Inv w.core) :
    Inv (StepSystem.run (uiStep B) w inputs).core :=
  StepSystem.run_invariant (P := fun v => Inv v.core) (fun v i hi hv => h.step v i hi hv)
    w inputs hok hw

/-! ### Concrete runs -/

/-- A bcrypt for concrete runs: the hash of a PIN is the PIN. -/
def plainBcrypt : Bcrypt Unit Octets where
  gensalt _ := some ()
  rn pin _ := some pin

/-- The digit under the cursor selected `n` times from tick `t` on, then Submit; `env` gives what
the passes read besides the ticks and the buttons. -/
def typeEntry (t n : Nat) (env : TaskEnv := {}) : List (UiInput Octets) :=
  (List.range n).flatMap (fun i =>
    [.task { env with now := UInt32.ofNat (t + 4 * i), levels := {} },
      .task { env with now := UInt32.ofNat (t + 4 * i + 2), levels := { gpio7 := false } }]) ++
    [.task { env with now := UInt32.ofNat (t + 4 * n), levels := {} },
      .task { env with now := UInt32.ofNat (t + 4 * n + 2), levels := { gpio6 := false } }]

end KeyWallet
