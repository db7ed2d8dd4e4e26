import KeyWallet.UiRuns
import KeyWallet.PinLockout

/-! The device reset on the chip: the sectors of the partition `part0` and the pages of the NVS
partition, which `wallet_ui_reset_on_boot` erases one after the other. -/
namespace KeyWallet

variable {Salt H : Type} [DecidableEq H]

/-- The sectors of `part0`, 1 MiB. -/
abbrev part0Sectors : Nat := 256

/-- The pages of the partition `nvs`, 24 KiB. -/
abbrev nvsPages : Nat := 6

/-- The page that each key of the namespace is on. NVS moves keys around as it likes. -/
structure NvsPlacement where
  bcrypt : Fin nvsPages := 0
  pinLock : Fin nvsPages := 0
  wipePending : Fin nvsPages := 0
  resetDone : Fin nvsPages := 0
  deviceId : Fin nvsPages := 0

/-- The keys on the pages from this one on. -/
def NvsImage.from (i : NvsImage H) (placement : NvsPlacement) (page : Nat) : NvsImage H where
  bcrypt := if page ≤ placement.bcrypt then i.bcrypt else none
  pinLock := if page ≤ placement.pinLock then i.pinLock else none
  wipePending := if page ≤ placement.wipePending then i.wipePending else none
  resetDone := if page ≤ placement.resetDone then i.resetDone else none
  deviceId := if page ≤ placement.deviceId then i.deviceId else none

/-- How many sectors of `part0` and then how many pages of NVS are erased before the power goes or
the erase fails. -/
structure WipeProgress where
  sectors : Nat := part0Sectors
  pages : Nat := nvsPages
  placement : NvsPlacement := {}

/-- The device with its data partition; `erased` says which sectors hold nothing. -/
structure Chip (H : Type) where
  world : World H
  erased : Fin part0Sectors → Bool

/-- `wallet_ui_reset_on_boot` once `wipe-pending` was read as 1. -/
def wipeOnBoot (env : BootEnv H) (progress : WipeProgress) (c : Chip H) : Chip H where
  world :=
    if progress.sectors < part0Sectors then boot { env with wipe.partErased := false } c.world
    else if progress.pages < nvsPages then
      let stopped := boot { env with wipe.nvsErased := false } c.world
      { stopped with
        nvs.ram := stopped.nvs.ram.from progress.placement progress.pages
        nvs.flash := stopped.nvs.flash.from progress.placement progress.pages }
    else boot { env with wipe.partErased := true, wipe.nvsErased := true } c.world
  erased := fun s => c.erased s || s.val < progress.sectors

/-- One thing that happens to the device, and what the flash does meanwhile: how far a wipe gets, and
which sectors the file system writes. -/
structure ChipInput (H : Type) where
  ui : UiInput H
  progress : WipeProgress := {}
  writes : Fin part0Sectors → Bool := fun _ => false

def chipStep (B : Bcrypt Salt H) (c : Chip H) (i : ChipInput H) : Chip H :=
  match i.ui with
  | .boot env =>
    if env.wipes then wipeOnBoot env i.progress c else { c with world := boot env c.world }
  | ui =>
    { world := uiStep B c.world ui
      erased := fun s => c.erased s && !(c.world.powered && i.writes s) }

def chipRun (B : Bcrypt Salt H) (c : Chip H) (is : List (ChipInput H)) : Chip H :=
  StepSystem.run (chipStep B) c is

/-- The read of `wipe-pending` at boot tells what NVS holds. -/
def ReadsPending (c : Chip H) (i : ChipInput H) : Prop :=
  match i.ui with
  | .boot env => env.wipes = decide ((c.world.nvs.reopen env.kept).ram.wipePending = some 1)
  | _ => True

instance (c : Chip H) : ∀ i : ChipInput H, Decidable (ReadsPending c i)
  | ⟨.boot env, _, _⟩ => inferInstanceAs (Decidable
      (env.wipes = decide ((c.world.nvs.reopen env.kept).ram.wipePending = some 1)))
  | ⟨.powerOff, _, _⟩ | ⟨.task _, _, _⟩ | ⟨.command _ _, _, _⟩ | ⟨.waitStart _, _, _⟩
  | ⟨.poll _, _, _⟩ | ⟨.prompt, _, _⟩ | ⟨.result _ _, _, _⟩ | ⟨.hostCancel _, _, _⟩ =>
    inferInstanceAs (Decidable True)

/-- A boot that goes past `wallet_ui_reset_on_boot` to normal operation. -/
def ChipInput.startsNormally (i : ChipInput H) : Bool :=
  match i.ui with
  | .boot env => !env.wipes
  | _ => false

/-- `wipe-pending` is 1, at least for now. -/
def Nvs.pending (nvs : Nvs H) : Prop :=
  nvs.ram.wipePending = some 1 ∨ nvs.flash.wipePending = some 1

/-- `wipe-pending` is 1 for good. -/
def Nvs.committed (nvs : Nvs H) : Prop :=
  nvs.ram.wipePending = some 1 ∧ nvs.flash.wipePending = some 1

instance (nvs : Nvs H) : Decidable nvs.pending := inferInstanceAs (Decidable (_ ∨ _))

instance (nvs : Nvs H) : Decidable nvs.committed := inferInstanceAs (Decidable (_ ∧ _))

/-! ### Where the flag is written -/

/-- YES is pressed on the reset screen of the settings. -/
def ResetConfirmed (c : Chip H) (i : ChipInput H) : Prop :=
  ∃ env, i.ui = .task env ∧ c.world.powered = true ∧ c.world.pad.mode = .idle ∧
    c.world.screen.settingsOpen = true ∧ c.world.screen.settingsResetConfirm = true ∧
    env.resetYes = false

/-- The four digits are being asked for, in the settings. -/
def Challenging (c : Chip H) : Prop :=
  c.world.powered = true ∧ c.world.pad.mode = .resetChallenge ∧ c.world.screen.settingsOpen = true

/-- What a pass that is due starts from. -/
def World.polled (env : TaskEnv) (w : World H) : World H := { w with screen.lastPoll := env.now }

/-- The entry at Submit is the four digits of the challenge. -/
def ChallengeMatched (c : Chip H) (i : ChipInput H) : Prop :=
  ∃ env, i.ui = .task env ∧ Challenging c ∧
    (padEdit env (c.world.polled env)).pad.entry.length = 4 ∧
    (padEdit env (c.world.polled env)).pad.entry.bytes.take 4 = c.world.pad.resetChallenge

/-- The current PIN is being asked for after the challenge, in the settings. -/
def Verifying (c : Chip H) : Prop :=
  c.world.powered = true ∧ c.world.pad.mode = .resetVerify ∧ c.world.screen.settingsOpen = true

/-- The step is a `pin_submit` with the current PIN, under an open lock gate. -/
def PinConfirmed (B : Bcrypt Salt H) (c : Chip H) (i : ChipInput H) : Prop :=
  ∃ env r, i.ui = .task env ∧ (chipStep B c i).world.trace = .submission r :: c.world.trace ∧
    r.mode = .resetVerify ∧ r.entry.length = 6 ∧ r.gate = .ready ∧ r.stored = c.world.pinHash ∧
    r.candidate = pinCalculate B r.entry r.stored ∧ r.candidate.isSome ∧ r.candidate = r.stored

/-- The steps before `pre` ends, one flow in the settings: the confirmation, the challenge until it
is matched, and from then on the question for the PIN. -/
def ResetFlow (B : Bcrypt Salt H) (c : Chip H) (pre : List (ChipInput H)) : Prop :=
  ∃ pre₀ i₀ mid₀ i₁ mid₁, pre = pre₀ ++ i₀ :: (mid₀ ++ i₁ :: mid₁) ∧
    ResetConfirmed (chipRun B c pre₀) i₀ ∧
    (∀ m, m <+: mid₀ → Challenging (chipRun B c (pre₀ ++ i₀ :: m))) ∧
    ChallengeMatched (chipRun B c (pre₀ ++ i₀ :: mid₀)) i₁ ∧
    ∀ m, m <+: mid₁ → Verifying (chipRun B c (pre₀ ++ i₀ :: (mid₀ ++ i₁ :: m)))

/-! ### One pass of the task -/

omit [DecidableEq H] in
theorem padEdit_core (env : TaskEnv) (w : World H) : ∃ m e f a,
    (padEdit env w).core = { w.core with mode := m, entry := e, first := f, auth := a } ∧
      (m = w.pad.mode ∨ m = .idle) := by
  obtain ⟨e, hselect, -⟩ := padSelect_core env w
  obtain ⟨e', hup, -⟩ := padBackUp_core env (padLongPress env (padBackDown env (padSelect env w)))
  have hdown : (padBackDown env (padSelect env w)).core = { w.core with entry := e } :=
    (padBackDown_core env _).trans hselect
  have hedit : (padEdit env w).core =
      { (padLongPress env (padBackDown env (padSelect env w))).core with entry := e' } := hup
  rw [hedit]
  rcases padLongPress_core env (padBackDown env (padSelect env w)) with h | ⟨-, h⟩ | ⟨-, h⟩ <;>
    rw [h, hdown]
  · exact ⟨w.pad.mode, e', w.pad.first, w.localAuthResult, rfl, .inl rfl⟩
  · exact ⟨.idle, e', zeroFirst, w.localAuthResult, rfl, .inr rfl⟩
  · exact ⟨w.pad.mode, e', zeroFirst, -1, rfl, .inl rfl⟩

omit [DecidableEq H] in
theorem padEdit_resetChallenge (env : TaskEnv) (w : World H) :
    (padEdit env w).pad.resetChallenge = w.pad.resetChallenge := by
  have hselect : (padSelect env w).pad.resetChallenge = w.pad.resetChallenge := by
    simp only [padSelect]
    split
    · split_ifs <;> rfl
    · rfl
  have hdown : ∀ v : World H, (padBackDown env v).pad.resetChallenge = v.pad.resetChallenge := by
    intro v
    simp only [padBackDown]
    split_ifs <;> rfl
  have hlong : ∀ v : World H, (padLongPress env v).pad.resetChallenge = v.pad.resetChallenge := by
    intro v
    simp only [padLongPress]
    split_ifs <;> rfl
  have hup : ∀ v : World H, (padBackUp env v).pad.resetChallenge = v.pad.resetChallenge := by
    intro v
    simp only [padBackUp]
    split_ifs <;> rfl
  rw [padEdit, hup, hlong, hdown, hselect]

/-- What one pass does to the reset flow and to NVS. -/
inductive Pass (B : Bcrypt Salt H) (env : TaskEnv) (w w' : World H) : Prop
  -- nothing that matters here, or a way out of the flow
  | quiet (hnvs : w'.nvs = w.nvs)
      (hmode : w'.pad.mode = w.pad.mode ∨ w'.pad.mode = .idle ∨ w'.pad.mode = .changeCurrent)
  | opened (hm : w.pad.mode = .idle) (hs : w.screen.settingsOpen = true)
      (hr : w.screen.settingsResetConfirm = true) (hyes : env.resetYes = false)
      (hnvs : w'.nvs = w.nvs) (hmode : w'.pad.mode = .resetChallenge)
  | matched (hm : w.pad.mode = .resetChallenge)
      (hlen : (padEdit env (w.polled env)).pad.entry.length = 4)
      (hdigits : (padEdit env (w.polled env)).pad.entry.bytes.take 4 = w.pad.resetChallenge)
      (hnvs : w'.nvs = w.nvs) (hmode : w'.pad.mode = .resetVerify)
  -- `pin_submit` with six digits, from the state that the edits left
  | submitted (c : Core H) (hm : c.mode = w.pad.mode) (hidle : c.mode ≠ .idle)
      (hnot : c.mode ≠ .resetChallenge) (hnvs : c.nvs = w.nvs) (htrace : c.trace = w.trace)
      (hhash : c.hash = w.pinHash) (hstep : PinStep B c w'.core)

theorem padTask_pass (B : Bcrypt Salt H) (env : TaskEnv) (w : World H) (hm : w.pad.mode ≠ .idle)
    {v : World H} (hv : v.core = w.core)
    (hpolled : w.pad.mode = .resetChallenge → v = w.polled env) :
    Pass B env w (padTask B env v) := by
  have hvm : v.pad.mode ≠ .idle := (congrArg Core.mode hv).trans_ne hm
  obtain ⟨m, e, f, a, hcore, hmode⟩ := padEdit_core env v
  rw [hv] at hcore
  have hvmode : v.pad.mode = w.pad.mode := congrArg Core.mode hv
  rw [hvmode] at hmode
  have hidle := (padEdit_refines B env v hvm).2
  have hnvs : (padEdit env v).nvs = w.nvs := congrArg Core.nvs hcore
  have hem : (padEdit env v).pad.mode = m := congrArg Core.mode hcore
  have hquiet : ∀ v' : World H, v'.nvs = w.nvs → v'.pad.mode = m → Pass B env w v' := by
    intro v' h1 h2
    refine .quiet h1 ?_
    rw [h2]
    exact hmode.imp_right .inl
  simp only [padTask]
  split_ifs
  · rcases pinSubmit_cases B env (padEdit env v) hidle with h | ⟨hc, h4, hd, h⟩ | ⟨-, h⟩ | ⟨hc, h6, h⟩
    · rw [h]
      exact hquiet _ hnvs hem
    · have hw : w.pad.mode = .resetChallenge := by
        rw [hem] at hc
        rcases hmode with hmode | hmode
        · exact hmode.symm.trans hc
        · rw [hmode] at hc
          cases hc
      have hpv := hpolled hw
      subst hpv
      rw [h]
      rw [padEdit_resetChallenge] at hd
      exact .matched hw h4 hd hnvs rfl
    · rw [h]
      exact hquiet _ hnvs hem
    · -- an idle pad has no entry, so the six digits are for the mode of the pass
      have hni : (padEdit env v).pad.mode ≠ .idle := by
        intro hi
        have h0 := hidle hi
        omega
      have hsame : (padEdit env v).pad.mode = w.pad.mode := by
        rw [hem] at hni ⊢
        exact hmode.resolve_right hni
      exact .submitted (padEdit env v).core hsame hni hc hnvs (congrArg Core.trace hcore)
        (congrArg Core.hash hcore) h
  · exact hquiet _ hnvs hem

omit [DecidableEq H] in
theorem menuTask_frame (pins prev : ButtonLevels) (w : World H) :
    (menuTask pins prev w).nvs = w.nvs ∧
      ((menuTask pins prev w).pad.mode = w.pad.mode ∨
        (menuTask pins prev w).pad.mode = .changeCurrent) := by
  rcases menuTask_step pins prev w with ⟨s, -, heq⟩ | ⟨-, heq⟩
  · rw [heq]
    exact ⟨rfl, .inl rfl⟩
  · rw [heq]
    exact ⟨rfl, .inr rfl⟩

omit [DecidableEq H] in
theorem idleMenus_frame (env : TaskEnv) (w : World H) :
    (idleMenus env w).nvs = w.nvs ∧
      ((idleMenus env w).pad.mode = w.pad.mode ∨
        (idleMenus env w).pad.mode = .changeCurrent) := by
  simp only [idleMenus]
  split
  · exact ⟨rfl, .inl rfl⟩
  · split_ifs
    · exact menuTask_frame _ _ _
    · exact ⟨rfl, .inl rfl⟩

omit [DecidableEq H] in
theorem takeCommand_settings (s : Screen) (h : s.takeCommand.settingsOpen = true) :
    s.takeCommand = s := by
  simp only [Screen.takeCommand] at h ⊢
  split_ifs at h ⊢
  · exact absurd h (by simp [Screen.closeMenus])
  · rfl

theorem idleTask_pass (B : Bcrypt Salt H) (env : TaskEnv) (w : World H)
    (hm : w.pad.mode = .idle) : Pass B env w (idleTask env (w.polled env)) := by
  have hquiet : ∀ v : World H, v.nvs = w.nvs → v.pad.mode = .idle → Pass B env w v :=
    fun v h1 h2 => .quiet h1 (.inr (.inl h2))
  simp only [idleTask]
  split_ifs with hsuccess hexpired hgo
  · exact hquiet _ rfl hm
  · exact hquiet _ rfl hm
  all_goals
    generalize hv : ({ w.polled env with
      screen := (w.polled env).screen.takeCommand } : World H) = v at hgo ⊢
    have hnvs : v.nvs = w.nvs := by rw [← hv]; rfl
    have hmode : v.pad.mode = .idle := by rw [← hv]; exact hm
  · -- the pass goes on to the menus
    rcases resetConfirmTask_cases env v with ⟨-, hcore⟩ | ⟨h, -⟩
    · have hn : (resetConfirmTask env v).2.nvs = w.nvs := (congrArg Core.nvs hcore).trans hnvs
      have hmd : (resetConfirmTask env v).2.pad.mode = .idle :=
        (congrArg Core.mode hcore).trans hmode
      obtain ⟨h1, h2⟩ := idleMenus_frame env (resetConfirmTask env v).2
      refine .quiet (h1.trans hn) (.inr ?_)
      rw [hmd] at h2
      exact h2
    · exact absurd (hgo.symm.trans h) (by decide)
  · rcases resetConfirmTask_cases env v with ⟨h, -⟩ | ⟨-, -, hs, hcore⟩
    · exact absurd h hgo
    · -- YES on the reset screen
      have hconfirm : v.screen.settingsResetConfirm = true ∧ env.resetYes = false := by
        simp only [resetConfirmTask] at hgo
        split_ifs at hgo with hc hy ha
        · exact absurd rfl hgo
        · simp only [Bool.and_eq_true] at hc
          exact ⟨hc.1.2, Bool.eq_false_of_not_eq_true hy⟩
        · exact absurd rfl hgo
        · exact absurd rfl hgo
      have hscreen : v.screen = (w.polled env).screen := by
        rw [← hv] at hs ⊢
        exact takeCommand_settings _ hs
      rw [hscreen] at hs hconfirm
      exact .opened hm hs hconfirm.1 hconfirm.2 ((congrArg Core.nvs hcore).trans hnvs)
        (congrArg Core.mode hcore)

theorem passTask_pass (B : Bcrypt Salt H) (env : TaskEnv) (w : World H) :
    Pass B env w (passTask B env (w.polled env)) := by
  have hpm : (w.polled env).pad.mode = w.pad.mode := rfl
  unfold passTask
  by_cases hverify : w.pad.mode.requiresVerification = true
  · have hm : w.pad.mode ≠ .idle := by
      rintro h
      rw [h] at hverify
      exact Bool.false_ne_true hverify
    have hnot : w.pad.mode ≠ .resetChallenge := by
      rintro h
      rw [h] at hverify
      exact Bool.false_ne_true hverify
    simp only [hpm, hverify, if_true]
    cases hl : (lockTask env (w.polled env)).1 with
    | false =>
      -- the lock screen ends the pass
      simp only [Bool.not_false, if_true]
      have hrefresh := lockRefresh_core env (w.polled env)
      have hnvs : (lockRefresh env (w.polled env)).nvs = w.nvs := congrArg Core.nvs hrefresh
      have hmode : (lockRefresh env (w.polled env)).pad.mode = w.pad.mode :=
        congrArg Core.mode hrefresh
      simp only [lockTask, lockScreen] at hl ⊢
      split_ifs at hl ⊢
      · exact .quiet hnvs (.inr (.inl rfl))
      · exact .quiet hnvs (.inr (.inl rfl))
      · exact .quiet hnvs (.inl hmode)
    | true =>
      have hcore := (lockTask_refines B env (w.polled env) hm).1 hl
      have hcore' : (lockTask env (w.polled env)).2.core = w.core := hcore
      have hmode : (lockTask env (w.polled env)).2.pad.mode ≠ .idle :=
        (congrArg Core.mode hcore').trans_ne hm
      simp only [Bool.not_true, Bool.false_eq_true, if_false, if_neg hmode]
      exact padTask_pass B env w hm hcore' fun h => absurd h hnot
  · simp only [hpm, hverify, Bool.false_eq_true, if_false, Bool.not_true]
    split_ifs with hm
    · exact idleTask_pass B env w hm
    · exact padTask_pass B env w hm rfl fun _ => rfl

theorem walletUiTask_pass (B : Bcrypt Salt H) (env : TaskEnv) (w : World H) :
    Pass B env w (walletUiTask B env w) := by
  simp only [walletUiTask]
  split_ifs
  · exact .quiet rfl (.inl rfl)
  · exact .quiet rfl (.inl rfl)
  · exact .quiet rfl (.inl rfl)
  · exact passTask_pass B env w

/-! ### What the steps do to the flag -/

omit [DecidableEq H] in
theorem store_pending {nvs nvs' : Nvs H} {set commit : NvsReply} {image : NvsImage H → NvsImage H}
    {done : Bool} (h : nvs.store set commit image = (done, nvs'))
    (himage : ∀ i, (image i).wipePending = i.wipePending) (hp : nvs'.pending) : nvs.pending := by
  have hnvs : (nvs.store set commit image).2 = nvs' := congrArg Prod.snd h
  have hflash : nvs'.flash.wipePending = nvs.ram.wipePending ∨
      nvs'.flash.wipePending = nvs.flash.wipePending := by
    rw [← hnvs]
    cases set with
    | ok => cases commit with
      | ok => simp [Nvs.store, Nvs.put, Nvs.commit, himage]
      | fail b => cases b <;> simp [Nvs.store, Nvs.put, Nvs.commit, himage]
    | fail b => cases b <;> simp [Nvs.store, Nvs.put]
  have hram := (store_frame nvs set commit image NvsImage.wipePending himage).1
  rw [hnvs] at hram
  rcases hp with hp | hp
  · exact .inl (hram.symm.trans hp)
  · rcases hflash with he | he
    · exact .inl (he.symm.trans hp)
    · exact .inr (he.symm.trans hp)

omit [DecidableEq H] in
theorem store_committed {nvs nvs' : Nvs H} {set commit : NvsReply}
    {image : NvsImage H → NvsImage H} {done : Bool}
    (h : nvs.store set commit image = (done, nvs'))
    (himage : ∀ i, i.wipePending = some 1 → (image i).wipePending = some 1)
    (hc : nvs.committed) : nvs'.committed := by
  have hnvs : (nvs.store set commit image).2 = nvs' := congrArg Prod.snd h
  obtain ⟨hram, hflash⟩ := hc
  rw [← hnvs]
  cases set with
  | ok => cases commit with
    | ok => exact ⟨himage _ hram, himage _ hram⟩
    | fail b =>
      cases b with
      | false => exact ⟨himage _ hram, hflash⟩
      | true => exact ⟨himage _ hram, himage _ hram⟩
  | fail b =>
    cases b with
    | false => exact ⟨hram, hflash⟩
    | true => exact ⟨himage _ hram, hflash⟩

theorem PinStep.pending {B : Bcrypt Salt H} {c c' : Core H} (h : PinStep B c c')
    (hp : c'.nvs.pending) : c.nvs.pending ∨
    (c.mode = .resetVerify ∧ ∃ r, Accepted B c r ∧ r.correct = true ∧
      c'.trace = .submission r :: c.trace) := by
  have hlock : ∀ {record done nvs}, LockWrite c record done nvs → nvs.pending → c.nvs.pending := by
    rintro record done nvs ⟨set, commit, he⟩ hn
    exact store_pending he (fun _ => rfl) hn
  have hhash : ∀ {hash done nvs}, HashWrite c hash done nvs → nvs.pending → c.nvs.pending := by
    rintro hash done nvs ⟨set, commit, he⟩ hn
    exact store_pending he (fun _ => rfl) hn
  have hfailed : ∀ {nvs}, StoreFailed c nvs → nvs.pending → c.nvs.pending := by
    rintro nvs (rfl | ⟨-, hash, hn⟩) hp
    · exact hp
    · exact hhash hn hp
  cases h with
  | retypeFailed nvs hm hn => exact .inl (hfailed hn hp)
  | changeFailed nvs hm hn => exact .inl (hfailed hn hp)
  | setupStored hash nvs hm hb ho hh hn => exact .inl (hhash hn hp)
  | retypeStored hash nvs hm hb ho h6 hf hh hn => exact .inl (hhash hn hp)
  | changeStored hash nvs hm ho hh hn => exact .inl (hhash hn hp)
  | notRecorded r nvs ha hpers ho hn => exact .inl (hlock hn hp)
  | wrong r nvs ha hc hpers ho hn => exact .inl (hlock hn hp)
  | authorized r nvs hm ha hc hpers ho hn => exact .inl (hlock hn hp)
  | currentAccepted r nvs hm ha hc hpers ho hn => exact .inl (hlock hn hp)
  | resetNotScheduled r nvs nvs' hm ha hc hpers ho hn hw => exact .inr ⟨hm, r, ha, hc, rfl⟩
  | resetScheduled r nvs nvs' hm ha hc hpers ho hn hw => exact .inr ⟨hm, r, ha, hc, rfl⟩
  | _ => exact .inl hp

theorem PinStep.committed {B : Bcrypt Salt H} {c c' : Core H} (h : PinStep B c c')
    (hc : c.nvs.committed) : c'.nvs.committed := by
  have hlock : ∀ {record done nvs}, LockWrite c record done nvs → nvs.committed := by
    rintro record done nvs ⟨set, commit, he⟩
    exact store_committed he (fun _ hi => hi) hc
  have hhash : ∀ {hash done nvs}, HashWrite c hash done nvs → nvs.committed := by
    rintro hash done nvs ⟨set, commit, he⟩
    exact store_committed he (fun _ hi => hi) hc
  have hfailed : ∀ {nvs}, StoreFailed c nvs → nvs.committed := by
    rintro nvs (rfl | ⟨-, hash, hn⟩)
    · exact hc
    · exact hhash hn
  have hwipe : ∀ {nvs done nvs'}, nvs.committed → WipeWrite { c with nvs := nvs } done nvs' →
      nvs'.committed := by
    rintro nvs done nvs' hn ⟨set, commit, he⟩
    exact store_committed he (fun _ _ => rfl) hn
  cases h with
  | retypeFailed nvs hm hn => exact hfailed hn
  | changeFailed nvs hm hn => exact hfailed hn
  | setupStored hash nvs hm hb ho hh hn => exact hhash hn
  | retypeStored hash nvs hm hb ho h6 hf hh hn => exact hhash hn
  | changeStored hash nvs hm ho hh hn => exact hhash hn
  | notRecorded r nvs ha hpers ho hn => exact hlock hn
  | wrong r nvs ha hr hpers ho hn => exact hlock hn
  | authorized r nvs hm ha hr hpers ho hn => exact hlock hn
  | currentAccepted r nvs hm ha hr hpers ho hn => exact hlock hn
  | resetNotScheduled r nvs nvs' hm ha hr hpers ho hn hw => exact hwipe (hlock hn) hw
  | resetScheduled r nvs nvs' hm ha hr hpers ho hn hw => exact hwipe (hlock hn) hw
  | _ => exact hc

omit [DecidableEq H] in
theorem reopen_pending {nvs : Nvs H} {kept : NvsKept} (h : (nvs.reopen kept).pending) :
    nvs.pending := by
  have himage : (nvs.reopen kept).ram.wipePending =
      if kept.wipePending then nvs.ram.wipePending else nvs.flash.wipePending := rfl
  have hboth : (nvs.reopen kept).ram.wipePending = some 1 := h.elim id id
  rw [himage] at hboth
  split_ifs at hboth
  · exact .inl hboth
  · exact .inr hboth

omit [DecidableEq H] in
theorem reopen_committed {nvs : Nvs H} (kept : NvsKept) (h : nvs.committed) :
    (nvs.reopen kept).committed := by
  have himage : (nvs.reopen kept).ram.wipePending = some 1 := by
    show (if kept.wipePending then nvs.ram.wipePending else nvs.flash.wipePending) = some 1
    split_ifs
    · exact h.1
    · exact h.2
  exact ⟨himage, himage⟩

omit [DecidableEq H] in
theorem walletUiInit_wipePending (env : BootEnv H) (w : World H)
    (hsync : w.nvs.ram.wipePending = w.nvs.flash.wipePending) :
    (walletUiInit env w).nvs.ram.wipePending = w.nvs.ram.wipePending ∧
      (walletUiInit env w).nvs.flash.wipePending = w.nvs.flash.wipePending := by
  have hdone : ∀ v : World H, v.nvs.ram.wipePending = v.nvs.flash.wipePending →
      (initResetDone env v).nvs.ram.wipePending = v.nvs.ram.wipePending ∧
        (initResetDone env v).nvs.flash.wipePending = v.nvs.flash.wipePending := by
    intro v hv
    unfold initResetDone
    split_ifs
    · obtain ⟨h1, h2⟩ := store_frame v.nvs env.doneErase env.doneCommit
        (fun i => { i with resetDone := none }) NvsImage.wipePending fun _ => rfl
      exact ⟨h1, h2 hv⟩
    · exact ⟨rfl, rfl⟩
  have hid : ∀ v : World H, v.nvs.ram.wipePending = v.nvs.flash.wipePending →
      (initDeviceId env v).nvs.ram.wipePending = v.nvs.ram.wipePending ∧
        (initDeviceId env v).nvs.flash.wipePending = v.nvs.flash.wipePending := by
    intro v hv
    have hdraw : (drawDeviceId env v).nvs.ram.wipePending = v.nvs.ram.wipePending ∧
        (drawDeviceId env v).nvs.flash.wipePending = v.nvs.flash.wipePending := by
      obtain ⟨h1, h2⟩ := store_frame v.nvs env.idSet env.idCommit
        (fun i => { i with deviceId := some (if env.random32 = 0 then 1 else env.random32) })
        NvsImage.wipePending fun _ => rfl
      exact ⟨h1, h2 hv⟩
    unfold initDeviceId
    split
    · split_ifs
      · exact hdraw
      · exact ⟨rfl, rfl⟩
    · exact hdraw
  have hsetup : ∀ v : World H, (initSetup v).nvs = v.nvs := by
    intro v
    unfold initSetup
    split_ifs <;> rfl
  unfold walletUiInit
  split_ifs
  · exact ⟨rfl, rfl⟩
  · rw [hsetup]
    unfold initNvs
    split_ifs
    · exact ⟨rfl, rfl⟩
    · obtain ⟨h1, h2⟩ := hdone { w with rtcPresent := env.rtc, pinStoreOpen := true } hsync
      obtain ⟨h3, h4⟩ := hid
        { initResetDone env { w with rtcPresent := env.rtc, pinStoreOpen := true } with
          pinHash := env.hashRead.hash, lock := initLock env.lockRead } (by
        rw [h1, h2]
        exact hsync)
      exact ⟨h3.trans h1, h4.trans h2⟩

theorem boot_wipePending {env : BootEnv H} (h : env.wipes = false) (w : World H) :
    (boot env w).nvs.ram.wipePending = (w.nvs.reopen env.kept).ram.wipePending ∧
      (boot env w).nvs.flash.wipePending = (w.nvs.reopen env.kept).flash.wipePending := by
  simp only [boot, h, Bool.false_eq_true, if_false]
  exact walletUiInit_wipePending env _ rfl

theorem boot_wiped (env : BootEnv H) (h : env.wipes = true) (hpart : env.wipe.partErased = true)
    (hnvs : env.wipe.nvsErased = true) (w : World H) :
    ¬ (boot env w).nvs.pending ∧ (boot env w).nvs.ram.pinKeys = (none, none) ∧
      (boot env w).nvs.flash.pinKeys = (none, none) := by
  have hstore : ∀ {α : Type} (key : NvsImage H → α), (∀ i, key { i with resetDone := some 1 } = key i) →
      key (boot env w).nvs.ram = key {} ∧ key (boot env w).nvs.flash = key {} := by
    intro α key himage
    simp only [boot, h, if_true, wipeDevice, hpart, hnvs, Bool.not_true, Bool.or_self,
      Bool.false_eq_true, if_false]
    split_ifs
    · exact ⟨rfl, rfl⟩
    · obtain ⟨h1, h2⟩ := store_frame ({} : Nvs H) env.wipe.doneSet env.wipe.doneCommit
        (fun i => { i with resetDone := some 1 }) key himage
      exact ⟨h1, h2 rfl⟩
  obtain ⟨h1, h2⟩ := hstore NvsImage.wipePending fun _ => rfl
  obtain ⟨h3, h4⟩ := hstore NvsImage.pinKeys fun _ => rfl
  refine ⟨?_, h3, h4⟩
  rintro (hp | hp)
  · rw [h1] at hp
    cases hp
  · rw [h2] at hp
    cases hp

theorem boot_unwiped (env : BootEnv H) (h : env.wipes = true)
    (hpart : env.wipe.partErased = false ∨ env.wipe.nvsErased = false) (w : World H) :
    boot env w = { nvs := w.nvs.reopen env.kept, trace := .boot env.hashNotFound :: w.trace } := by
  have hstop : (!env.wipe.partErased || !env.wipe.nvsErased) = true := by
    rcases hpart with hpart | hpart <;> simp [hpart]
  simp only [boot, h, if_true, wipeDevice, hstop]

theorem wipeOnBoot_cases {env : BootEnv H} (h : env.wipes = true) (g : WipeProgress) (c : Chip H) :
    (wipeOnBoot env g c).world.powered = false ∧
    ((wipeOnBoot env g c).world.nvs = c.world.nvs.reopen env.kept ∨
      (∀ s, (wipeOnBoot env g c).erased s = true) ∧
      ((g.pages < nvsPages ∧
        (wipeOnBoot env g c).world.nvs.ram =
          (c.world.nvs.reopen env.kept).ram.from g.placement g.pages ∧
        (wipeOnBoot env g c).world.nvs.flash =
          (c.world.nvs.reopen env.kept).flash.from g.placement g.pages) ∨
       (¬ (wipeOnBoot env g c).world.nvs.pending ∧
        (wipeOnBoot env g c).world.nvs.ram.pinKeys = (none, none) ∧
        (wipeOnBoot env g c).world.nvs.flash.pinKeys = (none, none)))) := by
  by_cases hs : g.sectors < part0Sectors
  · have hw : (wipeOnBoot env g c).world = boot { env with wipe.partErased := false } c.world :=
      if_pos hs
    rw [hw, boot_unwiped { env with wipe.partErased := false } h (.inl rfl)]
    exact ⟨rfl, .inl rfl⟩
  · have herased : ∀ s, (wipeOnBoot env g c).erased s = true := by
      intro s
      have hlt : s.val < g.sectors := Nat.lt_of_lt_of_le s.isLt (Nat.le_of_not_lt hs)
      simp [wipeOnBoot, hlt]
    by_cases hp : g.pages < nvsPages
    · have hw : (wipeOnBoot env g c).world =
          { boot { env with wipe.nvsErased := false } c.world with
            nvs.ram := (boot { env with wipe.nvsErased := false } c.world).nvs.ram.from
              g.placement g.pages
            nvs.flash := (boot { env with wipe.nvsErased := false } c.world).nvs.flash.from
              g.placement g.pages } := (if_neg hs).trans (if_pos hp)
      rw [hw, boot_unwiped { env with wipe.nvsErased := false } h (.inr rfl)]
      exact ⟨rfl, .inr ⟨herased, .inl ⟨hp, rfl, rfl⟩⟩⟩
    · have hw : (wipeOnBoot env g c).world =
          boot { env with wipe.partErased := true, wipe.nvsErased := true } c.world :=
        (if_neg hs).trans (if_neg hp)
      have hpower : (boot { env with wipe.partErased := true, wipe.nvsErased := true }
          c.world).powered = false := by
        have hwipes : BootEnv.wipes { env with wipe.partErased := true, wipe.nvsErased := true } =
            true := h
        simp only [boot, hwipes, if_true, wipeDevice, Bool.not_true, Bool.or_self,
          Bool.false_eq_true, if_false]
        split_ifs <;> rfl
      refine ⟨?_, .inr ⟨herased, .inr ?_⟩⟩
      · rw [hw]
        exact hpower
      · rw [hw]
        exact boot_wiped { env with wipe.partErased := true, wipe.nvsErased := true } h rfl
          rfl c.world

omit [DecidableEq H] in
theorem from_pending {i : NvsImage H} {placement : NvsPlacement} {page : Nat}
    (h : (i.from placement page).wipePending = some 1) : i.wipePending = some 1 := by
  simp only [NvsImage.from] at h
  split_ifs at h
  exact h

theorem chipStep_pending {B : Bcrypt Salt H} {c : Chip H} {i : ChipInput H}
    (hp : ¬ c.world.nvs.pending) (hp' : (chipStep B c i).world.nvs.pending) :
    c.world.powered = true ∧ c.world.pad.mode = .resetVerify ∧ PinConfirmed B c i := by
  unfold chipStep at hp'
  split at hp'
  · next env hi =>
    refine absurd ?_ hp
    split_ifs at hp' with hw
    · obtain ⟨-, hn | ⟨-, ⟨-, hr, hf⟩ | ⟨hn, -⟩⟩⟩ := wipeOnBoot_cases hw i.progress c
      · rw [hn] at hp'
        exact reopen_pending hp'
      · rcases hp' with hp' | hp'
        · rw [hr] at hp'
          exact reopen_pending (.inl (from_pending hp'))
        · rw [hf] at hp'
          exact reopen_pending (.inr (from_pending hp'))
      · exact absurd hp' hn
    · obtain ⟨hr, hf⟩ := boot_wipePending (Bool.eq_false_of_not_eq_true hw) c.world
      rcases hp' with hp' | hp'
      · exact reopen_pending (.inl (hr.symm.trans hp'))
      · exact reopen_pending (.inr (hf.symm.trans hp'))
  · next hboot =>
    cases hi : i.ui with
    | boot env => exact absurd hi (hboot env)
    | task env =>
      rw [hi] at hp'
      have hpowered : c.world.powered = true := by
        by_contra hoff
        simp only [uiStep, Bool.eq_false_of_not_eq_true hoff, Bool.not_false, if_true] at hp'
        exact hp hp'
      have hnvs : (uiStep B c.world (.task env)).nvs = (walletUiTask B env c.world).nvs := by
        simp only [uiStep, hpowered, Bool.not_true, Bool.false_eq_true, if_false]
        split_ifs <;> rfl
      have htrace : (chipStep B c i).world.trace = (walletUiTask B env c.world).trace := by
        simp only [chipStep, hi, uiStep, hpowered, Bool.not_true, Bool.false_eq_true, if_false]
        split_ifs <;> rfl
      have hpt : (walletUiTask B env c.world).nvs.pending := hnvs ▸ hp'
      cases walletUiTask_pass B env c.world with
      | quiet hn => exact absurd (hn ▸ hpt) hp
      | opened _ _ _ _ hn => exact absurd (hn ▸ hpt) hp
      | matched _ _ _ hn => exact absurd (hn ▸ hpt) hp
      | submitted d hm hidle hnot hn ht hh hstep =>
        rcases hstep.pending hpt with hpd | ⟨hmode, r, hacc, hcorrect, htr⟩
        · exact absurd (hn ▸ hpd) hp
        · have hwm : c.world.pad.mode = .resetVerify := hm.symm.trans hmode
          refine ⟨hpowered, hwm, env, r, hi, ?_, hacc.mode.trans hmode, ?_, hacc.gate,
            hacc.stored.trans hh, ?_, ?_⟩
          · rw [htrace, ← ht]
            exact htr
          · rw [hacc.entry]
            exact hacc.six
          · rw [hacc.entry, hacc.stored]
            exact hacc.candidate
          · have hc := hacc.correct.symm.trans hcorrect
            rw [hacc.stored]
            exact of_decide_eq_true hc
    | poll env =>
      rw [hi] at hp'
      simp only [uiStep] at hp'
      split_ifs at hp'
      · rcases buttonWaitPoll_cases env c.world with hc | ⟨-, -, armed, hc⟩ | ⟨-, ev, armed, -, hc⟩
        all_goals
          have hn : (buttonWaitPoll env c.world).nvs = c.world.nvs := congrArg Core.nvs hc
          exact absurd (hn ▸ hp') hp
      · exact absurd hp' hp
    | command tick name =>
      rw [hi] at hp'
      simp only [uiStep] at hp'
      split_ifs at hp'
      · have hn : (walletUiCommand tick name c.world).nvs = c.world.nvs :=
          congrArg Core.nvs (walletUiCommand_core tick name c.world)
        exact absurd (hn ▸ hp') hp
      · exact absurd hp' hp
    | waitStart env =>
      rw [hi] at hp'
      simp only [uiStep] at hp'
      split_ifs at hp' <;> exact absurd hp' hp
    | prompt =>
      rw [hi] at hp'
      simp only [uiStep] at hp'
      split_ifs at hp' <;> exact absurd hp' hp
    | result tick message =>
      rw [hi] at hp'
      simp only [uiStep] at hp'
      split_ifs at hp' <;> exact absurd hp' hp
    | hostCancel value =>
      rw [hi] at hp'
      simp only [uiStep] at hp'
      split_ifs at hp' <;> exact absurd hp' hp
    | powerOff =>
      rw [hi] at hp'
      exact absurd hp' hp

/-! ### The flow in the settings -/

/-- The modes of the reset flow are within the settings. -/
def FlowOpen (c : Core H) : Prop :=
  c.mode = .resetChallenge ∨ c.mode = .resetVerify → c.settingsOpen = true

theorem PinStep.flowOpen {B : Bcrypt Salt H} {c c' : Core H} (h : PinStep B c c')
    (hc : FlowOpen c) : FlowOpen c' := by
  cases h with
  | cancel m f hm hs hf =>
    rcases hf with ⟨rfl, -⟩ | ⟨rfl, -⟩
    · exact hc
    · rintro (h | h) <;> cases h
  | menus b hm hw =>
    rintro (h | h)
    all_goals
      have hi : c.mode = .idle := hm
      exact absurd (hi.symm.trans h) (by decide)
  | openReset hm hw hs => exact fun _ => hs
  | challenge hm => exact fun _ => hc (.inl hm)
  | edit e hm he => exact hc
  | gateClosed r hg hp ho => exact hc
  | hashError r ha hn hp ho => exact hc
  | notRecorded r nvs ha hp ho hn => exact hc
  | wrong r nvs ha hr hp ho hn => exact hc
  | resetNotScheduled r nvs nvs' hm ha hr hp ho hn hw => exact hc
  | retypeFailed nvs hm hn => exact hc
  | _ => rintro (h | h) <;> cases h

theorem flowOpen_preserved (B : Bcrypt Salt H) :
    CorePreserved B (fun _ _ => True) (FlowOpen (H := H)) where
  pin := fun _ _ h hc => h.flowOpen hc
  off := fun _ hc => hc
  prompt := by
    intro c _ _ _ h
    simp only [Core.prompt] at h
    split_ifs at h <;> rcases h with h | h <;> cases h
  waitStart := by
    intro c env _ _ _ h
    simp only [Core.waitStart, Core.prompt] at h
    split_ifs at h <;> rcases h with h | h <;> cases h
  result := by
    rintro c tick message _ _ (h | h) <;> cases h
  consume := fun _ _ _ _ hc => hc
  finish := by
    rintro c ev armed _ _ _ (h | h) <;> cases h
  boot := by
    intro c env c' _ hboot _
    cases hboot with
    | opened nvs hw ho hi hn hr hf =>
      intro h
      simp only [Core.opened] at h
      split_ifs at h <;> rcases h with h | h <;> cases h
    | _ => rintro (h | h) <;> cases h

theorem boot_mode (env : BootEnv H) (w : World H) :
    (boot env w).pad.mode ≠ .resetChallenge ∧ (boot env w).pad.mode ≠ .resetVerify := by
  have hboot := boot_core env w
  have hmode : (boot env w).core.mode ≠ .resetChallenge ∧
      (boot env w).core.mode ≠ .resetVerify := by
    generalize (boot env w).core = c at hboot
    cases hboot with
    | opened nvs hw ho hi hn hr hf =>
      simp only [Core.opened]
      split_ifs <;> decide
    | _ =>
      constructor
      all_goals
        intro h
        cases h
  exact hmode

theorem wipeOnBoot_mode (env : BootEnv H) (g : WipeProgress) (c : Chip H) :
    (wipeOnBoot env g c).world.pad.mode ≠ .resetChallenge ∧
      (wipeOnBoot env g c).world.pad.mode ≠ .resetVerify := by
  simp only [wipeOnBoot]
  split_ifs <;> exact boot_mode _ _

theorem chipStep_flowOpen {B : Bcrypt Salt H} {c : Chip H} (i : ChipInput H)
    (h : FlowOpen c.world.core) : FlowOpen (chipStep B c i).world.core := by
  have hmodes : ∀ w : World H, w.pad.mode ≠ .resetChallenge ∧ w.pad.mode ≠ .resetVerify →
      FlowOpen w.core := by
    rintro w ⟨h1, h2⟩ (h | h)
    · exact absurd h h1
    · exact absurd h h2
  unfold chipStep
  split
  · split_ifs
    · exact hmodes _ (wipeOnBoot_mode _ _ _)
    · exact hmodes _ (boot_mode _ _)
  · exact (flowOpen_preserved B).step c.world i.ui trivial h

omit [DecidableEq H] in
theorem prompt_mode (w : World H) : (walletUiPrompt w).pad.mode ≠ .resetChallenge ∧
    (walletUiPrompt w).pad.mode ≠ .resetVerify := by
  have hmode : (walletUiPrompt w).pad.mode = if w.pinHash.isSome then .verify else .create := rfl
  rw [hmode]
  split_ifs <;> decide

theorem chipStep_other {B : Bcrypt Salt H} {c : Chip H} {i : ChipInput H}
    (htask : ∀ env, i.ui ≠ .task env) (hpowered : (chipStep B c i).world.powered = true) :
    ((chipStep B c i).world.pad.mode ≠ .resetChallenge ∧
      (chipStep B c i).world.pad.mode ≠ .resetVerify) ∨
    ((chipStep B c i).world.pad.mode = c.world.pad.mode ∧
      (chipStep B c i).world.screen.settingsOpen = c.world.screen.settingsOpen ∧
      c.world.powered = true) := by
  unfold chipStep at hpowered ⊢
  split at hpowered
  · split_ifs
    · exact .inl (wipeOnBoot_mode _ _ _)
    · exact .inl (boot_mode _ _)
  · next hboot =>
    have hsame : ∀ w : World H, w.core.mode = c.world.core.mode →
        w.core.settingsOpen = c.world.core.settingsOpen → c.world.powered = true →
        ((w.pad.mode ≠ .resetChallenge ∧ w.pad.mode ≠ .resetVerify) ∨
          (w.pad.mode = c.world.pad.mode ∧
            w.screen.settingsOpen = c.world.screen.settingsOpen ∧ c.world.powered = true)) :=
      fun w h1 h2 h3 => .inr ⟨h1, h2, h3⟩
    cases hi : i.ui with
    | boot env => exact absurd hi (hboot env)
    | task env => exact absurd hi (htask env)
    | powerOff =>
      rw [hi] at hpowered
      exact absurd hpowered (by simp [uiStep])
    | poll env =>
      rw [hi] at hpowered
      simp only [uiStep] at hpowered ⊢
      split_ifs at hpowered ⊢ with hon
      · rcases buttonWaitPoll_cases env c.world with hc | ⟨-, -, armed, hc⟩ | ⟨-, ev, armed, -, hc⟩
        · exact hsame _ (congrArg Core.mode hc) (congrArg Core.settingsOpen hc) hon
        · exact hsame _ (by rw [hc]) (by rw [hc]) hon
        · have hmode : (buttonWaitPoll env c.world).pad.mode = .idle := congrArg Core.mode hc
          rw [hmode]
          exact .inl ⟨by decide, by decide⟩
      · exact absurd hpowered hon
    | command tick name =>
      rw [hi] at hpowered
      simp only [uiStep] at hpowered ⊢
      split_ifs at hpowered ⊢ with hon
      · have hc := walletUiCommand_core tick name c.world
        exact hsame _ (congrArg Core.mode hc) (congrArg Core.settingsOpen hc) hon
      · exact absurd hpowered hon
    | waitStart env =>
      rw [hi] at hpowered
      simp only [uiStep] at hpowered ⊢
      split_ifs at hpowered ⊢ with hon
      · exact .inl (prompt_mode (c.world.emit .waitStart))
      · exact absurd hpowered hon
    | prompt =>
      rw [hi] at hpowered
      simp only [uiStep] at hpowered ⊢
      split_ifs at hpowered ⊢ with hon
      · exact .inl (prompt_mode c.world)
      · exact absurd hpowered hon
    | result tick message =>
      rw [hi] at hpowered
      simp only [uiStep] at hpowered ⊢
      split_ifs at hpowered ⊢ with hon
      · left
        simp only [walletUiResult]
        exact ⟨by decide, by decide⟩
      · exact absurd hpowered hon
    | hostCancel value =>
      rw [hi] at hpowered
      simp only [uiStep] at hpowered ⊢
      split_ifs at hpowered ⊢ with hon
      · exact hsame _ rfl rfl hon
      · exact absurd hpowered hon

theorem PinStep.mode_of_verify {B : Bcrypt Salt H} {c c' : Core H} (h : PinStep B c c')
    (hnot : c.mode ≠ .resetChallenge) (hv : c'.mode = .resetVerify) : c.mode = .resetVerify := by
  cases h with
  | cancel m f hm hs hf =>
    rcases hf with ⟨rfl, -⟩ | ⟨rfl, -⟩
    · exact hv
    · cases hv
  | challenge hm => exact absurd hm hnot
  | edit e hm he => exact hv
  | menus b hm hw => exact hv
  | gateClosed r hg hp ho => exact hv
  | hashError r ha hn hp ho => exact hv
  | notRecorded r nvs ha hp ho hn => exact hv
  | wrong r nvs ha hr hp ho hn => exact hv
  | resetNotScheduled r nvs nvs' hm ha hr hp ho hn hw => exact hm
  | retypeFailed nvs hm hn => exact hv
  | _ => cases hv

theorem PinStep.mode_ne_challenge {B : Bcrypt Salt H} {c c' : Core H} (h : PinStep B c c')
    (hidle : c.mode ≠ .idle) (hnot : c.mode ≠ .resetChallenge) : c'.mode ≠ .resetChallenge := by
  intro hv
  cases h with
  | cancel m f hm hs hf =>
    rcases hf with ⟨rfl, -⟩ | ⟨rfl, -⟩
    · exact hnot hv
    · cases hv
  | openReset hm hw hs => exact hidle hm
  | edit e hm he => exact hnot hv
  | menus b hm hw => exact hnot hv
  | gateClosed r hg hp ho => exact hnot hv
  | hashError r ha hn hp ho => exact hnot hv
  | notRecorded r nvs ha hp ho hn => exact hnot hv
  | wrong r nvs ha hr hp ho hn => exact hnot hv
  | resetNotScheduled r nvs nvs' hm ha hr hp ho hn hw => exact hnot hv
  | retypeFailed nvs hm hn => exact hnot hv
  | _ => cases hv

theorem chipStep_task {B : Bcrypt Salt H} {c : Chip H} {i : ChipInput H} {env : TaskEnv}
    (hi : i.ui = .task env) (hpowered : (chipStep B c i).world.powered = true) :
    c.world.powered = true ∧ (chipStep B c i).world = walletUiTask B env c.world := by
  simp only [chipStep, hi, uiStep] at hpowered ⊢
  split_ifs at hpowered ⊢ with hoff hcut
  · rw [Bool.not_eq_true'] at hoff
    exact absurd hpowered (hoff ▸ Bool.false_ne_true)
  · rw [Bool.not_eq_true', Bool.not_eq_false] at hoff
    exact ⟨hoff, rfl⟩

theorem verifying_entered {B : Bcrypt Salt H} {c : Chip H} {i : ChipInput H}
    (hopen : FlowOpen c.world.core) (hnot : ¬ Verifying c) (h : Verifying (chipStep B c i)) :
    ChallengeMatched c i := by
  obtain ⟨hon, hmode, hs⟩ := h
  by_cases htask : ∃ env, i.ui = .task env
  · obtain ⟨env, hi⟩ := htask
    obtain ⟨hwas, hw⟩ := chipStep_task hi hon
    rw [hw] at hmode
    -- the mode cannot have been the question already
    have hstart : c.world.pad.mode ≠ .resetVerify := fun hm => hnot ⟨hwas, hm, hopen (.inr hm)⟩
    cases walletUiTask_pass B env c.world with
    | quiet hn hm =>
      rcases hm with hm | hm | hm
      · exact absurd (hm.symm.trans hmode) hstart
      · rw [hm] at hmode
        cases hmode
      · rw [hm] at hmode
        cases hmode
    | opened _ _ _ _ _ hm =>
      rw [hm] at hmode
      cases hmode
    | matched hm hlen hdigits => exact ⟨env, hi, ⟨hwas, hm, hopen (.inl hm)⟩, hlen, hdigits⟩
    | submitted d hm hidle hne hn ht hh hstep =>
      exact absurd (hm.symm.trans (hstep.mode_of_verify hne hmode)) hstart
  · rcases chipStep_other (fun env hi => htask ⟨env, hi⟩) hon with ⟨-, hne⟩ | ⟨hm, hset, hwas⟩
    · exact absurd hmode hne
    · exact absurd ⟨hwas, hm.symm.trans hmode, hset.symm.trans hs⟩ hnot

theorem challenging_entered {B : Bcrypt Salt H} {c : Chip H} {i : ChipInput H}
    (hopen : FlowOpen c.world.core) (hnot : ¬ Challenging c) (h : Challenging (chipStep B c i)) :
    ResetConfirmed c i := by
  obtain ⟨hon, hmode, hs⟩ := h
  by_cases htask : ∃ env, i.ui = .task env
  · obtain ⟨env, hi⟩ := htask
    obtain ⟨hwas, hw⟩ := chipStep_task hi hon
    rw [hw] at hmode
    have hstart : c.world.pad.mode ≠ .resetChallenge :=
      fun hm => hnot ⟨hwas, hm, hopen (.inl hm)⟩
    cases walletUiTask_pass B env c.world with
    | quiet hn hm =>
      rcases hm with hm | hm | hm
      · exact absurd (hm.symm.trans hmode) hstart
      · rw [hm] at hmode
        cases hmode
      · rw [hm] at hmode
        cases hmode
    | opened hm hset hr hyes => exact ⟨env, hi, hwas, hm, hset, hr, hyes⟩
    | matched _ _ _ _ hm =>
      rw [hm] at hmode
      cases hmode
    | submitted d hm hidle hne hn ht hh hstep =>
      exact absurd hmode (hstep.mode_ne_challenge hidle hne)
  · rcases chipStep_other (fun env hi => htask ⟨env, hi⟩) hon with ⟨hne, -⟩ | ⟨hm, hset, hwas⟩
    · exact absurd hmode hne
    · exact absurd ⟨hwas, hm.symm.trans hmode, hset.symm.trans hs⟩ hnot

theorem chipRun_flowOpen {B : Bcrypt Salt H} {c : Chip H} (is : List (ChipInput H))
    (h : FlowOpen c.world.core) : FlowOpen (chipRun B c is).world.core :=
  StepSystem.run_invariant (P := fun c : Chip H => FlowOpen c.world.core)
    (fun _ i _ hc => chipStep_flowOpen i hc) c is (StepSystem.along_true (chipStep B) c is) h

theorem resetFlow_of_verifying {B : Bcrypt Salt H} {c : Chip H} (hoff : c.world.powered = false)
    (hopen : FlowOpen c.world.core) {pre : List (ChipInput H)}
    (h : Verifying (chipRun B c pre)) : ResetFlow B c pre := by
  obtain ⟨pre₁, i₁, mid₁, rfl, hnot₁, hmid₁⟩ := StepSystem.exists_entry (chipStep B) Verifying c pre
    (fun hv => Bool.false_ne_true (hoff.symm.trans hv.1)) h
  have hfirst : Verifying (chipStep B (chipRun B c pre₁) i₁) := by
    have h0 := hmid₁ [] List.nil_prefix
    rwa [StepSystem.run_append] at h0
  have hmatched := verifying_entered (chipRun_flowOpen pre₁ hopen) hnot₁ hfirst
  have hchallenging : Challenging (chipRun B c pre₁) := hmatched.choose_spec.2.1
  obtain ⟨pre₀, i₀, mid₀, rfl, hnot₀, hmid₀⟩ := StepSystem.exists_entry (chipStep B) Challenging c
    pre₁ (fun hv => Bool.false_ne_true (hoff.symm.trans hv.1)) hchallenging
  have hstart : Challenging (chipStep B (chipRun B c pre₀) i₀) := by
    have h0 := hmid₀ [] List.nil_prefix
    rwa [StepSystem.run_append] at h0
  have hconfirmed := challenging_entered (chipRun_flowOpen pre₀ hopen) hnot₀ hstart
  refine ⟨pre₀, i₀, mid₀, i₁, mid₁, by simp, hconfirmed, hmid₀, hmatched, ?_⟩
  intro m hm
  have hv := hmid₁ m hm
  rwa [List.append_assoc, List.cons_append] at hv

/-! ### Until the wipe is done -/

theorem committed_preserved (B : Bcrypt Salt H) :
    CorePreserved B (fun _ i => ∀ env, i ≠ .boot env) (fun c => c.nvs.committed) where
  pin := fun _ _ h hc => h.committed hc
  off := fun _ hc => hc
  prompt := fun _ _ _ hc => hc
  waitStart := fun _ _ _ _ hc => hc
  result := fun _ _ _ _ hc => hc
  consume := fun _ _ _ _ hc => hc
  finish := fun _ _ _ _ _ hc => hc
  boot := fun _ env _ hnot _ _ => absurd rfl (hnot env)

/-- The wipe is still to come, or the partition is empty and nothing is running. -/
def Doomed (c : Chip H) : Prop :=
  c.world.nvs.committed ∨ c.world.powered = false ∧ ∀ s, c.erased s = true

theorem boot_committed {B : Bcrypt Salt H} {c : Chip H} {i : ChipInput H} {env : BootEnv H}
    (hi : i.ui = .boot env) (hc : c.world.nvs.committed) :
    (chipStep B c i).world.nvs.committed ∨
    (env.wipes = true ∧ (chipStep B c i).world.powered = false ∧
      (∀ s, (chipStep B c i).erased s = true) ∧
      (nvsPages ≤ i.progress.pages →
        (chipStep B c i).world.nvs.ram.pinKeys = (none, none) ∧
          (chipStep B c i).world.nvs.flash.pinKeys = (none, none))) := by
  simp only [chipStep, hi]
  split_ifs with hw
  · obtain ⟨hoff, hn | ⟨herased, ⟨hpages, -⟩ | ⟨-, hkeys⟩⟩⟩ := wipeOnBoot_cases hw i.progress c
    · rw [hn]
      exact .inl (reopen_committed env.kept hc)
    · exact .inr ⟨hw, hoff, herased, fun hle => absurd hpages (Nat.not_lt.mpr hle)⟩
    · exact .inr ⟨hw, hoff, herased, fun _ => hkeys⟩
  · obtain ⟨hr, hf⟩ := boot_wipePending (Bool.eq_false_of_not_eq_true hw) c.world
    obtain ⟨h1, h2⟩ := reopen_committed env.kept hc
    exact .inl ⟨hr.trans h1, hf.trans h2⟩

theorem chipStep_committed {B : Bcrypt Salt H} {c : Chip H} {i : ChipInput H}
    (hi : ∀ env, i.ui ≠ .boot env) (hc : c.world.nvs.committed) :
    (chipStep B c i).world.nvs.committed := by
  unfold chipStep
  split
  · next env hboot => exact absurd hboot (hi env)
  · exact (committed_preserved B).step c.world i.ui hi hc

theorem chipStep_off {B : Bcrypt Salt H} {c : Chip H} {i : ChipInput H}
    (hi : ∀ env, i.ui ≠ .boot env) (hoff : c.world.powered = false) :
    (chipStep B c i).world.powered = false ∧ (chipStep B c i).erased = c.erased := by
  unfold chipStep
  split
  · next env hboot => exact absurd hboot (hi env)
  · next hnot =>
    refine ⟨?_, by simp [hoff]⟩
    cases hu : i.ui with
    | boot env => exact absurd hu (hi env)
    | _ => simp [uiStep, hoff]

theorem chipStep_doomed {B : Bcrypt Salt H} {c : Chip H} {i : ChipInput H}
    (hstart : i.startsNormally = false) (h : Doomed c) : Doomed (chipStep B c i) := by
  by_cases hboot : ∃ env, i.ui = .boot env
  · obtain ⟨env, hi⟩ := hboot
    have hw : env.wipes = true := by
      simpa [ChipInput.startsNormally, hi] using hstart
    rcases h with hc | ⟨-, herased⟩
    · rcases boot_committed hi hc with hc' | ⟨-, hoff, herased, -⟩
      · exact .inl hc'
      · exact .inr ⟨hoff, herased⟩
    · have hstep : chipStep B c i = wipeOnBoot env i.progress c := by
        simp only [chipStep, hi, hw, if_true]
      rw [hstep]
      refine .inr ⟨(wipeOnBoot_cases hw i.progress c).1, ?_⟩
      intro s
      simp only [wipeOnBoot, herased s, Bool.true_or]
  · have hnot : ∀ env, i.ui ≠ .boot env := fun env hi => hboot ⟨env, hi⟩
    rcases h with hc | ⟨hoff, herased⟩
    · exact .inl (chipStep_committed hnot hc)
    · obtain ⟨hoff', herased'⟩ := chipStep_off (B := B) hnot hoff
      exact .inr ⟨hoff', fun s => herased' ▸ herased s⟩

omit [DecidableEq H] in
theorem start_erased {c : Chip H} {i : ChipInput H} (hreads : ReadsPending c i)
    (hstart : i.startsNormally = true) (h : Doomed c) : ∀ s, c.erased s = true := by
  rcases h with hc | ⟨-, herased⟩
  · simp only [ReadsPending, ChipInput.startsNormally] at hreads hstart
    split at hstart
    · next env hi =>
      have hpending := (reopen_committed env.kept hc).1
      simp only [hi, hpending, decide_true] at hreads
      rw [hreads] at hstart
      cases hstart
    · cases hstart
  · exact herased

/-- The contract of the device reset in the runs from `start`. -/
structure ResetContract (B : Bcrypt Salt H) (start : Chip H) : Prop where
  -- the flag comes up at the end of one flow, by the current PIN under an open gate
  authorized : ∀ pre i, ¬ (chipRun B start pre).world.nvs.pending →
    (chipStep B (chipRun B start pre) i).world.nvs.pending →
    ResetFlow B start pre ∧ Verifying (chipRun B start pre) ∧ PinConfirmed B (chipRun B start pre) i
  -- the first start to normal operation after that finds the whole partition erased
  enforced : ∀ pre mid i, (chipRun B start pre).world.nvs.committed →
    StepSystem.Along (chipStep B) ReadsPending (chipRun B start pre) (mid ++ [i]) →
    (∀ j ∈ mid, j.startsNormally = false) → i.startsNormally = true →
    ∀ s, (chipRun B start (pre ++ mid)).erased s = true
  -- the flag goes in a wipe, after the partition; with the PIN keys if the erase of NVS ends
  cleared : ∀ pre i, (chipRun B start pre).world.nvs.committed →
    ¬ (chipStep B (chipRun B start pre) i).world.nvs.committed →
    (∃ env, i.ui = .boot env ∧ env.wipes = true) ∧
    (∀ s, (chipStep B (chipRun B start pre) i).erased s = true) ∧
    (nvsPages ≤ i.progress.pages →
      (chipStep B (chipRun B start pre) i).world.nvs.ram.pinKeys = (none, none) ∧
        (chipStep B (chipRun B start pre) i).world.nvs.flash.pinKeys = (none, none))

/-- In every run, whatever NVS and the partition hold at first. -/
theorem device_reset_contract (B : Bcrypt Salt H) (image : NvsImage H)
    (erased : Fin part0Sectors → Bool) : ResetContract B ⟨deviceOff image, erased⟩ where
  authorized := by
    intro pre i hnot hpending
    have hopen : FlowOpen (deviceOff image : World H).core := by rintro (h | h) <;> cases h
    obtain ⟨hon, hmode, hpin⟩ := chipStep_pending hnot hpending
    have hverifying : Verifying (chipRun B ⟨deviceOff image, erased⟩ pre) :=
      ⟨hon, hmode, chipRun_flowOpen (c := ⟨deviceOff image, erased⟩) pre hopen (.inr hmode)⟩
    exact ⟨resetFlow_of_verifying rfl hopen hverifying, hverifying, hpin⟩
  enforced := by
    intro pre mid i hc hreads hmid hstart
    rw [chipRun, StepSystem.run_append]
    obtain ⟨-, hread, -⟩ := (StepSystem.along_append _ _ _ _ _).mp hreads
    refine start_erased hread hstart ?_
    have hquiet : ∀ (c : Chip H) (js : List (ChipInput H)),
        (∀ j ∈ js, j.startsNormally = false) → Doomed c → Doomed (chipRun B c js) := by
      intro c js
      induction js generalizing c with
      | nil => exact fun _ h => h
      | cons j js ih =>
        intro hjs h
        exact ih _ (fun k hk => hjs k (List.mem_cons_of_mem _ hk))
          (chipStep_doomed (hjs j List.mem_cons_self) h)
    exact hquiet _ mid hmid (.inl hc)
  cleared := by
    intro pre i hc hnot
    by_cases hboot : ∃ env, i.ui = .boot env
    · obtain ⟨env, hi⟩ := hboot
      obtain ⟨hw, -, herased, hkeys⟩ := (boot_committed hi hc).resolve_left hnot
      exact ⟨⟨env, hi, hw⟩, herased, hkeys⟩
    · exact absurd (chipStep_committed (fun env hi => hboot ⟨env, hi⟩) hc) hnot

/-- A PIN is set up, and a reset goes through the settings to its end. -/
def scheduledReset : List (ChipInput Octets) :=
  (.boot {} :: typeEntry 10 6 ++ typeEntry 50 6 ++
    passes 100 0 [{}, { gpio5 := false }, {}, { gpio17 := false }, {}, { gpio17 := false }, {},
      { gpio7 := false }, {}] ++
    .task { now := 118, resetYes := false, random32 := 1111 } :: typeEntry 130 4 ++
    typeEntry 160 6 (clockEnv 0)).map fun ui => { ui := ui }

/-- The power goes during the wipe at boot and again after it; the third boot starts normally. -/
theorem start_after_reset :
    (chipRun plainBcrypt ⟨deviceOff {}, fun _ => false⟩ scheduledReset).world.nvs.committed ∧
    ∀ s, (chipRun plainBcrypt ⟨deviceOff {}, fun _ => false⟩ (scheduledReset ++
      [{ ui := .boot { wipeRead := .ok 1 }, progress := { sectors := 7 } },
        { ui := .boot { wipeRead := .ok 1 } }])).erased s = true := by
  have hc : (chipRun plainBcrypt ⟨deviceOff {}, fun _ => false⟩
      scheduledReset).world.nvs.committed := by decide +kernel
  exact ⟨hc, (device_reset_contract plainBcrypt {} fun _ => false).enforced scheduledReset _
    { ui := .boot {} } hc (by decide +kernel) (by decide) rfl⟩

/-- The power goes in the erase of NVS after the page with the flag and before the one with the
hash. -/
theorem hash_outlives_flag :
    (chipRun plainBcrypt ⟨deviceOff {}, fun _ => false⟩ scheduledReset).world.nvs.committed ∧
    ¬ (chipRun plainBcrypt ⟨deviceOff {}, fun _ => false⟩ (scheduledReset ++
      [{ ui := .boot { wipeRead := .ok 1 },
         progress := { pages := 1, placement := { bcrypt := 1 } } }])).world.nvs.pending ∧
    (chipRun plainBcrypt ⟨deviceOff {}, fun _ => false⟩ (scheduledReset ++
      [{ ui := .boot { wipeRead := .ok 1 },
         progress := { pages := 1, placement := { bcrypt := 1 } } }])).world.nvs.flash.bcrypt.isSome :=
  by decide +kernel

end KeyWallet
