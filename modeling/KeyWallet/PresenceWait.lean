import KeyWallet.UiRuns

/-! Whether a presence wait can still end. It can as long as no wait starts during the PIN setup
at boot: that setup ends without telling `button.c`. -/
namespace KeyWallet

open StepSystem

variable {Salt H : Type}

/-- The inputs the firmware produces: it calls `wallet_ui_prompt` and `wallet_ui_result` only from
`button_wait_start` and `button_wait_poll`. -/
def UiInput.fromFirmware : UiInput H → Bool
  | .prompt | .result _ _ => false
  | _ => true

/-- Inputs that leave the wait alone: passes that are not cut, labels and host cancels. -/
def UiInput.besideWait : UiInput H → Bool
  | .task env => !env.cut
  | .command _ _ | .hostCancel _ => true
  | _ => false

/-- The entry a wait asks for: a new PIN stored, or the right one accepted. -/
def isCompletion : UiEvent H → Bool
  | .stored .retype _ _ => true
  | .submission r => r.mode = .verify ∧ r.correct = true ∧ r.persisted = true
  | _ => false

/-- The pass from `w` to `v` completed the entry, with the power still on. -/
def Completed (w v : World H) : Prop :=
  v.powered = true ∧ ∃ ev, v.trace = ev :: w.trace ∧ isCompletion ev = true

variable [DecidableEq H]

/-- The wait is over after the next poll, and an event was queued. -/
def EndsAtPoll (B : Bcrypt Salt H) (w : World H) : Prop :=
  ∀ env, (uiStep B w (.poll env)).wait.asyncButtonWait = false ∧
    ∃ ev, (uiStep B w (.poll env)).trace = .button ev :: w.trace

/-- A pending wait without an answer asks for a PIN, and completing that entry ends it at the next
poll, however many passes, labels and host cancels come first. -/
def WaitLive (B : Bcrypt Salt H) (w : World H) : Prop :=
  w.wait.asyncButtonWait = true → w.localAuthResult = 0 →
    (w.pad.mode = .create ∨ w.pad.mode = .retype ∨ w.pad.mode = .verify) ∧
    ∀ env, Completed w (uiStep B w (.task env)) →
      ∀ between : List (UiInput H), (∀ i ∈ between, i.besideWait = true) →
        EndsAtPoll B (run (uiStep B) (uiStep B w (.task env)) between)

/-- No wait starts while the PIN setup at boot is open. -/
def UiInput.outsideSetup (setupAtBoot : Bool) : UiInput H → Prop
  | .waitStart _ => setupAtBoot = false
  | _ => True

instance (setupAtBoot : Bool) (i : UiInput H) : Decidable (i.outsideSetup setupAtBoot) :=
  match i with
  | .waitStart _ => inferInstanceAs (Decidable (setupAtBoot = false))
  | .task _ | .command _ _ | .poll _ | .prompt | .result _ _ | .hostCancel _ | .powerOff
  | .boot _ => .isTrue trivial

/-- A wait that asks for a PIN or has its answer. -/
structure WaitOpen (c : Core H) : Prop where
  setup : c.setupAtBoot = false
  waiting : c.waiting = true
  settings : c.settingsOpen = false
  armed : c.armed = false
  mode : c.mode = .create ∨ c.mode = .retype ∨ c.mode = .verify ∨ (c.mode = .idle ∧ c.auth ≠ 0)

theorem waitOpen_pin (B : Bcrypt Salt H) (c c' : Core H) (hstep : PinStep B c c')
    (h : WaitOpen c) :
    WaitOpen c' ∧ c'.powered = c.powered ∧ c'.asyncWait = c.asyncWait ∧
      (c.auth ≠ 0 → c'.auth ≠ 0) := by
  have hmode := h.mode
  have hrefused : (-1 : Int) ≠ 0 := by decide
  cases hstep with
  | edit e hm he => exact ⟨⟨h.setup, h.waiting, h.settings, h.armed, h.mode⟩, rfl, rfl, id⟩
  | cancel m f hm hs hf =>
    refine ⟨⟨h.setup, h.waiting, h.settings, h.armed, ?_⟩, rfl, rfl, fun _ => hrefused⟩
    rcases hf with ⟨rfl, -⟩ | ⟨rfl, -⟩
    · rcases hmode with hm' | hm' | hm' | ⟨hm', -⟩
      · exact .inl hm'
      · exact .inr (.inl hm')
      · exact .inr (.inr (.inl hm'))
      · exact absurd hm' hm
    · exact .inr (.inr (.inr ⟨rfl, hrefused⟩))
  | createEntry hm h6 =>
    exact ⟨⟨h.setup, h.waiting, h.settings, h.armed, .inr (.inl rfl)⟩, rfl, rfl, id⟩
  | mismatch hm => exact ⟨⟨h.setup, h.waiting, h.settings, h.armed, .inl rfl⟩, rfl, rfl, id⟩
  | retypeFailed nvs hm hn =>
    exact ⟨⟨h.setup, h.waiting, h.settings, h.armed, h.mode⟩, rfl, rfl, id⟩
  | retypeStored hash nvs hm hb ho h6 hf hh hn =>
    exact ⟨⟨h.setup, h.waiting, h.settings, h.armed, .inr (.inr (.inr ⟨rfl, one_ne_zero⟩))⟩, rfl, rfl,
      fun _ => one_ne_zero⟩
  | authorized r nvs hm ha hc hp ho hn =>
    exact ⟨⟨h.setup, h.waiting, h.settings, h.armed, .inr (.inr (.inr ⟨rfl, one_ne_zero⟩))⟩, rfl, rfl,
      fun _ => one_ne_zero⟩
  | gateClosed r hg hp ho =>
    exact ⟨⟨h.setup, h.waiting, h.settings, h.armed, h.mode⟩, rfl, rfl, id⟩
  | hashError r ha hc hp ho =>
    exact ⟨⟨h.setup, h.waiting, h.settings, h.armed, h.mode⟩, rfl, rfl, id⟩
  | notRecorded r nvs ha hp ho hn =>
    exact ⟨⟨h.setup, h.waiting, h.settings, h.armed, h.mode⟩, rfl, rfl, id⟩
  | wrong r nvs ha hc hp ho hn =>
    exact ⟨⟨h.setup, h.waiting, h.settings, h.armed, h.mode⟩, rfl, rfl, id⟩
  | leave f hm hs => exact absurd (h.settings.symm.trans hs) Bool.false_ne_true
  | menus b hm hw => exact absurd (hw.symm.trans h.waiting) Bool.false_ne_true
  | openChange hm hw hs => exact absurd (hw.symm.trans h.waiting) Bool.false_ne_true
  | openReset hm hw hs => exact absurd (hw.symm.trans h.waiting) Bool.false_ne_true
  | setupStored hash nvs hm hb ho hh hn =>
    exact absurd (h.setup.symm.trans hb) Bool.false_ne_true
  | challenge hm | changeEntry hm | changeMismatch hm | changeFailed nvs hm hn
  | changeStored hash nvs hm ho hh hn | currentAccepted r nvs hm ha hc hp ho hn
  | resetNotScheduled r nvs nvs' hm ha hc hp ho hn hw
  | resetScheduled r nvs nvs' hm ha hc hp ho hn hw => simp [hm] at hmode

theorem completion_pin (B : Bcrypt Salt H) (c c' : Core H) (hstep : PinStep B c c')
    (h : WaitOpen c) :
    c'.trace = c.trace ∨
      ∃ ev, c'.trace = ev :: c.trace ∧ (isCompletion ev = true → c'.auth ≠ 0) := by
  cases hstep with
  | createEntry hm h6 => exact .inr ⟨_, rfl, nofun⟩
  | changeStored hash nvs hm ho hh hn => exact .inr ⟨_, rfl, nofun⟩
  | setupStored hash nvs hm hb ho hh hn =>
    exact absurd (h.setup.symm.trans hb) Bool.false_ne_true
  | retypeStored hash nvs hm hb ho h6 hf hh hn => exact .inr ⟨_, rfl, fun _ => one_ne_zero⟩
  | authorized r nvs hm ha hc hp ho hn => exact .inr ⟨_, rfl, fun _ => one_ne_zero⟩
  | gateClosed r hg hp ho => exact .inr ⟨_, rfl, by simp [isCompletion, hp]⟩
  | hashError r ha hc hp ho => exact .inr ⟨_, rfl, by simp [isCompletion, hp]⟩
  | notRecorded r nvs ha hp ho hn => exact .inr ⟨_, rfl, by simp [isCompletion, hp]⟩
  | wrong r nvs ha hc hp ho hn => exact .inr ⟨_, rfl, by simp [isCompletion, hc]⟩
  | currentAccepted r nvs hm ha hc hp ho hn =>
    exact .inr ⟨_, rfl, by simp [isCompletion, ha.mode, hm]⟩
  | resetNotScheduled r nvs nvs' hm ha hc hp ho hn hw =>
    exact .inr ⟨_, rfl, by simp [isCompletion, ha.mode, hm]⟩
  | resetScheduled r nvs nvs' hm ha hc hp ho hn hw =>
    exact .inr ⟨_, rfl, by simp [isCompletion, ha.mode, hm]⟩
  | _ => exact .inl rfl

theorem waitOpen_task (B : Bcrypt Salt H) (env : TaskEnv) (w : World H) (h : WaitOpen w.core) :
    WaitOpen (walletUiTask B env w).core ∧
      (walletUiTask B env w).powered = w.powered ∧
      (walletUiTask B env w).wait.asyncButtonWait = w.wait.asyncButtonWait ∧
      (w.localAuthResult ≠ 0 → (walletUiTask B env w).localAuthResult ≠ 0) ∧
      (∀ ev, (walletUiTask B env w).trace = ev :: w.trace → isCompletion ev = true →
        (walletUiTask B env w).localAuthResult ≠ 0) := by
  refine reach_invariant (P := fun c => WaitOpen c ∧ c.powered = w.powered ∧
    c.asyncWait = w.wait.asyncButtonWait ∧ (w.localAuthResult ≠ 0 → c.auth ≠ 0) ∧
    ∀ ev, c.trace = ev :: w.trace → isCompletion ev = true → c.auth ≠ 0)
    ?_ (walletUiTask_refines B env w) ⟨h, rfl, rfl, id, fun ev hev => ?_⟩
  · rintro c c' hstep ⟨hopen, hpow, hasync, hauth, hcomp⟩
    obtain ⟨hopen', hpow', hasync', hauth'⟩ := waitOpen_pin B c c' hstep hopen
    refine ⟨hopen', hpow'.trans hpow, hasync'.trans hasync, fun ha => hauth' (hauth ha), ?_⟩
    intro ev hev hc
    rcases completion_pin B c c' hstep hopen with htrace | ⟨ev', htrace, hgives⟩
    · exact hauth' (hcomp ev (htrace ▸ hev) hc)
    · obtain ⟨rfl, -⟩ := List.cons.inj (htrace.symm.trans hev)
      exact hgives hc
  · exact absurd (congrArg List.length hev) (by simp)

theorem answered_endsAtPoll (B : Bcrypt Salt H) (between : List (UiInput H)) (w : World H)
    (hbeside : ∀ i ∈ between, i.besideWait = true) (hopen : WaitOpen w.core)
    (hpow : w.powered = true) (hasync : w.wait.asyncButtonWait = true)
    (hauth : w.localAuthResult ≠ 0) : EndsAtPoll B (run (uiStep B) w between) := by
  induction between generalizing w with
  | nil =>
    intro env
    obtain ⟨ev, armed, hcore⟩ := buttonWaitPoll_ends env w hasync hauth hopen.armed
    simp only [run_nil, uiStep, hpow, if_true]
    exact ⟨congrArg Core.asyncWait hcore, ev, congrArg Core.trace hcore⟩
  | cons i between ih =>
    have htail : ∀ j ∈ between, j.besideWait = true :=
      fun j hj => hbeside j (List.mem_cons_of_mem _ hj)
    have hi := hbeside i List.mem_cons_self
    rw [run_cons]
    cases i with
    | task env =>
      obtain ⟨h₁, h₂, h₃, h₄, -⟩ := waitOpen_task B env w hopen
      have hcut : env.cut = false := by simpa [UiInput.besideWait] using hi
      simp only [uiStep, hpow, hcut, Bool.not_true, Bool.false_eq_true, if_false]
      exact ih _ htail h₁ (h₂.trans hpow) (h₃.trans hasync) (h₄ hauth)
    | command tick name =>
      simp only [uiStep, hpow, if_true]
      have hcore := walletUiCommand_core tick name w
      exact ih _ htail (hcore ▸ hopen) ((congrArg Core.powered hcore).trans hpow)
        ((congrArg Core.asyncWait hcore).trans hasync) ((congrArg Core.auth hcore).trans_ne hauth)
    | hostCancel value =>
      rw [uiStep, if_pos hpow]
      exact ih _ htail hopen hpow hasync hauth
    | _ => exact absurd hi Bool.false_ne_true

theorem waitLive_of_waitOpen (B : Bcrypt Salt H) (w : World H)
    (h : w.wait.asyncButtonWait = true → WaitOpen w.core) : WaitLive B w := by
  intro hasync hauth
  have hopen := h hasync
  refine ⟨?_, ?_⟩
  · rcases hopen.mode with hm | hm | hm | ⟨-, ha⟩
    · exact .inl hm
    · exact .inr (.inl hm)
    · exact .inr (.inr hm)
    · exact absurd hauth ha
  · rintro env ⟨hpow, ev, htrace, hcomp⟩ between hbeside
    have hstep : uiStep B w (.task env) = walletUiTask B env w := by
      simp only [uiStep] at htrace hpow ⊢
      split_ifs at htrace hpow ⊢ with hoff hcut
      · exact absurd (congrArg List.length htrace) (by simp)
      · rfl
    rw [hstep] at hpow htrace ⊢
    obtain ⟨h₁, -, h₃, -, h₅⟩ := waitOpen_task B env w hopen
    exact answered_endsAtPoll B between _ hbeside h₁ hpow (h₃.trans hasync) (h₅ ev htrace hcomp)

theorem waitOpen_preserved (B : Bcrypt Salt H) :
    CorePreserved B (fun c i => i.fromFirmware = true ∧ i.outsideSetup c.setupAtBoot)
      (fun c => c.asyncWait = true → WaitOpen c) where
  pin c c' hstep h ha := by
    by_cases hc : c.asyncWait = true
    · exact (waitOpen_pin B c c' hstep (h hc)).1
    · refine absurd ?_ hc
      cases hstep <;> exact ha
  off c h ha := ⟨(h ha).setup, (h ha).waiting, (h ha).settings, (h ha).armed, (h ha).mode⟩
  prompt c _ hok := absurd hok.1 Bool.false_ne_true
  waitStart c env _ hok _ _ := by
    refine ⟨hok.2, rfl, rfl, rfl, ?_⟩
    cases hh : c.hash <;> simp [Core.waitStart, Core.prompt, hh]
  result c tick message hok := absurd hok.1 Bool.false_ne_true
  consume c armed ha harmed h _ := absurd ((h ha).armed.symm.trans harmed) Bool.false_ne_true
  finish c ev armed _ _ _ ha := absurd ha Bool.false_ne_true
  boot c env c' _ hboot _ ha := by
    cases hboot <;> exact absurd ha Bool.false_ne_true

/-- In every run of the firmware in which no wait starts during the PIN setup at boot, a pending
wait asks for a PIN and completing that entry ends it. -/
theorem waitLive_outside_setup (B : Bcrypt Salt H) (image : NvsImage H) (inputs : List (UiInput H))
    (hrun : Along (uiStep B)
      (fun w i => i.fromFirmware = true ∧ i.outsideSetup w.pad.setupAtBoot)
      (deviceOff image) inputs) :
    WaitLive B (run (uiStep B) (deviceOff image) inputs) :=
  waitLive_of_waitOpen B _ ((waitOpen_preserved B).run (deviceOff image) inputs hrun
    fun ha => absurd ha Bool.false_ne_true)

/-- The PIN is set up first and a request comes afterwards. -/
theorem waitLive_after_setup :
    (run (uiStep plainBcrypt) (deviceOff {})
      (.boot {} :: typeEntry 10 6 ++ typeEntry 50 6 ++ [.waitStart {}])).wait.asyncButtonWait = true ∧
    WaitLive plainBcrypt (run (uiStep plainBcrypt) (deviceOff {})
      (.boot {} :: typeEntry 10 6 ++ typeEntry 50 6 ++ [.waitStart {}])) :=
  ⟨by decide +kernel, waitLive_outside_setup plainBcrypt {} _ (by decide +kernel)⟩

/-- A request that meets the open setup: the PIN is created and stored, and the wait is left in
`PIN_IDLE` without an answer. -/
theorem waitLive_fails_in_setup :
    (∀ i ∈ (.boot {} :: .waitStart {} :: typeEntry 10 6 ++ typeEntry 50 6 : List (UiInput Octets)),
      i.fromFirmware = true) ∧
    ¬ WaitLive plainBcrypt (run (uiStep plainBcrypt) (deviceOff {})
      (.boot {} :: .waitStart {} :: typeEntry 10 6 ++ typeEntry 50 6)) := by
  refine ⟨by decide, fun h => ?_⟩
  have hmode : (run (uiStep plainBcrypt) (deviceOff {})
      (.boot {} :: .waitStart {} :: typeEntry 10 6 ++ typeEntry 50 6)).pad.mode = .idle := by
    decide +kernel
  obtain ⟨hask, -⟩ := h (by decide +kernel) (by decide +kernel)
  rw [hmode] at hask
  simp at hask

/-! What ends a wait besides the PIN: the host, the cancel button and the time. -/

/-- A cancellation is pending, or the time of the wait is over. -/
def WaitOver (env : PollEnv) (b : ButtonWait) : Prop :=
  b.cancelButton = true ∨
    (env.millis - b.asyncButtonStarted).toNat ≥ b.asyncButtonTimeout.toNat

/-- The poll ends the wait with a refusal. -/
def Refused (w v : World H) : Prop :=
  v.wait.asyncButtonWait = false ∧
    ∃ ev, (ev = .cancelled ∨ ev = .timeout) ∧ v.trace = .button ev :: w.trace

/-- When the wait began and how long it lasts. -/
def waitTime (b : ButtonWait) : UInt32 × UInt32 := (b.asyncButtonStarted, b.asyncButtonTimeout)

theorem pollAuthorize_time (a : Int) (b : ButtonWait) :
    waitTime (pollAuthorize a b) = waitTime b := by
  unfold pollAuthorize
  split_ifs <;> rfl

theorem pollApprove_time (env : PollEnv) (raw : Bool) (b : ButtonWait) :
    waitTime (pollApproveStable env (pollApproveRaw env raw b)) = waitTime b := by
  have hraw : waitTime (pollApproveRaw env raw b) = waitTime b := by
    unfold pollApproveRaw
    split_ifs <;> rfl
  rw [← hraw]
  unfold pollApproveStable
  split_ifs <;> rfl

theorem pollCancel_time (env : PollEnv) (b : ButtonWait) :
    waitTime (pollCancel env (pollCancelRaw env b)) = waitTime b := by
  have hraw : waitTime (pollCancelRaw env b) = waitTime b := by
    unfold pollCancelRaw
    split_ifs <;> rfl
  rw [← hraw]
  unfold pollCancel
  split_ifs <;> rfl

theorem pollDebounce_time (env : PollEnv) (a : Int) (b : ButtonWait) :
    waitTime (pollDebounce env a b).1 = waitTime b :=
  calc
    waitTime (pollDebounce env a b).1 = waitTime (pollApproveStable env
        (pollApproveRaw env (if a < 0 then env.gpio5 else false) (pollAuthorize a b))) :=
      pollCancel_time env _
    _ = waitTime (pollAuthorize a b) := pollApprove_time env _ _
    _ = waitTime b := pollAuthorize_time a b

theorem pollDebounce_cancelled (env : PollEnv) (a : Int) (b : ButtonWait)
    (hcancel : b.cancelButton = true) : (pollDebounce env a b).1.cancelButton = true := by
  apply (pollCancel_frame env _).2.2.2.2
  rw [(pollApprove_frame env _ _).2.2]
  unfold pollAuthorize
  split_ifs
  · rfl
  · exact hcancel

theorem pollResult_over (env : PollEnv) (a : Int) (b : ButtonWait) (h : WaitOver env b) :
    ∃ ev, (ev = .cancelled ∨ ev = .timeout) ∧
      pollResult env (pollDebounce env a b).1 (pollDebounce env a b).2 = some ev := by
  have htime := pollDebounce_time env a b
  have hstarted : (pollDebounce env a b).1.asyncButtonStarted = b.asyncButtonStarted :=
    congrArg Prod.fst htime
  have htimeout : (pollDebounce env a b).1.asyncButtonTimeout = b.asyncButtonTimeout :=
    congrArg Prod.snd htime
  unfold pollResult
  rw [hstarted, htimeout]
  by_cases hflag : (pollDebounce env a b).1.cancelButton = true
  · exact ⟨.cancelled, .inl rfl, if_pos hflag⟩
  · have hlate := h.resolve_left fun hbefore => hflag (pollDebounce_cancelled env a b hbefore)
    refine ⟨.timeout, .inr rfl, ?_⟩
    rw [if_neg hflag, if_pos hlate]

omit [DecidableEq H] in
theorem finishWait_refused (env : PollEnv) (b : ButtonWait) (w : World H) {ev : ButtonEvent}
    (hev : ev = .cancelled ∨ ev = .timeout) : Refused w (finishWait env b ev w) := by
  have hnot : ¬ (ev = .pressed ∧ b.cancelRaw = true) := by
    intro hheld
    rcases hev with rfl | rfl <;> cases hheld.1
  unfold finishWait
  dsimp only
  rw [if_neg hnot]
  exact ⟨rfl, ev, hev, rfl⟩

omit [DecidableEq H] in
/-- A wait that is over ends at the next poll just where the local authorization is there: without
it the poll returns before it looks at the cancellation and at the clock. -/
theorem wait_over_ends_iff (env : PollEnv) (w : World H) (hwait : w.wait.asyncButtonWait = true)
    (hover : WaitOver env w.wait) :
    Refused w (buttonWaitPoll env w) ↔ w.localAuthResult ≠ 0 := by
  have hopen : ¬ (!w.wait.asyncButtonWait) = true := by
    rw [hwait]
    decide
  unfold buttonWaitPoll
  rw [if_neg hopen]
  dsimp only
  by_cases hauth : w.localAuthResult = 0
  · rw [if_pos hauth]
    constructor
    · intro hrefused
      have hended := hrefused.1
      rw [hwait] at hended
      cases hended
    · intro hne
      exact absurd hauth hne
  · rw [if_neg hauth]
    obtain ⟨ev, hev, hresult⟩ := pollResult_over env w.localAuthResult w.wait hover
    rw [hresult]
    refine ⟨fun _ => hauth, fun _ => ?_⟩
    exact finishWait_refused env _ _ hev

/-- The PIN has been refused for good while the host cancels. -/
theorem wait_cancelled_with_refusal :
    WaitOver {} { asyncButtonWait := true, cancelButton := true } ∧
    Refused (H := Octets) { wait := { asyncButtonWait := true, cancelButton := true }, localAuthResult := -1 }
      (buttonWaitPoll {}
        { wait := { asyncButtonWait := true, cancelButton := true }, localAuthResult := -1 }) :=
  ⟨.inl rfl, (wait_over_ends_iff {} _ rfl (.inl rfl)).mpr (by decide)⟩

/-- The PIN is set up, a request waits, the host cancels and a minute goes by: the wait goes on. -/
theorem wait_not_over_without_pin :
    WaitOver { millis := 60000 } (run (uiStep plainBcrypt) (deviceOff {})
      (.boot {} :: typeEntry 10 6 ++ typeEntry 50 6 ++
        [.waitStart {}, .hostCancel true])).wait ∧
    (run (uiStep plainBcrypt) (deviceOff {})
      (.boot {} :: typeEntry 10 6 ++ typeEntry 50 6 ++
        [.waitStart {}, .hostCancel true, .poll { millis := 60000 }])).wait.asyncButtonWait = true := by
  refine ⟨.inl ?_, ?_⟩
  · decide +kernel
  · decide +kernel

end KeyWallet
