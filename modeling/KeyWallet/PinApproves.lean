import KeyWallet.PresenceWait
import KeyWallet.PinLockout

/-! What becomes of a right PIN. The poll that takes the authorization also looks at GPIO6, the Submit
button, and takes its high level for a cancel; with the pull-ups of `wallet_ui_init` the high level is
that of a button nobody holds. -/
namespace KeyWallet

open StepSystem

variable {Salt H : Type}

/-- The wait from `w` on ended at `v` with `BUTTON_EV_PRESSED`. -/
def Approved (w v : World H) : Prop :=
  v.wait.asyncButtonWait = false ∧ v.trace = .button .pressed :: w.trace

/-- An approve button that is not armed: no poll of this wait has seen it stable. -/
def Unarmed (c : Core H) : Prop := c.asyncWait = true → c.armed = false

theorem unarmed_preserved [DecidableEq H] (B : Bcrypt Salt H) :
    CorePreserved B (fun _ _ => True) (Unarmed (H := H)) where
  pin c c' hstep h := by
    cases hstep <;> exact h
  off c h := h
  prompt c _ _ h := h
  waitStart c _ _ _ _ := fun _ => rfl
  result c _ _ _ h := h
  consume c armed hwait harmed h := absurd (harmed.symm.trans (h hwait)) (by decide)
  finish c ev armed _ _ _ := by
    intro hwait
    cases hwait
  boot c env c' _ hboot _ := by
    cases hboot <;> intro hwait <;> cases hwait

section Poll

variable (env : PollEnv)

theorem pollCancelRaw_level (b : ButtonWait) : (pollCancelRaw env b).cancelRaw = env.gpio6 := by
  unfold pollCancelRaw
  by_cases h : (env.gpio6 != b.cancelRaw) = true
  · rw [if_pos h]
  · rw [if_neg h]
    have hsame : ¬ env.gpio6 ≠ b.cancelRaw := fun hne => h (bne_iff_ne.mpr hne)
    exact (Decidable.not_not.mp hsame).symm

theorem pollCancelRaw_cancel (b : ButtonWait) : (pollCancelRaw env b).cancelButton = b.cancelButton := by
  unfold pollCancelRaw
  split_ifs <;> rfl

theorem pollCancel_raw (b : ButtonWait) : (pollCancel env b).cancelRaw = b.cancelRaw := by
  unfold pollCancel
  split_ifs <;> rfl

theorem pollCancel_low (b : ButtonWait) (h : b.cancelRaw = false) : pollCancel env b = b := by
  unfold pollCancel
  rw [if_neg]
  rw [h]
  exact Bool.false_ne_true

theorem pollDebounce_raw (a : Int) (b : ButtonWait) : (pollDebounce env a b).1.cancelRaw = env.gpio6 :=
  (pollCancel_raw env _).trans (pollCancelRaw_level env _)

theorem pollDebounce_low (a : Int) (b : ButtonWait) (ha : ¬ a < 0) (hlow : env.gpio6 = false) :
    (pollDebounce env a b).1.cancelButton = b.cancelButton := by
  unfold pollDebounce
  dsimp only
  rw [pollCancel_low env _ ((pollCancelRaw_level env _).trans hlow), pollCancelRaw_cancel,
    (pollApprove_frame env _ _).2.2]
  unfold pollAuthorize
  rw [if_neg ha]

end Poll

theorem buttonWaitPoll_approved_iff (env : PollEnv) (w : World H) (hwait : w.wait.asyncButtonWait = true)
    (hauth : w.localAuthResult = 1) (harmed : w.wait.approveArmed = false)
    (htime : (env.millis - w.wait.asyncButtonStarted).toNat < w.wait.asyncButtonTimeout.toNat) :
    Approved w (buttonWaitPoll env w) ↔ w.wait.cancelButton = false ∧ env.gpio6 = false := by
  have hnonneg : ¬ w.localAuthResult < 0 := by omega
  obtain ⟨hpressed, hreleased⟩ := pollDebounce_approve env w.localAuthResult w.wait hnonneg harmed
  have hclock := pollDebounce_time env w.localAuthResult w.wait
  have hstarted := congrArg Prod.fst hclock
  have htimeout := congrArg Prod.snd hclock
  have hraw := pollDebounce_raw env w.localAuthResult w.wait
  have hcancelled := pollDebounce_cancelled env w.localAuthResult w.wait
  have hlow := pollDebounce_low env w.localAuthResult w.wait hnonneg
  have hopen : ¬ (!w.wait.asyncButtonWait) = true := by
    rw [hwait]
    decide
  unfold buttonWaitPoll
  rw [if_neg hopen]
  dsimp only
  rw [if_neg (by omega)]
  generalize pollDebounce env w.localAuthResult w.wait = p at *
  obtain ⟨b, pressed⟩ := p
  dsimp only at hpressed hreleased hraw hcancelled hlow
  -- without a cancellation the poll decides for the press
  have hresult : pollResult env b pressed = some (if b.cancelButton then .cancelled else .pressed) := by
    have hintime : ¬ (env.millis - b.asyncButtonStarted).toNat ≥ b.asyncButtonTimeout.toNat := by
      have hs : b.asyncButtonStarted = w.wait.asyncButtonStarted := hstarted
      have ht : b.asyncButtonTimeout = w.wait.asyncButtonTimeout := htimeout
      rw [hs, ht]
      omega
    have hpress : (b.asyncButtonPressed && !pressed) = true := by
      rw [hpressed, hreleased]
      rfl
    unfold pollResult
    by_cases hc : b.cancelButton = true
    · rw [if_pos hc, if_pos hc]
    · rw [if_neg hc, if_neg hc, if_neg hintime, if_pos hpress]
  dsimp only
  rw [hresult]
  dsimp only
  by_cases hc : b.cancelButton = true
  · rw [if_pos hc]
    constructor
    · intro h
      have hevent := (List.cons.inj h.2).1
      cases hevent
    · rintro ⟨hnone, hgpio⟩
      rw [hlow hgpio, hnone] at hc
      cases hc
  · rw [if_neg hc]
    have hnone : w.wait.cancelButton = false := by
      cases hbefore : w.wait.cancelButton with
      | false => rfl
      | true => exact absurd (hcancelled hbefore) hc
    cases hgpio : env.gpio6 with
    | false =>
      have hlevel : b.cancelRaw = false := hraw.trans hgpio
      refine ⟨fun _ => ⟨hnone, rfl⟩, fun _ => ⟨rfl, ?_⟩⟩
      unfold finishWait
      dsimp only
      rw [hlevel]
      rfl
    | true =>
      -- a line that has just gone high is taken for a cancel at the very end
      have hlevel : b.cancelRaw = true := hraw.trans hgpio
      constructor
      · intro h
        have htrace := h.2
        unfold finishWait at htrace
        dsimp only at htrace
        rw [hlevel, if_pos ⟨rfl, rfl⟩] at htrace
        cases (List.cons.inj htrace).1
      · rintro ⟨-, hfalse⟩
        cases hfalse

/-- In every run, a wait whose poll takes the authorization of a right PIN before the timeout ends as
pressed just where no cancellation is pending and Submit is still held down. -/
theorem pin_approves_iff [DecidableEq H] (B : Bcrypt Salt H) (image : NvsImage H) (inputs : List (UiInput H))
    (env : PollEnv) (hpowered : (run (uiStep B) (deviceOff image) inputs).powered = true)
    (hwait : (run (uiStep B) (deviceOff image) inputs).wait.asyncButtonWait = true)
    (hauth : (run (uiStep B) (deviceOff image) inputs).localAuthResult = 1)
    (htime : (env.millis - (run (uiStep B) (deviceOff image) inputs).wait.asyncButtonStarted).toNat <
      (run (uiStep B) (deviceOff image) inputs).wait.asyncButtonTimeout.toNat) :
    Approved (run (uiStep B) (deviceOff image) inputs)
        (uiStep B (run (uiStep B) (deviceOff image) inputs) (.poll env)) ↔
      (run (uiStep B) (deviceOff image) inputs).wait.cancelButton = false ∧ env.gpio6 = false := by
  have hinit : Unarmed (deviceOff image).core := by
    intro h
    cases h
  have hunarmed := (unarmed_preserved B).run (deviceOff image) inputs (along_true _ _ _) hinit
  have hstep : uiStep B (run (uiStep B) (deviceOff image) inputs) (.poll env) =
      buttonWaitPoll env (run (uiStep B) (deviceOff image) inputs) := if_pos hpowered
  rw [hstep]
  exact buttonWaitPoll_approved_iff env _ hwait hauth (hunarmed hwait) htime

/-- A PIN is set up, a request waits, and the PIN is entered. -/
def enteredRun : List (UiInput Octets) :=
  .boot {} :: typeEntry 10 6 ++ typeEntry 50 6 ++ .waitStart {} :: typeEntry 100 6 (clockEnv 1)

/-- Submit is still down at the poll. -/
theorem pin_approves_while_held :
    Approved (run (uiStep plainBcrypt) (deviceOff {}) enteredRun)
      (uiStep plainBcrypt (run (uiStep plainBcrypt) (deviceOff {}) enteredRun)
        (.poll { millis := 2000, gpio6 := false })) :=
  (pin_approves_iff plainBcrypt {} enteredRun { millis := 2000, gpio6 := false } (by decide +kernel)
    (by decide +kernel) (by decide +kernel) (by decide +kernel)).mpr ⟨by decide +kernel, rfl⟩

/-- Submit has been released: the right PIN is shown as a cancel. -/
theorem released_submit_cancels :
    (run (uiStep plainBcrypt) (deviceOff {}) enteredRun).localAuthResult = 1 ∧
    (run (uiStep plainBcrypt) (deviceOff {}) enteredRun).wait.cancelButton = false ∧
    (run (uiStep plainBcrypt) (deviceOff {}) (enteredRun ++ [.poll { millis := 2000, gpio6 := true }])).trace.head? =
      some (.button .cancelled) ∧
    ¬ Approved (run (uiStep plainBcrypt) (deviceOff {}) enteredRun)
      (uiStep plainBcrypt (run (uiStep plainBcrypt) (deviceOff {}) enteredRun)
        (.poll { millis := 2000, gpio6 := true })) := by
  refine ⟨by decide +kernel, by decide +kernel, by decide +kernel, ?_⟩
  intro h
  have hhead := congrArg List.head? h.2
  have hcancelled : (uiStep plainBcrypt (run (uiStep plainBcrypt) (deviceOff {}) enteredRun)
      (.poll { millis := 2000, gpio6 := true })).trace.head? = some (.button .cancelled) := by
    decide +kernel
  rw [hcancelled] at hhead
  cases hhead

end KeyWallet
