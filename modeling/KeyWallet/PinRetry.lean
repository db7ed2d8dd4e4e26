import KeyWallet.PinStorage
import KeyWallet.StepSystem
import Mathlib.Data.List.Induction

/-! The retry discipline of the CTAP PIN: how often a candidate can be compared with the stored
verifier, through refused writes, power losses and repeated initialisation. -/
namespace KeyWallet

open CrashProgram StepSystem

abbrev PinLog := List (PinEvent × Files)

/-- Wrong comparisons since the last correct one. The log is oldest first. -/
def wrongGuesses (log : PinLog) : Nat :=
  log.foldl (fun n e => if e.1 = .compared true then 0 else n + 1) 0

/-- The retry counter in EF_PIN. -/
def retriesOf (files : Files) : Nat := retryCount ((fileBytes (files .efPin)).headD 0)

/-- The wrong guesses that a PIN file still allows; before a PIN is set, all of them. -/
def budget (data : Bytes) : Nat := if data = [] then 8 else retryCount (data.headD 0)

theorem wrongGuesses_append (log : PinLog) (c : Bool) (files : Files) :
    wrongGuesses (log ++ [(.compared c, files)]) = if c then 0 else wrongGuesses log + 1 := by
  cases c <;> simp [wrongGuesses, List.foldl_append]

section RetryByte

theorem retryCount_decremented : ∀ x : Byte, retryCount x ≠ 0 →
    retryCount (retryDecremented x) + 1 = retryCount x := by
  unfold retryCount retryDecremented
  decide +kernel

theorem retryCount_marked : ∀ x : Byte, retryCount (x ||| pinRetryPowerCycle) = retryCount x := by
  unfold retryCount
  decide +kernel

end RetryByte

theorem budget_cons (x : Byte) (xs : Bytes) : budget (x :: xs) = retryCount x := by
  simp [budget]

theorem budget_max (data : Bytes) : budget (maxPinRetries :: data) = 8 := by
  rw [budget_cons]
  decide

theorem budget_le_set (data : Bytes) : budget (data.set 0 maxPinRetries) ≤ 8 := by
  cases data with
  | nil => exact Nat.le_refl 8
  | cons x xs => exact Nat.le_of_eq (budget_max xs)

theorem budget_spent {data : Bytes} (h : PinSized data) (hcount : retryCount (data.headD 0) ≠ 0) :
    budget (data.set 0 (retryDecremented (data.headD 0))) + 1 = budget data := by
  cases data with
  | nil => exact absurd h.pos (by simp)
  | cons x xs =>
    rw [List.set_cons_zero, budget_cons, budget_cons]
    exact retryCount_decremented x hcount

theorem budget_marked {data : Bytes} (h : PinSized data) :
    budget (data.set 0 (data.headD 0 ||| pinRetryPowerCycle)) = budget data := by
  cases data with
  | nil => exact absurd h.pos (by simp)
  | cons x xs =>
    rw [List.set_cons_zero, budget_cons, budget_cons]
    exact retryCount_marked x

/-- What must hold whenever the power may go: the wrong guesses and what the files still allow
stay within the limit. -/
structure Bounded (m : FidoMachine) : Prop where
  view : wrongGuesses m.log + budget (fileBytes (m.view .efPin)) ≤ 8
  flash : wrongGuesses m.log + budget (fileBytes (m.flash .efPin)) ≤ 8

/-- Every comparison made since `m` found a counter one lower than that of `m` in the flash. -/
def Logged (m n : FidoMachine) : Prop :=
  ∃ new, n.log = m.log ++ new ∧ ∀ e ∈ new, retriesOf e.2 + 1 = retriesOf m.view

/-- The wrong guesses of this power cycle, which began when the log had `start` entries, correct ones in
between or not. -/
def cycleGuesses (start : Nat) (m : FidoMachine) : Nat :=
  (m.log.drop start).countP fun e => e.1 = .compared false

/-- The invariant between two commands. -/
structure RetryInv (start : Nat) (m : FidoMachine) : Prop where
  bounded : Bounded m
  start_le : start ≤ m.log.length
  cycle : cycleGuesses start m ≤ 3
  locked : m.vars.needsPowerCycle = true →
    m.flash .efPin = m.view .efPin ∧ fileBytes (m.view .efPin) ≠ []

theorem Logged.refl (m : FidoMachine) : Logged m m := ⟨[], by simp, by simp⟩

theorem Logged.of_log {m n : FidoMachine} (h : n.log = m.log) : Logged m n :=
  ⟨[], by simp [h], by simp⟩

section Frames

variable {f : Faults} {start : Nat} {m n : FidoMachine}

/-- The parts of the machine that the invariant reads. -/
structure SamePin (m n : FidoMachine) : Prop where
  view : n.view .efPin = m.view .efPin
  flash : n.flash .efPin = m.flash .efPin ∨ n.flash .efPin = m.view .efPin
  log : n.log = m.log
  locked : n.vars.needsPowerCycle = m.vars.needsPowerCycle

theorem SamePin.refl (m : FidoMachine) : SamePin m m := ⟨rfl, .inl rfl, rfl, rfl⟩

theorem Bounded.same (h : Bounded m) (hs : SamePin m n) : Bounded n := by
  refine ⟨?_, ?_⟩
  · rw [hs.log, hs.view]
    exact h.view
  · rw [hs.log]
    rcases hs.flash with hf | hf <;> rw [hf]
    · exact h.flash
    · exact h.view

theorem RetryInv.same (h : RetryInv start m) (hs : SamePin m n) : RetryInv start n := by
  obtain ⟨h1, h2, h3, h5⟩ := h
  refine ⟨h1.same hs, by rwa [hs.log], ?_, ?_⟩
  · rw [cycleGuesses, hs.log]
    exact h3
  · rw [hs.locked, hs.view]
    intro hl
    obtain ⟨he, hne⟩ := h5 hl
    rcases hs.flash with hf | hf
    · exact ⟨hf.trans he, hne⟩
    · exact ⟨hf, hne⟩

theorem samePin_confined {α : Type} {p : Fido α}
    (hp : Confined (fun k _ => k ≠ .efPin) (fun v v' => v'.needsPowerCycle = v.needsPowerCycle) p) :
    wp f p (fun _ => SamePin m) (fun _ => SamePin m) (SamePin m) m := by
  refine wp_confined ?_ ?_ ?_ ?_ hp (SamePin.refl m)
  · intro n k v hk hn
    exact ⟨by rw [Machine.write_view, Function.update_of_ne hk.symm, hn.view], hn.flash, hn.log, hn.locked⟩
  · exact fun n k hn => ⟨hn.view, hn.flash, hn.log, hn.locked⟩
  · exact fun n hn => ⟨hn.view, .inr hn.view, hn.log, hn.locked⟩
  · intro n v hv hn
    exact ⟨hn.view, hn.flash, hn.log, hv.trans hn.locked⟩

end Frames

/-- After a correct comparison, or before a PIN is set: the budget is whole. -/
structure Cleared (start : Nat) (m : FidoMachine) : Prop where
  guesses : wrongGuesses m.log = 0
  start_le : start ≤ m.log.length
  cycle : cycleGuesses start m ≤ 3
  view : budget (fileBytes (m.view .efPin)) ≤ 8
  flash : budget (fileBytes (m.flash .efPin)) ≤ 8
  unlocked : m.vars.needsPowerCycle = false

theorem Cleared.inv {start : Nat} {m : FidoMachine} (h : Cleared start m) : RetryInv start m := by
  refine ⟨⟨?_, ?_⟩, h.start_le, h.cycle, ?_⟩
  · rw [h.guesses, Nat.zero_add]
    exact h.view
  · rw [h.guesses, Nat.zero_add]
    exact h.flash
  · intro hl
    rw [h.unlocked] at hl
    cases hl

/-- What the accepted commands write to EF_PIN has a fresh retry byte. -/
def freshRetry (k : Fid) (v : Option Ef) : Prop := k = .efPin → budget (fileBytes v) ≤ 8

def staysUnlocked (v v' : FidoVars) : Prop :=
  v.needsPowerCycle = false → v'.needsPowerCycle = false

theorem cleared_confined {f : Faults} {start : Nat} {m n : FidoMachine} {α : Type} {p : Fido α}
    (hp : Confined freshRetry staysUnlocked p) (h : Cleared start n) (hl : Logged m n) :
    wp f p (fun _ n => RetryInv start n ∧ Logged m n) (fun _ n => RetryInv start n ∧ Logged m n)
      (fun n => Bounded n ∧ Logged m n) n := by
  have hwp : wp f p (fun _ n => Cleared start n ∧ Logged m n)
      (fun _ n => Cleared start n ∧ Logged m n) (fun n => Cleared start n ∧ Logged m n) n := by
    refine wp_confined ?_ ?_ ?_ ?_ hp ⟨h, hl⟩
    · rintro n k v hk ⟨hn, hl⟩
      refine ⟨⟨hn.guesses, hn.start_le, hn.cycle, ?_, hn.flash, hn.unlocked⟩, hl⟩
      by_cases hpin : k = .efPin
      · subst hpin
        rw [Machine.write_view, Function.update_self]
        exact hk rfl
      · rw [Machine.write_view, Function.update_of_ne (Ne.symm hpin)]
        exact hn.view
    · exact fun n k hn =>
        ⟨⟨hn.1.guesses, hn.1.start_le, hn.1.cycle, hn.1.view, hn.1.flash, hn.1.unlocked⟩, hn.2⟩
    · exact fun n hn =>
        ⟨⟨hn.1.guesses, hn.1.start_le, hn.1.cycle, hn.1.view, hn.1.view, hn.1.unlocked⟩, hn.2⟩
    · exact fun n v hv hn =>
        ⟨⟨hn.1.guesses, hn.1.start_le, hn.1.cycle, hn.1.view, hn.1.flash, hv hn.1.unlocked⟩, hn.2⟩
  exact wp_mono hwp (fun _ _ hn => ⟨hn.1.inv, hn.2⟩) (fun _ _ hn => ⟨hn.1.inv, hn.2⟩)
    (fun _ hn => ⟨hn.1.inv.bounded, hn.2⟩)

/-! The parts of the commands that run once the budget is whole. -/
section Accepted

variable {d : Device} {b : Beyond}

theorem freshRetry_of_ne {k : Fid} (h : k ≠ .efPin) (v : Option Ef) : freshRetry k v :=
  fun hk => absurd hk h

theorem keyOps_fresh : KeyOps freshRetry staysUnlocked where
  keyFile := fun _ => freshRetry_of_ne (by decide) _
  drawn := fun _ h => h
  unlocked := fun _ h => h
  session := fun _ _ h => h

theorem putPin_fresh (pinData : Bytes) :
    Confined freshRetry staysUnlocked (filePutData .efPin (pinData.set 0 maxPinRetries)) := by
  apply filePutData_confined
  intro old _
  rw [fileBytes_written]
  exact budget_le_set _

theorem mismatchesCleared_fresh :
    Confined freshRetry staysUnlocked
      (setting fun v => { v with newPinMismatches := 0 } : Fido Unit) :=
  setting_confined fun _ h => h

theorem acceptOldPin_fresh (pinData : Bytes) (len : Nat) (candidate : Bytes) :
    Confined freshRetry staysUnlocked (acceptOldPin d b pinData len candidate) := by
  apply (upgradeLegacy_confined keyOps_fresh pinData len candidate _).bind
  rintro ⟨pinData', keydev⟩
  refine Confined.bind ?_ fun _ => pure_confined _
  apply (setSession_confined keyOps_fresh _).bind
  intro _
  apply (putPin_fresh _).bind
  intro _
  apply flashCommit_confined.bind
  intro _
  apply (checkKeydevEncrypted_confined keyOps_fresh _).bind
  exact fun _ => mismatchesCleared_fresh

theorem acceptTokenPin_fresh (pinData : Bytes) (len : Nat) (candidate : Bytes) :
    Confined freshRetry staysUnlocked (acceptTokenPin d b pinData len candidate) := by
  apply (upgradeLegacy_confined keyOps_fresh pinData len candidate _).bind
  rintro ⟨pinData', keydev⟩
  apply (setSession_confined keyOps_fresh _).bind
  intro _
  apply (checkKeydevEncrypted_confined keyOps_fresh _).bind
  intro _
  apply mismatchesCleared_fresh.bind
  intro _
  apply (putPin_fresh _).bind
  exact fun _ => flashCommit_confined

theorem unlocked_fresh (g : FidoVars → FidoVars) (hg : ∀ v, (g v).needsPowerCycle = false) :
    Confined freshRetry staysUnlocked (setting g : Fido Unit) :=
  setting_confined fun v _ => hg v

theorem finishNewPin_fresh : Confined freshRetry staysUnlocked (finishNewPin d) :=
  finishNewPin_confined (fun _ => freshRetry_of_ne (by decide) _)
    (fun _ => freshRetry_of_ne (by decide) _) (fun _ => freshRetry_of_ne (by decide) _)
    (fun _ h => h) (fun _ _ h => h) fun _ _ => rfl

theorem storeNewPin_fresh (newPin : Bytes) :
    Confined freshRetry staysUnlocked (storeNewPin d newPin) := by
  apply (readFile_confined .efMinPinLen).bind
  intro minpin
  apply (readFile_confined .efPin).bind
  intro ef
  split_ifs
  · exact fail_confined _
  · refine Confined.bind ?_ fun _ => finishNewPin_fresh
    apply filePutData_confined
    intro old _
    rw [fileBytes_written]
    exact Nat.le_of_eq (budget_max _)

theorem liftCheck_confined {α : Type} (r : Except CtapErr α) {W : Fid → Option Ef → Prop}
    {U : FidoVars → FidoVars → Prop} : Confined W U (liftCheck r : Fido α) := by
  cases r <;> trivial

theorem changeAccepted_fresh (req : PinRequest) (secret newPinEnc pinData : Bytes) (len : Nat)
    (candidate : Bytes) :
    Confined freshRetry staysUnlocked
      (changeAccepted d b req secret newPinEnc pinData len candidate) := by
  apply (acceptOldPin_fresh pinData len candidate).bind
  intro keydev
  refine Confined.bind (fun _ _ => trivial) fun checked => ?_
  apply (liftCheck_confined checked).bind
  intro newPin
  apply (rewrapKeydev_confined keyOps_fresh _ _).bind
  intro _
  apply flashCommit_confined.bind
  exact fun _ => storeNewPin_fresh newPin

end Accepted

/-- The state in which a candidate is judged: the retry is spent, durably. -/
structure Spent (start : Nat) (m n : FidoMachine) : Prop where
  inv : RetryInv start n
  room : wrongGuesses n.log + budget (fileBytes (n.view .efPin)) + 1 ≤ 8
  durable : n.flash .efPin = n.view .efPin
  sized : PinSized (fileBytes (n.view .efPin))
  retries : retriesOf n.flash + 1 = retriesOf m.view
  log : n.log = m.log
  unlocked : n.vars.needsPowerCycle = false
  few : cycleGuesses start n < 3

section Judging

variable {f : Faults} {d : Device} {b : Beyond} {start : Nat} {m n : FidoMachine}

theorem retriesOf_putEf (m : FidoMachine) (data : Bytes) :
    retriesOf (putEf m .efPin data).view = retryCount (data.headD 0) := by
  rw [retriesOf, putEf_self]

theorem RetryInv.rewrite (h : RetryInv start m) (hunlocked : m.vars.needsPowerCycle = false)
    {data : Bytes} (hle : budget data ≤ budget (fileBytes (m.view .efPin))) :
    RetryInv start (putEf m .efPin data) ∧ RetryInv start (putEf m .efPin data).sync := by
  have hview : wrongGuesses m.log + budget data ≤ 8 := by
    have hv := h.bounded.view
    omega
  have hlock : ∀ {P : Prop}, m.vars.needsPowerCycle = true → P := by
    intro P hl
    rw [hunlocked] at hl
    cases hl
  refine ⟨⟨⟨?_, h.bounded.flash⟩, h.start_le, h.cycle, hlock⟩, ⟨⟨?_, ?_⟩, h.start_le, h.cycle, hlock⟩⟩
  · rw [putEf_self]; exact hview
  · rw [Machine.sync_view, putEf_self]; exact hview
  · rw [Machine.sync_flash, putEf_self]; exact hview

theorem RetryInv.lock (h : RetryInv start m) (hd : m.flash .efPin = m.view .efPin)
    (hne : fileBytes (m.view .efPin) ≠ []) :
    RetryInv start (m.setVars { m.vars with needsPowerCycle := true }) :=
  ⟨⟨h.bounded.view, h.bounded.flash⟩, h.start_le, h.cycle, fun _ => ⟨hd, hne⟩⟩

/-- The state after a wrong comparison, before it is counted in RAM. -/
structure Missed (start : Nat) (m n : FidoMachine) : Prop where
  bounded : Bounded n
  start_le : start ≤ n.log.length
  cycle : cycleGuesses start n ≤ 3
  unlocked : n.vars.needsPowerCycle = false
  durable : n.flash .efPin = n.view .efPin
  sized : PinSized (fileBytes (n.view .efPin))
  logged : Logged m n

theorem Missed.same {n' : FidoMachine} (h : Missed start m n) (hs : SamePin n n') :
    Missed start m n' := by
  refine ⟨h.bounded.same hs, by rw [hs.log]; exact h.start_le, ?_, ?_, ?_, ?_, ?_⟩
  · rw [cycleGuesses, hs.log]
    exact h.cycle
  · rw [hs.locked]
    exact h.unlocked
  · rw [hs.view]
    rcases hs.flash with hf | hf
    · exact hf.trans h.durable
    · exact hf
  · rw [hs.view]
    exact h.sized
  · obtain ⟨new, hnew, hall⟩ := h.logged
    exact ⟨new, hs.log.trans hnew, hall⟩

theorem Missed.inv (h : Missed start m n) (v : FidoVars) : RetryInv start (n.setVars v) :=
  ⟨⟨h.bounded.view, h.bounded.flash⟩, h.start_le, h.cycle,
    fun _ => ⟨h.durable, List.ne_nil_of_length_pos h.sized.pos⟩⟩

theorem SamePin.setVars {v : FidoVars} (h : v.needsPowerCycle = m.vars.needsPowerCycle) :
    SamePin m (m.setVars v) :=
  ⟨rfl, .inl rfl, rfl, h⟩

theorem pinMismatch_retry {k : Nat} (h : Missed start m n) :
    wp f (pinMismatch d (fileBytes (n.view .efPin) ++ List.replicate k 0)
        (fileBytes (n.view .efPin)).length) (fun _ _ => False)
      (fun _ n => RetryInv start n ∧ Logged m n) (fun n => Bounded n ∧ Logged m n) n := by
  obtain ⟨data, hdata⟩ : ∃ data, fileBytes (n.view .efPin) = data := ⟨_, rfl⟩
  have hsized : PinSized data := hdata ▸ h.sized
  have hhead : (data ++ List.replicate k 0).headD 0 = data.headD 0 := by
    cases data with
    | nil => exact absurd hsized.pos (by simp)
    | cons x xs => rfl
  rw [hdata]
  unfold pinMismatch regenerate
  simp only [bind_eq, wp_bind, wp_setting, hhead]
  -- the new key agreement key and the new token leave the counters alone
  have hreset : wp f (resetAuthToken d .efAuthToken)
      (fun _ => SamePin (n.setVars { n.vars with hkey := n.vars.hkey + 1 })) (fun _ _ => False)
      (SamePin (n.setVars { n.vars with hkey := n.vars.hkey + 1 }))
      (n.setVars { n.vars with hkey := n.vars.hkey + 1 }) := by
    apply wp_total (resetAuthToken_total .efAuthToken)
    apply samePin_confined
    exact resetAuthToken_confined (fun _ => by decide) (fun _ => rfl) fun _ => rfl
  have hsame : ∀ n2, SamePin (n.setVars { n.vars with hkey := n.vars.hkey + 1 }) n2 →
      Missed start m n2 ∧ fileBytes (n2.view .efPin) = data := by
    intro n2 hs
    refine ⟨h.same ⟨hs.view, hs.flash, hs.log, hs.locked⟩, ?_⟩
    rw [hs.view, ← hdata]
    rfl
  apply wp_mono hreset _ (fun _ _ hn => hn.elim)
    (fun n2 hs => ⟨(hsame n2 hs).1.bounded, (hsame n2 hs).1.logged⟩)
  rintro - n2 hs
  obtain ⟨h2, hbytes⟩ := hsame n2 hs
  split_ifs with h0 hl
  · exact ⟨h2.inv n2.vars, h2.logged⟩
  · exact ⟨h2.inv _, h2.logged⟩
  · -- counted in RAM; at the third the lock goes into the file first
    simp only [wp_bind, wp_setting, wp_readVars]
    have h3 : RetryInv start
        (n2.setVars { n2.vars with newPinMismatches := n2.vars.newPinMismatches + 1 }) := h2.inv _
    split_ifs
    · exact ⟨h3, h2.logged⟩
    · have htake : ((data ++ List.replicate k 0).set 0 (data.headD 0 ||| pinRetryPowerCycle)).take
          data.length = data.set 0 (data.headD 0 ||| pinRetryPowerCycle) := by
        rw [List.set_append_left _ _ hsized.pos]
        exact List.take_left' (by simp)
      have hle : budget (data.set 0 (data.headD 0 ||| pinRetryPowerCycle)) ≤
          budget (fileBytes (n2.view .efPin)) := by
        apply Nat.le_of_eq
        rw [hbytes, budget_marked hsized]
      obtain ⟨hput, hsync⟩ := h3.rewrite h2.unlocked hle
      rw [wp_bind]
      apply persistPinRetryCounter_wp hsized.pos
      · simp
      · rw [htake]
        exact ⟨⟨h3.bounded, h2.logged⟩, hput.bounded, h2.logged⟩
      · rw [htake]
        refine ⟨hsync.lock rfl ?_, h2.logged⟩
        rw [Machine.sync_view, putEf_self]
        exact List.ne_nil_of_length_pos (by rw [List.length_set]; exact hsized.pos)
      · rw [htake]
        exact fun _ => ⟨⟨h3, h2.logged⟩, ⟨hput, h2.logged⟩, hsync, h2.logged⟩

theorem Spent.logged (h : Spent start m n) (c : Bool) : Logged m (n.record (.compared c)) := by
  refine ⟨[(.compared c, n.flash)], by rw [Machine.record_log, h.log], ?_⟩
  intro e he
  rw [List.mem_singleton.mp he]
  exact h.retries

theorem cycleGuesses_record (c : Bool) (h : start ≤ n.log.length) :
    cycleGuesses start (n.record (.compared c)) = if c then cycleGuesses start n else cycleGuesses start n + 1 := by
  unfold cycleGuesses
  rw [Machine.record_log, List.drop_append_of_le_length h, List.countP_append]
  cases c
  · rfl
  · rfl

theorem Spent.missed (h : Spent start m n) : Missed start m (n.record (.compared false)) := by
  have hroom := h.room
  refine ⟨⟨?_, ?_⟩, ?_, ?_, h.unlocked, h.durable, h.sized, h.logged false⟩
  · rw [Machine.record_log, wrongGuesses_append, Machine.record_view]
    simp only [Bool.false_eq_true, if_false]
    omega
  · rw [Machine.record_log, wrongGuesses_append, Machine.record_flash, h.durable]
    simp only [Bool.false_eq_true, if_false]
    omega
  · rw [Machine.record_log, List.length_append]
    exact Nat.le_add_right_of_le h.inv.start_le
  · rw [cycleGuesses_record false h.inv.start_le]
    exact h.few

theorem Spent.cleared (h : Spent start m n) : Cleared start (n.record (.compared true)) := by
  have hroom := h.room
  refine ⟨?_, ?_, ?_, ?_, ?_, h.unlocked⟩
  · rw [Machine.record_log, wrongGuesses_append]
    rfl
  · rw [Machine.record_log, List.length_append]
    exact Nat.le_add_right_of_le h.inv.start_le
  · rw [cycleGuesses_record true h.inv.start_le]
    exact h.inv.cycle
  · rw [Machine.record_view]
    omega
  · rw [Machine.record_flash, h.durable]
    omega

theorem judgeCandidate_retry {protocol len : Nat} {secret hashEnc pinData : Bytes}
    {Q : Bytes → FidoMachine → Prop} (h : Spent start m n) (hbuf : Buffered n pinData len)
    (hQ : ∀ candidate n', Cleared start n' → Logged m n' → Q candidate n') :
    wp f (judgeCandidate d b protocol secret hashEnc pinData len) Q
      (fun _ n => RetryInv start n ∧ Logged m n) (fun n => Bounded n ∧ Logged m n) n := by
  obtain ⟨rfl, rfl⟩ := hbuf
  unfold judgeCandidate
  split
  · exact ⟨h.inv, .of_log h.log⟩
  · simp only [bind_eq, pure_eq, wp_bind, wp_event]
    split_ifs with hver
    · rw [wp_bind, hver]
      exact wp_mono (pinMismatch_retry h.missed) (fun _ _ hn => hn.elim) (fun _ _ hn => hn)
        (fun _ hn => hn)
    · rw [Bool.not_eq_false] at hver
      simp only [wp_bind, wp_readVars, hver]
      split_ifs with hlock
      · exact ⟨h.cleared.inv, h.logged true⟩
      · exact hQ _ _ h.cleared (h.logged true)

end Judging

end KeyWallet
