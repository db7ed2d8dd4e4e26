import KeyWallet.PinRetry

/-! Runs of the clientPIN subcommands with refused writes, power losses and initialisation by the
host, and the retry discipline along them. -/
namespace KeyWallet

open CrashProgram StepSystem

section Commands

variable {f : Faults} {d : Device} {b : Beyond} {start : Nat} {m n : FidoMachine}

theorem setAccepted_fresh (req : PinRequest) (secret newPinEnc : Bytes) :
    Confined freshRetry staysUnlocked (setAccepted d b req secret newPinEnc) := by
  unfold setAccepted
  split
  · exact fail_confined _
  · next padded _ =>
    refine Confined.bind (fun _ _ => trivial) fun checked => ?_
    apply (liftCheck_confined checked).bind
    intro newPin
    refine Confined.bind ?_ fun _ => ?_
    · apply filePutData_confined
      intro old _
      rw [fileBytes_written]
      exact Nat.le_of_eq (budget_max _)
    · apply flashCommit_confined.bind
      intro _
      apply (setSession_confined keyOps_fresh _).bind
      intro _
      apply (checkKeydevEncrypted_confined keyOps_fresh _).bind
      exact fun _ => unlocked_fresh _ fun _ => rfl

theorem tokenAccepted_fresh (withPermissions : Bool) (req : PinRequest) (pinData : Bytes)
    (len : Nat) (candidate : Bytes) :
    Confined freshRetry staysUnlocked
      (tokenAccepted d b withPermissions req pinData len candidate) := by
  apply (acceptTokenPin_fresh pinData len candidate).bind
  intro _
  apply (readFile_confined .efMinPinLen).bind
  intro minpin
  have hend : Confined freshRetry staysUnlocked
      (setting fun v => { v with needsPowerCycle := false } : Fido Unit) :=
    unlocked_fresh _ fun _ => rfl
  split_ifs
  · exact fail_confined _
  · exact fail_confined _
  · refine Confined.bind ?_ fun _ => hend
    exact issueToken_confined (fun _ => freshRetry_of_ne (by decide) _) (fun _ h => h) (fun _ h => h)
      (fun _ _ h => h) (fun _ _ h => h) withPermissions req

theorem fileBytes_of_noData {ef : Option Ef} (h : ¬ fileHasData ef = true) : fileBytes ef = [] := by
  have hzero : ¬ 0 < (fileBytes ef).length := fun hpos => h (decide_eq_true hpos)
  exact List.eq_nil_of_length_eq_zero (Nat.eq_zero_of_not_pos hzero)

/-- setPIN goes on only while there is no PIN. -/
theorem setPinGuards_ok {req : PinRequest} {v : FidoVars} {files : Files} {args : Bytes × Bytes}
    (h : setPinGuards d b req v files = .ok args) : fileBytes (files .efPin) = [] := by
  unfold setPinGuards at h
  split at h
  · obtain ⟨-, h⟩ := guard_ok h
    exact fileBytes_of_noData (guard_ok h).1
  · cases h

theorem RetryInv.cleared_of_empty (h : RetryInv start m) (hempty : fileBytes (m.view .efPin) = []) :
    Cleared start m := by
  have hview := h.bounded.view
  have hflash := h.bounded.flash
  have hbudget : budget (fileBytes (m.view .efPin)) = 8 := by rw [hempty]; rfl
  refine ⟨by omega, h.start_le, h.cycle, by omega, by omega, ?_⟩
  cases hl : m.vars.needsPowerCycle with
  | false => rfl
  | true => exact absurd hempty (h.locked hl).2

theorem RetryInv.spend (h : RetryInv start m) (hsized : PinSized (fileBytes (m.view .efPin)))
    (hcount : retryCount ((fileBytes (m.view .efPin)).headD 0) ≠ 0)
    (hunlocked : m.vars.needsPowerCycle = false) (hfew : cycleGuesses start m < 3) :
    Spent start m (putEf m .efPin (spentPin m.view)).sync := by
  have hbudget : budget (spentPin m.view) + 1 = budget (fileBytes (m.view .efPin)) :=
    budget_spent hsized hcount
  have hview := h.bounded.view
  have hle : budget (spentPin m.view) ≤ budget (fileBytes (m.view .efPin)) := by omega
  have hread : fileBytes ((putEf m .efPin (spentPin m.view)).view .efPin) = spentPin m.view :=
    putEf_self m .efPin _
  refine ⟨(h.rewrite hunlocked hle).2, ?_, rfl, ?_, ?_, rfl, hunlocked, hfew⟩
  · rw [Machine.sync_view, hread]
    show wrongGuesses m.log + budget (spentPin m.view) + 1 ≤ 8
    omega
  · rw [Machine.sync_view, hread]
    unfold PinSized spentPin at *
    rwa [List.length_set]
  · show retriesOf (putEf m .efPin (spentPin m.view)).view + 1 = retriesOf m.view
    rw [retriesOf_putEf]
    unfold spentPin retriesOf
    cases hx : fileBytes (m.view .efPin) with
    | nil => exact absurd hsized.pos (by rw [hx]; decide)
    | cons x xs =>
      rw [hx] at hcount
      exact retryCount_decremented x hcount

theorem setPin_retry (h : RetryInv start m) (req : PinRequest) :
    wp f (setPin d b req) (fun _ n => RetryInv start n ∧ Logged m n)
      (fun _ n => RetryInv start n ∧ Logged m n) (fun n => Bounded n ∧ Logged m n) m := by
  unfold setPin
  simp only [bind_eq, wp_bind, wp_consult]
  cases hg : setPinGuards d b req m.vars m.view with
  | error e => exact ⟨h, .refl m⟩
  | ok args =>
    exact cleared_confined (setAccepted_fresh req _ _) (h.cleared_of_empty (setPinGuards_ok hg))
      (.refl m)

theorem spendAndJudge_retry (h : RetryInv start m) (hunlocked : m.vars.needsPowerCycle = false)
    (hfew : cycleGuesses start m < 3) {protocol : Nat} {secret hashEnc : Bytes}
    {accepted : Bytes → Nat → Bytes → Fido Unit}
    (hacc : ∀ pinData len candidate,
      Confined freshRetry staysUnlocked (accepted pinData len candidate)) :
    wp f (spendRetry.bind fun spent =>
        (judgeCandidate d b protocol secret hashEnc spent.1 spent.2).bind
          (accepted spent.1 spent.2))
      (fun _ n => RetryInv start n ∧ Logged m n) (fun _ n => RetryInv start n ∧ Logged m n)
      (fun n => Bounded n ∧ Logged m n) m := by
  rw [wp_bind]
  apply spendRetry_wp
  · exact fun _ _ => ⟨h, .refl m⟩
  · intro hsized hcount
    have hspent : Spent start m (putEf m .efPin (spentPin m.view)).sync :=
      h.spend hsized hcount hunlocked hfew
    have hle : budget (spentPin m.view) ≤ budget (fileBytes (m.view .efPin)) := by
      have hbudget : budget (spentPin m.view) + 1 = budget (fileBytes (m.view .efPin)) :=
        budget_spent hsized hcount
      omega
    have hput := (h.rewrite hunlocked hle).1
    refine ⟨⟨⟨h.bounded, .refl m⟩, hput.bounded, .of_log rfl⟩, ?_,
      fun _ => ⟨⟨h, .refl m⟩, ⟨hput, .of_log rfl⟩, hspent.inv, .of_log rfl⟩⟩
    rw [wp_bind]
    apply judgeCandidate_retry hspent (spent_buffered m)
    exact fun candidate n' hn hl => cleared_confined (hacc _ _ candidate) hn hl

theorem changePin_retry (h : RetryInv start m) (req : PinRequest)
    (hsafe : (changePinGuards d b req m.vars m.view).isOk = true → cycleGuesses start m < 3) :
    wp f (changePin d b req) (fun _ n => RetryInv start n ∧ Logged m n)
      (fun _ n => RetryInv start n ∧ Logged m n) (fun n => Bounded n ∧ Logged m n) m := by
  unfold changePin
  simp only [bind_eq]
  rw [wp_bind, wp_consult, wp_bind]
  cases hg : changePinGuards d b req m.vars m.view with
  | error e => exact ⟨h, .refl m⟩
  | ok args =>
    rw [wp_liftCheck]
    exact spendAndJudge_retry h (changePinGuards_ok hg).2.1 (hsafe (by rw [hg]; rfl))
      (changeAccepted_fresh req _ _)

theorem getPinToken_retry (h : RetryInv start m) (withPermissions : Bool) (req : PinRequest)
    (hsafe : (getPinTokenGuards d withPermissions req m.vars m.view).isOk = true →
      m.vars.needsPowerCycle = false ∧ cycleGuesses start m < 3) :
    wp f (getPinToken d b withPermissions req) (fun _ n => RetryInv start n ∧ Logged m n)
      (fun _ n => RetryInv start n ∧ Logged m n) (fun n => Bounded n ∧ Logged m n) m := by
  unfold getPinToken
  simp only [bind_eq]
  rw [wp_bind, wp_consult, wp_bind]
  cases hg : getPinTokenGuards d withPermissions req m.vars m.view with
  | error e => exact ⟨h, .refl m⟩
  | ok args =>
    rw [wp_liftCheck]
    obtain ⟨hunlocked, hfew⟩ := hsafe (by rw [hg]; rfl)
    exact spendAndJudge_retry h hunlocked hfew (tokenAccepted_fresh withPermissions req)

end Commands

/-- The variables once initialize has made sure of a key agreement key. -/
def initialized (v : FidoVars) : FidoVars := { v with hkey := if v.hkey = 0 then 1 else v.hkey }

/-- The request passes the checks in front of the retry counter. -/
def reachesRetry (d : Device) (b : Beyond) (cmd : PinCommand) (v : FidoVars) (files : Files) : Bool :=
  match cmd with
  | .setPin _ => false
  | .changePin req => (changePinGuards d b req (initialized v) files).isOk
  | .getPinToken withPermissions req =>
    (getPinTokenGuards d withPermissions req (initialized v) files).isOk

section ClientPin

variable {f : Faults} {d : Device} {b : Beyond} {start : Nat} {m n : FidoMachine}

theorem SamePin.trans {k : FidoMachine} (h : SamePin m n) (h' : SamePin n k) : SamePin m k := by
  refine ⟨h'.view.trans h.view, ?_, h'.log.trans h.log, h'.locked.trans h.locked⟩
  rcases h'.flash with hf | hf
  · rw [hf]
    exact h.flash
  · exact .inr (hf.trans h.view)

theorem SamePin.logged {k : FidoMachine} (h : SamePin m n) (hl : Logged n k) : Logged m k := by
  obtain ⟨new, hnew, hall⟩ := hl
  refine ⟨new, by rw [hnew, h.log], ?_⟩
  intro e he
  have hr := hall e he
  unfold retriesOf at *
  rwa [h.view] at hr

theorem initializeHkey_same :
    wp f (initializeHkey d)
      (fun _ n => SamePin m n ∧ n.vars.hkey = (initialized m.vars).hkey) (fun _ _ => False)
      (SamePin m) m := by
  unfold initializeHkey regenerate
  simp only [bind_eq, pure_eq, wp_bind, wp_readVars]
  split_ifs with hzero
  · rw [wp_bind, wp_setting]
    -- the token file is written; the counters and the new key stay
    have hreset : wp f (resetAuthToken d .efAuthToken)
        (fun _ n => SamePin m n ∧ n.vars.hkey = m.vars.hkey + 1)
        (fun _ n => SamePin m n ∧ n.vars.hkey = m.vars.hkey + 1)
        (fun n => SamePin m n ∧ n.vars.hkey = m.vars.hkey + 1)
        (m.setVars { m.vars with hkey := m.vars.hkey + 1 }) := by
      apply wp_confined (W := fun k _ => k ≠ .efPin) (U := fun v v' =>
        v'.needsPowerCycle = v.needsPowerCycle ∧ v'.hkey = v.hkey)
      · rintro n k v hk ⟨hn, hh⟩
        refine ⟨⟨?_, hn.flash, hn.log, hn.locked⟩, hh⟩
        rw [Machine.write_view, Function.update_of_ne hk.symm, hn.view]
      · rintro n k ⟨hn, hh⟩
        exact ⟨⟨hn.view, hn.flash, hn.log, hn.locked⟩, hh⟩
      · rintro n ⟨hn, hh⟩
        exact ⟨⟨hn.view, .inr hn.view, hn.log, hn.locked⟩, hh⟩
      · rintro n v ⟨hv, hv'⟩ ⟨hn, hh⟩
        exact ⟨⟨hn.view, hn.flash, hn.log, hv.trans hn.locked⟩, hv'.trans hh⟩
      · exact resetAuthToken_confined (fun _ => by decide) (fun _ => ⟨rfl, rfl⟩) fun _ => ⟨rfl, rfl⟩
      · exact ⟨.setVars rfl, rfl⟩
    have hkey : m.vars.hkey + 1 = (initialized m.vars).hkey := by simp [initialized, hzero]
    apply wp_total (resetAuthToken_total _)
    exact wp_mono hreset (fun _ _ hn => ⟨hn.1, hn.2.trans hkey⟩) (fun _ _ hn => hn) (fun _ hn => hn.1)
  · exact ⟨.refl m, by simp [initialized, hzero]⟩

theorem changePinGuards_same {req : PinRequest} (h : SamePin m n)
    (hkey : n.vars.hkey = (initialized m.vars).hkey) :
    changePinGuards d b req n.vars n.view =
      changePinGuards d b req (initialized m.vars) m.view := by
  have hlock : n.vars.needsPowerCycle = (initialized m.vars).needsPowerCycle := h.locked
  unfold changePinGuards sharedSecret
  rw [h.view, hkey, hlock]

theorem getPinTokenGuards_same {withPermissions : Bool} {req : PinRequest} (h : SamePin m n)
    (hkey : n.vars.hkey = (initialized m.vars).hkey) :
    getPinTokenGuards d withPermissions req n.vars n.view =
      getPinTokenGuards d withPermissions req (initialized m.vars) m.view := by
  unfold getPinTokenGuards sharedSecret
  rw [h.view, hkey]

/-- What the request must keep to: the retry counter is only reached unlocked, and after fewer than three
wrong guesses in this power cycle. -/
def SafeRequest (d : Device) (b : Beyond) (cmd : PinCommand) (start : Nat) (m : FidoMachine) : Prop :=
  reachesRetry d b cmd m.vars m.view = true → m.vars.needsPowerCycle = false ∧ cycleGuesses start m < 3

theorem cborClientPin_retry (h : RetryInv start m) {cmd : PinCommand}
    (hsafe : SafeRequest d b cmd start m) :
    wp f (cborClientPin d b cmd) (fun _ n => RetryInv start n ∧ Logged m n)
      (fun _ n => RetryInv start n ∧ Logged m n) (fun n => Bounded n ∧ Logged m n) m := by
  unfold cborClientPin
  simp only [bind_eq, wp_bind]
  apply wp_mono initializeHkey_same _ (fun _ _ hn => hn.elim)
    (fun n hs => ⟨h.bounded.same hs, .of_log hs.log⟩)
  rintro - n ⟨hs, hkey⟩
  have hn : RetryInv start n := h.same hs
  -- the commands speak about `n`; the log is that of `m`
  suffices hcmd : wp f (match cmd with
      | .setPin req => setPin d b req
      | .changePin req => changePin d b req
      | .getPinToken withPermissions req => getPinToken d b withPermissions req)
      (fun _ k => RetryInv start k ∧ Logged n k) (fun _ k => RetryInv start k ∧ Logged n k)
      (fun k => Bounded k ∧ Logged n k) n by
    split_ifs
    · exact ⟨hn, .of_log hs.log⟩
    · exact wp_mono hcmd (fun _ _ hk => ⟨hk.1, hs.logged hk.2⟩)
        (fun _ _ hk => ⟨hk.1, hs.logged hk.2⟩) (fun _ hk => ⟨hk.1, hs.logged hk.2⟩)
  cases cmd with
  | setPin req => exact setPin_retry hn req
  | changePin req =>
    apply changePin_retry hn
    rw [changePinGuards_same hs hkey, cycleGuesses, hs.log]
    exact fun hok => (hsafe hok).2
  | getPinToken withPermissions req =>
    apply getPinToken_retry hn
    rw [getPinTokenGuards_same hs hkey, cycleGuesses, hs.log, hs.locked]
    exact hsafe

theorem cborClientPin_locked (h : RetryInv start m) (hl : m.vars.needsPowerCycle = true)
    {cmd : PinCommand} (hsafe : SafeRequest d b cmd start m) :
    wp f (cborClientPin d b cmd) (fun _ => SamePin m) (fun _ => SamePin m) (SamePin m) m := by
  unfold cborClientPin
  simp only [bind_eq, wp_bind]
  apply wp_mono initializeHkey_same _ (fun _ _ hn => hn.elim) (fun n hs => hs)
  rintro - n ⟨hs, hkey⟩
  split_ifs
  · exact hs
  have hstop : ¬ reachesRetry d b cmd m.vars m.view = true := by
    intro hr
    rw [(hsafe hr).1] at hl
    cases hl
  cases cmd with
  | setPin req =>
    show wp f (setPin d b req) _ _ _ n
    unfold setPin
    simp only [bind_eq, wp_bind, wp_consult]
    cases hg : setPinGuards d b req n.vars n.view with
    | error e => exact hs
    | ok args =>
      have hempty := setPinGuards_ok hg
      rw [hs.view] at hempty
      exact absurd hempty (h.locked hl).2
  | changePin req =>
    show wp f (changePin d b req) _ _ _ n
    unfold changePin
    simp only [bind_eq, wp_bind, wp_consult, changePinGuards_same hs hkey]
    cases hg : changePinGuards d b req (initialized m.vars) m.view with
    | error e => exact hs
    | ok args => exact absurd (by rw [reachesRetry, hg]; rfl) hstop
  | getPinToken withPermissions req =>
    show wp f (getPinToken d b withPermissions req) _ _ _ n
    unfold getPinToken
    simp only [bind_eq, wp_bind, wp_consult, getPinTokenGuards_same hs hkey]
    cases hg : getPinTokenGuards d withPermissions req (initialized m.vars) m.view with
    | error e => exact hs
    | ok args => exact absurd (by rw [reachesRetry, hg]; rfl) hstop

theorem initFido_same (hl : m.vars.needsPowerCycle = false) (generated : Bytes) :
    wp f (initFido d generated) (fun _ => SamePin m) (fun _ => SamePin m) (SamePin m) m := by
  unfold initFido
  simp only [bind_eq, wp_bind, wp_setting]
  have hfirst : SamePin m (m.setVars { m.vars with keydevUnlocked := false }) := .setVars rfl
  have hscan : Confined (fun k _ => k ≠ .efPin) (fun v v' => v'.needsPowerCycle = v.needsPowerCycle)
      (scanFilesFido d generated) := by
    apply (readFile_confined .efKeyDev).bind
    intro ef
    apply (readFile_confined .efKeyDevEnc).bind
    intro enc
    split_ifs
    · refine Confined.bind ?_ fun _ => flashCommit_confined
      exact (filePutData_confined fun _ => by decide).bind fun _ => flashCommit_confined
    · exact flashCommit_confined
  apply wp_mono (samePin_confined hscan) _ (fun _ n hn => hfirst.trans hn)
    (fun n hn => hfirst.trans hn)
  intro _ n hn
  have hsame := hfirst.trans hn
  exact hsame.trans (.setVars (hl.symm.trans hsame.locked.symm))

end ClientPin

/-- The device along a run: how often power has gone, and how long the log of comparisons was when
it last came back. -/
structure PinRun where
  machine : FidoMachine
  cycles : Nat
  cycleStart : Nat

inductive PinInput
  | clientPin (b : Beyond) (cmd : PinCommand) (replies : List Reply)
  -- CTAPHID_INIT or an applet SELECT
  | initFido (generated : Bytes) (replies : List Reply)
  -- the flash queue is drained in the background
  | drain
  | powerCycle

namespace PinRun

/-- Power goes and comes back. -/
def restart (s : PinRun) (m : FidoMachine) : PinRun :=
  ⟨m.reboot FidoVars.atBoot, s.cycles + 1, m.log.length⟩

/-- A command has run, perhaps into a power loss. -/
def after (s : PinRun) (r : Outcome CtapErr Unit × FidoMachine × List Reply) : PinRun :=
  match r.1 with
  | .lost => s.restart r.2.1
  | _ => { s with machine := r.2.1 }

def step (d : Device) (s : PinRun) : PinInput → PinRun
  | .clientPin b cmd replies => s.after (exec (cborClientPin d b cmd) s.machine replies)
  | .initFido generated replies => s.after (exec (initFido d generated) s.machine replies)
  | .drain => { s with machine := s.machine.sync }
  | .powerCycle => s.restart s.machine

end PinRun

/-- The device comes up with a PIN file that allows at most MAX_PIN_RETRIES guesses, or with
none. -/
structure PinRun.Fresh (s : PinRun) : Prop where
  stored : s.machine.view = s.machine.flash
  vars : s.machine.vars = FidoVars.atBoot
  log : s.machine.log = []
  start : s.cycleStart = 0
  retries : budget (fileBytes (s.machine.flash .efPin)) ≤ maxPinRetries.toNat

/-- One step of a run that keeps the retry discipline. -/
structure RetryDiscipline (d : Device) (s : PinRun) (i : PinInput) : Prop where
  /-- Before a comparison, one retry less is durable. -/
  spentFirst : ∃ new, (s.step d i).machine.log = s.machine.log ++ new ∧
    ∀ e ∈ new, retriesOf e.2 + 1 = retriesOf s.machine.view
  /-- Wrong comparisons since the last correct one. -/
  bounded : wrongGuesses (s.step d i).machine.log ≤ maxPinRetries.toNat
  /-- Behind the soft lock a subcommand neither compares nor changes the durable counter. -/
  inert : ∀ b cmd replies, i = .clientPin b cmd replies →
    s.machine.vars.needsPowerCycle = true →
    (s.step d i).machine.log = s.machine.log ∧
      retriesOf (s.step d i).machine.flash = retriesOf s.machine.flash
  /-- Only a power cycle lifts the lock. -/
  lifted : s.machine.vars.needsPowerCycle = true →
    (s.step d i).machine.vars.needsPowerCycle = true ∨ (s.step d i).cycles = s.cycles + 1
  /-- Wrong comparisons of this power cycle, correct ones in between or not. -/
  three : cycleGuesses (s.step d i).cycleStart (s.step d i).machine ≤ 3

/-- The steps that keep away from the ways around the lock: a request reaches the retry counter only
unlocked and after fewer than three wrong guesses in this power cycle, and the host does not initialise a
locked device. -/
def RetrySafe (d : Device) (s : PinRun) : PinInput → Prop
  | .clientPin b cmd _ => SafeRequest d b cmd s.cycleStart s.machine
  | .initFido _ _ => s.machine.vars.needsPowerCycle = false
  | .drain => True
  | .powerCycle => True

instance (d : Device) (s : PinRun) : (i : PinInput) → Decidable (RetrySafe d s i)
  | .clientPin b cmd _ => inferInstanceAs (Decidable (reachesRetry d b cmd s.machine.vars s.machine.view
      = true → s.machine.vars.needsPowerCycle = false ∧ cycleGuesses s.cycleStart s.machine < 3))
  | .initFido _ _ => inferInstanceAs (Decidable (s.machine.vars.needsPowerCycle = false))
  | .drain => .isTrue trivial
  | .powerCycle => .isTrue trivial

section Runs

variable {d : Device} {s : PinRun}

def PinRun.Inv (s : PinRun) : Prop := RetryInv s.cycleStart s.machine

theorem Bounded.restart {m : FidoMachine} (h : Bounded m) : (s.restart m).Inv := by
  have hdrop : cycleGuesses m.log.length (m.reboot FidoVars.atBoot) = 0 := by
    unfold cycleGuesses
    rw [Machine.reboot_log, List.drop_length]
    rfl
  refine ⟨⟨h.flash, h.flash⟩, Nat.le_refl _, ?_, ?_⟩
  · exact Nat.le_trans (Nat.le_of_eq hdrop) (Nat.zero_le 3)
  · intro hl
    cases hl

theorem PinRun.Fresh.inv (h : s.Fresh) : s.Inv := by
  have hretries : budget (fileBytes (s.machine.flash .efPin)) ≤ 8 := h.retries
  have hguesses : wrongGuesses s.machine.log = 0 := by rw [h.log]; rfl
  apply Cleared.inv
  have hcycle : cycleGuesses s.cycleStart s.machine = 0 := by
    rw [cycleGuesses, h.log, List.drop_nil]
    rfl
  refine ⟨hguesses, by rw [h.start]; exact Nat.zero_le _, by omega, ?_, hretries, by rw [h.vars]; rfl⟩
  rw [h.stored]
  exact hretries

/-- What is known of a step whatever became of it. -/
structure Stepped (s t : PinRun) : Prop where
  inv : t.Inv
  logged : Logged s.machine t.machine

theorem Stepped.bounded {t : PinRun} (h : Stepped s t) :
    wrongGuesses t.machine.log ≤ maxPinRetries.toNat := by
  have hb := h.inv.bounded.view
  exact Nat.le_trans (Nat.le_add_right _ _) hb

theorem stepped_after {r : Outcome CtapErr Unit × FidoMachine × List Reply}
    (h : Ends (fun _ n => RetryInv s.cycleStart n ∧ Logged s.machine n)
      (fun _ n => RetryInv s.cycleStart n ∧ Logged s.machine n)
      (fun n => Bounded n ∧ Logged s.machine n) r) : Stepped s (s.after r) := by
  obtain ⟨o, n, rs⟩ := r
  cases o with
  | done a => exact ⟨h.1, h.2⟩
  | fail e => exact ⟨h.1, h.2⟩
  | lost => exact ⟨h.1.restart, h.2⟩

theorem stepped_same {r : Outcome CtapErr Unit × FidoMachine × List Reply} (hs : s.Inv)
    (h : Ends (fun _ => SamePin s.machine) (fun _ => SamePin s.machine) (SamePin s.machine) r) :
    Stepped s (s.after r) := by
  obtain ⟨o, n, rs⟩ := r
  cases o with
  | done a => exact ⟨hs.same h, .of_log h.log⟩
  | fail e => exact ⟨hs.same h, .of_log h.log⟩
  | lost => exact ⟨(hs.bounded.same h).restart, .of_log h.log⟩

theorem step_stepped (hs : s.Inv) (i : PinInput) (hsafe : RetrySafe d s i) :
    Stepped s (s.step d i) := by
  cases i with
  | clientPin b cmd replies =>
    exact stepped_after (wp_sound (f := .all) (cborClientPin_retry hs hsafe) trivial replies
      (.inl trivial))
  | initFido generated replies =>
    exact stepped_same hs (wp_sound (f := .all) (initFido_same hsafe generated) trivial replies
      (.inl trivial))
  | drain => exact ⟨hs.same ⟨rfl, .inr rfl, rfl, rfl⟩, .of_log rfl⟩
  | powerCycle => exact ⟨hs.bounded.restart, .of_log rfl⟩

theorem locked_after {r : Outcome CtapErr Unit × FidoMachine × List Reply} (hs : s.Inv)
    (hl : s.machine.vars.needsPowerCycle = true)
    (h : Ends (fun _ => SamePin s.machine) (fun _ => SamePin s.machine) (SamePin s.machine) r) :
    ((s.after r).machine.log = s.machine.log ∧
      retriesOf (s.after r).machine.flash = retriesOf s.machine.flash) ∧
    ((s.after r).machine.vars.needsPowerCycle = true ∨ (s.after r).cycles = s.cycles + 1) := by
  have hflash : ∀ n, SamePin s.machine n → retriesOf n.flash = retriesOf s.machine.flash := by
    intro n hn
    unfold retriesOf
    rcases hn.flash with hf | hf
    · rw [hf]
    · rw [hf, (hs.locked hl).1]
  obtain ⟨o, n, rs⟩ := r
  cases o with
  | done a => exact ⟨⟨h.log, hflash n h⟩, .inl (h.locked.trans hl)⟩
  | fail e => exact ⟨⟨h.log, hflash n h⟩, .inl (h.locked.trans hl)⟩
  | lost => exact ⟨⟨h.log, hflash n h⟩, .inr rfl⟩

theorem step_locked (hs : s.Inv) (i : PinInput) (hsafe : RetrySafe d s i)
    (hl : s.machine.vars.needsPowerCycle = true) :
    (∀ b cmd replies, i = .clientPin b cmd replies → (s.step d i).machine.log = s.machine.log ∧
      retriesOf (s.step d i).machine.flash = retriesOf s.machine.flash) ∧
    ((s.step d i).machine.vars.needsPowerCycle = true ∨ (s.step d i).cycles = s.cycles + 1) := by
  cases i with
  | clientPin b cmd replies =>
    obtain ⟨hkept, hlift⟩ := locked_after hs hl (wp_sound (f := .all)
      (cborClientPin_locked hs hl hsafe) trivial replies (.inl trivial))
    exact ⟨fun _ _ _ _ => hkept, hlift⟩
  | initFido generated replies =>
    have hfree : s.machine.vars.needsPowerCycle = false := hsafe
    rw [hl] at hfree
    cases hfree
  | drain => exact ⟨fun _ _ _ h => PinInput.noConfusion h, .inl hl⟩
  | powerCycle => exact ⟨fun _ _ _ h => PinInput.noConfusion h, .inr rfl⟩

end Runs

/-- A getPinToken request with this PIN, as the plain device reads it. -/
def plainTokenRequest (pin : Bytes) : PinRequest where
  pinUvAuthProtocol := 1
  kax := some []
  kay := some []
  alg := -25
  pinUvAuthParam := none
  newPinEnc := none
  pinHashEnc := some (padded 16 pin)
  permissions := 0
  rpId := none

def tryPin (pin : Bytes) (replies : List Reply) : PinInput :=
  .clientPin ⟨fun _ => 0, fun _ => 0, fun _ => 0⟩ (.getPinToken false (plainTokenRequest pin)) replies

/-- A device with the PIN "1234" that has just come up. -/
def bootedExample : PinRun :=
  let files : Files := fun
    | .efPin =>
      some ⟨8 :: 4 :: 1 :: plainDevice.pinDeriveVerifier (padded 16 [0x31, 0x32, 0x33, 0x34]), []⟩
    | .efKeyDev => some ⟨1 :: List.replicate 32 0x2a, []⟩
    | _ => none
  { machine := { view := files, flash := files, vars := FidoVars.atBoot, log := [], dropped := [] },
    cycles := 0, cycleStart := 0 }

theorem bootedExample_fresh : bootedExample.Fresh :=
  ⟨rfl, rfl, rfl, rfl, by decide +kernel⟩

end KeyWallet
