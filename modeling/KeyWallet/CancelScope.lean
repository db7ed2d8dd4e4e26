import KeyWallet.PinLockout
import KeyWallet.PresenceRequests

/-! What a cancellation reaches. `cancel_button` is one flag for all transports: the USB task and the
person set it, and only the dispatch of a CTAPHID_CBOR or vendor message clears it. -/
namespace KeyWallet

open StepSystem

section Poll

variable {H : Type}

/-- The person has refused on the keypad: wallet_ui_task stores -1 only for Back. -/
def PersonCancels (w : World H) : Prop := w.localAuthResult < 0

instance (w : World H) : Decidable (PersonCancels w) := inferInstanceAs (Decidable (_ < _))

/-- What a pass of button_wait_poll does to the wait and to the flag. A wait that ends with the flag
set ends as CANCELLED. A wait that does so ends by the flag, by the person, or by a high GPIO6. -/
theorem buttonWaitPoll_flag (env : PollEnv) (w : World H) :
    (buttonWaitPoll env w).wait.asyncButtonWait = w.wait.asyncButtonWait ∧
        ((buttonWaitPoll env w).wait.cancelButton = true → w.wait.cancelButton = true) ∨
      w.wait.asyncButtonWait = true ∧ (buttonWaitPoll env w).wait.asyncButtonWait = false ∧
        w.localAuthResult ≠ 0 ∧ ∃ ev, (buttonWaitPoll env w).trace.head? = some (.button ev) ∧
          ((buttonWaitPoll env w).wait.cancelButton = true → ev = .cancelled) ∧
          (ev = .cancelled → w.wait.cancelButton = true ∨ PersonCancels w ∨ env.gpio6 = true) := by
  unfold buttonWaitPoll
  by_cases hwait : w.wait.asyncButtonWait = true
  · dsimp only
    rw [hwait, Bool.not_true, if_neg Bool.false_ne_true]
    by_cases hauth : w.localAuthResult = 0
    · rw [if_pos hauth]
      exact .inl ⟨hwait, id⟩
    · rw [if_neg hauth]
      have hdebounce := pollDebounce_debounces env w.localAuthResult w.wait
      have hraw := pollDebounce_cancelRaw env w.localAuthResult w.wait
      unfold pollResult
      by_cases hflag : (pollDebounce env w.localAuthResult w.wait).1.cancelButton = true
      · rw [if_pos hflag]
        exact .inr ⟨rfl, rfl, hauth, .cancelled, rfl, fun _ => rfl, fun _ => hdebounce.cancel hflag⟩
      · rw [if_neg hflag]
        split_ifs
        · exact .inr ⟨rfl, rfl, hauth, .timeout, rfl, fun h => absurd h hflag, fun h => by cases h⟩
        · -- a press that is confirmed while the cancel button is held is a cancellation
          refine .inr ⟨rfl, rfl, hauth, _, rfl, fun h => absurd h hflag, ?_⟩
          intro hev
          right
          right
          by_contra hno
          rw [← hraw] at hno
          rw [if_neg (fun h => hno h.2)] at hev
          cases hev
        · exact .inl ⟨hdebounce.wait.trans hwait, fun h => absurd h hflag⟩
  · rw [Bool.not_eq_true] at hwait
    rw [hwait, Bool.not_false, if_pos rfl]
    exact .inl ⟨hwait, id⟩

end Poll

namespace Session

section

variable {H : Type}

/-- An APDU, from CTAPHID or CCID, and a message that had to wait are only taken up with the flag
cleared. A CTAPHID_CANCEL for the channel of the last CTAPHID_CBOR message comes while that is the
message that is executed. An approval is polled while Submit is still held down: GPIO6 is pulled up,
and button_wait_poll takes its high level, that of the released key, for a cancellation. -/
def Scoped (s : Session H) : SessionInput H → Prop
  | .message _ cmd _ => s.current = none → Hid.isApdu cmd → s.world.wait.cancelButton = false
  | .ccid _ => s.current = none → s.world.wait.cancelButton = false
  | .takeQueued => s.current = none → s.queued.isSome = true → s.world.wait.cancelButton = false
  | .cancel cid => s.lastCmd = Hid.ctaphidCbor → cid = s.lastReqCid →
      ∀ e ∈ s.current, e.origin = .hid cid Hid.ctaphidCbor
  | .poll env => s.world.wait.asyncButtonWait = true → 0 < s.world.localAuthResult →
      env.gpio6 = false
  | _ => True

instance (s : Session H) : ∀ i, Decidable (Scoped s i)
  | .message _ _ _ => inferInstanceAs (Decidable (_ → _ → _))
  | .ccid _ => inferInstanceAs (Decidable (_ → _))
  | .takeQueued => inferInstanceAs (Decidable (_ → _ → _))
  | .cancel _ => inferInstanceAs (Decidable (_ → _ → ∀ e ∈ s.current, _))
  | .poll _ => inferInstanceAs (Decidable (_ → _ → _))
  | .frame _ _ | .dropQueued | .label _ | .ask _ | .finish | .task _ _ | .restart _ =>
    .isTrue trivial

/-- A wait is open only for a request that goes on, and a set flag is meant for the request that is
executed. -/
structure CancelInv (s : Session H) : Prop where
  owner : s.world.wait.asyncButtonWait = true → ∃ e, s.current = some e ∧ e.refused = false
  flag : s.world.wait.cancelButton = true → ∀ e, s.current = some e →
    e.hostCancelled = true ∨ e.refused = true

theorem CancelInv.begin {s : Session H} (hclear : s.world.wait.cancelButton = false)
    (origin : Origin) (r : Request) : CancelInv (s.begin origin r) where
  owner := fun _ => ⟨_, rfl, rfl⟩
  flag := by
    intro h
    rw [show (s.begin origin r).world.wait.cancelButton = false from hclear] at h
    cases h

/-- What the flag may mean to an execution. -/
def marks (e : Execution) : Bool × Bool := (e.hostCancelled, e.refused)

theorem CancelInv.of_marks {s s' : Session H} (h : CancelInv s)
    (hwait : s'.world.wait = s.world.wait)
    (hmarks : s'.current.map marks = s.current.map marks) : CancelInv s' := by
  refine ⟨?_, ?_⟩
  · intro hopen
    rw [hwait] at hopen
    obtain ⟨e, he, hrefused⟩ := h.owner hopen
    rw [he, Option.map_some] at hmarks
    obtain ⟨e', he', hmark⟩ := Option.map_eq_some_iff.mp hmarks
    exact ⟨e', he', (congrArg Prod.snd hmark).trans hrefused⟩
  · intro hflag e' he'
    rw [hwait] at hflag
    rw [he', Option.map_some] at hmarks
    obtain ⟨e, he, hmark⟩ := Option.map_eq_some_iff.mp hmarks.symm
    have hown := h.flag hflag e he
    rwa [show e.hostCancelled = e'.hostCancelled from congrArg Prod.fst hmark,
      show e.refused = e'.refused from congrArg Prod.snd hmark] at hown

theorem CancelInv.of_same {s s' : Session H} (h : CancelInv s) (hwait : s'.world.wait = s.world.wait)
    (hcurrent : s'.current = s.current) : CancelInv s' :=
  h.of_marks hwait (congrArg (Option.map marks) hcurrent)

theorem CancelInv.receive {s : Session H} (h : CancelInv s) (cid : Hid.Cid) (cmd : Byte) :
    CancelInv (s.receive cid cmd) where
  owner := h.owner
  flag := by
    intro hflag
    apply h.flag
    dsimp only [Session.receive] at hflag
    split_ifs at hflag <;> exact hflag

theorem CancelInv.dispatch {s : Session H} (h : CancelInv s) (cid : Hid.Cid) (cmd : Byte)
    (r : Request)
    (hok : s.current = none → Hid.isApdu cmd → s.world.wait.cancelButton = false) :
    CancelInv (s.dispatch cid cmd r) := by
  unfold Session.dispatch Session.deliver
  split_ifs with hcarried hbusy
  · exact (h.receive cid cmd).of_same rfl rfl
  · apply CancelInv.begin
    rw [Option.not_isSome_iff_eq_none] at hbusy
    dsimp only [Session.receive]
    split_ifs with hapdu hcbor
    · exact hok hbusy hapdu
    · rfl
    · exact absurd (Request.carriedBy_message hcarried) (not_or.mpr ⟨hapdu, hcbor⟩)
  · exact h.receive cid cmd

theorem CancelInv.cancel {s : Session H} (h : CancelInv s) (cid : Hid.Cid)
    (hok : s.lastCmd = Hid.ctaphidCbor → cid = s.lastReqCid →
      ∀ e ∈ s.current, e.origin = .hid cid Hid.ctaphidCbor) : CancelInv (s.cancel cid) := by
  unfold Session.cancel
  dsimp only
  cases hcurrent : s.current with
  | none =>
    dsimp only [Option.map_none, Option.isSome_none]
    rw [if_neg (by simp)]
    exact h.of_same rfl hcurrent.symm
  | some e =>
    have howner := fun hw => h.owner hw
    have hflag := fun hf => h.flag hf e hcurrent
    rw [hcurrent] at hok howner
    dsimp only [Option.map_some, Option.isSome_some]
    by_cases horigin : e.origin = .hid cid Hid.ctaphidCbor
    · rw [if_pos horigin]
      have hkept : ∀ hw : s.world.wait.asyncButtonWait = true, e.refused = false := by
        intro hw
        obtain ⟨e', he', hrefused⟩ := howner hw
        cases he'
        exact hrefused
      split_ifs
      · refine ⟨fun hw => ⟨_, rfl, hkept hw⟩, fun _ e' he' => ?_⟩
        cases he'
        exact .inl rfl
      · refine ⟨fun hw => ⟨_, rfl, hkept hw⟩, fun _ e' he' => ?_⟩
        cases he'
        exact .inl rfl
    · rw [if_neg horigin]
      split_ifs with hset
      · exact absurd (hok hset.2.1 hset.2.2 e rfl) horigin
      · exact h.of_same rfl hcurrent.symm

theorem cancel_other {s : Session H} {cid : Hid.Cid}
    (hok : s.lastCmd = Hid.ctaphidCbor → cid = s.lastReqCid →
      ∀ e ∈ s.current, e.origin = .hid cid Hid.ctaphidCbor)
    (hother : ∀ e ∈ s.current, e.origin ≠ .hid cid Hid.ctaphidCbor) : s.cancel cid = s := by
  have hsame : (s.current.map fun e => if e.origin = .hid cid Hid.ctaphidCbor then
      { e with hostCancelled := true } else e) = s.current := by
    cases hcurrent : s.current with
    | none => rfl
    | some e => rw [Option.map_some, if_neg (hother e hcurrent)]
  unfold Session.cancel
  dsimp only
  rw [hsame, if_neg]
  rintro ⟨hbusy, hcmd, hcid⟩
  obtain ⟨e, he⟩ := Option.isSome_iff_exists.mp hbusy
  exact hother e he (hok hcmd hcid e he)

theorem label_marks (s : Session H) (elapsed : Nat) :
    (s.label elapsed).current.map marks = s.current.map marks := by
  unfold Session.label
  cases hcurrent : s.current with
  | none => simp only [hcurrent]
  | some e =>
    cases htodo : e.todo with
    | nil => simp only [htodo, hcurrent]
    | cons name todo =>
      simp only [htodo]
      rfl

end

section

variable {Salt H : Type} [DecidableEq H]

/-- A wait that ends as CANCELLED was cancelled by the person or by a CTAPHID_CANCEL for the request
that waits. A CTAPHID_CANCEL for any other channel or command has no effect. -/
def CancelScoped (B : Bcrypt Salt H) (s : Session H) (i : SessionInput H) : Prop :=
  (s.world.wait.asyncButtonWait = true → (s.step B i).world.wait.asyncButtonWait = false →
    (s.step B i).world.trace.head? = some (.button .cancelled) →
    ∃ e, s.current = some e ∧ (PersonCancels s.world ∨ e.hostCancelled = true)) ∧
  ∀ cid, i = .cancel cid → (∀ e ∈ s.current, e.origin ≠ .hid cid Hid.ctaphidCbor) → s.step B i = s

theorem CancelInv.start (env : BootEnv H) (w : World H) : CancelInv { world := boot env w } where
  owner := by
    intro h
    rw [show (boot env w).wait = {} from (boot_quiet env w).wait] at h
    cases h
  flag := fun _ e he => by cases he

theorem CancelInv.poll {s : Session H} (h : CancelInv s) (env : PollEnv) :
    CancelInv (s.poll env) := by
  unfold Session.poll
  dsimp only
  rcases buttonWaitPoll_flag env s.world with ⟨hwait, hflag⟩ | ⟨hopen, hclosed, -, ev, htrace, hflag, -⟩
  · rw [if_neg (by rw [hwait]; simp)]
    refine ⟨fun hw => h.owner (hwait ▸ hw), fun hf => h.flag (hflag hf)⟩
  · rw [if_pos ⟨hopen, hclosed⟩]
    refine ⟨fun hw => ?_, fun hf e' he' => ?_⟩
    · rw [show _ = false from hclosed] at hw
      cases hw
    · obtain ⟨e, he, rfl⟩ := Option.map_eq_some_iff.mp he'
      right
      rw [htrace, hflag hf]
      rfl

theorem task_marks (B : Bcrypt Salt H) (s : Session H) (elapsed : Nat) (env : TaskEnv) :
    (s.task B elapsed env).current.map marks = s.current.map marks := by
  unfold Session.task
  dsimp only
  rw [Option.map_map]
  congr 1
  funext e
  dsimp only [Function.comp]
  split_ifs <;> rfl

theorem CancelInv.step {s : Session H} (B : Bcrypt Salt H) (h : CancelInv s) (i : SessionInput H)
    (hok : Scoped s i) : CancelInv (s.step B i) := by
  unfold Session.step
  split_ifs
  · cases i with
    | message cid cmd r => exact h.dispatch cid cmd r hok
    | frame cid cmd => exact h.of_same rfl rfl
    | cancel cid => exact h.cancel cid hok
    | ccid r =>
      dsimp only [Session.act]
      split_ifs with hfree
      · exact .begin (hok (Option.isNone_iff_eq_none.mp hfree)) .ccid r
      · exact h
    | takeQueued =>
      dsimp only [Session.act]
      split
      · next hcurrent hqueued =>
        have hclear := hok hcurrent (by rw [hqueued]; rfl)
        exact @CancelInv.begin H { s with queued := none } hclear _ _
      · exact h
    | dropQueued => exact h.of_same rfl rfl
    | label elapsed => exact h.of_marks (s.label_wait elapsed) (s.label_marks elapsed)
    | ask env =>
      dsimp only [Session.act, Session.ask]
      cases hcurrent : s.current with
      | none => exact h
      | some e =>
        dsimp only
        split_ifs with hask
        · exact ⟨fun _ => ⟨e, rfl, hask.2.1⟩, hcurrent ▸ h.flag⟩
        · exact h
    | finish =>
      dsimp only [Session.act]
      split_ifs with hwait
      · exact h
      · exact ⟨fun hw => absurd hw hwait, fun _ e he => by cases he⟩
    | task elapsed env =>
      exact h.of_marks (uiStep_task_keeps B _ s.world).wait (task_marks B s elapsed env)
    | poll env => exact h.poll env
    | restart env => exact .start env s.world
  · exact h

theorem step_cancelled (B : Bcrypt Salt H) {s : Session H} {i : SessionInput H}
    (hopen : s.world.wait.asyncButtonWait = true)
    (hclosed : (s.step B i).world.wait.asyncButtonWait = false)
    (htrace : (s.step B i).world.trace.head? = some (.button .cancelled)) :
    ∃ env, i = .poll env ∧ s.world.localAuthResult ≠ 0 ∧
      (s.world.wait.cancelButton = true ∨ PersonCancels s.world ∨ env.gpio6 = true) := by
  rcases s.step_wait B i with hsame | ⟨env, rfl⟩ | ⟨env, rfl⟩ | ⟨env, rfl⟩
  · rw [hsame, hopen] at hclosed
    cases hclosed
  · have hask : (s.ask env).world.wait.asyncButtonWait = true := by
      unfold Session.ask
      cases hcurrent : s.current with
      | none => exact hopen
      | some e =>
        dsimp only
        split_ifs
        · rfl
        · exact hopen
    unfold Session.step at hclosed
    split_ifs at hclosed
    · rw [show (s.act B (.ask env)) = s.ask env from rfl, hask] at hclosed
      cases hclosed
    · rw [hopen] at hclosed
      cases hclosed
  · refine ⟨env, rfl, ?_⟩
    unfold Session.step at hclosed htrace
    split_ifs at hclosed htrace
    · have hworld : (s.poll env).world = buttonWaitPoll env s.world := by
        unfold Session.poll
        dsimp only
        split_ifs <;> rfl
      rw [show (s.act B (.poll env)) = s.poll env from rfl, hworld] at hclosed htrace
      rcases buttonWaitPoll_flag env s.world with ⟨hwait, -⟩ | ⟨-, -, hauth, ev, hev, -, hcause⟩
      · rw [hwait, hopen] at hclosed
        cases hclosed
      · rw [hev, Option.some.injEq, UiEvent.button.injEq] at htrace
        exact ⟨hauth, hcause htrace⟩
    · rw [hopen] at hclosed
      cases hclosed
  · unfold Session.step at htrace
    rw [if_pos (.inr rfl)] at htrace
    exact absurd htrace ((boot_quiet env s.world).trace .cancelled)

theorem CancelInv.scoped {s : Session H} (B : Bcrypt Salt H) (h : CancelInv s) (i : SessionInput H)
    (hok : Scoped s i) : CancelScoped B s i := by
  refine ⟨?_, ?_⟩
  · intro hopen hclosed htrace
    obtain ⟨env, rfl, hauth, hcause⟩ := step_cancelled B hopen hclosed htrace
    obtain ⟨e, he, hrefused⟩ := h.owner hopen
    refine ⟨e, he, ?_⟩
    rcases hcause with hflag | hperson | hgpio
    · rcases h.flag hflag e he with hhost | hgone
      · exact .inr hhost
      · rw [hrefused] at hgone
        cases hgone
    · exact .inl hperson
    · left
      by_contra hno
      have happroved : 0 < s.world.localAuthResult := by
        unfold PersonCancels at hno
        omega
      rw [hok hopen happroved] at hgpio
      cases hgpio
  · rintro cid rfl hother
    unfold Session.step
    split_ifs
    · exact cancel_other hok hother
    · rfl

end

end Session

/-- In every run that meets the condition a cancellation ends only waits of the request it is for. -/
theorem cancel_scoped_to_request {Salt H : Type} [DecidableEq H] (B : Bcrypt Salt H)
    (env : BootEnv H) (w : World H) (is : List (SessionInput H))
    (hok : Along (Session.step B) Session.Scoped { world := boot env w } is) :
    Along (Session.step B) (Session.CancelScoped B) { world := boot env w } is :=
  along_law (fun _ i hi h => ⟨Session.CancelInv.step B h i hi, Session.CancelInv.scoped B h i hi⟩) _
    is hok (.start env w)

/-- The digit under the cursor six times, then Submit, which is still held down at the end. -/
def enterPin : List (SessionInput Octets) :=
  (List.replicate 6 [.task 2 (clockEnv 1), .task 2 { clockEnv 1 with levels.gpio7 := false }]).flatten
    ++ [.task 2 (clockEnv 1), .task 2 { clockEnv 1 with levels.gpio6 := false }]

/-- After the setup at boot, a registration that the host cancels before it asks. -/
def cancelledRegistration : List (SessionInput Octets) :=
  enterPin ++ enterPin ++
    [.message 5 Hid.ctaphidCbor .makeCredential, .label 1, .cancel 5, .finish]

/-- An assertion that follows is approved with the PIN. -/
theorem cancel_scoped_assertion :
    let start : Session Octets := { world := boot {} {} }
    let is := cancelledRegistration ++
      [.message 6 Hid.ctaphidCbor (.getAssertion false), .label 1, .ask {}] ++ enterPin ++
      [.poll { millis := 400, gpio6 := false }]
    Along (Session.step plainBcrypt) (Session.CancelScoped plainBcrypt) start is ∧
      (run (Session.step plainBcrypt) start is).world.trace.head? = some (.button .pressed) := by
  refine ⟨cancel_scoped_to_request _ _ _ _ ?_, ?_⟩
  · decide +kernel
  · decide +kernel

/-- A U2F authentication instead, up to the approval. -/
def u2fAfterCancel : List (SessionInput Octets) :=
  cancelledRegistration ++ [.message 6 Hid.ctaphidMsg .u2fAuthenticate, .ask {}] ++ enterPin

/-- The approval is taken for a cancellation, by the flag that the registration has left. -/
theorem cancel_reaches_u2f :
    ¬ Along (Session.step plainBcrypt) (Session.CancelScoped plainBcrypt) { world := boot {} {} }
      (u2fAfterCancel ++ [.poll { millis := 400, gpio6 := false }]) := by
  intro h
  rw [along_append] at h
  obtain ⟨e, he, hcause⟩ := h.2.1.1 (by decide +kernel) (by decide +kernel) (by decide +kernel)
  have hcurrent : (run (Session.step plainBcrypt) { world := boot {} {} } u2fAfterCancel).current =
      some { origin := .hid 6 Hid.ctaphidMsg, request := .u2fAuthenticate, todo := [] } := by
    decide +kernel
  rw [hcurrent] at he
  cases he
  rcases hcause with hperson | hhost
  · exact absurd hperson (by decide +kernel)
  · cases hhost

end KeyWallet
