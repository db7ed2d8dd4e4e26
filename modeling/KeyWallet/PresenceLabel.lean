import KeyWallet.PresenceRequests
import KeyWallet.StepSystem

/-! The label under which the person approves. A prompt shows the global `command`; this module says
when that is the label of the request that asks. -/
namespace KeyWallet

open StepSystem

section Latch

variable {H : Type}

theorem latch_within {removed time : Nat} (hafter : removed ≤ time)
    (hround : time < removed + 1500 + 2147483648)
    (h : tickReached (UInt32.ofNat (removed + 1500)) (UInt32.ofNat time) = true) :
    time ≤ removed + 1500 := by
  unfold tickReached at h
  rw [decide_eq_true_eq, UInt32.toNat_sub, UInt32.toNat_ofNat', UInt32.toNat_ofNat'] at h
  omega

theorem walletUiCommand_of_ne (tick : UInt32) {name : CommandLabel} (w : World H)
    (h : name ≠ .auth) : (walletUiCommand tick name w).screen.command = name := by
  cases name <;> first | rfl | exact absurd rfl h

theorem latch_ofNat (time : Nat) (w : World H) :
    (walletUiCommand (UInt32.ofNat time) .removal w).screen.removalLatchedUntil =
      UInt32.ofNat (time + 1500) := by
  unfold walletUiCommand
  dsimp only
  rw [UInt32.ofNat_add]
  congr 1

theorem walletUiCommand_latch {tick : UInt32} {name : CommandLabel} (w : World H)
    (h : name ≠ .removal) : (walletUiCommand tick name w).screen.removalLatchedUntil =
      w.screen.removalLatchedUntil := by
  cases name with
  | removal => exact absurd rfl h
  | auth =>
    unfold walletUiCommand
    dsimp only
    split_ifs <;> rfl
  | _ => rfl

theorem walletUiCommand_auth (tick : UInt32) (w : World H) :
    (walletUiCommand tick .auth w).screen.command = .auth ∨
      w.screen.removalLatchedUntil ≠ 0 ∧ tickReached w.screen.removalLatchedUntil tick = true := by
  unfold walletUiCommand
  dsimp only
  split_ifs with h
  · rw [Bool.and_eq_true, Bool.and_eq_true, bne_iff_ne, bne_iff_ne] at h
    exact .inr ⟨h.1.1, h.2⟩
  · exact .inl rfl

end Latch

namespace Session

section

variable {H : Type}

/-- The last label that the execution has stored is its own and still stands. -/
def OwnLabel (command : CommandLabel) (e : Execution) : Prop :=
  ∃ done, e.request.labels = done ++ e.todo ∧
    ∀ name, done.getLast? = some name → e.excused = true ∨ e.own = some name ∧ command = name

structure LabelInv (s : Session H) : Prop where
  latch : s.world.screen.removalLatchedUntil = 0 ∨
    ∃ removed, s.removalAt = some removed ∧ removed ≤ s.clock ∧
      s.world.screen.removalLatchedUntil = UInt32.ofNat (removed + 1500)
  own : ∀ e, s.current = some e → OwnLabel s.world.screen.command e

theorem ownLabel_fresh (command : CommandLabel) (origin : Origin) (r : Request) :
    OwnLabel command { origin := origin, request := r, todo := r.labels } :=
  ⟨[], rfl, fun name h => by simp at h⟩

theorem LabelInv.of_same {s s' : Session H} (h : LabelInv s)
    (hcommand : s'.world.screen.command = s.world.screen.command)
    (hlatch : s'.world.screen.removalLatchedUntil = s.world.screen.removalLatchedUntil)
    (hremoval : s'.removalAt = s.removalAt) (hclock : s'.clock = s.clock)
    (hcurrent : ∀ e, s'.current = some e → OwnLabel s.world.screen.command e) : LabelInv s' := by
  refine ⟨?_, ?_⟩
  · rw [hlatch, hremoval, hclock]
    exact h.latch
  · rw [hcommand]
    exact hcurrent

theorem LabelInv.begin {s : Session H} (h : LabelInv s) (origin : Origin) (r : Request) :
    LabelInv (s.begin origin r) := by
  refine h.of_same rfl rfl rfl rfl ?_
  intro e he
  cases he
  exact ownLabel_fresh _ origin r

theorem LabelInv.deliver {s : Session H} (h : LabelInv s) (origin : Origin) (r : Request) :
    LabelInv (s.deliver origin r) := by
  unfold Session.deliver
  split_ifs
  · exact h.of_same rfl rfl rfl rfl h.own
  · exact h.begin origin r

theorem LabelInv.dispatch {s : Session H} (h : LabelInv s) (cid : Hid.Cid) (cmd : Byte)
    (r : Request) : LabelInv (s.dispatch cid cmd r) := by
  have hreceive : LabelInv (s.receive cid cmd) := h.of_same rfl rfl rfl rfl h.own
  unfold Session.dispatch
  split_ifs
  · exact hreceive.deliver _ r
  · exact hreceive

theorem LabelInv.cancel {s : Session H} (h : LabelInv s) (cid : Hid.Cid) :
    LabelInv (s.cancel cid) := by
  have hcurrent : ∀ e, (s.current.map fun e =>
      if e.origin = .hid cid Hid.ctaphidCbor then { e with hostCancelled := true } else e) = some e →
      OwnLabel s.world.screen.command e := by
    intro e he
    obtain ⟨e₀, he₀, rfl⟩ := Option.map_eq_some_iff.mp he
    split_ifs
    · exact h.own e₀ he₀
    · exact h.own e₀ he₀
  unfold Session.cancel
  dsimp only
  split_ifs
  · exact h.of_same rfl rfl rfl rfl hcurrent
  · exact h.of_same rfl rfl rfl rfl hcurrent

/-- A call of wallet_ui_command stores its label or is excused. -/
theorem LabelInv.label {s : Session H} (h : LabelInv s) (elapsed : Nat)
    (hround : ∀ removed ∈ s.removalAt, s.clock + elapsed < removed + 1500 + 2147483648) :
    LabelInv (s.label elapsed) := by
  unfold Session.label
  cases hcurrent : s.current with
  | none => exact h
  | some e =>
    cases htodo : e.todo with
    | nil => simpa only [htodo] using h
    | cons name todo =>
      simp only [htodo]
      obtain ⟨done, hdone, -⟩ := h.own e hcurrent
      refine ⟨?_, ?_⟩
      · by_cases hname : name = .removal
        · subst hname
          right
          dsimp only
          exact ⟨s.clock + elapsed, if_pos rfl, le_refl _, latch_ofNat _ s.world⟩
        · dsimp only
          rw [if_neg hname, walletUiCommand_latch _ hname]
          refine h.latch.imp_right ?_
          rintro ⟨removed, hremoved, hle, hlatch⟩
          exact ⟨removed, hremoved, by omega, hlatch⟩
      · intro e' he'
        cases he'
        refine ⟨done ++ [name], by rw [hdone, htodo, List.append_assoc]; rfl, ?_⟩
        intro last hlast
        rw [List.getLast?_concat, Option.some.injEq] at hlast
        subst hlast
        dsimp only
        by_cases hname : name = .auth
        · subst hname
          rcases walletUiCommand_auth (UInt32.ofNat (s.clock + elapsed)) s.world with
            hauth | ⟨hne, hheld⟩
          · exact .inr ⟨if_pos hauth, hauth⟩
          · obtain ⟨removed, hremoved, hle, hlatch⟩ := h.latch.resolve_left hne
            rw [hlatch] at hheld
            have hwithin := latch_within (by omega) (hround removed hremoved) hheld
            left
            simp only [Session.afterRemoval, hremoved, decide_true, Bool.true_and, decide_eq_true_eq]
            exact hwithin
        · have hstored := walletUiCommand_of_ne (UInt32.ofNat (s.clock + elapsed)) s.world hname
          exact .inr ⟨if_pos hstored, hstored⟩

end

section

variable {Salt H : Type} [DecidableEq H]

/-- The setup at boot ends in this pass. -/
def SetupEnds (B : Bcrypt Salt H) (env : TaskEnv) (w : World H) : Prop :=
  w.pad.setupAtBoot = true ∧ (uiStep B w (.task env)).pad.setupAtBoot = false

instance (B : Bcrypt Salt H) (env : TaskEnv) (w : World H) : Decidable (SetupEnds B env w) :=
  inferInstanceAs (Decidable (_ ∧ _))

/-- Presence is asked for by CBOR requests only. No pass of wallet_ui_task goes back to READY, at
the end of a result or of the setup at boot, after the request has stored its label. The tick count
does not go half way round while a removal is latched. -/
def Labelled (B : Bcrypt Salt H) (s : Session H) : SessionInput H → Prop
  | .ask _ => ∀ e ∈ s.current, e.request.labels ≠ []
  | .label elapsed => ∀ removed ∈ s.removalAt, s.clock + elapsed < removed + 1500 + 2147483648
  | .task elapsed env => (s.current.bind Execution.own).isSome = true →
      ¬ SetupEnds B { env with now := UInt32.ofNat (s.clock + elapsed) } s.world ∧
        ¬ ResultEnds { env with now := UInt32.ofNat (s.clock + elapsed) } s.world
  | _ => True

instance (B : Bcrypt Salt H) (s : Session H) : ∀ i, Decidable (Labelled B s i)
  | .ask _ => inferInstanceAs (Decidable (∀ e ∈ s.current, _))
  | .label _ => inferInstanceAs (Decidable (∀ removed ∈ s.removalAt, _))
  | .task _ _ => inferInstanceAs (Decidable (_ → _ ∧ _))
  | .message _ _ _ | .frame _ _ | .cancel _ | .ccid _ | .takeQueued | .dropQueued | .finish
  | .poll _ | .restart _ => .isTrue trivial

/-- A step that opens a wait shows the last label of the request that is executed, stored by that
request itself. Excepted is an assertion within 15 s of a removal. -/
def NamesRequest (B : Bcrypt Salt H) (s : Session H) (i : SessionInput H) : Prop :=
  s.world.wait.asyncButtonWait = false → (s.step B i).world.wait.asyncButtonWait = true →
    ∃ e, s.current = some e ∧
      (e.excused = true ∨
        e.own = some (s.step B i).world.screen.shownCommand ∧
          e.request.labels.getLast? = some (s.step B i).world.screen.shownCommand)

instance (B : Bcrypt Salt H) (s : Session H) (i : SessionInput H) :
    Decidable (NamesRequest B s i) :=
  inferInstanceAs (Decidable (_ → _ → ∃ e ∈ s.current, _))

theorem LabelInv.start (env : BootEnv H) (w : World H) : LabelInv { world := boot env w } :=
  ⟨.inl (boot_quiet env w).latch, fun e h => by simp at h⟩

theorem setup_same {B : Bcrypt Salt H} {env : TaskEnv} {w : World H}
    (h : TaskKeeps env w (uiStep B w (.task env))) (hno : ¬ SetupEnds B env w) :
    (uiStep B w (.task env)).pad.setupAtBoot = w.pad.setupAtBoot := by
  cases hw : w.pad.setupAtBoot with
  | false => exact h.setup hw
  | true =>
    by_contra hend
    exact hno ⟨hw, Bool.not_eq_true _ ▸ hend⟩

theorem LabelInv.task {s : Session H} (B : Bcrypt Salt H) (h : LabelInv s) (elapsed : Nat)
    (env : TaskEnv)
    (hkeep : (s.current.bind Execution.own).isSome = true →
      ¬ SetupEnds B { env with now := UInt32.ofNat (s.clock + elapsed) } s.world ∧
        ¬ ResultEnds { env with now := UInt32.ofNat (s.clock + elapsed) } s.world) :
    LabelInv (s.task B elapsed env) := by
  have htask := uiStep_task_keeps B { env with now := UInt32.ofNat (s.clock + elapsed) } s.world
  refine ⟨?_, ?_⟩
  · rcases htask.latch with hsame | hzero
    · refine h.latch.imp hsame.trans ?_
      rintro ⟨removed, hremoved, hle, hlatch⟩
      exact ⟨removed, hremoved, Nat.le_add_right_of_le hle, hsame.trans hlatch⟩
    · exact .inl hzero
  · intro e' he'
    obtain ⟨e, he, rfl⟩ := Option.map_eq_some_iff.mp he'
    obtain ⟨done, hdone, hown⟩ := h.own e he
    refine ⟨done, by split_ifs <;> exact hdone, ?_⟩
    intro name hname
    rcases hown name hname with hexcused | ⟨hown, hcommand⟩
    · left
      split_ifs <;> exact hexcused
    · right
      have hsome : (s.current.bind Execution.own).isSome = true := by
        rw [he, Option.bind_some, hown, Option.isSome_some]
      obtain ⟨hsetup, hresult⟩ := hkeep hsome
      have hstands := (htask.command (setup_same htask hsetup) hresult).trans hcommand
      rw [if_pos (hown.trans (congrArg some hstands.symm))]
      exact ⟨hown, hstands⟩

theorem LabelInv.poll {s : Session H} (h : LabelInv s) (env : PollEnv) : LabelInv (s.poll env) := by
  obtain ⟨hcommand, hends⟩ := buttonWaitPoll_keeps env s.world
  unfold Session.poll
  dsimp only
  rcases hends with ⟨hwait, hscreen⟩ | ⟨hopen, hclosed, hlatch⟩
  · rw [if_neg (by rw [hwait]; simp)]
    exact h.of_same hcommand (congrArg Screen.removalLatchedUntil hscreen) rfl rfl h.own
  · rw [if_pos ⟨hopen, hclosed⟩]
    refine ⟨.inl hlatch, ?_⟩
    intro e' he'
    obtain ⟨e, he, rfl⟩ := Option.map_eq_some_iff.mp he'
    rw [hcommand]
    exact h.own e he

theorem LabelInv.step {s : Session H} (B : Bcrypt Salt H) (h : LabelInv s) (i : SessionInput H)
    (hok : Labelled B s i) : LabelInv (s.step B i) := by
  unfold Session.step
  split_ifs
  · cases i with
    | message cid cmd r => exact h.dispatch cid cmd r
    | frame cid cmd => exact h.of_same rfl rfl rfl rfl h.own
    | cancel cid => exact h.cancel cid
    | ccid r =>
      dsimp only [Session.act]
      split_ifs
      · exact h.begin .ccid r
      · exact h
    | takeQueued =>
      dsimp only [Session.act]
      split
      · have hfree : LabelInv { s with queued := none } := h.of_same rfl rfl rfl rfl h.own
        exact hfree.begin _ _
      · exact h
    | dropQueued => exact h.of_same rfl rfl rfl rfl h.own
    | label elapsed => exact h.label elapsed hok
    | ask env =>
      dsimp only [Session.act, Session.ask]
      cases hcurrent : s.current with
      | none => exact h
      | some e =>
        dsimp only
        split_ifs
        · exact h.of_same rfl rfl rfl rfl (hcurrent ▸ h.own)
        · exact h
    | finish =>
      dsimp only [Session.act]
      split_ifs
      · exact h
      · exact h.of_same rfl rfl rfl rfl fun e he => by simp at he
    | task elapsed env => exact h.task B elapsed env hok
    | poll env => exact h.poll env
    | restart env => exact .start env s.world
  · exact h

theorem LabelInv.names {s : Session H} (B : Bcrypt Salt H) (h : LabelInv s) (i : SessionInput H)
    (hok : Labelled B s i) : NamesRequest B s i := by
  intro hclosed hopen
  obtain ⟨env, e, rfl, hcurrent, htodo, -, hstep⟩ := step_opens B hclosed hopen
  refine ⟨e, hcurrent, ?_⟩
  rw [hstep]
  change e.excused = true ∨ e.own = some s.world.screen.command ∧ _ = some s.world.screen.command
  obtain ⟨done, hdone, hown⟩ := h.own e hcurrent
  rw [htodo, List.append_nil] at hdone
  have hne : e.request.labels ≠ [] := hok e hcurrent
  -- every label of the request is done, so the last one is the one that stands
  have hlast := List.getLast?_eq_some_getLast hne
  rcases hown _ (by rw [← hdone]; exact hlast) with hexcused | ⟨hown, hcommand⟩
  · exact .inl hexcused
  · rw [hcommand]
    exact .inr ⟨hown, hlast⟩

end

end Session

/-- Whenever a wait opens, the screen names the operation of the request that waits. -/
theorem prompt_names_request {Salt H : Type} [DecidableEq H] (B : Bcrypt Salt H) (env : BootEnv H)
    (w : World H) (is : List (SessionInput H))
    (hok : Along (Session.step B) (Session.Labelled B) { world := boot env w } is) :
    Along (Session.step B) (Session.NamesRequest B) { world := boot env w } is :=
  along_law (fun _ i hi h => ⟨Session.LabelInv.step B h i hi, Session.LabelInv.names B h i hi⟩) _ is
    hok (.start env w)

/-- A registration on a device that has its PIN, with passes of the task in between. -/
theorem prompt_names_registration :
    let B : Bcrypt Nat Nat := { gensalt := fun _ => none, rn := fun _ _ => none }
    let start : Session Nat := { world := boot { hashRead := .ok 7 } {} }
    let is := [.message 5 Hid.ctaphidCbor .makeCredential, .task 3 {}, .label 1, .task 4 {}, .ask {}]
    Along (Session.step B) (Session.NamesRequest B) start is ∧
      (run (Session.step B) start is).world.wait.asyncButtonWait = true ∧
      (run (Session.step B) start is).world.screen.shownCommand = .register := by
  refine ⟨prompt_names_request _ _ _ _ ?_, ?_⟩
  · decide
  · decide

/-- A U2F authentication is approved under the label that authenticatorGetInfo has left. -/
theorem u2f_prompt_names_getInfo :
    let B : Bcrypt Nat Nat := { gensalt := fun _ => none, rn := fun _ _ => none }
    let start : Session Nat := { world := boot { hashRead := .ok 7 } {} }
    let is := [.message 5 Hid.ctaphidCbor .getInfo, .label 1, .finish,
      .message 6 Hid.ctaphidMsg .u2fAuthenticate, .ask {}]
    ¬ Along (Session.step B) (Session.NamesRequest B) start is ∧
      (run (Session.step B) start is).world.wait.asyncButtonWait = true ∧
      (run (Session.step B) start is).world.screen.shownCommand = .getInfo := by
  decide

end KeyWallet
