import KeyWallet.UiRuns

/-! Every `EV_BUTTON_PRESSED` is the end of a wait in which the right PIN was entered, or, on a
device without a PIN, in which one was created. -/
namespace KeyWallet

variable {Salt H : Type}

/-- An entry of six ASCII digits. -/
def SixDigits (e : PinEntry) : Prop :=
  e.length = 6 ∧ ∀ i, i < 6 → isDigit (e.bytes.getD i 0)

/-- A submission that found the gate open, matched the stored hash and was recorded. -/
structure Verifies (B : Bcrypt Salt H) (r : Submission H) : Prop where
  mode : r.mode = .verify
  gate : r.gate = .ready
  digits : SixDigits r.entry
  hash : ∃ h, r.stored = some h ∧ B.rn (cString r.entry.bytes) (.inr h) = some h
  persisted : r.persisted = true

/-- A new PIN typed twice and stored, in a trace that is newest first. -/
def Creates (B : Bcrypt Salt H) (events : List (UiEvent H)) : Prop :=
  ∃ later earlier first second h, events = later ++ .stored .retype second h :: earlier ∧
    .createEntry first ∈ earlier ∧ SixDigits first ∧ SixDigits second ∧
    first.bytes.take 6 = second.bytes.take 6 ∧ HashOf B second h

/-- The events of a wait that justify an approval. -/
def Justified (B : Bcrypt Salt H) (hashPresent : Bool) (events : List (UiEvent H)) : Prop :=
  (∃ r, .submission r ∈ events ∧ Verifies B r) ∨ (hashPresent = false ∧ Creates B events)

/-- `older` is the trace when the approval was queued: its last wait began with a prompt in the
same boot, and what came after that prompt justifies the approval. -/
def ApprovedBy (B : Bcrypt Salt H) (older : List (UiEvent H)) : Prop :=
  ∃ later hashPresent earlier, older = later ++ .prompt hashPresent :: .waitStart :: earlier ∧
    (∀ ev ∈ later, ev.isWaitStart = false ∧ ev.isBoot = false) ∧ Justified B hashPresent later

/-- Every approval in the trace is justified. -/
def ApprovalsSound (B : Bcrypt Salt H) (trace : List (UiEvent H)) : Prop :=
  ∀ newer older, trace = newer ++ .button .pressed :: older → ApprovedBy B older

theorem approvalsSound_cons (B : Bcrypt Salt H) (ev : UiEvent H) (trace : List (UiEvent H))
    (hev : ev = .button .pressed → ApprovedBy B trace) (h : ApprovalsSound B trace) :
    ApprovalsSound B (ev :: trace) := by
  intro newer older heq
  cases newer with
  | nil =>
    obtain ⟨hhead, htail⟩ := List.cons.inj heq
    exact htail ▸ hev hhead
  | cons n newer => exact h newer older (List.cons.inj heq).2

theorem justified_cons (B : Bcrypt Salt H) (p : Bool) (ev : UiEvent H) (events : List (UiEvent H))
    (h : Justified B p events) : Justified B p (ev :: events) := by
  rcases h with ⟨r, hr, hv⟩ | ⟨hp, later, earlier, first, second, hash, heq, hrest⟩
  · exact .inl ⟨r, List.mem_cons_of_mem _ hr, hv⟩
  · exact .inr ⟨hp, ev :: later, earlier, first, second, hash, by rw [heq]; rfl, hrest⟩

/-- The wait in progress: what its prompt saw, what has happened since, and what an approval or a
retype would rest on. -/
structure WaitInv (B : Bcrypt Salt H) (c : Core H) (later : List (UiEvent H)) (p : Bool)
    (earlier : List (UiEvent H)) : Prop where
  trace : c.trace = later ++ .prompt p :: .waitStart :: earlier
  same : ∀ ev ∈ later, ev.isWaitStart = false ∧ ev.isBoot = false
  present : c.hash = none → p = false
  approved : 0 < c.auth → Justified B p later
  first : c.mode = .retype → c.first = zeroFirst ∨
    ∃ e, .createEntry e ∈ later ∧ SixDigits e ∧ c.first = e.bytes

/-- The invariant behind `localApproval_sound`. -/
structure ApprovalInv (B : Bcrypt Salt H) (c : Core H) : Prop where
  sound : ApprovalsSound B c.trace
  entry : EntryOk c.entry
  creating : c.mode = .create ∨ c.mode = .retype → c.hash = none
  wait : c.asyncWait = true → ∃ later p earlier, WaitInv B c later p earlier

/-- Events that neither start a wait, nor a boot, nor approve. -/
def isQuiet : UiEvent H → Bool
  | .waitStart | .boot _ | .button .pressed => false
  | _ => true

theorem isQuiet_spec (ev : UiEvent H) (h : isQuiet ev = true) :
    ev.isWaitStart = false ∧ ev.isBoot = false ∧ ev ≠ .button .pressed := by
  cases ev with
  | button b => cases b <;> simp_all [isQuiet, UiEvent.isWaitStart, UiEvent.isBoot]
  | _ => simp_all [isQuiet, UiEvent.isWaitStart, UiEvent.isBoot]

theorem approvalsSound_append (B : Bcrypt Salt H) (new trace : List (UiEvent H))
    (hnew : ∀ ev ∈ new, isQuiet ev = true) (h : ApprovalsSound B trace) :
    ApprovalsSound B (new ++ trace) := by
  induction new with
  | nil => exact h
  | cons ev new ih =>
    refine approvalsSound_cons B ev _ (fun hp => ?_) (ih fun e he => hnew e (List.mem_cons_of_mem _ he))
    exact absurd hp (isQuiet_spec ev (hnew ev List.mem_cons_self)).2.2

theorem justified_append (B : Bcrypt Salt H) (p : Bool) (new events : List (UiEvent H))
    (h : Justified B p events) : Justified B p (new ++ events) := by
  induction new with
  | nil => exact h
  | cons ev new ih => exact justified_cons B p ev _ ih

theorem ApprovalInv.next {B : Bcrypt Salt H} {c c' : Core H} (h : ApprovalInv B c)
    (new : List (UiEvent H)) (hnew : ∀ ev ∈ new, isQuiet ev = true)
    (htrace : c'.trace = new ++ c.trace) (hasync : c'.asyncWait = c.asyncWait)
    (hentry : EntryOk c.entry → EntryOk c'.entry)
    (hcreating : c'.mode = .create ∨ c'.mode = .retype → c'.hash = none)
    (hhash : c'.hash = none → c.hash = none)
    (hauth : ∀ later p earlier, WaitInv B c later p earlier → 0 < c'.auth → ¬ 0 < c.auth →
      Justified B p (new ++ later))
    (hfirst : c'.mode = .retype → c'.first = zeroFirst ∨ (c.mode = .retype ∧ c'.first = c.first) ∨
      ∃ e, .createEntry e ∈ new ∧ SixDigits e ∧ c'.first = e.bytes) :
    ApprovalInv B c' := by
  refine ⟨htrace ▸ approvalsSound_append B new _ hnew h.sound, hentry h.entry, hcreating, ?_⟩
  · intro ha
    obtain ⟨later, p, earlier, hw⟩ := h.wait (hasync ▸ ha)
    refine ⟨new ++ later, p, earlier, ?_, ?_, fun hn => hw.present (hhash hn), ?_, ?_⟩
    · rw [htrace, hw.trace, List.append_assoc]
    · intro ev hev
      rcases List.mem_append.mp hev with hev | hev
      · obtain ⟨h₁, h₂, -⟩ := isQuiet_spec ev (hnew ev hev)
        exact ⟨h₁, h₂⟩
      · exact hw.same ev hev
    · intro hpos
      by_cases hold : 0 < c.auth
      · exact justified_append B p new later (hw.approved hold)
      · exact hauth later p earlier hw hpos hold
    · intro hm
      rcases hfirst hm with hz | ⟨hm', hf⟩ | ⟨e, he, hrest⟩
      · exact .inl hz
      · rcases hw.first hm' with hz | ⟨e, he, hsix, hbytes⟩
        · exact .inl (hf.trans hz)
        · exact .inr ⟨e, List.mem_append_right _ he, hsix, hf.trans hbytes⟩
      · exact .inr ⟨e, List.mem_append_left _ he, hrest⟩

theorem sixDigits_of_entryOk (e : PinEntry) (he : EntryOk e) (h6 : e.length = 6) : SixDigits e :=
  ⟨h6, fun i hi => he.digits i (by omega)⟩

theorem sixDigits_ne_zero (e : PinEntry) (hs : e.bytes.length = 7) (h : SixDigits e) :
    zeroFirst.take 6 ≠ e.bytes.take 6 := by
  intro heq
  have h0 := congrArg (fun l : Octets => l.getD 0 0) heq
  have hd := h.2 0 (by decide)
  have hget : (e.bytes.take 6).getD 0 0 = e.bytes.getD 0 0 := by
    cases hb : e.bytes with
    | nil => simp [hb] at hs
    | cons b bs => rfl
  have hz : (zeroFirst.take 6).getD 0 0 = 0 := rfl
  rw [hz, hget] at h0
  rw [← h0] at hd
  exact absurd hd (by decide)

variable [DecidableEq H]

theorem verifies_of_accepted (B : Bcrypt Salt H) (c : Core H) (r : Submission H)
    (hentry : EntryOk c.entry) (hm : c.mode = .verify) (ha : Accepted B c r)
    (hc : r.correct = true) (hp : r.persisted = true) : Verifies B r := by
  rw [ha.correct, decide_eq_true_eq] at hc
  obtain ⟨hsome, heq⟩ := hc
  obtain ⟨h, hh⟩ := Option.isSome_iff_exists.mp hsome
  have hstored : c.hash = some h := heq.symm.trans hh
  refine ⟨ha.mode.trans hm, ha.gate, ?_, ⟨h, ha.stored.trans hstored, ?_⟩, hp⟩
  · rw [ha.entry]
    exact sixDigits_of_entryOk c.entry hentry ha.six
  · have hcalc := ha.candidate
    rw [hh, hstored] at hcalc
    rw [ha.entry]
    exact hcalc.symm

omit [DecidableEq H] in
theorem creates_of_retype (B : Bcrypt Salt H) (c : Core H) (later earlier : List (UiEvent H))
    (p : Bool) (h : H) (hw : WaitInv B c later p earlier) (hentry : EntryOk c.entry)
    (hm : c.mode = .retype) (h6 : c.entry.length = 6)
    (hf : c.first.take 6 = c.entry.bytes.take 6) (hh : HashOf B c.entry h) :
    Creates B (.stored .retype c.entry h :: later) := by
  have hsix := sixDigits_of_entryOk c.entry hentry h6
  rcases hw.first hm with hz | ⟨e, he, hesix, hbytes⟩
  · rw [hz] at hf
    exact absurd hf (sixDigits_ne_zero c.entry hentry.size hsix)
  · exact ⟨[], later, e, c.entry, h, rfl, he, hesix, hsix, hbytes ▸ hf, hh⟩

omit [DecidableEq H] in
theorem ApprovalInv.stay {B : Bcrypt Salt H} {c c' : Core H} (h : ApprovalInv B c)
    (new : List (UiEvent H)) (hnew : ∀ ev ∈ new, isQuiet ev = true)
    (htrace : c'.trace = new ++ c.trace) (hasync : c'.asyncWait = c.asyncWait)
    (hentry : EntryOk c.entry → EntryOk c'.entry) (hmode : c'.mode = c.mode)
    (hfirst : c'.first = c.first) (hhash : c'.hash = c.hash) (hauth : c'.auth = c.auth) :
    ApprovalInv B c' := by
  refine h.next new hnew htrace hasync hentry
    (fun hm => hhash.trans (h.creating (hmode ▸ hm))) (fun hn => hhash ▸ hn) (fun _ _ _ _ hp hn => absurd (hauth ▸ hp) hn) ?_
  exact fun hm => .inr (.inl ⟨hmode ▸ hm, hfirst⟩)

omit [DecidableEq H] in
theorem ApprovalInv.away {B : Bcrypt Salt H} {c c' : Core H} (h : ApprovalInv B c)
    (new : List (UiEvent H)) (hnew : ∀ ev ∈ new, isQuiet ev = true)
    (htrace : c'.trace = new ++ c.trace) (hasync : c'.asyncWait = c.asyncWait)
    (hentry : c'.entry = {}) (hcreate : c'.mode ≠ .create) (hretype : c'.mode ≠ .retype)
    (hhash : c'.hash = none → c.hash = none) (hauth : c'.auth = c.auth) :
    ApprovalInv B c' := by
  refine h.next new hnew htrace hasync (fun _ => hentry ▸ entryOk_empty) ?_ hhash
    (fun _ _ _ _ hp hn => absurd (hauth ▸ hp) hn) (fun hm => absurd hm hretype)
  rintro (hm | hm)
  · exact absurd hm hcreate
  · exact absurd hm hretype

theorem approvalInv_pin (B : Bcrypt Salt H) (c c' : Core H) (hstep : PinStep B c c')
    (h : ApprovalInv B c) : ApprovalInv B c' := by
  cases hstep with
  | edit e hm he => exact h.stay [] (by simp) rfl rfl he rfl rfl rfl rfl
  | menus b hm hw => exact h.stay [] (by simp) rfl rfl id rfl rfl rfl rfl
  | leave f hm hs => exact h.away [] (by simp) rfl rfl rfl nofun nofun id rfl
  | openChange hm hw hs => exact h.away [] (by simp) rfl rfl rfl nofun nofun id rfl
  | openReset hm hw hs => exact h.away [] (by simp) rfl rfl rfl nofun nofun id rfl
  | challenge hm => exact h.away [] (by simp) rfl rfl rfl nofun nofun id rfl
  | changeEntry hm => exact h.away [] (by simp) rfl rfl rfl nofun nofun id rfl
  | changeMismatch hm => exact h.away [] (by simp) rfl rfl rfl nofun nofun id rfl
  | changeFailed nvs hm hn => exact h.away [] (by simp) rfl rfl rfl nofun nofun id rfl
  | changeStored hash nvs hm ho hh hn =>
    exact h.away [.stored .changeRetype c.entry hash] (by simp [isQuiet]) rfl rfl rfl nofun nofun
      nofun rfl
  | setupStored hash nvs hm hb ho hh hn =>
    exact h.away [.stored .retype c.entry hash] (by simp [isQuiet]) rfl rfl rfl nofun nofun
      nofun rfl
  | gateClosed r hg hp ho =>
    exact h.stay [.submission r] (by simp [isQuiet]) rfl rfl (fun _ => entryOk_empty) rfl rfl rfl rfl
  | hashError r ha hc hp ho =>
    exact h.stay [.submission r] (by simp [isQuiet]) rfl rfl (fun _ => entryOk_empty) rfl rfl rfl rfl
  | notRecorded r nvs ha hp ho hn =>
    exact h.stay [.submission r] (by simp [isQuiet]) rfl rfl (fun _ => entryOk_empty) rfl rfl rfl rfl
  | wrong r nvs ha hc hp ho hn =>
    exact h.stay [.submission r] (by simp [isQuiet]) rfl rfl (fun _ => entryOk_empty) rfl rfl rfl rfl
  | resetNotScheduled r nvs nvs' hm ha hc hp ho hn hw =>
    exact h.stay [.submission r] (by simp [isQuiet]) rfl rfl (fun _ => entryOk_empty) rfl rfl rfl rfl
  | currentAccepted r nvs hm ha hc hp ho hn =>
    exact h.away [.submission r] (by simp [isQuiet]) rfl rfl rfl nofun nofun id rfl
  | resetScheduled r nvs nvs' hm ha hc hp ho hn hw =>
    exact h.away [.submission r] (by simp [isQuiet]) rfl rfl rfl nofun nofun id rfl
  | cancel m f hm hs hf =>
    have hneg : ¬ (0 : Int) < -1 := by decide
    refine h.next [] (by simp) rfl rfl (fun _ => entryOk_empty) ?_ id
      (fun _ _ _ _ hp _ => absurd hp hneg) ?_
    · intro hm'
      rcases hf with ⟨rfl, -⟩ | ⟨rfl, -⟩
      · exact h.creating hm'
      · simp at hm'
    · intro hm'
      rcases hf with ⟨rfl, rfl⟩ | ⟨rfl, -⟩
      · exact .inl rfl
      · simp at hm'
  | createEntry hm h6 =>
    refine h.next [.createEntry c.entry] (by simp [isQuiet]) rfl rfl (fun _ => entryOk_empty)
      (fun _ => h.creating (.inl hm)) id (fun _ _ _ _ hp hn => absurd hp hn) (fun _ => .inr (.inr ?_))
    exact ⟨c.entry, List.mem_singleton_self _, sixDigits_of_entryOk c.entry h.entry h6, rfl⟩
  | mismatch hm =>
    exact h.next [] (by simp) rfl rfl (fun _ => entryOk_empty) (fun _ => h.creating (.inr hm)) id
      (fun _ _ _ _ hp hn => absurd hp hn) (fun _ => .inl rfl)
  | retypeFailed nvs hm hn =>
    exact h.next [] (by simp) rfl rfl (fun _ => entryOk_empty) (fun _ => h.creating (.inr hm)) id
      (fun _ _ _ _ hp hn => absurd hp hn) (fun _ => .inl rfl)
  | retypeStored hash nvs hm hb ho h6 hf hh hn =>
    refine h.next [.stored .retype c.entry hash] (by simp [isQuiet]) rfl rfl
      (fun _ => entryOk_empty) (by simp) (by simp) ?_ (by simp)
    intro later p earlier hw _ _
    exact .inr ⟨hw.present (h.creating (.inr hm)),
      creates_of_retype B c later earlier p hash hw h.entry hm h6 hf hh⟩
  | authorized r nvs hm ha hc hp ho hn =>
    refine h.next [.submission r] (by simp [isQuiet]) rfl rfl (fun _ => entryOk_empty)
      (by simp) id ?_ (by simp)
    intro later p earlier hw _ _
    exact .inl ⟨r, List.mem_cons_self, verifies_of_accepted B c r h.entry hm ha hc hp⟩

omit [DecidableEq H] in
theorem approvalInv_waitStart (B : Bcrypt Salt H) (c : Core H) (h : ApprovalInv B c) :
    ApprovalInv B c.waitStart := by
  have hsame : ∀ ev ∈ ([] : List (UiEvent H)), ev.isWaitStart = false ∧ ev.isBoot = false := by
    simp
  refine ⟨?_, entryOk_empty, ?_, fun _ => ⟨[], c.hash.isSome, c.trace, rfl, hsame, ?_, ?_, ?_⟩⟩
  · exact approvalsSound_cons B _ _ nofun (approvalsSound_cons B _ _ nofun h.sound)
  · cases hh : c.hash <;> simp [Core.waitStart, Core.prompt, hh]
  · intro hn
    rw [show c.hash = none from hn]
    rfl
  · exact fun hpos => absurd hpos (lt_irrefl 0)
  · exact fun _ => .inl rfl

omit [DecidableEq H] in
theorem approvalInv_prompt (B : Bcrypt Salt H) (c : Core H) (h : ApprovalInv B c) :
    ApprovalInv B c.prompt := by
  refine h.next [.prompt c.hash.isSome] (by simp [isQuiet]) rfl rfl (fun _ => entryOk_empty) ?_ id
    (fun _ _ _ _ hpos _ => absurd hpos (lt_irrefl 0)) (fun _ => .inl rfl)
  cases hh : c.hash <;> simp [Core.prompt, hh]

omit [DecidableEq H] in
theorem approvalInv_finish (B : Bcrypt Salt H) (c : Core H) (ev : ButtonEvent) (armed : Bool)
    (hasync : c.asyncWait = true) (hev : ev = .pressed → 0 < c.auth) (h : ApprovalInv B c) :
    ApprovalInv B (c.finish ev armed) := by
  refine ⟨approvalsSound_cons B _ _ ?_ h.sound, h.entry, by simp [Core.finish, Core.result],
    fun ha => absurd ha Bool.false_ne_true⟩
  intro hpressed
  obtain ⟨later, p, earlier, hw⟩ := h.wait hasync
  exact ⟨later, p, earlier, hw.trace, hw.same, hw.approved (hev (by simpa using hpressed))⟩

theorem approvalInv_boot (B : Bcrypt Salt H) (c c' : Core H) (env : BootEnv H)
    (hboot : BootStep c env c') (h : ApprovalInv B c) : ApprovalInv B c' := by
  have hsound : ApprovalsSound B (.boot env.hashNotFound :: c.trace) :=
    approvalsSound_cons B _ _ (by simp) h.sound
  cases hboot with
  | wipeCut hw =>
    exact ⟨hsound, entryOk_empty, by simp [Core.fresh], by simp [Core.fresh]⟩
  | wiped nvs hw hr hf =>
    exact ⟨approvalsSound_cons B _ _ (by simp) hsound, entryOk_empty, by simp [Core.fresh],
      by simp [Core.fresh]⟩
  | dark hw ho => exact ⟨hsound, entryOk_empty, by simp [Core.fresh], by simp [Core.fresh]⟩
  | closed hw ho hn => exact ⟨hsound, entryOk_empty, by simp [Core.fresh], by simp [Core.fresh]⟩
  | opened nvs hw ho hi hn hr hf =>
    refine ⟨hsound, entryOk_empty, ?_, by simp [Core.opened, Core.fresh]⟩
    cases hh : env.hashRead.hash <;> simp [Core.opened, Core.fresh]

theorem approvalInv_preserved (B : Bcrypt Salt H) :
    CorePreserved B (fun _ _ => True) (ApprovalInv B) where
  pin := approvalInv_pin B
  off c h := ⟨h.sound, h.entry, h.creating, fun ha =>
    let ⟨later, p, earlier, hw⟩ := h.wait ha
    ⟨later, p, earlier, hw.trace, hw.same, hw.present, hw.approved, hw.first⟩⟩
  prompt c _ _ := approvalInv_prompt B c
  waitStart c _ _ _ := approvalInv_waitStart B c
  result c _ _ _ h := h.next [] (by simp) rfl rfl id (by simp [Core.result]) id
    (fun _ _ _ _ hp hn => absurd hp hn) (by simp [Core.result])
  consume c _ _ _ h := h.next [] (by simp) rfl rfl id h.creating id
    (fun _ _ _ _ hp _ => absurd hp (lt_irrefl 0)) (fun hm => .inr (.inl ⟨hm, rfl⟩))
  finish c ev armed := approvalInv_finish B c ev armed
  boot c env c' _ := approvalInv_boot B c c' env

/-- In every run, from any contents of NVS and under any interleaving of prompts, passes, results,
waits, polls, power losses and boots, every approval is justified by what happened in its own
wait. -/
theorem localApproval_sound (B : Bcrypt Salt H) (image : NvsImage H) (inputs : List (UiInput H)) :
    ApprovalsSound B (StepSystem.run (uiStep B) (deviceOff image) inputs).trace := by
  have hinit : ApprovalInv B (deviceOff image).core :=
    ⟨fun newer older h => by simp [deviceOff] at h, entryOk_empty, by simp [deviceOff],
      by simp [deviceOff]⟩
  exact ((approvalInv_preserved B).run (deviceOff image) inputs
    (StepSystem.along_true _ _ _) hinit).sound

end KeyWallet
