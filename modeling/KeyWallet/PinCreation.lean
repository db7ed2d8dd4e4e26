import KeyWallet.UiRuns

/-! Who may store a new PIN. Once a hash has been committed a new one is stored only after the
old PIN was verified in the same boot, provided that every boot gets a usable answer to its read
of the hash: `wallet_ui_init` takes any failed read for a device without a PIN. -/
namespace KeyWallet

open StepSystem

variable {Salt H : Type}

/-- A bcrypt hash has been committed, by `pin_store_new` or before the run, and no completed
device reset has erased it. The trace is newest first and starts from the NVS contents `image`. -/
def HashCommitted (image : NvsImage H) (trace : List (UiEvent H)) : Prop :=
  (∃ mode e h, .stored mode e h ∈ sinceWipe trace) ∨
    (.wiped ∉ trace ∧ image.bcrypt.isSome = true)

/-- The stored PIN was verified in this boot. -/
def VerifiedSinceBoot (trace : List (UiEvent H)) : Prop :=
  ∃ r, .submission r ∈ sinceBoot trace ∧ r.gate = .ready ∧ r.stored.isSome = true ∧
    r.candidate = r.stored ∧ r.persisted = true

/-- Every new PIN is the first one or follows a verification in its boot. -/
def StoresGuarded (image : NvsImage H) (trace : List (UiEvent H)) : Prop :=
  ∀ newer older mode e h, trace = newer ++ .stored mode e h :: older →
    HashCommitted image older → VerifiedSinceBoot older

/-- Whether the last boot was told that there is no hash. -/
def lastBootNotFound : List (UiEvent H) → Bool
  | [] => false
  | .boot notFound :: _ => notFound
  | _ :: trace => lastBootNotFound trace

/-- PIN creation fails closed in the state `w` of a run from `image`. -/
structure CreationClosed (image : NvsImage H) (w : World H) : Prop where
  guarded : StoresGuarded image w.trace
  opened : w.powered = true → w.pad.mode = .create ∨ w.pad.mode = .retype →
    lastBootNotFound w.trace = true

/-- An answer to the read of `stored` that `wallet_ui_init` understands: a hash, or that there is
none when there is none. -/
def NvsRead.usable (stored : Option H) : NvsRead H → Bool
  | .ok _ => true
  | .notFound => stored.isNone
  | _ => false

/-- The boot reaches its read of the hash and gets a usable answer. A boot that wipes the device
does not get there. -/
def UiInput.hashAnswered [DecidableEq H] (nvs : Nvs H) : UiInput H → Bool
  | .boot env => env.wipes || (env.oled && env.nvsInit && env.nvsOpen &&
      env.hashRead.usable (nvs.reopen env.kept).ram.bcrypt)
  | _ => true

/-- Whatever a power loss keeps, there is a hash. -/
def Nvs.HasHash (nvs : Nvs H) : Prop :=
  nvs.ram.bcrypt.isSome = true ∧ nvs.flash.bcrypt.isSome = true

/-- The invariant behind `creationClosed_of_answered`. -/
structure CreationInv (image : NvsImage H) (c : Core H) : Prop where
  guarded : StoresGuarded image c.trace
  committed : HashCommitted image c.trace → c.nvs.HasHash
  storeOpen : c.powered = true → c.storeOpen = true
  absent : c.storeOpen = true → c.hash = none →
    ¬ HashCommitted image c.trace ∧ lastBootNotFound c.trace = true
  creating : c.mode = .create ∨ c.mode = .retype → c.storeOpen = true ∧ c.hash = none
  changing : c.mode = .changeNew ∨ c.mode = .changeRetype → VerifiedSinceBoot c.trace

/-- Events that store nothing, erase nothing and start no boot. -/
def isPassing : UiEvent H → Bool
  | .stored _ _ _ | .wiped | .boot _ => false
  | _ => true

theorem hashCommitted_passing (image : NvsImage H) (ev : UiEvent H) (trace : List (UiEvent H))
    (hev : isPassing ev = true) : HashCommitted image (ev :: trace) ↔ HashCommitted image trace := by
  have hw : ev.isWiped = false := by cases ev <;> simp_all [isPassing, UiEvent.isWiped]
  have hs (mode : PinMode) (e : PinEntry) (h : H) : .stored mode e h ≠ ev := by
    rintro rfl
    simp [isPassing] at hev
  have hn : UiEvent.wiped ≠ ev := by
    rintro rfl
    simp [isPassing] at hev
  simp only [HashCommitted, sinceWipe, List.takeWhile_cons, hw, Bool.not_false, if_true,
    List.mem_cons, hs, hn, false_or]

theorem verifiedSinceBoot_passing (ev : UiEvent H) (trace : List (UiEvent H))
    (hev : isPassing ev = true) (h : VerifiedSinceBoot trace) : VerifiedSinceBoot (ev :: trace) := by
  have hb : (!ev.isBoot) = true := by cases ev <;> simp_all [isPassing, UiEvent.isBoot]
  obtain ⟨r, hr, hrest⟩ := h
  refine ⟨r, ?_, hrest⟩
  rw [sinceBoot, List.takeWhile_cons, if_pos hb]
  exact List.mem_cons_of_mem _ hr

theorem lastBootNotFound_passing (ev : UiEvent H) (trace : List (UiEvent H))
    (hev : isPassing ev = true) : lastBootNotFound (ev :: trace) = lastBootNotFound trace := by
  cases ev <;> simp_all [isPassing, lastBootNotFound]

theorem storesGuarded_cons (image : NvsImage H) (ev : UiEvent H) (trace : List (UiEvent H))
    (hev : (∃ mode e h, ev = .stored mode e h) → HashCommitted image trace → VerifiedSinceBoot trace)
    (h : StoresGuarded image trace) : StoresGuarded image (ev :: trace) := by
  intro newer older mode e hash heq
  cases newer with
  | nil =>
    obtain ⟨rfl, rfl⟩ := List.cons.inj heq
    exact hev ⟨mode, e, hash, rfl⟩
  | cons n newer => exact h newer older mode e hash (List.cons.inj heq).2

theorem CreationInv.pass {image : NvsImage H} {c c' : Core H} (h : CreationInv image c)
    (htrace : c'.trace = c.trace ∨ ∃ ev, c'.trace = ev :: c.trace ∧ isPassing ev = true)
    (hnvs : c.nvs.HasHash → c'.nvs.HasHash)
    (hpowered : c'.powered = true → c.powered = true) (hopen : c'.storeOpen = c.storeOpen)
    (hhash : c'.hash = c.hash)
    (hcreating : c'.mode = .create ∨ c'.mode = .retype → c.storeOpen = true ∧ c.hash = none)
    (hchanging : c'.mode = .changeNew ∨ c'.mode = .changeRetype → VerifiedSinceBoot c'.trace) :
    CreationInv image c' := by
  have hcommitted : HashCommitted image c'.trace ↔ HashCommitted image c.trace := by
    rcases htrace with ht | ⟨ev, ht, hev⟩
    · rw [ht]
    · rw [ht, hashCommitted_passing image ev _ hev]
  have hboot : lastBootNotFound c'.trace = lastBootNotFound c.trace := by
    rcases htrace with ht | ⟨ev, ht, hev⟩
    · rw [ht]
    · rw [ht, lastBootNotFound_passing ev _ hev]
  refine ⟨?_, ?_, ?_, ?_, ?_, hchanging⟩
  · rcases htrace with ht | ⟨ev, ht, hev⟩
    · rw [ht]
      exact h.guarded
    · rw [ht]
      refine storesGuarded_cons image ev _ ?_ h.guarded
      rintro ⟨mode, e, hash, rfl⟩
      simp [isPassing] at hev
  · exact fun hc => hnvs (h.committed (hcommitted.mp hc))
  · exact fun hp => hopen.trans (h.storeOpen (hpowered hp))
  · rw [hcommitted, hboot, hopen, hhash]
    exact h.absent
  · rw [hopen, hhash]
    exact hcreating

theorem store_hasHash {nvs nvs' : Nvs H} {set commit : NvsReply} {image : NvsImage H → NvsImage H}
    {done : Bool} (heq : nvs.store set commit image = (done, nvs'))
    (himage : ∀ i, i.bcrypt.isSome = true → (image i).bcrypt.isSome = true) (h : nvs.HasHash) :
    nvs'.HasHash := by
  have hi := himage nvs.ram h.1
  obtain ⟨-, rfl⟩ := Prod.ext_iff.mp heq
  cases set with
  | ok => cases commit with
    | ok => exact ⟨hi, hi⟩
    | fail b => cases b with
      | true => exact ⟨hi, hi⟩
      | false => exact ⟨hi, h.2⟩
  | fail b => cases b with
    | true => exact ⟨hi, h.2⟩
    | false => exact h

theorem lockWrite_hasHash (c : Core H) (record : PinLockRecord) (done : Bool) (nvs : Nvs H)
    (hn : LockWrite c record done nvs) (h : c.nvs.HasHash) : nvs.HasHash :=
  let ⟨_, _, heq⟩ := hn
  store_hasHash heq (fun _ hi => hi) h

theorem wipeWrite_hasHash (c : Core H) (done : Bool) (nvs : Nvs H) (hn : WipeWrite c done nvs)
    (h : c.nvs.HasHash) : nvs.HasHash :=
  let ⟨_, _, heq⟩ := hn
  store_hasHash heq (fun _ hi => hi) h

theorem storeFailed_hasHash (c : Core H) (nvs : Nvs H) (hn : StoreFailed c nvs)
    (h : c.nvs.HasHash) : nvs.HasHash := by
  rcases hn with rfl | ⟨-, hash, set, commit, heq⟩
  · exact h
  · exact store_hasHash heq (fun i hi => rfl) h

theorem hashWrite_done (c : Core H) (hash : H) (nvs : Nvs H) (hn : HashWrite c hash true nvs) :
    nvs.ram.bcrypt = some hash ∧ nvs.flash.bcrypt = some hash := by
  obtain ⟨set, commit, heq⟩ := hn
  cases set with
  | ok => cases commit with
    | ok =>
      obtain ⟨-, rfl⟩ := Prod.ext_iff.mp heq
      exact ⟨rfl, rfl⟩
    | fail b => cases b <;> simp [Nvs.store] at heq
  | fail b => simp [Nvs.store] at heq

theorem CreationInv.store {image : NvsImage H} {c c' : Core H} (h : CreationInv image c) (mode : PinMode)
    (e : PinEntry) (hash : H) (htrace : c'.trace = .stored mode e hash :: c.trace)
    (hallowed : HashCommitted image c.trace → VerifiedSinceBoot c.trace)
    (hwrite : HashWrite c hash true c'.nvs) (hpowered : c'.powered = c.powered)
    (hopen : c'.storeOpen = c.storeOpen) (hhash : c'.hash = some hash) (hmode : c'.mode = .idle) :
    CreationInv image c' := by
  obtain ⟨hr, hf⟩ := hashWrite_done c hash c'.nvs hwrite
  refine ⟨?_, fun _ => by simp [Nvs.HasHash, hr, hf], ?_, by simp [hhash], by simp [hmode], by simp [hmode]⟩
  · rw [htrace]
    exact storesGuarded_cons image _ _ (fun _ => hallowed) h.guarded
  · rw [hpowered, hopen]
    exact h.storeOpen

variable [DecidableEq H]

theorem verifiedSinceBoot_accepted (B : Bcrypt Salt H) (c : Core H) (r : Submission H)
    (ha : Accepted B c r) (hc : r.correct = true) (hp : r.persisted = true) :
    VerifiedSinceBoot (.submission r :: c.trace) := by
  rw [ha.correct, decide_eq_true_eq] at hc
  have hstored : r.candidate = r.stored := hc.2.trans ha.stored.symm
  exact ⟨r, by simp [sinceBoot, UiEvent.isBoot], ha.gate, hstored ▸ hc.1, hstored, hp⟩

theorem creationInv_pin (B : Bcrypt Salt H) (image : NvsImage H) (c c' : Core H) (hstep : PinStep B c c')
    (h : CreationInv image c) : CreationInv image c' := by
  have hpass (r : Submission H) (hm : c.mode = .changeNew ∨ c.mode = .changeRetype) :
      VerifiedSinceBoot (.submission r :: c.trace) :=
    verifiedSinceBoot_passing _ _ rfl (h.changing hm)
  cases hstep with
  | edit e hm he => exact h.pass (.inl rfl) id id rfl rfl h.creating h.changing
  | cancel m f hm hs hf =>
    refine h.pass (.inl rfl) id id rfl rfl ?_ ?_
    · rcases hf with ⟨rfl, -⟩ | ⟨rfl, -⟩
      · exact h.creating
      · simp
    · rcases hf with ⟨rfl, -⟩ | ⟨rfl, -⟩
      · exact h.changing
      · simp
  | leave f hm hs => exact h.pass (.inl rfl) id id rfl rfl (by simp) (by simp)
  | menus b hm hw => exact h.pass (.inl rfl) id id rfl rfl h.creating h.changing
  | openChange hm hw hs => exact h.pass (.inl rfl) id id rfl rfl (by simp) (by simp)
  | openReset hm hw hs => exact h.pass (.inl rfl) id id rfl rfl (by simp) (by simp)
  | challenge hm => exact h.pass (.inl rfl) id id rfl rfl (by simp) (by simp)
  | createEntry hm h6 =>
    exact h.pass (.inr ⟨_, rfl, rfl⟩) id id rfl rfl (fun _ => h.creating (.inl hm)) (by simp)
  | mismatch hm =>
    exact h.pass (.inl rfl) id id rfl rfl (fun _ => h.creating (.inr hm)) (by simp)
  | retypeFailed n hm hn =>
    exact h.pass (.inl rfl) (storeFailed_hasHash c n hn) id rfl rfl h.creating h.changing
  | setupStored hash n hm hb ho hh hn =>
    obtain ⟨hopen, hnone⟩ := h.creating (.inr hm)
    exact h.store .retype c.entry hash rfl (fun hc => absurd hc (h.absent hopen hnone).1) hn rfl rfl
      rfl rfl
  | retypeStored hash n hm hb ho h6 hf hh hn =>
    obtain ⟨hopen, hnone⟩ := h.creating (.inr hm)
    exact h.store .retype c.entry hash rfl (fun hc => absurd hc (h.absent hopen hnone).1) hn rfl rfl
      rfl rfl
  | changeEntry hm =>
    exact h.pass (.inl rfl) id id rfl rfl (by simp) (fun _ => h.changing (.inl hm))
  | changeMismatch hm =>
    exact h.pass (.inl rfl) id id rfl rfl (by simp) (fun _ => h.changing (.inr hm))
  | changeFailed n hm hn =>
    exact h.pass (.inl rfl) (storeFailed_hasHash c n hn) id rfl rfl (by simp)
      (fun _ => h.changing (.inr hm))
  | changeStored hash n hm ho hh hn =>
    exact h.store .changeRetype c.entry hash rfl (fun _ => h.changing (.inr hm)) hn rfl rfl rfl rfl
  | gateClosed r hg hp ho => exact h.pass (.inr ⟨_, rfl, rfl⟩) id id rfl rfl h.creating (hpass r)
  | hashError r ha hc hp ho =>
    exact h.pass (.inr ⟨_, rfl, rfl⟩) id id rfl rfl h.creating (hpass r)
  | notRecorded r n ha hp ho hn =>
    exact h.pass (.inr ⟨_, rfl, rfl⟩) (lockWrite_hasHash c _ _ n hn) id rfl rfl h.creating (hpass r)
  | wrong r n ha hc hp ho hn =>
    exact h.pass (.inr ⟨_, rfl, rfl⟩) (lockWrite_hasHash c _ _ n hn) id rfl rfl h.creating (hpass r)
  | authorized r n hm ha hc hp ho hn =>
    exact h.pass (.inr ⟨_, rfl, rfl⟩) (lockWrite_hasHash c _ _ n hn) id rfl rfl (by simp) (by simp)
  | currentAccepted r n hm ha hc hp ho hn =>
    exact h.pass (.inr ⟨_, rfl, rfl⟩) (lockWrite_hasHash c _ _ n hn) id rfl rfl (by simp)
      (fun _ => verifiedSinceBoot_accepted B c r ha hc hp)
  | resetNotScheduled r n n' hm ha hc hp ho hn hw =>
    exact h.pass (.inr ⟨_, rfl, rfl⟩)
      (fun hh => wipeWrite_hasHash _ _ n' hw (lockWrite_hasHash c _ _ n hn hh)) id rfl rfl
      h.creating (hpass r)
  | resetScheduled r n n' hm ha hc hp ho hn hw =>
    exact h.pass (.inr ⟨_, rfl, rfl⟩)
      (fun hh => wipeWrite_hasHash _ _ n' hw (lockWrite_hasHash c _ _ n hn hh)) nofun rfl rfl
      (by simp) (by simp)

omit [DecidableEq H] in
theorem creationInv_prompt (image : NvsImage H) (c : Core H) (hp : c.powered = true)
    (h : CreationInv image c) : CreationInv image c.prompt := by
  have hopen := h.storeOpen hp
  refine h.pass (.inr ⟨_, rfl, rfl⟩) id id rfl rfl ?_ ?_
  · cases hh : c.hash <;> simp [Core.prompt, hh, hopen]
  · cases hh : c.hash <;> simp [Core.prompt, hh]

omit [DecidableEq H] in
theorem hashCommitted_boot (image : NvsImage H) (nf : Bool) (trace : List (UiEvent H)) :
    HashCommitted image (.boot nf :: trace) ↔ HashCommitted image trace := by
  simp [HashCommitted, sinceWipe, UiEvent.isWiped]

omit [DecidableEq H] in
theorem not_hashCommitted_wiped (image : NvsImage H) (trace : List (UiEvent H)) :
    ¬ HashCommitted image (.wiped :: trace) := by
  simp [HashCommitted, sinceWipe, UiEvent.isWiped]

omit [DecidableEq H] in
theorem reopen_hasHash (nvs : Nvs H) (kept : NvsKept) (h : nvs.HasHash) :
    (nvs.reopen kept).HasHash := by
  have hpick : (if kept.bcrypt = true then nvs.ram.bcrypt else nvs.flash.bcrypt).isSome = true := by
    split_ifs
    · exact h.1
    · exact h.2
  exact ⟨hpick, hpick⟩

theorem creationInv_boot (image : NvsImage H) (c c' : Core H) (env : BootEnv H)
    (hok : (UiInput.boot env).hashAnswered c.nvs = true) (hboot : BootStep c env c')
    (h : CreationInv image c) : CreationInv image c' := by
  simp only [UiInput.hashAnswered, Bool.or_eq_true, Bool.and_eq_true] at hok
  have hguarded : StoresGuarded image (.boot env.hashNotFound :: c.trace) := by
    apply storesGuarded_cons image _ _ _ h.guarded
    rintro ⟨_, _, _, hev⟩
    simp at hev
  have hkept : HashCommitted image (.boot env.hashNotFound :: c.trace) →
      (c.nvs.reopen env.kept).HasHash :=
    fun hc => reopen_hasHash _ _ (h.committed ((hashCommitted_boot image _ _).mp hc))
  cases hboot with
  | wipeCut hw =>
    exact ⟨hguarded, hkept, by simp [Core.fresh], by simp [Core.fresh], by simp [Core.fresh],
      by simp [Core.fresh]⟩
  | wiped n hw hr hf =>
    refine ⟨?_, fun hc => absurd hc (not_hashCommitted_wiped image _), by simp [Core.fresh],
      by simp [Core.fresh], by simp [Core.fresh], by simp [Core.fresh]⟩
    apply storesGuarded_cons image _ _ _ hguarded
    rintro ⟨_, _, _, hev⟩
    simp at hev
  | dark hw ho =>
    rcases hok with hw' | ⟨⟨⟨ho', -⟩, -⟩, -⟩
    · exact absurd (hw.symm.trans hw') Bool.false_ne_true
    · exact absurd (ho.symm.trans ho') Bool.false_ne_true
  | closed hw ho hn =>
    rcases hok with hw' | ⟨⟨⟨-, hi'⟩, hn'⟩, -⟩
    · exact absurd (hw.symm.trans hw') Bool.false_ne_true
    · rcases hn with hn | hn
      · exact absurd (hn.symm.trans hi') Bool.false_ne_true
      · exact absurd (hn.symm.trans hn') Bool.false_ne_true
  | opened n hw ho hi hn hr hf =>
    have hread := (hok.resolve_left (by simp [hw])).2
    have hcommitted : HashCommitted image (.boot env.hashNotFound :: c.trace) → n.HasHash := by
      intro hc
      have := hkept hc
      exact ⟨hr.1 ▸ this.1, hf.1 ▸ this.2⟩
    refine ⟨hguarded, hcommitted, fun _ => rfl, ?_, ?_, ?_⟩
    · intro _ hnone
      change env.hashRead.hash = none at hnone
      cases hr' : env.hashRead with
      | notFound =>
        rw [hr'] at hread
        refine ⟨fun hc => ?_, ?_⟩
        · have hsome := (hkept hc).1
          rw [Option.isNone_iff_eq_none.mp hread] at hsome
          exact absurd hsome Bool.false_ne_true
        · change env.hashNotFound = true
          simp [BootEnv.hashNotFound, hw, ho, hi, hn, hr']
      | ok v => simp [hr', NvsRead.hash] at hnone
      | otherSize => simp [hr', NvsRead.usable] at hread
      | error => simp [hr', NvsRead.usable] at hread
    · cases hh : env.hashRead.hash <;> simp [Core.opened, Core.fresh]
    · cases hh : env.hashRead.hash <;> simp [Core.opened, Core.fresh]

theorem creationInv_preserved (B : Bcrypt Salt H) (image : NvsImage H) :
    CorePreserved B (fun c i => i.hashAnswered c.nvs = true) (CreationInv image) where
  pin := creationInv_pin B image
  off c h := h.pass (.inl rfl) id nofun rfl rfl h.creating h.changing
  prompt c hp _ := creationInv_prompt image c hp
  waitStart c env hp _ h := by
    have hstarted : CreationInv image { c with trace := .waitStart :: c.trace } :=
      h.pass (.inr ⟨_, rfl, rfl⟩) id id rfl rfl h.creating
        (fun hm => verifiedSinceBoot_passing _ _ rfl (h.changing hm))
    have hprompt := creationInv_prompt image { c with trace := .waitStart :: c.trace } hp hstarted
    exact hprompt.pass (.inl rfl) id id rfl rfl hprompt.creating hprompt.changing
  result c _ _ _ h := h.pass (.inl rfl) id id rfl rfl (by simp [Core.result]) (by simp [Core.result])
  consume c _ _ _ h := h.pass (.inl rfl) id id rfl rfl h.creating h.changing
  finish c ev _ _ _ h := h.pass (.inr ⟨_, rfl, rfl⟩) id id rfl rfl
    (by simp [Core.finish, Core.result]) (by simp [Core.finish, Core.result])
  boot c env c' := creationInv_boot image c c' env

/-- In every run whose boots all get a usable answer to their read of the hash, PIN creation fails
closed, whatever the other reads and writes answer. -/
theorem creationClosed_of_answered (B : Bcrypt Salt H) (image : NvsImage H)
    (inputs : List (UiInput H))
    (hrun : Along (uiStep B) (fun w i => i.hashAnswered w.nvs = true) (deviceOff image) inputs) :
    CreationClosed image (run (uiStep B) (deviceOff image) inputs) := by
  have hinit : CreationInv image (deviceOff image).core := by
    refine ⟨?_, ?_, nofun, nofun, by simp [deviceOff], by simp [deviceOff]⟩
    · intro newer older mode e h heq
      simp [deviceOff] at heq
    · rintro (⟨mode, e, h, hmem⟩ | ⟨-, hsome⟩)
      · simp [deviceOff, sinceWipe] at hmem
      · exact ⟨hsome, hsome⟩
  have h := (creationInv_preserved B image).run (deviceOff image) inputs hrun hinit
  exact ⟨h.guarded, fun _ hm => (h.absent (h.creating hm).1 (h.creating hm).2).2⟩

/-- A PIN is set up, the device restarts, and the next boot reads the hash. -/
theorem creationClosed_after_restart :
    CreationClosed {} (run (uiStep plainBcrypt) (deviceOff {})
      (.boot {} :: typeEntry 10 6 ++ typeEntry 50 6 ++
        [.powerOff, .boot { hashRead := .ok [49, 49, 49, 49, 49, 49] }])) :=
  creationClosed_of_answered plainBcrypt {} _ (by decide +kernel)

/-- The same restart with a failed read of the hash, and a PIN typed into the setup that opens. -/
def readErrorRun : List (UiInput Octets) :=
  .boot {} :: typeEntry 10 6 ++ typeEntry 50 6 ++
    .powerOff :: .boot { hashRead := .error } :: typeEntry 10 6 ++ typeEntry 50 6

/-- A failed read lets a second PIN be stored without any verification. -/
theorem creationClosed_fails_on_read_error :
    ¬ CreationClosed {} (run (uiStep plainBcrypt) (deviceOff {}) readErrorRun) := by
  intro h
  have htrace : (run (uiStep plainBcrypt) (deviceOff {}) readErrorRun).trace =
      [] ++ .stored .retype ⟨[49, 49, 49, 49, 49, 49, 0], 6⟩ [49, 49, 49, 49, 49, 49] ::
        (run (uiStep plainBcrypt) (deviceOff {}) readErrorRun).trace.tail := by
    decide +kernel
  have hcommitted : .stored .retype ⟨[49, 49, 49, 49, 49, 49, 0], 6⟩ [49, 49, 49, 49, 49, 49] ∈
      sinceWipe (run (uiStep plainBcrypt) (deviceOff {}) readErrorRun).trace.tail := by
    decide +kernel
  have hnone : ∀ ev ∈ sinceBoot (run (uiStep plainBcrypt) (deviceOff {}) readErrorRun).trace.tail,
      ev = .createEntry ⟨[49, 49, 49, 49, 49, 49, 0], 6⟩ := by
    decide +kernel
  obtain ⟨r, hr, -⟩ := h.guarded _ _ _ _ _ htrace (.inl ⟨_, _, _, hcommitted⟩)
  exact absurd (hnone _ hr) nofun

end KeyWallet
