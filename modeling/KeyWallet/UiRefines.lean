import KeyWallet.UiCore

/-! One pass of `wallet_ui_task` is a sequence of `PinStep`s. -/
namespace KeyWallet

open Relation

variable {Salt H : Type}

theorem entryOk_empty : EntryOk {} where
  size := rfl
  le_six := by decide
  digits := fun i h => absurd h (Nat.not_lt_zero i)
  zeros := fun i _ => by
    rw [List.getD_eq_getElem?_getD, List.getElem?_replicate]
    split_ifs <;> rfl

theorem getD_set_bytes (bytes : Octets) (i j : Nat) (b : UInt8) (hi : i < bytes.length) :
    (bytes.set i b).getD j 0 = if j = i then b else bytes.getD j 0 := by
  by_cases h : j = i
  · subst h
    simp [List.getD, hi]
  · simp [List.getD, List.getElem?_set_ne (Ne.symm h), h]

theorem entryOk_push (e : PinEntry) (b : UInt8) (he : EntryOk e) (hl : e.length < 6)
    (hb : isDigit b) : EntryOk (e.push b) := by
  have hs : e.length < e.bytes.length := by rw [he.size]; omega
  have hs' : e.length + 1 < (e.bytes.set e.length b).length := by
    rw [List.length_set, he.size]; omega
  have hget (i : Nat) : (e.push b).bytes.getD i 0 =
      if i = e.length + 1 then 0 else if i = e.length then b else e.bytes.getD i 0 := by
    simp only [PinEntry.push, getD_set_bytes _ _ _ _ hs', getD_set_bytes _ _ _ _ hs]
  refine ⟨by simp [PinEntry.push, he.size], by simp only [PinEntry.push]; omega, ?_, ?_⟩
  · intro i hi
    change i < e.length + 1 at hi
    rw [hget, if_neg (by omega)]
    split_ifs with h
    · exact hb
    · exact he.digits i (by omega)
  · intro i hi
    change e.length + 1 ≤ i at hi
    rw [hget]
    split_ifs with h₁ h₂
    · rfl
    · omega
    · exact he.zeros i (by omega)

theorem entryOk_pop (e : PinEntry) (he : EntryOk e) : EntryOk e.pop := by
  by_cases h0 : e.length = 0
  · simpa only [PinEntry.pop, h0, if_true] using he
  have hs : e.length - 1 < e.bytes.length := by rw [he.size]; have := he.le_six; omega
  rw [PinEntry.pop, if_neg h0]
  have h6 := he.le_six
  refine ⟨by simp [he.size], by change e.length - 1 ≤ 6; omega, ?_, ?_⟩
  · intro i hi
    change i < e.length - 1 at hi
    rw [getD_set_bytes _ _ _ _ hs, if_neg (by omega)]
    exact he.digits i (by omega)
  · intro i hi
    change e.length - 1 ≤ i at hi
    rw [getD_set_bytes _ _ _ _ hs]
    split_ifs with h
    · rfl
    · exact he.zeros i (by omega)

theorem pinKey_digit (i : Nat) (b : UInt8) (h : pinKey i = some b) : isDigit b := by
  have hmem : some b ∈ pinKeys := List.mem_of_getElem? (Option.join_eq_some_iff.mp h)
  simp only [pinKeys, List.mem_cons, Option.some.injEq, reduceCtorEq, List.not_mem_nil, or_false,
    false_or] at hmem
  rcases hmem with rfl | rfl | rfl | rfl | rfl | rfl | rfl | rfl | rfl | rfl <;> decide

theorem requiredDigits_le_six (m : PinMode) : m.requiredDigits ≤ 6 := by
  cases m <;> decide

theorem padSelect_core (env : TaskEnv) (w : World H) :
    ∃ e, (padSelect env w).core = { w.core with entry := e } ∧ (EntryOk w.pad.entry → EntryOk e) := by
  simp only [padSelect]
  split
  · rename_i digit hd
    split_ifs with h
    · refine ⟨_, rfl, fun he => entryOk_push _ _ he ?_ (pinKey_digit _ _ hd)⟩
      have := requiredDigits_le_six w.pad.mode
      simp only [Bool.and_eq_true, decide_eq_true_eq] at h
      omega
    · exact ⟨_, rfl, id⟩
  · exact ⟨_, rfl, id⟩

theorem padBackDown_core (env : TaskEnv) (w : World H) : (padBackDown env w).core = w.core := by
  simp only [padBackDown]
  split_ifs <;> rfl

theorem padBackUp_core (env : TaskEnv) (w : World H) :
    ∃ e, (padBackUp env w).core = { w.core with entry := e } ∧ (EntryOk w.pad.entry → EntryOk e) ∧
      (w.pad.entry = {} → e = {}) := by
  simp only [padBackUp]
  split_ifs with h₁ h₂
  · exact ⟨_, rfl, entryOk_pop _, fun he => by rw [he]; rfl⟩
  · exact ⟨_, rfl, id, id⟩
  · exact ⟨_, rfl, id, id⟩

theorem padLongPress_core (env : TaskEnv) (w : World H) :
    (padLongPress env w).core = w.core ∨
    (w.screen.settingsOpen = true ∧ (padLongPress env w).core =
      { w.core with mode := .idle, entry := {}, first := zeroFirst }) ∨
    (w.screen.settingsOpen = false ∧ (padLongPress env w).core =
      { w.core with entry := {}, first := zeroFirst, auth := -1 }) := by
  simp only [padLongPress]
  split_ifs with h₁ h₂
  · exact .inr (.inl ⟨h₂, rfl⟩)
  · exact .inr (.inr ⟨by simpa using h₂, rfl⟩)
  · exact .inl rfl

variable [DecidableEq H]

theorem padBack_refines (B : Bcrypt Salt H) (env : TaskEnv) (w : World H)
    (hm : w.pad.mode ≠ .idle) :
    ReflTransGen (PinStep B) w.core (padBackUp env (padLongPress env w)).core ∧
      ((padBackUp env (padLongPress env w)).pad.mode = .idle →
        (padBackUp env (padLongPress env w)).pad.entry.length = 0) := by
  obtain ⟨e, hup, hok, hempty⟩ := padBackUp_core env (padLongPress env w)
  have hmode : (padBackUp env (padLongPress env w)).pad.mode = (padLongPress env w).pad.mode :=
    congrArg Core.mode hup
  have hentry : (padBackUp env (padLongPress env w)).pad.entry = e := congrArg Core.entry hup
  rw [hmode, hentry, hup]
  rcases padLongPress_core env w with h | ⟨hs, h⟩ | ⟨hs, h⟩
  · have hm' : (padLongPress env w).pad.mode = w.pad.mode := congrArg Core.mode h
    have hok' : EntryOk w.pad.entry → EntryOk e := by
      rwa [show (padLongPress env w).pad.entry = w.pad.entry from congrArg Core.entry h] at hok
    rw [h]
    exact ⟨.single (.edit w.core e hm hok'), fun hi => absurd (hm'.symm.trans hi) hm⟩
  · have he : e = {} := hempty (congrArg Core.entry h)
    rw [h, he]
    exact ⟨.single (.leave w.core zeroFirst hm hs), fun _ => rfl⟩
  · have he : e = {} := hempty (congrArg Core.entry h)
    rw [h, he]
    exact ⟨.single (.cancel w.core w.pad.mode zeroFirst hm hs (.inl ⟨rfl, rfl⟩)), fun _ => rfl⟩

theorem padEdit_refines (B : Bcrypt Salt H) (env : TaskEnv) (w : World H)
    (hm : w.pad.mode ≠ .idle) :
    ReflTransGen (PinStep B) w.core (padEdit env w).core ∧
      ((padEdit env w).pad.mode = .idle → (padEdit env w).pad.entry.length = 0) := by
  obtain ⟨e, hsel, hok⟩ := padSelect_core env w
  have hcore : (padBackDown env (padSelect env w)).core = { w.core with entry := e } := by
    rw [padBackDown_core, hsel]
  have hmode : (padBackDown env (padSelect env w)).pad.mode = w.pad.mode :=
    congrArg Core.mode hcore
  obtain ⟨hback, hidle⟩ := padBack_refines B env _ (hmode ▸ hm)
  refine ⟨.head ?_ hback, hidle⟩
  rw [hcore]
  exact .edit w.core e hm hok

/-! ### `pin_submit` -/

omit [DecidableEq H] in
/-- What `pin_store_new` can do. -/
theorem pinStoreNew_cases (B : Bcrypt Salt H) (env : TaskEnv) (w : World H) :
    (∃ nvs, pinStoreNew B env w = (none, { w with nvs := nvs }) ∧ StoreFailed w.core nvs) ∨
    ∃ h nvs, pinStoreNew B env w = (some h, { w with nvs := nvs, pinHash := some h }) ∧
      w.pinStoreOpen = true ∧ HashOf B w.pad.entry h ∧ HashWrite w.core h true nvs := by
  simp only [pinStoreNew]
  split
  · exact .inl ⟨w.nvs, rfl, .inl rfl⟩
  · rename_i generated hgen
    obtain ⟨salt, -, hsalt⟩ := Option.bind_eq_some_iff.mp hgen
    split_ifs with hopen hstored
    · exact .inl ⟨w.nvs, rfl, .inl rfl⟩
    · exact .inr ⟨generated, _, rfl, by simpa using hopen, ⟨salt, hsalt⟩,
        env.hashSet, env.hashCommit, Prod.ext hstored rfl⟩
    · have ho : w.pinStoreOpen = true := by simpa using hopen
      exact .inl ⟨_, rfl, .inr ⟨ho, generated,
        env.hashSet, env.hashCommit, Prod.ext (Bool.eq_false_of_not_eq_true hstored) rfl⟩⟩

theorem pinSubmitRetype_refines (B : Bcrypt Salt H) (env : TaskEnv) (w : World H)
    (hm : w.pad.mode = .retype) (h6 : w.pad.entry.length = 6) :
    PinStep B w.core (pinSubmitRetype B env w).core := by
  simp only [pinSubmitRetype]
  split_ifs with hmatch hboot
  · exact .mismatch w.core hm
  · rcases pinStoreNew_cases B env w with ⟨nvs, heq, hn⟩ | ⟨h, nvs, heq, ho, hh, hn⟩
    · rw [heq]
      exact .retypeFailed w.core nvs hm hn
    · rw [heq]
      exact .setupStored w.core h nvs hm hboot ho hh hn
  · rcases pinStoreNew_cases B env w with ⟨nvs, heq, hn⟩ | ⟨h, nvs, heq, ho, hh, hn⟩
    · rw [heq]
      exact .retypeFailed w.core nvs hm hn
    · rw [heq]
      have hf : w.pad.first.take 6 = w.pad.entry.bytes.take 6 := by
        simpa [firstMatches] using hmatch
      exact .retypeStored w.core h nvs hm (Bool.eq_false_of_not_eq_true hboot) ho h6 hf hh hn

theorem pinSubmitChangeRetype_refines (B : Bcrypt Salt H) (env : TaskEnv) (w : World H)
    (hm : w.pad.mode = .changeRetype) :
    PinStep B w.core (pinSubmitChangeRetype B env w).core := by
  simp only [pinSubmitChangeRetype]
  split_ifs
  · exact .changeMismatch w.core hm
  · rcases pinStoreNew_cases B env w with ⟨nvs, heq, hn⟩ | ⟨h, nvs, heq, ho, hh, hn⟩
    · rw [heq]
      exact .changeFailed w.core nvs hm hn
    · rw [heq]
      exact .changeStored w.core h nvs hm ho hh hn

omit [DecidableEq H] in
theorem pinLockCheck_ready (bus : RtcBus) (w : World H) (h : (pinLockCheck bus w).1 = .ready) :
    w.lock.storageOk = true ∧ w.pinStoreOpen = true ∧
      w.lock.record.lastSeen ≤ (pinLockCheck bus w).2 ∧
      w.lock.record.lockedUntil ≤ (pinLockCheck bus w).2 := by
  unfold pinLockCheck at h ⊢
  split_ifs at h ⊢ with hs
  simp only [Bool.or_eq_true, Bool.not_eq_true', not_or, Bool.not_eq_false] at hs
  split at h
  · simp at h
  · split_ifs at h ⊢ with h₁ h₂
    exact ⟨hs.1, hs.2, Nat.le_of_not_lt h₁, Nat.le_of_not_lt h₂⟩

omit [DecidableEq H] in
/-- What `pin_lock_store` does once the gate has been open. -/
theorem pinLockStore_cases (env : TaskEnv) (record : PinLockRecord) (w : World H)
    (hs : w.lock.storageOk = true) (ho : w.pinStoreOpen = true) :
    ∃ nvs, (pinLockStore env record w = (true, { w with nvs := nvs, lock.record := record }) ∧
        LockWrite w.core record true nvs) ∨
      (pinLockStore env record w = (false, { w with nvs := nvs, lock.storageOk := false }) ∧
        LockWrite w.core record false nvs) := by
  simp only [pinLockStore, hs, ho, Bool.not_true, Bool.or_self, Bool.false_eq_true, if_false]
  split_ifs with hstored
  · exact ⟨_, .inl ⟨rfl, env.lockSet, env.lockCommit, Prod.ext hstored rfl⟩⟩
  · exact ⟨_, .inr ⟨rfl, env.lockSet, env.lockCommit,
      Prod.ext (Bool.eq_false_of_not_eq_true hstored) rfl⟩⟩

omit [DecidableEq H] in
/-- What `reset_schedule_wipe` does with an open store. -/
theorem resetScheduleWipe_cases (env : TaskEnv) (w : World H) (ho : w.pinStoreOpen = true) :
    ∃ done nvs, resetScheduleWipe env w = (done, { w with nvs := nvs }) ∧
      WipeWrite w.core done nvs := by
  simp only [resetScheduleWipe, ho, Bool.not_true, Bool.false_eq_true, if_false]
  exact ⟨_, _, rfl, env.wipeSet, env.wipeCommit, rfl⟩

omit [DecidableEq H] in
theorem submissionOf_ended (env : TaskEnv) (w : World H) (candidate : Option H)
    (correct persisted : Bool) (outcome : SubmitOutcome) :
    (submissionOf env w candidate correct persisted outcome).ended outcome := by
  simp only [Submission.ended, submissionOf]
  split_ifs
  · exact .inr rfl
  · exact .inl rfl

theorem submissionOf_accepted (B : Bcrypt Salt H) (env : TaskEnv) (w : World H)
    (candidate : Option H) (correct persisted : Bool) (outcome : SubmitOutcome)
    (hv : w.pad.mode.requiresVerification = true) (h6 : w.pad.entry.length = 6)
    (hready : (pinLockCheck env.rtcSubmit w).1 = .ready)
    (hcandidate : candidate = pinCalculate B w.pad.entry w.pinHash)
    (hcorrect : correct = decide (candidate.isSome ∧ candidate = w.pinHash)) :
    Accepted B w.core (submissionOf env w candidate correct persisted outcome) := by
  obtain ⟨hs, ho, hseen, huntil⟩ := pinLockCheck_ready _ _ hready
  exact ⟨hv, rfl, rfl, h6, hready, rfl, rfl, hcandidate, hcorrect, hs, ho, hseen, huntil⟩

theorem pinOutcome_refines (B : Bcrypt Salt H) (env : TaskEnv) (w v : World H) (nvs : Nvs H)
    (candidate : H) (ok : Bool) (hv : w.pad.mode.requiresVerification = true)
    (hacc : ∀ o, Accepted B w.core (submissionOf env w (some candidate) ok true o))
    (hwrite : LockWrite w.core (nextLockRecord w.lock.record ok (pinLockCheck env.rtcSubmit w).2)
      true nvs)
    (hcore : v.core = { w.core with
      entry := {}, nvs := nvs
      record := nextLockRecord w.lock.record ok (pinLockCheck env.rtcSubmit w).2 }) :
    PinStep B w.core ((pinOutcome env ok v).2.emit
      (.submission (submissionOf env w (some candidate) ok true (pinOutcome env ok v).1))).core := by
  have hmode : v.pad.mode = w.pad.mode := congrArg Core.mode hcore
  have hopen : v.pinStoreOpen = true :=
    (congrArg Core.storeOpen hcore).trans (hacc .wrongPin).storeOpen
  -- A wrong entry ends the same way in all three modes.
  have hwrong (hok : ok = false) : PinStep B w.core
      { v.core with
        trace := .submission (submissionOf env w (some candidate) ok true .wrongPin) ::
          v.core.trace } := by
    subst hok
    rw [hcore]
    exact .wrong w.core _ nvs (hacc _) rfl rfl (submissionOf_ended ..) hwrite
  cases hm : w.pad.mode <;> rw [hm] at hv hmode <;> try exact absurd hv Bool.false_ne_true
  case verify =>
    cases ok with
    | false => simpa [pinOutcome, hmode, World.emit, World.core] using hwrong rfl
    | true =>
      have heq : ((pinOutcome env true v).2.emit (.submission (submissionOf env w (some candidate)
          true true (pinOutcome env true v).1))).core =
          { v.core with
            mode := .idle, auth := 1
            trace := .submission (submissionOf env w (some candidate) true true .authorized) ::
              v.core.trace } := by
        simp [pinOutcome, hmode, World.emit, World.core]
      rw [heq, hcore]
      exact .authorized w.core _ nvs hm (hacc _) rfl rfl (submissionOf_ended ..) hwrite
  case changeCurrent =>
    cases ok with
    | false => simpa [pinOutcome, hmode, World.emit, World.core] using hwrong rfl
    | true =>
      have heq : ((pinOutcome env true v).2.emit (.submission (submissionOf env w (some candidate)
          true true (pinOutcome env true v).1))).core =
          { v.core with
            mode := .changeNew
            trace := .submission (submissionOf env w (some candidate) true true .currentAccepted) ::
              v.core.trace } := by
        simp [pinOutcome, hmode, World.emit, World.core]
      rw [heq, hcore]
      exact .currentAccepted w.core _ nvs hm (hacc _) rfl rfl (submissionOf_ended ..) hwrite
  case resetVerify =>
    cases ok with
    | false => simpa [pinOutcome, hmode, World.emit, World.core] using hwrong rfl
    | true =>
      obtain ⟨done, nvs', hsched, hw⟩ := resetScheduleWipe_cases env v hopen
      rw [hcore] at hw
      cases done with
      | false =>
        have heq : ((pinOutcome env true v).2.emit (.submission (submissionOf env w
            (some candidate) true true (pinOutcome env true v).1))).core =
            { v.core with
              nvs := nvs'
              trace := .submission (submissionOf env w (some candidate) true true
                .resetNotScheduled) :: v.core.trace } := by
          simp [pinOutcome, hmode, hsched, World.emit, World.core]
        rw [heq, hcore]
        exact .resetNotScheduled w.core _ nvs nvs' hm (hacc _) rfl rfl (submissionOf_ended ..)
          hwrite hw
      | true =>
        have heq : ((pinOutcome env true v).2.emit (.submission (submissionOf env w
            (some candidate) true true (pinOutcome env true v).1))).core =
            { v.core with
              powered := false, mode := .idle, settingsOpen := false, nvs := nvs'
              trace := .submission (submissionOf env w (some candidate) true true
                .resetScheduled) :: v.core.trace } := by
          simp [pinOutcome, hmode, hsched, World.emit, World.core]
        rw [heq, hcore]
        exact .resetScheduled w.core _ nvs nvs' hm (hacc _) rfl rfl (submissionOf_ended ..)
          hwrite hw

theorem pinRecordEntry_refines (B : Bcrypt Salt H) (env : TaskEnv) (w cleared : World H)
    (candidate : H) (hv : w.pad.mode.requiresVerification = true)
    (hacc : ∀ persisted o, Accepted B w.core
      (submissionOf env w (some candidate) (decide (some candidate = w.pinHash)) persisted o))
    (hcleared : cleared.core = { w.core with entry := {} }) :
    PinStep B w.core (pinRecordEntry env w cleared candidate).core := by
  have hrecord : cleared.lock.record = w.lock.record := congrArg Core.record hcleared
  have hs : cleared.lock.storageOk = true :=
    (congrArg Core.storageOk hcleared).trans (hacc true .wrongPin).storageOk
  have ho : cleared.pinStoreOpen = true :=
    (congrArg Core.storeOpen hcleared).trans (hacc true .wrongPin).storeOpen
  simp only [pinRecordEntry, pinLockRecordResult, hrecord]
  obtain ⟨nvs, ⟨heq, hn⟩ | ⟨heq, hn⟩⟩ := pinLockStore_cases env
    (nextLockRecord w.lock.record (decide (some candidate = w.pinHash))
      (pinLockCheck env.rtcSubmit w).2) cleared hs ho
  · rw [heq]
    rw [hcleared] at hn
    have hcore : ({ cleared.core with
        nvs := nvs
        record := nextLockRecord w.lock.record (decide (some candidate = w.pinHash))
          (pinLockCheck env.rtcSubmit w).2 } : Core H) = { w.core with
        entry := {}, nvs := nvs
        record := nextLockRecord w.lock.record (decide (some candidate = w.pinHash))
          (pinLockCheck env.rtcSubmit w).2 } := by
      rw [hcleared]
    exact pinOutcome_refines B env w _ nvs candidate _ hv (hacc true) hn hcore
  · rw [heq]
    rw [hcleared] at hn
    have hstep : PinStep B w.core
        { cleared.core with
          storageOk := false, nvs := nvs
          trace := .submission (submissionOf env w (some candidate)
            (decide (some candidate = w.pinHash)) false .notRecorded) :: cleared.core.trace } := by
      rw [hcleared]
      exact .notRecorded w.core _ nvs (hacc false _) rfl (submissionOf_ended ..) hn
    exact hstep

theorem pinVerifyEntry_refines (B : Bcrypt Salt H) (env : TaskEnv) (w : World H)
    (hv : w.pad.mode.requiresVerification = true) (h6 : w.pad.entry.length = 6) :
    PinStep B w.core (pinVerifyEntry B env w).core := by
  simp only [pinVerifyEntry]
  by_cases hready : (pinLockCheck env.rtcSubmit w).1 = .ready
  case neg =>
    rw [if_pos hready]
    exact .gateClosed w.core _ hready rfl (submissionOf_ended ..)
  rw [if_neg (not_not.mpr hready)]
  split
  · rename_i hnone
    exact .hashError w.core _
      (submissionOf_accepted B env w none false false _ hv h6 hready hnone.symm (by simp))
      rfl rfl (submissionOf_ended ..)
  · rename_i candidate hsome
    exact pinRecordEntry_refines B env w _ candidate hv
      (fun persisted o =>
        submissionOf_accepted B env w _ _ _ _ hv h6 hready hsome.symm (by simp)) rfl

/-- What `pin_submit` does: nothing, an answer to the challenge, or one step of the PIN logic. -/
theorem pinSubmit_cases (B : Bcrypt Salt H) (env : TaskEnv) (w : World H)
    (hidle : w.pad.mode = .idle → w.pad.entry.length = 0) :
    pinSubmit B env w = w ∨
    (w.pad.mode = .resetChallenge ∧ w.pad.entry.length = 4 ∧
      w.pad.entry.bytes.take 4 = w.pad.resetChallenge ∧ pinSubmit B env w =
        { w.pinClear with pad.mode := .resetVerify, pad.notice := none, lock.checkedAt := 0 }) ∨
    (w.pad.mode = .resetChallenge ∧ pinSubmit B env w = w.pinClear) ∨
    (w.pad.mode ≠ .resetChallenge ∧ w.pad.entry.length = 6 ∧
      PinStep B w.core (pinSubmit B env w).core) := by
  unfold pinSubmit
  split_ifs with hc h4 hmatch h6
  · exact .inl rfl
  · exact .inr (.inl ⟨hc, not_not.mp h4, hmatch, rfl⟩)
  · exact .inr (.inr (.inl ⟨hc, rfl⟩))
  · exact .inl rfl
  · have hlen : w.pad.entry.length = 6 := not_not.mp h6
    refine .inr (.inr (.inr ⟨hc, hlen, ?_⟩))
    split
    · rename_i hm
      exact .createEntry w.core hm hlen
    · rename_i hm
      exact pinSubmitRetype_refines B env w hm hlen
    · rename_i hm
      exact .changeEntry w.core hm
    · rename_i hm
      exact pinSubmitChangeRetype_refines B env w hm
    · refine pinVerifyEntry_refines B env w ?_ hlen
      cases hm : w.pad.mode <;> simp_all [PinMode.requiresVerification]

theorem pinSubmit_refines (B : Bcrypt Salt H) (env : TaskEnv) (w : World H)
    (hidle : w.pad.mode = .idle → w.pad.entry.length = 0) :
    ReflTransGen (PinStep B) w.core (pinSubmit B env w).core := by
  rcases pinSubmit_cases B env w hidle with h | ⟨hc, -, -, h⟩ | ⟨hc, h⟩ | ⟨-, -, h⟩
  · rw [h]
  · rw [h]
    exact .single (.challenge w.core hc)
  · rw [h]
    exact .single (.edit w.core {} (by rw [World.core_mode, hc]; decide) fun _ => entryOk_empty)
  · exact .single h

/-! ### The passes of `wallet_ui_task` -/

omit [DecidableEq H] in
theorem lockRefresh_core (env : TaskEnv) (w : World H) : (lockRefresh env w).core = w.core := by
  simp only [lockRefresh]
  split_ifs <;> rfl

theorem lockTask_refines (B : Bcrypt Salt H) (env : TaskEnv) (w : World H)
    (hm : w.pad.mode ≠ .idle) :
    ((lockTask env w).1 = true → (lockTask env w).2.core = w.core) ∧
      ReflTransGen (PinStep B) w.core (lockTask env w).2.core := by
  have hrefresh := lockRefresh_core env w
  simp only [lockTask, lockScreen]
  split_ifs with hready hback hs
  · exact ⟨fun _ => hrefresh, hrefresh ▸ .refl⟩
  · rw [← hrefresh]
    exact ⟨fun h => h.elim,
      .single (.leave _ _ ((congrArg Core.mode hrefresh).trans_ne hm) hs)⟩
  · rw [← hrefresh]
    exact ⟨fun h => h.elim,
      .single (.cancel _ .idle _ ((congrArg Core.mode hrefresh).trans_ne hm)
        (Bool.eq_false_of_not_eq_true hs) (.inr ⟨rfl, rfl⟩))⟩
  · exact ⟨fun h => h.elim, hrefresh ▸ .refl⟩

theorem padTask_refines (B : Bcrypt Salt H) (env : TaskEnv) (w : World H)
    (hm : w.pad.mode ≠ .idle) :
    ReflTransGen (PinStep B) w.core (padTask B env w).core := by
  obtain ⟨hedit, hidle⟩ := padEdit_refines B env w hm
  simp only [padTask]
  split_ifs
  · exact hedit.trans (pinSubmit_refines B env _ hidle)
  · exact hedit

theorem menuTask_refines (B : Bcrypt Salt H) (pins prev : ButtonLevels) (w : World H)
    (hm : w.pad.mode = .idle) (hw : w.screen.waiting = false) :
    PinStep B w.core (menuTask pins prev w).core := by
  have hmenus (s : Screen) (hs : s.waiting = w.screen.waiting) :
      PinStep B w.core ({ w with screen := s } : World H).core := by
    have hcore : ({ w with screen := s } : World H).core =
        { w.core with settingsOpen := s.settingsOpen } := by
      simp only [World.core, hs]
    rw [hcore]
    exact .menus w.core _ hm hw
  rcases menuTask_step pins prev w with ⟨s, hs, heq⟩ | ⟨hopen, heq⟩
  · rw [heq]
    exact hmenus s hs.waiting
  · rw [heq]
    exact .openChange w.core hm hw hopen

theorem idleMenus_refines (B : Bcrypt Salt H) (env : TaskEnv) (w : World H)
    (hm : w.pad.mode = .idle) :
    ReflTransGen (PinStep B) w.core (idleMenus env w).core := by
  simp only [idleMenus]
  split
  · exact .refl
  · split_ifs with h
    · have hw : w.screen.waiting = false := by
        simp only [Bool.and_eq_true, Bool.not_eq_true'] at h
        exact h.1.1
      exact .single (menuTask_refines B env.levels _ w hm hw)
    · exact .refl

theorem takeCommand_refines (B : Bcrypt Salt H) (w : World H) (hm : w.pad.mode = .idle) :
    ReflTransGen (PinStep B) w.core ({ w with screen := w.screen.takeCommand } : World H).core := by
  simp only [Screen.takeCommand]
  split_ifs with h
  · simp only [Bool.and_eq_true, Bool.not_eq_true'] at h
    exact .single (.menus w.core false hm h.1.1.1)
  · exact .refl

omit [DecidableEq H] in
theorem resetConfirmTask_cases (env : TaskEnv) (w : World H) :
    ((resetConfirmTask env w).1 = true ∧ (resetConfirmTask env w).2.core = w.core) ∨
    ((resetConfirmTask env w).1 = false ∧ w.screen.waiting = false ∧
      w.screen.settingsOpen = true ∧
      (resetConfirmTask env w).2.core = { w.core with mode := .resetChallenge, entry := {} }) := by
  simp only [resetConfirmTask]
  split_ifs with h
  · exact .inl ⟨rfl, rfl⟩
  · simp only [Bool.and_eq_true, Bool.not_eq_true'] at h
    exact .inr ⟨rfl, h.1.1.1.1, h.1.1.2, rfl⟩
  · exact .inl ⟨rfl, rfl⟩
  · exact .inl ⟨rfl, rfl⟩

theorem idleTask_refines (B : Bcrypt Salt H) (env : TaskEnv) (w : World H)
    (hm : w.pad.mode = .idle) :
    ReflTransGen (PinStep B) w.core (idleTask env w).core := by
  have htake := takeCommand_refines B w hm
  simp only [idleTask]
  split_ifs with hsuccess hexpired hgo
  · exact .refl
  · simp only [Bool.and_eq_true, Bool.not_eq_true'] at hexpired
    exact .single (.menus w.core false hm hexpired.1.1)
  all_goals
    rcases resetConfirmTask_cases env { w with screen := w.screen.takeCommand } with
      ⟨h, hcore⟩ | ⟨h, hw, hs, hcore⟩
  · refine htake.trans ?_
    rw [← hcore]
    exact idleMenus_refines B env _ ((congrArg Core.mode hcore).trans hm)
  · exact absurd (hgo.symm.trans h) (by decide)
  · exact absurd h hgo
  · rw [hcore]
    exact htake.tail (.openReset _ hm hw hs)

theorem passTask_refines (B : Bcrypt Salt H) (env : TaskEnv) (w : World H) :
    ReflTransGen (PinStep B) w.core (passTask B env w).core := by
  have hgo (v : World H) (hv : v.core = w.core) : ReflTransGen (PinStep B) w.core
      (if v.pad.mode = .idle then idleTask env v else padTask B env v).core := by
    rw [← hv]
    split_ifs with hm
    · exact idleTask_refines B env v hm
    · exact padTask_refines B env v hm
  unfold passTask
  by_cases hverify : w.pad.mode.requiresVerification = true
  · have hm : w.pad.mode ≠ .idle := by
      rintro h
      rw [h] at hverify
      exact Bool.false_ne_true hverify
    obtain ⟨hcore, hlocked⟩ := lockTask_refines B env w hm
    simp only [hverify, if_true]
    cases hl : (lockTask env w).1 with
    | false => exact hlocked
    | true => exact hgo _ (hcore hl)
  · simp only [hverify]
    exact hgo w rfl

/-- One pass of `wallet_ui_task` makes only steps of the PIN logic. -/
theorem walletUiTask_refines (B : Bcrypt Salt H) (env : TaskEnv) (w : World H) :
    ReflTransGen (PinStep B) w.core (walletUiTask B env w).core := by
  simp only [walletUiTask]
  split_ifs
  · exact .refl
  · exact .refl
  · exact .refl
  · exact passTask_refines B env { w with screen.lastPoll := env.now }

end KeyWallet
