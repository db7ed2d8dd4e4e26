import KeyWallet.UiRuns

/-! The retry lockout of the local PIN: what an observer of the device can count, and the record
in NVS that stays ahead of that count through failed writes, power losses and reboots. -/
namespace KeyWallet

open StepSystem

variable {Salt H : Type}

/-- Consecutive wrong submissions with an observed outcome, counted back to the last correct one.
The trace is newest first. -/
def wrongRun : List (UiEvent H) → Nat
  | [] => 0
  | .submission r :: trace =>
    if r.gate = .ready ∧ r.correct = true then 0
    else if r.outcome.observable then wrongRun trace + 1
    else wrongRun trace
  | _ :: trace => wrongRun trace

/-- The lockout as seen from outside. -/
structure Lockout (trace : List (UiEvent H)) : Prop where
  delay : ∀ newer middle older r r',
    trace = newer ++ .submission r' :: (middle ++ .submission r :: older) →
    r.correct = false → r.outcome.observable = true → r'.outcome.observable = true →
    (∀ m, .submission m ∈ middle → m.outcome.observable = false) →
    r.time + lockDelay (wrongRun (.submission r :: older)) ≤ r'.time
  seen : ∀ r, .submission r ∈ trace → r.gate = .ready → r.durableSeen ≤ r.time

/-- NVS answers the read of the lock record with the stored one, with not found when there is
none, or with an error. -/
def NvsRead.honest (stored : Option PinLockRecord) : NvsRead PinLockRecord → Bool
  | .ok record => stored = some record
  | .notFound => stored.isNone
  | _ => true

/-- The same for a boot, unless it wipes the device before the read. -/
def UiInput.lockReadHonest (nvs : Nvs H) : UiInput H → Bool
  | .boot env => env.wipes || env.lockRead.honest (nvs.reopen env.kept).ram.pinLock
  | _ => true

/-- The earliest time of the next observed submission, as far as the trace tells. -/
def lockBound : List (UiEvent H) → Nat
  | [] => 0
  | .submission r :: trace =>
    if r.outcome.observable then
      if r.correct then 0 else r.time + lockDelay (wrongRun (.submission r :: trace))
    else lockBound trace
  | _ :: trace => lockBound trace

theorem lockDelay_late {k : Nat} (h : 8 ≤ k) : lockDelay k = 3600 := by
  unfold lockDelay
  rw [if_neg (by omega), if_neg (by omega), if_neg (by omega), if_pos h]

theorem lockDelay_le (k : Nat) : lockDelay k ≤ 3600 := by
  rcases Nat.lt_or_ge k 8 with hk | hk
  · have hall : ∀ k < 8, lockDelay k ≤ 3600 := by decide
    exact hall k hk
  · exact Nat.le_of_eq (lockDelay_late hk)

theorem lockDelay_mono {a b : Nat} (h : a ≤ b) : lockDelay a ≤ lockDelay b := by
  rcases Nat.lt_or_ge b 8 with hb | hb
  · have hall : ∀ b < 8, ∀ a < 8, a ≤ b → lockDelay a ≤ lockDelay b := by decide
    exact hall b hb a (by omega) h
  · rw [lockDelay_late hb]
    exact lockDelay_le a

theorem lockDelay_last {k : Nat} (h : uint32Max ≤ k) : lockDelay k = 3600 := by
  apply lockDelay_late
  have hmax : 8 ≤ uint32Max := by decide
  omega

theorem lockBound_middle (middle older : List (UiEvent H)) (r : Submission H)
    (hwrong : r.correct = false) (hobs : r.outcome.observable = true)
    (hmiddle : ∀ m, .submission m ∈ middle → m.outcome.observable = false) :
    lockBound (middle ++ UiEvent.submission r :: older) =
      r.time + lockDelay (wrongRun (.submission r :: older)) := by
  induction middle with
  | nil => simp only [List.nil_append, lockBound, hobs, hwrong, if_true, Bool.false_eq_true, if_false]
  | cons ev middle ih =>
    have htail := ih fun m hm => hmiddle m (List.mem_cons_of_mem _ hm)
    cases ev with
    | submission m =>
      have hm := hmiddle m List.mem_cons_self
      simp only [List.cons_append, lockBound, hm, Bool.false_eq_true, if_false]
      exact htail
    | _ => exact htail

theorem lockBound_cases (trace : List (UiEvent H)) :
    lockBound trace = 0 ∨ ∃ middle older r, trace = middle ++ UiEvent.submission r :: older ∧
      r.correct = false ∧ r.outcome.observable = true ∧
      (∀ m, .submission m ∈ middle → m.outcome.observable = false) := by
  induction trace with
  | nil => exact .inl rfl
  | cons ev trace ih =>
    have hskip (hb : lockBound (ev :: trace) = lockBound trace)
        (hev : ∀ m, .submission m = ev → m.outcome.observable = false) :
        lockBound (ev :: trace) = 0 ∨ ∃ middle older r,
          ev :: trace = middle ++ UiEvent.submission r :: older ∧ r.correct = false ∧
          r.outcome.observable = true ∧
          (∀ m, .submission m ∈ middle → m.outcome.observable = false) := by
      rcases ih with h0 | ⟨middle, older, r, heq, hwrong, hobs, hmiddle⟩
      · exact .inl (hb.trans h0)
      · refine .inr ⟨ev :: middle, older, r, by rw [heq]; rfl, hwrong, hobs, fun m hm => ?_⟩
        rcases List.mem_cons.mp hm with hm | hm
        · exact hev m hm
        · exact hmiddle m hm
    cases ev with
    | submission r =>
      by_cases hobs : r.outcome.observable = true
      · by_cases hc : r.correct = true
        · exact .inl (by simp [lockBound, hobs, hc])
        · exact .inr ⟨[], trace, r, rfl, Bool.eq_false_of_not_eq_true hc, hobs, by simp⟩
      · refine hskip (by simp [lockBound, hobs]) fun m hm => ?_
        cases hm
        exact Bool.eq_false_of_not_eq_true hobs
    | _ => exact hskip rfl (by simp)

theorem Lockout.bound_le {r : Submission H} {trace : List (UiEvent H)}
    (h : Lockout (.submission r :: trace)) (hobs : r.outcome.observable = true) :
    lockBound trace ≤ r.time := by
  rcases lockBound_cases trace with h0 | ⟨middle, older, r₀, heq, hwrong, hobs₀, hmiddle⟩
  · omega
  · rw [heq, lockBound_middle middle older r₀ hwrong hobs₀ hmiddle]
    exact h.delay [] middle older r₀ r (by rw [heq]; rfl) hwrong hobs₀ hobs hmiddle

theorem Lockout.cons {r : Submission H} {trace : List (UiEvent H)} (h : Lockout trace)
    (hbound : r.outcome.observable = true → lockBound trace ≤ r.time)
    (hseen : r.gate = .ready → r.durableSeen ≤ r.time) : Lockout (.submission r :: trace) := by
  refine ⟨?_, ?_⟩
  · intro newer middle older r₀ r' heq hwrong hobs hobs' hmiddle
    cases newer with
    | nil =>
      obtain ⟨hr, hrest⟩ := List.cons.inj heq
      cases hr
      rw [← lockBound_middle middle older r₀ hwrong hobs hmiddle, ← hrest]
      exact hbound hobs'
    | cons n newer =>
      exact h.delay newer middle older r₀ r' (List.cons.inj heq).2 hwrong hobs hobs' hmiddle
  · intro r' hr'
    rcases List.mem_cons.mp hr' with heq | hr'
    · cases heq
      exact hseen
    · exact h.seen r' hr'

def isSubmission : UiEvent H → Bool
  | .submission _ => true
  | _ => false

theorem Lockout.skip {ev : UiEvent H} {trace : List (UiEvent H)} (hev : isSubmission ev = false)
    (h : Lockout trace) : Lockout (ev :: trace) := by
  refine ⟨?_, ?_⟩
  · intro newer middle older r₀ r' heq
    cases newer with
    | nil =>
      obtain ⟨rfl, -⟩ := List.cons.inj heq
      simp [isSubmission] at hev
    | cons n newer => exact h.delay newer middle older r₀ r' (List.cons.inj heq).2
  · intro r' hr'
    rcases List.mem_cons.mp hr' with rfl | hr'
    · simp [isSubmission] at hev
    · exact h.seen r' hr'

/-- The record is at least as strict as what has been observed. -/
structure Dominates (record : PinLockRecord) (trace : List (UiEvent H)) : Prop where
  bound : lockBound trace ≤ max record.lockedUntil record.lastSeen
  count : wrongRun trace ≤ record.failures ∨ uint32Max ≤ record.failures

theorem dominates_nil (record : PinLockRecord) : Dominates record ([] : List (UiEvent H)) :=
  ⟨Nat.zero_le _, .inl (Nat.zero_le _)⟩

theorem Dominates.skip {record : PinLockRecord} {ev : UiEvent H} {trace : List (UiEvent H)}
    (hev : isSubmission ev = false) (h : Dominates record trace) :
    Dominates record (ev :: trace) := by
  cases ev with
  | submission r => simp [isSubmission] at hev
  | _ => exact ⟨h.bound, h.count⟩

theorem Dominates.unseen {record : PinLockRecord} {r : Submission H} {trace : List (UiEvent H)}
    (hobs : r.outcome.observable = false) (h : Dominates record trace) :
    Dominates record (.submission r :: trace) := by
  refine ⟨by simpa only [lockBound, hobs, Bool.false_eq_true, if_false] using h.bound, ?_⟩
  simp only [wrongRun, hobs, Bool.false_eq_true, if_false]
  split_ifs
  · exact .inl (Nat.zero_le _)
  · exact h.count

theorem Dominates.next {record : PinLockRecord} {r : Submission H} {trace : List (UiEvent H)}
    (h : Dominates record trace) (hgate : r.gate = .ready) (hseen : record.lastSeen ≤ r.time)
    (huntil : record.lockedUntil ≤ r.time) :
    Dominates (nextLockRecord record r.correct r.time) (.submission r :: trace) := by
  have hold : lockBound trace ≤ r.time := h.bound.trans (max_le huntil hseen)
  cases hc : r.correct with
  | true =>
    refine ⟨?_, .inl ?_⟩
    · simp only [lockBound, hc, if_true, nextLockRecord]
      split_ifs
      · exact Nat.zero_le _
      · exact hold.trans (le_max_right _ _)
    · simp [wrongRun, hgate, hc]
  | false =>
    have hcount : wrongRun (.submission r :: trace) ≤ nextFailures record.failures ∨
        uint32Max ≤ nextFailures record.failures := by
      have hcount := h.count
      simp only [wrongRun, hc, Bool.false_eq_true, and_false, if_false, nextFailures]
      split_ifs <;> omega
    have hdelay : lockDelay (wrongRun (.submission r :: trace)) ≤
        lockDelay (nextFailures record.failures) := by
      rcases hcount with hle | hmax
      · exact lockDelay_mono hle
      · exact (lockDelay_le _).trans (lockDelay_last hmax).ge
    refine ⟨?_, hcount⟩
    simp only [lockBound, hc, Bool.false_eq_true, if_false, nextLockRecord]
    split_ifs with hobs hzero hzero
    · exact (Nat.add_le_add_left hdelay r.time).trans (le_max_left _ _)
    · have h0 : lockDelay (nextFailures record.failures) = 0 := not_not.mp hzero
      omega
    · exact hold.trans (le_max_right _ _)
    · exact hold.trans (le_max_right _ _)

/-- The lock record an image holds; a missing one counts as all zero. -/
def NvsImage.lockRecord (i : NvsImage H) : PinLockRecord := i.pinLock.getD {}

/-- The invariant behind `lockout_between_resets`. -/
structure LockoutInv (c : Core H) : Prop where
  lockout : Lockout (sinceWipe c.trace)
  ram : Dominates c.nvs.ram.lockRecord (sinceWipe c.trace)
  flash : Dominates c.nvs.flash.lockRecord (sinceWipe c.trace)
  record : c.storageOk = true → c.storeOpen = true →
    Dominates c.record (sinceWipe c.trace) ∧
      c.nvs.ram.lockRecord.lastSeen ≤ c.record.lastSeen ∧
      c.nvs.flash.lockRecord.lastSeen ≤ c.record.lastSeen

/-- A write of another key can only move a pending lock record to flash. -/
def LockKept (nvs nvs' : Nvs H) : Prop :=
  nvs'.ram.lockRecord = nvs.ram.lockRecord ∧
    (nvs'.flash.lockRecord = nvs.flash.lockRecord ∨ nvs'.flash.lockRecord = nvs.ram.lockRecord)

theorem store_lockKept {nvs nvs' : Nvs H} {set commit : NvsReply}
    {image : NvsImage H → NvsImage H} {done : Bool}
    (heq : nvs.store set commit image = (done, nvs'))
    (himage : ∀ i, (image i).lockRecord = i.lockRecord) : LockKept nvs nvs' := by
  obtain ⟨-, rfl⟩ := Prod.ext_iff.mp heq
  have hi := himage nvs.ram
  cases set with
  | ok => cases commit with
    | ok => exact ⟨hi, .inr hi⟩
    | fail b => cases b with
      | true => exact ⟨hi, .inr hi⟩
      | false => exact ⟨hi, .inl rfl⟩
  | fail b => cases b with
    | true => exact ⟨hi, .inl rfl⟩
    | false => exact ⟨rfl, .inl rfl⟩

theorem storeFailed_lockKept (c : Core H) (nvs : Nvs H) (hn : StoreFailed c nvs) :
    LockKept c.nvs nvs := by
  rcases hn with rfl | ⟨-, hash, set, commit, heq⟩
  · exact ⟨rfl, .inl rfl⟩
  · exact store_lockKept heq fun _ => rfl

theorem lockWrite_cases (c : Core H) (record : PinLockRecord) (done : Bool) (nvs : Nvs H)
    (hn : LockWrite c record done nvs) :
    (nvs.ram.lockRecord = c.nvs.ram.lockRecord ∨ nvs.ram.lockRecord = record) ∧
      (nvs.flash.lockRecord = c.nvs.flash.lockRecord ∨ nvs.flash.lockRecord = record) ∧
      (done = true → nvs.ram.lockRecord = record ∧ nvs.flash.lockRecord = record) := by
  obtain ⟨set, commit, heq⟩ := hn
  obtain ⟨rfl, rfl⟩ := Prod.ext_iff.mp heq
  cases set with
  | ok => cases commit with
    | ok => exact ⟨.inr rfl, .inr rfl, fun _ => ⟨rfl, rfl⟩⟩
    | fail b => cases b with
      | true => exact ⟨.inr rfl, .inr rfl, by simp [Nvs.store]⟩
      | false => exact ⟨.inr rfl, .inl rfl, by simp [Nvs.store]⟩
  | fail b => cases b with
    | true => exact ⟨.inr rfl, .inl rfl, by simp [Nvs.store]⟩
    | false => exact ⟨.inl rfl, .inl rfl, by simp [Nvs.store]⟩

theorem sinceWipe_cons (ev : UiEvent H) (trace : List (UiEvent H)) (hev : ev.isWiped = false) :
    sinceWipe (ev :: trace) = ev :: sinceWipe trace := by
  simp [sinceWipe, hev]

theorem LockoutInv.quiet {c c' : Core H} (h : LockoutInv c)
    (htrace : c'.trace = c.trace ∨
      ∃ ev, c'.trace = ev :: c.trace ∧ isSubmission ev = false ∧ ev.isWiped = false)
    (hnvs : LockKept c.nvs c'.nvs) (hrecord : c'.record = c.record)
    (hs : c'.storageOk = true → c.storageOk = true) (ho : c'.storeOpen = true → c.storeOpen = true) :
    LockoutInv c' := by
  have hdom {record : PinLockRecord} (hd : Dominates record (sinceWipe c.trace)) :
      Dominates record (sinceWipe c'.trace) := by
    rcases htrace with ht | ⟨ev, ht, hev, hw⟩
    · rwa [ht]
    · rw [ht, sinceWipe_cons ev _ hw]
      exact hd.skip hev
  obtain ⟨hr, hf⟩ := hnvs
  refine ⟨?_, hr ▸ hdom h.ram, ?_, ?_⟩
  · rcases htrace with ht | ⟨ev, ht, hev, hw⟩
    · rw [ht]
      exact h.lockout
    · rw [ht, sinceWipe_cons ev _ hw]
      exact h.lockout.skip hev
  · rcases hf with hf | hf
    · exact hf ▸ hdom h.flash
    · exact hf ▸ hdom h.ram
  · intro hs' ho'
    obtain ⟨hd, h₁, h₂⟩ := h.record (hs hs') (ho ho')
    rw [hrecord, hr]
    refine ⟨hdom hd, h₁, ?_⟩
    rcases hf with hf | hf
    · exact hf ▸ h₂
    · exact hf ▸ h₁

variable [DecidableEq H]

theorem LockoutInv.accepted {B : Bcrypt Salt H} {c c' : Core H} {r : Submission H}
    (h : LockoutInv c) (ha : Accepted B c r) (htrace : c'.trace = .submission r :: c.trace)
    (hram : c'.nvs.ram.lockRecord = nextLockRecord c.record r.correct r.time ∨
      (c'.nvs.ram.lockRecord = c.nvs.ram.lockRecord ∧ r.outcome.observable = false))
    (hflash : c'.nvs.flash.lockRecord = nextLockRecord c.record r.correct r.time ∨
      (c'.nvs.flash.lockRecord = c.nvs.flash.lockRecord ∧ r.outcome.observable = false))
    (hrecord : c'.storageOk = true →
      c'.record = nextLockRecord c.record r.correct r.time ∧
      c'.nvs.ram.lockRecord = nextLockRecord c.record r.correct r.time ∧
      c'.nvs.flash.lockRecord = nextLockRecord c.record r.correct r.time) :
    LockoutInv c' := by
  obtain ⟨hd, -, hdurable⟩ := h.record ha.storageOk ha.storeOpen
  have hnext := hd.next ha.gate ha.lastSeen ha.lockedUntil
  have hsince : sinceWipe c'.trace = .submission r :: sinceWipe c.trace := by
    rw [htrace, sinceWipe_cons _ _ rfl]
  have himage {record old : PinLockRecord} (hold : Dominates old (sinceWipe c.trace))
      (hcases : record = nextLockRecord c.record r.correct r.time ∨
        (record = old ∧ r.outcome.observable = false)) :
      Dominates record (sinceWipe c'.trace) := by
    rw [hsince]
    rcases hcases with rfl | ⟨rfl, hobs⟩
    · exact hnext
    · exact hold.unseen hobs
  refine ⟨?_, himage h.ram hram, himage h.flash hflash, fun hs _ => ?_⟩
  · rw [hsince]
    refine h.lockout.cons (fun _ => hd.bound.trans (max_le ha.lockedUntil ha.lastSeen)) fun _ => ?_
    rw [ha.durableSeen]
    exact hdurable.trans ha.lastSeen
  · obtain ⟨hrec, hr, hf⟩ := hrecord hs
    rw [hrec, hr, hf, hsince]
    exact ⟨hnext, le_refl _, le_refl _⟩

omit [DecidableEq H] in
theorem LockoutInv.refused {c c' : Core H} {r : Submission H} (h : LockoutInv c)
    (htrace : c'.trace = .submission r :: c.trace) (hgate : r.gate ≠ .ready)
    (hobs : r.outcome.observable = false) (hnvs : c'.nvs = c.nvs) (hrecord : c'.record = c.record)
    (hs : c'.storageOk = c.storageOk) (ho : c'.storeOpen = c.storeOpen) : LockoutInv c' := by
  have hsince : sinceWipe c'.trace = .submission r :: sinceWipe c.trace := by
    rw [htrace, sinceWipe_cons _ _ rfl]
  refine ⟨?_, ?_, ?_, ?_⟩
  · rw [hsince]
    exact h.lockout.cons (fun ho => absurd (hobs.symm.trans ho) Bool.false_ne_true)
      (fun hg => absurd hg hgate)
  · rw [hsince, hnvs]
    exact h.ram.unseen hobs
  · rw [hsince, hnvs]
    exact h.flash.unseen hobs
  · rw [hs, ho, hsince, hnvs, hrecord]
    intro h₁ h₂
    exact ⟨(h.record h₁ h₂).1.unseen hobs, (h.record h₁ h₂).2⟩

omit [DecidableEq H] in
theorem Submission.ended_unseen {r : Submission H} {outcome : SubmitOutcome}
    (h : r.ended outcome) (ho : outcome.observable = false) : r.outcome.observable = false := by
  rcases h with h | h
  · rw [h, ho]
  · rw [h]
    rfl

theorem LockoutInv.recorded {B : Bcrypt Salt H} {c c' : Core H} {r : Submission H} {nvs : Nvs H}
    {ok : Bool} (h : LockoutInv c) (ha : Accepted B c r) (hc : r.correct = ok)
    (htrace : c'.trace = .submission r :: c.trace)
    (hn : LockWrite c (nextLockRecord c.record ok r.time) true nvs) (hkept : LockKept nvs c'.nvs)
    (hrecord : c'.record = nextLockRecord c.record ok r.time) : LockoutInv c' := by
  subst hc
  obtain ⟨hr, hf⟩ := (lockWrite_cases c _ true nvs hn).2.2 rfl
  have hr' : c'.nvs.ram.lockRecord = nextLockRecord c.record r.correct r.time := hkept.1.trans hr
  have hf' : c'.nvs.flash.lockRecord = nextLockRecord c.record r.correct r.time := by
    rcases hkept.2 with hk | hk
    · exact hk.trans hf
    · exact hk.trans hr
  exact h.accepted ha htrace (.inl hr') (.inl hf') fun _ => ⟨hrecord, hr', hf'⟩

theorem lockoutInv_pin (B : Bcrypt Salt H) (c c' : Core H) (hstep : PinStep B c c')
    (h : LockoutInv c) : LockoutInv c' := by
  have hsame : LockKept c.nvs c.nvs := ⟨rfl, .inl rfl⟩
  cases hstep with
  | createEntry hm h6 => exact h.quiet (.inr ⟨_, rfl, rfl, rfl⟩) hsame rfl id id
  | retypeFailed nvs hm hn | changeFailed nvs hm hn =>
    exact h.quiet (.inl rfl) (storeFailed_lockKept c nvs hn) rfl id id
  | setupStored hash nvs hm hb ho hh hn | retypeStored hash nvs hm hb ho h6 hf hh hn
  | changeStored hash nvs hm ho hh hn =>
    obtain ⟨set, commit, heq⟩ := hn
    exact h.quiet (.inr ⟨_, rfl, rfl, rfl⟩) (store_lockKept heq fun _ => rfl) rfl id id
  | gateClosed r hg hp ho => exact h.refused rfl hg (Submission.ended_unseen ho rfl) rfl rfl rfl rfl
  | hashError r ha hc hp ho =>
    have hobs := Submission.ended_unseen ho rfl
    exact h.accepted ha rfl (.inr ⟨rfl, hobs⟩) (.inr ⟨rfl, hobs⟩) nofun
  | notRecorded r nvs ha hp ho hn =>
    have hobs := Submission.ended_unseen ho rfl
    obtain ⟨hr, hf, -⟩ := lockWrite_cases c _ false nvs hn
    exact h.accepted ha rfl (hr.symm.imp_right fun hr => ⟨hr, hobs⟩)
      (hf.symm.imp_right fun hf => ⟨hf, hobs⟩) nofun
  | wrong r nvs ha hc hp ho hn =>
    exact h.recorded ha hc rfl hn ⟨rfl, .inl rfl⟩ rfl
  | authorized r nvs hm ha hc hp ho hn | currentAccepted r nvs hm ha hc hp ho hn =>
    exact h.recorded ha hc rfl hn ⟨rfl, .inl rfl⟩ rfl
  | resetNotScheduled r nvs nvs' hm ha hc hp ho hn hw
  | resetScheduled r nvs nvs' hm ha hc hp ho hn hw =>
    obtain ⟨set, commit, heq⟩ := hw
    exact h.recorded ha hc rfl hn (store_lockKept heq fun _ => rfl) rfl
  | _ => exact h.quiet (.inl rfl) hsame rfl id id

omit [DecidableEq H] in
theorem reopen_lockRecord (nvs : Nvs H) (kept : NvsKept) :
    (nvs.reopen kept).ram.lockRecord = nvs.ram.lockRecord ∨
      (nvs.reopen kept).ram.lockRecord = nvs.flash.lockRecord := by
  cases hk : kept.pinLock <;> simp [Nvs.reopen, NvsImage.lockRecord, hk]

omit [DecidableEq H] in
/-- A record that was read honestly, and that `wallet_ui_init` accepted, is the stored one up to
its version. -/
theorem initLock_honest (stored : Option PinLockRecord) (read : NvsRead PinLockRecord)
    (hread : read.honest stored = true) (hs : (initLock read).storageOk = true) :
    (initLock read).record.failures = (stored.getD {}).failures ∧
      (initLock read).record.lockedUntil = (stored.getD {}).lockedUntil ∧
      (initLock read).record.lastSeen = (stored.getD {}).lastSeen := by
  cases read with
  | ok record =>
    have heq : stored = some record := by simpa [NvsRead.honest] using hread
    rw [heq]
    exact ⟨rfl, rfl, rfl⟩
  | notFound =>
    have heq : stored = none := by simpa [NvsRead.honest] using hread
    rw [heq]
    exact ⟨rfl, rfl, rfl⟩
  | otherSize => exact absurd hs Bool.false_ne_true
  | error => exact absurd hs Bool.false_ne_true

theorem lockoutInv_boot (c c' : Core H) (env : BootEnv H)
    (hok : (UiInput.boot env).lockReadHonest c.nvs = true) (hboot : BootStep c env c')
    (h : LockoutInv c) : LockoutInv c' := by
  have hsince : sinceWipe (.boot env.hashNotFound :: c.trace) =
      .boot env.hashNotFound :: sinceWipe c.trace := sinceWipe_cons _ _ rfl
  have hlockout : Lockout (sinceWipe (.boot env.hashNotFound :: c.trace)) :=
    hsince ▸ h.lockout.skip rfl
  have hdom : Dominates (c.nvs.reopen env.kept).ram.lockRecord
      (sinceWipe (.boot env.hashNotFound :: c.trace)) := by
    rw [hsince]
    rcases reopen_lockRecord c.nvs env.kept with heq | heq
    · exact heq ▸ h.ram.skip rfl
    · exact heq ▸ h.flash.skip rfl
  cases hboot with
  | wipeCut hw => exact ⟨hlockout, hdom, hdom, fun _ ho => absurd ho Bool.false_ne_true⟩
  | dark hw ho => exact ⟨hlockout, hdom, hdom, fun _ ho => absurd ho Bool.false_ne_true⟩
  | closed hw ho hn => exact ⟨hlockout, hdom, hdom, fun _ ho => absurd ho Bool.false_ne_true⟩
  | wiped nvs hw hr hf =>
    have hempty : sinceWipe (UiEvent.wiped :: .boot env.hashNotFound :: c.trace) = [] := by
      simp [sinceWipe, UiEvent.isWiped]
    refine ⟨?_, ?_, ?_, fun _ ho => absurd ho Bool.false_ne_true⟩
    · change Lockout (sinceWipe (UiEvent.wiped :: .boot env.hashNotFound :: c.trace))
      rw [hempty]
      exact ⟨by simp, by simp⟩
    · exact hempty ▸ dominates_nil _
    · exact hempty ▸ dominates_nil _
  | opened nvs hw ho hi hn hr hf =>
    have hram : nvs.ram.lockRecord = (c.nvs.reopen env.kept).ram.lockRecord :=
      congrArg (·.getD {}) hr.2
    have hflash : nvs.flash.lockRecord = (c.nvs.reopen env.kept).ram.lockRecord :=
      congrArg (·.getD {}) hf.2
    refine ⟨hlockout, hram ▸ hdom, hflash ▸ hdom, fun hs _ => ?_⟩
    simp only [UiInput.lockReadHonest, hw, Bool.false_or] at hok
    obtain ⟨h₁, h₂, h₃⟩ := initLock_honest _ env.lockRead hok hs
    refine ⟨⟨?_, ?_⟩, ?_, ?_⟩
    · exact hdom.bound.trans (max_le_max h₂.ge h₃.ge)
    · exact hdom.count.imp (·.trans h₁.ge) (·.trans h₁.ge)
    · exact (congrArg PinLockRecord.lastSeen hram).trans_le h₃.ge
    · exact (congrArg PinLockRecord.lastSeen hflash).trans_le h₃.ge

theorem lockoutInv_preserved (B : Bcrypt Salt H) :
    CorePreserved B (fun c i => i.lockReadHonest c.nvs = true) (LockoutInv (H := H)) where
  pin := lockoutInv_pin B
  off c h := h.quiet (.inl rfl) ⟨rfl, .inl rfl⟩ rfl id id
  prompt c _ _ h := h.quiet (.inr ⟨_, rfl, rfl, rfl⟩) ⟨rfl, .inl rfl⟩ rfl id id
  waitStart c env _ _ h := by
    have hstarted : LockoutInv { c with trace := .waitStart :: c.trace } :=
      h.quiet (.inr ⟨_, rfl, rfl, rfl⟩) ⟨rfl, .inl rfl⟩ rfl id id
    exact hstarted.quiet (.inr ⟨_, rfl, rfl, rfl⟩) ⟨rfl, .inl rfl⟩ rfl id id
  result c _ _ _ h := h.quiet (.inl rfl) ⟨rfl, .inl rfl⟩ rfl id id
  consume c _ _ _ h := h.quiet (.inl rfl) ⟨rfl, .inl rfl⟩ rfl id id
  finish c ev _ _ _ h := h.quiet (.inr ⟨_, rfl, rfl, rfl⟩) ⟨rfl, .inl rfl⟩ rfl id id
  boot c env c' := lockoutInv_boot c c' env

/-- In every run, with arbitrary clock readings, failed writes, power losses and reboots, the
lockout holds between two completed device resets. -/
theorem lockout_between_resets (B : Bcrypt Salt H) (image : NvsImage H)
    (inputs : List (UiInput H))
    (hreads : Along (uiStep B) (fun w i => i.lockReadHonest w.nvs = true)
      (deviceOff image) inputs) :
    Lockout (sinceWipe (run (uiStep B) (deviceOff image) inputs).trace) := by
  have hinit : LockoutInv (deviceOff image).core :=
    ⟨⟨by simp [deviceOff, sinceWipe], by simp [deviceOff, sinceWipe]⟩, dominates_nil _,
      dominates_nil _, fun _ ho => absurd ho Bool.false_ne_true⟩
  exact ((lockoutInv_preserved B).run (deviceOff image) inputs hreads hinit).lockout

/-- The clock at second `s` of 2020. -/
def clockAt (s : Nat) : RtcBus where
  statusByte := some 0
  raw := some [UInt8.ofNat (s / 10 * 16 + s % 10), 0, 0, 0, 1, 1, 0x20]

/-- What a pass reads while the clock stands at second `s`. -/
def clockEnv (s : Nat) : TaskEnv :=
  { rtcRefresh := clockAt s, rtcSubmit := clockAt s, rtcAfter := clockAt s }

/-- Passes with the given levels from tick `t` on, the clock at second `s`. -/
def passes (t s : Nat) (levels : List ButtonLevels) : List (UiInput Octets) :=
  levels.mapIdx fun i l => .task { clockEnv s with now := UInt32.ofNat (t + 2 * i), levels := l }

/-- Five wrong entries at the seconds 1 to 5, the cursor on the digit 2. -/
def wrongEntries (t : Nat) : List (UiInput Octets) :=
  passes t 1 [{}, { gpio18 := false }] ++ typeEntry (t + 10) 6 (clockEnv 1) ++
    typeEntry (t + 40) 6 (clockEnv 2) ++ typeEntry (t + 70) 6 (clockEnv 3) ++
    typeEntry (t + 100) 6 (clockEnv 4) ++ typeEntry (t + 130) 6 (clockEnv 5)

/-- A request answered with five wrong PINs and, after the delay, with the right one. -/
theorem lockout_five_wrong :
    wrongRun (run (uiStep plainBcrypt) (deviceOff {})
      (.boot {} :: typeEntry 10 6 ++ typeEntry 50 6 ++ .waitStart {} :: wrongEntries 100)).trace = 5 ∧
    Lockout (sinceWipe (run (uiStep plainBcrypt) (deviceOff {})
      (.boot {} :: typeEntry 10 6 ++ typeEntry 50 6 ++ .waitStart {} :: wrongEntries 100 ++
        passes 400 35 [{}, { gpio10 := false }] ++ typeEntry 410 6 (clockEnv 35))).trace) :=
  ⟨by decide +kernel, lockout_between_resets plainBcrypt {} _ (by decide +kernel)⟩

/-- A device reset that reports a failed commit although the flag is kept, five wrong PINs, the
restart that carries the reset out, a new PIN, and its use at second 6. -/
def resetRun : List (UiInput Octets) :=
  .boot {} :: typeEntry 10 6 ++ typeEntry 50 6 ++
    passes 100 0 [{}, { gpio5 := false }, {}, { gpio17 := false }, {}, { gpio17 := false }, {},
      { gpio7 := false }, {}] ++
    .task { now := 118, resetYes := false, random32 := 1111 } :: typeEntry 130 4 ++
    typeEntry 160 6 { clockEnv 0 with wipeCommit := .fail false } ++ wrongEntries 200 ++
    [.powerOff, .boot { wipeRead := .ok 1 }, .boot { resetDoneRead := .ok 1 }] ++
    passes 400 6 [{}] ++ typeEntry 410 6 ++ typeEntry 450 6 ++
    .waitStart {} :: typeEntry 500 6 (clockEnv 6)

/-- The newest event is an observed submission before the bound. -/
def headTooEarly : List (UiEvent H) → Bool
  | .submission r :: trace => r.outcome.observable && decide (r.time < lockBound trace)
  | _ => false

omit [DecidableEq H] in
theorem not_lockout_of_headTooEarly {trace : List (UiEvent H)} (h : headTooEarly trace = true) :
    ¬ Lockout trace := by
  intro hl
  match trace, h, hl with
  | .submission r :: trace, h, hl =>
    simp only [headTooEarly, Bool.and_eq_true, decide_eq_true_eq] at h
    exact absurd (hl.bound_le h.1) (Nat.not_le.mpr h.2)

/-- Across a device reset the delay does not hold: the reset erases the record with the PIN. -/
theorem lockout_fails_across_reset :
    Along (uiStep plainBcrypt) (fun w i => i.lockReadHonest w.nvs = true) (deviceOff {}) resetRun ∧
    ¬ Lockout (run (uiStep plainBcrypt) (deviceOff {}) resetRun).trace :=
  ⟨by decide +kernel, not_lockout_of_headTooEarly (by decide +kernel)⟩

end KeyWallet
