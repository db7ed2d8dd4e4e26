import KeyWallet.UiRuns

/-! What a person types on the keypad and what the entry buffer holds, over whole runs of the device. The
buttons are read as the passes over the keypad see them. -/
namespace KeyWallet

variable {Salt H : Type}

/-- A press of Back: the tick of the pass that saw it begin, and whether a pass saw it held for a second. -/
structure BackPress where
  since : UInt32
  held : Bool
  deriving DecidableEq

/-- The digits chosen since the entry was last cleared, and the press of Back that is going on. -/
structure Typed where
  digits : Octets := []
  back : Option BackPress := none
  deriving DecidableEq

namespace Typed

/-- Select chooses a digit, if there is room for one. -/
def select (t : Typed) (limit : Nat) : Option UInt8 → Typed
  | some digit => if t.digits.length < limit then { t with digits := t.digits ++ [digit] } else t
  | none => t

def press (t : Typed) (newly : Bool) (now : UInt32) : Typed :=
  if newly then { t with back := some ⟨now, false⟩ } else t

/-- Back is held; after a second the entry is cancelled, but not in the setup. -/
def hold (t : Typed) (down setup : Bool) (now : UInt32) : Typed :=
  match t.back with
  | none => t
  | some b =>
    if down && decide ((now - b.since).toNat ≥ 100) then
      { digits := if b.held || setup then t.digits else [], back := some { b with held := true } }
    else t

/-- Back is released: some presses remove a digit. -/
def release (t : Typed) (up : Bool) (removes : BackPress → Bool) : Typed :=
  match t.back with
  | none => t
  | some b =>
    if up then { digits := if removes b then t.digits.dropLast else t.digits, back := none } else t

/-- The digits after a step that left the buffer `e`. -/
def settle (t : Typed) (e : PinEntry) : Typed := if e = {} then { t with digits := [] } else t

end Typed

/-- The presses that remove a digit, told by whether the device is in its setup: those shorter than a second. -/
def shortPress (_ : Bool) (b : BackPress) : Bool := !b.held

/-- The same, but in the setup a press of any length. -/
def uncancelledPress (setup : Bool) (b : BackPress) : Bool := !(b.held && !setup)

/-- The digit that Select chooses in a pass. -/
def chosenDigit (env : TaskEnv) (p : PinPad) : Option UInt8 :=
  let newly := newlyPressed p.previousButtons env.levels
  if newly (·.gpio7) then
    pinKey (moveSelection p.selectedKey (newly (·.gpio21)) (newly (·.gpio18)) (newly (·.gpio17)) (newly (·.gpio10)))
  else none

/-- A pass over the keypad up to Submit. -/
def Typed.pass (removes : Bool → BackPress → Bool) (env : TaskEnv) (p : PinPad) (t : Typed) : Typed :=
  let selected := t.select p.mode.requiredDigits (chosenDigit env p)
  let pressed := selected.press (newlyPressed p.previousButtons env.levels (·.gpio5)) env.now
  (pressed.hold (!env.levels.gpio5) p.setupAtBoot env.now).release env.levels.gpio5 (removes p.setupAtBoot)

/-- The state in which a due pass comes to the keypad, if it does. -/
def passKeypad (env : TaskEnv) (w : World H) : Option (World H) :=
  let locked := if w.pad.mode.requiresVerification then lockTask env w else (true, w)
  if locked.1 && decide (locked.2.pad.mode ≠ PinMode.idle) then some locked.2 else none

/-- The same of a call of `wallet_ui_task`. -/
def keypadPass (env : TaskEnv) (w : World H) : Option (World H) :=
  if (env.now - w.screen.lastPoll).toNat < 2 then none
  else if w.screen.resetSuccessVisible then none
  else passKeypad env { w with screen.lastPoll := env.now }

section Runs

variable [DecidableEq H]

/-- The digits after a call of `wallet_ui_task`. While the keypad is not shown, no press of Back goes on. -/
def Typed.task (removes : Bool → BackPress → Bool) (B : Bcrypt Salt H) (env : TaskEnv) (w : World H) (t : Typed) :
    Typed :=
  let entry := (walletUiTask B env w).pad.entry
  match keypadPass env w with
  | some v => (t.pass removes env v.pad).settle entry
  | none => { t with back := if w.pad.mode = PinMode.idle then none else t.back }.settle entry

/-- The device with what was typed on it. -/
def typedStep (removes : Bool → BackPress → Bool) (B : Bcrypt Salt H) (s : World H × Typed) (i : UiInput H) :
    World H × Typed :=
  (uiStep B s.1 i,
    match i with
    | .boot _ => {}
    | .prompt | .waitStart _ => if s.1.powered then {} else s.2
    | .task env => if s.1.powered then s.2.task removes B env s.1 else s.2
    | _ => s.2)

/-- The buffer holds these digits and zeros behind them. -/
structure PinEntry.Holds (e : PinEntry) (digits : Octets) : Prop where
  length : e.length = digits.length
  bytes : e.bytes = digits ++ List.replicate (7 - digits.length) 0

/-- The call of `pin_submit` in this pass, if it makes one, finds the digits that were typed. -/
def SubmitsTyped (removes : Bool → BackPress → Bool) (env : TaskEnv) (s : World H × Typed) : Prop :=
  ∀ v, keypadPass env s.1 = some v → newlyPressed v.pad.previousButtons env.levels (·.gpio6) = true →
    (padEdit env v).pad.entry.Holds (s.2.pass removes env v.pad).digits

/-- What holds of the buffer in a state and of the next step. -/
structure EntryLaw (removes : Bool → BackPress → Bool) (B : Bcrypt Salt H) (s : World H × Typed) : Prop where
  length : s.1.pad.entry.length ≤ 6
  challenge : s.1.pad.mode = .resetChallenge → s.1.pad.entry.length ≤ 4
  size : s.1.pad.entry.bytes.length = 7
  digits : ∀ i, i < s.1.pad.entry.length → isDigit (s.1.pad.entry.bytes.getD i 0)
  zeros : ∀ i, s.1.pad.entry.length ≤ i → s.1.pad.entry.bytes.getD i 0 = 0
  key : pinKey s.1.pad.selectedKey ≠ none
  submit : ∀ env, SubmitsTyped removes env s
  fresh : ∀ i, s.1.pad.mode = .idle → (uiStep B s.1 i).pad.mode ≠ .idle → (uiStep B s.1 i).pad.entry = {}

end Runs

/-! The buffer. -/

theorem holds_empty : PinEntry.Holds {} [] := ⟨rfl, rfl⟩

theorem PinEntry.Holds.empty_iff {e : PinEntry} {ds : Octets} (h : e.Holds ds) : e = {} ↔ ds = [] := by
  constructor
  · intro he
    have hlen := h.length
    rw [he] at hlen
    exact List.length_eq_zero_iff.mp hlen.symm
  · intro hd
    have hb := h.bytes
    have hl := h.length
    rw [hd] at hb hl
    cases e
    simp_all

theorem PinEntry.Holds.push {e : PinEntry} {ds : Octets} (h : e.Holds ds) (hl : ds.length < 6) (b : UInt8) :
    (e.push b).Holds (ds ++ [b]) := by
  have hlen := h.length
  constructor
  · simp only [PinEntry.push, List.length_append, List.length_singleton]
    omega
  · simp only [PinEntry.push, h.bytes, hlen]
    -- the two writes go to the first two of the zeros
    obtain ⟨n, hn⟩ : ∃ n, 7 - ds.length = n + 2 := ⟨5 - ds.length, by omega⟩
    have hrest : 7 - (ds ++ [b]).length = n + 1 := by
      rw [List.length_append, List.length_singleton]
      omega
    rw [hrest, hn, List.replicate_succ, List.replicate_succ]
    rw [List.set_append_right _ _ (Nat.le_refl _), Nat.sub_self, List.set_cons_zero]
    have hone : ds.length + 1 - ds.length = 1 := by omega
    rw [List.set_append_right _ _ (Nat.le_add_right _ 1), hone, List.set_cons_succ, List.set_cons_zero]
    simp

theorem PinEntry.Holds.pop {e : PinEntry} {ds : Octets} (h : e.Holds ds) (hl : ds.length ≤ 6) :
    e.pop.Holds ds.dropLast := by
  rcases List.eq_nil_or_concat ds with rfl | ⟨front, b, rfl⟩
  · have he : e = {} := h.empty_iff.mpr rfl
    rw [he]
    exact holds_empty
  · have hlen := h.length
    simp only [List.concat_eq_append, List.length_append, List.length_singleton] at hlen hl
    have hpos : e.length ≠ 0 := by omega
    rw [PinEntry.pop, if_neg hpos]
    simp only [List.concat_eq_append, List.dropLast_concat]
    constructor
    · simp only
      omega
    · have hb := h.bytes
      simp only [List.concat_eq_append, List.length_append, List.length_singleton, List.append_assoc] at hb
      have hk : 7 - front.length = (7 - (front.length + 1)) + 1 := by omega
      rw [hb, hk, List.replicate_succ, hlen, Nat.add_sub_cancel]
      rw [List.set_append_right _ _ (Nat.le_refl _), Nat.sub_self]
      simp

theorem Typed.settle_of_holds {t : Typed} {e : PinEntry} (h : e.Holds t.digits) : t.settle e = t := by
  unfold Typed.settle
  split_ifs with he
  · rw [← h.empty_iff.mp he]
  · rfl

theorem Typed.settle_empty (t : Typed) : t.settle {} = { t with digits := [] } := if_pos rfl

/-! The pad and what was typed on it. -/

/-- The two agree. Of a press of Back only while the keypad is shown. -/
structure TypedFor (p : PinPad) (t : Typed) : Prop where
  holds : p.entry.Holds t.digits
  few : t.digits.length ≤ p.mode.requiredDigits
  digits : ∀ d ∈ t.digits, isDigit d
  key : pinKey p.selectedKey ≠ none
  down : p.mode ≠ .idle → p.backDown = t.back.isSome
  back : p.mode ≠ .idle → ∀ b, t.back = some b →
    p.backStarted = b.since ∧ p.backCancelled = (b.held && !p.setupAtBoot)

theorem TypedFor.settle {p : PinPad} {t : Typed} (h : TypedFor p t) : t.settle p.entry = t :=
  Typed.settle_of_holds h.holds

theorem key_or_zero (c : Nat) : pinKey (if pinKey c = none then 10 else c) ≠ none := by
  split_ifs with h
  · decide
  · exact h

theorem moveSelection_key (selected : Nat) (up right down left : Bool) :
    pinKey (moveSelection selected up right down left) ≠ none := key_or_zero _

theorem TypedFor.few_six {p : PinPad} {t : Typed} (h : TypedFor p t) : t.digits.length ≤ 6 :=
  h.few.trans (requiredDigits_le_six p.mode)

theorem TypedFor.select (env : TaskEnv) (w : World H) (t : Typed) (h : TypedFor w.pad t) :
    TypedFor (padSelect env w).pad (t.select w.pad.mode.requiredDigits (chosenDigit env w.pad)) := by
  have hlen := h.holds.length
  have hsix := h.few_six
  unfold padSelect chosenDigit
  simp only
  generalize hk : moveSelection w.pad.selectedKey _ _ _ _ = key
  have hkey : pinKey key ≠ none := by
    rw [← hk]
    exact moveSelection_key _ _ _ _ _
  obtain ⟨digit, hd⟩ := Option.ne_none_iff_exists'.mp hkey
  rw [hd]
  by_cases hnew : newlyPressed w.pad.previousButtons env.levels (·.gpio7) = true
  · rw [if_pos hnew, hnew, Bool.true_and, hlen]
    simp only [Typed.select, decide_eq_true_eq]
    by_cases hroom : t.digits.length < w.pad.mode.requiredDigits
    · rw [if_pos hroom, if_pos hroom]
      have hsix' := requiredDigits_le_six w.pad.mode
      refine ⟨h.holds.push (by omega) digit, ?_, ?_, hkey, h.down, h.back⟩
      · simp only [List.length_append, List.length_singleton]
        exact hroom
      · intro d hmem
        rcases List.mem_append.mp hmem with hmem | hmem
        · exact h.digits d hmem
        · rw [List.mem_singleton.mp hmem]
          exact pinKey_digit key digit hd
    · rw [if_neg hroom, if_neg hroom]
      exact ⟨h.holds, h.few, h.digits, hkey, h.down, h.back⟩
  · have hnew' := Bool.eq_false_of_not_eq_true hnew
    rw [if_neg hnew, hnew', Bool.false_and]
    exact ⟨h.holds, h.few, h.digits, hkey, h.down, h.back⟩

theorem padSelect_frame (env : TaskEnv) (w : World H) :
    (padSelect env w).pad.previousButtons = w.pad.previousButtons ∧
      (padSelect env w).pad.setupAtBoot = w.pad.setupAtBoot ∧ (padSelect env w).pad.mode = w.pad.mode := by
  unfold padSelect
  simp only
  split
  · split_ifs <;> exact ⟨rfl, rfl, rfl⟩
  · exact ⟨rfl, rfl, rfl⟩

theorem padBackDown_frame (env : TaskEnv) (w : World H) :
    (padBackDown env w).pad.setupAtBoot = w.pad.setupAtBoot ∧ (padBackDown env w).pad.mode = w.pad.mode := by
  unfold padBackDown
  split_ifs <;> exact ⟨rfl, rfl⟩

theorem TypedFor.press (env : TaskEnv) (w : World H) (t : Typed) (h : TypedFor w.pad t) :
    TypedFor (padBackDown env w).pad
      (t.press (newlyPressed w.pad.previousButtons env.levels (·.gpio5)) env.now) := by
  unfold padBackDown Typed.press
  split_ifs
  · refine ⟨h.holds, h.few, h.digits, h.key, fun _ => rfl, ?_⟩
    intro _ b hb
    cases hb
    exact ⟨rfl, rfl⟩
  · exact h

theorem TypedFor.hold (env : TaskEnv) (w : World H) (t : Typed) (hm : w.pad.mode ≠ .idle) (h : TypedFor w.pad t) :
    TypedFor (padLongPress env w).pad (t.hold (!env.levels.gpio5) w.pad.setupAtBoot env.now) ∧
      (padLongPress env w).pad.backDown = (t.hold (!env.levels.gpio5) w.pad.setupAtBoot env.now).back.isSome ∧
      ∀ b, (t.hold (!env.levels.gpio5) w.pad.setupAtBoot env.now).back = some b →
        (padLongPress env w).pad.backCancelled = (b.held && !w.pad.setupAtBoot) := by
  have hdown := h.down hm
  have hback := h.back hm
  unfold padLongPress Typed.hold
  rcases hb : t.back with _ | b
  · rw [hb] at hdown
    rw [hdown]
    simp only [Option.isSome_none, Bool.and_false, Bool.false_and, Bool.false_eq_true, if_false]
    refine ⟨h, ?_, ?_⟩
    · rw [hdown, hb]
    · intro b hb'
      rw [hb] at hb'
      exact absurd hb' (Option.some_ne_none b).symm
  · rw [hb] at hdown
    obtain ⟨hsince, hheld⟩ := hback b hb
    rw [hdown, hsince, hheld]
    simp only [Option.isSome_some, Bool.and_true]
    by_cases hlong : (!env.levels.gpio5 && decide ((env.now - b.since).toNat ≥ 100)) = true
    · rw [if_pos hlong]
      obtain ⟨hlow, htime⟩ := Bool.and_eq_true_iff.mp hlong
      rw [hlow, htime]
      cases hs : w.pad.setupAtBoot with
      | true =>
        refine ⟨⟨?_, ?_, ?_, h.key, fun _ => hdown, ?_⟩, hdown, ?_⟩
        · simpa using h.holds
        · simpa using h.few
        · simpa using h.digits
        · intro _ b' hb'
          cases hb'
          refine ⟨hsince, ?_⟩
          simp [hheld, hs]
        · intro b' hb'
          cases hb'
          simp [hheld, hs]
      | false =>
        cases hh : b.held with
        | true =>
          refine ⟨⟨?_, ?_, ?_, h.key, fun _ => hdown, ?_⟩, hdown, ?_⟩
          · simpa using h.holds
          · simpa using h.few
          · simpa using h.digits
          · intro _ b' hb'
            cases hb'
            refine ⟨hsince, ?_⟩
            simp [hheld, hs, hh]
          · intro b' hb'
            cases hb'
            simp [hheld, hs, hh]
        | false =>
          simp only [Bool.not_false, Bool.and_true, Bool.or_false, Bool.false_eq_true, if_false, if_true]
          -- the entry is gone, in the settings with the mode
          split_ifs with hopen
          · refine ⟨⟨holds_empty, Nat.zero_le _, fun d hd => absurd hd List.not_mem_nil, h.key, ?_, ?_⟩, hdown, ?_⟩
            · exact fun hidle => absurd rfl hidle
            · exact fun hidle => absurd rfl hidle
            · intro b' hb'
              cases hb'
              rfl
          · refine ⟨⟨holds_empty, Nat.zero_le _, fun d hd => absurd hd List.not_mem_nil, h.key, fun _ => hdown, ?_⟩,
              hdown, ?_⟩
            · intro _ b' hb'
              cases hb'
              refine ⟨hsince, ?_⟩
              show true = (true && !w.pad.setupAtBoot)
              rw [hs]
              rfl
            · intro b' hb'
              cases hb'
              rfl
    · rw [if_neg hlong]
      have hno : (!w.pad.setupAtBoot && !env.levels.gpio5 && !(b.held && !w.pad.setupAtBoot) &&
          decide ((env.now - b.since).toNat ≥ 100)) = false := by
        revert hlong
        cases decide ((env.now - b.since).toNat ≥ 100) <;> cases env.levels.gpio5 <;> simp
      rw [hno]
      refine ⟨h, by rw [hb]; exact hdown, ?_⟩
      intro b' hb'
      exact (hback b' hb').2

theorem TypedFor.release (env : TaskEnv) (w : World H) (t : Typed) (setup : Bool) (h : TypedFor w.pad t)
    (hdown : w.pad.backDown = t.back.isSome)
    (hcancel : ∀ b, t.back = some b → w.pad.backCancelled = (b.held && !setup)) :
    TypedFor (padBackUp env w).pad (t.release env.levels.gpio5 (uncancelledPress setup)) := by
  unfold padBackUp Typed.release
  rcases hb : t.back with _ | b
  · rw [hb, Option.isSome_none] at hdown
    rw [hdown]
    exact h
  · rw [hb, Option.isSome_some] at hdown
    rw [hdown, Bool.true_and, hcancel b hb]
    have hremoves : uncancelledPress setup b = !(b.held && !setup) := rfl
    simp only [hremoves]
    by_cases hup : env.levels.gpio5 = true
    · rw [if_pos hup, if_pos hup]
      by_cases hkept : (!(b.held && !setup)) = true
      · rw [if_pos hkept, if_pos hkept]
        refine ⟨h.holds.pop h.few_six, ?_, ?_, h.key, fun _ => rfl, fun _ b' hb' => absurd hb' (by simp)⟩
        · simp only [List.length_dropLast]
          have := h.few
          omega
        · intro d hd
          exact h.digits d (List.dropLast_subset _ hd)
      · rw [if_neg hkept, if_neg hkept]
        exact ⟨h.holds, h.few, h.digits, h.key, fun _ => rfl, fun _ b' hb' => absurd hb' (by simp)⟩
    · rw [if_neg hup, if_neg hup]
      exact h

theorem TypedFor.edit (env : TaskEnv) (w : World H) (t : Typed) (hm : w.pad.mode ≠ .idle) (h : TypedFor w.pad t) :
    TypedFor (padEdit env w).pad (t.pass uncancelledPress env w.pad) := by
  obtain ⟨hprev, hsetup, hmode⟩ := padSelect_frame env w
  obtain ⟨hsetup', hmode'⟩ := padBackDown_frame env (padSelect env w)
  have hselected := h.select env w t
  have hpressed := hselected.press env _ _
  rw [hprev] at hpressed
  have hm' : (padBackDown env (padSelect env w)).pad.mode ≠ .idle := by
    rw [hmode', hmode]
    exact hm
  obtain ⟨hheld, hdown, hcancel⟩ := hpressed.hold env _ _ hm'
  rw [hsetup', hsetup] at hheld hdown hcancel
  exact hheld.release env _ _ w.pad.setupAtBoot hdown hcancel

/-! Submit. -/

/-- A pad after `pin_submit`: as it was, or with an empty entry. -/
structure Submitted (p p' : PinPad) : Prop where
  entry : p'.entry = {}
  key : p'.selectedKey = p.selectedKey ∨ p'.selectedKey = 0
  down : p'.backDown = p.backDown
  started : p'.backStarted = p.backStarted
  cancelled : p'.backCancelled = p.backCancelled
  setup : p'.mode ≠ .idle → p'.setupAtBoot = p.setupAtBoot
  awake : p'.mode ≠ .idle → p.mode ≠ .idle

theorem Submitted.typedFor {p p' : PinPad} {t : Typed} (hs : Submitted p p') (h : TypedFor p t) :
    TypedFor p' (t.settle p'.entry) := by
  rw [hs.entry, Typed.settle_empty]
  refine ⟨?_, Nat.zero_le _, fun d hd => absurd hd List.not_mem_nil, ?_, ?_, ?_⟩
  · rw [hs.entry]
    exact holds_empty
  · rcases hs.key with hk | hk
    · rw [hk]
      exact h.key
    · rw [hk]
      decide
  · intro hm
    rw [hs.down]
    exact h.down (hs.awake hm)
  · intro hm b hb
    rw [hs.started, hs.cancelled, hs.setup hm]
    exact h.back (hs.awake hm) b hb

theorem pinStoreNew_pad (B : Bcrypt Salt H) (env : TaskEnv) (w : World H) : (pinStoreNew B env w).2.pad = w.pad := by
  rcases pinStoreNew_cases B env w with ⟨nvs, heq, -⟩ | ⟨h, nvs, heq, -⟩
  · rw [heq]
  · rw [heq]

theorem pinLockStore_pad (env : TaskEnv) (record : PinLockRecord) (w : World H) :
    (pinLockStore env record w).2.pad = w.pad := by
  unfold pinLockStore
  simp only
  split_ifs <;> rfl

theorem resetScheduleWipe_pad (env : TaskEnv) (w : World H) : (resetScheduleWipe env w).2.pad = w.pad := by
  unfold resetScheduleWipe
  simp only
  split_ifs <;> rfl

theorem pinOutcome_submitted (env : TaskEnv) (ok : Bool) (w : World H) (p : PinPad) (h : Submitted p w.pad) :
    Submitted p (pinOutcome env ok w).2.pad := by
  unfold pinOutcome
  simp only
  split_ifs with hchange hok hreset hok hdone hok
  · refine ⟨h.entry, .inr rfl, h.down, h.started, h.cancelled, ?_, ?_⟩
    · intro _
      exact h.setup (by rw [hchange]; decide)
    · intro _
      exact h.awake (by rw [hchange]; decide)
  · exact ⟨h.entry, h.key, h.down, h.started, h.cancelled, h.setup, h.awake⟩
  · exact ⟨h.entry, h.key, h.down, h.started, h.cancelled, h.setup, h.awake⟩
  · show Submitted p { (resetScheduleWipe env w).2.pad with notice := some .flashError }
    rw [resetScheduleWipe_pad]
    exact ⟨h.entry, h.key, h.down, h.started, h.cancelled, h.setup, h.awake⟩
  · show Submitted p { (resetScheduleWipe env w).2.pad with mode := .idle }
    rw [resetScheduleWipe_pad]
    exact ⟨h.entry, h.key, h.down, h.started, h.cancelled, fun hm => absurd rfl hm, fun hm => absurd rfl hm⟩
  · exact ⟨h.entry, h.key, h.down, h.started, h.cancelled, fun hm => absurd rfl hm, fun hm => absurd rfl hm⟩
  · exact ⟨h.entry, h.key, h.down, h.started, h.cancelled, h.setup, h.awake⟩

theorem pinSubmitRetype_submitted (B : Bcrypt Salt H) (env : TaskEnv) (w : World H) (hm : w.pad.mode = .retype) :
    Submitted w.pad (pinSubmitRetype B env w).pad := by
  have hawake : w.pad.mode ≠ .idle := by
    rw [hm]
    decide
  have hpad := pinStoreNew_pad B env w
  unfold pinSubmitRetype
  simp only
  split_ifs with hmatch hboot
  · exact ⟨rfl, .inr rfl, rfl, rfl, rfl, fun _ => rfl, fun _ => hawake⟩
  · rcases (pinStoreNew B env w).1 with _ | generated
    · show Submitted w.pad { (pinStoreNew B env w).2.pad with
        first := List.replicate 7 0, entry := {}, notice := some .flashError }
      rw [hpad]
      exact ⟨rfl, .inl rfl, rfl, rfl, rfl, fun _ => rfl, fun _ => hawake⟩
    · show Submitted w.pad { (pinStoreNew B env w).2.pad with
        first := List.replicate 7 0, entry := {}, mode := .idle, setupAtBoot := false }
      rw [hpad]
      exact ⟨rfl, .inl rfl, rfl, rfl, rfl, fun hidle => absurd rfl hidle, fun _ => hawake⟩
  · rcases (pinStoreNew B env w).1 with _ | generated
    · show Submitted w.pad { (pinStoreNew B env w).2.pad with
        first := List.replicate 7 0, entry := {}, notice := some .flashError }
      rw [hpad]
      exact ⟨rfl, .inl rfl, rfl, rfl, rfl, fun _ => rfl, fun _ => hawake⟩
    · show Submitted w.pad { (pinStoreNew B env w).2.pad with
        first := List.replicate 7 0, entry := {}, mode := .idle }
      rw [hpad]
      exact ⟨rfl, .inl rfl, rfl, rfl, rfl, fun _ => rfl, fun _ => hawake⟩

theorem pinSubmitChangeRetype_submitted (B : Bcrypt Salt H) (env : TaskEnv) (w : World H)
    (hm : w.pad.mode = .changeRetype) : Submitted w.pad (pinSubmitChangeRetype B env w).pad := by
  have hawake : w.pad.mode ≠ .idle := by
    rw [hm]
    decide
  have hpad := pinStoreNew_pad B env w
  unfold pinSubmitChangeRetype
  simp only
  split_ifs with hmatch
  · exact ⟨rfl, .inl rfl, rfl, rfl, rfl, fun _ => rfl, fun _ => hawake⟩
  · rcases (pinStoreNew B env w).1 with _ | generated
    · show Submitted w.pad { (pinStoreNew B env w).2.pad with
        first := List.replicate 7 0, entry := {}, mode := .changeNew, notice := some .flashError }
      rw [hpad]
      exact ⟨rfl, .inl rfl, rfl, rfl, rfl, fun _ => rfl, fun _ => hawake⟩
    · show Submitted w.pad { (pinStoreNew B env w).2.pad with
        first := List.replicate 7 0, entry := {}, mode := .idle, notice := none }
      rw [hpad]
      exact ⟨rfl, .inl rfl, rfl, rfl, rfl, fun hidle => absurd rfl hidle, fun _ => hawake⟩

section Submit

variable [DecidableEq H]

theorem pinRecordEntry_submitted (env : TaskEnv) (w cleared : World H) (candidate : H) (p : PinPad)
    (h : Submitted p cleared.pad) : Submitted p (pinRecordEntry env w cleared candidate).pad := by
  unfold pinRecordEntry
  simp only
  generalize hr : pinLockRecordResult env _ _ cleared = recorded
  have hpad : recorded.2.pad = cleared.pad := by
    rw [← hr]
    exact pinLockStore_pad env _ cleared
  by_cases hstored : (!recorded.1) = true
  · rw [if_pos hstored]
    show Submitted p { recorded.2.pad with notice := some .flashError }
    rw [hpad]
    exact ⟨h.entry, h.key, h.down, h.started, h.cancelled, h.setup, h.awake⟩
  · rw [if_neg hstored]
    apply pinOutcome_submitted
    show Submitted p recorded.2.pad
    rw [hpad]
    exact h

theorem pinVerifyEntry_submitted (B : Bcrypt Salt H) (env : TaskEnv) (w : World H) :
    Submitted w.pad (pinVerifyEntry B env w).pad := by
  have hclear : Submitted w.pad w.pinClear.pad := ⟨rfl, .inl rfl, rfl, rfl, rfl, fun _ => rfl, id⟩
  have hnotice (notice : Option PinNotice) : Submitted w.pad { w.pinClear.pad with notice := notice } :=
    ⟨rfl, .inl rfl, rfl, rfl, rfl, fun _ => rfl, id⟩
  unfold pinVerifyEntry
  simp only
  split_ifs with hready
  · exact hclear
  · rcases pinCalculate B w.pad.entry w.pinHash with _ | candidate
    · exact hnotice _
    · exact pinRecordEntry_submitted env w _ candidate w.pad hclear

/-- `pin_submit` leaves the pad, or empties the entry. -/
theorem pinSubmit_pad (B : Bcrypt Salt H) (env : TaskEnv) (w : World H) :
    (pinSubmit B env w).pad = w.pad ∨ Submitted w.pad (pinSubmit B env w).pad := by
  unfold pinSubmit
  split_ifs with hc h4 hmatch h6
  · exact .inl rfl
  · refine .inr ⟨rfl, .inl rfl, rfl, rfl, rfl, fun _ => rfl, fun _ => ?_⟩
    rw [hc]
    decide
  · exact .inr ⟨rfl, .inl rfl, rfl, rfl, rfl, fun _ => rfl, id⟩
  · exact .inl rfl
  · right
    split
    · rename_i hm
      refine ⟨rfl, .inl rfl, rfl, rfl, rfl, fun _ => rfl, fun _ => ?_⟩
      rw [hm]
      decide
    · rename_i hm
      exact pinSubmitRetype_submitted B env w hm
    · rename_i hm
      refine ⟨rfl, .inl rfl, rfl, rfl, rfl, fun _ => rfl, fun _ => ?_⟩
      rw [hm]
      decide
    · rename_i hm
      exact pinSubmitChangeRetype_submitted B env w hm
    · exact pinVerifyEntry_submitted B env w

theorem TypedFor.submit (B : Bcrypt Salt H) (env : TaskEnv) (w : World H) (t : Typed) (h : TypedFor w.pad t) :
    TypedFor (pinSubmit B env w).pad (t.settle (pinSubmit B env w).pad.entry) := by
  rcases pinSubmit_pad B env w with hp | hp
  · rw [hp, h.settle]
    exact h
  · exact hp.typedFor h

/-! The calls of `wallet_ui_task`. -/

theorem TypedFor.padTask (B : Bcrypt Salt H) (env : TaskEnv) (v : World H) (t : Typed) (hm : v.pad.mode ≠ .idle)
    (h : TypedFor v.pad t) :
    TypedFor (padTask B env v).pad ((t.pass uncancelledPress env v.pad).settle (padTask B env v).pad.entry) := by
  have hedit := h.edit env v t hm
  have hkeep (u : World H) (levels : ButtonLevels) (t' : Typed) (hu : TypedFor u.pad t') :
      TypedFor { u.pad with previousButtons := some levels } t' :=
    ⟨hu.holds, hu.few, hu.digits, hu.key, hu.down, hu.back⟩
  unfold KeyWallet.padTask
  simp only
  split_ifs with hsubmit
  · exact hkeep _ _ _ (hedit.submit B env)
  · rw [hedit.settle]
    exact hkeep _ _ _ hedit

end Submit

/-- What the keypad does not see of a step. -/
structure SamePad (p p' : PinPad) : Prop where
  mode : p'.mode = p.mode
  entry : p'.entry = p.entry
  key : p'.selectedKey = p.selectedKey
  down : p'.backDown = p.backDown
  started : p'.backStarted = p.backStarted
  cancelled : p'.backCancelled = p.backCancelled
  setup : p'.setupAtBoot = p.setupAtBoot

theorem SamePad.refl (p : PinPad) : SamePad p p := ⟨rfl, rfl, rfl, rfl, rfl, rfl, rfl⟩

theorem SamePad.typedFor {p p' : PinPad} {t : Typed} (hs : SamePad p p') (h : TypedFor p t) : TypedFor p' t := by
  constructor
  · rw [hs.entry]
    exact h.holds
  · rw [hs.mode]
    exact h.few
  · exact h.digits
  · rw [hs.key]
    exact h.key
  · rw [hs.mode, hs.down]
    exact h.down
  · rw [hs.mode, hs.started, hs.cancelled, hs.setup]
    exact h.back

/-- An entry begins: empty, with no press of Back. -/
structure Opened (p : PinPad) : Prop where
  entry : p.entry = {}
  key : p.selectedKey = 0
  down : p.backDown = false

theorem Opened.typedFor {p : PinPad} (h : Opened p) : TypedFor p {} := by
  refine ⟨?_, Nat.zero_le _, fun d hd => absurd hd List.not_mem_nil, ?_, fun _ => h.down, fun _ b hb => ?_⟩
  · rw [h.entry]
    exact holds_empty
  · rw [h.key]
    decide
  · exact absurd hb (Option.some_ne_none b).symm

theorem lockTask_pad (env : TaskEnv) (w : World H) :
    ((lockTask env w).1 = true → SamePad w.pad (lockTask env w).2.pad) ∧
      (SamePad w.pad (lockTask env w).2.pad ∨
        ((lockTask env w).2.pad.entry = {} ∧ (lockTask env w).2.pad.mode = .idle ∧
          (lockTask env w).2.pad.selectedKey = w.pad.selectedKey)) := by
  have hrefresh : SamePad w.pad (lockRefresh env w).pad := by
    unfold lockRefresh
    split_ifs
    · exact ⟨rfl, rfl, rfl, rfl, rfl, rfl, rfl⟩
    · exact .refl _
  unfold lockTask lockScreen
  simp only
  split_ifs with hready hback hopen
  · exact ⟨fun _ => hrefresh, .inl hrefresh⟩
  · exact ⟨fun h => absurd h (by decide), .inr ⟨rfl, rfl, hrefresh.key⟩⟩
  · exact ⟨fun h => absurd h (by decide), .inr ⟨rfl, rfl, hrefresh.key⟩⟩
  · exact ⟨fun h => absurd h (by decide), .inl hrefresh⟩

theorem menuTask_pad (pins prev : ButtonLevels) (w : World H) :
    SamePad w.pad (menuTask pins prev w).pad ∨ Opened (menuTask pins prev w).pad := by
  rcases menuTask_step pins prev w with ⟨s, -, heq⟩ | ⟨-, heq⟩
  · rw [heq]
    exact .inl (.refl _)
  · rw [heq]
    exact .inr ⟨rfl, rfl, rfl⟩

theorem idleMenus_pad (env : TaskEnv) (w : World H) :
    SamePad w.pad (idleMenus env w).pad ∨ Opened (idleMenus env w).pad := by
  unfold idleMenus
  simp only
  split
  · exact .inl (.refl _)
  · split_ifs
    · exact menuTask_pad env.levels _ w
    · exact .inl (.refl _)

theorem resetConfirmTask_pad (env : TaskEnv) (w : World H) :
    ((resetConfirmTask env w).1 = true ∧ (resetConfirmTask env w).2.pad = w.pad) ∨
      ((resetConfirmTask env w).1 = false ∧ Opened (resetConfirmTask env w).2.pad) := by
  unfold resetConfirmTask
  simp only
  split_ifs
  · exact .inl ⟨rfl, rfl⟩
  · exact .inr ⟨rfl, rfl, rfl, rfl⟩
  · exact .inl ⟨rfl, rfl⟩
  · exact .inl ⟨rfl, rfl⟩

theorem idleTask_pad (env : TaskEnv) (w : World H) :
    SamePad w.pad (idleTask env w).pad ∨ Opened (idleTask env w).pad := by
  unfold idleTask
  simp only
  split_ifs with hsuccess hexpired hgo
  · exact .inl (.refl _)
  · exact .inl (.refl _)
  · rcases resetConfirmTask_pad env { w with screen := w.screen.takeCommand } with ⟨-, hpad⟩ | ⟨hno, -⟩
    · have hmenus := idleMenus_pad env (resetConfirmTask env { w with screen := w.screen.takeCommand }).2
      rw [hpad] at hmenus
      exact hmenus
    · rw [hno] at hgo
      exact absurd hgo (by decide)
  · rcases resetConfirmTask_pad env { w with screen := w.screen.takeCommand } with ⟨hyes, -⟩ | ⟨-, hpad⟩
    · exact absurd hyes hgo
    · exact .inr hpad

theorem buttonWaitPoll_pad (env : PollEnv) (w : World H) :
    (buttonWaitPoll env w).pad = w.pad ∨
      (buttonWaitPoll env w).pad = { w.pad with mode := .idle, backDown := false } := by
  unfold buttonWaitPoll
  simp only
  split_ifs
  · exact .inl rfl
  · exact .inl rfl
  · rcases pollResult env _ _ with _ | ev
    · exact .inl rfl
    · exact .inr rfl

theorem initNvs_pad (env : BootEnv H) (w : World H) : (initNvs env w).pad = w.pad := by
  unfold initNvs
  split_ifs
  · rfl
  · have hid (u : World H) : (initDeviceId env u).pad = u.pad := by
      unfold initDeviceId
      split
      · split_ifs <;> rfl
      · rfl
    have hdone (u : World H) : (initResetDone env u).pad = u.pad := by
      unfold initResetDone
      split_ifs <;> rfl
    rw [hid]
    exact hdone _

theorem initSetup_pad (w : World H) (h : w.pad = {}) : Opened (initSetup w).pad := by
  unfold initSetup
  split_ifs
  · constructor
    · show ({ w.pad.entry with length := 0 } : PinEntry) = {}
      rw [h]
    · rfl
    · show w.pad.backDown = false
      rw [h]
  · rw [h]
    exact ⟨rfl, rfl, rfl⟩

theorem walletUiPrompt_pad (w : World H) : Opened (walletUiPrompt w).pad := ⟨rfl, rfl, rfl⟩

section Steps

variable [DecidableEq H]

theorem passTask_keypad (B : Bcrypt Salt H) (env : TaskEnv) (w v : World H) (h : passKeypad env w = some v) :
    passTask B env w = KeyWallet.padTask B env v ∧ SamePad w.pad v.pad ∧ v.pad.mode ≠ .idle := by
  obtain ⟨hsame, -⟩ := lockTask_pad env w
  unfold passKeypad at h
  unfold passTask
  by_cases hv : w.pad.mode.requiresVerification = true
  · simp only [hv, if_true] at h ⊢
    by_cases hgo : ((lockTask env w).1 && decide ((lockTask env w).2.pad.mode ≠ .idle)) = true
    · rw [if_pos hgo, Option.some.injEq] at h
      obtain ⟨hopen, hm⟩ := Bool.and_eq_true_iff.mp hgo
      have hm' := of_decide_eq_true hm
      rw [hopen, if_neg hm', ← h]
      exact ⟨rfl, hsame hopen, hm'⟩
    · rw [if_neg hgo] at h
      exact absurd h (Option.some_ne_none v).symm
  · simp only [hv, Bool.false_eq_true, if_false, Bool.true_and, Bool.not_true] at h ⊢
    by_cases hm : decide (w.pad.mode ≠ .idle) = true
    · rw [if_pos hm, Option.some.injEq] at h
      have hm' := of_decide_eq_true hm
      rw [if_neg hm', ← h]
      exact ⟨rfl, .refl _, hm'⟩
    · rw [if_neg hm] at h
      exact absurd h (Option.some_ne_none v).symm

/-- A step that does not come to the keypad: the pad stays, the lock screen is left, or an entry is opened. -/
def Elsewhere (p p' : PinPad) : Prop :=
  SamePad p p' ∨ (p'.entry = {} ∧ p'.mode = .idle ∧ p'.selectedKey = p.selectedKey) ∨ (p.mode = .idle ∧ Opened p')

theorem passTask_elsewhere (B : Bcrypt Salt H) (env : TaskEnv) (w : World H) (h : passKeypad env w = none) :
    Elsewhere w.pad (passTask B env w).pad := by
  obtain ⟨hsame, hlock⟩ := lockTask_pad env w
  unfold passKeypad at h
  unfold passTask
  by_cases hv : w.pad.mode.requiresVerification = true
  · simp only [hv, if_true] at h ⊢
    by_cases hopen : (lockTask env w).1 = true
    · -- past the lock the mode is a verifying one, so that the pass would come to the keypad
      have hm : (lockTask env w).2.pad.mode ≠ .idle := by
        intro hidle
        have hmode := (hsame hopen).mode
        rw [hidle] at hmode
        rw [← hmode] at hv
        exact absurd hv (by decide)
      rw [hopen, Bool.true_and, if_pos (decide_eq_true hm)] at h
      exact absurd h (Option.some_ne_none _)
    · have hclosed := Bool.eq_false_of_not_eq_true hopen
      rw [hclosed]
      rcases hlock with hl | hl
      · exact .inl hl
      · exact .inr (.inl hl)
  · simp only [hv, Bool.false_eq_true, if_false, Bool.true_and, Bool.not_true] at h ⊢
    by_cases hm : w.pad.mode = .idle
    · rw [if_pos hm]
      rcases idleTask_pad env w with hp | hp
      · exact .inl hp
      · exact .inr (.inr ⟨hm, hp⟩)
    · rw [if_pos (decide_eq_true hm)] at h
      exact absurd h (Option.some_ne_none _)

theorem walletUiTask_keypad (B : Bcrypt Salt H) (env : TaskEnv) (w v : World H) (h : keypadPass env w = some v) :
    walletUiTask B env w = KeyWallet.padTask B env v ∧ SamePad w.pad v.pad ∧ v.pad.mode ≠ .idle := by
  unfold keypadPass at h
  unfold walletUiTask
  split_ifs at h with hdue hbanner
  rw [if_neg hdue]
  dsimp only
  rw [if_neg hbanner]
  exact passTask_keypad B env _ v h

theorem walletUiTask_elsewhere (B : Bcrypt Salt H) (env : TaskEnv) (w : World H) (h : keypadPass env w = none) :
    Elsewhere w.pad (walletUiTask B env w).pad := by
  unfold keypadPass at h
  unfold walletUiTask
  by_cases hdue : (env.now - w.screen.lastPoll).toNat < 2
  · rw [if_pos hdue]
    exact .inl (.refl _)
  rw [if_neg hdue] at h ⊢
  by_cases hbanner : w.screen.resetSuccessVisible = true
  · simp only [hbanner, if_true]
    split_ifs
    · exact .inl ⟨rfl, rfl, rfl, rfl, rfl, rfl, rfl⟩
    · exact .inl (.refl _)
  · rw [if_neg hbanner] at h
    dsimp only
    rw [if_neg hbanner]
    exact passTask_elsewhere B env _ h

theorem TypedFor.asleep {p : PinPad} {t : Typed} (hm : p.mode = .idle) (h : TypedFor p t) (back : Option BackPress) :
    TypedFor p { t with back := back } :=
  ⟨h.holds, h.few, h.digits, h.key, fun hne => absurd hm hne, fun hne => absurd hm hne⟩

theorem TypedFor.task (B : Bcrypt Salt H) (env : TaskEnv) (w : World H) (t : Typed) (h : TypedFor w.pad t) :
    TypedFor (walletUiTask B env w).pad (t.task uncancelledPress B env w) := by
  unfold Typed.task
  simp only
  rcases hk : keypadPass env w with _ | v
  · simp only
    by_cases hm : w.pad.mode = .idle
    · rw [if_pos hm]
      have h' := h.asleep hm none
      rcases walletUiTask_elsewhere B env w hk with hs | ⟨he, hidle, hkey⟩ | ⟨-, ho⟩
      · have ht := hs.typedFor h'
        rw [ht.settle]
        exact ht
      · rw [he, Typed.settle_empty]
        refine ⟨?_, Nat.zero_le _, fun d hd => absurd hd List.not_mem_nil, ?_, fun hne => absurd hidle hne,
          fun hne => absurd hidle hne⟩
        · rw [he]
          exact holds_empty
        · rw [hkey]
          exact h.key
      · rw [ho.entry, Typed.settle_empty]
        exact ho.typedFor
    · rw [if_neg hm]
      rcases walletUiTask_elsewhere B env w hk with hs | ⟨he, hidle, hkey⟩ | ⟨hm', -⟩
      · have ht := hs.typedFor h
        rw [ht.settle]
        exact ht
      · rw [he, Typed.settle_empty]
        refine ⟨?_, Nat.zero_le _, fun d hd => absurd hd List.not_mem_nil, ?_, fun hne => absurd hidle hne,
          fun hne => absurd hidle hne⟩
        · rw [he]
          exact holds_empty
        · rw [hkey]
          exact h.key
      · exact absurd hm' hm
  · obtain ⟨htask, hsame, hm⟩ := walletUiTask_keypad B env w v hk
    rw [htask]
    exact TypedFor.padTask B env v t hm (hsame.typedFor h)

theorem boot_pad (env : BootEnv H) (w : World H) : Opened (boot env w).pad := by
  unfold boot
  simp only
  split_ifs
  · unfold wipeDevice
    split_ifs <;> exact ⟨rfl, rfl, rfl⟩
  · unfold walletUiInit
    split_ifs
    · exact ⟨rfl, rfl, rfl⟩
    · exact initSetup_pad _ (initNvs_pad env _)

theorem TypedFor.step (B : Bcrypt Salt H) (s : World H × Typed) (i : UiInput H) (h : TypedFor s.1.pad s.2) :
    TypedFor (typedStep uncancelledPress B s i).1.pad (typedStep uncancelledPress B s i).2 := by
  have hended {p : PinPad} {t : Typed} (hp : TypedFor p t) : TypedFor { p with mode := .idle, backDown := false } t :=
    ⟨hp.holds, hp.few_six, hp.digits, hp.key, fun hne => absurd rfl hne, fun hne => absurd rfl hne⟩
  cases i with
  | boot env => exact (boot_pad env s.1).typedFor
  | powerOff => exact h
  | task env =>
    simp only [typedStep, uiStep]
    by_cases hp : s.1.powered = true
    · simp only [hp, Bool.not_true, Bool.false_eq_true, if_false, if_true]
      split_ifs
      · exact h.task B env s.1
      · exact h.task B env s.1
    · have hp' := Bool.eq_false_of_not_eq_true hp
      simp only [hp', Bool.not_false, if_true, Bool.false_eq_true, if_false]
      exact h
  | command tick name =>
    simp only [typedStep, uiStep]
    split_ifs
    · unfold walletUiCommand
      split
      · exact h
      · simp only
        split_ifs <;> exact h
      · exact h
    · exact h
  | waitStart env =>
    simp only [typedStep, uiStep]
    split_ifs
    · exact (walletUiPrompt_pad (s.1.emit .waitStart)).typedFor
    · exact h
  | poll env =>
    simp only [typedStep, uiStep]
    split_ifs
    · rcases buttonWaitPoll_pad env s.1 with hpad | hpad
      · rw [hpad]
        exact h
      · rw [hpad]
        exact hended h
    · exact h
  | prompt =>
    simp only [typedStep, uiStep]
    split_ifs
    · exact (walletUiPrompt_pad s.1).typedFor
    · exact h
  | result tick message =>
    simp only [typedStep, uiStep]
    split_ifs
    · exact hended h
    · exact h
  | hostCancel value =>
    simp only [typedStep, uiStep]
    split_ifs <;> exact h

theorem uiStep_opens_empty (B : Bcrypt Salt H) (w : World H) (i : UiInput H) (hm : w.pad.mode = .idle)
    (hne : (uiStep B w i).pad.mode ≠ .idle) : (uiStep B w i).pad.entry = {} := by
  have hsame (p : PinPad) (hp : SamePad w.pad p) : ¬ p.mode ≠ .idle := by
    rw [hp.mode, hm]
    exact fun h => h rfl
  have htask (env : TaskEnv) (hne : (walletUiTask B env w).pad.mode ≠ .idle) :
      (walletUiTask B env w).pad.entry = {} := by
    rcases hk : keypadPass env w with _ | v
    · rcases walletUiTask_elsewhere B env w hk with hs | ⟨he, -⟩ | ⟨-, ho⟩
      · exact absurd hne (hsame _ hs)
      · exact he
      · exact ho.entry
    · obtain ⟨-, hs, hv⟩ := walletUiTask_keypad B env w v hk
      exact absurd hv (hsame _ hs)
  cases i with
  | boot env => exact (boot_pad env w).entry
  | powerOff => exact absurd hm hne
  | task env =>
    simp only [uiStep] at hne ⊢
    split_ifs at hne ⊢
    · exact absurd hm hne
    · exact htask env hne
    · exact htask env hne
  | command tick name =>
    have hcommand : (walletUiCommand tick name w).pad = w.pad := by
      unfold walletUiCommand
      split
      · rfl
      · simp only
        split_ifs <;> rfl
      · rfl
    simp only [uiStep] at hne ⊢
    split_ifs at hne ⊢
    · rw [hcommand] at hne
      exact absurd hm hne
    · exact absurd hm hne
  | waitStart env =>
    simp only [uiStep] at hne ⊢
    split_ifs at hne ⊢
    · exact (walletUiPrompt_pad (w.emit .waitStart)).entry
    · exact absurd hm hne
  | poll env =>
    simp only [uiStep] at hne ⊢
    split_ifs at hne ⊢
    · rcases buttonWaitPoll_pad env w with hpad | hpad
      · rw [hpad] at hne
        exact absurd hm hne
      · rw [hpad] at hne
        exact absurd rfl hne
    · exact absurd hm hne
  | prompt =>
    simp only [uiStep] at hne ⊢
    split_ifs at hne ⊢
    · exact (walletUiPrompt_pad w).entry
    · exact absurd hm hne
  | result tick message =>
    simp only [uiStep] at hne ⊢
    split_ifs at hne ⊢
    · exact absurd rfl hne
    · exact absurd hm hne
  | hostCancel value =>
    simp only [uiStep] at hne ⊢
    split_ifs at hne ⊢
    · exact absurd hm hne
    · exact absurd hm hne

theorem PinEntry.Holds.getD {e : PinEntry} {ds : Octets} (h : e.Holds ds) (i : Nat) :
    e.bytes.getD i 0 = ds.getD i 0 := by
  rw [h.bytes]
  by_cases hi : i < ds.length
  · rw [List.getD_eq_getElem?_getD, List.getD_eq_getElem?_getD, List.getElem?_append_left hi]
  · have hle := Nat.le_of_not_lt hi
    rw [List.getD_eq_getElem?_getD, List.getD_eq_getElem?_getD, List.getElem?_append_right hle,
      List.getElem?_eq_none hle, List.getElem?_replicate]
    split_ifs <;> rfl

theorem TypedFor.law (B : Bcrypt Salt H) (s : World H × Typed) (h : TypedFor s.1.pad s.2) :
    EntryLaw uncancelledPress B s where
  length := by
    rw [h.holds.length]
    exact h.few_six
  challenge := by
    intro hm
    have hfew := h.few
    rw [hm] at hfew
    rw [h.holds.length]
    exact hfew
  size := by
    have := h.few_six
    rw [h.holds.bytes, List.length_append, List.length_replicate]
    omega
  digits := by
    intro i hi
    rw [h.holds.length] at hi
    rw [h.holds.getD, List.getD_eq_getElem?_getD, List.getElem?_eq_getElem hi]
    exact h.digits _ (List.getElem_mem hi)
  zeros := by
    intro i hi
    rw [h.holds.length] at hi
    rw [h.holds.getD, List.getD_eq_getElem?_getD, List.getElem?_eq_none hi, Option.getD_none]
  key := h.key
  submit := by
    intro env v hv _
    obtain ⟨-, hsame, hm⟩ := walletUiTask_keypad B env s.1 v hv
    exact ((hsame.typedFor h).edit env v s.2 hm).holds
  fresh := fun i hm hne => uiStep_opens_empty B s.1 i hm hne

/-- In every state of every run the buffer holds the digits that were chosen, less one for each press of Back that did
not cancel the entry. -/
theorem pin_entry_lawful (B : Bcrypt Salt H) (image : NvsImage H) (inputs : List (UiInput H)) :
    EntryLaw uncancelledPress B (StepSystem.run (typedStep uncancelledPress B) (deviceOff image, {}) inputs) := by
  have hstart : TypedFor (deviceOff image).pad {} := Opened.typedFor ⟨rfl, rfl, rfl⟩
  apply TypedFor.law
  exact StepSystem.run_invariant (P := fun s => TypedFor s.1.pad s.2) (fun s i _ hs => hs.step B s i)
    (deviceOff image, {}) inputs (StepSystem.along_true _ _ _) hstart

end Steps

/-- The setup of a new device: two digits, then Back for more than a second. -/
def longBackInSetup : List (UiInput Octets) :=
  [.boot {}, .task { now := 2, levels := {} }, .task { now := 4, levels := { gpio7 := false } },
    .task { now := 6, levels := {} }, .task { now := 8, levels := { gpio7 := false } },
    .task { now := 10, levels := { gpio5 := false } }, .task { now := 112, levels := { gpio5 := false } },
    .task { now := 114, levels := {} }]

/-- In the setup a press of any length removes a digit. -/
theorem long_press_removes_digit :
    ¬ ∀ (image : NvsImage Octets) (inputs : List (UiInput Octets)),
      EntryLaw shortPress plainBcrypt
        (StepSystem.run (typedStep shortPress plainBcrypt) (deviceOff image, {}) inputs) := by
  intro h
  have hsubmit := (h {} longBackInSetup).submit { now := 116, levels := { gpio6 := false } }
  generalize hs : StepSystem.run (typedStep shortPress plainBcrypt) (deviceOff {}, {}) longBackInSetup = s at hsubmit
  have hv : (keypadPass { now := 116, levels := { gpio6 := false } } s.1).isSome = true := by
    rw [← hs]
    decide +kernel
  obtain ⟨v, hv⟩ := Option.isSome_iff_exists.mp hv
  have hlen : (keypadPass { now := 116, levels := { gpio6 := false } } s.1).map (fun v =>
      (newlyPressed v.pad.previousButtons { gpio6 := false } (·.gpio6),
        (padEdit { now := 116, levels := { gpio6 := false } } v).pad.entry.length,
        (s.2.pass shortPress { now := 116, levels := { gpio6 := false } } v.pad).digits.length)) =
      some (true, 1, 2) := by
    rw [← hs]
    decide +kernel
  rw [hv, Option.map_some, Option.some.injEq, Prod.mk.injEq, Prod.mk.injEq] at hlen
  have hholds := (hsubmit v hv hlen.1).length
  rw [hlen.2.1, hlen.2.2] at hholds
  exact absurd hholds (by decide)

end KeyWallet
