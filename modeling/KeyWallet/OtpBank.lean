import KeyWallet.OtpContainer
import Mathlib.Data.Finset.Card
import Mathlib.Tactic.IntervalCases

/-! The OTP container as a bank of four slots. -/
namespace KeyWallet

open CrashProgram

namespace Container.Otp

/-! The bank that the container stands for. -/

/-- The secret of each slot. -/
abbrev Bank := Nat → Option Data

def Call.effect (b : Bank) : Call → Bank
  | .write slot e => Function.update b slot (some e.secret)
  | .delete slot => Function.update b slot none
  | .swap slot1 entry1 slot2 entry2 =>
    Function.update (Function.update b slot1 (entry2.map Entry.secret)) slot2
      (entry1.map Entry.secret)

def Fits (e : Entry) : Prop :=
  e.secret.length ≤ secretMaxSize ∧ e.metadata.length ≤ metadataMaxSize

/-- A call with arguments that the bank allows. -/
def Admissible (b : Bank) : Call → Prop
  | .write slot e => slot < slotCount ∧ Fits e
  | .delete slot => slot < slotCount ∧ (b slot).isSome
  | .swap slot1 entry1 slot2 entry2 => slot1 < slotCount ∧ slot2 < slotCount ∧ slot1 ≠ slot2 ∧
    entry1.isSome = (b slot1).isSome ∧ entry2.isSome = (b slot2).isSome ∧
    (∀ e ∈ entry1, Fits e) ∧ ∀ e ∈ entry2, Fits e

def Admits : Bank → List Call → Prop
  | _, [] => True
  | b, c :: cs => Admissible b c ∧ Admits (c.effect b) cs

/-- What the value of an object reads as. -/
def shown : Option Data → Except ObjErr Data
  | none => .error .fileNotFound
  | some d => .ok d

/-- The container shows the bank. -/
structure Matches (files : Files) (b : Bank) : Prop where
  reads : ∀ s < slotCount, ∀ capacity ≥ secretMaxSize, readSlot files capacity s = shown (b s)
  has : ∀ s < slotCount, hasSlot files s = (b s).isSome
  marker : ∀ s < slotCount,
    files (efOtpSlot1 + s) = if (b s).isSome then some (.marker .otp s) else none

/-- Every call succeeds, undisturbed, and the container shows the bank all along. -/
def Follows : StoreMachine → Bank → List Call → Prop
  | m, b, [] => Matches m.view b
  | m, b, c :: cs => Matches m.view b ∧ (exec c.run m []).1 = .done () ∧
    Follows (exec c.run m []).2.1 (c.effect b) cs

/-- The slots that a call puts a secret into. -/
def Call.targets : Call → Finset Nat
  | .write slot _ => {slot}
  | .delete _ => ∅
  | .swap slot1 entry1 slot2 entry2 =>
    (if entry2.isSome then {slot1} else ∅) ∪ (if entry1.isSome then {slot2} else ∅)

def targets : List Call → Finset Nat
  | [] => ∅
  | c :: cs => c.targets ∪ targets cs

/-! What the calls write. -/

/-- The slots that are stored. -/
def storedSlots (slots : Slots) : Finset Nat :=
  ((List.range slotCount).filter fun s => (slots s).isSome).toFinset

theorem mem_storedSlots {slots : Slots} {s : Nat} :
    s ∈ storedSlots slots ↔ s < slotCount ∧ (slots s).isSome = true := by
  simp [storedSlots]

theorem slotWrites_length (slots : Slots) (ss : List Nat) :
    (ss.flatMap (slotWrites slots)).length = 2 * (ss.filter fun s => (slots s).isSome).length := by
  induction ss with
  | nil => rfl
  | cons s ss ih =>
    rw [List.flatMap_cons, List.length_append, ih]
    cases h : slots s with
    | none => simp [slotWrites, h]
    | some e =>
      simp only [slotWrites, h, List.length_cons, List.length_nil, List.filter_cons, Option.isSome_some,
        if_true]
      omega

theorem bankWrites_length (active : BitVec 8) (slots : Slots) :
    (bankWrites active slots).length = 2 * (storedSlots slots).card + 1 := by
  have hnodup : ((List.range slotCount).filter fun s => (slots s).isSome).Nodup :=
    List.nodup_range.filter _
  simp only [bankWrites, List.length_append, slotWrites_length, List.length_singleton, storedSlots,
    List.toFinset_card_of_nodup hnodup]

theorem mem_bankWrites {active : BitVec 8} {slots : Slots} {w : Write} :
    w ∈ bankWrites active slots ↔
      (∃ s < slotCount, ∃ e, slots s = some e ∧
        (w = otpWrite objectSecret s e.secret ∨ w = otpWrite objectMetadata s e.metadata)) ∨
      w = otpWrite objectIndex 0 [active] := by
  simp only [bankWrites, List.mem_append, List.mem_flatMap, List.mem_range, List.mem_singleton]
  apply or_congr_left
  apply exists_congr
  intro s
  apply and_congr_right
  intro _
  cases h : slots s <;> simp [slotWrites, h]

theorem otpWrite_accepted {t g : Nat} {d : Data} (h : identityValid t g = true)
    (hd : d.length ≤ secretMaxSize) : Accepted layout (otpWrite t g d) := by
  refine ⟨?_, rfl, ?_, Nat.le_trans hd (by decide)⟩
  · show (identityValid t g && decide (policyId = policyId) && decide (0 = 0) &&
      decide (transactionGroup = transactionGroup) && decide (protectionOf t = protectionOf t) &&
      decide (flagsOf t = flagsOf t)) = true
    simp [h]
  · -- the tag and the data do not count here
    have hsame : descriptorCoreValid ((otpWrite t g d).descriptor 1 1) =
        descriptorCoreValid ((otpWrite t 0 []).descriptor 1 1) := rfl
    rw [hsame]
    rcases recordIndex_cases h with ⟨rfl, -⟩ | ⟨rfl, -⟩ | ⟨rfl, -⟩ <;> decide

/-- Slots with numbers and sizes that the container takes. -/
def Proper (slots : Slots) : Prop := ∀ s e, slots s = some e → s < slotCount ∧ Fits e

theorem identity_secret {s : Nat} (h : s < slotCount) : identityValid objectSecret s = true :=
  identityValid_iff.mpr (.inr ⟨.inl rfl, h⟩)

theorem identity_metadata {s : Nat} (h : s < slotCount) : identityValid objectMetadata s = true :=
  identityValid_iff.mpr (.inr ⟨.inr rfl, h⟩)

theorem bankWrites_keys (active : BitVec 8) (slots : Slots) :
    ((bankWrites active slots).map Write.key).Nodup := by
  cases h0 : slots 0 <;> cases h1 : slots 1 <;> cases h2 : slots 2 <;> cases h3 : slots 3 <;>
  · simp only [bankWrites, slotCount, List.range, List.range.loop, List.flatMap_cons, List.flatMap_nil,
      slotWrites, h0, h1, h2, h3, List.nil_append, List.append_nil, List.cons_append, List.map_cons,
      List.map_nil, Write.key, otpWrite]
    decide

theorem bankWrites_valid {active : BitVec 8} {slots : Slots} (h : Proper slots)
    (hfew : (storedSlots slots).card ≤ 3) : Writes layout (bankWrites active slots) := by
  refine ⟨?_, ?_, ?_, bankWrites_keys active slots⟩
  · intro hnil
    have hlen := bankWrites_length active slots
    rw [hnil] at hlen
    simp at hlen
  · rw [bankWrites_length]
    simp only [manifestMaxObjects]
    omega
  · intro w hw
    rcases mem_bankWrites.mp hw with ⟨s, hs, e, he, rfl | rfl⟩ | rfl
    · exact otpWrite_accepted (identity_secret hs) (h s e he).2.1
    · exact otpWrite_accepted (identity_metadata hs) (Nat.le_trans (h s e he).2.2 (by decide))
    · exact otpWrite_accepted (by decide) (by simp [secretMaxSize])

/-- The value of each object, from the slots and the index. -/
def valuesOf (active : BitVec 8) (slots : Slots) : Values := fun t g =>
  if t = objectSecret then (slots g).map Entry.secret
  else if t = objectMetadata then (slots g).map Entry.metadata
  else if t = objectIndex ∧ g = 0 then some [active]
  else none

/-- Nothing that was stored is left out. -/
def Covers (slots slots' : Slots) : Prop := ∀ s, (slots s).isSome = true → (slots' s).isSome = true

theorem valuesOf_key {active active' : BitVec 8} {slots slots' : Slots} {t g : Nat}
    (hslots : Proper slots) (hcover : Covers slots slots') (h : valuesOf active slots t g ≠ none) :
    ∃ w ∈ bankWrites active' slots', w.key = (t, g) := by
  have hentry : ∀ s, (slots s).isSome = true → s < slotCount ∧ ∃ e, slots' s = some e := by
    intro s hs
    obtain ⟨e, he⟩ := Option.isSome_iff_exists.mp hs
    exact ⟨(hslots s e he).1, Option.isSome_iff_exists.mp (hcover s hs)⟩
  unfold valuesOf at h
  split_ifs at h with h1 h2 h3
  · subst h1
    obtain ⟨hs, e, he⟩ := hentry g (by simpa [Option.isSome_iff_ne_none] using h)
    exact ⟨_, mem_bankWrites.mpr (.inl ⟨g, hs, e, he, .inl rfl⟩), rfl⟩
  · subst h2
    obtain ⟨hs, e, he⟩ := hentry g (by simpa [Option.isSome_iff_ne_none] using h)
    exact ⟨_, mem_bankWrites.mpr (.inl ⟨g, hs, e, he, .inr rfl⟩), rfl⟩
  · obtain ⟨rfl, rfl⟩ := h3
    exact ⟨_, mem_bankWrites.mpr (.inr rfl), rfl⟩
  · exact absurd rfl h

theorem putValues_bank {active : BitVec 8} {slots : Slots} {vals : Values} (h : Proper slots)
    (hfew : (storedSlots slots).card ≤ 3)
    (hvals : ∀ t g, vals t g ≠ none → ∃ w ∈ bankWrites active slots, w.key = (t, g)) :
    putValues vals (bankWrites active slots) = valuesOf active slots := by
  have hws : Writes layout (bankWrites active slots) := bankWrites_valid h hfew
  funext t g
  by_cases hkey : ∃ w ∈ bankWrites active slots, w.key = (t, g)
  · obtain ⟨w, hw, hk⟩ := hkey
    obtain ⟨rfl, rfl⟩ := Prod.mk.inj hk
    rw [putValues_written hws hw]
    rcases mem_bankWrites.mp hw with ⟨s, hs, e, he, rfl | rfl⟩ | rfl
    · simp [valuesOf, otpWrite, he]
    · simp [valuesOf, otpWrite, he, objectMetadata, objectSecret]
    · simp [valuesOf, otpWrite, objectIndex, objectMetadata, objectSecret]
  · have hne : ∀ w ∈ bankWrites active slots, (t, g) ≠ w.key := fun w hw he => hkey ⟨w, hw, he.symm⟩
    rw [putValues_other hne]
    have hold : vals t g = none := by
      by_contra hv
      exact hkey (hvals t g hv)
    have hnew : valuesOf active slots t g = none := by
      by_contra hv
      exact hkey (valuesOf_key h (fun _ hs => hs) hv)
    rw [hold, hnew]

/-! What the container holds between two calls. -/

/-- The generation of the manifest, zero before the first. -/
def generationCount : Option (Nat × Manifest) → Nat
  | none => 0
  | some (_, c) => c.generation

/-- The values in the container. -/
def heldValues (current : Option (Nat × Manifest)) (active : BitVec 8) (slots : Slots) : Values :=
  match current with
  | none => fun _ _ => none
  | some _ => valuesOf active slots

/-- The container holds these slots and this index. -/
structure Held (m : StoreMachine) (current : Option (Nat × Manifest)) (active : BitVec 8)
    (slots : Slots) : Prop where
  settled : Settled scheme m current (heldValues current active slots)
  fresh : current = none → active = 0 ∧ (slots = fun _ => none) ∧
    ∀ s < 2, ∀ i < recordCount, m.view (recordPrefix s + i) = none
  proper : Proper slots
  active : ∀ s, active.getLsbD s = true → (slots s).isSome = true
  few : (storedSlots slots).card ≤ 3

section Reading

variable {m : StoreMachine} {current : Option (Nat × Manifest)} {active : BitVec 8} {slots : Slots}

theorem Held.read_value (h : Held m current active slots) (capacity t g : Nat)
    (hc : ∀ d, valuesOf active slots t g = some d → d.length ≤ capacity) :
    read layout m.view containerId false capacity t g =
      shown (heldValues current active slots t g) := by
  apply h.settled.1.holds.read
  intro d hd
  cases current with
  | none => exact absurd hd (by simp [heldValues])
  | some p => exact hc d hd

theorem Held.read_index (h : Held m current active slots) :
    read layout m.view containerId false 1 objectIndex 0 =
      shown (heldValues current active slots objectIndex 0) := by
  apply h.read_value
  intro d hd
  have hvalue : valuesOf active slots objectIndex 0 = some [active] := rfl
  rw [← Option.some.inj (hvalue.symm.trans hd)]
  exact Nat.le_refl 1

theorem Held.hasSlotStatus (h : Held m current active slots) {s : Nat} (hs : s < slotCount) :
    hasSlotStatus m.view s = .ok (active.getLsbD s) := by
  unfold Otp.hasSlotStatus activeSlotsRead
  rw [if_neg (Nat.not_le.mpr hs), h.read_index]
  cases current with
  | none =>
    obtain ⟨rfl, -⟩ := h.fresh rfl
    simp [heldValues, shown]
  | some p => rfl

theorem Held.read_secret (h : Held m current active slots) {capacity : Nat}
    (hc : secretMaxSize ≤ capacity) (s : Nat) :
    readObject m.view capacity s objectSecret = shown ((slots s).map Entry.secret) := by
  have hread := h.read_value capacity objectSecret s (fun d hd => by
    obtain ⟨e, he, rfl⟩ := Option.map_eq_some_iff.mp hd
    exact Nat.le_trans (h.proper s e he).2.1 hc)
  refine hread.trans ?_
  cases current with
  | none =>
    rw [(h.fresh rfl).2.1]
    rfl
  | some p => rfl

theorem Held.read_metadata (h : Held m current active slots) (s : Nat) :
    readObject m.view metadataMaxSize s objectMetadata = shown ((slots s).map Entry.metadata) := by
  have hread := h.read_value metadataMaxSize objectMetadata s (fun d hd => by
    obtain ⟨e, he, rfl⟩ := Option.map_eq_some_iff.mp hd
    exact (h.proper s e he).2.2)
  refine hread.trans ?_
  cases current with
  | none =>
    rw [(h.fresh rfl).2.1]
    rfl
  | some p => rfl

theorem Held.loadSlot (h : Held m current active slots) (s : Nat) :
    loadSlot m.view active s = .ok (slots s) := by
  unfold Otp.loadSlot
  rw [h.read_secret (Nat.le_refl _), h.read_metadata]
  cases hs : slots s with
  | none =>
    have hnot : active.getLsbD s = false := by
      by_contra hb
      have := h.active s (by simpa using hb)
      rw [hs] at this
      exact absurd this (by simp)
    simp [shown, hnot]
  | some e => simp [shown]

theorem Held.loadSlots (h : Held m current active slots) (ss : List Nat) (start : Slots) :
    loadSlots m.view active ss start = .ok fun s => if s ∈ ss then slots s else start s := by
  induction ss generalizing start with
  | nil => simp [Otp.loadSlots]
  | cons s ss ih =>
    simp only [Otp.loadSlots, h.loadSlot, ih, List.mem_cons]
    congr 1
    funext i
    by_cases hi : i ∈ ss
    · simp [hi]
    · by_cases hs : i = s
      · simp [hs]
      · simp [hi, hs]

theorem Held.bankLoad (h : Held m current active slots) : bankLoad m.view = .ok (active, slots) := by
  unfold Otp.bankLoad activeSlotsRead
  rw [h.read_index]
  cases current with
  | none =>
    obtain ⟨rfl, rfl, -⟩ := h.fresh rfl
    rfl
  | some p =>
    have hslots : (fun s => if s < slotCount then slots s else none) = slots := by
      funext s
      split
      · rfl
      · next hs =>
        by_contra hne
        obtain ⟨e, he⟩ := Option.ne_none_iff_exists'.mp (Ne.symm hne)
        exact hs (h.proper s e he).1
    simp [heldValues, shown, valuesOf, objectIndex, objectSecret, objectMetadata, h.loadSlots, hslots]

end Reading

/-! Writing the bank. -/
section Writing

variable {m : StoreMachine} {current : Option (Nat × Manifest)} {active active' : BitVec 8}
  {slots slots' : Slots}

theorem Held.storageAvailable (h : Held m current active slots) : storageAvailable m.view = true := by
  rcases current with _ | ⟨σ, c⟩
  · have h0 : m.view (manifestFid 0) = none := h.settled.1.1 0 (by decide)
    have h1 : m.view (manifestFid 1) = none := h.settled.1.1 1 (by decide)
    have hrecords := (h.fresh rfl).2.2
    simp only [Otp.storageAvailable, List.any_cons, List.any_nil, h0, h1, Option.isSome_none,
      Bool.false_and, Bool.or_self, Bool.false_eq_true, if_false]
    -- no manifest, and no file of another kind in the place of a record
    simp only [List.all_eq_true]
    intro s hs i hi
    have hs2 : s < 2 := by
      simp only [List.mem_cons, List.not_mem_nil, or_false] at hs
      omega
    rw [hrecords s hs2 i (List.mem_range.mp hi)]
  · have hman : m.view (manifestFid σ) = some (.manifest .primary c) := h.settled.1.1.manifest
    have hother : m.view (manifestFid (1 - σ)) = none := h.settled.2.2
    have hstored : stored m.view (manifestFid σ) = some (.manifest .primary c) := stored_manifest hman
    have hslots : σ = 0 ∨ σ = 1 := by
      have := h.settled.1.1.slot
      omega
    rcases hslots with rfl | rfl
    · simp [Otp.storageAvailable, hman, hother, hstored]
    · have hother0 : m.view (manifestFid 0) = none := hother
      simp [Otp.storageAvailable, hman, hother0, hstored]

theorem update_below (ws : List Write) :
    Touches (fun k => k < 0xba00) (update layout containerId ws false true) := by
  apply update_touches
  · intro s
    exact Nat.lt_trans (manifestFid_range s).2 (by decide)
  · intro s w r k hk
    simp only [layout] at hk
    split at hk
    · exact absurd hk (by simp)
    · next hid =>
      rw [← (Prod.mk.inj (Except.ok.inj hk)).2]
      exact (recordFid_range (recordIndex_lt (by simpa using hid))).2
  · exact trivial
  · intro candidates next τ
    have hpart : ∀ s, Touches (fun k => k < 0xba00) (sweepSlot (manifestFid s)
        (fun index => recordPrefix s + index) (List.range recordCount) next τ s) := by
      intro s
      apply (sweepSlot_confined _ _ _ _ _ _).touches
      rintro k v ⟨-, ⟨rfl, -⟩ | ⟨-, i, hi, rfl⟩⟩
      · exact Nat.lt_trans (manifestFid_range s).2 (by decide)
      · exact (recordFid_range (List.mem_range.mp hi)).2
    apply Touches.bind (hpart 0)
    intro _
    apply Touches.bind (hpart 1)
    exact fun _ _ => trivial
  · rfl

theorem Held.cover (h : Held m current active slots) (active' : BitVec 8)
    (hcover : Covers slots slots') :
    ∀ t g, heldValues current active slots t g ≠ none →
      ∃ w ∈ bankWrites active' slots', w.key = (t, g) := by
  intro t g hv
  cases current with
  | none => exact absurd rfl hv
  | some p => exact valuesOf_key h.proper hcover hv

/-- What the bank may be changed to. -/
structure Next (slots : Slots) (active' : BitVec 8) (slots' : Slots) : Prop where
  proper : Proper slots'
  covers : Covers slots slots'
  active : ∀ s, active'.getLsbD s = true → (slots' s).isSome = true

theorem Held.commit (h : Held m current active slots) (hnext : Next slots active' slots')
    (hfew : (storedSlots slots').card ≤ 3) (hleft : generationCount current ≠ uint32Max) :
    calm (bankCommit active' slots')
      (fun _ n => ∃ current', Held n current' active' slots' ∧
        generationCount current' = generationCount current + 1 ∧
        ∀ k, 0xba00 ≤ k → n.view k = m.view k)
      (fun _ _ => False) m := by
  have hws : Writes layout (bankWrites active' slots') := bankWrites_valid hnext.proper hfew
  have hunspent : Unspent current := by
    cases current with
    | none => exact trivial
    | some p => exact hleft
  have hroom : Room scheme current (bankWrites active' slots') := by
    apply h.settled.1.room_of_cover hws
    intro o ho
    obtain ⟨-, d, -, -, hv⟩ := h.settled.1.object ho
    obtain ⟨w, hw, hkey⟩ := h.cover active' hnext.covers o.objectType o.objectTag
      (by simp [hv])
    exact ⟨w, hw, hkey.symm⟩
  have hvalues := putValues_bank hnext.proper hfew (h.cover active' hnext.covers)
  have hupdate := calm_frame (h.settled.update false true hunspent hws hroom)
    (update_below (bankWrites active' slots'))
  show calm (if Otp.storageAvailable m.view = false then _ else _) _ _ m
  rw [h.storageAvailable, if_neg (by decide)]
  apply calm_mono hupdate _ (fun _ _ hn => hn)
  rintro _ n ⟨⟨hsettled, -⟩, hframe⟩
  rw [hvalues] at hsettled
  refine ⟨_, ⟨hsettled, ?_, hnext.proper, hnext.active, hfew⟩, ?_, ?_⟩
  · intro hnone
    exact absurd hnone (by simp [updated])
  · cases current <;> rfl
  · exact fun k hk => hframe k (Nat.not_lt.mpr hk)

theorem Held.commit_refused (h : Held m current active slots) (hnext : Next slots active' slots')
    (hbad : ¬ ((storedSlots slots').card ≤ 3 ∧ generationCount current ≠ uint32Max)) :
    calm (bankCommit active' slots') (fun _ _ => False) (fun _ n => n = m) m := by
  show calm (if Otp.storageAvailable m.view = false then _ else _) _ _ m
  rw [h.storageAvailable, if_neg (by decide)]
  by_cases hfew : (storedSlots slots').card ≤ 3
  · have hws : Writes layout (bankWrites active' slots') := bankWrites_valid hnext.proper hfew
    have hspent : ¬ Unspent current := by
      cases current with
      | none => exact absurd ⟨hfew, (by decide : (0 : Nat) ≠ uint32Max)⟩ hbad
      | some p => exact fun hu => hbad ⟨hfew, hu⟩
    unfold calm
    rw [h.settled.spent false true hspent ⟨hws.nonempty, hws.count⟩]
    rfl
  · have hfull : bankWrites active' slots' = [] ∨
        manifestMaxObjects < (bankWrites active' slots').length := by
      right
      rw [bankWrites_length]
      simp only [manifestMaxObjects]
      omega
    simp only [update, if_pos hfull, calm_fail]

/-! The markers. -/

theorem Held.foreign (h : Held m current active slots) {k : Nat} (hk : 0xba00 ≤ k)
    (c : Option Content) : Held (m.write k c) current active slots := by
  have hforeign : Foreign layout containerId scheme.fid k := by
    refine ⟨fun s _ => ?_, fun w s hw _ => ?_⟩
    · have := manifestFid_range s
      show k ≠ manifestFid s
      omega
    · have := recordFid_range (s := s) (recordIndex_lt (accepted_identity hw))
      show k ≠ recordPrefix s + recordIndex w.objectType w.objectTag
      omega
  refine ⟨⟨h.settled.1.foreign hforeign, h.settled.2.1, ?_⟩, ?_, h.proper, h.active, h.few⟩
  · have hne : layout.manifestFid containerId (targetSlotOf current) ≠ k := by
      have hrange := manifestFid_range (targetSlotOf current)
      show manifestFid (targetSlotOf current) ≠ k
      omega
    exact (Function.update_of_ne hne _ _).trans h.settled.2.2
  · intro hnone
    obtain ⟨h1, h2, h3⟩ := h.fresh hnone
    refine ⟨h1, h2, fun s hs i hi => ?_⟩
    have hne : recordPrefix s + i ≠ k := by
      have := recordFid_range (s := s) hi
      omega
    exact (Function.update_of_ne hne _ _).trans (h3 s hs i hi)

theorem Held.sync (h : Held m current active slots) : Held m.sync current active slots :=
  ⟨⟨h.settled.1, h.settled.1, h.settled.2.2⟩, h.fresh, h.proper, h.active, h.few⟩

/-- The marker of a slot that holds a secret. -/
def markerOf (present : Bool) (s : Nat) : Option Content :=
  if present then some (.marker .otp s) else none

theorem Held.markerReplace (h : Held m current active slots) {s : Nat} {old : Bool}
    (hold : m.view (efOtpSlot1 + s) = markerOf old s) (present : Bool) :
    calm (markerReplace s present)
      (fun _ n => Held n current active slots ∧
        n.view (efOtpSlot1 + s) = markerOf present s ∧
        ∀ k, k ≠ efOtpSlot1 + s → n.view k = m.view k)
      (fun _ _ => False) m := by
  have hk : 0xba00 ≤ efOtpSlot1 + s := by
    simp only [efOtpSlot1]
    omega
  have hafter : ∀ c : Option Content, (m.write (efOtpSlot1 + s) c).view (efOtpSlot1 + s) = c ∧
      ∀ k, k ≠ efOtpSlot1 + s → (m.write (efOtpSlot1 + s) c).view k = m.view k :=
    fun c => ⟨Function.update_self _ _ _, fun k hne => Function.update_of_ne hne _ _⟩
  have htwice : ∀ c : Option Content,
      (m.write (efOtpSlot1 + s) none).write (efOtpSlot1 + s) c = m.write (efOtpSlot1 + s) c := by
    intro c
    simp [Machine.write]
  have hheld : ∀ c, Held (m.write (efOtpSlot1 + s) c).sync current active slots :=
    fun c => (h.foreign hk c).sync
  cases present <;> cases old <;>
    simp only [markerOf, Bool.false_eq_true, if_false, if_true] at hold
  · simp only [Otp.markerReplace, markerRemove, bind_eq, pure_eq, calm_bind, calm_consult, hold,
      reduceCtorEq, decide_false, Bool.false_eq_true, if_false, calm_done, markerOf]
    exact ⟨h, trivial, fun _ _ => trivial⟩
  · simp only [Otp.markerReplace, markerRemove, bind_eq, pure_eq, calm_bind, calm_consult, hold,
      decide_true, Bool.false_eq_true, if_false, if_true, calm_writeFile, calm_commitLater, markerOf]
    exact ⟨hheld none, hafter none⟩
  · simp only [Otp.markerReplace, markerWrite, discardFile, bind_eq, pure_eq, calm_bind, calm_consult,
      hold, Option.any_none, Bool.false_eq_true, if_false, if_true, Option.isSome_none, calm_done,
      calm_putFile, calm_commitSync, Bool.true_eq_false, markerOf]
    exact ⟨hheld _, hafter _⟩
  · simp only [Otp.markerReplace, markerWrite, discardFile, bind_eq, pure_eq, calm_bind, calm_consult,
      hold, Option.any_some, ne_eq, not_true_eq_false, decide_false, Bool.false_eq_true, if_false,
      if_true, Option.isSome_some, calm_writeFile, calm_done, calm_putFile, calm_commitSync,
      Bool.true_eq_false, markerOf, htwice]
    exact ⟨hheld _, hafter _⟩

end Writing

/-! The calls. -/

def Call.nextActive (active : BitVec 8) : Call → BitVec 8
  | .write slot _ => active ||| bit slot
  | .delete slot => active &&& ~~~bit slot
  | .swap slot1 entry1 slot2 entry2 =>
    swappedActive active slot1 entry1.isSome slot2 entry2.isSome

def Call.nextSlots (slots : Slots) : Call → Slots
  | .write slot e => Function.update slots slot (some e)
  | .delete _ => slots
  | .swap slot1 entry1 slot2 entry2 => swapped slots slot1 entry1 slot2 entry2

/-- What a call does once the bank is written. -/
def Call.mark : Call → Store Unit
  | .write slot _ => markerReplace slot true
  | .delete slot => markerReplace slot false
  | .swap slot1 entry1 slot2 entry2 => do
    markerReplace slot1 entry2.isSome
    markerReplace slot2 entry1.isSome

/-- The bank that the slots and the index stand for. -/
def bankOf (active : BitVec 8) (slots : Slots) : Bank := fun s =>
  if active.getLsbD s then (slots s).map Entry.secret else none

theorem getLsbD_bit {s : Nat} (hs : s < slotCount) (i : Nat) :
    (bit s).getLsbD i = decide (i = s) := by
  have hs4 : s < 4 := hs
  have hcases : s = 0 ∨ s = 1 ∨ s = 2 ∨ s = 3 := by omega
  by_cases hi : i < 8
  · rcases hcases with rfl | rfl | rfl | rfl <;> interval_cases i <;> rfl
  · have hne : i ≠ s := by omega
    rw [BitVec.getLsbD_of_ge _ _ (Nat.not_lt.mp hi)]
    simp [hne]

theorem swappedActive_bit {active : BitVec 8} {slot1 slot2 : Nat} {present1 present2 : Bool}
    (h1 : slot1 < slotCount) (h2 : slot2 < slotCount) (hne : slot1 ≠ slot2) (i : Nat) :
    (swappedActive active slot1 present1 slot2 present2).getLsbD i =
      if i = slot1 then present2 else if i = slot2 then present1 else active.getLsbD i := by
  by_cases hi : i < 8
  · unfold swappedActive
    cases present1 <;> cases present2 <;>
      simp only [Bool.false_eq_true, if_false, if_true, BitVec.getLsbD_or, BitVec.getLsbD_and,
        BitVec.getLsbD_not, getLsbD_bit h1, getLsbD_bit h2, hi, decide_true, Bool.true_and] <;>
      by_cases he1 : i = slot1 <;> by_cases he2 : i = slot2 <;> simp_all
  · have hge := Nat.not_lt.mp hi
    simp only [slotCount] at h1 h2
    rw [BitVec.getLsbD_of_ge _ _ hge, BitVec.getLsbD_of_ge _ _ hge, if_neg (by omega),
      if_neg (by omega)]

section Calls

variable {m : StoreMachine} {current : Option (Nat × Manifest)} {active : BitVec 8}
  {slots : Slots} {c : Call}

/-- Whether the slot is in use after the call. -/
def Call.inUse (i : Nat) (was : Bool) : Call → Bool
  | .write slot _ => was || decide (i = slot)
  | .delete slot => was && decide (i ≠ slot)
  | .swap slot1 entry1 slot2 entry2 =>
    if i = slot1 then entry2.isSome else if i = slot2 then entry1.isSome else was

/-- What is stored in the slot after the call. -/
def Call.entryAt (i : Nat) (was : Option Entry) : Call → Option Entry
  | .write slot e => if i = slot then some e else was
  | .delete _ => was
  | .swap slot1 entry1 slot2 entry2 =>
    if i = slot1 then entry2.or was else if i = slot2 then entry1.or was else was

theorem nextActive_bit (hc : Admissible (bankOf active slots) c) (i : Nat) :
    (c.nextActive active).getLsbD i = c.inUse i (active.getLsbD i) := by
  cases c with
  | write slot e => simp only [Call.nextActive, Call.inUse, BitVec.getLsbD_or, getLsbD_bit hc.1]
  | delete slot =>
    simp only [Call.nextActive, Call.inUse, BitVec.getLsbD_and, BitVec.getLsbD_not, getLsbD_bit hc.1]
    by_cases hi : i < 8
    · simp [hi]
    · simp [BitVec.getLsbD_of_ge _ _ (Nat.not_lt.mp hi)]
  | swap slot1 entry1 slot2 entry2 => exact swappedActive_bit hc.1 hc.2.1 hc.2.2.1 i

theorem nextSlots_slot (hc : Admissible (bankOf active slots) c) (i : Nat) :
    c.nextSlots slots i = c.entryAt i (slots i) := by
  cases c with
  | write slot e => simp only [Call.nextSlots, Call.entryAt, Function.update_apply]
  | delete slot => rfl
  | swap slot1 entry1 slot2 entry2 =>
    have hne : slot1 ≠ slot2 := hc.2.2.1
    clear hc
    simp only [Call.nextSlots, Call.entryAt, swapped]
    cases entry1 <;> cases entry2 <;>
      by_cases h1 : i = slot1 <;> by_cases h2 : i = slot2 <;>
      simp_all

theorem storedSlots_next (hc : Admissible (bankOf active slots) c) :
    storedSlots (c.nextSlots slots) = storedSlots slots ∪ c.targets := by
  ext i
  rw [Finset.mem_union, mem_storedSlots, mem_storedSlots, nextSlots_slot hc]
  cases c with
  | write slot e =>
    have hs : slot < slotCount := hc.1
    by_cases hi : i = slot <;> simp [Call.targets, Call.entryAt, hi, hs]
  | delete slot => simp [Call.targets, Call.entryAt]
  | swap slot1 entry1 slot2 entry2 =>
    have h1 : slot1 < slotCount := hc.1
    have h2 : slot2 < slotCount := hc.2.1
    have hne : slot1 ≠ slot2 := hc.2.2.1
    clear hc
    cases entry1 <;> cases entry2 <;>
      by_cases hi1 : i = slot1 <;> by_cases hi2 : i = slot2 <;>
      simp_all [Call.targets, Call.entryAt]

theorem Held.next (h : Held m current active slots) (hc : Admissible (bankOf active slots) c) :
    Next slots (c.nextActive active) (c.nextSlots slots) := by
  refine ⟨?_, ?_, ?_⟩
  · intro s e he
    rw [nextSlots_slot hc] at he
    cases c with
    | write slot e' =>
      simp only [Call.entryAt] at he
      split at he
      · next hs => exact ⟨hs ▸ hc.1, Option.some.inj he ▸ hc.2⟩
      · exact h.proper s e he
    | delete slot => exact h.proper s e he
    | swap slot1 entry1 slot2 entry2 =>
      obtain ⟨h1, h2, -, -, -, hfit1, hfit2⟩ := hc
      simp only [Call.entryAt] at he
      split at he
      · next hs =>
        cases entry2 with
        | none => exact h.proper s e he
        | some e' => exact ⟨hs ▸ h1, Option.some.inj he ▸ hfit2 e' rfl⟩
      · split at he
        · next hs =>
          cases entry1 with
          | none => exact h.proper s e he
          | some e' => exact ⟨hs ▸ h2, Option.some.inj he ▸ hfit1 e' rfl⟩
        · exact h.proper s e he
  · intro s hs
    rw [nextSlots_slot hc]
    cases c with
    | write slot e' => by_cases hi : s = slot <;> simp [Call.entryAt, hi, hs]
    | delete slot => exact hs
    | swap slot1 entry1 slot2 entry2 =>
      simp only [Call.entryAt]
      split
      · simp [hs]
      · split <;> simp [hs]
  · intro s hs
    rw [nextActive_bit hc] at hs
    rw [nextSlots_slot hc]
    cases c with
    | write slot e' =>
      by_cases hi : s = slot
      · simp [Call.entryAt, hi]
      · simp only [Call.inUse, hi, decide_false, Bool.or_false] at hs
        simpa [Call.entryAt, hi] using h.active s hs
    | delete slot =>
      simp only [Call.inUse, Bool.and_eq_true] at hs
      exact h.active s hs.1
    | swap slot1 entry1 slot2 entry2 =>
      simp only [Call.inUse] at hs
      simp only [Call.entryAt]
      split_ifs at hs ⊢
      · simp [hs]
      · simp [hs]
      · exact h.active s hs

theorem bankOf_next (hc : Admissible (bankOf active slots) c) :
    bankOf (c.nextActive active) (c.nextSlots slots) = c.effect (bankOf active slots) := by
  funext i
  simp only [bankOf, nextActive_bit hc, nextSlots_slot hc]
  cases c with
  | write slot e =>
    by_cases hi : i = slot <;>
      simp [Call.effect, Call.inUse, Call.entryAt, hi, bankOf]
  | delete slot =>
    by_cases hi : i = slot <;>
      simp [Call.effect, Call.inUse, Call.entryAt, hi, bankOf]
  | swap slot1 entry1 slot2 entry2 =>
    have hne : slot1 ≠ slot2 := hc.2.2.1
    clear hc
    by_cases hi1 : i = slot1 <;> by_cases hi2 : i = slot2 <;>
      cases entry1 <;> cases entry2 <;>
      simp_all [Call.effect, Call.inUse, Call.entryAt, bankOf]

theorem Held.bank_isSome (h : Held m current active slots) (s : Nat) :
    (bankOf active slots s).isSome = active.getLsbD s := by
  unfold bankOf
  cases hb : active.getLsbD s with
  | false => simp
  | true => simpa using h.active s hb

/-- The markers are those of the slots in use. -/
def Marked (m : StoreMachine) (active : BitVec 8) : Prop :=
  ∀ s < slotCount, m.view (efOtpSlot1 + s) = markerOf (active.getLsbD s) s

theorem Held.run_iff (h : Held m current active slots) (hm : Marked m active)
    (hc : Admissible (bankOf active slots) c) {Q : Unit → StoreMachine → Prop}
    {R : ObjErr → StoreMachine → Prop} :
    calm c.run Q R m ↔ calm (bankCommit (c.nextActive active) (c.nextSlots slots))
      (fun _ n => calm c.mark Q R n) R m := by
  cases c with
  | write slot e =>
    obtain ⟨hs, hsecret, hmeta⟩ := hc
    have hok : ¬ (slotCount ≤ slot ∨ secretMaxSize < e.secret.length ∨
        metadataMaxSize < e.metadata.length) := by omega
    have hfree : ((stored m.view (efOtpSlot1 + slot)).any fun c => decide (c ≠ .marker .otp slot)) =
        false := by
      unfold stored
      rw [hm slot hs]
      cases active.getLsbD slot <;> simp [markerOf, Option.filter, Content.size]
    simp only [Call.run, writeSlot, if_neg hok, bind_eq, calm_bind, calm_consult, hfree,
      Bool.false_eq_true, if_false, h.bankLoad, calm_liftCheck]
    rfl
  | delete slot =>
    obtain ⟨hs, hpresent⟩ := hc
    rw [h.bank_isSome] at hpresent
    simp only [Call.run, deleteSlot, bind_eq, calm_bind, calm_consult, h.hasSlotStatus hs,
      calm_liftCheck, hpresent, Bool.true_eq_false, if_false, h.bankLoad]
    rfl
  | swap slot1 entry1 slot2 entry2 =>
    obtain ⟨h1, h2, hne, hp1, hp2, hfit1, hfit2⟩ := hc
    rw [h.bank_isSome] at hp1 hp2
    have hok : ¬ (slotCount ≤ slot1 ∨ slotCount ≤ slot2 ∨ slot1 = slot2) := by omega
    have hlong : ∀ entry : Option Entry, (∀ e ∈ entry, Fits e) → tooLong entry = false := by
      intro entry hfit
      cases entry with
      | none => rfl
      | some e =>
        obtain ⟨hsecret, hmeta⟩ := hfit e rfl
        simp [tooLong, Nat.not_lt.mpr hsecret, Nat.not_lt.mpr hmeta]
    have hgood : ¬ (entry1.isSome ≠ active.getLsbD slot1 ∨ entry2.isSome ≠ active.getLsbD slot2 ∨
        tooLong entry1 = true ∨ tooLong entry2 = true) := by
      simp [hp1, hp2, hlong entry1 hfit1, hlong entry2 hfit2]
    simp only [Call.run, swapSlots, if_neg hok, bind_eq, calm_bind, calm_consult,
      h.hasSlotStatus h1, h.hasSlotStatus h2, calm_liftCheck, if_neg hgood, h.bankLoad,
      Call.nextActive, Call.nextSlots, Call.mark]

theorem Held.mark (h : Held m current (c.nextActive active) slots) (hm : Marked m active)
    {slots₀ : Slots} (hc : Admissible (bankOf active slots₀) c) :
    calm c.mark (fun _ n => Held n current (c.nextActive active) slots ∧
      Marked n (c.nextActive active)) (fun _ _ => False) m := by
  have hsingle : ∀ slot present, slot < slotCount →
      (∀ i, (c.nextActive active).getLsbD i = if i = slot then present else active.getLsbD i) →
      calm (Otp.markerReplace slot present) (fun _ n => Held n current (c.nextActive active) slots ∧
        Marked n (c.nextActive active)) (fun _ _ => False) m := by
    intro slot present hs hbits
    apply calm_mono (h.markerReplace (hm slot hs) present) _ (fun _ _ hn => hn)
    rintro _ n ⟨hn, hthis, hothers⟩
    refine ⟨hn, fun s hs' => ?_⟩
    rw [hbits s]
    split
    · next he => rw [he, hthis]
    · next hne =>
      rw [hothers _ (by omega)]
      exact hm s hs'
  cases c with
  | write slot e =>
    apply hsingle slot true hc.1
    intro i
    rw [nextActive_bit hc]
    by_cases hi : i = slot <;> simp [Call.inUse, hi]
  | delete slot =>
    apply hsingle slot false hc.1
    intro i
    rw [nextActive_bit hc]
    by_cases hi : i = slot <;> simp [Call.inUse, hi]
  | swap slot1 entry1 slot2 entry2 =>
    have h1 : slot1 < slotCount := hc.1
    have h2 : slot2 < slotCount := hc.2.1
    have hne : slot1 ≠ slot2 := hc.2.2.1
    simp only [Call.mark, bind_eq, calm_bind]
    apply calm_mono (h.markerReplace (hm slot1 h1) entry2.isSome) _ (fun _ _ hn => hn)
    rintro _ n ⟨hn, hthis, hothers⟩
    have hold : n.view (efOtpSlot1 + slot2) = markerOf (active.getLsbD slot2) slot2 := by
      rw [hothers _ (by omega)]
      exact hm slot2 h2
    apply calm_mono (hn.markerReplace hold entry1.isSome) _ (fun _ _ hn' => hn')
    rintro _ n' ⟨hn', hthis', hothers'⟩
    refine ⟨hn', fun s hs => ?_⟩
    rw [nextActive_bit hc]
    simp only [Call.inUse]
    split
    · next he =>
      rw [he, hothers' _ (by omega), hthis]
    · split
      · next he => rw [he, hthis']
      · rw [hothers' _ (by omega), hothers _ (by omega)]
        exact hm s hs

theorem Held.call (h : Held m current active slots) (hm : Marked m active)
    (hc : Admissible (bankOf active slots) c)
    (hfew : (storedSlots (c.nextSlots slots)).card ≤ 3) (hleft : generationCount current ≠ uint32Max) :
    calm c.run (fun _ n => ∃ current', Held n current' (c.nextActive active) (c.nextSlots slots) ∧
      Marked n (c.nextActive active) ∧ generationCount current' = generationCount current + 1)
      (fun _ _ => False) m := by
  rw [h.run_iff hm hc]
  apply calm_mono (h.commit (h.next hc) hfew hleft) _ (fun _ _ hn => hn)
  rintro _ n ⟨current', hn, hgen, hsame⟩
  have hmarked : Marked n active := by
    intro s hs
    rw [hsame _ (by simp only [efOtpSlot1]; omega)]
    exact hm s hs
  apply calm_mono (hn.mark hmarked hc) _ (fun _ _ hn' => hn')
  exact fun _ n' hn' => ⟨current', hn'.1, hn'.2, hgen⟩

theorem Held.call_refused (h : Held m current active slots) (hm : Marked m active)
    (hc : Admissible (bankOf active slots) c)
    (hbad : ¬ ((storedSlots (c.nextSlots slots)).card ≤ 3 ∧ generationCount current ≠ uint32Max)) :
    calm c.run (fun _ _ => False) (fun _ n => n = m) m := by
  rw [h.run_iff hm hc]
  exact calm_mono (h.commit_refused (h.next hc) hbad) (fun _ _ hn => hn.elim) (fun _ _ hn => hn)

theorem Held.shows (h : Held m current active slots) (hm : Marked m active) :
    Matches m.view (bankOf active slots) := by
  refine ⟨?_, ?_, ?_⟩
  · intro s hs capacity hcap
    simp only [readSlot, h.hasSlotStatus hs, h.read_secret hcap, bankOf]
    cases active.getLsbD s <;> rfl
  · intro s hs
    simp only [hasSlot, h.hasSlotStatus hs, h.bank_isSome]
  · intro s hs
    rw [hm s hs, h.bank_isSome]
    rfl

end Calls

/-! Runs from empty storage. -/

/-- None of the files of the container and of its markers is there. -/
def Empty (m : StoreMachine) : Prop :=
  ∀ k, 0xb600 ≤ k → k < 0xbc00 → m.view k = none ∧ m.flash k = none

section Runs

variable {m : StoreMachine} {current : Option (Nat × Manifest)} {active : BitVec 8}
  {slots : Slots} {c : Call}

theorem Empty.held (h : Empty m) : Held m none 0 fun _ => none := by
  have hman : ∀ s, m.view (manifestFid s) = none ∧ m.flash (manifestFid s) = none := by
    intro s
    have := manifestFid_range s
    exact h _ (by omega) (by omega)
  refine ⟨Settled.of_absent (fun s _ => (hman s).1) (fun s _ => (hman s).2), ?_, ?_, ?_, ?_⟩
  · intro _
    refine ⟨rfl, rfl, fun s _ i hi => ?_⟩
    have := recordFid_range (s := s) hi
    exact (h _ (by omega) (by omega)).1
  · intro s e he
    exact absurd he (by simp)
  · intro s hs
    exact absurd hs (by simp)
  · decide

theorem Empty.marked (h : Empty m) : Marked m 0 := by
  intro s hs
  simp only [slotCount] at hs
  rw [(h (efOtpSlot1 + s) (by simp only [efOtpSlot1]; omega) (by simp only [efOtpSlot1]; omega)).1]
  simp [markerOf]

theorem follows_cons_iff {b : Bank} {cs : List Call} :
    Follows m b (c :: cs) ↔ Matches m.view b ∧ (exec c.run m []).1 = .done () ∧
      Follows (exec c.run m []).2.1 (c.effect b) cs := Iff.rfl

theorem Held.follows_iff (h : Held m current active slots) (hm : Marked m active) {calls : List Call}
    (hc : Admits (bankOf active slots) calls) (hgen : generationCount current ≤ uint32Max) :
    Follows m (bankOf active slots) calls ↔ (storedSlots slots ∪ targets calls).card ≤ 3 ∧
      generationCount current + calls.length ≤ uint32Max := by
  induction calls generalizing m current active slots with
  | nil =>
    simp only [Follows, targets, Finset.union_empty, List.length_nil, Nat.add_zero]
    exact ⟨fun _ => ⟨h.few, hgen⟩, fun _ => h.shows hm⟩
  | cons c calls ih =>
    obtain ⟨hc, hcalls⟩ := hc
    rw [← bankOf_next hc] at hcalls
    have hunion : storedSlots slots ∪ targets (c :: calls) =
        storedSlots (c.nextSlots slots) ∪ targets calls := by
      rw [storedSlots_next hc, targets, Finset.union_assoc]
    rw [follows_cons_iff, hunion, List.length_cons]
    by_cases hfits : (storedSlots (c.nextSlots slots)).card ≤ 3 ∧ generationCount current ≠ uint32Max
    · have hrun := h.call hm hc hfits.1 hfits.2
      obtain ⟨hdone, current', hheld, hmarked, hnext⟩ := calm_ok hrun
      have hrest := ih hheld hmarked hcalls (by omega)
      rw [bankOf_next hc, hnext] at hrest
      constructor
      · rintro ⟨-, -, hfollows⟩
        obtain ⟨hcard, hlen⟩ := hrest.mp hfollows
        exact ⟨hcard, by omega⟩
      · rintro ⟨hcard, hlen⟩
        exact ⟨h.shows hm, hdone, hrest.mpr ⟨hcard, by omega⟩⟩
    · have hrun := h.call_refused hm hc hfits
      constructor
      · rintro ⟨-, hdone, -⟩
        exact (calm_not_done hrun hdone).elim
      · rintro ⟨hcard, hlen⟩
        -- what does not fit now does not fit later either
        refine absurd ⟨?_, by omega⟩ hfits
        exact Nat.le_trans (Finset.card_le_card Finset.subset_union_left) hcard

end Runs

/-- From empty storage, every call succeeds and the container shows the bank throughout, exactly
if at most three slots are ever written to and the generations last. -/
theorem bank_followed_iff (m : StoreMachine) (hm : Empty m) (calls : List Call)
    (hcalls : Admits (fun _ => none) calls) :
    Follows m (fun _ => none) calls ↔ (targets calls).card ≤ 3 ∧ calls.length ≤ uint32Max := by
  have hbank : bankOf 0 (fun _ => none) = fun _ => none := by
    funext s
    simp [bankOf]
  have hstored : storedSlots (fun _ => none) = ∅ := rfl
  have hadmits : Admits (bankOf 0 fun _ => none) calls := hbank ▸ hcalls
  have hiff := hm.held.follows_iff hm.marked hadmits (Nat.zero_le _)
  simpa only [hbank, hstored, Finset.empty_union, generationCount, Nat.zero_add] using hiff

def sampleEntry : Entry := ⟨[7], [1]⟩

/-- Three slots can be in use, and one of them be deleted and written again. -/
theorem three_slots_followed :
    Follows ⟨fun _ => none, fun _ => none, (), [], []⟩ (fun _ => none)
      [.write 0 sampleEntry, .write 1 sampleEntry, .write 2 sampleEntry, .delete 1,
        .swap 0 (some sampleEntry) 1 none, .write 0 sampleEntry] := by
  apply (bank_followed_iff _ (fun _ _ _ => ⟨rfl, rfl⟩) _ ?_).mpr
  · decide
  · simp only [Admits, Admissible, Call.effect, Fits, sampleEntry, slotCount]
    decide

/-- The fourth slot is refused. -/
theorem fourth_slot_refused :
    ¬ Follows ⟨fun _ => none, fun _ => none, (), [], []⟩ (fun _ => none)
      [.write 0 sampleEntry, .write 1 sampleEntry, .write 2 sampleEntry, .write 3 sampleEntry] := by
  intro h
  have hfourth := h.2.2.2.2.2.2.2.1
  revert hfourth
  decide +kernel

end Container.Otp

end KeyWallet
