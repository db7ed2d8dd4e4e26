import KeyWallet.OtpContainer

/-! What a deletion leaves of an OTP secret. Every call writes all slots that are stored, also
those that are no longer in use, so the secret of a deleted slot is sealed anew. -/
namespace KeyWallet

open CrashProgram

namespace Container.Otp

/-- A call after which the slot is empty, if it succeeds. -/
def Call.vacates (s : Nat) : Call → Prop
  | .write _ _ => False
  | .delete slot => slot = s
  | .swap slot1 entry1 slot2 entry2 => (slot1 = s ∧ entry2 = none) ∨ (slot2 = s ∧ entry1 = none)

/-- No manifest refers to a record of the slot with this secret. -/
def Unreferenced (files : Files) (s : Nat) (secret : Data) : Prop :=
  ∀ σ < 2, ∀ root m, files (manifestFid σ) = some (.manifest root m) →
    ∀ o ∈ m.objects, o.objectType = objectSecret → o.objectTag = s →
    ∀ r i, files o.recordId ≠ some (.record r i secret)

/-- No file holds the secret, sealed as that of the slot. -/
def Erased (files : Files) (s : Nat) (secret : Data) : Prop :=
  ∀ k r i, files k = some (.record r i secret) → ¬ (i.objectType = objectSecret ∧ i.objectTag = s)

def SecretGone (files : Files) (s : Nat) (secret : Data) : Prop :=
  Unreferenced files s secret ∧ Erased files s secret

/-! The bank that is loaded has the secret. -/

theorem readSlot_ok {files : Files} {capacity s : Nat} {d : Data}
    (h : readSlot files capacity s = .ok d) :
    s < slotCount ∧ readObject files capacity s objectSecret = .ok d := by
  unfold readSlot at h
  split at h
  · exact absurd h (by simp)
  · next present hstatus =>
    split at h
    · exact absurd h (by simp)
    · refine ⟨?_, h⟩
      unfold hasSlotStatus at hstatus
      by_contra hs
      rw [if_pos (Nat.not_lt.mp hs)] at hstatus
      exact absurd hstatus (by simp)

theorem loadSlot_secret {files : Files} {active : BitVec 8} {s : Nat} {d : Data} {entry : Option Entry}
    (hread : readObject files secretMaxSize s objectSecret = .ok d)
    (h : loadSlot files active s = .ok entry) : ∃ metadata, entry = some ⟨d, metadata⟩ := by
  simp only [loadSlot, hread] at h
  split at h
  · exact absurd h (by simp)
  · next metadata _ => exact ⟨metadata, (Except.ok.inj h).symm⟩

theorem loadSlots_secret {files : Files} {active : BitVec 8} {s : Nat} {d : Data} {ss : List Nat}
    {start slots : Slots} (hread : readObject files secretMaxSize s objectSecret = .ok d)
    (h : loadSlots files active ss start = .ok slots)
    (hs : s ∈ ss ∨ ∃ metadata, start s = some ⟨d, metadata⟩) :
    ∃ metadata, slots s = some ⟨d, metadata⟩ := by
  induction ss generalizing start with
  | nil =>
    rw [← Except.ok.inj h]
    exact hs.resolve_left List.not_mem_nil
  | cons t ss ih =>
    unfold loadSlots at h
    split at h
    · exact absurd h (by simp)
    · next entry hentry =>
      apply ih h
      by_cases hst : s = t
      · subst hst
        obtain ⟨metadata, rfl⟩ := loadSlot_secret hread hentry
        exact .inr ⟨metadata, Function.update_self _ _ _⟩
      · rw [Function.update_of_ne hst]
        exact hs.imp_left fun hm => (List.mem_cons.mp hm).resolve_left hst

theorem bankLoad_secret {files : Files} {active : BitVec 8} {slots : Slots} {s : Nat} {d : Data}
    (hread : readSlot files secretMaxSize s = .ok d) (h : bankLoad files = .ok (active, slots)) :
    ∃ metadata, slots s = some ⟨d, metadata⟩ := by
  obtain ⟨hs, hobject⟩ := readSlot_ok hread
  unfold bankLoad at h
  split at h
  · -- without an index the slot would not have been read
    next hactive =>
    simp only [readSlot, hasSlotStatus, if_neg (Nat.not_le.mpr hs), hactive, if_true] at hread
    exact absurd hread (by simp)
  · exact absurd h (by simp)
  · split at h
    · exact absurd h (by simp)
    · next slots' hslots =>
      obtain ⟨-, rfl⟩ := Prod.mk.inj (Except.ok.inj h)
      exact loadSlots_secret hobject hslots (.inl (List.mem_range.mpr hs))

/-! The secret is written again. -/

theorem mem_bankWrites_secret {active : BitVec 8} {slots : Slots} {s : Nat} {e : Entry}
    (hs : s < slotCount) (he : slots s = some e) :
    otpWrite objectSecret s e.secret ∈ bankWrites active slots := by
  unfold bankWrites
  apply List.mem_append_left
  apply List.mem_flatMap.mpr
  refine ⟨s, List.mem_range.mpr hs, ?_⟩
  simp [slotWrites, he]

theorem stays_marker {files : Files} {w : Write} {k : Nat} (h : Stays scheme w files)
    (hk : 0xba00 ≤ k) (v : Option Content) : Stays scheme w (Function.update files k v) := by
  obtain ⟨τ, hτ, root, next, hman, hfiled⟩ := h
  refine ⟨τ, hτ, root, next, ?_, hfiled.frame ?_⟩
  · have hne : layout.manifestFid containerId τ ≠ k := by
      have := manifestFid_range τ
      show manifestFid τ ≠ k
      omega
    exact (Function.update_of_ne hne _ _).trans hman
  · apply Function.update_of_ne
    have hrange := recordFid_range (s := τ) (recordIndex_lt (accepted_identity hfiled.accepted))
    show recordPrefix τ + recordIndex w.objectType w.objectTag ≠ k
    omega

theorem markerReplace_touches (slot : Nat) (present : Bool) :
    Touches (fun k => 0xba00 ≤ k) (markerReplace slot present) := by
  have hk : 0xba00 ≤ efOtpSlot1 + slot := by
    simp only [efOtpSlot1]
    omega
  cases present with
  | true =>
    intro s v
    cases h : (v (efOtpSlot1 + slot)).any fun c => decide (c ≠ .marker .otp slot) with
    | true =>
      simp only [h]
      exact trivial
    | false =>
      simp only [h, Bool.false_eq_true, if_false, bind_eq, Prog.bind]
      apply Touches.bind (discardFile_touches hk)
      intro _
      refine ⟨hk, fun put => ?_⟩
      cases put with
      | false => exact trivial
      | true =>
        intro committed
        cases committed <;> exact trivial
  | false =>
    intro s v
    by_cases h : v (efOtpSlot1 + slot) = some (.marker .otp slot)
    · simp only [h, decide_true, if_true, bind_eq, Prog.bind]
      exact ⟨hk, fun _ => trivial⟩
    · simp only [h, decide_false, Bool.false_eq_true, if_false, pure_eq, Prog.bind]
      exact trivial

section Calls

variable {f : Faults} {m : StoreMachine} {s : Nat} {d : Data} {w : Write}

theorem wp_markerReplace_stays (h : Stays scheme w m.view) (slot : Nat) (present : Bool) :
    wp f (markerReplace slot present) (fun _ n => Stays scheme w n.view) (fun _ _ => True)
      (fun _ => True) m := by
  have hkeep := wp_touches (f := f) (I := fun n : StoreMachine => Stays scheme w n.view)
    (fun _ _ v hk hn => stays_marker hn hk v) (fun _ _ hn => hn) (fun _ hn => hn) (fun _ _ hn => hn)
    (fun _ _ hn => hn) (markerReplace_touches slot present) h
  exact wp_mono hkeep (fun _ _ hn => hn) (fun _ _ _ => trivial) (fun _ _ => trivial)

theorem wp_bankCommit_stays {active : BitVec 8} {slots : Slots} (hw : w ∈ bankWrites active slots) :
    wp f (bankCommit active slots) (fun _ n => Stays scheme w n.view) (fun _ _ => True)
      (fun _ => True) m := by
  unfold bankCommit containerUpdate
  simp only [bind_eq, wp_bind, wp_consult]
  split
  · exact trivial
  · exact wp_mono (wp_update_stays _ false true) (fun _ _ hn => hn w hw) (fun _ _ h => h)
      (fun _ h => h)

theorem swapped_stored {slots : Slots} {slot1 slot2 : Nat} {entry1 entry2 : Option Entry}
    (hne : slot1 ≠ slot2) (h : (slot1 = s ∧ entry2 = none) ∨ (slot2 = s ∧ entry1 = none)) :
    swapped slots slot1 entry1 slot2 entry2 s = slots s := by
  rcases h with ⟨rfl, rfl⟩ | ⟨rfl, rfl⟩
  · cases entry1 <;> simp [swapped, hne]
  · cases entry2 <;> simp [swapped, hne.symm]

theorem wp_vacating_call (c : Call) (hread : readSlot m.view secretMaxSize s = .ok d)
    (hc : c.vacates s) :
    wp f c.run (fun _ n => Stays scheme (otpWrite objectSecret s d) n.view) (fun _ _ => True)
      (fun _ => True) m := by
  have hs : s < slotCount := (readSlot_ok hread).1
  cases c with
  | write slot e => exact hc.elim
  | delete slot =>
    simp only [Call.run, deleteSlot, bind_eq, wp_bind, wp_consult]
    cases hasSlotStatus m.view slot with
    | error e => exact trivial
    | ok present =>
      rw [wp_liftCheck]
      split
      · exact trivial
      · rw [wp_bind, wp_consult]
        cases hload : bankLoad m.view with
        | error e => exact trivial
        | ok bank =>
          obtain ⟨active, slots⟩ := bank
          obtain ⟨metadata, hslot⟩ := bankLoad_secret hread hload
          simp only [wp_bind, wp_liftCheck]
          apply wp_mono (wp_bankCommit_stays (mem_bankWrites_secret hs hslot)) _ (fun _ _ h => h)
            (fun _ h => h)
          exact fun _ n hn => wp_markerReplace_stays hn slot false
  | swap slot1 entry1 slot2 entry2 =>
    simp only [Call.run, swapSlots]
    split
    · exact trivial
    · next hok =>
      have hne : slot1 ≠ slot2 := fun he => hok (.inr (.inr he))
      simp only [bind_eq, wp_bind, wp_consult]
      cases hasSlotStatus m.view slot1 with
      | error e => exact trivial
      | ok actual1 =>
        rw [wp_liftCheck]
        cases hasSlotStatus m.view slot2 with
        | error e => exact trivial
        | ok actual2 =>
          rw [wp_liftCheck]
          split
          · exact trivial
          · rw [wp_bind, wp_consult]
            cases hload : bankLoad m.view with
            | error e => exact trivial
            | ok bank =>
              obtain ⟨active, slots⟩ := bank
              obtain ⟨metadata, hslot⟩ := bankLoad_secret hread hload
              have hkept : swapped slots slot1 entry1 slot2 entry2 s = slots s :=
                swapped_stored hne hc
              have hswapped := hkept.trans hslot
              simp only [wp_bind, wp_liftCheck]
              apply wp_mono (wp_bankCommit_stays (mem_bankWrites_secret hs hswapped)) _
                (fun _ _ h => h) (fun _ h => h)
              intro _ n hn
              apply wp_mono (wp_markerReplace_stays hn slot1 _) _ (fun _ _ h => h) (fun _ h => h)
              exact fun _ n' hn' => wp_markerReplace_stays hn' slot2 _

theorem not_unreferenced {files : Files} (h : Stays scheme (otpWrite objectSecret s d) files) :
    ¬ Unreferenced files s d := by
  obtain ⟨σ, hσ, root, next, hman, hfiled⟩ := h
  obtain ⟨r, i, hrecord, -⟩ := hfiled.record
  obtain ⟨o, ho, hkey, hid⟩ := hfiled.object
  intro hnone
  exact hnone σ hσ root next hman o ho (congrArg Prod.fst hkey) (congrArg Prod.snd hkey) r i
    (hid ▸ hrecord)

theorem not_erased {files : Files} (h : Stays scheme (otpWrite objectSecret s d) files) :
    ¬ Erased files s d := by
  obtain ⟨σ, -, root, next, -, hfiled⟩ := h
  obtain ⟨r, i, hrecord, ht, hg⟩ := hfiled.record
  exact fun hnone => hnone _ r i hrecord ⟨ht, hg⟩

end Calls

/-- Whatever happened before and whatever the storage does, a deletion that succeeds leaves the
secret sealed in a record of the slot, and a manifest that refers to that record; so does a swap out
of the slot. -/
theorem deleted_secret_remains (m : StoreMachine) (c : Call) (s : Nat) (secret : Data)
    (rs : List Reply) (hread : readSlot m.view secretMaxSize s = .ok secret) (hc : c.vacates s)
    (hdone : (exec c.run m rs).1 = .done ()) :
    ¬ Unreferenced (exec c.run m rs).2.1.view s secret ∧ ¬ Erased (exec c.run m rs).2.1.view s secret := by
  have hends := wp_sound (wp_vacating_call (f := Faults.all) c hread hc) trivial rs (.inl trivial)
  unfold Ends at hends
  rw [hdone] at hends
  exact ⟨not_unreferenced hends, not_erased hends⟩

/-- Storage after the first write to slot 0. -/
def writtenOnce : StoreMachine :=
  (exec (writeSlot 0 ⟨[7], [1]⟩) ⟨fun _ => none, fun _ => none, (), [], []⟩ []).2.1

theorem first_secret_remains :
    (exec (deleteSlot 0) writtenOnce []).1 = .done () ∧
    ¬ Erased (exec (deleteSlot 0) writtenOnce []).2.1.view 0 [7] := by
  have hdone : (exec (deleteSlot 0) writtenOnce []).1 = .done () := by decide +kernel
  exact ⟨hdone, (deleted_secret_remains writtenOnce (.delete 0) 0 [7] [] (by decide +kernel) rfl hdone).2⟩

/-- One secret is written and deleted: its record is still there, in the file of the other slot. -/
theorem deleted_secret_not_gone :
    readSlot writtenOnce.view secretMaxSize 0 = .ok [7] ∧
    (exec (deleteSlot 0) writtenOnce []).1 = .done () ∧
    ¬ SecretGone (exec (deleteSlot 0) writtenOnce []).2.1.view 0 [7] := by
  refine ⟨by decide +kernel, by decide +kernel, fun hgone => ?_⟩
  have hfile : (exec (deleteSlot 0) writtenOnce []).2.1.view 0xb900 =
      some (.record .primary ⟨4, 3, 0, 1, 0, 2, 1, 0x0400, 0, 2, 22, 0xb900⟩ [7]) := by
    decide +kernel
  exact hgone.2 _ _ _ hfile ⟨rfl, rfl⟩

end Container.Otp

end KeyWallet
