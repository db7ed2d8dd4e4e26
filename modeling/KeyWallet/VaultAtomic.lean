import KeyWallet.VaultContainer

/-! When an interrupted call on the vault leaves every wrap and the label as they were or as the call
was writing them. -/
namespace KeyWallet

open CrashProgram

namespace Container.Vault

section Statement

variable (wrap : (wrappingKey kvault : Data) → Option WrapRecord) (legacy : Bool)

/-- The machine after these calls, none of them disturbed. -/
def history (calls : List Call) (m : StoreMachine) : StoreMachine :=
  calls.foldl (fun n c => (exec (c.run wrap legacy) n []).2.1) m

/-- There is no container. -/
def Vacant (files : Files) : Prop := ∀ s < 2, files (manifestFid s) = none

/-- The wrap is the only one. -/
def lastWrap (files : Files) (appId : BitVec 8) : Bool :=
  match load layout files containerId legacy with
  | .error _ => false
  | .ok st =>
    match selectValid layout files containerId st with
    | .error _ => false
    | .ok (_, m) => (find m objectWrap appId.toNat).isSome && wrapCount m = 1

/-- What the wrap of an application reads as once the call is through. -/
def wrapAfter (before : Files) (c : Call) (appId : BitVec 8) : Except ObjErr Data :=
  match c with
  | .setKvault kvault encryptionKey app =>
    match wrap encryptionKey kvault with
    | none => getWrapRecord legacy before appId
    | some record => if appId = app then .ok record.1 else getWrapRecord legacy before appId
  | .setLabel _ => getWrapRecord legacy before appId
  | .deleteKvault app =>
    if appId = app then .error .fileNotFound else getWrapRecord legacy before appId

/-- What the label reads as once the call is through; it goes with the last wrap. -/
def labelAfter (before : Files) (c : Call) : Except ObjErr Data :=
  match c with
  | .setKvault _ _ _ => getLabel legacy before
  | .setLabel label => .ok label
  | .deleteKvault app => if lastWrap legacy before app then .ok [] else getLabel legacy before

/-- Every wrap and the label read as before the call or as it was writing them. -/
def OldOrWritten (before : Files) (c : Call) (after : Files) : Prop :=
  (∀ appId, getWrapRecord legacy after appId = getWrapRecord legacy before appId ∨
    getWrapRecord legacy after appId = wrapAfter wrap legacy before c appId) ∧
  (getLabel legacy after = getLabel legacy before ∨
    getLabel legacy after = labelAfter legacy before c)

/-- So it is after a restart, and without one unless the power is gone. -/
def Atomic (before : Files) (c : Call) (r : Outcome ObjErr Unit × StoreMachine × List Reply) :
    Prop :=
  OldOrWritten wrap legacy before c r.2.1.flash ∧
  (r.1 ≠ .lost → OldOrWritten wrap legacy before c r.2.1.view)

/-- The write creates the container, or goes to the file that the object is in. -/
def writeAtRisk (files : Files) (w : Write) : Bool :=
  match load layout files containerId legacy with
  | .error .fileNotFound => true
  | .error _ => false
  | .ok st =>
    match st.candidates st.currentSlot with
    | none => false
    | some m => m.generation ≠ uint32Max && m.objects.any fun o =>
        o.key = w.key && o.recordId = recordFid (1 - st.currentSlot) w.objectType w.objectTag

/-- A call that an interruption may catch between the old values and the new ones. -/
def atRisk (files : Files) (c : Call) : Bool :=
  match c with
  | .setKvault kvault encryptionKey appId =>
    (wrap encryptionKey kvault).any fun record => writeAtRisk legacy files (wrapWrite record appId)
  | .setLabel label => label.length ≤ labelMax && writeAtRisk legacy files (labelWrite label)
  | .deleteKvault appId => lastWrap legacy files appId

end Statement

theorem wrapWrite_accepted (record : WrapRecord) (appId : BitVec 8) :
    Accepted layout (wrapWrite record appId) := by
  have htag : appId.toNat ≤ 255 := by
    have := appId.isLt
    omega
  refine ⟨?_, rfl, ?_, ?_⟩
  · show writeValid (wrapWrite record appId) = true
    simp [writeValid, wrapWrite, htag, record.2]
  · have hcore : descriptorCoreValid ((wrapWrite ⟨List.replicate recordSize 0, rfl⟩ 0).descriptor 1 1) =
        true := by decide
    exact hcore
  · show record.1.length ≤ _
    rw [record.2]
    decide

theorem labelWrite_accepted {label : Data} (h : label.length ≤ labelMax) :
    Accepted layout (labelWrite label) := by
  refine ⟨?_, rfl, ?_, ?_⟩
  · show writeValid (labelWrite label) = true
    simp [writeValid, labelWrite, h, objectLabel, objectWrap]
  · have hcore : descriptorCoreValid ((labelWrite []).descriptor 1 1) = true := by decide
    exact hcore
  · show label.length ≤ _
    exact Nat.le_trans h (by decide)

section Reading

variable {legacy : Bool} {files : Files} {current : Option (Nat × Manifest)} {vals : Values}

theorem value_accepted (h : Holds scheme files current vals) {t g : Nat} {d : Data}
    (hd : vals t g = some d) : ∃ w, Accepted layout w ∧ w.objectType = t ∧ w.objectTag = g ∧
      w.data.length = d.length := by
  cases current with
  | none =>
    obtain ⟨-, hvals⟩ := h
    exact absurd (hvals ▸ hd) (by simp)
  | some p =>
    obtain ⟨hl, -⟩ := h
    obtain ⟨o, ho, rfl, rfl⟩ := hl.named t g (by simp [hd])
    obtain ⟨d', -, hlen, hv⟩ := hl.records o ho
    obtain ⟨w, n, s, hw, -, -, -, rfl⟩ := hl.wf.described o ho
    refine ⟨w, hw, rfl, rfl, ?_⟩
    rw [Option.some.inj (hd.symm.trans hv), hlen]
    rfl

theorem wrap_length (h : Holds scheme files current vals) {g : Nat} {d : Data}
    (hd : vals objectWrap g = some d) : d.length = recordSize := by
  obtain ⟨w, hw, ht, -, hlen⟩ := value_accepted h hd
  have hv : writeValid w = true := hw.valid
  rw [writeValid, if_pos ht] at hv
  simp only [Bool.and_eq_true, decide_eq_true_eq] at hv
  rw [← hlen]
  exact hv.2.1.1

theorem label_length (h : Holds scheme files current vals) {g : Nat} {d : Data}
    (hd : vals objectLabel g = some d) : d.length ≤ labelMax := by
  obtain ⟨w, hw, ht, -, hlen⟩ := value_accepted h hd
  have hv : writeValid w = true := hw.valid
  have hne : w.objectType ≠ objectWrap := by
    rw [ht]
    decide
  rw [writeValid, if_neg hne] at hv
  simp only [Bool.and_eq_true, decide_eq_true_eq] at hv
  rw [← hlen]
  exact hv.2.1.1.2

/-- What a value reads as. -/
def shown : Option Data → Except ObjErr Data
  | none => .error .fileNotFound
  | some d => .ok d

theorem getWrapRecord_eq (h : Holds scheme files current vals) (appId : BitVec 8) :
    getWrapRecord legacy files appId = shown (vals objectWrap appId.toNat) := by
  unfold getWrapRecord
  rw [h.read legacy objectWrap appId.toNat fun d hd => Nat.le_of_eq (wrap_length h hd)]
  cases hd : vals objectWrap appId.toNat with
  | none => rfl
  | some d => simp [wrap_length h hd, shown]

theorem getLabel_eq (h : Holds scheme files current vals) :
    getLabel legacy files = .ok ((vals objectLabel 0).getD []) := by
  unfold getLabel
  rw [h.read legacy objectLabel 0 fun d hd => label_length h hd]
  cases vals objectLabel 0 <;> rfl

theorem not_torn {wrap : (wrappingKey kvault : Data) → Option WrapRecord} {c : Call} {after : Files}
    (h : Holds scheme files current vals) (hafter : OldOrWritten wrap legacy files c after) :
    load layout after containerId legacy ≠ .error .wrongData := by
  intro htorn
  have hwrong : getLabel legacy after = .error .wrongData := by
    simp only [getLabel, Container.read, htorn]
  have hbefore : getLabel legacy files = .ok ((vals objectLabel 0).getD []) := getLabel_eq h
  rcases hafter.2 with hl | hl
  · rw [hwrong, hbefore] at hl
    exact absurd hl (by rintro ⟨⟩)
  · rw [hwrong] at hl
    cases c with
    | setKvault kvault encryptionKey app =>
      exact absurd (hl.trans hbefore) (by rintro ⟨⟩)
    | setLabel label => exact absurd hl (by rintro ⟨⟩)
    | deleteKvault app =>
      simp only [labelAfter] at hl
      split_ifs at hl
      exact absurd (hl.trans hbefore) (by rintro ⟨⟩)

end Reading

section Writing

variable {legacy : Bool} {m : StoreMachine} {current : Option (Nat × Manifest)} {vals : Values}
  {w : Write}

/-- The files hold the old values, or those with the write. -/
def Written (current : Option (Nat × Manifest)) (vals : Values) (w : Write) (files : Files) : Prop :=
  Holds scheme files current vals ∨ ∃ current', Holds scheme files current' (putValues vals [w])

theorem settled_write (h : Settled scheme m current vals) (hw : Accepted layout w) :
    ∃ current' vals', Settled scheme (exec (vaultUpdate legacy w) m []).2.1 current' vals' := by
  by_cases hu : Unspent current
  · by_cases hroom : Room scheme current [w]
    · have hdone := calm_ok (calm_mono (h.update legacy false hu (writes_single hw) hroom)
        (fun _ _ hn => hn.1) (fun _ _ hn => hn))
      exact ⟨_, _, hdone.2⟩
    · have hfail := calm_of_wp (wp_update_full (f := Faults.none) legacy false h hu hw hroom)
      unfold calm Ends at hfail
      split at hfail
      · exact hfail.elim
      · exact ⟨current, vals, hfail⟩
      · exact hfail.elim
  · have hspent := h.spent legacy false hu
      ⟨(writes_single hw).nonempty, (writes_single hw).count⟩ []
    unfold vaultUpdate
    rw [hspent]
    exact ⟨current, vals, h⟩

theorem writeAtRisk_iff (h : Settled scheme m current vals) :
    writeAtRisk legacy m.view w = true ↔
      current = none ∨ (Unspent current ∧ ¬ Apart scheme current [w]) := by
  cases hc : current with
  | none =>
    subst hc
    have hload := load_absent (L := layout) legacy h.1.1
    simp only [writeAtRisk, hload, true_or]
  | some p =>
    obtain ⟨σ, c⟩ := p
    subst hc
    obtain ⟨candidates, hload, hcur, -⟩ := h.1.1.loads h.1.holds.2 legacy
    simp only [writeAtRisk, hload, hcur, Bool.and_eq_true, decide_eq_true_eq, List.any_eq_true,
      reduceCtorEq, false_or]
    refine and_congr Iff.rfl ?_
    unfold Apart
    push Not
    constructor
    · rintro ⟨o, ho, hkey, hfid⟩
      exact ⟨w, List.mem_singleton.mpr rfl, o, ho, hkey, hfid⟩
    · rintro ⟨v, hv, o, ho, hkey, hfid⟩
      obtain rfl := List.mem_singleton.mp hv
      exact ⟨o, ho, hkey, hfid⟩

theorem written_of_safe (h : Settled scheme m current vals) (hw : Accepted layout w)
    (hsafe : writeAtRisk legacy m.view w = false) (rs : List Reply) :
    Written current vals w (exec (vaultUpdate legacy w) m rs).2.1.flash ∧
    ((exec (vaultUpdate legacy w) m rs).1 ≠ .lost →
      Written current vals w (exec (vaultUpdate legacy w) m rs).2.1.view) := by
  have hnot : ¬ (current = none ∨ (Unspent current ∧ ¬ Apart scheme current [w])) := by
    intro hrisk
    have htrue : writeAtRisk legacy m.view w = true := (writeAtRisk_iff h).mpr hrisk
    rw [hsafe] at htrue
    exact absurd htrue (by rintro ⟨⟩)
  by_cases hu : Unspent current
  · have hsafe : Safe scheme current [w] := by
      refine ⟨?_, fun _ => ?_⟩
      · by_contra hne
        exact hnot (.inr ⟨hu, hne⟩)
      · cases current with
        | none => exact absurd (.inl rfl) hnot
        | some p => rfl
    have hold : ∀ files, OldOrNew scheme current vals [w] files → Written current vals w files :=
      fun files => Or.imp_right fun hnew => ⟨_, hnew⟩
    by_cases hroom : Room scheme current [w]
    · have hends := wp_sound (wp_update (f := Faults.all) legacy false h.1 h.2.1 hu
        (writes_single hw) hroom) trivial rs (.inl trivial)
      unfold Ends at hends
      unfold vaultUpdate
      split at hends
      · exact ⟨.inr ⟨_, hends.1.2.1.holds⟩, fun _ => .inr ⟨_, hends.1.1.holds⟩⟩
      · exact ⟨hold _ (hends.2 hsafe).2, fun _ => hold _ (hends.2 hsafe).1⟩
      · next hlost => exact ⟨hold _ (hends hsafe), fun hne => absurd hlost hne⟩
    · have hends := wp_sound (wp_update_full (f := Faults.all) legacy false h hu hw hroom) trivial rs
        (.inl trivial)
      unfold Ends at hends
      unfold vaultUpdate
      split at hends
      · exact hends.elim
      · exact ⟨.inl hends.2.1.holds, fun _ => .inl hends.1.holds⟩
      · next hlost => exact ⟨.inl hends.holds, fun hne => absurd hlost hne⟩
  · have hspent := h.spent legacy false hu
      ⟨(writes_single hw).nonempty, (writes_single hw).count⟩ rs
    unfold vaultUpdate
    rw [hspent]
    exact ⟨.inl h.2.1.holds, fun _ => .inl h.1.holds⟩

theorem torn_of_risk (h : Settled scheme m current vals) (hw : Accepted layout w)
    (hrisk : writeAtRisk legacy m.view w = true) :
    ∃ rs, load layout (exec (vaultUpdate legacy w) m rs).2.1.flash containerId legacy =
        .error .wrongData ∨
      ((exec (vaultUpdate legacy w) m rs).1 ≠ .lost ∧
        load layout (exec (vaultUpdate legacy w) m rs).2.1.view containerId legacy =
          .error .wrongData) := by
  rcases (writeAtRisk_iff h).mp hrisk with rfl | ⟨hu, hnot⟩
  · obtain ⟨rs, htorn⟩ := h.first_torn rfl hw legacy false
    exact ⟨rs, .inr htorn⟩
  · by_cases hroom : Room scheme current [w]
    · obtain ⟨rs, hlost, -⟩ := mayLeave_lost legacy false h.1 hu (writes_single hw) hroom h.2.2 hnot
      exact ⟨rs, .inl hlost⟩
    · -- without room the object is new, and nothing is overwritten
      refine absurd (fun v hv o ho hkey => ?_) hnot
      rw [List.mem_singleton.mp hv] at hkey
      have ho : o ∈ (startOf layout containerId current).objects := by
        rw [startOf_objects]
        exact ho
      exact absurd hkey ((h.1.full hroom).2 o ho)

end Writing

section Deleting

variable {m : StoreMachine} {vals : Values}

theorem deleteLegacy_touches (appId : BitVec 8) :
    Touches (fun k => k = efVaultKey ∨ k = efVaultLabel) (deleteLegacy appId) := by
  unfold deleteLegacy
  split_ifs
  · exact trivial
  · intro s v
    cases h : hasLegacyRecord v
    · simp only [h, pure_eq, Prog.bind, Bool.false_eq_true, if_false]
      refine ⟨.inr rfl, fun b => ?_⟩
      cases b
      · exact trivial
      · intro b
        cases b <;> exact trivial
    · simp only [h, pure_eq, Prog.bind, if_true]
      refine ⟨.inl rfl, fun b => ?_⟩
      cases b
      · exact trivial
      · refine ⟨.inr rfl, fun b => ?_⟩
        cases b
        · exact trivial
        · intro b
          cases b <;> exact trivial

theorem deleteLegacy_settled (appId : BitVec 8) (h : Settled scheme m none vals) (rs : List Reply) :
    Settled scheme (exec (deleteLegacy appId) m rs).2.1 none fun _ _ => none := by
  have hframe : ∀ s < 2, (exec (deleteLegacy appId) m rs).2.1.view (manifestFid s) = none ∧
      (exec (deleteLegacy appId) m rs).2.1.flash (manifestFid s) = none := by
    intro s hs
    have hne : ¬ (manifestFid s = efVaultKey ∨ manifestFid s = efVaultLabel) := by
      have := manifestFid_range s
      simp only [efVaultKey, efVaultLabel]
      omega
    obtain ⟨hview, hflash⟩ := (deleteLegacy_touches appId).frame hne m rs
    refine ⟨hview.trans (h.1.1 s hs), ?_⟩
    rcases hflash with hflash | hflash
    · exact hflash.trans (h.2.1.1 s hs)
    · exact hflash.trans (h.1.1 s hs)
  exact Settled.of_absent (fun s hs => (hframe s hs).1) fun s hs => (hframe s hs).2

theorem deactivate_gone (n : StoreMachine)
    (h : ∀ s < 2, n.view (layout.manifestFid containerId s) = none) :
    calm (layout.deactivate containerId)
      (fun _ n => ∀ s < 2, n.view (layout.manifestFid containerId s) = none) (fun _ _ => False) n := by
  intro s hs
  show Function.update n.view efVaultKey none (manifestFid s) = none
  have hne : manifestFid s ≠ efVaultKey := by
    have := manifestFid_range s
    simp only [efVaultKey]
    omega
  rw [Function.update_of_ne hne]
  exact h s hs

/-- What deleting comes to where there is a container. -/
inductive Deletion (legacy : Bool) (m : StoreMachine) (σ : Nat) (c : Manifest)
    (appId : BitVec 8) : Prop
  | refused (h : ∀ rs, (exec (deleteKvault legacy appId) m rs).2.1 = m)
      (hlast : lastWrap legacy m.view appId = false)
  | last (h : ∀ rs, exec (deleteKvault legacy appId) m rs =
        exec (containerDelete layout containerId legacy) m rs)
      (hlast : lastWrap legacy m.view appId = true)
  | one (o : Descriptor) (ho : o ∈ c.objects) (ht : o.objectType = objectWrap)
      (hg : o.objectTag = appId.toNat) (hgen : c.generation ≠ uint32Max)
      (hmore : 1 < c.objects.length)
      (h : ∀ rs, exec (deleteKvault legacy appId) m rs =
        exec (remove layout containerId o.objectType o.objectTag legacy) m rs)
      (hlast : lastWrap legacy m.view appId = false)

theorem deletion_cases {σ : Nat} {c : Manifest} (legacy : Bool)
    (h : Settled scheme m (some (σ, c)) vals) (appId : BitVec 8) :
    Deletion legacy m σ c appId := by
  obtain ⟨candidates, hload, hcur, -⟩ := h.1.1.loads h.1.holds.2 legacy
  have hselect : selectValid layout m.view containerId ⟨candidates, .primary, σ⟩ = .ok (σ, c) := by
    simp only [selectValid, hcur, h.1.1.validates]
  have hrun : ∀ rs, exec (deleteKvault legacy appId) m rs =
      exec (if (find c objectWrap appId.toNat).isNone then Prog.fail .fileNotFound
        else if wrapCount c = 1 then containerDelete layout containerId legacy
        else remove layout containerId objectWrap appId.toNat legacy) m rs := by
    intro rs
    simp only [deleteKvault, bind_eq, consult, Prog.bind, exec, hload, hselect, liftCheck]
  have hlast : lastWrap legacy m.view appId =
      ((find c objectWrap appId.toNat).isSome && decide (wrapCount c = 1)) := by
    simp only [lastWrap, hload, hselect]
  cases hfind : find c objectWrap appId.toNat with
  | none =>
    rw [hfind] at hrun hlast
    exact .refused (fun rs => by rw [hrun rs]; rfl) hlast
  | some o =>
    obtain ⟨ho, ht, hg⟩ := find_mem hfind
    rw [hfind] at hrun hlast
    by_cases hcount : wrapCount c = 1
    · refine .last (fun rs => ?_) (by rw [hlast, decide_eq_true hcount]; rfl)
      rw [hrun rs, if_neg (by simp), if_pos hcount]
    · have hrun' : ∀ rs, exec (deleteKvault legacy appId) m rs =
          exec (remove layout containerId o.objectType o.objectTag legacy) m rs := by
        intro rs
        rw [hrun rs, if_neg (by simp), if_neg hcount, ht, hg]
      have hnotLast : lastWrap legacy m.view appId = false := by
        rw [hlast, decide_eq_false hcount]
        rfl
      by_cases hgen : c.generation = uint32Max
      · refine .refused (fun rs => ?_) hnotLast
        have hwithout : withoutObject c o.objectType o.objectTag = .error .wrongData := by
          simp only [withoutObject, h.1.1.wf.find_eq ho, hgen, true_or, if_true]
        rw [hrun' rs]
        simp only [remove, bind_eq, consult, Prog.bind, exec, hload, hselect, liftCheck, hwithout]
      · -- there is another wrap besides this one
        have hmem : o ∈ c.objects.filter fun o => o.objectType = objectWrap :=
          List.mem_filter.mpr ⟨ho, by simpa using ht⟩
        have hpos : 0 < wrapCount c := List.length_pos_of_mem hmem
        have hle : wrapCount c ≤ c.objects.length := List.length_filter_le _ _
        exact .one o ho ht hg hgen (by omega) hrun' hnotLast

end Deleting

section Runs

variable {wrap : (wrappingKey kvault : Data) → Option WrapRecord} {legacy : Bool} {m : StoreMachine}
  {current : Option (Nat × Manifest)} {vals : Values}

theorem settled_call (wrap : (wrappingKey kvault : Data) → Option WrapRecord) (legacy : Bool)
    (h : Settled scheme m current vals) (c : Call) :
    ∃ current' vals', Settled scheme (exec (c.run wrap legacy) m []).2.1 current' vals' := by
  cases c with
  | setKvault kvault encryptionKey appId =>
    simp only [Call.run]
    cases wrap encryptionKey kvault with
    | none => exact ⟨current, vals, h⟩
    | some record => exact settled_write h (wrapWrite_accepted record appId)
  | setLabel label =>
    simp only [Call.run]
    split_ifs with hlen
    · exact ⟨current, vals, h⟩
    · exact settled_write h (labelWrite_accepted (Nat.le_of_not_lt hlen))
  | deleteKvault appId =>
    cases hc : current with
    | none =>
      subst hc
      have hrun : exec (deleteKvault legacy appId) m [] = exec (deleteLegacy appId) m [] := by
        simp only [deleteKvault, bind_eq, consult, Prog.bind, exec, load_absent legacy h.1.1]
      simp only [Call.run, hrun]
      exact ⟨none, _, deleteLegacy_settled appId h []⟩
    | some p =>
      obtain ⟨σ, c⟩ := p
      subst hc
      simp only [Call.run]
      rcases deletion_cases legacy h appId with ⟨hsame, -⟩ | ⟨hrun, -⟩ |
        ⟨o, ho, -, -, hgen, hmore, hrun, -⟩
      · rw [hsame]
        exact ⟨_, vals, h⟩
      · rw [hrun]
        exact ⟨none, _, (calm_ok (h.delete legacy deactivate_gone)).2⟩
      · rw [hrun]
        exact ⟨_, _, (calm_ok (h.remove legacy ho hgen hmore)).2⟩

theorem settled_history (wrap : (wrappingKey kvault : Data) → Option WrapRecord) (legacy : Bool)
    (h : Settled scheme m current vals) (calls : List Call) :
    ∃ current' vals', Settled scheme (history wrap legacy calls m) current' vals' := by
  induction calls generalizing m current vals with
  | nil => exact ⟨current, vals, h⟩
  | cons c calls ih =>
    obtain ⟨current', vals', h'⟩ := settled_call wrap legacy h c
    exact ih h'

theorem putValues_single (w : Write) (t g : Nat) :
    putValues vals [w] t g = if w.key = (t, g) then some w.data else vals t g := by
  unfold putValues
  by_cases hkey : w.key = (t, g)
  · simp [List.find?, hkey]
  · simp [List.find?, hkey]

variable {files after : Files}

theorem oldOrWritten_old {current' : Option (Nat × Manifest)} {c : Call}
    (h : Holds scheme files current vals) (hafter : Holds scheme after current' vals) :
    OldOrWritten wrap legacy files c after := by
  refine ⟨fun appId => .inl ?_, .inl ?_⟩
  · rw [getWrapRecord_eq hafter, getWrapRecord_eq h]
  · rw [getLabel_eq hafter, getLabel_eq h]

theorem oldOrWritten_wrap {kvault encryptionKey : Data} {appId : BitVec 8} {record : WrapRecord}
    (hwrap : wrap encryptionKey kvault = some record) (h : Holds scheme files current vals)
    (hafter : Written current vals (wrapWrite record appId) after) :
    OldOrWritten wrap legacy files (.setKvault kvault encryptionKey appId) after := by
  rcases hafter with hold | ⟨current', hnew⟩
  · exact oldOrWritten_old h hold
  · refine ⟨fun app => .inr ?_, .inl ?_⟩
    · rw [getWrapRecord_eq hnew, putValues_single]
      simp only [wrapAfter, hwrap]
      by_cases happ : app = appId
      · have hkey : (wrapWrite record appId).key = (objectWrap, app.toNat) := by
          rw [happ]
          rfl
        rw [if_pos hkey, if_pos happ]
        rfl
      · have hkey : (wrapWrite record appId).key ≠ (objectWrap, app.toNat) := by
          intro he
          exact happ (BitVec.eq_of_toNat_eq (congrArg Prod.snd he).symm)
        rw [if_neg hkey, if_neg happ, getWrapRecord_eq h]
    · have hkey : (wrapWrite record appId).key ≠ (objectLabel, 0) := by
        intro he
        have htype : objectWrap = objectLabel := congrArg Prod.fst he
        exact absurd htype (by decide)
      rw [getLabel_eq hnew, getLabel_eq h, putValues_single, if_neg hkey]

theorem oldOrWritten_label {label : Data} (h : Holds scheme files current vals)
    (hafter : Written current vals (labelWrite label) after) :
    OldOrWritten wrap legacy files (.setLabel label) after := by
  rcases hafter with hold | ⟨current', hnew⟩
  · exact oldOrWritten_old h hold
  · refine ⟨fun app => .inl ?_, .inr ?_⟩
    · have hkey : (labelWrite label).key ≠ (objectWrap, app.toNat) := by
        intro he
        have htype : objectLabel = objectWrap := congrArg Prod.fst he
        exact absurd htype (by decide)
      rw [getWrapRecord_eq hnew, getWrapRecord_eq h, putValues_single, if_neg hkey]
    · have hkey : (labelWrite label).key = (objectLabel, 0) := rfl
      rw [getLabel_eq hnew, putValues_single, if_pos hkey]
      rfl

theorem oldOrWritten_removed {σ : Nat} {c : Manifest} {appId : BitVec 8}
    (h : Holds scheme files (some (σ, c)) vals)
    (hafter : KeptOrRemoved scheme σ c vals objectWrap appId.toNat after) :
    OldOrWritten wrap legacy files (.deleteKvault appId) after := by
  rcases hafter with hold | hnew
  · exact oldOrWritten_old h hold
  · refine ⟨fun app => .inr ?_, .inl ?_⟩
    · rw [getWrapRecord_eq hnew]
      simp only [wrapAfter, dropValue]
      by_cases happ : app = appId
      · rw [if_pos happ, if_pos (by rw [happ])]
        rfl
      · have hkey : (objectWrap, app.toNat) ≠ (objectWrap, appId.toNat) :=
          fun he => happ (BitVec.eq_of_toNat_eq (congrArg Prod.snd he))
        rw [if_neg hkey, if_neg happ, getWrapRecord_eq h]
    · have hkey : (objectLabel, 0) ≠ (objectWrap, appId.toNat) := by
        intro he
        have htype : objectLabel = objectWrap := congrArg Prod.fst he
        exact absurd htype (by decide)
      rw [getLabel_eq hnew, getLabel_eq h]
      simp only [dropValue, if_neg hkey]

theorem settled_atomic (h : Settled scheme m current vals) {c : Call}
    (hsafe : atRisk wrap legacy m.view c = false) (rs : List Reply) :
    Atomic wrap legacy m.view c (exec (c.run wrap legacy) m rs) := by
  have hsame : ∀ n : StoreMachine, n = m → ∀ r : Outcome ObjErr Unit,
      Atomic wrap legacy m.view c (r, n, rs) := by
    rintro n rfl r
    exact ⟨oldOrWritten_old h.1.holds h.2.1.holds, fun _ => oldOrWritten_old h.1.holds h.1.holds⟩
  cases c with
  | setKvault kvault encryptionKey appId =>
    simp only [Call.run]
    cases hwrap : wrap encryptionKey kvault with
    | none => exact hsame m rfl _
    | some record =>
      simp only [atRisk, hwrap, Option.any_some] at hsafe
      obtain ⟨hflash, hview⟩ := written_of_safe h (wrapWrite_accepted record appId) hsafe rs
      exact ⟨oldOrWritten_wrap hwrap h.1.holds hflash,
        fun hne => oldOrWritten_wrap hwrap h.1.holds (hview hne)⟩
  | setLabel label =>
    simp only [Call.run]
    split_ifs with hlen
    · exact hsame m rfl _
    · have hle := Nat.le_of_not_lt hlen
      simp only [atRisk, decide_eq_true hle, Bool.true_and] at hsafe
      obtain ⟨hflash, hview⟩ := written_of_safe h (labelWrite_accepted hle) hsafe rs
      exact ⟨oldOrWritten_label h.1.holds hflash,
        fun hne => oldOrWritten_label h.1.holds (hview hne)⟩
  | deleteKvault appId =>
    simp only [Call.run]
    cases hc : current with
    | none =>
      subst hc
      have hrun : exec (deleteKvault legacy appId) m rs = exec (deleteLegacy appId) m rs := by
        simp only [deleteKvault, bind_eq, consult, Prog.bind, exec, load_absent legacy h.1.1]
      have hvals : vals = fun _ _ => none := h.1.2
      subst hvals
      have hafter := deleteLegacy_settled appId h rs
      rw [hrun]
      exact ⟨oldOrWritten_old h.1.holds hafter.2.1.holds,
        fun _ => oldOrWritten_old h.1.holds hafter.1.holds⟩
    | some p =>
      obtain ⟨σ, c⟩ := p
      subst hc
      rcases deletion_cases legacy h appId with ⟨hkept, -⟩ | ⟨-, hlast⟩ |
        ⟨o, ho, ht, hg, hgen, hmore, hrun, -⟩
      · exact hsame _ (hkept rs) _
      · exact absurd (hlast.symm.trans hsafe) (by rintro ⟨⟩)
      · have hends := wp_sound (wp_remove (f := Faults.all) legacy h.1 h.2.1 ho hgen hmore) trivial rs
          (.inl trivial)
        rw [hrun rs]
        rw [ht, hg] at hends ⊢
        unfold Ends at hends
        split at hends
        · exact ⟨oldOrWritten_removed h.1.holds (.inr hends.1.2.1.holds),
            fun _ => oldOrWritten_removed h.1.holds (.inr hends.1.1.holds)⟩
        · exact ⟨oldOrWritten_removed h.1.holds hends.2.2,
            fun _ => oldOrWritten_removed h.1.holds hends.2.1⟩
        · next hlost =>
          exact ⟨oldOrWritten_removed h.1.holds hends, fun hne => absurd hlost hne⟩

theorem settled_not_atomic (h : Settled scheme m current vals) {c : Call}
    (hrisk : atRisk wrap legacy m.view c = true) :
    ∃ rs, ¬ Atomic wrap legacy m.view c (exec (c.run wrap legacy) m rs) := by
  cases c with
  | setKvault kvault encryptionKey appId =>
    obtain ⟨record, hwrap, hrisk⟩ := Option.any_eq_true _ _ |>.mp hrisk
    obtain ⟨rs, htorn⟩ := torn_of_risk h (wrapWrite_accepted record appId) hrisk
    refine ⟨rs, fun hatomic => ?_⟩
    simp only [Call.run, hwrap] at hatomic
    rcases htorn with hflash | ⟨hne, hview⟩
    · exact not_torn h.1.holds hatomic.1 hflash
    · exact not_torn h.1.holds (hatomic.2 hne) hview
  | setLabel label =>
    simp only [atRisk, Bool.and_eq_true, decide_eq_true_eq] at hrisk
    obtain ⟨rs, htorn⟩ := torn_of_risk h (labelWrite_accepted hrisk.1) hrisk.2
    refine ⟨rs, fun hatomic => ?_⟩
    simp only [Call.run, if_neg (Nat.not_lt.mpr hrisk.1)] at hatomic
    rcases htorn with hflash | ⟨hne, hview⟩
    · exact not_torn h.1.holds hatomic.1 hflash
    · exact not_torn h.1.holds (hatomic.2 hne) hview
  | deleteKvault appId =>
    simp only [atRisk] at hrisk
    cases hc : current with
    | none =>
      subst hc
      simp only [lastWrap, load_absent legacy h.1.1] at hrisk
      exact absurd hrisk (by rintro ⟨⟩)
    | some p =>
      obtain ⟨σ, c⟩ := p
      subst hc
      rcases deletion_cases legacy h appId with ⟨-, hlast⟩ | ⟨hrun, -⟩ | ⟨o, -, -, -, -, -, -, hlast⟩
      · exact absurd (hlast.symm.trans hrisk) (by rintro ⟨⟩)
      · obtain ⟨rs, hne, htorn⟩ := h.delete_torn legacy
        refine ⟨rs, fun hatomic => ?_⟩
        simp only [Call.run] at hatomic
        rw [hrun rs] at hatomic
        exact not_torn h.1.holds (hatomic.2 hne) htorn
      · exact absurd (hlast.symm.trans hrisk) (by rintro ⟨⟩)

end Runs

/-- After any calls, whatever interrupts the next one leaves every wrap and the label as before or as
the call was writing them, exactly if that call neither creates the container, nor overwrites a
record in use, nor deletes the last wrap. -/
theorem interrupted_vault_call_atomic_iff
    (wrap : (wrappingKey kvault : Data) → Option WrapRecord) (legacy : Bool) (m : StoreMachine)
    (hview : Vacant m.view) (hflash : Vacant m.flash) (calls : List Call) (c : Call) :
    (∀ rs, Atomic wrap legacy (history wrap legacy calls m).view c
      (exec (c.run wrap legacy) (history wrap legacy calls m) rs)) ↔
    atRisk wrap legacy (history wrap legacy calls m).view c = false := by
  have hstart : Settled scheme m none fun _ _ => none := Settled.of_absent hview hflash
  obtain ⟨current, vals, h⟩ := settled_history wrap legacy hstart calls
  constructor
  · intro hall
    by_contra hrisk
    obtain ⟨rs, hnot⟩ := settled_not_atomic h (Bool.not_eq_false _ ▸ hrisk)
    exact hnot (hall rs)
  · exact fun hsafe rs => settled_atomic h hsafe rs

def blank : StoreMachine := ⟨fun _ => none, fun _ => none, (), [], []⟩

def sampleWrap : (wrappingKey kvault : Data) → Option WrapRecord :=
  fun _ kvault => some ⟨(kvault ++ List.replicate recordSize 0).take recordSize, by
    simp [recordSize]⟩

def firstSet : Call := .setKvault [1] [] 0

/-- The commit of the first manifest is refused, and the record is rolled back under it. -/
theorem first_key_not_atomic :
    ¬ Atomic sampleWrap false blank.view firstSet
      (exec (firstSet.run sampleWrap false) blank [.ok, .ok, .ok, .refused false]) := by
  intro h
  have hne : (exec (firstSet.run sampleWrap false) blank [.ok, .ok, .ok, .refused false]).1 ≠ .lost := by
    decide +kernel
  have hlabel := (h.2 hne).2
  exact absurd hlabel (by decide +kernel)

/-- The label after the key goes to the other slot. -/
theorem label_after_key_atomic :
    atRisk sampleWrap false (history sampleWrap false [firstSet] blank).view (.setLabel [7]) = false ∧
    ∀ rs, Atomic sampleWrap false (history sampleWrap false [firstSet] blank).view (.setLabel [7])
      (exec (Call.run sampleWrap false (.setLabel [7])) (history sampleWrap false [firstSet] blank)
        rs) := by
  have hsafe : atRisk sampleWrap false (history sampleWrap false [firstSet] blank).view
      (.setLabel [7]) = false := by decide +kernel
  exact ⟨hsafe, (interrupted_vault_call_atomic_iff sampleWrap false blank (fun _ _ => rfl)
    (fun _ _ => rfl) [firstSet] (.setLabel [7])).mpr hsafe⟩

end Container.Vault

end KeyWallet
