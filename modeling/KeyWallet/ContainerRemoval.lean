import KeyWallet.ContainerSweep

/-! Taking one object out of a container, and deleting a container as a whole: what an interruption
of either leaves. -/
namespace KeyWallet

open CrashProgram

namespace Container

section Removal

variable {L : Layout} {id : Nat} {S : Scheme L id} {files : Files} {σ t g : Nat} {c : Manifest}
  {vals : Values}

/-- The values without one object. -/
def dropValue (vals : Values) (t g : Nat) : Values := fun t' g' =>
  if (t', g') = (t, g) then none else vals t' g'

/-- The manifest of the next generation, without that object. -/
def removed (c : Manifest) (t g : Nat) : Manifest :=
  { c with
    objects := c.objects.eraseP fun p => p.objectType = t ∧ p.objectTag = g
    previousGeneration := c.generation
    generation := c.generation + 1 }

theorem mem_eraseKey {os : List Descriptor} (h : (os.map Descriptor.key).Nodup) (o : Descriptor) :
    o ∈ (os.eraseP fun p => p.objectType = t ∧ p.objectTag = g) ↔ o ∈ os ∧ o.key ≠ (t, g) := by
  induction os with
  | nil => simp
  | cons p os ih =>
    rw [List.map_cons, List.nodup_cons] at h
    by_cases hp : p.objectType = t ∧ p.objectTag = g
    · -- the keys are all different, so the first is the only one
      have hkey : p.key = (t, g) := Prod.ext hp.1 hp.2
      rw [List.eraseP_cons_of_pos (by simpa using hp)]
      constructor
      · intro ho
        refine ⟨List.mem_cons_of_mem _ ho, fun he => h.1 ?_⟩
        rw [hkey, ← he]
        exact List.mem_map_of_mem ho
      · rintro ⟨ho, hne⟩
        rcases List.mem_cons.mp ho with rfl | ho
        · exact absurd hkey hne
        · exact ho
    · have hkey : p.key ≠ (t, g) := fun he => hp ⟨congrArg Prod.fst he, congrArg Prod.snd he⟩
      rw [List.eraseP_cons_of_neg (by simpa using hp), List.mem_cons, List.mem_cons, ih h.2]
      constructor
      · rintro (rfl | ⟨ho, hne⟩)
        · exact ⟨.inl rfl, hkey⟩
        · exact ⟨.inr ho, hne⟩
      · rintro ⟨rfl | ho, hne⟩
        · exact .inl rfl
        · exact .inr ⟨ho, hne⟩

theorem chain_sublist {os os' : List Descriptor} (h : os.IsChain descriptorBefore)
    (hsub : os'.Sublist os) : os'.IsChain descriptorBefore := by
  have htrans : IsTrans Descriptor descriptorBefore := ⟨by
    intro a b c hab hbc
    simp only [descriptorBefore] at *
    omega⟩
  exact List.isChain_iff_pairwise.mpr ((List.isChain_iff_pairwise.mp h).sublist hsub)

theorem WellFormed.removed (h : WellFormed S c) (hgen : c.generation ≠ uint32Max)
    (hmore : 1 < c.objects.length) : WellFormed S (removed c t g) := by
  have hsub := List.eraseP_sublist
    (l := c.objects) (p := fun p => decide (p.objectType = t ∧ p.objectTag = g))
  have hlen := List.length_eraseP_le
    (l := c.objects) (p := fun p => decide (p.objectType = t ∧ p.objectTag = g))
  refine ⟨h.namespaceId, h.containerKind, h.containerId, Nat.lt_succ_self _, ?_, h.extension, ?_,
    Nat.le_trans hlen h.count, chain_sublist h.sorted hsub, ?_⟩
  · have hbound := h.bound
    show c.generation + 1 ≤ uint32Max
    omega
  · intro hnil
    have hshort := List.le_length_eraseP
      (l := c.objects) (p := fun p => decide (p.objectType = t ∧ p.objectTag = g))
    have hzero : (c.objects.eraseP fun p =>
        decide (p.objectType = t ∧ p.objectTag = g)).length = 0 :=
      List.length_eq_zero_iff.mpr hnil
    omega
  · intro o ho
    exact (h.described o (hsub.subset ho)).mono (Nat.le_succ _)

theorem Live.removed (h : Live S files σ c vals) (hgen : c.generation ≠ uint32Max)
    (hmore : 1 < c.objects.length) :
    Live S (Function.update files (L.manifestFid id (1 - σ))
      (some (.manifest .primary (removed c t g)))) (1 - σ) (removed c t g) (dropValue vals t g) := by
  have hkeys := keys_nodup h.wf.sorted
  have hσ := h.slot
  refine ⟨by omega, Function.update_self _ _ _, h.wf.removed hgen hmore, ?_, ?_⟩
  · intro o ho
    obtain ⟨ho, hne⟩ := (mem_eraseKey hkeys o).mp ho
    obtain ⟨d, hrec, hlen, hval⟩ := h.records o ho
    refine ⟨d, ?_, hlen, ?_⟩
    · rw [Function.update_of_ne ((h.wf.described o ho).ne_manifest (by omega))]
      exact hrec
    · have hkey : (o.objectType, o.objectTag) ≠ (t, g) := hne
      unfold dropValue
      rw [if_neg hkey]
      exact hval
  · intro t' g' hsome
    unfold dropValue at hsome
    by_cases hk : (t', g') = (t, g)
    · rw [if_pos hk] at hsome
      exact absurd rfl hsome
    · rw [if_neg hk] at hsome
      obtain ⟨o, ho, rfl, rfl⟩ := h.named t' g' hsome
      exact ⟨o, (mem_eraseKey hkeys o).mpr ⟨ho, hk⟩, rfl, rfl⟩

/-- The new manifest is in its place. -/
theorem Steady.removed (h : Steady S files (some (σ, c)) vals) (hgen : c.generation ≠ uint32Max)
    (hmore : 1 < c.objects.length) :
    Steady S (Function.update files (L.manifestFid id (1 - σ))
      (some (.manifest .primary (removed c t g)))) (some (1 - σ, removed c t g))
      (dropValue vals t g) := by
  obtain ⟨hl, -⟩ := h
  refine ⟨hl.removed hgen hmore, .inr ⟨c, ?_, hl.wf, Nat.lt_succ_self _⟩⟩
  have hσ := hl.slot
  have hback : 1 - (1 - σ) = σ := by omega
  rw [hback, Function.update_of_ne (S.manifest_ne_other hσ)]
  exact hl.manifest

theorem Steady.alone (h : Steady S files (some (σ, c)) vals) :
    Steady S (Function.update files (L.manifestFid id (1 - σ)) none) (some (σ, c)) vals :=
  ⟨h.1.update_other none, .inl (Function.update_self _ _ _)⟩

theorem withoutObject_eq (h : WellFormed S c) {o : Descriptor} (ho : o ∈ c.objects)
    (hgen : c.generation ≠ uint32Max) (hmore : 1 < c.objects.length) :
    withoutObject c o.objectType o.objectTag = .ok (removed c o.objectType o.objectTag) := by
  have hok : ¬ (c.generation = uint32Max ∨ c.objects.length ≤ 1 ∨ c.extensionSize ≠ 0 ∨
      o.extensionSize ≠ 0) := by
    rintro (hlast | hfew | hext | hext)
    · exact hgen hlast
    · omega
    · exact hext h.extension
    · exact hext (h.described o ho).extension
  simp only [withoutObject, h.find_eq ho, if_neg hok]
  rfl

variable {f : Faults} {m : StoreMachine}

/-- The container as it was, or without the object. -/
def KeptOrRemoved (S : Scheme L id) (σ : Nat) (c : Manifest) (vals : Values) (t g : Nat)
    (files : Files) : Prop :=
  Holds S files (some (σ, c)) vals ∨
  Holds S files (some (1 - σ, removed c t g)) (dropValue vals t g)

/-- file_object_container_remove: an error or a power loss finds the container as it was or without
the object. -/
theorem wp_remove (legacy : Bool) (hview : Steady S m.view (some (σ, c)) vals)
    (hflash : Steady S m.flash (some (σ, c)) vals) {o : Descriptor} (ho : o ∈ c.objects)
    (hgen : c.generation ≠ uint32Max) (hmore : 1 < c.objects.length) :
    wp f (remove L id o.objectType o.objectTag legacy)
      (fun _ n => Switched S (some (1 - σ, removed c o.objectType o.objectTag))
          (dropValue vals o.objectType o.objectTag) m.log n ∧
        (¬ f.silent → n.view (L.manifestFid id σ) = none))
      (fun _ n => f.noticed ∧ KeptOrRemoved S σ c vals o.objectType o.objectTag n.view ∧
        KeptOrRemoved S σ c vals o.objectType o.objectTag n.flash)
      (fun n => KeptOrRemoved S σ c vals o.objectType o.objectTag n.flash) m := by
  have hσ := hview.1.slot
  have hback : 1 - (1 - σ) = σ := by omega
  obtain ⟨candidates, hload, hcur, hother⟩ := hview.1.loads hview.holds.2 legacy
  have hselect : selectValid L m.view id ⟨candidates, .primary, σ⟩ = .ok (σ, c) := by
    simp only [selectValid, hcur, hview.1.validates]
  simp only [remove, bind_eq, wp_bind, wp_consult, hload, wp_liftCheck, hselect,
    withoutObject_eq hview.1.wf ho hgen hmore]
  have hold := hflash.holds
  have hnew := hview.removed (t := o.objectType) (g := o.objectTag) hgen hmore
  apply wp_writeManifest (hview.1.wf.removed hgen hmore)
  · exact fun n hn => .inl (hn ▸ hold)
  · -- the shorter manifest is durable
    have hswitched : Switched S (some (1 - σ, removed c o.objectType o.objectTag))
        (dropValue vals o.objectType o.objectTag) m.log
        (m.write (L.manifestFid id (1 - σ))
          (some (.manifest .primary (removed c o.objectType o.objectTag)))).sync :=
      ⟨hnew, hnew, rfl⟩
    have hcand : ∀ s c', s < 2 → candidates s = some c' → ∀ o ∈ c'.objects,
        ∃ k, L.recordFid id o = .ok k := by
      intro s c' hs hc' p hp
      by_cases he : s = σ
      · subst he
        obtain rfl := Option.some.inj (hcur.symm.trans hc')
        exact ⟨_, (hview.1.wf.described p hp).recordFid⟩
      · have hs' : s = 1 - σ := by omega
        exact ⟨_, ((hother c' (hs' ▸ hc')).described p hp).recordFid⟩
    have hretire := wp_retire (f := f) (R := fun _ n => f.noticed ∧
        KeptOrRemoved S σ c vals o.objectType o.objectTag n.view ∧
        KeptOrRemoved S σ c vals o.objectType o.objectTag n.flash) hswitched hcand
      (.inl (by rw [hback, hcur]; rfl))
    rw [hback] at hretire
    exact wp_mono hretire (fun _ _ hn => hn) (fun _ _ hn => hn) (fun _ hn => .inr hn.2.1.holds)
  · intro hf e
    refine ⟨⟨hf, .inl hview.holds, .inl hold⟩, ⟨hf, .inl ?_, .inl hold⟩,
      ⟨hf, .inr hnew.holds, .inl hold⟩, ⟨hf, .inr hnew.holds, .inr hnew.holds⟩⟩
    exact hview.alone.holds

theorem Settled.remove (h : Settled S m (some (σ, c)) vals) (legacy : Bool) {o : Descriptor}
    (ho : o ∈ c.objects) (hgen : c.generation ≠ uint32Max) (hmore : 1 < c.objects.length) :
    calm (remove L id o.objectType o.objectTag legacy)
      (fun _ n => Settled S n (some (1 - σ, removed c o.objectType o.objectTag))
        (dropValue vals o.objectType o.objectTag)) (fun _ _ => False) m := by
  have hσ := h.1.1.slot
  have hback : 1 - (1 - σ) = σ := by omega
  apply calm_mono (calm_of_wp (wp_remove (f := Faults.none) legacy h.1 h.2.1 ho hgen hmore))
  · rintro _ n ⟨⟨hview, hflash, -⟩, hother⟩
    refine ⟨hview, hflash, ?_⟩
    show n.view (L.manifestFid id (1 - (1 - σ))) = none
    rw [hback]
    exact hother fun hs => hs
  · exact fun _ _ hn => hn.1.elim

end Removal

section Deletion

variable {L : Layout} {id : Nat} {S : Scheme L id} {σ : Nat} {c : Manifest} {vals : Values}
  {m : StoreMachine}

theorem calm_removeFile (k : Nat) : calm (removeFile k)
    (fun _ n => n.view = Function.update m.view k none ∧ n.flash = m.flash) (fun _ _ => False) m := by
  cases hk : m.view k with
  | none =>
    simp only [removeFile, bind_eq, pure_eq, calm_bind, calm_consult, hk, Option.isSome_none,
      Bool.false_eq_true, if_false, calm_done, if_true]
    exact ⟨by rw [← hk, Function.update_eq_self], trivial⟩
  | some content =>
    simp only [removeFile, bind_eq, pure_eq, calm_bind, calm_consult, hk, Option.isSome_some,
      if_true, calm_putFile, calm_done]
    exact ⟨rfl, rfl⟩

theorem calm_removeRecords {os : List Descriptor}
    (hos : ∀ o ∈ os, L.recordFid id o = .ok o.recordId) :
    calm (forEach (fun o => (liftCheck (L.recordFid id o)).bind removeFile) os)
      (fun _ n => (∀ k, (∀ o ∈ os, k ≠ o.recordId) → n.view k = m.view k) ∧ n.flash = m.flash)
      (fun _ _ => False) m := by
  induction os generalizing m with
  | nil => exact ⟨fun _ _ => rfl, rfl⟩
  | cons o os ih =>
    simp only [forEach, bind_eq, calm_bind, hos o List.mem_cons_self, calm_liftCheck]
    apply calm_mono (calm_removeFile o.recordId)
    · rintro _ n ⟨hview, hflash⟩
      apply calm_mono (ih fun p hp => hos p (List.mem_cons_of_mem _ hp))
      · rintro _ n' ⟨hview', hflash'⟩
        refine ⟨fun k hk => ?_, hflash'.trans hflash⟩
        rw [hview' k fun p hp => hk p (List.mem_cons_of_mem _ hp), hview,
          Function.update_of_ne (hk o List.mem_cons_self)]
      · exact fun _ _ hn => hn
    · exact fun _ _ hn => hn

theorem calm_deleteSlot {candidates : Nat → Option Manifest} {s : Nat} (hs : s < 2)
    (hc : ∀ c, candidates s = some c → WellFormed S c) :
    calm (deleteSlot L id candidates s)
      (fun _ n => n.view (L.manifestFid id s) = none ∧
        n.view (L.manifestFid id (1 - s)) = m.view (L.manifestFid id (1 - s)) ∧ n.flash = m.flash)
      (fun _ _ => False) m := by
  have hne := S.manifest_ne_other hs
  have hlast : ∀ n : StoreMachine,
      n.view (L.manifestFid id (1 - s)) = m.view (L.manifestFid id (1 - s)) → n.flash = m.flash →
      calm (removeFile (L.manifestFid id s)) (fun _ n => n.view (L.manifestFid id s) = none ∧
        n.view (L.manifestFid id (1 - s)) = m.view (L.manifestFid id (1 - s)) ∧ n.flash = m.flash)
      (fun _ _ => False) n := by
    intro n hview hflash
    apply calm_mono (calm_removeFile _)
    · rintro _ n' ⟨hview', hflash'⟩
      refine ⟨by rw [hview', Function.update_self], ?_, hflash'.trans hflash⟩
      rw [hview', Function.update_of_ne hne.symm, hview]
    · exact fun _ _ hn => hn
  unfold deleteSlot
  cases hcand : candidates s with
  | none => exact hlast m rfl rfl
  | some c =>
    have hwf := hc c hcand
    simp only [bind_eq, calm_bind]
    apply calm_mono (calm_removeRecords fun o ho => (hwf.described o ho).recordFid)
    · rintro _ n ⟨hview, hflash⟩
      refine hlast n (hview _ fun o ho => ?_) hflash
      exact ((hwf.described o ho).ne_manifest (by omega)).symm
    · exact fun _ _ hn => hn

/-- file_object_container_delete leaves no manifest. -/
theorem Steady.delete (h : Steady S m.view (some (σ, c)) vals) (legacy : Bool) {A : Files → Prop}
    (hdeactivate : ∀ n : StoreMachine, (∀ s < 2, n.view (L.manifestFid id s) = none) →
      calm (L.deactivate id)
        (fun _ n => (∀ s < 2, n.view (L.manifestFid id s) = none) ∧ A n.view) (fun _ _ => False) n) :
    calm (containerDelete L id legacy)
      (fun _ n => (∀ s < 2, n.view (L.manifestFid id s) = none) ∧ A n.view ∧ n.flash = n.view)
      (fun _ _ => False) m := by
  obtain ⟨candidates, hload, hcur, hother⟩ := h.1.loads h.holds.2 legacy
  have hσ := h.1.slot
  have hwf : ∀ s c', s < 2 → candidates s = some c' → WellFormed S c' := by
    intro s c' hs hc'
    by_cases he : s = σ
    · subst he
      exact Option.some.inj (hcur.symm.trans hc') ▸ h.1.wf
    · have hs' : s = 1 - σ := by omega
      exact hother c' (hs' ▸ hc')
  simp only [containerDelete, bind_eq, calm_bind, calm_consult, hload, calm_liftCheck]
  apply calm_mono (calm_deleteSlot (by decide) (hwf 0 · (by decide)))
  · rintro _ n ⟨hzero, -, -⟩
    apply calm_mono (calm_deleteSlot (by decide) (hwf 1 · (by decide)))
    · rintro _ n' ⟨hone, hkept, -⟩
      have hgone : ∀ s < 2, n'.view (L.manifestFid id s) = none := by
        intro s hs
        rcases Nat.le_one_iff_eq_zero_or_eq_one.mp (Nat.le_of_lt_succ hs) with rfl | rfl
        · exact hkept.trans hzero
        · exact hone
      apply calm_mono (hdeactivate n' hgone)
      · rintro _ n'' ⟨hgone', hA⟩
        simp only [calm_commitSync, if_true, pure_eq, calm_done]
        exact ⟨hgone', hA, rfl⟩
      · exact fun _ _ hn => hn
    · exact fun _ _ hn => hn
  · exact fun _ _ hn => hn

theorem Settled.delete (h : Settled S m (some (σ, c)) vals) (legacy : Bool)
    (hdeactivate : ∀ n : StoreMachine, (∀ s < 2, n.view (L.manifestFid id s) = none) →
      calm (L.deactivate id) (fun _ n => ∀ s < 2, n.view (L.manifestFid id s) = none)
        (fun _ _ => False) n) :
    calm (containerDelete L id legacy) (fun _ n => Settled S n none fun _ _ => none)
      (fun _ _ => False) m := by
  have hgone := h.1.delete (A := fun _ => True) legacy fun n hn =>
    calm_mono (hdeactivate n hn) (fun _ _ hn' => ⟨hn', trivial⟩) (fun _ _ hn' => hn')
  apply calm_mono hgone
  · rintro _ n ⟨hview, -, hflash⟩
    exact Settled.of_absent hview fun s hs => hflash ▸ hview s hs
  · exact fun _ _ hn => hn

/-- A live manifest one of whose records is gone loads as damaged. -/
theorem load_torn {files : Files} (h : Live S files σ c vals)
    (hother : files (L.manifestFid id (1 - σ)) = none) {o : Descriptor} (ho : o ∈ c.objects)
    (legacy : Bool) :
    load L (Function.update files o.recordId none) id legacy = .error .wrongData := by
  have hd := h.wf.described o ho
  have hσ := h.slot
  have hman : Function.update files o.recordId none (L.manifestFid id σ) =
      some (.manifest .primary c) := by
    rw [Function.update_of_ne (hd.ne_manifest hσ).symm]
    exact h.manifest
  have habsent : Function.update files o.recordId none (L.manifestFid id (1 - σ)) = none := by
    rw [Function.update_of_ne (hd.ne_manifest (by omega)).symm]
    exact hother
  have hmissing := checkRecord_missing hd (Function.update_self o.recordId none files)
  apply load_nothing legacy hσ
  · intro root s hs
    by_cases he : s = σ
    · subst he
      cases root with
      | primary =>
        rcases h.wf.parse_cases hman with ⟨-, hall⟩ | ⟨hp, -⟩
        · exact absurd (hall o ho) hmissing
        · exact ⟨_, hp, .inr (.inl rfl)⟩
      | legacy => exact ⟨_, h.wf.parse_legacy hman, .inr (.inr rfl)⟩
    · have hs' : s = 1 - σ := by omega
      subst hs'
      exact ⟨_, parseSlot_absent habsent, .inl rfl⟩
  · rw [stored_manifest hman]
    rfl

theorem mayEnd_deleteSlot {candidates : Nat → Option Manifest}
    {P : Outcome ObjErr Unit → StoreMachine → Prop} {next : Unit → Store Unit}
    (h : Live S m.view σ c vals) (hcand : candidates σ = some c)
    (hP : ∀ o ∈ c.objects, ∀ e, P (.fail e) (m.write o.recordId none)) :
    MayEnd ((deleteSlot L id candidates σ).bind next) P m := by
  cases hos : c.objects with
  | nil => exact absurd hos h.wf.nonempty
  | cons o os =>
    have ho : o ∈ c.objects := by
      rw [hos]
      exact List.mem_cons_self
    obtain ⟨d, hrec, -, -⟩ := h.records o ho
    refine ⟨[.refused true], ?_⟩
    simp only [deleteSlot, hcand, hos, forEach, bind_eq, Prog.bind, removeFile, consult, liftCheck,
      (h.wf.described o ho).recordFid, exec, hrec, Option.isSome_some, if_true, putFile,
      Bool.false_eq_true, if_false]
    exact hP o ho _

/-- A deletion may be cut after a record and before the manifest. -/
theorem Settled.delete_torn (h : Settled S m (some (σ, c)) vals) (legacy : Bool) :
    MayEnd (containerDelete L id legacy)
      (fun r n => r ≠ .lost ∧ load L n.view id legacy = .error .wrongData) m := by
  obtain ⟨candidates, hload, hcur, -⟩ := h.1.1.loads h.1.holds.2 legacy
  have hσ := h.1.1.slot
  have habsent : m.view (L.manifestFid id (1 - σ)) = none := h.2.2
  have htorn : ∀ o ∈ c.objects, ∀ e, (Outcome.fail e : Outcome ObjErr Unit) ≠ .lost ∧
      load L (m.write o.recordId none).view id legacy = .error .wrongData :=
    fun o ho e => ⟨(by rintro ⟨⟩), load_torn h.1.1 habsent ho legacy⟩
  simp only [containerDelete, bind_eq]
  apply mayEnd_bind
  simp only [wp_consult, hload, liftCheck, Prog.bind]
  rcases Nat.le_one_iff_eq_zero_or_eq_one.mp (Nat.le_of_lt_succ hσ) with rfl | rfl
  · exact mayEnd_deleteSlot h.1.1 hcur htorn
  · -- the other slot is empty: there is nothing to delete
    have hnone : candidates 0 = none := by
      have hslot := load_of_parse legacy (by decide) h.1.1.parses h.1.holds.2.outdone
      obtain ⟨candidates', hload', -, hother⟩ := hslot
      rw [hload] at hload'
      have hsame : candidates = candidates' := congrArg State.candidates (Except.ok.inj hload')
      rw [hsame]
      refine hother.trans ?_
      rw [parseSlot_absent habsent]
      rfl
    apply mayEnd_bind
    have hview : m.view (L.manifestFid id 0) = none := habsent
    simp only [deleteSlot, hnone, bind_eq, pure_eq, Prog.bind, removeFile, wp_bind, wp_consult, hview,
      Option.isSome_none, Bool.false_eq_true, if_false, wp_done, if_true]
    exact mayEnd_deleteSlot h.1.1 hcur htorn

end Deletion

section Edges

variable {L : Layout} {id : Nat} {S : Scheme L id} {m : StoreMachine} {w : Write}

theorem writes_single (hw : Accepted L w) : Writes L [w] := by
  refine ⟨List.cons_ne_nil _ _, ?_, fun v hv => List.mem_singleton.mp hv ▸ hw,
    List.nodup_singleton _⟩
  show 1 ≤ manifestMaxObjects
  decide

/-- The first update of a container may be cut where nothing loads. -/
theorem Settled.first_torn {vals : Values} (h : Settled S m none vals)
    (hroll : L.rollbackNewRecords = true) (hw : Accepted L w) (legacy validated : Bool) :
    MayEnd (Container.update L id [w] legacy validated)
      (fun r n => r ≠ .lost ∧ load L n.view id legacy = .error .wrongData) m := by
  have hws := writes_single hw
  have hroom : Room S none [w] := by
    show 1 ≤ manifestMaxObjects
    decide
  have hfits : ¬ (([w] : List Write) = [] ∨ manifestMaxObjects < [w].length) := by
    rintro (hn | hn)
    · exact hws.nonempty hn
    · exact absurd hws.count (Nat.not_le.mpr hn)
  have hunspent : Unspent none := trivial
  obtain ⟨candidates, hbase, -, -⟩ := h.1.holds.base legacy validated
  have hswitched := switched_new h.1 hunspent hws hroom
  have hmem := (h.1.nextOf_mem hws _).mpr (.inl ⟨w, List.mem_singleton.mpr rfl, rfl⟩)
  simp only [Container.update, if_neg hfits, bind_eq]
  apply mayEnd_bind
  simp only [wp_consult, hbase, liftCheck, Prog.bind, h.1.nextManifest hunspent]
  apply mayEnd_bind
  apply wp_writeAll h.1.target (h.1.generations hunspent) hws hroom (fun _ _ => trivial)
  · apply mayEnd_bind
    refine ⟨trivial, ?_, fun hf => hf.elim⟩
    -- the manifest is in place; the commit is refused
    set n := (stagedMachine S (targetSlotOf none) (startOf L id none) [w] m).sync with hn
    have hnv : n.view = stagedFiles S (targetSlotOf none) (startOf L id none) [w] m.view :=
      stagedMachine_view [w]
    have hwf := h.1.nextOf_wf hunspent hws hroom
    simp only [wp_done, Bool.true_eq_false, if_false, writeManifest]
    rw [show manifestBuild (sortObjects (stagedManifest S (targetSlotOf none) (startOf L id none)
      [w])) = .ok () from hwf.builds]
    simp only [bind_eq, Prog.bind_assoc]
    apply mayEnd_bind
    apply wp_replaceFile trivial trivial
    · dsimp only
      rw [Prog.bind_assoc]
      apply mayEnd_commit
      refine ⟨[], ?_⟩
      have hview : (n.write (L.manifestFid id (targetSlotOf none)) (some (.manifest .primary
          (sortObjects (stagedManifest S (targetSlotOf none) (startOf L id none) [w]))))).view =
          Function.update (stagedFiles S (targetSlotOf none) (startOf L id none) [w] m.view)
            (L.manifestFid id (targetSlotOf none)) (some (.manifest .primary (nextOf S none [w]))) := by
        rw [← hnv]
        rfl
      have hlive := hswitched.1
      rw [← hview] at hlive
      obtain ⟨d, hrec, -, -⟩ := hlive.records _ hmem
      have hrec : (n.write (L.manifestFid id (targetSlotOf none)) (some (.manifest .primary
          (sortObjects (stagedManifest S (targetSlotOf none) (startOf L id none) [w]))))).view
          (fidOf S (targetSlotOf none) w) = some _ := hrec
      have habsent : (n.write (L.manifestFid id (targetSlotOf none)) (some (.manifest .primary
          (sortObjects (stagedManifest S (targetSlotOf none) (startOf L id none) [w]))))).view
          (L.manifestFid id (1 - targetSlotOf none)) = none := by
        rw [hview]
        exact hswitched.first_alone rfl
      simp only [pure_eq, Prog.bind, Bool.false_eq_true, if_false, rollback, hroll, if_true, bind_eq,
        List.map_cons, List.map_nil, forEach, discardFile, consult, exec, hrec, Option.isSome_some]
      exact ⟨(by rintro ⟨⟩), load_torn hlive habsent hmem legacy⟩
    · exact fun hf => hf.elim
  · exact fun hf => hf.elim

variable {f : Faults} {current : Option (Nat × Manifest)} {vals : Values}

theorem Steady.full {files : Files} (h : Steady S files current vals)
    (hroom : ¬ Room S current [w]) :
    manifestMaxObjects ≤ (startOf L id current).objects.length ∧
      ∀ o ∈ (startOf L id current).objects, o.key ≠ w.key := by
  have hlen : (putObject (startOf L id current).objects (descriptorOf S (targetSlotOf current)
      (startOf L id current) w)).length > manifestMaxObjects := Nat.lt_of_not_le hroom
  rw [← List.length_map (f := Descriptor.key), putObject_keys] at hlen
  have hcount : (startOf L id current).objects.length ≤ manifestMaxObjects := by
    cases current with
    | none => exact Nat.zero_le _
    | some p => exact h.1.wf.count
  by_cases hmem : (descriptorOf S (targetSlotOf current) (startOf L id current) w).key ∈
      (startOf L id current).objects.map Descriptor.key
  · rw [if_pos hmem, List.length_map] at hlen
    exact absurd hcount (Nat.not_le.mpr hlen)
  · rw [if_neg hmem, List.length_append, List.length_map, List.length_singleton] at hlen
    refine ⟨Nat.le_of_lt_succ hlen, fun o ho hkey => hmem ?_⟩
    have hsame : (descriptorOf S (targetSlotOf current) (startOf L id current) w).key = o.key :=
      hkey.symm
    rw [hsame]
    exact List.mem_map_of_mem ho

theorem Settled.write_apart (h : Settled S m current vals) (hws : Writes L [w])
    (hapart : Apart S current [w]) (v : Option Content) :
    Settled S (m.write (fidOf S (targetSlotOf current) w) v) current vals := by
  refine ⟨h.1.staged hws hapart fun j hj => ?_, h.2.1, ?_⟩
  · exact Function.update_of_ne (hj w (List.mem_singleton.mpr rfl)) _ _
  · have hman := h.1.manifest_file hws (List.mem_singleton.mpr rfl) h.1.target
    exact (Function.update_of_ne hman _ _).trans h.2.2

theorem wp_rollback_apart {ks : List Nat} {e : ObjErr} (hws : Writes L [w])
    (hapart : Apart S current [w]) (hks : ∀ k ∈ ks, k = fidOf S (targetSlotOf current) w)
    (h : Settled S m current vals) :
    wp f ((rollback L ks).bind fun _ => Prog.fail e) (fun (_ : Unit) _ => False)
      (fun _ n => Settled S n current vals) (fun n => Steady S n.flash current vals) m := by
  rw [wp_bind]
  have hkeep := wp_confined (f := f) (p := rollback L ks) (m := m)
    (I := fun n => Settled S n current vals) (fun n k v hW hn => ?_) (fun n k hn => hn)
    (fun n hn => ⟨hn.1, hn.1, hn.2.2⟩) (fun n s _ hn => hn) (rollback_confined ks) h
  · exact wp_mono hkeep (fun _ _ hn => hn) (fun _ _ hn => hn) (fun _ hn => hn.2.1)
  · obtain ⟨hk, rfl⟩ := hW
    rw [hks k hk]
    exact hn.write_apart hws hapart none

/-- An update whose rollback takes the new records away. -/
theorem wp_update_full (legacy validated : Bool) (h : Settled S m current vals)
    (hu : Unspent current) (hw : Accepted L w) (hroom : ¬ Room S current [w]) :
    wp f (update L id [w] legacy validated) (fun _ _ => False)
      (fun _ n => Settled S n current vals) (fun n => Steady S n.flash current vals) m := by
  obtain ⟨hview, hflash, hempty⟩ := h
  have hws := writes_single hw
  obtain ⟨hfull, hnew⟩ := hview.full hroom
  have hapart : Apart S current [w] := by
    intro v hv o ho hkey
    rw [List.mem_singleton.mp hv] at hkey
    have ho : o ∈ (startOf L id current).objects := by
      rw [startOf_objects]
      exact ho
    exact absurd hkey (hnew o ho)
  have hfits : ¬ (([w] : List Write) = [] ∨ manifestMaxObjects < [w].length) := by
    rintro (hn | hn)
    · exact hws.nonempty hn
    · exact absurd hws.count (Nat.not_le.mpr hn)
  obtain ⟨candidates, hbase, -, -⟩ := hview.holds.base legacy validated
  have hgen := hview.generations hu
  have hfind : find (startOf L id current) w.objectType w.objectTag = none := by
    rw [find_key, List.find?_eq_none]
    intro o ho
    simpa using hnew o ho
  have hcheck : checkWrite L [] (startOf L id current) w =
      .ok (generationOf (startOf L id current) w) :=
    checkWrite_ok (S := S) (τ := targetSlotOf current) hw (fun _ hv => absurd hv List.not_mem_nil) hgen
  have hpos : 0 < generationOf (startOf L id current) w := by
    simp [generationOf, hfind]
  have hnone : (find (startOf L id current) w.objectType w.objectTag).isNone = true ∧
      manifestMaxObjects ≤ (startOf L id current).objects.length := ⟨by rw [hfind]; rfl, hfull⟩
  simp only [update, if_neg hfits, bind_eq, wp_bind, wp_consult, hbase, wp_liftCheck,
    hview.nextManifest hu, writeRecords, hcheck]
  refine @wp_writeRecord L id S _ _ f m _ _ w [] hw hview.target hpos _ ?_ ?_ ?_
  · exact fun n hn => hn ▸ hflash
  · simp only [if_pos hnone, pure_eq, wp_done]
    refine wp_rollback_apart hws hapart (fun k hk => ?_) ?_
    · simpa using hk
    · exact Settled.write_apart (m := m.record _) ⟨hview, hflash, hempty⟩ hws hapart _
  · intro hf e n hnf hnv
    simp only [pure_eq, wp_done]
    refine wp_rollback_apart hws hapart (fun k hk => absurd hk List.not_mem_nil) ⟨?_, ?_, ?_⟩
    · apply hview.staged hws hapart
      intro k hk
      exact hnv k (hk w (List.mem_singleton.mpr rfl))
    · exact hnf ▸ hflash
    · rw [hnv _ (hview.manifest_file hws (List.mem_singleton.mpr rfl) hview.target)]
      exact hempty

end Edges

end Container

end KeyWallet
