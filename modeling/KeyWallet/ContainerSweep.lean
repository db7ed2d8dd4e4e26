import KeyWallet.ContainerCrash

/-! The layouts clear away what an update leaves behind in one way: the manifest of the other slot,
and every record file that the new manifest does not refer to. Then, which files the functions of the
container store touch at all, and what an update leaves for certain. -/
namespace KeyWallet

open CrashProgram

namespace Container

section Sweep

variable {α : Type}

/-- The manifest of one slot, unless it is the new one. -/
def sweepManifest (manifest targetSlot s : Nat) : Store Unit :=
  if s ≠ targetSlot then discardFile manifest else pure ()

/-- The manifest and the record files of one slot. -/
def sweepSlot (manifest : Nat) (fid : α → Nat) (as : List α) (next : Manifest)
    (targetSlot s : Nat) : Store Unit := do
  sweepManifest manifest targetSlot s
  forEach (fun a => if references next (fid a) then pure () else discardFile (fid a)) as

/-- Both slots, and a commit that is not waited for. -/
def sweep (manifest : Nat → Nat) (fid : Nat → α → Nat) (as : List α) (next : Manifest)
    (targetSlot : Nat) : Store Unit := do
  sweepSlot (manifest 0) (fid 0) as next targetSlot 0
  sweepSlot (manifest 1) (fid 1) as next targetSlot 1
  commitLater

theorem sweepRecords_confined (fid : α → Nat) (as : List α) (next : Manifest) :
    Confined (fun k v => v = none ∧ references next k = false ∧ ∃ a ∈ as, k = fid a)
      (fun _ _ => True)
      (forEach (fun a => if references next (fid a) then pure () else discardFile (fid a)) as) := by
  apply forEach_confined
  intro a ha
  split
  · exact trivial
  · next href =>
    apply (discardFile_confined _).mono
    · rintro k v ⟨rfl, rfl⟩
      exact ⟨rfl, by simpa using href, a, ha, rfl⟩
    · exact fun _ _ h => h

theorem sweepRecords_total (fid : α → Nat) (as : List α) (next : Manifest) :
    Total (forEach (fun a => if references next (fid a) then pure () else discardFile (fid a)) as) := by
  apply forEach_total
  intro a
  split
  · exact trivial
  · exact discardFile_total _

theorem sweepSlot_confined (manifest : Nat) (fid : α → Nat) (as : List α) (next : Manifest)
    (τ s : Nat) :
    Confined (fun k v => v = none ∧ ((k = manifest ∧ s ≠ τ) ∨
        references next k = false ∧ ∃ a ∈ as, k = fid a))
      (fun _ _ => True) (sweepSlot manifest fid as next τ s) := by
  apply Confined.bind
  · unfold sweepManifest
    split
    · next hne =>
      apply (discardFile_confined _).mono
      · rintro k v ⟨rfl, rfl⟩
        exact ⟨rfl, .inl ⟨rfl, hne⟩⟩
      · exact fun _ _ h => h
    · exact trivial
  · intro _
    apply (sweepRecords_confined fid as next).mono
    · exact fun k v h => ⟨h.1, .inr h.2⟩
    · exact fun _ _ h => h

theorem sweepSlot_total (manifest : Nat) (fid : α → Nat) (as : List α) (next : Manifest)
    (τ s : Nat) : Total (sweepSlot manifest fid as next τ s) := by
  apply Total.bind
  · unfold sweepManifest
    split
    · exact discardFile_total _
    · exact trivial
  · exact fun _ => sweepRecords_total fid as next

variable {manifest : Nat → Nat} {fid : Nat → α → Nat} {as : List α} {next : Manifest} {τ : Nat}

theorem sweep_confined (hτ : τ < 2)
    (hfresh : ∀ s < 2, ∀ a ∈ as, ∀ s' < 2, fid s a ≠ manifest s') :
    Confined (fun k v => v = none ∧ (k = manifest (1 - τ) ∨
        references next k = false ∧ ∀ s < 2, k ≠ manifest s))
      (fun _ _ => True) (sweep manifest fid as next τ) := by
  have hslot : ∀ s < 2, Confined (fun k v => v = none ∧ (k = manifest (1 - τ) ∨
        references next k = false ∧ ∀ s < 2, k ≠ manifest s))
      (fun _ _ => True) (sweepSlot (manifest s) (fid s) as next τ s) := by
    intro s hs
    apply (sweepSlot_confined (manifest s) (fid s) as next τ s).mono
    · rintro k v ⟨rfl, ⟨rfl, hne⟩ | ⟨href, a, ha, rfl⟩⟩
      · have : s = 1 - τ := by omega
        subst this
        exact ⟨rfl, .inl rfl⟩
      · exact ⟨rfl, .inr ⟨href, fun s' hs' => hfresh s hs a ha s' hs'⟩⟩
    · exact fun _ _ h => h
  apply Confined.bind (hslot 0 (by decide))
  intro _
  apply Confined.bind (hslot 1 (by decide))
  exact fun _ _ => trivial

theorem sweep_total : Total (sweep manifest fid as next τ) := by
  apply Total.bind (sweepSlot_total _ _ _ _ _ _)
  intro _
  apply Total.bind (sweepSlot_total _ _ _ _ _ _)
  exact fun _ _ => trivial

theorem wp_stays_deleted {f : Faults} {W : Nat → Option Content → Prop} {p : Store Unit} {k : Nat}
    {m : StoreMachine} {R : ObjErr → StoreMachine → Prop} (hp : Confined W (fun _ _ => True) p)
    (ht : Total p) (hW : ∀ j v, W j v → v = none) (h : m.view k = none) :
    wp f p (fun _ n => n.view k = none) R (fun _ => True) m := by
  have hkeep := wp_confined (f := f) (I := fun n : StoreMachine => n.view k = none)
    (fun n j v hj hn => by
      rw [hW j v hj]
      show Function.update n.view j none k = none
      by_cases he : k = j
      · rw [he, Function.update_self]
      · rw [Function.update_of_ne he, hn])
    (fun _ _ hn => hn) (fun _ hn => hn) (fun _ _ _ hn => hn) hp h
  exact wp_total ht (wp_mono hkeep (fun _ _ hn => hn) (fun _ _ hn => hn) (fun _ _ => trivial))

/-- Without unnoticed refusals the old manifest is gone. -/
theorem sweep_clears {f : Faults} (hf : ¬ f.silent) (hτ : τ < 2) (m : StoreMachine) :
    wp f (sweep manifest fid as next τ) (fun _ n => n.view (manifest (1 - τ)) = none)
      (fun _ _ => True) (fun _ => True) m := by
  have hstays : ∀ s (n : StoreMachine), n.view (manifest (1 - τ)) = none →
      wp f (sweepSlot (manifest s) (fid s) as next τ s)
        (fun _ n => n.view (manifest (1 - τ)) = none) (fun _ _ => True) (fun _ => True) n := by
    intro s n hn
    exact wp_stays_deleted (sweepSlot_confined _ _ _ _ _ _) (sweepSlot_total _ _ _ _ _ _)
      (fun _ _ h => h.1) hn
  have hclears : ∀ n : StoreMachine, wp f (sweepSlot (manifest (1 - τ)) (fid (1 - τ)) as next τ (1 - τ))
      (fun _ n => n.view (manifest (1 - τ)) = none) (fun _ _ => True) (fun _ => True) n := by
    intro n
    have hne : 1 - τ ≠ τ := by omega
    simp only [sweepSlot, sweepManifest, if_pos hne, bind_eq, wp_bind]
    have hdiscard : wp f (discardFile (manifest (1 - τ)))
        (fun _ n => n.view (manifest (1 - τ)) = none) (fun _ _ => True) (fun _ => True) n := by
      cases h : n.view (manifest (1 - τ)) <;> simp [discardFile, h, hf]
    apply wp_mono hdiscard _ (fun _ _ h => h) (fun _ h => h)
    intro _ n' hn'
    exact wp_stays_deleted (sweepRecords_confined _ _ _) (sweepRecords_total _ _ _)
      (fun _ _ h => h.1) hn'
  have hslots : τ = 0 ∨ τ = 1 := by omega
  simp only [sweep, bind_eq, wp_bind]
  rcases hslots with rfl | rfl
  · -- the first part leaves the other manifest alone, the second deletes it
    apply wp_mono (wp_of_total (sweepSlot_total _ _ _ _ _ _) m) _ (fun _ _ h => trivial)
      (fun _ h => h)
    intro _ n _
    apply wp_mono (hclears n) _ (fun _ _ h => h) (fun _ h => h)
    intro _ n' hn'
    simp only [wp_commitLater]
    exact ⟨trivial, hn', fun _ => hn'⟩
  · apply wp_mono (hclears m) _ (fun _ _ h => h) (fun _ h => h)
    intro _ n hn
    apply wp_mono (hstays 1 n hn) _ (fun _ _ h => h) (fun _ h => h)
    intro _ n' hn'
    simp only [wp_commitLater]
    exact ⟨trivial, hn', fun _ => hn'⟩

end Sweep

/-! Writing a marker. -/

theorem replaceFile_confined (k : Nat) (c : Content) :
    Confined (fun j _ => j = k) (fun _ _ => True) (replaceFile k c) := by
  intro s v
  cases h : (v k).isSome
  · simp only [h, pure_eq, bind_eq, Prog.bind, Bool.false_eq_true, if_false, Bool.true_eq_false]
    exact ⟨rfl, fun _ => trivial⟩
  · simp only [h, pure_eq, bind_eq, Prog.bind, if_true]
    refine ⟨rfl, fun b => ?_⟩
    cases b
    · exact trivial
    · exact ⟨rfl, fun _ => trivial⟩

/-! What the functions of the container store touch. -/
section Footprint

variable {P : Nat → Prop} {L : Layout} {id : Nat}

theorem liftCheck_touches {α : Type} (r : Except ObjErr α) :
    Touches P (liftCheck r : Store α) := by
  cases r <;> exact trivial

theorem replaceFile_touches {k : Nat} (hk : P k) (c : Content) : Touches P (replaceFile k c) := by
  intro s v
  cases h : (v k).isSome
  · simp only [h, pure_eq, bind_eq, Prog.bind, Bool.false_eq_true, if_false, Bool.true_eq_false]
    exact ⟨hk, fun _ => trivial⟩
  · simp only [h, pure_eq, bind_eq, Prog.bind, if_true]
    refine ⟨hk, fun b => ?_⟩
    cases b
    · exact trivial
    · exact ⟨hk, fun _ => trivial⟩

theorem removeFile_touches {k : Nat} (hk : P k) : Touches P (removeFile k) := by
  intro s v
  cases h : (v k).isSome
  · simp only [h, pure_eq, bind_eq, Prog.bind, Bool.false_eq_true, if_false, if_true]
    exact trivial
  · simp only [h, pure_eq, bind_eq, Prog.bind, if_true]
    refine ⟨hk, fun b => ?_⟩
    cases b <;> exact trivial

theorem discardFile_touches {k : Nat} (hk : P k) : Touches P (discardFile k) := by
  apply (discardFile_confined k).touches
  rintro j v ⟨rfl, -⟩
  exact hk

theorem forEach_touches {α : Type} {g : α → Store Unit} {as : List α}
    (h : ∀ a ∈ as, Touches P (g a)) : Touches P (forEach g as) := by
  induction as with
  | nil => exact trivial
  | cons a as ih =>
    exact Touches.bind (h a List.mem_cons_self) fun _ => ih fun b hb => h b (List.mem_cons_of_mem _ hb)

theorem writeRecord_touches
    (halloc : ∀ s w r k, L.recordAllocate id s w = .ok (r, k) → P k) (s : Nat) (w : Write)
    (generation : Nat) (next : Manifest) (root : Root) :
    Touches P (writeRecord L id s w generation next root) := by
  unfold writeRecord
  split
  · exact trivial
  · next r k hk =>
    show Touches P (ite _ _ _)
    split_ifs
    · exact trivial
    · exact trivial
    · exact trivial
    · apply Touches.bind (replaceFile_touches (halloc s w r k hk) _)
      intro result
      cases result <;> exact trivial

theorem writeRecords_touches
    (halloc : ∀ s w r k, L.recordAllocate id s w = .ok (r, k) → P k) (s : Nat) (root : Root)
    (done ws : List Write) (fids : List Nat) (next : Manifest) :
    Touches P (writeRecords L id s root done ws fids next) := by
  induction ws generalizing done fids next with
  | nil => exact trivial
  | cons w ws ih =>
    unfold writeRecords
    split
    · exact trivial
    · apply Touches.bind (writeRecord_touches halloc s w _ next root)
      intro result
      cases result with
      | error e => exact trivial
      | ok p =>
        show Touches P (ite _ _ _)
        split_ifs
        · exact trivial
        · exact ih _ _ _

theorem writeManifest_touches {s : Nat} (hman : P (L.manifestFid id s)) (root : Root)
    (next : Manifest) : Touches P (writeManifest L id s root next) := by
  unfold writeManifest
  split
  · exact trivial
  · apply Touches.bind (replaceFile_touches hman _)
    intro result
    cases result with
    | error e => exact trivial
    | ok u => exact fun _ => trivial

/-- An update touches the manifests, the records it allocates and what the callbacks touch. -/
theorem update_touches (hman : ∀ s, P (L.manifestFid id s))
    (halloc : ∀ s w r k, L.recordAllocate id s w = .ok (r, k) → P k)
    (hactivate : Touches P (L.activate id))
    (hretire : ∀ candidates next s, Touches P (L.retire id candidates next s))
    (hroll : L.rollbackNewRecords = false) (ws : List Write) (legacy validated : Bool) :
    Touches P (update L id ws legacy validated) := by
  have hgiveUp : ∀ fids e, Touches P ((rollback L fids).bind fun _ => (Prog.fail e : Store Unit)) := by
    intro fids e
    simp only [rollback, hroll, Bool.false_eq_true, if_false, pure_eq]
    exact trivial
  unfold update
  split
  · exact trivial
  · intro s v
    apply Touches.bind (liftCheck_touches _)
    intro base
    apply Touches.bind (liftCheck_touches _)
    intro start
    apply Touches.bind (writeRecords_touches halloc _ _ _ _ _ _)
    rintro ⟨fids, result⟩
    cases result with
    | error e => exact hgiveUp fids e
    | ok next =>
      intro committed
      cases committed with
      | false => exact hgiveUp fids _
      | true =>
        apply Touches.bind (writeManifest_touches (hman _) _ _)
        intro result
        cases result with
        | error e => exact hgiveUp fids e
        | ok u =>
          apply Touches.bind hactivate
          exact fun _ => hretire _ _ _

theorem containerDelete_touches (hman : ∀ s, P (L.manifestFid id s))
    (hrecord : ∀ o k, L.recordFid id o = .ok k → P k)
    (hdeactivate : Touches P (L.deactivate id)) (legacy : Bool) :
    Touches P (containerDelete L id legacy) := by
  have hslot : ∀ candidates s, Touches P (deleteSlot L id candidates s) := by
    intro candidates s
    unfold deleteSlot
    cases candidates s with
    | none => exact removeFile_touches (hman s)
    | some m =>
      apply Touches.bind
      · apply forEach_touches
        intro o _
        cases ho : L.recordFid id o with
        | error e => exact trivial
        | ok k => exact removeFile_touches (hrecord o k ho)
      · exact fun _ => removeFile_touches (hman s)
  intro s v
  apply Touches.bind (liftCheck_touches _)
  intro st
  apply Touches.bind (hslot _ _)
  intro _
  apply Touches.bind (hslot _ _)
  intro _
  apply Touches.bind hdeactivate
  intro _ committed
  cases committed <;> exact trivial

end Footprint

/-! What an update leaves behind, whatever it starts from and whatever the storage does. -/
section Leaves

variable {L : Layout} {id : Nat} (S : Scheme L id)

/-- The record of the write is in its file, and the manifest refers to it. -/
structure Filed (τ : Nat) (next : Manifest) (files : Files) (w : Write) : Prop where
  accepted : Accepted L w
  record : ∃ r i, files (fidOf S τ w) = some (.record r i w.data) ∧
    i.objectType = w.objectType ∧ i.objectTag = w.objectTag
  object : ∃ o ∈ next.objects, o.key = w.key ∧ o.recordId = fidOf S τ w

variable {S} {τ : Nat} {next : Manifest} {f : Faults} {m : StoreMachine}

theorem wp_replaceFile_any (k : Nat) (c : Content) :
    wp f (replaceFile k c) (fun r n => r = .ok () → n.view k = some c ∧ ∀ j ≠ k, n.view j = m.view j)
      (fun _ _ => True) (fun _ => True) m := by
  have hput : ∀ n : StoreMachine, (∀ j ≠ k, n.view j = m.view j) →
      (n.write k (some c)).view k = some c ∧ ∀ j ≠ k, (n.write k (some c)).view j = m.view j := by
    intro n hn
    refine ⟨Function.update_self _ _ _, fun j hj => ?_⟩
    exact (Function.update_of_ne hj _ _).trans (hn j hj)
  have hclear : ∀ j ≠ k, (m.write k none).view j = m.view j :=
    fun j hj => Function.update_of_ne hj _ _
  cases h : (m.view k).isSome
  · simp only [replaceFile, bind_eq, wp_bind, wp_consult, h, Bool.false_eq_true, if_false, pure_eq,
      wp_done, Bool.true_eq_false, wp_putFile, if_true, true_and]
    exact ⟨fun _ => hput m fun _ _ => rfl, fun _ => ⟨by rintro ⟨⟩, by rintro ⟨⟩⟩⟩
  · simp only [replaceFile, bind_eq, wp_bind, wp_consult, h, if_true, pure_eq, wp_done,
      Bool.true_eq_false, if_false, wp_putFile, true_and]
    exact ⟨⟨fun _ => hput _ hclear, fun _ => ⟨by rintro ⟨⟩, by rintro ⟨⟩⟩⟩,
      fun _ => ⟨by rintro ⟨⟩, by rintro ⟨⟩⟩⟩

theorem wp_writeRecord_any (hτ : τ < 2) {w : Write} (hvalid : L.writeValid w = true)
    (generation : Nat) (root : Root) :
    wp f (writeRecord L id τ w generation next root)
      (fun r n => ∀ p, r = .ok p → Accepted L w ∧ p.1.key = w.key ∧ p.1.recordId = fidOf S τ w ∧
        (∃ i, n.view (fidOf S τ w) = some (.record root i w.data) ∧
          i.objectType = w.objectType ∧ i.objectTag = w.objectTag) ∧
        ∀ k ≠ fidOf S τ w, n.view k = m.view k)
      (fun _ _ => True) (fun _ => True) m := by
  unfold writeRecord
  split
  · rintro _ ⟨⟩
  · next recordId fid halloc =>
    show wp f (ite _ _ _) _ _ _ m
    split_ifs with hpolicy hsize hcore
    · rintro _ ⟨⟩
    · rintro _ ⟨⟩
    · rintro _ ⟨⟩
    · have haccepted : Accepted L w := by
        refine ⟨hvalid, by simpa using hpolicy, ?_, Nat.not_lt.mp hsize⟩
        obtain ⟨htype, hlast, -, -, hrest⟩ :=
          (descriptorCoreValid_iff _).mp (Bool.not_eq_false _ ▸ hcore)
        exact (descriptorCoreValid_iff _).mpr ⟨htype, hlast, Nat.one_ne_zero, Nat.one_ne_zero, hrest⟩
      obtain ⟨rfl, rfl⟩ := Prod.mk.inj (Except.ok.inj (halloc.symm.trans (S.allocate haccepted hτ)))
      simp only [bind_eq, wp_bind, wp_event]
      apply wp_mono (wp_replaceFile_any _ _) _ (fun _ _ h => h) (fun _ h => h)
      intro r n hr
      cases r with
      | error e => rintro _ ⟨⟩
      | ok u =>
        obtain ⟨hfile, hothers⟩ := hr rfl
        rintro p hp
        rw [← Except.ok.inj hp]
        exact ⟨haccepted, rfl, rfl, ⟨_, hfile, rfl, rfl⟩, hothers⟩

theorem Filed.later {files files' : Files} {w v : Write} (hτ : τ < 2) (h : Filed S τ next files w)
    (hv : Accepted L v) (hne : w.key ≠ v.key) {d : Descriptor} (hd : d.key = v.key)
    (hfiles : ∀ k ≠ fidOf S τ v, files' k = files k) :
    Filed S τ { next with objects := putObject next.objects d } files' w := by
  have hfid : fidOf S τ w ≠ fidOf S τ v := by
    intro he
    obtain ⟨-, ht, hg⟩ := S.fid_inj h.accepted hv hτ hτ he
    exact hne (Prod.ext ht hg)
  refine ⟨h.accepted, ?_, ?_⟩
  · rw [hfiles _ hfid]
    exact h.record
  · obtain ⟨o, ho, hkey, hid⟩ := h.object
    exact ⟨o, mem_putObject_other ho (by rw [hkey, hd]; exact hne), hkey, hid⟩

theorem wp_writeRecords_any (hτ : τ < 2) (root : Root) (done ws : List Write) (fids : List Nat)
    (hdone : ∀ w ∈ done, Filed S τ next m.view w) :
    wp f (writeRecords L id τ root done ws fids next)
      (fun r n => ∀ next', r.2 = .ok next' → ∀ w ∈ done ++ ws, Filed S τ next' n.view w)
      (fun _ _ => True) (fun _ => True) m := by
  induction ws generalizing done fids next m with
  | nil =>
    intro next' hnext w hw
    rw [List.append_nil] at hw
    exact Except.ok.inj hnext ▸ hdone w hw
  | cons w ws ih =>
    unfold writeRecords
    split
    · rintro _ ⟨⟩
    · next generation hcheck =>
      have hvalid : L.writeValid w = true := by
        unfold checkWrite at hcheck
        split at hcheck
        · exact absurd hcheck (by simp)
        · next hok =>
          push Not at hok
          simpa using hok.2.2.2
      have hnew : ∀ v ∈ done, v.key ≠ w.key := by
        intro v hv he
        unfold checkWrite at hcheck
        split at hcheck
        · exact absurd hcheck (by simp)
        · split at hcheck
          · exact absurd hcheck (by simp)
          · next hany =>
            apply hany
            exact List.any_eq_true.mpr
              ⟨v, hv, by simpa using ⟨congrArg Prod.fst he, congrArg Prod.snd he⟩⟩
      simp only [bind_eq, wp_bind]
      apply wp_mono (wp_writeRecord_any (S := S) hτ hvalid generation root) _ (fun _ _ h => h)
        (fun _ h => h)
      intro r n hr
      cases r with
      | error e => rintro _ ⟨⟩
      | ok p =>
        obtain ⟨haccepted, hkey, hid, ⟨i, hfile, ht, hg⟩, hothers⟩ := hr p rfl
        show wp f (ite _ _ _) _ _ _ n
        split_ifs
        · rintro _ ⟨⟩
        · have hfiled : ∀ v ∈ done ++ [w],
              Filed S τ { next with objects := putObject next.objects p.1 } n.view v := by
            intro v hv
            rcases List.mem_append.mp hv with hv | hv
            · exact (hdone v hv).later hτ haccepted (hnew v hv) hkey hothers
            · rw [List.mem_singleton.mp hv]
              exact ⟨haccepted, ⟨root, i, hfile, ht, hg⟩,
                p.1, mem_putObject_self _ _, hkey, hid⟩
          apply wp_mono (ih (done ++ [w]) (fids ++ [p.2]) hfiled) _ (fun _ _ h => h) (fun _ h => h)
          intro r' n' hall next' hnext v hv
          exact hall next' hnext v (by simpa using hv)

theorem Filed.frame {files files' : Files} {w : Write} (h : Filed S τ next files w)
    (hfile : files' (fidOf S τ w) = files (fidOf S τ w)) : Filed S τ next files' w :=
  ⟨h.accepted, hfile ▸ h.record, h.object⟩

theorem Filed.references {files : Files} {w : Write} (h : Filed S τ next files w) :
    references next (fidOf S τ w) = true := by
  obtain ⟨o, ho, -, hid⟩ := h.object
  exact List.any_eq_true.mpr ⟨o, ho, by simpa using hid⟩

theorem Filed.sorted {files : Files} {w : Write} (h : Filed S τ next files w) :
    Filed S τ (sortObjects next) files w := by
  obtain ⟨o, ho, hkey, hid⟩ := h.object
  exact ⟨h.accepted, h.record, o, (sortObjects_perm next).mem_iff.mpr ho, hkey, hid⟩

variable (S) in
/-- The container files hold the record of the write, under a manifest that refers to it. -/
def Stays (w : Write) (files : Files) : Prop :=
  ∃ τ < 2, ∃ root next, files (L.manifestFid id τ) = some (.manifest root next) ∧
    Filed S τ next files w

theorem wp_writeManifest_any (s : Nat) (root : Root) (next : Manifest) :
    wp f (writeManifest L id s root next)
      (fun r n => r = .ok () → n.view (L.manifestFid id s) = some (.manifest root next) ∧
        ∀ k ≠ L.manifestFid id s, n.view k = m.view k)
      (fun _ _ => True) (fun _ => True) m := by
  unfold writeManifest
  split
  · rintro ⟨⟩
  · simp only [bind_eq, wp_bind]
    apply wp_mono (wp_replaceFile_any _ _) _ (fun _ _ h => h) (fun _ h => h)
    intro r n hr
    cases r with
    | error e => rintro ⟨⟩
    | ok u =>
      simp only [wp_bind, wp_commitSync, pure_eq, wp_done, true_and]
      exact ⟨fun _ => hr rfl, fun _ => ⟨by rintro ⟨⟩, by rintro ⟨⟩⟩⟩

variable (S) in
/-- The new manifest is in place, with all its records. -/
def Placed (τ : Nat) (root : Root) (next : Manifest) (ws : List Write) (files : Files) : Prop :=
  files (L.manifestFid id τ) = some (.manifest root next) ∧ ∀ w ∈ ws, Filed S τ next files w

theorem Placed.write {root : Root} {ws : List Write} {files : Files} {k : Nat}
    (h : Placed S τ root next ws files) (hman : k ≠ L.manifestFid id τ)
    (hrecords : ∀ w ∈ ws, Accepted L w → k = fidOf S τ w → references next k = false)
    (v : Option Content) : Placed S τ root next ws (Function.update files k v) := by
  refine ⟨(Function.update_of_ne hman.symm _ _).trans h.1, fun w hw => (h.2 w hw).frame ?_⟩
  apply Function.update_of_ne
  intro he
  have hfalse := hrecords w hw (h.2 w hw).accepted he.symm
  rw [← he, (h.2 w hw).references] at hfalse
  exact absurd hfalse (by decide)

theorem wp_activate_any {root : Root} {ws : List Write} (hτ : τ < 2)
    (h : Placed S τ root next ws m.view) :
    wp f (L.activate id) (fun _ n => Placed S τ root next ws n.view)
      (fun _ n => Placed S τ root next ws n.view) (fun n => Placed S τ root next ws n.view) m := by
  apply wp_confined (I := fun n : StoreMachine => Placed S τ root next ws n.view) _ (fun _ _ hn => hn)
    (fun _ hn => hn) (fun _ _ _ hn => hn) S.activate_confined h
  intro n k v hk hn
  exact hn.write (hk.1 τ hτ) (fun w _ hw he => absurd he (hk.2 w τ hw hτ)) v

theorem wp_retire_any {root : Root} {ws : List Write} {candidates : Nat → Option Manifest} (hτ : τ < 2)
    (h : Placed S τ root next ws m.view) :
    wp f (L.retire id candidates next τ) (fun _ n => Placed S τ root next ws n.view)
      (fun _ n => Placed S τ root next ws n.view) (fun n => Placed S τ root next ws n.view) m := by
  apply wp_confined (I := fun n : StoreMachine => Placed S τ root next ws n.view) _ (fun _ _ hn => hn)
    (fun _ hn => hn) (fun _ _ _ hn => hn) (S.retire_confined hτ) h
  rintro n k v ⟨-, rfl | ⟨href, hman⟩⟩ hn
  · apply hn.write (S.manifest_ne_other hτ).symm
    intro w _ hw he
    exact absurd he (S.manifest_ne_fid hw (by omega) hτ)
  · exact hn.write (hman τ hτ) (fun _ _ _ _ => href) v

theorem wp_update_stays (ws : List Write) (legacy validated : Bool) :
    wp f (update L id ws legacy validated) (fun _ n => ∀ w ∈ ws, Stays S w n.view)
      (fun _ _ => True) (fun _ => True) m := by
  have hgiveUp : ∀ fids e (n : StoreMachine), wp f ((rollback L fids).bind fun _ => Prog.fail e)
      (fun (_ : Unit) n => ∀ w ∈ ws, Stays S w n.view) (fun _ _ => True) (fun _ => True) n := by
    intro fids e n
    rw [wp_bind]
    exact wp_mono (wp_trivial _ n) (fun _ _ _ => trivial) (fun _ _ h => h) (fun _ h => h)
  unfold update
  split
  · exact trivial
  · simp only [bind_eq, wp_bind, wp_consult]
    cases baseOf L m.view id legacy validated with
    | error e => exact trivial
    | ok base =>
      simp only [wp_liftCheck]
      cases nextManifest L id base.current with
      | error e => exact trivial
      | ok start =>
        simp only [wp_liftCheck]
        have hτ : targetSlotOf base.current < 2 := by
          unfold targetSlotOf
          split <;> omega
        apply wp_mono (wp_writeRecords_any (S := S) hτ base.root [] ws [] (fun _ h => absurd h List.not_mem_nil)) _
          (fun _ _ h => h) (fun _ h => h)
        rintro ⟨fids, r⟩ n hn
        cases r with
        | error e => exact hgiveUp fids e n
        | ok next =>
          have hfiled : ∀ w ∈ ws, Filed S (targetSlotOf base.current) (sortObjects next) n.view w :=
            fun w hw => (hn next rfl w (by simpa using hw)).sorted
          rw [wp_bind, wp_commitSync]
          refine ⟨trivial, ?_, fun _ => ⟨hgiveUp fids _ n, hgiveUp fids _ n.sync⟩⟩
          rw [if_neg (by decide), wp_bind]
          apply wp_mono (wp_writeManifest_any (targetSlotOf base.current) base.root (sortObjects next)) _
            (fun _ _ h => h) (fun _ h => h)
          intro r n' hr
          cases r with
          | error e => exact hgiveUp fids e n'
          | ok u =>
            obtain ⟨hman, hothers⟩ := hr rfl
            have hplaced : Placed S (targetSlotOf base.current) base.root (sortObjects next) ws
                n'.view := by
              refine ⟨hman, fun w hw => (hfiled w hw).frame ?_⟩
              exact hothers _ (S.manifest_ne_fid (hfiled w hw).accepted hτ hτ).symm
            rw [wp_bind]
            apply wp_mono (wp_activate_any hτ hplaced) _ (fun _ _ _ => trivial) (fun _ _ => trivial)
            intro _ n'' hn''
            apply wp_mono (wp_retire_any hτ hn'') _ (fun _ _ _ => trivial) (fun _ _ => trivial)
            exact fun _ _ h w hw => ⟨_, hτ, _, _, h.1, h.2 w hw⟩

end Leaves
end Container

end KeyWallet
