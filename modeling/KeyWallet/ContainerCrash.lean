import KeyWallet.ContainerUpdate

/-! The whole update, from the first record to the retired files. -/
namespace KeyWallet

open CrashProgram

namespace Container

section Phases

variable {L : Layout} {id : Nat} (S : Scheme L id) (current : Option (Nat × Manifest))
  (vals : Values) (ws : List Write)

/-- The slot and the manifest after the update. -/
def updated : Option (Nat × Manifest) := some (targetSlotOf current, nextOf S current ws)

/-- The values before the update or those after it. -/
def OldOrNew (files : Files) : Prop :=
  Holds S files current vals ∨ Holds S files (updated S current ws) (putValues vals ws)

/-- The old manifest is still good, whatever became of the new records. -/
def Fallback (files : Files) : Prop :=
  ∃ σ m, current = some (σ, m) ∧ Live S files σ m vals ∧
    (Superseded S files σ m ∨
      (files (L.manifestFid id (targetSlotOf current)) =
          some (.manifest .primary (nextOf S current ws)) ∧
        ∀ w ∈ ws, files (fidOf S (targetSlotOf current) w) = none ∨
          files (fidOf S (targetSlotOf current) w) =
            some (recordOf S (targetSlotOf current) (startOf L id current) w)))

/-- What holds of the files at every point before the old files are retired. -/
def InUpdate (files : Files) : Prop :=
  (Steady S files current vals ∨ Steady S files (updated S current ws) (putValues vals ws)) ∧
  (current.isSome → Fallback S current vals ws files)

/-- The update overwrites nothing that it may have to fall back on. -/
def Safe : Prop :=
  Apart S current ws ∧ (L.rollbackNewRecords = true → current.isSome = true)

variable {S current vals ws} {files files' : Files}

theorem Steady.inUpdate (h : Steady S files current vals) : InUpdate S current vals ws files := by
  refine ⟨.inl h, fun hsome => ?_⟩
  match current, h with
  | some (σ, m), ⟨hl, hs⟩ => exact ⟨σ, m, rfl, hl, .inl hs⟩

theorem InUpdate.oldOrNew (h : InUpdate S current vals ws files) : OldOrNew S current vals ws files :=
  h.1.imp Steady.holds Steady.holds

variable {files₀ : Files} (h₀ : Steady S files₀ current vals) (hu : Unspent current)
  (hws : Writes L ws) (hroom : Room S current ws)

include h₀ hws in
theorem staged_old (hapart : Apart S current ws) :
    Steady S (stagedFiles S (targetSlotOf current) (startOf L id current) ws files₀) current vals :=
  h₀.staged hws hapart fun _ hk => stagedFiles_other hk

include h₀ hws in
theorem cleared_old (hapart : Apart S current ws) :
    Steady S (Function.update (stagedFiles S (targetSlotOf current) (startOf L id current) ws files₀)
      (L.manifestFid id (targetSlotOf current)) none) current vals := by
  have hstaged := staged_old h₀ hws hapart
  match current, h₀, hstaged with
  | none, _, ⟨habsent, hvals⟩ =>
    refine ⟨fun s hs => ?_, hvals⟩
    by_cases he : L.manifestFid id s = L.manifestFid id (targetSlotOf none)
    · rw [he, Function.update_self]
    · rw [Function.update_of_ne he, habsent s hs]
  | some (σ, m), h₀, ⟨hl, hs⟩ => exact ⟨hl.update_other none, .inl (Function.update_self _ _ _)⟩

include h₀ hu hws hroom in
/-- The new manifest is in its place. -/
theorem switched_new :
    Steady S (Function.update (stagedFiles S (targetSlotOf current) (startOf L id current) ws files₀)
      (L.manifestFid id (targetSlotOf current)) (some (.manifest .primary (nextOf S current ws))))
      (updated S current ws) (putValues vals ws) := by
  have hτ := h₀.target
  have hother : L.manifestFid id (1 - targetSlotOf current) ≠
      L.manifestFid id (targetSlotOf current) := (S.manifest_ne_other hτ).symm
  refine ⟨h₀.live_next hu hws hroom ?_ ?_ ?_, h₀.superseded_next ?_⟩
  · exact Function.update_self _ _ _
  · intro w hw
    rw [Function.update_of_ne (h₀.manifest_file hws hw hτ).symm]
    exact stagedFiles_written hτ hws.accepted hws.distinct hw
  · intro o ho hne
    obtain ⟨⟨g, -, hd⟩, -⟩ := h₀.object ho
    rw [Function.update_of_ne (hd.ne_manifest hτ)]
    exact stagedFiles_other fun w hw => h₀.kept_file hws ho hw (hne w hw)
  · rw [Function.update_of_ne hother]
    exact stagedFiles_other fun w hw => h₀.manifest_file hws hw (by omega)

include h₀ hu hws hroom in
theorem switched_inUpdate (hapart : Apart S current ws) : InUpdate S current vals ws
    (Function.update (stagedFiles S (targetSlotOf current) (startOf L id current) ws files₀)
      (L.manifestFid id (targetSlotOf current))
      (some (.manifest .primary (nextOf S current ws)))) := by
  refine ⟨.inr (switched_new h₀ hu hws hroom), fun hsome => ?_⟩
  match current, h₀, staged_old h₀ hws hapart with
  | some (σ, m), h₀, ⟨hl, hs⟩ =>
    have hτ := h₀.target
    refine ⟨σ, m, rfl, hl.update_other _, .inr ⟨Function.update_self _ _ _, ?_⟩⟩
    intro w hw
    rw [Function.update_of_ne (h₀.manifest_file hws hw hτ).symm]
    exact .inr (stagedFiles_written hτ hws.accepted hws.distinct hw)

theorem checkRecord_missing {g : Nat} {o : Descriptor} (h : Described S g o)
    (hnone : files o.recordId = none) : checkRecord L files id o ≠ .ok () := by
  simp only [checkRecord, h.valid, h.recordFid, Bool.true_eq_false, if_false, stored_none hnone]
  rintro ⟨⟩

include hu hws hroom in
theorem Fallback.oldOrNew (h : Fallback S current vals ws files) :
    OldOrNew S current vals ws files := by
  obtain ⟨σ, m, rfl, hl, hs | ⟨hm, hrecs⟩⟩ := h
  · exact .inl (Steady.holds ⟨hl, hs⟩)
  · -- without the new manifest the container is as before the update
    have hτ : L.manifestFid id (1 - σ) = L.manifestFid id (targetSlotOf (some (σ, m))) := rfl
    have hold : Steady S (Function.update files (L.manifestFid id (1 - σ)) none) (some (σ, m)) vals :=
      ⟨hl.update_other none, .inl (Function.update_self _ _ _)⟩
    have hwf := hold.nextOf_wf hu hws hroom
    by_cases hall : ∀ w ∈ ws, files (fidOf S (targetSlotOf (some (σ, m))) w) ≠ none
    · refine .inr (Steady.holds ⟨?_, ?_⟩)
      · apply hold.live_next hu hws hroom hm
        · intro w hw
          exact (hrecs w hw).resolve_left (hall w hw)
        · intro o ho _
          obtain ⟨⟨g, -, hd⟩, -⟩ := hold.object ho
          rw [Function.update_of_ne (hd.ne_manifest (by omega))]
      · apply hold.superseded_next
        rw [hold.slot_eq, Function.update_of_ne (S.manifest_ne_other hl.slot)]
    · push Not at hall
      obtain ⟨w, hw, hnone⟩ := hall
      have hmem := (hold.nextOf_mem hws _).mpr (.inl ⟨w, hw, rfl⟩)
      refine .inl ⟨hl, .inr ⟨nextOf S (some (σ, m)) ws, hm, hwf, .inr ⟨_, hmem, ?_⟩⟩⟩
      exact checkRecord_missing (hwf.described _ hmem) hnone

theorem Fallback.discard (h : Fallback S current vals ws files) (hws : Writes L ws)
    (hapart : Apart S current ws) {w : Write} (hw : w ∈ ws) :
    Fallback S current vals ws
      (Function.update files (fidOf S (targetSlotOf current) w) none) := by
  obtain ⟨σ, m, rfl, hl, hother⟩ := h
  have hold : Steady S (Function.update files (L.manifestFid id (1 - σ)) none) (some (σ, m)) vals :=
    ⟨hl.update_other none, .inl (Function.update_self _ _ _)⟩
  have hne : ∀ s < 2, L.manifestFid id s ≠ fidOf S (targetSlotOf (some (σ, m))) w :=
    fun s hs => hold.manifest_file hws hw hs
  refine ⟨σ, m, rfl, ?_, ?_⟩
  · apply hl.congr
    · exact Function.update_of_ne (hne σ hl.slot) _ _
    · intro o ho
      apply Function.update_of_ne
      by_cases hkey : o.key = w.key
      · exact hapart w hw o ho hkey
      · exact hold.kept_file hws ho hw hkey
  · rcases hother with hs | ⟨hm, hrecs⟩
    · left
      unfold Superseded
      rw [Function.update_of_ne (hne (1 - σ) (by omega))]
      exact hs
    · right
      refine ⟨?_, fun v hv => ?_⟩
      · rw [Function.update_of_ne (hne _ hold.target), hm]
      · by_cases he : fidOf S (targetSlotOf (some (σ, m))) v = fidOf S (targetSlotOf (some (σ, m))) w
        · rw [he, Function.update_self]
          exact .inl rfl
        · rw [Function.update_of_ne he]
          exact hrecs v hv

/-! The parts of the program. -/

theorem discardFile_confined (k : Nat) :
    Confined (fun j v => j = k ∧ v = none) (fun _ _ => True) (discardFile k) := by
  intro s v
  cases h : (v k).isSome
  · simp only [h, pure_eq, Prog.bind, Bool.false_eq_true, if_false]
    exact trivial
  · simp only [h, pure_eq, Prog.bind, if_true]
    exact ⟨⟨rfl, rfl⟩, trivial⟩

theorem forEach_confined {α : Type} {W : Nat → Option Content → Prop} {U : Unit → Unit → Prop}
    {g : α → Store Unit} {as : List α} (h : ∀ a ∈ as, Confined W U (g a)) :
    Confined W U (forEach g as) := by
  induction as with
  | nil => exact trivial
  | cons a as ih =>
    exact Confined.bind (h a List.mem_cons_self) fun _ => ih fun b hb => h b (List.mem_cons_of_mem _ hb)

theorem discardFile_total (k : Nat) : Total (discardFile k) := by
  intro s v
  cases h : (v k).isSome
  · simp only [h, pure_eq, Prog.bind, Bool.false_eq_true, if_false]
    exact trivial
  · simp only [h, pure_eq, Prog.bind, if_true]
    exact trivial

theorem forEach_total {α : Type} {g : α → Store Unit} (h : ∀ a, Total (g a)) (as : List α) :
    Total (forEach g as) := by
  induction as with
  | nil => exact trivial
  | cons a as ih => exact Total.bind (h a) fun _ => ih

theorem rollback_confined (ks : List Nat) :
    Confined (fun k v => k ∈ ks ∧ v = none) (fun _ _ => True) (rollback L ks) := by
  unfold rollback
  split
  · apply Confined.bind
    · apply forEach_confined
      intro k hk
      apply (discardFile_confined k).mono
      · rintro j v ⟨rfl, hv⟩
        exact ⟨hk, hv⟩
      · exact fun _ _ h => h
    · exact fun _ _ => trivial
  · exact trivial

theorem rollback_total (ks : List Nat) : Total (rollback L ks) := by
  unfold rollback
  split
  · exact Total.bind (forEach_total discardFile_total ks) fun _ _ => trivial
  · exact trivial

variable {f : Faults} {m : StoreMachine} {ks : List Nat}

include hu hws hroom in
theorem wp_rollback {R : ObjErr → StoreMachine → Prop} (hsafe : Safe S current ws)
    (hks : ∀ k ∈ ks, ∃ w ∈ ws, k = fidOf S (targetSlotOf current) w)
    (hview : InUpdate S current vals ws m.view) (hflash : InUpdate S current vals ws m.flash) :
    wp f (rollback L ks)
      (fun _ n => OldOrNew S current vals ws n.view ∧ OldOrNew S current vals ws n.flash) R
      (fun n => OldOrNew S current vals ws n.flash) m := by
  by_cases hroll : L.rollbackNewRecords = true
  · have hsome := hsafe.2 hroll
    have hkeep := wp_confined (f := f) (p := rollback L ks) (m := m)
      (I := fun n => Fallback S current vals ws n.view ∧ Fallback S current vals ws n.flash)
      (fun n k v hW hn => ?_) (fun n k hn => hn) (fun n hn => ⟨hn.1, hn.1⟩) (fun n s _ hn => hn)
      (rollback_confined ks) ⟨hview.2 hsome, hflash.2 hsome⟩
    · apply wp_total (rollback_total ks)
      exact wp_mono hkeep
        (fun _ n hn => ⟨hn.1.oldOrNew hu hws hroom, hn.2.oldOrNew hu hws hroom⟩) (fun _ n hn => hn)
        (fun n hn => hn.2.oldOrNew hu hws hroom)
    · obtain ⟨hk, rfl⟩ := hW
      obtain ⟨w, hw, rfl⟩ := hks k hk
      exact ⟨hn.1.discard hws hsafe.1 hw, hn.2⟩
  · simp only [rollback, if_neg hroll, pure_eq, wp_done]
    exact ⟨hview.oldOrNew, hflash.oldOrNew⟩

include hu hws hroom in
theorem wp_giveUp {Q : Unit → StoreMachine → Prop} {e : ObjErr} (hn : f.noticed)
    (hks : ∀ k ∈ ks, ∃ w ∈ ws, k = fidOf S (targetSlotOf current) w)
    (hin : Safe S current ws →
      InUpdate S current vals ws m.view ∧ InUpdate S current vals ws m.flash) :
    wp f ((rollback L ks).bind fun _ => Prog.fail e) Q
      (fun _ n => f.noticed ∧ (Safe S current ws →
        OldOrNew S current vals ws n.view ∧ OldOrNew S current vals ws n.flash))
      (fun n => Safe S current ws → OldOrNew S current vals ws n.flash) m := by
  rw [wp_bind]
  by_cases hsafe : Safe S current ws
  · obtain ⟨hview, hflash⟩ := hin hsafe
    apply wp_mono (wp_rollback hu hws hroom hsafe hks hview hflash)
    · exact fun _ n h => ⟨hn, fun _ => h⟩
    · exact fun _ _ h => h
    · exact fun n h _ => h
  · apply wp_mono (wp_confined (I := fun _ => True) (fun _ _ _ _ _ => trivial) (fun _ _ _ => trivial)
      (fun _ _ => trivial) (fun _ _ _ _ => trivial) (rollback_confined ks) trivial)
    · exact fun _ _ _ => ⟨hn, fun h => absurd h hsafe⟩
    · exact fun _ _ _ => ⟨hn, fun h => absurd h hsafe⟩
    · exact fun _ _ h => absurd h hsafe

/-- What holds from the moment the new manifest is durable. -/
def Switched (S : Scheme L id) (next : Option (Nat × Manifest)) (vals : Values)
    (log : List (Sealed × Files)) (n : StoreMachine) : Prop :=
  Steady S n.view next vals ∧ Steady S n.flash next vals ∧ n.log = log

theorem Steady.foreign {k : Nat} {c : Option Content} (h : Steady S files current vals)
    (hk : Foreign L id S.fid k) : Steady S (Function.update files k c) current vals := by
  apply h.congr
  · intro s hs
    exact Function.update_of_ne (hk.1 s hs).symm _ _
  · intro o ho
    obtain ⟨⟨g, -, w, n, s, hw, -, -, hs, rfl⟩, -⟩ := h.object ho
    exact Function.update_of_ne (hk.2 w s hw hs).symm _ _

theorem wp_activate {next : Option (Nat × Manifest)} {log : List (Sealed × Files)}
    (h : Switched S next vals log m) :
    wp f (L.activate id) (fun _ => Switched S next vals log)
      (fun _ n => f.noticed ∧ Switched S next vals log n) (Switched S next vals log) m := by
  have hkeep := wp_confined (f := f) (I := Switched S next vals log)
    (fun n k v hk hn => ⟨hn.1.foreign hk, hn.2⟩) (fun n k hn => hn) (fun n hn => ⟨hn.1, hn.1, hn.2.2⟩)
    (fun n s _ hn => hn) S.activate_confined h
  by_cases hf : f.noticed
  · exact wp_mono hkeep (fun _ _ hn => hn) (fun _ _ hn => ⟨hf, hn⟩) (fun _ hn => hn)
  · exact wp_mono (wp_and hkeep (S.activate_total hf m)) (fun _ _ hn => hn.1)
      (fun _ _ hn => hn.2.elim) (fun _ hn => hn.1)

theorem Steady.retired {τ k : Nat} {next : Manifest} (h : Steady S files (some (τ, next)) vals)
    (hk : k = L.manifestFid id (1 - τ) ∨
      references next k = false ∧ ∀ s < 2, k ≠ L.manifestFid id s) :
    Steady S (Function.update files k none) (some (τ, next)) vals := by
  rcases hk with rfl | ⟨hk, hman⟩
  · exact ⟨h.1.update_other none, .inl (Function.update_self _ _ _)⟩
  · apply h.congr
    · intro s hs
      exact Function.update_of_ne (hman s hs).symm _ _
    · intro o ho
      apply Function.update_of_ne
      rintro rfl
      have := List.any_eq_false.mp hk o ho
      simp at this

theorem wp_retire {τ : Nat} {next : Manifest} {candidates : Nat → Option Manifest}
    {log : List (Sealed × Files)} (h : Switched S (some (τ, next)) vals log m)
    (hcand : ∀ s c, s < 2 → candidates s = some c → ∀ o ∈ c.objects, ∃ k, L.recordFid id o = .ok k)
    (hold : (candidates (1 - τ)).isSome ∨ m.view (L.manifestFid id (1 - τ)) = none)
    {R : ObjErr → StoreMachine → Prop} :
    wp f (L.retire id candidates next τ)
      (fun _ n => Switched S (some (τ, next)) vals log n ∧
        (¬ f.silent → n.view (L.manifestFid id (1 - τ)) = none)) R
      (Switched S (some (τ, next)) vals log) m := by
  have hτ : τ < 2 := h.1.1.slot
  have hkeep := wp_confined (f := f) (p := L.retire id candidates next τ)
    (I := Switched S (some (τ, next)) vals log)
    (fun n k v hk hn => by
      obtain ⟨rfl, hk⟩ := hk
      exact ⟨hn.1.retired hk, hn.2⟩)
    (fun n k hn => hn) (fun n hn => ⟨hn.1, hn.1, hn.2.2⟩) (fun n s _ hn => hn)
    (S.retire_confined hτ) h
  have hboth := wp_and hkeep (S.retire_total hcand m)
  by_cases hf : f.silent
  · exact wp_mono hboth (fun _ _ hn => ⟨hn.1, fun hs => absurd hf hs⟩) (fun _ _ hn => hn.2.elim)
      (fun _ hn => hn.1)
  · exact wp_mono (wp_and hboth (S.retire_clears hf hτ m hold))
      (fun _ _ hn => ⟨hn.1.1, fun _ => hn.2⟩) (fun _ _ hn => hn.1.2.elim) (fun _ hn => hn.1.1)

theorem WellFormed.builds {c : Manifest} (h : WellFormed S c) : manifestBuild c = .ok () := by
  have hcount : ¬ manifestMaxObjects < c.objects.length := Nat.not_lt.mpr h.count
  have hgen : ¬ (c.generation = 0 ∨ c.generation ≤ c.previousGeneration) := by
    have := h.previous
    omega
  simp only [manifestBuild, if_neg hcount, if_neg hgen, h.valid, Bool.true_eq_false, if_false]

/-- Writing a manifest: it is durable, or an error finds it deleted, written or durable. -/
theorem wp_writeManifest {τ : Nat} {c : Manifest} (hc : WellFormed S c)
    {Q : Except ObjErr Unit → StoreMachine → Prop} {R : ObjErr → StoreMachine → Prop}
    {C : StoreMachine → Prop}
    (hC : ∀ n : StoreMachine, n.flash = m.flash → C n)
    (hok : Q (.ok ()) (m.write (L.manifestFid id τ) (some (.manifest .primary c))).sync)
    (hbad : f.noticed → ∀ e, Q (.error e) m ∧ Q (.error e) (m.write (L.manifestFid id τ) none) ∧
      Q (.error e) (m.write (L.manifestFid id τ) (some (.manifest .primary c))) ∧
      Q (.error e) (m.write (L.manifestFid id τ) (some (.manifest .primary c))).sync) :
    wp f (writeManifest L id τ .primary c) Q R C m := by
  simp only [writeManifest, hc.builds, bind_eq, pure_eq, wp_bind]
  apply wp_replaceFile
  · exact hC _ rfl
  · exact hC _ rfl
  · simp only [wp_commitSync, wp_bind, wp_done, if_true, Bool.false_eq_true, if_false]
    exact ⟨hC _ rfl, hok, fun hf => ⟨(hbad hf _).2.2.1, (hbad hf _).2.2.2⟩⟩
  · intro hf e
    simp only [wp_done]
    exact ⟨(hbad hf e).1, (hbad hf e).2.1, (hbad hf e).2.2.1⟩

theorem Steady.first_alone {σ : Nat} {c : Manifest} (h : Steady S files (some (σ, c)) vals)
    (hc : c.generation = 1) : files (L.manifestFid id (1 - σ)) = none := by
  rcases h.2 with hnone | ⟨c', -, hwf, hgen⟩
  · exact hnone
  · have := hwf.previous
    omega

theorem Steady.generations (h : Steady S files current vals) (hu : Unspent current) :
    ∀ o ∈ (startOf L id current).objects, o.generation ≠ uint32Max := by
  intro o ho
  match current, h with
  | none, _ => exact absurd ho List.not_mem_nil
  | some (σ, c), ⟨hl, _⟩ =>
    obtain ⟨w, n, s, hw, -, hn, hs, rfl⟩ := hl.wf.described o ho
    have hgen : (w.descriptor n (S.fid s w.objectType w.objectTag)).generation = n := rfl
    have hbound := hl.wf.bound
    have hleft : c.generation ≠ uint32Max := hu
    omega

/-- The loop over all the writes of an update. -/
theorem wp_writeAll {base : Manifest} {τ : Nat} (hτ : τ < 2)
    (hgen : ∀ o ∈ base.objects, o.generation ≠ uint32Max) (hws : Writes L ws)
    (hroom : (stagedObjects S τ base ws).length ≤ manifestMaxObjects)
    {Q : List Nat × Except ObjErr Manifest → StoreMachine → Prop}
    {R : ObjErr → StoreMachine → Prop} {C : StoreMachine → Prop}
    (hC : ∀ n : StoreMachine, n.flash = m.flash → C n)
    (hok : Q (ws.map (fidOf S τ), .ok (stagedManifest S τ base ws)) (stagedMachine S τ base ws m))
    (hbad : f.noticed → ∀ e ks (n : StoreMachine), n.flash = m.flash →
      (∀ k, (∀ w ∈ ws, k ≠ fidOf S τ w) → n.view k = m.view k) →
      (∀ k ∈ ks, ∃ w ∈ ws, k = fidOf S τ w) → Q (ks, .error e) n) :
    wp f (writeRecords L id τ .primary [] ws [] base) Q R C m := by
  have hdist : (([] ++ ws).map Write.key).Nodup := hws.distinct
  refine wp_writeRecords (S := S) hτ hws.accepted hdist hgen hroom hC hok ?_
  intro hf e ks n hflash hview hks
  apply hbad hf e ks n hflash hview
  intro k hk
  exact (hks k hk).resolve_left List.not_mem_nil

/-- The update: it goes through, or an error or a power loss finds the old values or the new ones,
all of them together, unless a record that is in use was overwritten. -/
theorem wp_update (legacy validated : Bool) (hview : Steady S m.view current vals)
    (hflash : Steady S m.flash current vals) (hu : Unspent current) (hws : Writes L ws)
    (hroom : Room S current ws) :
    wp f (update L id ws legacy validated)
      (fun _ n => Switched S (updated S current ws) (putValues vals ws)
          (m.log ++ ws.map fun w =>
            (sealedOf S (targetSlotOf current) (startOf L id current) w, m.flash)) n ∧
        (¬ f.silent → n.view (L.manifestFid id (1 - targetSlotOf current)) = none))
      (fun _ n => f.noticed ∧ (Safe S current ws →
        OldOrNew S current vals ws n.view ∧ OldOrNew S current vals ws n.flash))
      (fun n => Safe S current ws → OldOrNew S current vals ws n.flash) m := by
  have hτ := hview.target
  have hfits : ¬ (ws = [] ∨ manifestMaxObjects < ws.length) := by
    rintro (h | h)
    · exact hws.nonempty h
    · exact absurd hws.count (Nat.not_le.mpr h)
  obtain ⟨candidates, hbase, hcand, hcur⟩ := hview.holds.base legacy validated
  have hgen := hview.generations hu
  have hold : ∀ n : StoreMachine, n.flash = m.flash → InUpdate S current vals ws n.flash :=
    fun n hn => hn ▸ hflash.inUpdate
  simp only [update, if_neg hfits, bind_eq, wp_bind, wp_consult, hbase, wp_liftCheck,
    hview.nextManifest hu]
  apply wp_writeAll hτ hgen hws hroom
  · exact fun n hn _ => (hold n hn).oldOrNew
  · -- all records are written; the first commit
    simp only [wp_bind, wp_commitSync, Bool.true_eq_false, if_false, if_true]
    have hstaged : Safe S current ws → InUpdate S current vals ws
        (stagedMachine S (targetSlotOf current) (startOf L id current) ws m).view := by
      intro hsafe
      rw [stagedMachine_view]
      exact (staged_old hview hws hsafe.1).inUpdate
    have hfids : ∀ k ∈ ws.map (fidOf S (targetSlotOf current)),
        ∃ w ∈ ws, k = fidOf S (targetSlotOf current) w := by
      intro k hk
      obtain ⟨w, hw, rfl⟩ := List.mem_map.mp hk
      exact ⟨w, hw, rfl⟩
    refine ⟨fun _ => (hold _ (stagedMachine_flash ws)).oldOrNew, ?_, fun hf => ⟨?_, ?_⟩⟩
    · -- the manifest
      set n := (stagedMachine S (targetSlotOf current) (startOf L id current) ws m).sync with hn
      have hnv : n.view = stagedFiles S (targetSlotOf current) (startOf L id current) ws m.view :=
        stagedMachine_view ws
      have hnf : n.flash = stagedFiles S (targetSlotOf current) (startOf L id current) ws m.view :=
        stagedMachine_view ws
      have hnew : Steady S (n.write (L.manifestFid id (targetSlotOf current))
          (some (.manifest .primary (nextOf S current ws)))).view
          (updated S current ws) (putValues vals ws) := by
        show Steady S (Function.update n.view _ _) _ _
        rw [hnv]
        exact switched_new hview hu hws hroom
      have hnewIn : Safe S current ws → InUpdate S current vals ws
          (n.write (L.manifestFid id (targetSlotOf current))
            (some (.manifest .primary (nextOf S current ws)))).view := by
        intro hsafe
        show InUpdate S current vals ws (Function.update n.view _ _)
        rw [hnv]
        exact switched_inUpdate hview hu hws hroom hsafe.1
      apply wp_writeManifest (hview.nextOf_wf hu hws hroom)
      · intro n' hn' hsafe
        rw [hn']
        exact (hstaged hsafe).oldOrNew
      · -- the manifest is durable: from here on only the new values count
        have hswitched : Switched S (updated S current ws) (putValues vals ws)
            (m.log ++ ws.map fun w =>
              (sealedOf S (targetSlotOf current) (startOf L id current) w, m.flash))
            (n.write (L.manifestFid id (targetSlotOf current))
              (some (.manifest .primary (nextOf S current ws)))).sync :=
          ⟨hnew, hnew, stagedMachine_log ws⟩
        simp only [wp_bind]
        refine wp_mono (wp_activate hswitched) ?_ ?_ ?_
        · intro _ n' hn'
          have hretire : (candidates (1 - targetSlotOf current)).isSome ∨
              n'.view (L.manifestFid id (1 - targetSlotOf current)) = none := by
            rcases current with _ | ⟨σ, c⟩
            · exact .inr (hn'.1.first_alone rfl)
            · rw [hview.slot_eq, hcur σ c rfl]
              exact .inl rfl
          refine wp_mono (wp_retire hn' ?_ hretire) (fun _ _ h => h) (fun _ _ h => h)
            (fun n'' h _ => .inr h.2.1.holds)
          intro s c hs hc o ho
          exact ⟨_, ((hcand s c hs hc).described o ho).recordFid⟩
        · exact fun _ n' hn' => ⟨hn'.1, fun _ => ⟨.inr hn'.2.1.holds, .inr hn'.2.2.1.holds⟩⟩
        · exact fun n' hn' _ => .inr hn'.2.1.holds
      · intro hf e
        refine ⟨?_, ?_, ?_, ?_⟩
        · exact wp_giveUp hu hws hroom hf hfids fun hsafe => ⟨hstaged hsafe, hstaged hsafe⟩
        · apply wp_giveUp hu hws hroom hf hfids
          intro hsafe
          refine ⟨?_, hstaged hsafe⟩
          show InUpdate S current vals ws (Function.update n.view _ _)
          rw [hnv]
          exact (cleared_old hview hws hsafe.1).inUpdate
        · exact wp_giveUp hu hws hroom hf hfids fun hsafe => ⟨hnewIn hsafe, hstaged hsafe⟩
        · exact wp_giveUp hu hws hroom hf hfids fun hsafe => ⟨hnewIn hsafe, hnewIn hsafe⟩
    · rw [← wp_bind]
      exact wp_giveUp hu hws hroom hf hfids fun hsafe =>
        ⟨hstaged hsafe, hold _ (stagedMachine_flash ws)⟩
    · rw [← wp_bind]
      exact wp_giveUp hu hws hroom hf hfids fun hsafe => ⟨hstaged hsafe, hstaged hsafe⟩
  · intro hf e ks n hnf hnv hks
    apply wp_giveUp hu hws hroom hf hks
    intro hsafe
    exact ⟨(hview.staged hws hsafe.1 hnv).inUpdate, hold n hnf⟩

include h₀ hws in
theorem staged_lost (hother : files₀ (L.manifestFid id (targetSlotOf current)) = none)
    (hnot : ¬ Apart S current ws) (legacy : Bool) :
    load L (stagedFiles S (targetSlotOf current) (startOf L id current) ws files₀) id legacy =
      .error .wrongData := by
  have hτ := h₀.target
  unfold Apart at hnot
  push Not at hnot
  obtain ⟨w, hw, o, ho, hkey, hfid⟩ := hnot
  match current, h₀, ho with
  | some (σ, c), h₀, ho =>
    have hl := h₀.1
    have hman : stagedFiles S (targetSlotOf (some (σ, c))) (startOf L id (some (σ, c))) ws files₀
        (L.manifestFid id σ) = some (.manifest .primary c) := by
      rw [stagedFiles_other fun v hv => h₀.manifest_file hws hv hl.slot]
      exact hl.manifest
    have habsent : stagedFiles S (targetSlotOf (some (σ, c))) (startOf L id (some (σ, c))) ws files₀
        (L.manifestFid id (1 - σ)) = none := by
      rw [stagedFiles_other fun v hv => h₀.manifest_file hws hv (by omega)]
      exact hother
    -- the record now bears the next generation of the object
    have hgen : generationOf (startOf L id (some (σ, c))) w = o.generation + 1 := by
      have hfind : find (startOf L id (some (σ, c))) w.objectType w.objectTag = some o := by
        have hk : (o.objectType, o.objectTag) = (w.objectType, w.objectTag) := hkey
        obtain ⟨ht, hg⟩ := Prod.mk.inj hk
        rw [← ht, ← hg]
        exact hl.wf.find_eq ho
      simp only [generationOf, hfind]
    have htorn : checkRecord L (stagedFiles S (targetSlotOf (some (σ, c)))
        (startOf L id (some (σ, c))) ws files₀) id o ≠ .ok () := by
      have hd := hl.wf.described o ho
      have hrec : stagedFiles S (targetSlotOf (some (σ, c))) (startOf L id (some (σ, c))) ws files₀
          (fidOf S (targetSlotOf (some (σ, c))) w) = some (recordOf S (targetSlotOf (some (σ, c)))
            (startOf L id (some (σ, c))) w) :=
        stagedFiles_written hτ hws.accepted hws.distinct hw
      rw [← hfid] at hrec
      simp only [checkRecord, hd.valid, hd.recordFid, Bool.true_eq_false, if_false,
        stored_record hrec]
      have hheader : recordHeaderParse (recordOf S (targetSlotOf (some (σ, c)))
          (startOf L id (some (σ, c))) w) o ≠ .ok () := by
        have hne : ¬ (generationOf (startOf L id (some (σ, c))) w = o.generation) := by omega
        simp only [recordHeaderParse, recordOf, recordIdentity, descriptorOf, Write.descriptor,
          hne, and_false, if_false]
        split_ifs <;> rintro ⟨⟩
      split
      · next hok => exact absurd hok hheader
      · rintro ⟨⟩
    apply load_nothing legacy hl.slot
    · intro root s hs
      by_cases he : s = σ
      · subst he
        cases root with
        | primary =>
          rcases hl.wf.parse_cases hman with ⟨-, hall⟩ | ⟨hp, -⟩
          · exact absurd (hall o ho) htorn
          · exact ⟨_, hp, .inr (.inl rfl)⟩
        | legacy => exact ⟨_, hl.wf.parse_legacy hman, .inr (.inr rfl)⟩
      · have hs' : s = 1 - σ := by
          have := hl.slot
          omega
        subst hs'
        exact ⟨_, parseSlot_absent habsent, .inl rfl⟩
    · rw [stored_manifest hman]
      rfl

/-- An update that overwrites a record in use may leave nothing to load. -/
theorem mayLeave_lost (legacy validated : Bool) (hview : Steady S m.view current vals)
    (hu : Unspent current) (hws : Writes L ws) (hroom : Room S current ws)
    (hother : m.view (L.manifestFid id (targetSlotOf current)) = none)
    (hnot : ¬ Apart S current ws) :
    MayLeave (update L id ws legacy validated)
      (fun files => load L files id legacy = .error .wrongData) m := by
  have hfits : ¬ (ws = [] ∨ manifestMaxObjects < ws.length) := by
    rintro (h | h)
    · exact hws.nonempty h
    · exact absurd hws.count (Nat.not_le.mpr h)
  obtain ⟨candidates, hbase, -, -⟩ := hview.holds.base legacy validated
  simp only [update, if_neg hfits, bind_eq]
  apply mayLeave_bind
  simp only [wp_consult, hbase, liftCheck, Prog.bind, hview.nextManifest hu]
  apply mayLeave_bind
  apply wp_writeAll hview.target (hview.generations hu) hws hroom (fun _ _ => trivial)
  · -- the records are written; the power goes after the commit
    apply mayLeave_bind
    refine ⟨trivial, ?_, fun hf => hf.elim⟩
    rw [wp_done]
    apply mayLeave_now
    show load L (stagedMachine S _ _ ws m).view id legacy = _
    rw [stagedMachine_view]
    exact staged_lost hview hws hother hnot legacy
  · exact fun hf => hf.elim

end Phases

/-! Undisturbed updates, one after the other. -/
section Settled

variable {L : Layout} {id : Nat} (S : Scheme L id)

/-- What holds between two calls: the flash holds what the running code sees, and the slot that the
next manifest goes to is empty. -/
def Settled (m : StoreMachine) (current : Option (Nat × Manifest)) (vals : Values) : Prop :=
  Steady S m.view current vals ∧ Steady S m.flash current vals ∧
    m.view (L.manifestFid id (targetSlotOf current)) = none

variable {S} {m : StoreMachine} {current : Option (Nat × Manifest)} {vals : Values} {ws : List Write}

theorem Settled.of_absent (hview : ∀ s < 2, m.view (L.manifestFid id s) = none)
    (hflash : ∀ s < 2, m.flash (L.manifestFid id s) = none) : Settled S m none fun _ _ => none :=
  ⟨⟨hview, rfl⟩, ⟨hflash, rfl⟩, hview 0 (by decide)⟩

theorem Settled.update (h : Settled S m current vals) (legacy validated : Bool)
    (hu : Unspent current) (hws : Writes L ws) (hroom : Room S current ws) :
    calm (update L id ws legacy validated)
      (fun _ n => Settled S n (updated S current ws) (putValues vals ws) ∧
        n.log = m.log ++ ws.map fun w =>
          (sealedOf S (targetSlotOf current) (startOf L id current) w, m.flash))
      (fun _ _ => False) m := by
  have hcalm := calm_of_wp (wp_update (f := Faults.none) legacy validated h.1 h.2.1 hu hws hroom)
  apply calm_mono hcalm
  · rintro _ n ⟨⟨hview, hflash, hlog⟩, hother⟩
    exact ⟨⟨hview, hflash, hother fun hs => hs⟩, hlog⟩
  · exact fun _ _ hn => hn.1.elim

theorem Settled.spent (h : Settled S m current vals) (legacy validated : Bool)
    (hu : ¬ Unspent current) (hws : ws ≠ [] ∧ ws.length ≤ manifestMaxObjects) (rs : List Reply) :
    exec (Container.update L id ws legacy validated) m rs = (.fail .wrongData, m, rs) := by
  have hfits : ¬ (ws = [] ∨ manifestMaxObjects < ws.length) := by
    rintro (hn | hn)
    · exact hws.1 hn
    · exact absurd hws.2 (Nat.not_le.mpr hn)
  obtain ⟨candidates, hbase, -⟩ := h.1.holds.base legacy validated
  simp only [Container.update, if_neg hfits, bind_eq, consult, Prog.bind, exec, hbase, liftCheck,
    h.1.spent hu]

end Settled

end Container

end KeyWallet
