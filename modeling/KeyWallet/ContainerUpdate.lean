import KeyWallet.ContainerStaging

/-! An update of a container, at every point where the storage may fail or the power may go. -/
namespace KeyWallet

open CrashProgram

namespace Container

section Steady

variable {L : Layout} {id : Nat} (S : Scheme L id)

/-- The other slot is empty or holds an older manifest. -/
def Superseded (files : Files) (σ : Nat) (m : Manifest) : Prop :=
  files (L.manifestFid id (1 - σ)) = none ∨
  ∃ c, files (L.manifestFid id (1 - σ)) = some (.manifest .primary c) ∧ WellFormed S c ∧
    c.generation < m.generation

/-- What the files hold between two calls that went through. -/
def Steady (files : Files) (current : Option (Nat × Manifest)) (vals : Values) : Prop :=
  match current with
  | none => (∀ s < 2, files (L.manifestFid id s) = none) ∧ vals = fun _ _ => none
  | some (σ, m) => Live S files σ m vals ∧ Superseded S files σ m

/-- The objects of the container. -/
def objectsOf (current : Option (Nat × Manifest)) : List Descriptor :=
  match current with
  | none => []
  | some (_, m) => m.objects

/-- The manifest that an update starts to change. -/
def startOf (L : Layout) (id : Nat) (current : Option (Nat × Manifest)) : Manifest :=
  match current with
  | none => ⟨L.namespaceId, L.containerKind, id, 1, 0, 0, []⟩
  | some (_, m) => { m with previousGeneration := m.generation, generation := m.generation + 1 }

/-- The generations are not used up. -/
def Unspent (current : Option (Nat × Manifest)) : Prop :=
  match current with
  | none => True
  | some (_, m) => m.generation ≠ uint32Max

/-- The values after the writes. -/
def putValues (vals : Values) (ws : List Write) : Values := fun t g =>
  match ws.find? fun w => w.key = (t, g) with
  | none => vals t g
  | some w => some w.data

/-- The manifest of the next generation. -/
def nextOf (current : Option (Nat × Manifest)) (ws : List Write) : Manifest :=
  sortObjects (stagedManifest S (targetSlotOf current) (startOf L id current) ws)

/-- No write goes to the file that the object is in now. -/
def Apart (current : Option (Nat × Manifest)) (ws : List Write) : Prop :=
  ∀ w ∈ ws, ∀ o ∈ objectsOf current, o.key = w.key → o.recordId ≠ fidOf S (targetSlotOf current) w

/-- The manifest has room for the new objects. -/
def Room (current : Option (Nat × Manifest)) (ws : List Write) : Prop :=
  (stagedObjects S (targetSlotOf current) (startOf L id current) ws).length ≤ manifestMaxObjects

variable {S} {files files' : Files} {current : Option (Nat × Manifest)} {vals : Values}
  {ws : List Write}

@[simp] theorem startOf_objects : (startOf L id current).objects = objectsOf current := by
  cases current <;> rfl

theorem Steady.holds (h : Steady S files current vals) : Holds S files current vals := by
  match current, h with
  | none, h => exact h
  | some (σ, m), ⟨hl, hs⟩ =>
    refine ⟨hl, ?_⟩
    rcases hs with hs | ⟨c, hc, hwf, hgen⟩
    · exact .inl hs
    · exact .inr ⟨c, hc, hwf, .inl hgen⟩

theorem Steady.target (h : Steady S files current vals) : targetSlotOf current < 2 := by
  match current, h with
  | none, _ => exact Nat.zero_lt_two
  | some (σ, m), ⟨hl, _⟩ =>
    simp only [targetSlotOf]
    omega

theorem Steady.slot_eq {σ : Nat} {m : Manifest} (h : Steady S files (some (σ, m)) vals) :
    1 - targetSlotOf (some (σ, m)) = σ := by
  have := h.1.slot
  simp only [targetSlotOf]
  omega

theorem Scheme.manifest_ne_other (S : Scheme L id) {s : Nat} (hs : s < 2) :
    L.manifestFid id s ≠ L.manifestFid id (1 - s) := by
  match s, hs with
  | 0, _ => exact S.manifest_ne
  | 1, _ => exact S.manifest_ne.symm

theorem Described.ne_manifest {g s : Nat} {o : Descriptor} (h : Described S g o) (hs : s < 2) :
    o.recordId ≠ L.manifestFid id s := by
  obtain ⟨w, n, s', hw, -, -, hs', rfl⟩ := h
  exact (S.manifest_ne_fid hw hs hs').symm

theorem Live.congr {σ : Nat} {m : Manifest} (h : Live S files σ m vals)
    (hm : files' (L.manifestFid id σ) = files (L.manifestFid id σ))
    (hr : ∀ o ∈ m.objects, files' o.recordId = files o.recordId) : Live S files' σ m vals := by
  refine ⟨h.slot, hm.trans h.manifest, h.wf, ?_, h.named⟩
  intro o ho
  rw [hr o ho]
  exact h.records o ho

theorem Live.update_other {σ : Nat} {m : Manifest} (h : Live S files σ m vals)
    (c : Option Content) :
    Live S (Function.update files (L.manifestFid id (1 - σ)) c) σ m vals := by
  apply h.congr
  · exact Function.update_of_ne (S.manifest_ne_other h.slot) _ _
  · intro o ho
    exact Function.update_of_ne ((h.wf.described o ho).ne_manifest (by omega)) _ _

theorem Steady.congr (h : Steady S files current vals)
    (hm : ∀ s < 2, files' (L.manifestFid id s) = files (L.manifestFid id s))
    (hr : ∀ o ∈ objectsOf current, files' o.recordId = files o.recordId) :
    Steady S files' current vals := by
  match current, h with
  | none, ⟨habsent, hvals⟩ => exact ⟨fun s hs => (hm s hs).trans (habsent s hs), hvals⟩
  | some (σ, m), ⟨hl, hs⟩ =>
    refine ⟨hl.congr (hm σ hl.slot) hr, ?_⟩
    unfold Superseded
    rw [hm (1 - σ) (by omega)]
    exact hs

theorem Steady.object (h : Steady S files current vals) {o : Descriptor}
    (ho : o ∈ objectsOf current) :
    (∃ g, g + 1 = (startOf L id current).generation ∧ Described S g o) ∧
    ∃ d, files o.recordId = some (.record .primary (recordIdentity (startOf L id current) o) d) ∧
      d.length = o.logicalSize ∧ vals o.objectType o.objectTag = some d := by
  match current, h with
  | none, _ => exact absurd ho List.not_mem_nil
  | some (σ, m), ⟨hl, _⟩ => exact ⟨⟨m.generation, rfl, hl.wf.described o ho⟩, hl.records o ho⟩

theorem Steady.keys (h : Steady S files current vals) :
    ((objectsOf current).map Descriptor.key).Nodup := by
  match current, h with
  | none, _ => exact List.nodup_nil
  | some (σ, m), ⟨hl, _⟩ => exact keys_nodup hl.wf.sorted

theorem Steady.nextManifest (h : Steady S files current vals) (hu : Unspent current) :
    nextManifest L id current = .ok (startOf L id current) := by
  match current, h with
  | none, _ => rfl
  | some (σ, m), ⟨hl, _⟩ =>
    have hext : m.objects.any (fun o => o.extensionSize ≠ 0) = false := by
      rw [List.any_eq_false]
      intro o ho
      simp [(hl.wf.described o ho).extension]
    have hleft : ¬ (m.generation = uint32Max ∨ m.extensionSize ≠ 0) := by
      rintro (hg | he)
      · exact hu hg
      · exact he hl.wf.extension
    simp only [Container.nextManifest, if_neg hleft, hext, Bool.false_eq_true, if_false, startOf]

theorem Steady.spent (h : Steady S files current vals) (hu : ¬ Unspent current) :
    Container.nextManifest L id current = .error .wrongData := by
  match current, h with
  | none, _ => exact absurd trivial hu
  | some (σ, m), _ =>
    have hg : m.generation = uint32Max := not_not.mp hu
    simp only [Container.nextManifest, hg, true_or, if_true]

theorem Steady.kept_file (h : Steady S files current vals) (hws : Writes L ws) {o : Descriptor}
    (ho : o ∈ objectsOf current) {w : Write} (hw : w ∈ ws) (hne : o.key ≠ w.key) :
    o.recordId ≠ fidOf S (targetSlotOf current) w := by
  obtain ⟨⟨g, -, v, n, s, hv, -, -, hs, rfl⟩, -⟩ := h.object ho
  intro he
  obtain ⟨-, ht, hg⟩ := S.fid_inj hv (hws.accepted w hw) hs h.target he
  exact hne (Prod.ext ht hg)

theorem Steady.manifest_file (h : Steady S files current vals) (hws : Writes L ws) {w : Write}
    (hw : w ∈ ws) {s : Nat} (hs : s < 2) :
    L.manifestFid id s ≠ fidOf S (targetSlotOf current) w :=
  S.manifest_ne_fid (hws.accepted w hw) hs h.target

theorem Steady.staged (h : Steady S files current vals) (hws : Writes L ws)
    (hapart : Apart S current ws)
    (hf : ∀ k, (∀ w ∈ ws, k ≠ fidOf S (targetSlotOf current) w) → files' k = files k) :
    Steady S files' current vals := by
  apply h.congr
  · intro s hs
    exact hf _ fun w hw => h.manifest_file hws hw hs
  · intro o ho
    apply hf
    intro w hw
    by_cases hkey : o.key = w.key
    · exact hapart w hw o ho hkey
    · exact h.kept_file hws ho hw hkey

theorem Steady.generationOf_le (h : Steady S files current vals) (w : Write) :
    0 < generationOf (startOf L id current) w ∧
      generationOf (startOf L id current) w ≤ (startOf L id current).generation := by
  unfold generationOf
  cases hf : find (startOf L id current) w.objectType w.objectTag with
  | none =>
    refine ⟨Nat.one_pos, ?_⟩
    cases current with
    | none => exact Nat.le_refl _
    | some p => exact Nat.succ_pos _
  | some o =>
    obtain ⟨ho, -, -⟩ := find_mem hf
    rw [startOf_objects] at ho
    obtain ⟨⟨g, hg, v, n, s, hv, -, hn, hs, rfl⟩, -⟩ := h.object ho
    exact ⟨Nat.succ_pos _, hg ▸ Nat.succ_le_succ hn⟩

theorem Steady.nextOf_mem (h : Steady S files current vals) (hws : Writes L ws) (o : Descriptor) :
    o ∈ (nextOf S current ws).objects ↔
      (∃ w ∈ ws, o = descriptorOf S (targetSlotOf current) (startOf L id current) w) ∨
      (o ∈ objectsOf current ∧ ∀ w ∈ ws, o.key ≠ w.key) := by
  have hkeys : ((startOf L id current).objects.map Descriptor.key).Nodup := by
    rw [startOf_objects]
    exact h.keys
  have hmem := mem_stagedObjects (S := S) (τ := targetSlotOf current) hkeys hws.distinct o
  rw [startOf_objects] at hmem
  rw [nextOf, (sortObjects_perm _).mem_iff]
  exact hmem

theorem putValues_written (hws : Writes L ws) {w : Write} (hw : w ∈ ws) :
    putValues vals ws w.objectType w.objectTag = some w.data := by
  have hfind : ws.find? (fun v => v.key = (w.objectType, w.objectTag)) = some w := by
    cases hf : ws.find? (fun v => v.key = (w.objectType, w.objectTag)) with
    | none => exact absurd (List.find?_eq_none.mp hf w hw) (by simp [Write.key])
    | some v =>
      have hkey : v.key = w.key := by simpa [Write.key] using List.find?_some hf
      exact congrArg some (List.inj_on_of_nodup_map hws.distinct (List.mem_of_find?_eq_some hf) hw hkey)
  simp only [putValues, hfind]

theorem putValues_other {t g : Nat} (h : ∀ w ∈ ws, (t, g) ≠ w.key) :
    putValues vals ws t g = vals t g := by
  have hfind : ws.find? (fun v => v.key = (t, g)) = none := by
    rw [List.find?_eq_none]
    intro w hw
    simpa using fun he : w.key = (t, g) => h w hw he.symm
  simp only [putValues, hfind]

theorem Steady.nextOf_wf (h : Steady S files current vals) (hu : Unspent current)
    (hws : Writes L ws) (hroom : Room S current ws) : WellFormed S (nextOf S current ws) := by
  have hkeys : ((startOf L id current).objects.map Descriptor.key).Nodup := by
    rw [startOf_objects]
    exact h.keys
  have hsorted : (nextOf S current ws).objects.IsChain descriptorBefore :=
    sortObjects_sorted (stagedObjects_nodup hkeys)
  have hcount : (nextOf S current ws).objects.length ≤ manifestMaxObjects := by
    rw [nextOf, (sortObjects_perm _).length_eq]
    exact hroom
  have hnonempty : (nextOf S current ws).objects ≠ [] := by
    obtain ⟨w, hw⟩ := List.exists_mem_of_ne_nil ws hws.nonempty
    exact List.ne_nil_of_mem ((h.nextOf_mem hws _).mpr (.inl ⟨w, hw, rfl⟩))
  have hdescribed : ∀ o ∈ (nextOf S current ws).objects,
      Described S (nextOf S current ws).generation o := by
    intro o ho
    rcases (h.nextOf_mem hws o).mp ho with ⟨w, hw, rfl⟩ | ⟨ho, -⟩
    · obtain ⟨hpos, hle⟩ := h.generationOf_le w
      exact ⟨w, _, _, hws.accepted w hw, hpos, hle, h.target, rfl⟩
    · obtain ⟨⟨g, hg, hd⟩, -⟩ := h.object ho
      exact hd.mono (Nat.le_of_lt (Nat.lt_of_succ_le (Nat.le_of_eq hg)))
  match current, h with
  | none, _ =>
    exact ⟨rfl, rfl, rfl, Nat.one_pos, (show 1 ≤ uint32Max by decide), rfl, hnonempty, hcount,
      hsorted, hdescribed⟩
  | some (σ, m), ⟨hl, _⟩ =>
    refine ⟨hl.wf.namespaceId, hl.wf.containerKind, hl.wf.containerId, Nat.lt_succ_self _, ?_,
      hl.wf.extension, hnonempty, hcount, hsorted, hdescribed⟩
    exact Nat.lt_of_le_of_ne hl.wf.bound hu

theorem Steady.room_of_cover (h : Steady S files current vals) (hws : Writes L ws)
    (hcover : ∀ o ∈ objectsOf current, ∃ w ∈ ws, o.key = w.key) : Room S current ws := by
  have hkeys : ((startOf L id current).objects.map Descriptor.key).Nodup := by
    rw [startOf_objects]
    exact h.keys
  have hsub : (stagedObjects S (targetSlotOf current) (startOf L id current) ws).map Descriptor.key ⊆
      ws.map Write.key := by
    intro k hk
    obtain ⟨o, ho, rfl⟩ := List.mem_map.mp hk
    rcases (mem_stagedObjects hkeys hws.distinct o).mp ho with ⟨w, hw, rfl⟩ | ⟨ho, hne⟩
    · exact List.mem_map_of_mem (f := Write.key) hw
    · rw [startOf_objects] at ho
      obtain ⟨w, hw, hkey⟩ := hcover o ho
      exact absurd hkey (hne w hw)
  have hlen := (List.subperm_of_subset (stagedObjects_nodup hkeys) hsub).length_le
  rw [List.length_map, List.length_map] at hlen
  exact Nat.le_trans hlen hws.count

theorem Steady.live_next (h : Steady S files current vals) (hu : Unspent current)
    (hws : Writes L ws) (hroom : Room S current ws)
    (hm : files' (L.manifestFid id (targetSlotOf current)) =
      some (.manifest .primary (nextOf S current ws)))
    (hnew : ∀ w ∈ ws, files' (fidOf S (targetSlotOf current) w) =
      some (recordOf S (targetSlotOf current) (startOf L id current) w))
    (hkept : ∀ o ∈ objectsOf current, (∀ w ∈ ws, o.key ≠ w.key) →
      files' o.recordId = files o.recordId) :
    Live S files' (targetSlotOf current) (nextOf S current ws) (putValues vals ws) := by
  refine ⟨h.target, hm, h.nextOf_wf hu hws hroom, ?_, ?_⟩
  · intro o ho
    rcases (h.nextOf_mem hws o).mp ho with ⟨w, hw, rfl⟩ | ⟨ho, hne⟩
    · exact ⟨w.data, hnew w hw, rfl, putValues_written hws hw⟩
    · obtain ⟨-, d, hrec, hd, hv⟩ := h.object ho
      exact ⟨d, (hkept o ho hne).trans hrec, hd, (putValues_other hne).trans hv⟩
  · intro t g hv
    by_cases hw : ∃ w ∈ ws, w.key = (t, g)
    · obtain ⟨w, hw, hkey⟩ := hw
      exact ⟨_, (h.nextOf_mem hws _).mpr (.inl ⟨w, hw, rfl⟩), congrArg Prod.fst hkey,
        congrArg Prod.snd hkey⟩
    · have hne : ∀ w ∈ ws, (t, g) ≠ w.key := fun w hw' he => hw ⟨w, hw', he.symm⟩
      rw [putValues_other hne] at hv
      match current, h with
      | none, ⟨_, hvals⟩ => exact absurd (congrFun (congrFun hvals t) g) hv
      | some (σ, m), hst =>
        obtain ⟨o, ho, rfl, rfl⟩ := hst.1.named t g hv
        exact ⟨o, (hst.nextOf_mem hws o).mpr (.inr ⟨ho, hne⟩), rfl, rfl⟩

theorem Steady.superseded_next (h : Steady S files current vals)
    (hother : files' (L.manifestFid id (1 - targetSlotOf current)) =
      files (L.manifestFid id (1 - targetSlotOf current))) :
    Superseded S files' (targetSlotOf current) (nextOf S current ws) := by
  match current, h with
  | none, ⟨habsent, _⟩ => exact .inl (hother.trans (habsent 1 (by decide)))
  | some (σ, m), hst =>
    refine .inr ⟨m, ?_, hst.1.wf, Nat.lt_succ_self _⟩
    rw [hother, hst.slot_eq, hst.1.manifest]

end Steady

/-! The loop over the writes. -/
section Loop

variable {L : Layout} {id : Nat} {S : Scheme L id} {τ : Nat} {base : Manifest} {f : Faults}
  {m : StoreMachine} {C : StoreMachine → Prop} {R : ObjErr → StoreMachine → Prop}

theorem wp_replaceFile {k : Nat} {c : Content} {Q : Except ObjErr Unit → StoreMachine → Prop}
    (hC : C m) (hC' : C (m.write k none)) (hok : Q (.ok ()) (m.write k (some c)))
    (hbad : f.noticed → ∀ e, Q (.error e) m ∧ Q (.error e) (m.write k none) ∧
      Q (.error e) (m.write k (some c))) : wp f (replaceFile k c) Q R C m := by
  have htwice : (m.write k none).write k (some c) = m.write k (some c) := by
    simp [Machine.write]
  cases hk : (m.view k).isSome with
  | false =>
    simp only [replaceFile, bind_eq, pure_eq, wp_bind, wp_consult, hk, Bool.false_eq_true, if_false,
      wp_done, Bool.true_eq_false, wp_putFile, if_true]
    exact ⟨hC, hok, fun hf => ⟨(hbad hf _).1, (hbad hf _).2.2⟩⟩
  | true =>
    simp only [replaceFile, bind_eq, pure_eq, wp_bind, wp_consult, hk, if_true, wp_putFile, wp_done,
      Bool.true_eq_false, if_false, htwice, Bool.false_eq_true]
    exact ⟨hC, ⟨hC', hok, fun hf => ⟨(hbad hf _).2.1, (hbad hf _).2.2⟩⟩,
      fun hf => ⟨(hbad hf _).1, (hbad hf _).2.1⟩⟩

/-- The machine after the records of these writes were written. -/
def stagedMachine (S : Scheme L id) (τ : Nat) (base : Manifest) (ws : List Write)
    (m : StoreMachine) : StoreMachine :=
  ws.foldl (fun n w => (n.record (sealedOf S τ base w)).write (fidOf S τ w)
    (some (recordOf S τ base w))) m

@[simp] theorem stagedMachine_view (ws : List Write) :
    (stagedMachine S τ base ws m).view = stagedFiles S τ base ws m.view := by
  unfold stagedMachine stagedFiles
  induction ws generalizing m with
  | nil => rfl
  | cons w ws ih => exact ih

@[simp] theorem stagedMachine_flash (ws : List Write) :
    (stagedMachine S τ base ws m).flash = m.flash := by
  unfold stagedMachine
  induction ws generalizing m with
  | nil => rfl
  | cons w ws ih => exact ih

@[simp] theorem stagedMachine_log (ws : List Write) :
    (stagedMachine S τ base ws m).log =
      m.log ++ ws.map fun w => (sealedOf S τ base w, m.flash) := by
  unfold stagedMachine
  induction ws generalizing m with
  | nil => exact (List.append_nil _).symm
  | cons w ws ih =>
    rw [List.foldl_cons, ih, List.map_cons]
    exact List.append_assoc _ _ _

theorem find_putObject {os : List Descriptor} {d : Descriptor} {k : Nat × Nat} (h : d.key ≠ k) :
    (putObject os d).find? (fun o => o.key = k) = os.find? fun o => o.key = k := by
  induction os with
  | nil => simp [putObject, h]
  | cons o os ih =>
    by_cases hkey : o.objectType = d.objectType ∧ o.objectTag = d.objectTag
    · have ho : o.key ≠ k := fun he => h ((Prod.ext hkey.1 hkey.2 : o.key = d.key) ▸ he)
      simp [putObject, hkey, h, ho]
    · simp only [putObject, if_neg hkey, List.find?_cons, ih]

theorem find_staged {done : List Write} {w : Write} (h : ∀ v ∈ done, v.key ≠ w.key) :
    find (stagedManifest S τ base done) w.objectType w.objectTag =
      find base w.objectType w.objectTag := by
  rw [find_key, find_key]
  unfold stagedManifest stagedObjects
  generalize base.objects = os
  induction done generalizing os with
  | nil => rfl
  | cons v done ih =>
    refine (ih (fun u hu => h u (List.mem_cons_of_mem _ hu)) _).trans ?_
    exact find_putObject (h v List.mem_cons_self)

theorem checkWrite_ok {done : List Write} {w : Write} (hw : Accepted L w)
    (hdone : ∀ v ∈ done, v.key ≠ w.key)
    (hgen : ∀ o ∈ base.objects, o.generation ≠ uint32Max) :
    checkWrite L done (stagedManifest S τ base done) w = .ok (generationOf base w) := by
  obtain ⟨hzero, hlast, -, -, -, -, -, hinline, -⟩ := (descriptorCoreValid_iff _).mp hw.core
  have htype : ¬ (w.objectType = 0 ∨ w.objectType = 0xffff ∨ w.flags &&& flagInline ≠ 0 ∨
      L.writeValid w = false) := by
    rintro (h | h | h | h)
    · exact hzero h
    · exact hlast h
    · exact h hinline
    · exact Bool.false_ne_true (h.symm.trans hw.valid)
  have hany : (done.any fun v => v.objectType = w.objectType ∧ v.objectTag = w.objectTag) = false := by
    rw [List.any_eq_false]
    intro v hv he
    have hkey := of_decide_eq_true he
    exact hdone v hv (Prod.ext hkey.1 hkey.2)
  simp only [checkWrite, if_neg htype, hany, Bool.false_eq_true, if_false, find_staged hdone,
    generationOf]
  cases hf : find base w.objectType w.objectTag with
  | none => rfl
  | some o => simp only [if_neg (hgen o (find_mem hf).1)]

theorem stagedObjects_length_le (done ws : List Write) :
    (stagedObjects S τ base done).length ≤ (stagedObjects S τ base (done ++ ws)).length := by
  have hput : ∀ (os : List Descriptor) d, os.length ≤ (putObject os d).length := by
    intro os d
    have hkeys := congrArg List.length (putObject_keys os d)
    rw [List.length_map] at hkeys
    rw [hkeys]
    split <;> simp
  unfold stagedObjects
  rw [List.foldl_append]
  generalize done.foldl _ _ = os
  induction ws generalizing os with
  | nil => exact Nat.le_refl _
  | cons w ws ih => exact Nat.le_trans (hput _ _) (ih _)

theorem stagedObjects_snoc (done : List Write) (w : Write) :
    stagedObjects S τ base (done ++ [w]) =
      putObject (stagedObjects S τ base done) (descriptorOf S τ base w) := by
  simp [stagedObjects, List.foldl_append]

theorem wp_writeRecord {w : Write} {done : List Write} (hw : Accepted L w) (hτ : τ < 2)
    (hpos : 0 < generationOf base w)
    {Q : Except ObjErr (Descriptor × Nat) → StoreMachine → Prop}
    (hC : ∀ n : StoreMachine, n.flash = m.flash → C n)
    (hok : Q (.ok (descriptorOf S τ base w, fidOf S τ w))
      ((m.record (sealedOf S τ base w)).write (fidOf S τ w) (some (recordOf S τ base w))))
    (hbad : f.noticed → ∀ e (n : StoreMachine), n.flash = m.flash →
      (∀ k, k ≠ fidOf S τ w → n.view k = m.view k) → Q (.error e) n) :
    wp f (writeRecord L id τ w (generationOf base w) (stagedManifest S τ base done) .primary)
      Q R C m := by
  have hsize : ¬ uint32Max - recordHeaderSize - authTagSize < w.data.length :=
    Nat.not_lt.mpr hw.size
  have hcore : descriptorCoreValid (w.descriptor (generationOf base w)
      (S.fid τ w.objectType w.objectTag)) = true :=
    descriptorCoreValid_congr hpos (S.fid_ne_zero hw hτ) hw.core
  simp only [writeRecord, S.allocate hw hτ, hw.policy, if_neg hsize, hcore, Bool.true_eq_false,
    if_false, bind_eq, pure_eq, wp_bind, wp_event]
  apply wp_replaceFile
  · exact hC _ rfl
  · exact hC _ rfl
  · exact hok
  · intro hf e
    refine ⟨hbad hf e _ rfl fun _ _ => rfl, hbad hf e _ rfl ?_, hbad hf e _ rfl ?_⟩
    · intro k hk
      exact Function.update_of_ne hk _ _
    · intro k hk
      exact Function.update_of_ne hk _ _

theorem wp_writeRecords {done ws : List Write} {fids : List Nat} (hτ : τ < 2)
    (hacc : ∀ w ∈ ws, Accepted L w) (hdist : ((done ++ ws).map Write.key).Nodup)
    (hgen : ∀ o ∈ base.objects, o.generation ≠ uint32Max)
    (hroom : (stagedObjects S τ base (done ++ ws)).length ≤ manifestMaxObjects)
    {Q : List Nat × Except ObjErr Manifest → StoreMachine → Prop}
    (hC : ∀ n : StoreMachine, n.flash = m.flash → C n)
    (hok : Q (fids ++ ws.map (fidOf S τ), .ok (stagedManifest S τ base (done ++ ws)))
      (stagedMachine S τ base ws m))
    (hbad : f.noticed → ∀ e ks (n : StoreMachine), n.flash = m.flash →
      (∀ k, (∀ w ∈ ws, k ≠ fidOf S τ w) → n.view k = m.view k) →
      (∀ k ∈ ks, k ∈ fids ∨ ∃ w ∈ ws, k = fidOf S τ w) → Q (ks, .error e) n) :
    wp f (writeRecords L id τ .primary done ws fids (stagedManifest S τ base done)) Q R C m := by
  induction ws generalizing done fids m with
  | nil =>
    simp only [List.append_nil, List.map_nil] at hok
    simp only [writeRecords, pure_eq, wp_done]
    exact hok
  | cons w ws ih =>
    have hw : Accepted L w := hacc w List.mem_cons_self
    have hdone : ∀ v ∈ done, v.key ≠ w.key := by
      intro v hv he
      rw [List.map_append, List.map_cons] at hdist
      exact (List.nodup_append.mp hdist).2.2 _ (List.mem_map_of_mem hv) _ List.mem_cons_self he
    have hassoc : done ++ w :: ws = (done ++ [w]) ++ ws := by simp
    have hpos : 0 < generationOf base w := by
      unfold generationOf
      split <;> omega
    simp only [writeRecords, checkWrite_ok hw hdone hgen, bind_eq, wp_bind]
    apply wp_writeRecord hw hτ hpos hC
    · -- the record is written: the manifest has room for the object, and the loop goes on
      have hfits : ¬ ((find (stagedManifest S τ base done) w.objectType w.objectTag).isNone = true ∧
          manifestMaxObjects ≤ (stagedManifest S τ base done).objects.length) := by
        rintro ⟨hnone, hfull⟩
        have hnew : (descriptorOf S τ base w).key ∉
            (stagedObjects S τ base done).map Descriptor.key := by
          intro hmem
          obtain ⟨o, ho, hkey⟩ := List.mem_map.mp hmem
          have hnone' := List.find?_eq_none.mp (Option.isNone_iff_eq_none.mp hnone) o ho
          apply hnone'
          have hkey' : o.objectType = w.objectType ∧ o.objectTag = w.objectTag :=
            ⟨congrArg Prod.fst hkey, congrArg Prod.snd hkey⟩
          simpa using hkey'
        have hlen := congrArg List.length (putObject_keys (stagedObjects S τ base done)
          (descriptorOf S τ base w))
        rw [if_neg hnew] at hlen
        simp only [List.length_map, List.length_append, List.length_singleton] at hlen
        have hle : (stagedObjects S τ base (done ++ [w])).length ≤
            (stagedObjects S τ base ((done ++ [w]) ++ ws)).length := stagedObjects_length_le _ _
        rw [stagedObjects_snoc, ← hassoc, hlen] at hle
        have hfull' : manifestMaxObjects ≤ (stagedObjects S τ base done).length := hfull
        omega
      simp only [if_neg hfits]
      have hnext : { stagedManifest S τ base done with
          objects := putObject (stagedManifest S τ base done).objects (descriptorOf S τ base w) } =
          stagedManifest S τ base (done ++ [w]) := by
        simp only [stagedManifest, stagedObjects_snoc]
      rw [hnext]
      apply ih
      · exact fun v hv => hacc v (List.mem_cons_of_mem _ hv)
      · rw [← hassoc]
        exact hdist
      · rw [← hassoc]
        exact hroom
      · exact hC
      · have hfids : fids ++ [fidOf S τ w] ++ ws.map (fidOf S τ) =
            fids ++ (w :: ws).map (fidOf S τ) := by simp
        rw [← hassoc, hfids]
        exact hok
      · intro hf e ks n hflash hview hks
        apply hbad hf e ks n hflash
        · intro k hk
          rw [hview k fun v hv => hk v (List.mem_cons_of_mem _ hv)]
          exact Function.update_of_ne (hk w List.mem_cons_self) _ _
        · intro k hk
          rcases hks k hk with hk | ⟨v, hv, rfl⟩
          · rcases List.mem_append.mp hk with hk | hk
            · exact .inl hk
            · exact .inr ⟨w, List.mem_cons_self, List.mem_singleton.mp hk⟩
          · exact .inr ⟨v, List.mem_cons_of_mem _ hv, rfl⟩
    · intro hf e n hflash hview
      simp only [pure_eq, wp_done]
      apply hbad hf e fids n hflash
      · exact fun k hk => hview k (hk w List.mem_cons_self)
      · exact fun k hk => .inl hk

end Loop

end Container

end KeyWallet
