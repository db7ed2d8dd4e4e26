import KeyWallet.ObjectContainer
import Mathlib.Data.List.Pairwise

/-! What the containers of the layouts have in common: each object has two files, one for each
manifest slot, that belong to it alone. Over that, what it means for a set of files to hold a
container, and what loading and reading then give. -/
namespace KeyWallet

open CrashProgram

namespace Container

/-- A write that the layout and the format let through. -/
structure Accepted (L : Layout) (w : Write) : Prop where
  valid : L.writeValid w = true
  policy : L.policyKnown w.policyId = true
  core : descriptorCoreValid (w.descriptor 1 1) = true
  size : w.data.length ≤ uint32Max - recordHeaderSize - authTagSize

/-- A file that is neither a manifest nor a record of the container. -/
def Foreign (L : Layout) (id : Nat) (fid : Nat → Nat → Nat → Nat) (k : Nat) : Prop :=
  (∀ s < 2, k ≠ L.manifestFid id s) ∧
  ∀ w s, Accepted L w → s < 2 → k ≠ fid s w.objectType w.objectTag

/-- A layout whose record files are fixed by the slot and the object, with what its callbacks may
touch. -/
structure Scheme (L : Layout) (id : Nat) where
  fid : (slot objectType objectTag : Nat) → Nat
  manifest_ne : L.manifestFid id 0 ≠ L.manifestFid id 1
  manifest_ne_fid : ∀ {w s s'}, Accepted L w → s < 2 → s' < 2 →
    L.manifestFid id s ≠ fid s' w.objectType w.objectTag
  fid_ne_zero : ∀ {w s}, Accepted L w → s < 2 → fid s w.objectType w.objectTag ≠ 0
  fid_inj : ∀ {w w' s s'}, Accepted L w → Accepted L w' → s < 2 → s' < 2 →
    fid s w.objectType w.objectTag = fid s' w'.objectType w'.objectTag →
    s = s' ∧ w.objectType = w'.objectType ∧ w.objectTag = w'.objectTag
  allocate : ∀ {w s}, Accepted L w → s < 2 → L.recordAllocate id s w =
    .ok (fid s w.objectType w.objectTag, fid s w.objectType w.objectTag)
  descriptor_valid : ∀ {w s g}, Accepted L w → s < 2 →
    L.descriptorValid id (w.descriptor g (fid s w.objectType w.objectTag)) = true
  record_fid : ∀ {w s g}, Accepted L w → s < 2 →
    L.recordFid id (w.descriptor g (fid s w.objectType w.objectTag)) =
      .ok (fid s w.objectType w.objectTag)
  activate_confined : Confined (fun k _ => Foreign L id fid k) (fun _ _ => True) (L.activate id)
  activate_total : ∀ {f : Faults}, ¬ f.noticed → ∀ m,
    wp f (L.activate id) (fun _ _ => True) (fun _ _ => False) (fun _ => True) m
  retire_confined : ∀ {candidates next τ}, τ < 2 → Confined (fun k v => v = none ∧
      (k = L.manifestFid id (1 - τ) ∨ references next k = false ∧ ∀ s < 2, k ≠ L.manifestFid id s))
    (fun _ _ => True) (L.retire id candidates next τ)
  retire_total : ∀ {f : Faults} {candidates next τ},
    (∀ s c, s < 2 → candidates s = some c → ∀ o ∈ c.objects, ∃ k, L.recordFid id o = .ok k) → ∀ m,
    wp f (L.retire id candidates next τ) (fun _ _ => True) (fun _ _ => False) (fun _ => True) m
  retire_clears : ∀ {f : Faults} {candidates next τ}, ¬ f.silent → τ < 2 → ∀ m : StoreMachine,
    (candidates (1 - τ)).isSome ∨ m.view (L.manifestFid id (1 - τ)) = none →
    wp f (L.retire id candidates next τ) (fun _ n => n.view (L.manifestFid id (1 - τ)) = none)
      (fun _ _ => True) (fun _ => True) m

section Snapshot

variable {L : Layout} {id : Nat} (S : Scheme L id)

/-- The descriptor of an accepted write in one of the object's two files. -/
def Described (generation : Nat) (o : Descriptor) : Prop :=
  ∃ w g s, Accepted L w ∧ 0 < g ∧ g ≤ generation ∧ s < 2 ∧
    o = w.descriptor g (S.fid s w.objectType w.objectTag)

/-- A manifest that updates of the container can have built. -/
structure WellFormed (m : Manifest) : Prop where
  namespaceId : m.namespaceId = L.namespaceId
  containerKind : m.containerKind = L.containerKind
  containerId : m.containerId = id
  previous : m.previousGeneration < m.generation
  bound : m.generation ≤ uint32Max
  extension : m.extensionSize = 0
  nonempty : m.objects ≠ []
  count : m.objects.length ≤ manifestMaxObjects
  sorted : m.objects.IsChain descriptorBefore
  described : ∀ o ∈ m.objects, Described S m.generation o

/-- The value of each object, by its type and tag. -/
abbrev Values := Nat → Nat → Option Data

/-- The files hold the container in slot `σ`, with these values. -/
structure Live (files : Files) (σ : Nat) (m : Manifest) (vals : Values) : Prop where
  slot : σ < 2
  manifest : files (L.manifestFid id σ) = some (.manifest .primary m)
  wf : WellFormed S m
  records : ∀ o ∈ m.objects, ∃ d, files o.recordId = some (.record .primary (recordIdentity m o) d) ∧
    d.length = o.logicalSize ∧ vals o.objectType o.objectTag = some d
  named : ∀ t g, vals t g ≠ none → ∃ o ∈ m.objects, o.objectType = t ∧ o.objectTag = g

/-- The manifest in the other slot, if there is one, does not count. -/
def Behind (files : Files) (σ : Nat) (m : Manifest) : Prop :=
  files (L.manifestFid id (1 - σ)) = none ∨
  ∃ c, files (L.manifestFid id (1 - σ)) = some (.manifest .primary c) ∧ WellFormed S c ∧
    (c.generation < m.generation ∨ ∃ o ∈ c.objects, checkRecord L files id o ≠ .ok ())

/-- The files hold these values; `current` is the slot and the manifest, none when there is no
container. -/
def Holds (files : Files) (current : Option (Nat × Manifest)) (vals : Values) : Prop :=
  match current with
  | none => (∀ s < 2, files (L.manifestFid id s) = none) ∧ vals = fun _ _ => none
  | some (σ, m) => Live S files σ m vals ∧ Behind S files σ m

end Snapshot

/-! Checks over lists of descriptors. -/

theorem checkAll_ok {check : Descriptor → Except ObjErr Unit} {os : List Descriptor}
    (h : ∀ o ∈ os, check o = .ok ()) : checkAll check os = .ok () := by
  induction os with
  | nil => rfl
  | cons o os ih =>
    simp only [checkAll, h o List.mem_cons_self]
    exact ih fun p hp => h p (List.mem_cons_of_mem _ hp)

theorem checkAll_error {check : Descriptor → Except ObjErr Unit} {os : List Descriptor}
    {e : ObjErr} (he : ∀ o ∈ os, check o = .ok () ∨ check o = .error e)
    (h : ∃ o ∈ os, check o ≠ .ok ()) : checkAll check os = .error e := by
  induction os with
  | nil => obtain ⟨o, ho, -⟩ := h; exact absurd ho List.not_mem_nil
  | cons o os ih =>
    rcases he o List.mem_cons_self with ho | ho
    · simp only [checkAll, ho]
      apply ih fun p hp => he p (List.mem_cons_of_mem _ hp)
      obtain ⟨p, hp, hne⟩ := h
      rcases List.mem_cons.mp hp with rfl | hp
      · exact absurd ho hne
      · exact ⟨p, hp, hne⟩
    · simp only [checkAll, ho]

/-! Facts about single descriptors. -/
section Descriptors

variable {L : Layout} {id : Nat} {S : Scheme L id} {files : Files}

theorem descriptorCoreValid_iff (o : Descriptor) : descriptorCoreValid o = true ↔
    o.objectType ≠ 0 ∧ o.objectType ≠ 0xffff ∧ o.generation ≠ 0 ∧ o.recordId ≠ 0 ∧
    protectionAuthenticatedPublic ≤ o.protection ∧ o.protection ≤ protectionFirmwareInternal ∧
    (o.flags ||| flagMask) = flagMask ∧ o.flags &&& flagInline = 0 ∧
    (o.flags &&& flagTransactionGroup ≠ 0 ↔ o.transactionGroup ≠ 0) := by
  simp only [descriptorCoreValid, Bool.and_eq_true, decide_eq_true_eq, beq_iff_eq, decide_eq_decide,
    and_assoc]

theorem descriptorCoreValid_congr {w : Write} {g r : Nat} (hg : 0 < g) (hr : r ≠ 0)
    (h : descriptorCoreValid (w.descriptor 1 1) = true) :
    descriptorCoreValid (w.descriptor g r) = true := by
  obtain ⟨htype, hlast, -, -, hrest⟩ := (descriptorCoreValid_iff _).mp h
  exact (descriptorCoreValid_iff _).mpr ⟨htype, hlast, Nat.pos_iff_ne_zero.mp hg, hr, hrest⟩

theorem Described.core {generation : Nat} {o : Descriptor} (h : Described S generation o) :
    descriptorCoreValid o = true := by
  obtain ⟨w, g, s, hw, hg, -, hs, rfl⟩ := h
  exact descriptorCoreValid_congr hg (S.fid_ne_zero hw hs) hw.core

theorem Described.recordFid {generation : Nat} {o : Descriptor} (h : Described S generation o) :
    L.recordFid id o = .ok o.recordId := by
  obtain ⟨w, g, s, hw, -, -, hs, rfl⟩ := h
  exact S.record_fid hw hs

theorem Described.valid {generation : Nat} {o : Descriptor} (h : Described S generation o) :
    L.descriptorValid id o = true := by
  obtain ⟨w, g, s, hw, -, -, hs, rfl⟩ := h
  exact S.descriptor_valid hw hs

theorem Described.policyKnown {generation : Nat} {o : Descriptor} (h : Described S generation o) :
    L.policyKnown o.policyId = true := by
  obtain ⟨w, g, s, hw, -, -, hs, rfl⟩ := h
  exact hw.policy

theorem Described.sizes {generation : Nat} {o : Descriptor} (h : Described S generation o) :
    o.logicalSize = o.storedSize := by
  obtain ⟨w, g, s, hw, -, -, hs, rfl⟩ := h
  rfl

theorem Described.extension {generation : Nat} {o : Descriptor} (h : Described S generation o) :
    o.extensionSize = 0 := by
  obtain ⟨w, g, s, hw, -, -, hs, rfl⟩ := h
  rfl

theorem Described.mono {g g' : Nat} {o : Descriptor} (h : Described S g o) (hg : g ≤ g') :
    Described S g' o := by
  obtain ⟨w, n, s, hw, hpos, hn, hs, rfl⟩ := h
  exact ⟨w, n, s, hw, hpos, Nat.le_trans hn hg, hs, rfl⟩

theorem Described.checkRecord_cases {generation : Nat} {o : Descriptor}
    (h : Described S generation o) :
    checkRecord L files id o = .ok () ∨ checkRecord L files id o = .error .wrongData := by
  simp only [checkRecord, h.valid, h.recordFid, Bool.true_eq_false, if_false]
  split
  · exact .inr rfl
  · split
    · exact .inl rfl
    · exact .inr rfl

theorem recordHeaderParse_self {m : Manifest} {o : Descriptor} {d : Data} {r : Root}
    (hcore : descriptorCoreValid o = true) (hsize : o.logicalSize = o.storedSize)
    (hd : d.length = o.logicalSize) :
    recordHeaderParse (.record r (recordIdentity m o) d) o = .ok () := by
  have hlen : (Content.record r (recordIdentity m o) d).size =
      recordHeaderSize + o.storedSize + authTagSize := by
    rw [← hsize, ← hd]
    rfl
  have hfields : d.length = o.storedSize := hd.trans hsize
  unfold recordHeaderParse
  rw [if_neg (Bool.eq_false_iff.not.mpr (not_not.mpr hcore)), if_neg (not_not.mpr hlen)]
  dsimp only
  rw [if_pos ⟨rfl, rfl, hfields, rfl, rfl⟩]

theorem stored_record {k : Nat} {r : Root} {i : Identity} {d : Data}
    (h : files k = some (.record r i d)) : stored files k = some (.record r i d) := by
  have hpos : 0 < (Content.record r i d).size := Nat.succ_pos _
  simp [stored, h, Option.filter, hpos]

theorem stored_manifest {k : Nat} {r : Root} {m : Manifest}
    (h : files k = some (.manifest r m)) : stored files k = some (.manifest r m) := by
  have hpos : 0 < (Content.manifest r m).size := Nat.succ_pos _
  simp [stored, h, Option.filter, hpos]

theorem stored_none {k : Nat} (h : files k = none) : stored files k = none := by
  simp [stored, h]

theorem Described.checkRecord_ok {generation : Nat} {m : Manifest} {o : Descriptor} {d : Data}
    (h : Described S generation o)
    (hrec : files o.recordId = some (.record .primary (recordIdentity m o) d))
    (hd : d.length = o.logicalSize) : checkRecord L files id o = .ok () := by
  simp only [checkRecord, h.valid, h.recordFid, Bool.true_eq_false, if_false, stored_record hrec,
    recordHeaderParse_self h.core h.sizes hd]

theorem Described.unseal_ok {generation capacity : Nat} {m : Manifest} {o : Descriptor} {d : Data}
    (h : Described S generation o)
    (hrec : files o.recordId = some (.record .primary (recordIdentity m o) d))
    (hd : d.length = o.logicalSize) (hc : o.logicalSize ≤ capacity) :
    containerUnseal L files id .primary m capacity o = .ok d := by
  have hfits : ¬ (capacity < o.logicalSize ∨ o.logicalSize ≠ o.storedSize) := by
    have := h.sizes
    omega
  have hknown : ¬ L.policyKnown o.policyId = false := by
    rw [h.policyKnown]
    exact Bool.true_eq_false_eq_False
  unfold containerUnseal
  rw [if_neg hknown, h.recordFid]
  dsimp only
  rw [stored_record hrec]
  dsimp only
  unfold recordUnseal
  rw [if_neg hfits, recordHeaderParse_self h.core h.sizes hd]
  dsimp only
  rw [if_pos ⟨rfl, rfl⟩]

end Descriptors

/-! Loading, from what was found in the two slots. -/
section Loading

variable {L : Layout} {id : Nat} {files : Files}

/-- An error of a slot that makes the loader go on to the other slot. -/
def Skipped (e : ObjErr) : Prop := e = .fileNotFound ∨ e = .wrongData ∨ e = .wrongSignature

/-- What the other slot may hold: nothing that counts, or an older manifest. -/
def Outdone (m : Manifest) (r : Except ObjErr Manifest) : Prop :=
  match r with
  | .ok c => c.generation < m.generation
  | .error e => Skipped e

theorem loadWithCrypto_of_parse {root : Root} {σ : Nat} {m : Manifest} (hσ : σ < 2)
    (hm : parseSlot L files id root σ = .ok m)
    (hother : Outdone m (parseSlot L files id root (1 - σ))) :
    ∃ candidates, loadWithCrypto L files id root = .ok ⟨candidates, root, σ⟩ ∧
      candidates σ = some m ∧
      candidates (1 - σ) = (parseSlot L files id root (1 - σ)).toOption := by
  generalize hr : parseSlot L files id root (1 - σ) = r at hother
  match σ, hσ with
  | 0, _ =>
    refine ⟨fun s => if s = 1 then r.toOption else if s = 0 then some m else none, ?_, rfl, rfl⟩
    match r, hother with
    | .ok c, hgen =>
      have hgen : c.generation < m.generation := hgen
      have hne : m.generation ≠ c.generation := by omega
      simp only [Nat.sub_zero] at hr
      simp only [loadWithCrypto, scanSlot, hm, hr, hne, if_false, Nat.not_lt.mpr (Nat.le_of_lt hgen)]
      congr 2
      funext s
      simp [Function.update_apply, Except.toOption]
    | .error e, hs =>
      simp only [Nat.sub_zero] at hr
      rcases hs with rfl | rfl | rfl <;>
      · simp only [loadWithCrypto, scanSlot, hm, hr]
        congr 2
        funext s
        by_cases h1 : s = 1 <;> simp [Function.update_apply, Except.toOption, h1]
  | 1, _ =>
    refine ⟨fun s => if s = 1 then some m else if s = 0 then r.toOption else none, ?_, rfl, rfl⟩
    match r, hother with
    | .ok c, hgen =>
      have hgen : c.generation < m.generation := hgen
      have hne : c.generation ≠ m.generation := by omega
      simp only [Nat.sub_self] at hr
      simp only [loadWithCrypto, scanSlot, hm, hr, hne, if_false, hgen, if_true]
      congr 2
      funext s
      simp [Function.update_apply, Except.toOption]
    | .error e, hs =>
      simp only [Nat.sub_self] at hr
      rcases hs with rfl | rfl | rfl <;>
      · simp only [loadWithCrypto, scanSlot, hm, hr]
        congr 2
        funext s
        by_cases h0 : s = 0 <;> simp [Function.update_apply, Except.toOption, h0]

theorem load_of_parse {σ : Nat} {m : Manifest} (legacy : Bool) (hσ : σ < 2)
    (hm : parseSlot L files id .primary σ = .ok m)
    (hother : Outdone m (parseSlot L files id .primary (1 - σ))) :
    ∃ candidates, load L files id legacy = .ok ⟨candidates, .primary, σ⟩ ∧
      candidates σ = some m ∧
      candidates (1 - σ) = (parseSlot L files id .primary (1 - σ)).toOption := by
  obtain ⟨candidates, hload, hc⟩ := loadWithCrypto_of_parse hσ hm hother
  exact ⟨candidates, by simp only [load, hload], hc⟩

theorem parseSlot_absent {root : Root} {s : Nat} (h : files (L.manifestFid id s) = none) :
    parseSlot L files id root s = .error .fileNotFound := by
  simp only [parseSlot, stored_none h]

theorem load_absent (legacy : Bool) (h : ∀ s < 2, files (L.manifestFid id s) = none) :
    load L files id legacy = .error .fileNotFound := by
  have h0 := h 0 (by decide)
  have h1 := h 1 (by decide)
  simp [load, loadWithCrypto, scanSlot, parseSlot_absent h0, parseSlot_absent h1, stored_none h0,
    stored_none h1]

/-- Nothing that counts in either slot, although there is a file. -/
theorem load_nothing (legacy : Bool) {σ : Nat} (hσ : σ < 2)
    (h : ∀ root s, s < 2 → ∃ e, parseSlot L files id root s = .error e ∧ Skipped e)
    (hstored : (stored files (L.manifestFid id σ)).isSome = true) :
    load L files id legacy = .error .wrongData := by
  have hcrypto : ∀ root, loadWithCrypto L files id root = .error .wrongData := by
    intro root
    obtain ⟨e₀, h₀, hs₀⟩ := h root 0 (by decide)
    obtain ⟨e₁, h₁, hs₁⟩ := h root 1 (by decide)
    have hpresent : ((stored files (L.manifestFid id 0)).isSome ||
        (stored files (L.manifestFid id 1)).isSome) = true := by
      match σ, hσ with
      | 0, _ => rw [hstored, Bool.true_or]
      | 1, _ => rw [hstored, Bool.or_true]
    rcases hs₀ with rfl | rfl | rfl <;> rcases hs₁ with rfl | rfl | rfl <;>
    · simp only [loadWithCrypto, scanSlot, h₀, h₁, Bool.false_or]
      rw [if_pos hpresent]
  simp only [load, hcrypto, ite_self]

end Loading

/-! What a held container loads and reads as. -/
section Held

variable {L : Layout} {id : Nat} {S : Scheme L id} {files : Files} {σ : Nat} {m : Manifest}
  {vals : Values}

theorem WellFormed.size_le (h : WellFormed S m) (r : Root) :
    ¬ ((Content.manifest r m).size < manifestHeaderSize + authTagSize ∨
      uint16Max < (Content.manifest r m).size) := by
  have hcount := h.count
  simp only [Content.size, h.extension, manifestHeaderSize, authTagSize, descriptorSize, uint16Max,
    manifestMaxObjects] at *
  omega

theorem WellFormed.valid (h : WellFormed S m) : descriptorsValid m.objects = true := by
  simp only [descriptorsValid, Bool.and_eq_true, List.all_eq_true, decide_eq_true_eq]
  exact ⟨fun o ho => (h.described o ho).core, h.sorted⟩

theorem WellFormed.manifestParse_eq (h : WellFormed S m) :
    manifestParse .primary (.manifest .primary m) = .ok m := by
  have hcount : ¬ manifestMaxObjects < m.objects.length := Nat.not_lt.mpr h.count
  have hgen : ¬ (m.generation = 0 ∨ m.generation ≤ m.previousGeneration) := by
    have := h.previous
    omega
  simp only [manifestParse, if_neg (h.size_le _), hcount, hgen, h.valid,
    ne_eq, not_true_eq_false, Bool.true_eq_false, if_false]

theorem WellFormed.parse_cases (h : WellFormed S m) {s : Nat}
    (hm : files (L.manifestFid id s) = some (.manifest .primary m)) :
    parseSlot L files id .primary s = .ok m ∧ (∀ o ∈ m.objects, checkRecord L files id o = .ok ()) ∨
    parseSlot L files id .primary s = .error .wrongData ∧
      ∃ o ∈ m.objects, checkRecord L files id o ≠ .ok () := by
  by_cases hall : ∀ o ∈ m.objects, checkRecord L files id o = .ok ()
  · refine .inl ⟨?_, hall⟩
    simp only [parseSlot, stored_manifest hm, h.manifestParse_eq, h.namespaceId, h.containerKind,
      h.containerId, h.nonempty, ne_eq, not_true_eq_false, or_self, if_false, checkAll_ok hall]
  · push Not at hall
    have herr := checkAll_error (fun o ho => (h.described o ho).checkRecord_cases) hall
    refine .inr ⟨?_, hall⟩
    simp only [parseSlot, stored_manifest hm, h.manifestParse_eq, h.namespaceId, h.containerKind,
      h.containerId, h.nonempty, ne_eq, not_true_eq_false, or_self, if_false, herr]

theorem WellFormed.parse_legacy (h : WellFormed S m) {s : Nat}
    (hm : files (L.manifestFid id s) = some (.manifest .primary m)) :
    parseSlot L files id .legacy s = .error .wrongSignature := by
  have hcount : ¬ manifestMaxObjects < m.objects.length := Nat.not_lt.mpr h.count
  simp only [parseSlot, stored_manifest hm, manifestParse, if_neg (h.size_le _), if_neg hcount,
    ne_eq, reduceCtorEq, not_false_eq_true, if_true]

theorem Live.parses (h : Live S files σ m vals) : parseSlot L files id .primary σ = .ok m := by
  rcases h.wf.parse_cases h.manifest with ⟨hp, -⟩ | ⟨-, o, ho, hne⟩
  · exact hp
  · obtain ⟨d, hrec, hd, -⟩ := h.records o ho
    exact absurd ((h.wf.described o ho).checkRecord_ok hrec hd) hne

theorem Behind.outdone (h : Behind S files σ m) :
    Outdone m (parseSlot L files id .primary (1 - σ)) := by
  rcases h with h | ⟨c, hc, hwf, hold⟩
  · rw [parseSlot_absent h]
    exact .inl rfl
  · rcases hwf.parse_cases hc with ⟨hp, hall⟩ | ⟨hp, -⟩
    · rw [hp]
      rcases hold with hold | ⟨o, ho, hne⟩
      · exact hold
      · exact absurd (hall o ho) hne
    · rw [hp]
      exact .inr (.inl rfl)

theorem Behind.candidate {c : Manifest} (h : Behind S files σ m)
    (hc : (parseSlot L files id .primary (1 - σ)).toOption = some c) : WellFormed S c := by
  rcases h with h | ⟨c', hc', hwf, -⟩
  · rw [parseSlot_absent h] at hc
    exact absurd hc (by simp [Except.toOption])
  · rcases hwf.parse_cases hc' with ⟨hp, -⟩ | ⟨hp, -⟩
    · rw [hp] at hc
      exact Option.some.inj hc ▸ hwf
    · rw [hp] at hc
      exact absurd hc (by simp [Except.toOption])

theorem Live.loads (h : Live S files σ m vals) (hb : Behind S files σ m) (legacy : Bool) :
    ∃ candidates, load L files id legacy = .ok ⟨candidates, .primary, σ⟩ ∧ candidates σ = some m ∧
      ∀ c, candidates (1 - σ) = some c → WellFormed S c := by
  obtain ⟨candidates, hload, hσ, hother⟩ := load_of_parse legacy h.slot h.parses hb.outdone
  exact ⟨candidates, hload, hσ, fun c hc => hb.candidate (hother ▸ hc)⟩

theorem descriptors_unique {os : List Descriptor} (h : os.IsChain descriptorBefore)
    {o o' : Descriptor} (ho : o ∈ os) (ho' : o' ∈ os) (ht : o.objectType = o'.objectType)
    (hg : o.objectTag = o'.objectTag) : o = o' := by
  have htrans : IsTrans Descriptor descriptorBefore := ⟨by
    intro a b c hab hbc
    simp only [descriptorBefore] at *
    omega⟩
  have hpair : os.Pairwise descriptorBefore := List.isChain_iff_pairwise.mp h
  have hboth : os.Pairwise fun a b => descriptorBefore a b ∨ descriptorBefore b a :=
    hpair.imp Or.inl
  have hsymm : Std.Symm fun a b => descriptorBefore a b ∨ descriptorBefore b a := ⟨fun _ _ => Or.symm⟩
  by_contra hne
  have := hboth.forall ho ho' hne
  simp only [descriptorBefore] at this
  omega

theorem WellFormed.find_eq (h : WellFormed S m) {o : Descriptor} (ho : o ∈ m.objects) :
    find m o.objectType o.objectTag = some o := by
  cases hf : find m o.objectType o.objectTag with
  | none =>
    have := List.find?_eq_none.mp hf o ho
    simp at this
  | some o' =>
    have hkey := List.find?_some hf
    simp only [decide_eq_true_eq] at hkey
    rw [descriptors_unique h.sorted (List.mem_of_find?_eq_some hf) ho hkey.1 hkey.2]

theorem find_mem {t g : Nat} {o : Descriptor} (h : find m t g = some o) :
    o ∈ m.objects ∧ o.objectType = t ∧ o.objectTag = g := by
  have hkey := List.find?_some h
  simp only [decide_eq_true_eq] at hkey
  exact ⟨List.mem_of_find?_eq_some h, hkey⟩

theorem Live.validates (h : Live S files σ m vals) : validate L files id .primary m = .ok () := by
  apply checkAll_ok
  intro o ho
  obtain ⟨d, hrec, hd, -⟩ := h.records o ho
  simp only [checkOpens, (h.wf.described o ho).unseal_ok hrec hd (Nat.le_refl _), hd, ne_eq,
    not_true_eq_false, if_false]

theorem Holds.read {current : Option (Nat × Manifest)} (h : Holds S files current vals)
    (legacy : Bool) {capacity : Nat} (t g : Nat) (hc : ∀ d, vals t g = some d → d.length ≤ capacity) :
    read L files id legacy capacity t g =
      match vals t g with
      | none => .error .fileNotFound
      | some d => .ok d := by
  match current, h with
  | none, ⟨habsent, hvals⟩ => simp only [Container.read, load_absent legacy habsent, hvals]
  | some (σ, m), ⟨hl, hb⟩ =>
    obtain ⟨candidates, hload, hσ, -⟩ := hl.loads hb legacy
    simp only [Container.read, hload, hσ]
    cases hf : find m t g with
    | none =>
      cases hv : vals t g with
      | none => rfl
      | some d =>
        obtain ⟨o, ho, rfl, rfl⟩ := hl.named t g (by simp [hv])
        exact absurd (hf.symm.trans (hl.wf.find_eq ho)) (by simp)
    | some o =>
      obtain ⟨ho, rfl, rfl⟩ := find_mem hf
      obtain ⟨d, hrec, hd, hv⟩ := hl.records o ho
      have hcap : o.logicalSize ≤ capacity := hd ▸ hc d hv
      simp only [(hl.wf.described o ho).unseal_ok hrec hd hcap, hv]

theorem Holds.base {current : Option (Nat × Manifest)} (h : Holds S files current vals)
    (legacy validated : Bool) : ∃ candidates,
      baseOf L files id legacy validated = .ok ⟨.primary, candidates, current⟩ ∧
      (∀ s c, s < 2 → candidates s = some c → WellFormed S c) ∧
      ∀ σ m, current = some (σ, m) → candidates σ = some m := by
  match current, h with
  | none, ⟨habsent, _⟩ =>
    refine ⟨fun _ => none, by simp only [baseOf, load_absent legacy habsent], ?_, ?_⟩
    · intro s c _ hc
      exact absurd hc (by simp)
    · intro σ m hm
      exact absurd hm (by simp)
  | some (σ, m), ⟨hl, hb⟩ =>
    obtain ⟨candidates, hload, hσ, hother⟩ := hl.loads hb legacy
    refine ⟨candidates, ?_, ?_, ?_⟩
    · cases validated <;> simp [baseOf, hload, selectValid, hσ, hl.validates]
    · intro s c hs hc
      have hslot := hl.slot
      by_cases he : s = σ
      · subst he
        rw [hσ] at hc
        exact Option.some.inj hc ▸ hl.wf
      · have hs' : s = 1 - σ := by omega
        exact hother c (hs' ▸ hc)
    · intro σ' m' hm
      obtain ⟨rfl, rfl⟩ := Prod.mk.inj (Option.some.inj hm)
      exact hσ

end Held

end Container

end KeyWallet
