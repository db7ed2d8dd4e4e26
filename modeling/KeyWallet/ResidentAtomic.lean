import KeyWallet.ResidentContainer
import Mathlib.Data.List.Find

/-! When an interrupted call on a resident container leaves the old values or the new ones. -/
namespace KeyWallet

open CrashProgram

namespace Container.Resident

/-! The files of a slot are all different. -/

theorem mem_objectTypes {t : Nat} : t ∈ objectTypes ↔ 1 ≤ t ∧ t ≤ 7 := by
  simp only [objectTypes, List.mem_cons, List.not_mem_nil, or_false]
  omega

theorem objectTypeValid_iff {t : Nat} : objectTypeValid t = true ↔ t ∈ objectTypes := by
  simp only [objectTypeValid, Bool.and_eq_true, decide_eq_true_eq, mem_objectTypes]
  rfl

theorem accepted_type {w : Write} (h : Accepted layout w) :
    w.objectType ∈ objectTypes ∧ w.objectTag = 0 := by
  have hv : (objectTypeValid w.objectType && w.objectTag = 0 && w.policyId = policyId &&
      w.keyDomain = 0) = true := h.valid
  simp only [Bool.and_eq_true, decide_eq_true_eq, objectTypeValid_iff] at hv
  exact ⟨hv.1.1.1, hv.1.1.2⟩

/-- The high byte of a record file. -/
def recordPrefix (manifestSlot objectType : Nat) : Nat :=
  if objectType = objectMetadata then (if manifestSlot = 0 then 0xdb else 0xdc)
  else if objectType = objectPrivateKey then (if manifestSlot = 0 then 0xe0 else 0xe1)
  else if objectType = objectState then (if manifestSlot = 0 then 0xe2 else 0xe3)
  else (if manifestSlot = 0 then 0xd3 else 0xd7) + objectType - 1

theorem recordFid_eq {slot s t : Nat} (ht : t ∈ objectTypes) :
    recordFid slot s t = recordPrefix s t * 256 + slot % 256 := by
  have hslot : slot % 256 < 256 := Nat.mod_lt _ (by decide)
  rw [mem_objectTypes] at ht
  simp only [recordFid, recordPrefix]
  split_ifs with h5 h6 h7 h0
  all_goals simp only [objectMetadata, objectPrivateKey, objectState] at *
  all_goals omega

theorem recordPrefix_inj : ∀ s ∈ [0, 1], ∀ s' ∈ [0, 1], ∀ t ∈ objectTypes, ∀ t' ∈ objectTypes,
    recordPrefix s t = recordPrefix s' t' → s = s' ∧ t = t' := by decide

theorem recordPrefix_range : ∀ s ∈ [0, 1], ∀ t ∈ objectTypes,
    0xd3 ≤ recordPrefix s t ∧ recordPrefix s t ≤ 0xe3 := by decide

theorem mem_slots {s : Nat} (h : s < 2) : s ∈ [0, 1] := by
  simp only [List.mem_cons, List.not_mem_nil, or_false]
  omega

theorem recordFid_inj {slot s s' t t' : Nat} (hs : s < 2) (hs' : s' < 2) (ht : t ∈ objectTypes)
    (ht' : t' ∈ objectTypes) (h : recordFid slot s t = recordFid slot s' t') : s = s' ∧ t = t' := by
  rw [recordFid_eq ht, recordFid_eq ht'] at h
  apply recordPrefix_inj s (mem_slots hs) s' (mem_slots hs') t ht t' ht'
  omega

theorem recordFid_range (slot : Nat) {s t : Nat} (hs : s < 2) (ht : t ∈ objectTypes) :
    0xd300 ≤ recordFid slot s t ∧ recordFid slot s t < 0xe400 := by
  have hrange := recordPrefix_range s (mem_slots hs) t ht
  rw [recordFid_eq ht]
  omega

theorem manifestFid_range (slot s : Nat) :
    0xd100 ≤ manifestFid slot s ∧ manifestFid slot s < 0xd300 := by
  rw [manifestFid]
  split_ifs <;> omega

/-! The layout is one with fixed files. -/

theorem layout_manifestFid (slot s : Nat) : layout.manifestFid slot s = manifestFid slot s := by
  show manifestFid (slot % 256) s = manifestFid slot s
  simp [manifestFid]

theorem recordIdValid_self {slot : Nat} (hslot : slot < 256) {w : Write} {s g : Nat} (hs : s < 2)
    (hw : w.objectType ∈ objectTypes) :
    recordIdValid (slot % 256) (w.descriptor g (recordFid slot s w.objectType)) = true := by
  have hrange := recordFid_range slot hs hw
  have hok : ¬ (objectTypeValid w.objectType = false ∨
      uint16Max < recordFid slot s w.objectType) := by
    simp only [objectTypeValid_iff.mpr hw, uint16Max, Bool.true_eq_false, false_or]
    omega
  have hslots : s = 0 ∨ s = 1 := by omega
  have hfile : recordFid slot s w.objectType = recordFid slot 0 w.objectType ∨
      recordFid slot s w.objectType = recordFid slot 1 w.objectType := by
    rcases hslots with rfl | rfl
    · exact .inl rfl
    · exact .inr rfl
  simp only [recordIdValid, Write.descriptor, Nat.mod_eq_of_lt hslot, if_neg hok, if_pos hfile]

theorem markerWrite_confined (slot : Nat) :
    Confined (fun k _ => k = efCred + slot) (fun _ _ => True) (markerWrite slot) := by
  apply Confined.bind (replaceFile_confined _ _)
  intro r
  cases r with
  | error e => exact trivial
  | ok u =>
    intro b
    cases b <;> exact trivial

theorem activate_confined (slot : Nat) :
    Confined (fun k _ => k = efCred + slot % 256) (fun _ _ => True) (activate slot) := by
  intro s v
  by_cases h : v (efCred + slot % 256) = some (.marker .resident (slot % 256))
  · simp only [h, decide_true, Prog.bind, if_true]
    exact trivial
  · simp only [h, decide_false, Prog.bind, Bool.false_eq_true, if_false]
    exact markerWrite_confined _

theorem activate_total {f : Faults} (hf : ¬ f.noticed) (slot : Nat) (m : StoreMachine) :
    wp f (activate slot) (fun _ _ => True) (fun _ _ => False) (fun _ => True) m := by
  by_cases h : m.view (efCred + slot % 256) = some (.marker .resident (slot % 256))
  · simp [activate, h]
  · simp only [activate, bind_eq, wp_bind, wp_consult, h, decide_false, Bool.false_eq_true, if_false,
      markerWrite]
    apply wp_replaceFile trivial trivial
    · simp [hf]
    · exact fun hn => absurd hn hf

/-- The scheme of the resident containers. -/
def scheme {slot : Nat} (hslot : slot < 256) : Scheme layout slot where
  fid := fun s t _ => recordFid slot s t
  manifest_ne := by
    simp only [layout_manifestFid, manifestFid, if_true, Nat.one_ne_zero, if_false]
    omega
  manifest_ne_fid := by
    intro w s s' hw hs hs'
    have h1 := recordFid_range slot hs' (accepted_type hw).1
    have h2 := manifestFid_range slot s
    rw [layout_manifestFid]
    omega
  fid_ne_zero := by
    intro w s hw hs
    have h1 := recordFid_range slot hs (accepted_type hw).1
    omega
  fid_inj := by
    intro w w' s s' hw hw' hs hs' h
    obtain ⟨h1, h2⟩ := recordFid_inj hs hs' (accepted_type hw).1 (accepted_type hw').1 h
    exact ⟨h1, h2, (accepted_type hw).2.trans (accepted_type hw').2.symm⟩
  allocate := by
    intro w s hw hs
    have hok : ¬ (255 < slot ∨ objectTypeValid w.objectType = false) := by
      simp only [objectTypeValid_iff.mpr (accepted_type hw).1, Bool.true_eq_false, or_false]
      omega
    simp only [layout, if_neg hok]
  descriptor_valid := by
    intro w s g hw hs
    have hle : slot ≤ 255 := by omega
    have htag : (w.descriptor g (recordFid slot s w.objectType)).objectTag = 0 := (accepted_type hw).2
    simp only [layout, hle, htag, recordIdValid_self hslot hs (accepted_type hw).1, decide_true,
      Bool.and_self]
  record_fid := by
    intro w s g hw hs
    have hok : ¬ (255 < slot ∨ recordIdValid (slot % 256)
        (w.descriptor g (recordFid slot s w.objectType)) = false) := by
      simp only [recordIdValid_self hslot hs (accepted_type hw).1, Bool.true_eq_false, or_false]
      omega
    simp only [layout, if_neg hok]
    rfl
  activate_confined := by
    apply (activate_confined slot).mono
    · rintro k v rfl
      refine ⟨fun s _ => ?_, fun w s hw hs => ?_⟩
      · have h2 := manifestFid_range slot s
        rw [layout_manifestFid]
        simp only [efCred]
        omega
      · have h1 := recordFid_range slot hs (accepted_type hw).1
        simp only [efCred]
        omega
    · exact fun _ _ h => h
  activate_total := fun hf m => activate_total hf slot m
  retire_confined := by
    intro candidates next τ hτ
    apply sweep_confined hτ
    intro s hs t ht s' _
    have h1 := recordFid_range (slot % 256) hs ht
    have h2 := manifestFid_range slot s'
    rw [layout_manifestFid]
    omega
  retire_total := by
    intro f candidates next τ _ m
    exact wp_of_total (p := retire slot candidates next τ) sweep_total m
  retire_clears := by
    intro f candidates next τ hf hτ m _
    exact sweep_clears hf hτ m

/-! The calls, one after the other. -/

/-- The machine after these calls, none of them disturbed. -/
def history (slot : Nat) (legacy : Bool) (calls : List Call) (m : StoreMachine) : StoreMachine :=
  calls.foldl (fun n c => (exec (c.run slot legacy) n []).2.1) m

/-- There is no container in the slot. -/
def Vacant (slot : Nat) (files : Files) : Prop := ∀ s < 2, files (manifestFid slot s) = none

/-- file_object_container_read with a buffer that is large enough. -/
def readObject (slot : Nat) (legacy : Bool) (files : Files) (objectType : Nat) :
    Except ObjErr Data :=
  read layout files slot legacy uint32Max objectType 0

/-- The container loads. -/
def loads (slot : Nat) (legacy : Bool) (files : Files) : Bool :=
  (load layout files slot legacy).isOk

/-- What an object reads as once these writes have been made. -/
def readAfter (slot : Nat) (legacy : Bool) (files : Files) (ws : List Write) (objectType : Nat) :
    Except ObjErr Data :=
  match ws.find? fun w => w.objectType = objectType with
  | none => readObject slot legacy files objectType
  | some w => .ok w.data

/-- What was there before the call loads, and all objects read as before it or all as it was writing
them. -/
def Atomic (slot : Nat) (legacy : Bool) (before : Files) (c : Call) (after : Files) : Prop :=
  (loads slot legacy before = true → loads slot legacy after = true) ∧
  ((∀ t, readObject slot legacy after t = readObject slot legacy before t) ∨
    ∃ ws, c.writes slot legacy before = .ok ws ∧
      ∀ t, readObject slot legacy after t = readAfter slot legacy before ws t)

/-- The call writes an object whose record is in the file that the next generation uses. -/
def overwrites (slot : Nat) (legacy : Bool) (files : Files) (c : Call) : Bool :=
  match c.writes slot legacy files, load layout files slot legacy with
  | .ok ws, .ok st =>
    match st.candidates st.currentSlot with
    | some m =>
      m.generation ≠ uint32Max && ws.any fun w => m.objects.any fun o =>
        o.objectType = w.objectType && o.recordId = recordFid slot (1 - st.currentSlot) w.objectType
    | none => false
  | _, _ => false

theorem overwrites_iff_exists {slot : Nat} {legacy : Bool} {files : Files} {c : Call} :
    overwrites slot legacy files c = true ↔
    ∃ ws st m, c.writes slot legacy files = .ok ws ∧ load layout files slot legacy = .ok st ∧
      st.candidates st.currentSlot = some m ∧ m.generation ≠ uint32Max ∧
      ∃ w ∈ ws, ∃ o ∈ m.objects, o.objectType = w.objectType ∧
        o.recordId = recordFid slot (1 - st.currentSlot) w.objectType := by
  constructor
  · intro h
    unfold overwrites at h
    split at h
    · next ws st hws hload =>
      split at h
      · next m hm =>
        simp only [Bool.and_eq_true, List.any_eq_true, decide_eq_true_eq] at h
        exact ⟨ws, st, m, hws, hload, hm, h⟩
      · exact absurd h (by decide)
    · exact absurd h (by decide)
  · rintro ⟨ws, st, m, hws, hload, hm, h⟩
    simp only [overwrites, hws, hload, hm, Bool.and_eq_true, List.any_eq_true, decide_eq_true_eq]
    exact h

theorem residentWrite_accepted {t p g : Nat} {d : Data} (ht : t ∈ objectTypes)
    (hp : p = protectionAuthenticatedPublic ∨ p = protectionAeadSecret)
    (hg : g ∈ [0, flagMutable, flagMutable ||| flagNonExportable])
    (hd : d.length ≤ uint32Max - recordHeaderSize - authTagSize) :
    Accepted layout (residentWrite t p g d) := by
  refine ⟨?_, rfl, ?_, hd⟩
  · show (objectTypeValid t && decide (0 = 0) && decide (policyId = policyId) && decide (0 = 0)) = true
    simp [objectTypeValid_iff.mpr ht]
  · have hlast := mem_objectTypes.mp ht
    rw [descriptorCoreValid_iff]
    show t ≠ 0 ∧ t ≠ 0xffff ∧ 1 ≠ 0 ∧ 1 ≠ 0 ∧ protectionAuthenticatedPublic ≤ p ∧
      p ≤ protectionFirmwareInternal ∧ (g ||| flagMask) = flagMask ∧ g &&& flagInline = 0 ∧
      (g &&& flagTransactionGroup ≠ 0 ↔ 0 ≠ 0)
    have hflags : (g ||| flagMask) = flagMask ∧ g &&& flagInline = 0 ∧
        g &&& flagTransactionGroup = 0 := by
      simp only [List.mem_cons, List.not_mem_nil, or_false] at hg
      rcases hg with rfl | rfl | rfl <;> decide
    have hprot : protectionAuthenticatedPublic ≤ p ∧ p ≤ protectionFirmwareInternal := by
      rcases hp with rfl | rfl <;> decide
    refine ⟨by omega, by omega, by decide, by decide, hprot.1, hprot.2, hflags.1, hflags.2.1, ?_⟩
    simp [hflags.2.2]

theorem length_le_of_types {ts : List Nat} (hsub : ∀ t ∈ ts, t ∈ objectTypes) (hts : ts.Nodup) :
    ts.length ≤ manifestMaxObjects := by
  calc ts.length ≤ objectTypes.length := (List.subperm_of_subset hts hsub).length_le
    _ ≤ manifestMaxObjects := by decide

theorem writes_of_types {ws : List Write} (hne : ws ≠ []) (hacc : ∀ w ∈ ws, Accepted layout w)
    (htypes : (ws.map Write.objectType).Nodup) : Writes layout ws := by
  refine ⟨hne, ?_, hacc, ?_⟩
  · rw [← List.length_map (f := Write.objectType)]
    apply length_le_of_types _ htypes
    intro t ht
    obtain ⟨w, hw, rfl⟩ := List.mem_map.mp ht
    exact (accepted_type (hacc w hw)).1
  · apply List.Nodup.of_map Prod.fst
    rw [List.map_map]
    exact htypes

theorem identityWrites_accepted (rpIdHash : RpIdHash) (clientId credential publicKey : Blob) :
    ∀ w ∈ identityWrites rpIdHash clientId credential publicKey, Accepted layout w := by
  intro w hw
  have hhash : rpIdHash.1.length ≤ uint32Max - recordHeaderSize - authTagSize := by
    rw [rpIdHash.2]
    decide
  simp only [identityWrites, List.mem_cons, List.not_mem_nil, or_false] at hw
  rcases hw with rfl | rfl | rfl | rfl
  · exact residentWrite_accepted (by decide) (.inl rfl) (by decide) hhash
  · exact residentWrite_accepted (by decide) (.inl rfl) (by decide) clientId.2
  · exact residentWrite_accepted (by decide) (.inr rfl) (by decide) credential.2
  · exact residentWrite_accepted (by decide) (.inl rfl) (by decide) publicKey.2

theorem metadataWrite_accepted (d : Blob) : Accepted layout (metadataWrite d.1) :=
  residentWrite_accepted (by decide) (.inl rfl) (by decide) d.2

theorem privateKeyWrite_accepted (d : Blob) : Accepted layout (privateKeyWrite d.1) :=
  residentWrite_accepted (by decide) (.inr rfl) (by decide) d.2

theorem stateWrite_accepted {d : Data} (h : d.length = metadataSize) :
    Accepted layout (stateWrite d) := by
  apply residentWrite_accepted (by decide) (.inl rfl) (by decide)
  rw [h]
  decide

theorem Call.writes_valid {slot : Nat} {legacy : Bool} {files : Files} {c : Call} {ws : List Write}
    (h : c.writes slot legacy files = .ok ws) : Writes layout ws := by
  have hsingle : ∀ w, Accepted layout w → Writes layout [w] := by
    intro w hw
    apply writes_of_types (List.cons_ne_nil _ _)
    · intro v hv
      exact List.mem_singleton.mp hv ▸ hw
    · exact List.nodup_singleton _
  cases c with
  | create rpIdHash clientId credential publicKey =>
    rw [← Except.ok.inj h]
    apply writes_of_types
    · simp [identityWrites]
    · intro w hw
      rcases List.mem_append.mp hw with hw | hw
      · exact identityWrites_accepted _ _ _ _ w hw
      · simp only [List.mem_cons, List.not_mem_nil, or_false] at hw
        rcases hw with rfl | rfl
        · exact metadataWrite_accepted ⟨_, by decide⟩
        · exact stateWrite_accepted rfl
    · show [1, 2, 3, 4, 5, 7].Nodup
      decide
  | createImported rpIdHash clientId credential publicKey privateKey metadata =>
    simp only [Call.writes] at h
    split at h
    · exact absurd h (by simp)
    · rw [← Except.ok.inj h]
      apply writes_of_types
      · simp [identityWrites]
      · intro w hw
        rcases List.mem_append.mp hw with hw | hw
        · exact identityWrites_accepted _ _ _ _ w hw
        · simp only [List.mem_cons, List.not_mem_nil, or_false] at hw
          rcases hw with rfl | rfl | rfl
          · exact metadataWrite_accepted _
          · exact privateKeyWrite_accepted _
          · exact stateWrite_accepted rfl
      · show [1, 2, 3, 4, 5, 6, 7].Nodup
        decide
  | updateCredential credential =>
    rw [← Except.ok.inj h]
    exact hsingle _ (residentWrite_accepted (by decide) (.inr rfl) (by decide) credential.2)
  | updateMetadata metadata =>
    have hstate := hsingle _ (stateWrite_accepted (d := metadataEncode metadata) rfl)
    simp only [Call.writes] at h
    split at h
    · exact absurd h (by simp)
    · split at h
      · split at h
        · exact absurd h (by simp)
        · exact Except.ok.inj h ▸ hstate
      · exact Except.ok.inj h ▸ hstate
      · exact absurd h (by simp)
  | updateMetadataBlob metadata =>
    simp only [Call.writes] at h
    split at h
    · exact absurd h (by simp)
    · exact Except.ok.inj h ▸ hsingle _ (metadataWrite_accepted metadata)
  | updatePrivateKey privateKey =>
    exact Except.ok.inj h ▸ hsingle _ (privateKeyWrite_accepted privateKey)

theorem room {slot : Nat} (hslot : slot < 256) {files : Files} {current : Option (Nat × Manifest)}
    {vals : Values} {ws : List Write} (h : Steady (scheme hslot) files current vals)
    (hws : Writes layout ws) : Room (scheme hslot) current ws := by
  have hkeys : ((startOf layout slot current).objects.map Descriptor.key).Nodup := by
    rw [startOf_objects]
    exact h.keys
  unfold Room
  rw [← List.length_map (f := Descriptor.objectType)]
  have hkey : ∀ o ∈ stagedObjects (scheme hslot) (targetSlotOf current)
      (startOf layout slot current) ws, o.objectType ∈ objectTypes ∧ o.objectTag = 0 := by
    intro o ho
    rcases (mem_stagedObjects hkeys hws.distinct o).mp ho with ⟨w, hw, rfl⟩ | ⟨ho, -⟩
    · exact accepted_type (hws.accepted w hw)
    · rw [startOf_objects] at ho
      obtain ⟨⟨g, -, w, n, s, hw, -, -, -, rfl⟩, -⟩ := h.object ho
      exact accepted_type hw
  apply length_le_of_types
  · intro t ht
    obtain ⟨o, ho, rfl⟩ := List.mem_map.mp ht
    exact (hkey o ho).1
  · -- the tags are all zero, so the types tell the objects apart
    have hnodup : ((stagedObjects (scheme hslot) (targetSlotOf current)
        (startOf layout slot current) ws).map Descriptor.key).Nodup := stagedObjects_nodup hkeys
    apply List.Nodup.map_on _ (List.Nodup.of_map _ hnodup)
    intro o ho o' ho' ht
    apply List.inj_on_of_nodup_map hnodup ho ho'
    exact Prod.ext ht ((hkey o ho).2.trans (hkey o' ho').2.symm)

section Runs

variable {slot : Nat} (hslot : slot < 256) {legacy : Bool} {files : Files} {m : StoreMachine}
  {current : Option (Nat × Manifest)} {vals : Values} {ws : List Write} {c : Call}

/-- What the value of an object reads as. -/
def shown : Option Data → Except ObjErr Data
  | none => .error .fileNotFound
  | some d => .ok d

variable {hslot}

theorem value_le (h : Holds (scheme hslot) files current vals) {t g : Nat} {d : Data}
    (hd : vals t g = some d) : d.length ≤ uint32Max := by
  match current, h with
  | none, ⟨_, hvals⟩ => exact absurd (hvals ▸ hd) (by simp)
  | some (σ, c), ⟨hl, _⟩ =>
    obtain ⟨o, ho, rfl, rfl⟩ := hl.named t g (by simp [hd])
    obtain ⟨d', -, hlen, hv⟩ := hl.records o ho
    obtain ⟨w, n, s, hw, -, -, -, rfl⟩ := hl.wf.described o ho
    rw [Option.some.inj (hd.symm.trans hv), hlen]
    exact Nat.le_trans hw.size (by decide)

theorem readObject_eq (h : Holds (scheme hslot) files current vals) (t : Nat) :
    readObject slot legacy files t = shown (vals t 0) :=
  h.read legacy t 0 fun _ hd => value_le h hd

theorem loads_eq (h : Holds (scheme hslot) files current vals) :
    loads slot legacy files = current.isSome := by
  match current, h with
  | none, ⟨habsent, _⟩ =>
    unfold loads
    rw [load_absent legacy habsent]
    rfl
  | some (σ, c), ⟨hl, hb⟩ =>
    obtain ⟨candidates, hload, -⟩ := hl.loads hb legacy
    unfold loads
    rw [hload]
    rfl

theorem readAfter_eq (h : Holds (scheme hslot) files current vals) (hws : Writes layout ws)
    (t : Nat) : readAfter slot legacy files ws t = shown (putValues vals ws t 0) := by
  have hfind : (ws.find? fun w => w.key = (t, 0)) = ws.find? fun w => w.objectType = t := by
    apply List.find?_congr
    intro w hw
    have htag := (accepted_type (hws.accepted w hw)).2
    simp [Write.key, htag]
  unfold readAfter putValues
  rw [hfind]
  cases ws.find? fun w => w.objectType = t with
  | none => exact readObject_eq h t
  | some w => rfl

theorem atomic_of_oldOrNew {after : Files} (h : Steady (scheme hslot) files current vals)
    (hws : Writes layout ws) (hc : c.writes slot legacy files = .ok ws)
    (hafter : OldOrNew (scheme hslot) current vals ws after) :
    Atomic slot legacy files c after := by
  rcases hafter with hold | hnew
  · refine ⟨fun hl => ?_, .inl fun t => ?_⟩
    · rw [loads_eq hold, ← loads_eq h.holds]
      exact hl
    · rw [readObject_eq hold, readObject_eq h.holds]
  · refine ⟨fun _ => loads_eq hnew, .inr ⟨ws, hc, fun t => ?_⟩⟩
    rw [readObject_eq hnew, readAfter_eq h.holds hws]

theorem loaded_of_overwrites (hover : overwrites slot legacy files c = true)
    (h : Steady (scheme hslot) files current vals) : ∃ σ m' candidates, current = some (σ, m') ∧
      load layout files slot legacy = .ok ⟨candidates, .primary, σ⟩ ∧ candidates σ = some m' ∧
      m'.generation ≠ uint32Max := by
  obtain ⟨ws, st, c', -, hload, hcand, hgen, -⟩ := overwrites_iff_exists.mp hover
  match current, h with
  | none, ⟨habsent, _⟩ =>
    rw [load_absent legacy habsent] at hload
    exact absurd hload (by simp)
  | some (σ, m'), hst =>
    obtain ⟨candidates, hl, hσ, -⟩ := hst.1.loads hst.holds.2 legacy
    rw [← Except.ok.inj (hl.symm.trans hload)] at hcand
    refine ⟨σ, m', candidates, rfl, hl, hσ, ?_⟩
    rw [Option.some.inj (hσ.symm.trans hcand)]
    exact hgen

theorem Call.run_cases (legacy : Bool) (h : Steady (scheme hslot) m.view current vals) :
    ((∀ rs, (exec (c.run slot legacy) m rs).2.1 = m) ∧ ¬ overwrites slot legacy m.view c) ∨
    ∃ ws, c.writes slot legacy m.view = .ok ws ∧ Unspent current ∧
      ∀ rs, exec (c.run slot legacy) m rs = exec (update layout slot ws legacy true) m rs := by
  cases hwrites : c.writes slot legacy m.view with
  | error e =>
    refine .inl ⟨fun rs => ?_, fun hover => ?_⟩
    · show (exec ((liftCheck (c.writes slot legacy m.view)).bind _) m rs).2.1 = m
      rw [hwrites]
      rfl
    · obtain ⟨ws, -, -, hws, -⟩ := overwrites_iff_exists.mp hover
      exact absurd (hwrites.symm.trans hws) (by simp)
  | ok ws =>
    have hrun : ∀ rs, exec (c.run slot legacy) m rs = exec (containerUpdate slot legacy ws) m rs := by
      intro rs
      show exec ((liftCheck (c.writes slot legacy m.view)).bind _) m rs = _
      rw [hwrites]
      rfl
    generalize hb : ((stored m.view (manifestFid slot 0)).isNone &&
      (stored m.view (manifestFid slot 1)).isNone && !canCreate slot legacy m.view) = b at *
    have hupdate : ∀ rs, exec (containerUpdate slot legacy ws) m rs =
        exec (if b then Prog.fail .wrongData else update layout slot ws legacy true) m rs := by
      intro rs
      rw [← hb]
      rfl
    cases b with
    | true =>
      refine .inl ⟨fun rs => ?_, fun hover => ?_⟩
      · rw [hrun, hupdate]
        rfl
      · -- without a stored manifest there is nothing to overwrite
        obtain ⟨σ, m', -, rfl, -⟩ := loaded_of_overwrites hover h
        have hman := stored_manifest h.1.manifest
        have hσ : σ = 0 ∨ σ = 1 := by
          have := h.1.slot
          omega
        rw [layout_manifestFid] at hman
        simp only [Bool.and_eq_true] at hb
        rcases hσ with rfl | rfl
        · rw [hman] at hb
          exact absurd hb.1.1 (by simp)
        · rw [hman] at hb
          exact absurd hb.1.2 (by simp)
    | false =>
      by_cases hu : Unspent current
      · refine .inr ⟨ws, rfl, hu, fun rs => ?_⟩
        rw [hrun, hupdate]
        rfl
      · refine .inl ⟨fun rs => ?_, fun hover => ?_⟩
        · have hws := c.writes_valid hwrites
          have hfits : ¬ (ws = [] ∨ manifestMaxObjects < ws.length) := by
            rintro (hn | hn)
            · exact hws.nonempty hn
            · exact absurd hws.count (Nat.not_le.mpr hn)
          obtain ⟨candidates, hbase, -⟩ := h.holds.base legacy true
          rw [hrun, hupdate]
          simp only [update, if_neg hfits, bind_eq, consult, Prog.bind, exec, hbase, liftCheck,
            h.spent hu, Bool.false_eq_true, if_false]
        · obtain ⟨σ, m', -, rfl, -, -, hgen⟩ := loaded_of_overwrites hover h
          exact hu hgen

theorem settled_of_vacant (hview : Vacant slot m.view) (hflash : Vacant slot m.flash) :
    Settled (scheme hslot) m none fun _ _ => none := by
  apply Settled.of_absent
  · intro s hs
    rw [layout_manifestFid]
    exact hview s hs
  · intro s hs
    rw [layout_manifestFid]
    exact hflash s hs

theorem settled_call (legacy : Bool) (h : Settled (scheme hslot) m current vals) (c : Call) :
    ∃ current' vals', Settled (scheme hslot) (exec (c.run slot legacy) m []).2.1 current' vals' := by
  rcases c.run_cases legacy h.1 with ⟨hsame, -⟩ | ⟨ws, hc, hu, hrun⟩
  · rw [hsame]
    exact ⟨current, vals, h⟩
  · have hws := c.writes_valid hc
    have hcalm := h.update legacy true hu hws (room hslot h.1 hws)
    rw [hrun]
    unfold calm Ends at hcalm
    split at hcalm
    · exact ⟨_, _, hcalm.1⟩
    · exact hcalm.elim
    · exact hcalm.elim

theorem settled_history (legacy : Bool) (h : Settled (scheme hslot) m current vals) (calls : List Call) :
    ∃ current' vals', Settled (scheme hslot) (history slot legacy calls m) current' vals' := by
  induction calls generalizing m current vals with
  | nil => exact ⟨current, vals, h⟩
  | cons c calls ih =>
    obtain ⟨current', vals', h'⟩ := settled_call legacy h c
    exact ih h'

theorem overwrites_iff (h : Steady (scheme hslot) m.view current vals) (hu : Unspent current)
    (hws : c.writes slot legacy m.view = .ok ws) :
    overwrites slot legacy m.view c = true ↔ ¬ Apart (scheme hslot) current ws := by
  unfold Apart
  push Not
  constructor
  · intro hover
    obtain ⟨σ, m', candidates, rfl, hl, hσ, -⟩ := loaded_of_overwrites hover h
    obtain ⟨ws', st, c', hws', hload, hcand, -, w, hw, o, ho, ht, hfid⟩ :=
      overwrites_iff_exists.mp hover
    rw [Except.ok.inj (hws'.symm.trans hws)] at hw
    rw [← Except.ok.inj (hl.symm.trans hload)] at hcand hfid
    have hm : m' = c' := Option.some.inj (hσ.symm.trans hcand)
    subst hm
    have htag := (accepted_type ((c.writes_valid hws).accepted w hw)).2
    obtain ⟨v, n, s, hv, -, -, -, rfl⟩ := h.1.wf.described o ho
    exact ⟨w, hw, _, ho, Prod.ext ht ((accepted_type hv).2.trans htag.symm), hfid⟩
  · rintro ⟨w, hw, o, ho, hkey, hfid⟩
    cases current with
    | none => exact absurd ho List.not_mem_nil
    | some p =>
      obtain ⟨σ, m'⟩ := p
      obtain ⟨candidates, hl, hσ, -⟩ := h.1.loads h.holds.2 legacy
      exact overwrites_iff_exists.mpr
        ⟨ws, _, m', hws, hl, hσ, hu, w, hw, o, ho, congrArg Prod.fst hkey, hfid⟩

theorem settled_atomic (h : Settled (scheme hslot) m current vals)
    (hsafe : ¬ overwrites slot legacy m.view c) (rs : List Reply) :
    Atomic slot legacy m.view c (exec (c.run slot legacy) m rs).2.1.flash := by
  rcases c.run_cases legacy h.1 with ⟨hsame, -⟩ | ⟨ws, hc, hu, hrun⟩
  · rw [hsame]
    refine ⟨fun hl => ?_, .inl fun t => ?_⟩
    · rw [loads_eq h.2.1.holds, ← loads_eq h.1.holds]
      exact hl
    · rw [readObject_eq h.2.1.holds, readObject_eq h.1.holds]
  · have hws := c.writes_valid hc
    have hapart : Safe (scheme hslot) current ws :=
      ⟨not_not.mp (mt (overwrites_iff h.1 hu hc).mpr hsafe), fun hroll => absurd hroll (by decide)⟩
    have hends := wp_sound (wp_update (f := Faults.all) legacy true h.1 h.2.1 hu hws
      (room hslot h.1 hws)) trivial rs (.inl trivial)
    rw [hrun]
    apply atomic_of_oldOrNew h.1 hws hc
    unfold Ends at hends
    split at hends
    · exact .inr hends.1.2.1.holds
    · exact (hends.2 hapart).2
    · exact hends hapart

theorem settled_not_atomic (h : Settled (scheme hslot) m current vals)
    (hover : overwrites slot legacy m.view c = true) :
    ∃ rs, ¬ Atomic slot legacy m.view c (exec (c.run slot legacy) m rs).2.1.flash := by
  have hloads : loads slot legacy m.view = true := by
    obtain ⟨ws, st, c', -, hload, -⟩ := overwrites_iff_exists.mp hover
    unfold loads
    rw [hload]
    rfl
  rcases c.run_cases legacy h.1 with ⟨-, hnot⟩ | ⟨ws, hc, hu, hrun⟩
  · exact absurd hover hnot
  · have hws := c.writes_valid hc
    obtain ⟨rs, hlost, -⟩ := mayLeave_lost legacy true h.1 hu hws (room hslot h.1 hws) h.2.2
      ((overwrites_iff h.1 hu hc).mp hover)
    refine ⟨rs, fun hatomic => ?_⟩
    have hafter := hatomic.1 hloads
    rw [hrun, loads, hlost] at hafter
    exact absurd hafter (by decide)

end Runs

/-- After any calls, whatever interrupts the next one leaves the old values or the new ones, all
together, exactly if that call does not overwrite a record in use. -/
theorem interrupted_call_atomic_iff {slot : Nat} (hslot : slot < 256) (legacy : Bool)
    (m : StoreMachine) (hview : Vacant slot m.view) (hflash : Vacant slot m.flash)
    (calls : List Call) (c : Call) :
    (∀ rs, Atomic slot legacy (history slot legacy calls m).view c
      (exec (c.run slot legacy) (history slot legacy calls m) rs).2.1.flash) ↔
    ¬ overwrites slot legacy (history slot legacy calls m).view c := by
  have hstart : Settled (scheme hslot) m none fun _ _ => none := settled_of_vacant hview hflash
  obtain ⟨current, vals, h⟩ := settled_history legacy hstart calls
  constructor
  · intro hall hover
    obtain ⟨rs, hnot⟩ := settled_not_atomic h hover
    exact hnot (hall rs)
  · exact fun hsafe rs => settled_atomic h hsafe rs

/-- Storage with nothing in it. -/
def blank : StoreMachine := ⟨fun _ => none, fun _ => none, (), [], []⟩

def sampleBlob : Blob := ⟨[1, 2, 3], by decide⟩

def sampleCreate : Call :=
  .create ⟨List.replicate 32 0, by decide⟩ sampleBlob sampleBlob sampleBlob

/-- The third call writes the state object where the first one put it, and the power goes once that
record is durable: the container does not load any more. -/
theorem metadata_update_not_atomic :
    ¬ Atomic 0 false
      (history 0 false [sampleCreate, .updateCredential sampleBlob] blank).view
      (.updateMetadata ⟨0, 1, 0⟩)
      (exec (Call.run 0 false (.updateMetadata ⟨0, 1, 0⟩))
        (history 0 false [sampleCreate, .updateCredential sampleBlob] blank)
        [.ok, .ok, .ok, .powerLoss]).2.1.flash := by
  intro h
  have hbefore : loads 0 false
      (history 0 false [sampleCreate, .updateCredential sampleBlob] blank).view = true := by
    decide +kernel
  have hafter := h.1 hbefore
  exact absurd hafter (by decide +kernel)

/-- The first update after a creation writes to the other slot. -/
theorem interrupted_credential_update_atomic :
    ¬ overwrites 0 false (history 0 false [sampleCreate] blank).view (.updateCredential sampleBlob) ∧
    ∀ rs, Atomic 0 false (history 0 false [sampleCreate] blank).view (.updateCredential sampleBlob)
      (exec (Call.run 0 false (.updateCredential sampleBlob))
        (history 0 false [sampleCreate] blank) rs).2.1.flash := by
  have hsafe : ¬ overwrites 0 false (history 0 false [sampleCreate] blank).view
      (.updateCredential sampleBlob) := by decide +kernel
  exact ⟨hsafe, (interrupted_call_atomic_iff (by decide) false blank (fun _ _ => rfl)
    (fun _ _ => rfl) [sampleCreate] (.updateCredential sampleBlob)).mpr hsafe⟩

end Container.Resident

end KeyWallet
