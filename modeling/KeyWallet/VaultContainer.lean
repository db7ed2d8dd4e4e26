import KeyWallet.ContainerRemoval

/-! The container of the vault, vault_container.c: a wrapped vault key for each application and a
label. Before it there were two files of their own, which the container takes the place of. -/
namespace KeyWallet

open CrashProgram

namespace Container.Vault

def objectWrap : Nat := 1
def objectLabel : Nat := 2
def policyId : Nat := 0x0300
def labelMax : Nat := 64
def recordSize : Nat := 61
def objectNamespace : Nat := 2
def containerKind : Nat := 2
def containerId : Nat := 0
def efVaultKey : Nat := 0xce03
def efVaultLabel : Nat := 0xce04
def markerSize : Nat := 5

def wrapFlags : Nat := flagMutable ||| flagNonExportable
def labelFlags : Nat := flagMutable

/-- vault_manifest_fid. -/
def manifestFid (slot : Nat) : Nat := (if slot = 0 then 0xc4 else 0xc5) * 256

/-- vault_record_fid. -/
def recordFid (slot objectType objectTag : Nat) : Nat :=
  (if objectType = objectWrap then (if slot = 0 then 0xc6 else 0xc7)
    else (if slot = 0 then 0xc8 else 0xc9)) * 256 + objectTag % 256

/-- vault_object_type_valid. -/
def objectTypeValid (objectType : Nat) : Bool := objectType = objectWrap || objectType = objectLabel

/-- An application has one wrap, and there is one label. -/
def identityValid (objectType objectTag : Nat) : Bool :=
  objectTypeValid objectType && objectTag ≤ 255 && (objectType ≠ objectLabel || objectTag = 0)

/-- vault_record_id_valid. -/
def recordIdValid (o : Descriptor) : Bool :=
  identityValid o.objectType o.objectTag && o.recordId ≤ uint16Max &&
    (o.recordId = recordFid 0 o.objectType o.objectTag ||
      o.recordId = recordFid 1 o.objectType o.objectTag)

/-- vault_layout_record_fid. -/
def layoutRecordFid (id : Nat) (o : Descriptor) : Except ObjErr Nat :=
  if id ≠ containerId ∨ recordIdValid o = false then .error .wrongData else .ok o.recordId

/-- vault_write_valid. -/
def writeValid (w : Write) : Bool :=
  w.policyId = policyId && w.keyDomain = 0 && w.objectTag ≤ 255 &&
    if w.objectType = objectWrap then
      w.data.length = recordSize && w.protection = protectionAeadSecret && w.flags = wrapFlags
    else
      w.objectType = objectLabel && w.objectTag = 0 && w.data.length ≤ labelMax &&
        w.protection = protectionAuthenticatedPublic && w.flags = labelFlags

/-- vault_marker_write: the file of the old kind gives way to a marker. -/
def markerWrite : Store Unit := do
  let cleared ← putFile efVaultKey none
  if cleared = false then Prog.fail .memoryFatal
  else
    let put ← putFile efVaultKey (some (.other markerSize))
    if put then pure () else Prog.fail .noMemory

/-- One slot of vault_layout_retire: the records that the next manifest does not refer to, and the
manifest, unless it is the next one. -/
def retireSlot (candidates : Nat → Option Manifest) (next : Manifest) (targetSlot slot : Nat) :
    Store Unit :=
  match candidates slot with
  | none => pure ()
  | some c => do
    forEach (fun o =>
      if references next o.recordId then pure ()
      else do
        let fid ← liftCheck (layoutRecordFid containerId o)
        discardFile fid) c.objects
    if slot ≠ targetSlot then discardFile (manifestFid slot) else pure ()

/-- vault_layout_retire. -/
def retire (id : Nat) (candidates : Nat → Option Manifest) (next : Manifest) (targetSlot : Nat) :
    Store Unit :=
  if id ≠ containerId then Prog.fail .wrongData
  else do
    retireSlot candidates next targetSlot 0
    retireSlot candidates next targetSlot 1
    commitLater

/-- vault_layout_deactivate. -/
def deactivate (id : Nat) : Store Unit :=
  if id ≠ containerId then pure ()
  else do
    let cleared ← putFile efVaultKey none
    if cleared then pure () else Prog.fail .memoryFatal

/-- vault_layout. -/
def layout : Layout where
  namespaceId := objectNamespace
  containerKind := containerKind
  manifestFid := fun id slot => if id = containerId then manifestFid slot else 0
  recordFid := layoutRecordFid
  recordAllocate := fun id targetSlot w =>
    if id ≠ containerId ∨ identityValid w.objectType w.objectTag = false then .error .nullParam
    else .ok (recordFid targetSlot w.objectType w.objectTag,
      recordFid targetSlot w.objectType w.objectTag)
  policyKnown := fun id => id = policyId
  writeValid := writeValid
  descriptorValid := fun id o =>
    id = containerId && identityValid o.objectType o.objectTag && o.policyId = policyId &&
      o.keyDomain = 0
  activate := fun id => if id = containerId then markerWrite else Prog.fail .wrongData
  deactivate := deactivate
  retire := retire
  rollbackNewRecords := true

/-- A vault key under the key of the device. -/
abbrev WrapRecord := { d : Data // d.length = recordSize }

/-- The calls that write to the vault. -/
inductive Call
  | setKvault (kvault encryptionKey : Data) (appId : BitVec 8)
  | setLabel (label : Data)
  | deleteKvault (appId : BitVec 8)

section Calls

variable (wrap : (wrappingKey kvault : Data) → Option WrapRecord) (legacy : Bool)

def wrapWrite (record : WrapRecord) (appId : BitVec 8) : Write where
  objectType := objectWrap
  objectTag := appId.toNat
  data := record.1
  policyId := policyId
  keyDomain := 0
  protection := protectionAeadSecret
  flags := wrapFlags
  transactionGroup := 0

def labelWrite (label : Data) : Write where
  objectType := objectLabel
  objectTag := 0
  data := label
  policyId := policyId
  keyDomain := 0
  protection := protectionAuthenticatedPublic
  flags := labelFlags
  transactionGroup := 0

def vaultUpdate (w : Write) : Store Unit := update layout containerId [w] legacy false

/-- A record of the old kind: the only file of that size that is kept there. -/
def hasLegacyRecord (files : Files) : Bool := files efVaultKey = some (.other recordSize)

/-- picokeys_vault_delete_kvault where there is no container. -/
def deleteLegacy (appId : BitVec 8) : Store Unit :=
  if appId ≠ 0 then pure ()
  else do
    let present ← consult fun _ (files : Files) => hasLegacyRecord files
    let cleared ← if present then putFile efVaultKey none else pure true
    if cleared = false then Prog.fail .memoryFatal
    else
      let cleared ← putFile efVaultLabel none
      if cleared = false then Prog.fail .memoryFatal
      else
        let committed ← commitSync
        if committed then pure () else Prog.fail .memoryFatal

/-- The wraps that the manifest lists. -/
def wrapCount (m : Manifest) : Nat := (m.objects.filter fun o => o.objectType = objectWrap).length

/-- picokeys_vault_delete_kvault. -/
def deleteKvault (appId : BitVec 8) : Store Unit := do
  let loaded ← consult fun _ (files : Files) => load layout files containerId legacy
  match loaded with
  | .error .fileNotFound => deleteLegacy appId
  | .error e => Prog.fail e
  | .ok st =>
    let selected ← consult fun _ (files : Files) => selectValid layout files containerId st
    let current ← liftCheck selected
    if (find current.2 objectWrap appId.toNat).isNone then Prog.fail .fileNotFound
    else if wrapCount current.2 = 1 then containerDelete layout containerId legacy
    else remove layout containerId objectWrap appId.toNat legacy

/-- The calls as programs. -/
def Call.run : Call → Store Unit
  -- picokeys_vault_set_kvault
  | .setKvault kvault encryptionKey appId =>
    match wrap encryptionKey kvault with
    | none => Prog.fail .execError
    | some record => vaultUpdate legacy (wrapWrite record appId)
  -- picokeys_vault_set_label
  | .setLabel label =>
    if labelMax < label.length then Prog.fail .wrongLength else vaultUpdate legacy (labelWrite label)
  | .deleteKvault appId => Vault.deleteKvault legacy appId

/-- vault_get_wrap_record. -/
def getWrapRecord (files : Files) (appId : BitVec 8) : Except ObjErr Data :=
  match read layout files containerId legacy recordSize objectWrap appId.toNat with
  | .error e => .error e
  | .ok d => if d.length ≠ recordSize then .error .wrongLength else .ok d

/-- picokeys_vault_get_label into an empty buffer that holds any label. -/
def getLabel (files : Files) : Except ObjErr Data :=
  match read layout files containerId legacy labelMax objectLabel 0 with
  | .error .fileNotFound => .ok []
  | r => r

end Calls

/-! The files of the vault are all different. -/

theorem identityValid_iff {t g : Nat} : identityValid t g = true ↔
    (t = objectWrap ∧ g ≤ 255) ∨ (t = objectLabel ∧ g = 0) := by
  simp only [identityValid, objectTypeValid, Bool.and_eq_true, Bool.or_eq_true, decide_eq_true_eq]
  simp only [objectWrap, objectLabel]
  omega

theorem accepted_identity {w : Write} (h : Accepted layout w) :
    identityValid w.objectType w.objectTag = true := by
  have hv : writeValid w = true := h.valid
  unfold writeValid at hv
  rw [identityValid_iff]
  by_cases ht : w.objectType = objectWrap
  · rw [if_pos ht] at hv
    simp only [Bool.and_eq_true, decide_eq_true_eq] at hv
    exact .inl ⟨ht, hv.1.2⟩
  · rw [if_neg ht] at hv
    simp only [Bool.and_eq_true, decide_eq_true_eq] at hv
    exact .inr ⟨hv.2.1.1.1.1, hv.2.1.1.1.2⟩

theorem recordFid_inj {s s' t t' g g' : Nat} (hs : s < 2) (hs' : s' < 2)
    (h : identityValid t g = true) (h' : identityValid t' g' = true)
    (he : recordFid s t g = recordFid s' t' g') : s = s' ∧ t = t' ∧ g = g' := by
  have hslots : (s = 0 ∨ s = 1) ∧ (s' = 0 ∨ s' = 1) := by omega
  obtain ⟨rfl | rfl, rfl | rfl⟩ := hslots <;>
    rcases identityValid_iff.mp h with ⟨rfl, hg⟩ | ⟨rfl, rfl⟩ <;>
    rcases identityValid_iff.mp h' with ⟨rfl, hg'⟩ | ⟨rfl, rfl⟩ <;>
    simp [recordFid, objectWrap, objectLabel] at he ⊢ <;> omega

theorem recordFid_range (s t g : Nat) :
    0xc600 ≤ recordFid s t g ∧ recordFid s t g < 0xca00 := by
  have htag : g % 256 < 256 := Nat.mod_lt _ (by decide)
  unfold recordFid
  split_ifs <;> omega

theorem manifestFid_range (s : Nat) : 0xc400 ≤ manifestFid s ∧ manifestFid s ≤ 0xc500 := by
  simp only [manifestFid]
  split_ifs <;> omega

theorem layout_manifestFid (s : Nat) : layout.manifestFid containerId s = manifestFid s := rfl

theorem recordIdValid_self {w : Write} {s g : Nat} (hs : s < 2)
    (h : identityValid w.objectType w.objectTag = true) :
    recordIdValid (w.descriptor g (recordFid s w.objectType w.objectTag)) = true := by
  have hrange := recordFid_range s w.objectType w.objectTag
  have hslots : s = 0 ∨ s = 1 := by omega
  have hle : recordFid s w.objectType w.objectTag ≤ uint16Max := by
    simp only [uint16Max]
    omega
  show (identityValid w.objectType w.objectTag &&
    decide (recordFid s w.objectType w.objectTag ≤ uint16Max) && _) = true
  rw [h, decide_eq_true hle]
  rcases hslots with rfl | rfl
  · simp [Write.descriptor]
  · simp [Write.descriptor]

theorem layoutRecordFid_range {o : Descriptor} {k : Nat} (h : layoutRecordFid containerId o = .ok k) :
    k = o.recordId ∧ 0xc600 ≤ k ∧ k < 0xca00 := by
  unfold layoutRecordFid at h
  split_ifs at h with hbad
  obtain rfl := Except.ok.inj h
  have hvalid : recordIdValid o = true := by
    by_contra hne
    exact hbad (.inr (Bool.not_eq_true _ ▸ hne))
  simp only [recordIdValid, Bool.and_eq_true, Bool.or_eq_true, decide_eq_true_eq] at hvalid
  refine ⟨rfl, ?_⟩
  rcases hvalid.2 with he | he
  · rw [he]
    exact recordFid_range _ _ _
  · rw [he]
    exact recordFid_range _ _ _

theorem markerWrite_confined :
    Confined (fun k _ => k = efVaultKey) (fun _ _ => True) markerWrite := by
  refine ⟨rfl, fun b => ?_⟩
  cases b with
  | false => exact trivial
  | true =>
    refine ⟨rfl, fun b => ?_⟩
    cases b <;> exact trivial

theorem markerWrite_total {f : Faults} (hf : ¬ f.noticed) (m : StoreMachine) :
    wp f markerWrite (fun _ _ => True) (fun _ _ => False) (fun _ => True) m := by
  simp [markerWrite, hf]

/-- What vault_layout_retire may delete. -/
def Retirable (next : Manifest) (targetSlot k : Nat) (v : Option Content) : Prop :=
  v = none ∧ (k = manifestFid (1 - targetSlot) ∨
    references next k = false ∧ ∀ s < 2, k ≠ manifestFid s)

section Retire

variable {candidates : Nat → Option Manifest} {next : Manifest} {τ : Nat}

theorem retireRecord_confined (o : Descriptor) :
    Confined (Retirable next τ) (fun _ _ => True)
      (if references next o.recordId then pure ()
        else (liftCheck (layoutRecordFid containerId o)).bind discardFile : Store Unit) := by
  by_cases href : references next o.recordId = true
  · rw [if_pos href]
    exact trivial
  · rw [if_neg href]
    cases hfid : layoutRecordFid containerId o with
    | error e => exact trivial
    | ok k =>
      obtain ⟨rfl, hlow, -⟩ := layoutRecordFid_range hfid
      apply (discardFile_confined o.recordId).mono
      · rintro j v ⟨rfl, hv⟩
        refine ⟨hv, .inr ⟨Bool.not_eq_true _ ▸ href, fun s _ => ?_⟩⟩
        have hman := manifestFid_range s
        omega
      · exact fun _ _ h => h

theorem retireSlot_confined {s : Nat} (hs : s < 2) (hτ : τ < 2) :
    Confined (Retirable next τ) (fun _ _ => True) (retireSlot candidates next τ s) := by
  unfold retireSlot
  cases candidates s with
  | none => exact trivial
  | some c =>
    apply Confined.bind (forEach_confined fun o _ => retireRecord_confined o)
    intro _
    by_cases he : s ≠ τ
    · rw [if_pos he]
      have hother : s = 1 - τ := by omega
      apply (discardFile_confined (manifestFid s)).mono
      · rintro j v ⟨rfl, hv⟩
        exact ⟨hv, .inl (hother ▸ rfl)⟩
      · exact fun _ _ h => h
    · rw [if_neg he]
      exact trivial

theorem retire_confined (hτ : τ < 2) : Confined (Retirable next τ) (fun _ _ => True)
    (retire containerId candidates next τ) := by
  apply Confined.bind (retireSlot_confined (by decide) hτ)
  intro _
  apply Confined.bind (retireSlot_confined (by decide) hτ)
  exact fun _ _ => trivial

theorem forEach_total_of {α : Type} {g : α → Store Unit} {as : List α} (h : ∀ a ∈ as, Total (g a)) :
    Total (forEach g as) := by
  induction as with
  | nil => exact trivial
  | cons a as ih =>
    exact Total.bind (h a List.mem_cons_self) fun _ => ih fun b hb => h b (List.mem_cons_of_mem _ hb)

theorem retireSlot_total {s : Nat}
    (h : ∀ c, candidates s = some c → ∀ o ∈ c.objects, ∃ k, layoutRecordFid containerId o = .ok k) :
    Total (retireSlot candidates next τ s) := by
  unfold retireSlot
  cases hc : candidates s with
  | none => exact trivial
  | some c =>
    apply Total.bind
    · apply forEach_total_of
      intro o ho
      obtain ⟨k, hk⟩ := h c hc o ho
      split_ifs
      · exact trivial
      · rw [hk]
        exact discardFile_total k
    · intro _
      split_ifs
      · exact discardFile_total _
      · exact trivial

theorem retire_total (h : ∀ s c, s < 2 → candidates s = some c → ∀ o ∈ c.objects,
    ∃ k, layoutRecordFid containerId o = .ok k) : Total (retire containerId candidates next τ) := by
  apply Total.bind (retireSlot_total (h 0 · (by decide)))
  intro _
  apply Total.bind (retireSlot_total (h 1 · (by decide)))
  exact fun _ _ => trivial

theorem wp_retireSlot_stays {f : Faults} {s k : Nat} (hs : s < 2) (hτ : τ < 2) {m : StoreMachine}
    (h : m.view k = none) : wp f (retireSlot candidates next τ s)
      (fun _ n => n.view k = none) (fun _ _ => True) (fun _ => True) m := by
  have hconfined : Confined (Retirable next τ) (fun _ _ => True)
      (retireSlot candidates next τ s) := retireSlot_confined hs hτ
  have hkeep := wp_confined (f := f) (I := fun n : StoreMachine => n.view k = none)
    (fun n j v hj hn => by
      rw [hj.1]
      show Function.update n.view j none k = none
      by_cases he : k = j
      · rw [he, Function.update_self]
      · rw [Function.update_of_ne he, hn])
    (fun _ _ hn => hn) (fun _ hn => hn) (fun _ _ _ hn => hn) hconfined h
  exact wp_mono hkeep (fun _ _ hn => hn) (fun _ _ _ => trivial) (fun _ _ => trivial)

theorem wp_retireSlot_clears {f : Faults} (hf : ¬ f.silent) (hτ : τ < 2) {m : StoreMachine}
    (h : (candidates (1 - τ)).isSome ∨ m.view (manifestFid (1 - τ)) = none) :
    wp f (retireSlot candidates next τ (1 - τ)) (fun _ n => n.view (manifestFid (1 - τ)) = none)
      (fun _ _ => True) (fun _ => True) m := by
  rcases h with hsome | hnone
  · obtain ⟨c, hc⟩ := Option.isSome_iff_exists.mp hsome
    have hne : 1 - τ ≠ τ := by omega
    simp only [retireSlot, hc, if_pos hne, bind_eq, wp_bind]
    apply wp_mono (wp_trivial _ m)
    · intro _ n _
      cases hn : n.view (manifestFid (1 - τ)) <;> simp [discardFile, hn, hf]
    · exact fun _ _ _ => trivial
    · exact fun _ _ => trivial
  · exact wp_retireSlot_stays (by omega) hτ hnone

theorem wp_retire_clears {f : Faults} (hf : ¬ f.silent) (hτ : τ < 2) {m : StoreMachine}
    (h : (candidates (1 - τ)).isSome ∨ m.view (manifestFid (1 - τ)) = none) :
    wp f (retire containerId candidates next τ) (fun _ n => n.view (manifestFid (1 - τ)) = none)
      (fun _ _ => True) (fun _ => True) m := by
  have hlast : ∀ n : StoreMachine, n.view (manifestFid (1 - τ)) = none → wp f commitLater
      (fun (_ : Unit) n => n.view (manifestFid (1 - τ)) = none) (fun (_ : ObjErr) _ => True)
      (fun _ => True) n := by
    intro n hn
    simp only [wp_commitLater]
    exact ⟨trivial, hn, fun _ => hn⟩
  have hslots : τ = 0 ∨ τ = 1 := by omega
  show wp f ((retireSlot candidates next τ 0).bind fun _ =>
    (retireSlot candidates next τ 1).bind fun _ => commitLater) _ _ _ m
  simp only [wp_bind]
  rcases hslots with rfl | rfl
  · -- the first part may delete the other manifest only if it is gone already
    have hfirst : wp f (retireSlot candidates next 0 0) (fun _ n => (candidates 1).isSome ∨
        n.view (manifestFid 1) = none) (fun _ _ => True) (fun _ => True) m := by
      rcases h with hsome | hnone
      · exact wp_mono (wp_trivial _ m) (fun _ _ _ => .inl hsome) (fun _ _ _ => trivial)
          (fun _ _ => trivial)
      · exact wp_mono (wp_retireSlot_stays (by decide) hτ hnone) (fun _ _ hn => .inr hn)
          (fun _ _ _ => trivial) (fun _ _ => trivial)
    apply wp_mono hfirst _ (fun _ _ h => h) (fun _ h => h)
    intro _ n hn
    exact wp_mono (wp_retireSlot_clears hf hτ hn) (fun _ n' hn' => hlast n' hn') (fun _ _ h => h)
      (fun _ h => h)
  · apply wp_mono (wp_retireSlot_clears hf hτ h) _ (fun _ _ h => h) (fun _ h => h)
    intro _ n hn
    exact wp_mono (wp_retireSlot_stays (by decide) hτ hn) (fun _ n' hn' => hlast n' hn')
      (fun _ _ h => h) (fun _ h => h)

end Retire

/-! What the scheme asks for. -/

theorem manifestFid_zero_ne_one :
    layout.manifestFid containerId 0 ≠ layout.manifestFid containerId 1 := by
  decide

theorem manifest_ne_recordFid (s s' objectType objectTag : Nat) :
    layout.manifestFid containerId s ≠ recordFid s' objectType objectTag := by
  have h1 := recordFid_range s' objectType objectTag
  have h2 := manifestFid_range s
  rw [layout_manifestFid]
  omega

theorem recordFid_ne_zero (s objectType objectTag : Nat) : recordFid s objectType objectTag ≠ 0 := by
  have h1 := recordFid_range s objectType objectTag
  omega

theorem allocate_accepted {w : Write} {s : Nat} (hw : Accepted layout w) :
    layout.recordAllocate containerId s w =
      .ok (recordFid s w.objectType w.objectTag, recordFid s w.objectType w.objectTag) := by
  simp [layout, accepted_identity hw]

theorem descriptor_accepted {w : Write} {s g : Nat} (hw : Accepted layout w) :
    layout.descriptorValid containerId
      (w.descriptor g (recordFid s w.objectType w.objectTag)) = true := by
  have hv : writeValid w = true := hw.valid
  simp only [writeValid, Bool.and_eq_true, decide_eq_true_eq] at hv
  simp [layout, Write.descriptor, accepted_identity hw, hv.1.1.1, hv.1.1.2]

theorem recordFid_accepted {w : Write} {s g : Nat} (hw : Accepted layout w) (hs : s < 2) :
    layout.recordFid containerId (w.descriptor g (recordFid s w.objectType w.objectTag)) =
      .ok (recordFid s w.objectType w.objectTag) := by
  have hok : ¬ (containerId ≠ containerId ∨
      recordIdValid (w.descriptor g (recordFid s w.objectType w.objectTag)) = false) := by
    simp [recordIdValid_self hs (accepted_identity hw)]
  simp only [layout, layoutRecordFid, if_neg hok]
  rfl

theorem marker_foreign : Foreign layout containerId recordFid efVaultKey := by
  refine ⟨fun s _ => ?_, fun w s hw hs => ?_⟩
  · have h2 := manifestFid_range s
    rw [layout_manifestFid]
    simp only [efVaultKey]
    omega
  · have h1 := recordFid_range s w.objectType w.objectTag
    simp only [efVaultKey]
    omega

theorem activate_confined_foreign :
    Confined (fun k _ => Foreign layout containerId recordFid k) (fun _ _ => True)
      (layout.activate containerId) := by
  apply markerWrite_confined.mono
  · intro k v hk
    rw [hk]
    exact marker_foreign
  · exact fun _ _ h => h

/-- The scheme of the vault. -/
def scheme : Scheme layout containerId where
  fid := recordFid
  manifest_ne := manifestFid_zero_ne_one
  manifest_ne_fid := fun _ _ _ => manifest_ne_recordFid _ _ _ _
  fid_ne_zero := fun _ _ => recordFid_ne_zero _ _ _
  fid_inj := fun hw hw' hs hs' h => recordFid_inj hs hs' (accepted_identity hw) (accepted_identity hw') h
  allocate := fun hw _ => allocate_accepted hw
  descriptor_valid := fun hw _ => descriptor_accepted hw
  record_fid := fun hw hs => recordFid_accepted hw hs
  activate_confined := activate_confined_foreign
  activate_total := fun hf m => markerWrite_total hf m
  retire_confined := fun hτ => retire_confined hτ
  retire_total := fun h m => wp_of_total (retire_total h) m
  retire_clears := fun hf hτ _ h => wp_retire_clears hf hτ h

end Container.Vault

end KeyWallet
