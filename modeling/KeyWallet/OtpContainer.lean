import KeyWallet.ContainerSweep

/-! The container of the OTP slots, otp_container.c: four slots in one container, which every call
reads as a whole and writes as a whole. -/
namespace KeyWallet

open CrashProgram

namespace Container.Otp

def slotCount : Nat := 4
def objectSecret : Nat := 1
def objectMetadata : Nat := 2
def objectIndex : Nat := 3
def recordCount : Nat := 9
def objectNamespace : Nat := 4
def containerKind : Nat := 3
def containerId : Nat := 0
def policyId : Nat := 0x0400
def transactionGroup : Nat := 1
def secretMaxSize : Nat := 128
def metadataMaxSize : Nat := 64
def efOtpSlot1 : Nat := 0xbb00

/-- otp_manifest_fid. -/
def manifestFid (slot : Nat) : Nat := if slot = 0 then 0xb600 else 0xb700

def recordPrefix (slot : Nat) : Nat := if slot = 0 then 0xb800 else 0xb900

/-- otp_record_index. -/
def recordIndex (objectType objectTag : Nat) : Nat :=
  if objectType = objectSecret then objectTag % 256
  else if objectType = objectMetadata then (slotCount + objectTag) % 256
  else 2 * slotCount

/-- otp_record_fid; the low byte of the prefix is zero. -/
def recordFid (slot objectType objectTag : Nat) : Nat :=
  recordPrefix slot + recordIndex objectType objectTag

/-- otp_object_identity_valid. -/
def identityValid (objectType objectTag : Nat) : Bool :=
  if objectType = objectIndex then objectTag = 0
  else (objectType = objectSecret || objectType = objectMetadata) && objectTag < slotCount

/-- otp_record_id_valid. -/
def recordIdValid (o : Descriptor) : Bool :=
  o.recordId = recordFid 0 o.objectType o.objectTag || o.recordId = recordFid 1 o.objectType o.objectTag

def protectionOf (objectType : Nat) : Nat :=
  if objectType = objectSecret then protectionAeadSecret else protectionAuthenticatedPublic

def flagsOf (objectType : Nat) : Nat :=
  if objectType = objectSecret then flagMutable ||| flagNonExportable ||| flagTransactionGroup
  else flagMutable ||| flagTransactionGroup

/-- otp_layout_retire. -/
def retire (_containerId : Nat) (_candidates : Nat → Option Manifest) (next : Manifest)
    (targetSlot : Nat) : Store Unit :=
  sweep manifestFid (fun slot index => recordPrefix slot + index) (List.range recordCount) next targetSlot

/-- otp_container_layout; it has no deactivate. -/
def layout : Layout where
  namespaceId := objectNamespace
  containerKind := containerKind
  manifestFid := fun _ slot => manifestFid slot
  recordFid := fun _ o =>
    if identityValid o.objectType o.objectTag = false ∨ recordIdValid o = false then .error .wrongData
    else .ok o.recordId
  recordAllocate := fun _ targetSlot w =>
    if identityValid w.objectType w.objectTag = false then .error .nullParam
    else .ok (recordFid targetSlot w.objectType w.objectTag, recordFid targetSlot w.objectType w.objectTag)
  policyKnown := fun id => id = policyId
  writeValid := fun w =>
    identityValid w.objectType w.objectTag && w.policyId = policyId && w.keyDomain = 0 &&
      w.transactionGroup = transactionGroup && w.protection = protectionOf w.objectType &&
      w.flags = flagsOf w.objectType
  descriptorValid := fun _ o =>
    identityValid o.objectType o.objectTag && o.policyId = policyId && o.keyDomain = 0 &&
      o.transactionGroup = transactionGroup && recordIdValid o &&
      o.protection = protectionOf o.objectType && o.flags = flagsOf o.objectType
  activate := fun _ => pure ()
  deactivate := fun _ => pure ()
  retire := retire
  rollbackNewRecords := false

/-- otp_container_storage_available. -/
def storageAvailable (files : Files) : Bool :=
  if [0, 1].any fun s => (files (manifestFid s)).isSome && (stored files (manifestFid s)).isNone then
    false
  else if [0, 1].any fun s => (files (manifestFid s)).isSome then true
  else
    [0, 1].all fun s => (List.range recordCount).all fun index =>
      match files (recordPrefix s + index) with
      | none => true
      | some (.record _ _ _) => true
      | some _ => false

/-- otp_active_slots_read. -/
def activeSlotsRead (files : Files) : Except ObjErr (BitVec 8) :=
  match read layout files containerId false 1 objectIndex 0 with
  | .error e => .error e
  | .ok d => if d.length ≠ 1 then .error .wrongLength else .ok (d.getD 0 0)

/-- otp_container_has_slot_status. -/
def hasSlotStatus (files : Files) (slot : Nat) : Except ObjErr Bool :=
  if slotCount ≤ slot then .error .wrongData
  else
    match activeSlotsRead files with
    | .error .fileNotFound => .ok false
    | .error e => .error e
    | .ok active => .ok (active.getLsbD slot)

/-- otp_container_has_slot. -/
def hasSlot (files : Files) (slot : Nat) : Bool :=
  match hasSlotStatus files slot with
  | .ok present => present
  | .error _ => false

/-- otp_container_read_object. -/
def readObject (files : Files) (capacity slot objectType : Nat) : Except ObjErr Data :=
  read layout files containerId false capacity objectType slot

/-- otp_container_read_slot into a buffer of this capacity. -/
def readSlot (files : Files) (capacity slot : Nat) : Except ObjErr Data :=
  match hasSlotStatus files slot with
  | .error e => .error e
  | .ok present =>
    if present = false then .error .fileNotFound else readObject files capacity slot objectSecret

/-- A slot of the bank that is stored. -/
structure Entry where
  secret : Data
  metadata : Data
  deriving DecidableEq, Repr

/-- The slots of otp_container_slot_t; `none` is one that is not stored. -/
abbrev Slots := Nat → Option Entry

/-- One round of the loop in otp_container_bank_load. -/
def loadSlot (files : Files) (active : BitVec 8) (slot : Nat) : Except ObjErr (Option Entry) :=
  match readObject files secretMaxSize slot objectSecret with
  | .error .fileNotFound => if active.getLsbD slot then .error .wrongData else .ok none
  | .error e => .error e
  | .ok secret =>
    match readObject files metadataMaxSize slot objectMetadata with
    | .error e => .error e
    | .ok metadata => .ok (some ⟨secret, metadata⟩)

def loadSlots (files : Files) (active : BitVec 8) : List Nat → Slots → Except ObjErr Slots
  | [], slots => .ok slots
  | slot :: rest, slots =>
    match loadSlot files active slot with
    | .error e => .error e
    | .ok entry => loadSlots files active rest (Function.update slots slot entry)

/-- otp_container_bank_load. -/
def bankLoad (files : Files) : Except ObjErr (BitVec 8 × Slots) :=
  match activeSlotsRead files with
  | .error .fileNotFound => .ok (0, fun _ => none)
  | .error e => .error e
  | .ok active =>
    match loadSlots files active (List.range slotCount) fun _ => none with
    | .error e => .error e
    | .ok slots => .ok (active, slots)

def otpWrite (objectType objectTag : Nat) (data : Data) : Write where
  objectType := objectType
  objectTag := objectTag
  data := data
  policyId := policyId
  keyDomain := 0
  protection := protectionOf objectType
  flags := flagsOf objectType
  transactionGroup := transactionGroup

def slotWrites (slots : Slots) (slot : Nat) : List Write :=
  match slots slot with
  | none => []
  | some e => [otpWrite objectSecret slot e.secret, otpWrite objectMetadata slot e.metadata]

def bankWrites (active : BitVec 8) (slots : Slots) : List Write :=
  (List.range slotCount).flatMap (slotWrites slots) ++ [otpWrite objectIndex 0 [active]]

/-- otp_container_update. -/
def containerUpdate (writes : List Write) : Store Unit := do
  let available ← consult fun _ (files : Files) => storageAvailable files
  if available = false then Prog.fail .wrongData
  else update layout containerId writes false true

/-- otp_container_bank_commit. -/
def bankCommit (active : BitVec 8) (slots : Slots) : Store Unit :=
  containerUpdate (bankWrites active slots)

/-- The marker of the slot is no longer wanted. -/
def markerRemove (slot : Nat) : Store Unit := do
  let marked ← consult fun _ (files : Files) =>
    decide (files (efOtpSlot1 + slot) = some (.marker .otp slot))
  if marked then do
    writeFile (efOtpSlot1 + slot) none
    commitLater
  else pure ()

/-- The marker of the slot is written; what is there and is no marker stays. -/
def markerWrite (slot : Nat) : Store Unit := do
  let taken ← consult fun _ (files : Files) =>
    (files (efOtpSlot1 + slot)).any fun c => decide (c ≠ .marker .otp slot)
  if taken then Prog.fail .wrongData
  else do
    discardFile (efOtpSlot1 + slot)
    let put ← putFile (efOtpSlot1 + slot) (some (.marker .otp slot))
    if put = false then Prog.fail .noMemory
    else do
      let committed ← commitSync
      if committed then pure () else Prog.fail .memoryFatal

/-- otp_marker_replace. -/
def markerReplace (slot : Nat) (present : Bool) : Store Unit :=
  if present then markerWrite slot else markerRemove slot

def bit (slot : Nat) : BitVec 8 := 1#8 <<< slot

/-- otp_container_write_slot. -/
def writeSlot (slot : Nat) (e : Entry) : Store Unit := do
  if slotCount ≤ slot ∨ secretMaxSize < e.secret.length ∨ metadataMaxSize < e.metadata.length then
    Prog.fail .wrongData
  else do
    let taken ← consult fun _ (files : Files) =>
      (stored files (efOtpSlot1 + slot)).any fun c => decide (c ≠ .marker .otp slot)
    if taken then Prog.fail .wrongData
    else do
      let loaded ← consult fun _ (files : Files) => bankLoad files
      let (active, slots) ← liftCheck loaded
      bankCommit (active ||| bit slot) (Function.update slots slot (some e))
      markerReplace slot true

/-- otp_container_delete_slot. -/
def deleteSlot (slot : Nat) : Store Unit := do
  let status ← consult fun _ (files : Files) => hasSlotStatus files slot
  let present ← liftCheck status
  if present = false then Prog.fail .fileNotFound
  else do
    let loaded ← consult fun _ (files : Files) => bankLoad files
    let (active, slots) ← liftCheck loaded
    bankCommit (active &&& ~~~bit slot) slots
    markerReplace slot false

def tooLong (e : Option Entry) : Bool :=
  e.any fun e => secretMaxSize < e.secret.length || metadataMaxSize < e.metadata.length

/-- The slots after a swap: what is present goes to the other slot. -/
def swapped (slots : Slots) (slot1 : Nat) (entry1 : Option Entry) (slot2 : Nat)
    (entry2 : Option Entry) : Slots :=
  let slots := if entry2.isSome then Function.update slots slot1 entry2 else slots
  if entry1.isSome then Function.update slots slot2 entry1 else slots

def swappedActive (active : BitVec 8) (slot1 : Nat) (present1 : Bool) (slot2 : Nat)
    (present2 : Bool) : BitVec 8 :=
  let active := active &&& ~~~(bit slot1 ||| bit slot2)
  let active := if present2 then active ||| bit slot1 else active
  if present1 then active ||| bit slot2 else active

/-- otp_container_swap_slots; an entry that is there stands for its presence flag and its data. -/
def swapSlots (slot1 : Nat) (entry1 : Option Entry) (slot2 : Nat) (entry2 : Option Entry) :
    Store Unit := do
  if slotCount ≤ slot1 ∨ slotCount ≤ slot2 ∨ slot1 = slot2 then Prog.fail .wrongData
  else do
    let status1 ← consult fun _ (files : Files) => hasSlotStatus files slot1
    let actual1 ← liftCheck status1
    let status2 ← consult fun _ (files : Files) => hasSlotStatus files slot2
    let actual2 ← liftCheck status2
    if entry1.isSome ≠ actual1 ∨ entry2.isSome ≠ actual2 ∨ tooLong entry1 ∨ tooLong entry2 then
      Prog.fail .wrongData
    else do
      let loaded ← consult fun _ (files : Files) => bankLoad files
      let (active, slots) ← liftCheck loaded
      bankCommit (swappedActive active slot1 entry1.isSome slot2 entry2.isSome)
        (swapped slots slot1 entry1 slot2 entry2)
      markerReplace slot1 entry2.isSome
      markerReplace slot2 entry1.isSome

/-- The calls that change the bank. -/
inductive Call
  | write (slot : Nat) (e : Entry)
  | delete (slot : Nat)
  | swap (slot1 : Nat) (entry1 : Option Entry) (slot2 : Nat) (entry2 : Option Entry)

def Call.run : Call → Store Unit
  | .write slot e => writeSlot slot e
  | .delete slot => deleteSlot slot
  | .swap slot1 entry1 slot2 entry2 => swapSlots slot1 entry1 slot2 entry2

/-! The layout is one with fixed files. -/

theorem identityValid_iff {t g : Nat} : identityValid t g = true ↔
    (t = objectIndex ∧ g = 0) ∨ ((t = objectSecret ∨ t = objectMetadata) ∧ g < slotCount) := by
  unfold identityValid
  split
  · next h =>
    simp only [h, decide_eq_true_eq, true_and]
    constructor
    · exact .inl
    · rintro (h' | ⟨h' | h', -⟩)
      · exact h'
      · exact absurd h' (by decide)
      · exact absurd h' (by decide)
  · next h =>
    simp only [Bool.and_eq_true, Bool.or_eq_true, decide_eq_true_eq, h, false_and, false_or]

theorem recordIndex_cases {t g : Nat} (h : identityValid t g = true) :
    (t = 3 ∧ g = 0 ∧ recordIndex t g = 8) ∨ (t = 1 ∧ g < 4 ∧ recordIndex t g = g) ∨
      (t = 2 ∧ g < 4 ∧ recordIndex t g = 4 + g) := by
  rcases identityValid_iff.mp h with ⟨rfl, rfl⟩ | ⟨rfl | rfl, hg⟩
  · exact .inl ⟨rfl, rfl, rfl⟩
  · have hmod : g % 256 = g := Nat.mod_eq_of_lt (Nat.lt_trans hg (by decide))
    exact .inr (.inl ⟨rfl, hg, hmod⟩)
  · have hmod : (slotCount + g) % 256 = 4 + g := by
      simp only [slotCount] at *
      omega
    exact .inr (.inr ⟨rfl, hg, hmod⟩)

theorem recordIndex_lt {t g : Nat} (h : identityValid t g = true) : recordIndex t g < recordCount := by
  have hcases := recordIndex_cases h
  simp only [recordCount]
  omega

theorem recordIndex_inj {t g t' g' : Nat} (h : identityValid t g = true)
    (h' : identityValid t' g' = true) (he : recordIndex t g = recordIndex t' g') :
    t = t' ∧ g = g' := by
  have hcases := recordIndex_cases h
  have hcases' := recordIndex_cases h'
  omega

theorem recordPrefix_cases {s : Nat} (hs : s < 2) :
    (s = 0 ∧ recordPrefix s = 0xb800) ∨ (s = 1 ∧ recordPrefix s = 0xb900) := by
  have hslots : s = 0 ∨ s = 1 := by omega
  rcases hslots with rfl | rfl
  · exact .inl ⟨rfl, rfl⟩
  · exact .inr ⟨rfl, rfl⟩

theorem recordFid_range {s i : Nat} (hi : i < recordCount) :
    0xb800 ≤ recordPrefix s + i ∧ recordPrefix s + i < 0xba00 := by
  simp only [recordPrefix, recordCount] at *
  split <;> omega

theorem manifestFid_range (s : Nat) : 0xb600 ≤ manifestFid s ∧ manifestFid s < 0xb800 := by
  unfold manifestFid
  split <;> omega

theorem accepted_identity {w : Write} (h : Accepted layout w) :
    identityValid w.objectType w.objectTag = true := by
  have hv : (identityValid w.objectType w.objectTag && w.policyId = policyId && w.keyDomain = 0 &&
      w.transactionGroup = transactionGroup && w.protection = protectionOf w.objectType &&
      w.flags = flagsOf w.objectType) = true := h.valid
  simp only [Bool.and_eq_true] at hv
  exact hv.1.1.1.1.1

theorem recordIdValid_self {w : Write} {s g : Nat} (hs : s < 2) :
    recordIdValid (w.descriptor g (recordFid s w.objectType w.objectTag)) = true := by
  have hslots : s = 0 ∨ s = 1 := by omega
  simp only [recordIdValid, Write.descriptor]
  rcases hslots with rfl | rfl <;> simp

theorem recordFid_ne_zero {w : Write} {s : Nat} (hw : Accepted layout w) (_hs : s < 2) :
    recordFid s w.objectType w.objectTag ≠ 0 := by
  have h1 := recordFid_range (s := s) (recordIndex_lt (accepted_identity hw))
  show recordPrefix s + recordIndex w.objectType w.objectTag ≠ 0
  omega

theorem manifestFid_zero_ne_one : layout.manifestFid containerId 0 ≠ layout.manifestFid containerId 1 := by
  decide

theorem manifestFid_ne_recordFid {w : Write} {s s' : Nat} (hw : Accepted layout w) (_ : s < 2)
    (_ : s' < 2) : layout.manifestFid containerId s ≠ recordFid s' w.objectType w.objectTag := by
  have h1 := recordFid_range (s := s') (recordIndex_lt (accepted_identity hw))
  have h2 := manifestFid_range s
  show manifestFid s ≠ recordPrefix s' + recordIndex w.objectType w.objectTag
  omega

theorem recordFid_inj {w w' : Write} {s s' : Nat} (hw : Accepted layout w) (hw' : Accepted layout w')
    (hs : s < 2) (hs' : s' < 2)
    (h : recordFid s w.objectType w.objectTag = recordFid s' w'.objectType w'.objectTag) :
    s = s' ∧ w.objectType = w'.objectType ∧ w.objectTag = w'.objectTag := by
  have h1 := recordIndex_lt (accepted_identity hw)
  have h2 := recordIndex_lt (accepted_identity hw')
  have heq : recordPrefix s + recordIndex w.objectType w.objectTag =
    recordPrefix s' + recordIndex w'.objectType w'.objectTag := h
  have hcount : recordCount = 9 := rfl
  have hboth : s = s' ∧ recordIndex w.objectType w.objectTag =
      recordIndex w'.objectType w'.objectTag := by
    rcases recordPrefix_cases hs with ⟨rfl, hp⟩ | ⟨rfl, hp⟩ <;>
    rcases recordPrefix_cases hs' with ⟨rfl, hp'⟩ | ⟨rfl, hp'⟩ <;>
    omega
  exact ⟨hboth.1, recordIndex_inj (accepted_identity hw) (accepted_identity hw') hboth.2⟩

theorem recordAllocate_accepted {w : Write} {s : Nat} (hw : Accepted layout w) (_ : s < 2) :
    layout.recordAllocate containerId s w =
      .ok (recordFid s w.objectType w.objectTag, recordFid s w.objectType w.objectTag) := by
  simp only [layout, accepted_identity hw, Bool.true_eq_false, if_false]

theorem descriptorValid_accepted {w : Write} {s g : Nat} (hw : Accepted layout w) (hs : s < 2) :
    layout.descriptorValid containerId (w.descriptor g (recordFid s w.objectType w.objectTag)) =
      true := by
  have hv : (identityValid w.objectType w.objectTag && w.policyId = policyId && w.keyDomain = 0 &&
      w.transactionGroup = transactionGroup && w.protection = protectionOf w.objectType &&
      w.flags = flagsOf w.objectType) = true := hw.valid
  simp only [Bool.and_eq_true, and_assoc] at hv
  have hid := recordIdValid_self (w := w) (g := g) hs
  simp only [layout, Write.descriptor] at *
  simp only [hv, hid, Bool.and_self]

theorem recordFid_accepted {w : Write} {s g : Nat} (hw : Accepted layout w) (hs : s < 2) :
    layout.recordFid containerId (w.descriptor g (recordFid s w.objectType w.objectTag)) =
      .ok (recordFid s w.objectType w.objectTag) := by
  have hok : ¬ (identityValid w.objectType w.objectTag = false ∨
      recordIdValid (w.descriptor g (recordFid s w.objectType w.objectTag)) = false) := by
    simp [accepted_identity hw, recordIdValid_self hs]
  show (if _ then _ else _) = _
  exact if_neg hok

theorem activate_confined :
    Confined (fun k _ => Foreign layout containerId recordFid k) (fun _ _ => True)
      (layout.activate containerId) := trivial

theorem activate_total {f : Faults} (_ : ¬ f.noticed) (m : StoreMachine) :
    wp f (layout.activate containerId) (fun _ _ => True) (fun _ _ => False) (fun _ => True) m :=
  trivial

theorem retire_confined {candidates : Nat → Option Manifest} {next : Manifest} {τ : Nat}
    (hτ : τ < 2) : Confined (fun k v => v = none ∧ (k = layout.manifestFid containerId (1 - τ) ∨
      references next k = false ∧ ∀ s < 2, k ≠ layout.manifestFid containerId s)) (fun _ _ => True)
      (layout.retire containerId candidates next τ) := by
  show Confined (fun k v => v = none ∧ (k = manifestFid (1 - τ) ∨
    references next k = false ∧ ∀ s < 2, k ≠ manifestFid s)) (fun _ _ => True)
    (sweep manifestFid (fun slot index => recordPrefix slot + index) (List.range recordCount) next τ)
  apply sweep_confined hτ
  intro s hs i hi s' _
  have h1 := recordFid_range (s := s) (List.mem_range.mp hi)
  have h2 := manifestFid_range s'
  omega

theorem retire_total {f : Faults} {candidates : Nat → Option Manifest} {next : Manifest}
    {τ : Nat} (_ : ∀ s c, s < 2 → candidates s = some c →
      ∀ o ∈ c.objects, ∃ k, layout.recordFid containerId o = .ok k) (m : StoreMachine) :
    wp f (layout.retire containerId candidates next τ) (fun _ _ => True) (fun _ _ => False)
      (fun _ => True) m :=
  wp_of_total (p := retire containerId candidates next τ) sweep_total m

theorem retire_clears {f : Faults} {candidates : Nat → Option Manifest} {next : Manifest}
    {τ : Nat} (hf : ¬ f.silent) (hτ : τ < 2) (m : StoreMachine)
    (_ : (candidates (1 - τ)).isSome ∨ m.view (layout.manifestFid containerId (1 - τ)) = none) :
    wp f (layout.retire containerId candidates next τ)
      (fun _ n => n.view (layout.manifestFid containerId (1 - τ)) = none) (fun _ _ => True)
      (fun _ => True) m := by
  show wp f (sweep manifestFid (fun slot index => recordPrefix slot + index)
    (List.range recordCount) next τ) (fun _ n => n.view (manifestFid (1 - τ)) = none)
    (fun _ _ => True) (fun _ => True) m
  exact sweep_clears hf hτ m

/-- The scheme of the OTP container. -/
def scheme : Scheme layout containerId where
  fid := recordFid
  manifest_ne := manifestFid_zero_ne_one
  manifest_ne_fid := manifestFid_ne_recordFid
  fid_ne_zero := recordFid_ne_zero
  fid_inj := recordFid_inj
  allocate := recordAllocate_accepted
  descriptor_valid := descriptorValid_accepted
  record_fid := recordFid_accepted
  activate_confined := activate_confined
  activate_total := activate_total
  retire_confined := retire_confined
  retire_total := retire_total
  retire_clears := retire_clears

end Container.Otp

end KeyWallet
