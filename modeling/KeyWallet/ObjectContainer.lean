import KeyWallet.CrashProgram
import Mathlib.Data.List.Sort

/-! The object containers of object_container.c and object_container_store.c: a manifest in one of
two slots and a record file for each object. The MAC and the AEAD are taken as correct, so a file is
what was built under a key: it opens under that key and as what it was, and otherwise not at all. -/
namespace KeyWallet

open CrashProgram

namespace Container

abbrev Data := List (BitVec 8)

inductive ObjErr
  | nullParam
  | execError
  | noMemory
  | memoryFatal
  | fileNotFound
  | wrongData
  | wrongLength
  | wrongSignature
  deriving DecidableEq, Repr

def manifestMaxObjects : Nat := 8
def manifestHeaderSize : Nat := 32
def descriptorSize : Nat := 36
def recordHeaderSize : Nat := 40
def authTagSize : Nat := 16
def uint16Max : Nat := 0xffff
def uint32Max : Nat := 0xffffffff

def protectionAuthenticatedPublic : Nat := 1
def protectionAeadSecret : Nat := 2
def protectionFirmwareInternal : Nat := 3

def flagInline : Nat := 0x0001
def flagMutable : Nat := 0x0002
def flagNonExportable : Nat := 0x0004
def flagTransactionGroup : Nat := 0x0010
def flagMask : Nat := 0x003f

/-- The key material a file was built under. -/
inductive Root
  | primary
  | legacy
  deriving DecidableEq, Repr

structure Descriptor where
  objectType : Nat
  objectTag : Nat
  generation : Nat
  logicalSize : Nat
  recordId : Nat
  storedSize : Nat
  policyId : Nat
  keyDomain : Nat
  protection : Nat
  flags : Nat
  extensionSize : Nat
  transactionGroup : Nat
  deriving DecidableEq, Repr

structure Manifest where
  namespaceId : Nat
  containerKind : Nat
  containerId : Nat
  generation : Nat
  previousGeneration : Nat
  extensionSize : Nat
  objects : List Descriptor
  deriving DecidableEq, Repr

/-- What the seal of a record binds. -/
structure Identity where
  namespaceId : Nat
  containerKind : Nat
  containerId : Nat
  objectType : Nat
  objectTag : Nat
  generation : Nat
  logicalSize : Nat
  policyId : Nat
  keyDomain : Nat
  protection : Nat
  flags : Nat
  recordId : Nat
  deriving DecidableEq, Repr

/-- The first four bytes of the files that say a slot is taken: PKF1, PKO1 and PKT1. -/
inductive MarkerMagic
  | resident
  | oath
  | otp
  deriving DecidableEq, Repr

inductive Content
  | manifest (root : Root) (m : Manifest)
  | record (root : Root) (identity : Identity) (plaintext : Data)
  | marker (magic : MarkerMagic) (slot : Nat)
  | other (size : Nat)
  deriving DecidableEq, Repr

/-- `none` is a file that does not exist. -/
abbrev Files := Nat → Option Content

def Content.size : Content → Nat
  | .manifest _ m =>
    manifestHeaderSize + m.objects.length * descriptorSize + m.extensionSize + authTagSize
  | .record _ _ plaintext => recordHeaderSize + plaintext.length + authTagSize
  | .marker _ _ => 8
  | .other size => size

/-- file_search together with file_has_data. -/
def stored (files : Files) (fid : Nat) : Option Content := (files fid).filter fun c => 0 < c.size

/-- file_object_descriptor_core_valid. -/
def descriptorCoreValid (o : Descriptor) : Bool :=
  o.objectType ≠ 0 && o.objectType ≠ 0xffff && o.generation ≠ 0 && o.recordId ≠ 0 &&
  protectionAuthenticatedPublic ≤ o.protection && o.protection ≤ protectionFirmwareInternal &&
  (o.flags ||| flagMask) = flagMask && o.flags &&& flagInline = 0 &&
  ((o.flags &&& flagTransactionGroup ≠ 0 : Bool) == (o.transactionGroup ≠ 0 : Bool))

/-- The order of the descriptors: by type, then by tag. -/
def descriptorBefore (a b : Descriptor) : Prop :=
  a.objectType < b.objectType ∨ (a.objectType = b.objectType ∧ a.objectTag < b.objectTag)

instance : DecidableRel descriptorBefore := fun _ _ => inferInstanceAs (Decidable (_ ∨ _))

/-- file_object_descriptors_valid. -/
def descriptorsValid (os : List Descriptor) : Bool :=
  os.all descriptorCoreValid && decide (os.IsChain descriptorBefore)

/-- file_object_manifest_build, up to the bytes. -/
def manifestBuild (m : Manifest) : Except ObjErr Unit :=
  if manifestMaxObjects < m.objects.length then .error .wrongData
  else if m.generation = 0 ∨ m.generation ≤ m.previousGeneration then .error .wrongData
  else if descriptorsValid m.objects = false then .error .wrongData
  else .ok ()

/-- file_object_manifest_parse. -/
def manifestParse (root : Root) (c : Content) : Except ObjErr Manifest :=
  if c.size < manifestHeaderSize + authTagSize ∨ uint16Max < c.size then .error .wrongLength
  else
    match c with
    | .manifest r m =>
      if manifestMaxObjects < m.objects.length then .error .wrongData
      else if r ≠ root then .error .wrongSignature
      else if m.generation = 0 ∨ m.generation ≤ m.previousGeneration then .error .wrongData
      else if descriptorsValid m.objects = false then .error .wrongData
      else .ok m
    | _ => .error .wrongData

/-- file_object_record_header_parse: the framing only, not the seal. -/
def recordHeaderParse (c : Content) (o : Descriptor) : Except ObjErr Unit :=
  if descriptorCoreValid o = false then .error .wrongData
  else if c.size ≠ recordHeaderSize + o.storedSize + authTagSize then .error .wrongLength
  else
    match c with
    | .record _ i plaintext =>
      if i.protection = o.protection ∧ i.recordId = o.recordId ∧ plaintext.length = o.storedSize ∧
          i.logicalSize = o.logicalSize ∧ i.generation = o.generation then .ok ()
      else .error .wrongData
    | _ => .error .wrongData

/-- file_object_record_identity_build. -/
def recordIdentity (m : Manifest) (o : Descriptor) : Identity where
  namespaceId := m.namespaceId
  containerKind := m.containerKind
  containerId := m.containerId
  objectType := o.objectType
  objectTag := o.objectTag
  generation := o.generation
  logicalSize := o.logicalSize
  policyId := o.policyId
  keyDomain := o.keyDomain
  protection := o.protection
  flags := o.flags
  recordId := o.recordId

/-- file_object_record_unseal into a buffer of this capacity. -/
def recordUnseal (root : Root) (m : Manifest) (o : Descriptor) (capacity : Nat) (c : Content) :
    Except ObjErr Data :=
  if capacity < o.logicalSize ∨ o.logicalSize ≠ o.storedSize then .error .wrongLength
  else
    match recordHeaderParse c o with
    | .error e => .error e
    | .ok () =>
      match c with
      | .record r i plaintext =>
        if r = root ∧ i = recordIdentity m o then .ok plaintext else .error .wrongSignature
      | _ => .error .wrongData

/-- file_object_container_write_t. -/
structure Write where
  objectType : Nat
  objectTag : Nat
  data : Data
  policyId : Nat
  keyDomain : Nat
  protection : Nat
  flags : Nat
  transactionGroup : Nat
  deriving DecidableEq, Repr

/-- A call of file_object_record_seal: the key comes from the root and the identity, the nonce is the
record id with the object's generation. -/
structure Sealed where
  root : Root
  identity : Identity
  plaintext : Data
  deriving DecidableEq, Repr

/-- Programs over the files; `putFile fid none` is file_delete_no_commit. -/
abbrev Store := Prog Nat (Option Content) Unit Sealed ObjErr
abbrev StoreMachine := Machine Nat (Option Content) Unit Sealed

def forEach {α : Type} (f : α → Store Unit) : List α → Store Unit
  | [] => pure ()
  | a :: as => do
    f a
    forEach f as

/-- file_object_container_layout_t. -/
structure Layout where
  namespaceId : Nat
  containerKind : Nat
  manifestFid : (containerId slot : Nat) → Nat
  recordFid : (containerId : Nat) → Descriptor → Except ObjErr Nat
  -- the record id and the file
  recordAllocate : (containerId targetSlot : Nat) → Write → Except ObjErr (Nat × Nat)
  policyKnown : Nat → Bool
  writeValid : Write → Bool
  descriptorValid : (containerId : Nat) → Descriptor → Bool
  activate : (containerId : Nat) → Store Unit
  deactivate : (containerId : Nat) → Store Unit
  retire : (containerId : Nat) → (candidates : Nat → Option Manifest) → (next : Manifest) →
    (targetSlot : Nat) → Store Unit
  rollbackNewRecords : Bool

/-- file_object_container_state_t: what was found in each slot, and the slot to use. -/
structure State where
  candidates : Nat → Option Manifest
  root : Root
  currentSlot : Nat

section Loading

variable (L : Layout) (files : Files) (id : Nat)

/-- What parse_slot asks of each descriptor: that its record is there and bears its header. -/
def checkRecord (o : Descriptor) : Except ObjErr Unit :=
  if L.descriptorValid id o = false then .error .wrongData
  else
    match L.recordFid id o with
    | .error e => .error e
    | .ok fid =>
      match stored files fid with
      | none => .error .wrongData
      | some record =>
        match recordHeaderParse record o with
        | .ok () => .ok ()
        | .error _ => .error .wrongData

/-- The first error of a check over a list. -/
def checkAll (check : Descriptor → Except ObjErr Unit) : List Descriptor → Except ObjErr Unit
  | [] => .ok ()
  | o :: os =>
    match check o with
    | .error e => .error e
    | .ok () => checkAll check os

/-- file_object_container_parse_slot. -/
def parseSlot (root : Root) (slot : Nat) : Except ObjErr Manifest :=
  match stored files (L.manifestFid id slot) with
  | none => .error .fileNotFound
  | some content =>
    match manifestParse root content with
    | .error e => .error e
    | .ok m =>
      if m.namespaceId ≠ L.namespaceId ∨ m.containerKind ≠ L.containerKind ∨
          m.containerId ≠ id ∨ m.objects = [] then
        .error .wrongData
      else
        match checkAll (checkRecord L files id) m.objects with
        | .error e => .error e
        | .ok () => .ok m

/-- What the loop over the slots carries. -/
structure Scan where
  candidates : Nat → Option Manifest
  current : Option (Nat × Manifest)
  storagePresent : Bool

/-- One round of that loop. -/
def scanSlot (root : Root) (sc : Scan) (slot : Nat) : Except ObjErr Scan :=
  let present := sc.storagePresent || (stored files (L.manifestFid id slot)).isSome
  match parseSlot L files id root slot with
  | .ok m =>
    let candidates := Function.update sc.candidates slot (some m)
    match sc.current with
    | none => .ok ⟨candidates, some (slot, m), present⟩
    | some (s, c) =>
      if c.generation = m.generation then .error .wrongData
      else if c.generation < m.generation then .ok ⟨candidates, some (slot, m), present⟩
      else .ok ⟨candidates, some (s, c), present⟩
  | .error .fileNotFound => .ok { sc with storagePresent := present }
  | .error .wrongData => .ok { sc with storagePresent := present }
  | .error .wrongSignature => .ok { sc with storagePresent := present }
  | .error e => .error e

/-- file_object_container_load_with_crypto. -/
def loadWithCrypto (root : Root) : Except ObjErr State :=
  match scanSlot L files id root ⟨fun _ => none, none, false⟩ 0 with
  | .error e => .error e
  | .ok sc =>
    match scanSlot L files id root sc 1 with
    | .error e => .error e
    | .ok sc =>
      match sc.current with
      | none => .error (if sc.storagePresent then .wrongData else .fileNotFound)
      | some (slot, _) => .ok ⟨sc.candidates, root, slot⟩

/-- file_object_container_load; `legacy` says whether there are keys of the old kind. -/
def load (legacy : Bool) : Except ObjErr State :=
  match loadWithCrypto L files id .primary with
  | .ok st => .ok st
  | .error .fileNotFound => .error .fileNotFound
  | .error e =>
    if legacy = false then .error e
    else
      match loadWithCrypto L files id .legacy with
      | .ok st => .ok st
      | .error _ => .error e

/-- file_object_container_find. -/
def find (m : Manifest) (objectType objectTag : Nat) : Option Descriptor :=
  m.objects.find? fun o => o.objectType = objectType ∧ o.objectTag = objectTag

/-- file_object_container_references. -/
def references (m : Manifest) (recordId : Nat) : Bool := m.objects.any fun o => o.recordId = recordId

/-- file_object_container_unseal. -/
def containerUnseal (root : Root) (m : Manifest) (capacity : Nat) (o : Descriptor) :
    Except ObjErr Data :=
  if L.policyKnown o.policyId = false then .error .wrongData
  else
    match L.recordFid id o with
    | .error e => .error e
    | .ok fid =>
      match stored files fid with
      | none => .error .fileNotFound
      | some record => recordUnseal root m o capacity record

/-- What validate asks of each descriptor: that its record opens. -/
def checkOpens (root : Root) (m : Manifest) (o : Descriptor) : Except ObjErr Unit :=
  match containerUnseal L files id root m o.logicalSize o with
  | .error e => .error e
  | .ok plaintext => if plaintext.length ≠ o.logicalSize then .error .wrongLength else .ok ()

/-- file_object_container_validate. -/
def validate (root : Root) (m : Manifest) : Except ObjErr Unit :=
  checkAll (checkOpens L files id root m) m.objects

/-- file_object_container_select_valid: the slot to use and its manifest. -/
def selectValid (st : State) : Except ObjErr (Nat × Manifest) :=
  match st.candidates st.currentSlot with
  | none => .error .fileNotFound
  | some m =>
    match validate L files id st.root m with
    | .ok () => .ok (st.currentSlot, m)
    | .error e =>
      match st.candidates (1 - st.currentSlot) with
      | none => .error e
      | some previous =>
        match validate L files id st.root previous with
        | .ok () => .ok (1 - st.currentSlot, previous)
        | .error _ => .error e

/-- file_object_container_read into an empty buffer of this capacity. -/
def read (legacy : Bool) (capacity objectType objectTag : Nat) : Except ObjErr Data :=
  match load L files id legacy with
  | .error e => .error e
  | .ok st =>
    match st.candidates st.currentSlot with
    | none => .error .fileNotFound
    | some m =>
      match find m objectType objectTag with
      | none => .error .fileNotFound
      | some o =>
        match containerUnseal L files id st.root m capacity o with
        | .ok plaintext => .ok plaintext
        | .error e =>
          match st.candidates (1 - st.currentSlot) with
          | none => .error e
          | some previous =>
            match find previous objectType objectTag with
            | none => .error e
            | some o' => containerUnseal L files id st.root previous capacity o'

end Loading

/-- file_object_container_replace_file; the result is handed on. The directory entry without data that is left when
the put is refused, and that is gone after a restart, is no file here. -/
def replaceFile (fid : Nat) (c : Content) : Store (Except ObjErr Unit) := do
  let present ← consult fun _ (files : Files) => (files fid).isSome
  let deleted ← if present then putFile fid none else pure true
  if deleted = false then
    pure (.error .execError)
  else
    let put ← putFile fid (some c)
    pure (if put then .ok () else .error .noMemory)

/-- Deletes the file if it exists; the result is not looked at. -/
def discardFile (fid : Nat) : Store Unit := do
  let present ← consult fun _ (files : Files) => (files fid).isSome
  if present then writeFile fid none else pure ()

/-- Deletes the file if it exists. -/
def removeFile (fid : Nat) : Store Unit := do
  let present ← consult fun _ (files : Files) => (files fid).isSome
  let deleted ← if present then putFile fid none else pure true
  if deleted then pure () else Prog.fail .execError

/-- The descriptor of a new record. -/
def Write.descriptor (w : Write) (generation recordId : Nat) : Descriptor where
  objectType := w.objectType
  objectTag := w.objectTag
  generation := generation
  logicalSize := w.data.length
  recordId := recordId
  storedSize := w.data.length
  policyId := w.policyId
  keyDomain := w.keyDomain
  protection := w.protection
  flags := w.flags
  extensionSize := 0
  transactionGroup := w.transactionGroup

/-- file_object_container_write_record: the new descriptor and its file. -/
def writeRecord (L : Layout) (id targetSlot : Nat) (w : Write) (generation : Nat) (next : Manifest)
    (root : Root) : Store (Except ObjErr (Descriptor × Nat)) :=
  match L.recordAllocate id targetSlot w with
  | .error e => pure (.error e)
  | .ok (recordId, fid) => do
    let o := w.descriptor generation recordId
    if L.policyKnown w.policyId = false then
      pure (.error .wrongData)
    else if uint32Max - recordHeaderSize - authTagSize < w.data.length then
      pure (.error .wrongLength)
    else if descriptorCoreValid o = false then
      pure (.error .wrongData)
    else
      event ⟨root, recordIdentity next o, w.data⟩
      let r ← replaceFile fid (.record root (recordIdentity next o) w.data)
      match r with
      | .error e => pure (.error e)
      | .ok () => pure (.ok (o, fid))

/-- The descriptor takes the place of the one of the same object, or goes to the end. -/
def putObject : List Descriptor → Descriptor → List Descriptor
  | [], d => [d]
  | o :: os, d =>
    if o.objectType = d.objectType ∧ o.objectTag = d.objectTag then d :: os else o :: putObject os d

/-- The checks on one write, before anything is written; the generation of the new record. -/
def checkWrite (L : Layout) (done : List Write) (next : Manifest) (w : Write) :
    Except ObjErr Nat :=
  if w.objectType = 0 ∨ w.objectType = 0xffff ∨ w.flags &&& flagInline ≠ 0 ∨
      L.writeValid w = false then
    .error .wrongData
  else if done.any fun v => v.objectType = w.objectType ∧ v.objectTag = w.objectTag then
    .error .wrongData
  else
    match find next w.objectType w.objectTag with
    | none => .ok 1
    | some o => if o.generation = uint32Max then .error .wrongData else .ok (o.generation + 1)

/-- The loop over the writes: the files written so far, and the manifest or the error. -/
def writeRecords (L : Layout) (id targetSlot : Nat) (root : Root) :
    (done ws : List Write) → (fids : List Nat) → Manifest →
    Store (List Nat × Except ObjErr Manifest)
  | _, [], fids, next => pure (fids, .ok next)
  | done, w :: ws, fids, next =>
    match checkWrite L done next w with
    | .error e => pure (fids, .error e)
    | .ok generation => do
      let r ← writeRecord L id targetSlot w generation next root
      match r with
      | .error e => pure (fids, .error e)
      | .ok (o, fid) =>
        if (find next w.objectType w.objectTag).isNone ∧ manifestMaxObjects ≤ next.objects.length then
          pure (fids ++ [fid], .error .noMemory)
        else
          writeRecords L id targetSlot root (done ++ [w]) ws (fids ++ [fid])
            { next with objects := putObject next.objects o }

/-- file_object_container_rollback, where the layout asks for it. -/
def rollback (L : Layout) (fids : List Nat) : Store Unit :=
  if L.rollbackNewRecords then do
    forEach discardFile fids
    commitLater
  else
    pure ()

/-- The manifest that the update starts from, with its generation raised. -/
def nextManifest (L : Layout) (id : Nat) (current : Option (Nat × Manifest)) :
    Except ObjErr Manifest :=
  match current with
  | none => .ok ⟨L.namespaceId, L.containerKind, id, 1, 0, 0, []⟩
  | some (_, m) =>
    if m.generation = uint32Max ∨ m.extensionSize ≠ 0 then .error .wrongData
    else if m.objects.any fun o => o.extensionSize ≠ 0 then .error .wrongData
    else .ok { m with previousGeneration := m.generation, generation := m.generation + 1 }

def targetSlotOf (current : Option (Nat × Manifest)) : Nat :=
  match current with
  | none => 0
  | some (slot, _) => 1 - slot

/-- What an update builds on: the key, what was found in the slots, and the slot to start from with
its manifest, none when the container is new. -/
structure Base where
  root : Root
  candidates : Nat → Option Manifest
  current : Option (Nat × Manifest)

/-- The loading part of an update. -/
def baseOf (L : Layout) (files : Files) (id : Nat) (legacy validated : Bool) :
    Except ObjErr Base :=
  match load L files id legacy with
  | .error .fileNotFound => .ok ⟨.primary, fun _ => none, none⟩
  | .error e => .error e
  | .ok st =>
    if validated then
      match selectValid L files id st with
      | .error e => .error e
      | .ok current => .ok ⟨st.root, st.candidates, some current⟩
    else
      .ok ⟨st.root, st.candidates, (st.candidates st.currentSlot).map fun m => (st.currentSlot, m)⟩

def sortObjects (m : Manifest) : Manifest :=
  { m with objects := m.objects.insertionSort fun a b => ¬ descriptorBefore b a }

/-- The manifest goes to the target slot, durably. -/
def writeManifest (L : Layout) (id targetSlot : Nat) (root : Root) (next : Manifest) :
    Store (Except ObjErr Unit) :=
  match manifestBuild next with
  | .error e => pure (.error e)
  | .ok () => do
    let r ← replaceFile (L.manifestFid id targetSlot) (.manifest root next)
    match r with
    | .error e => pure (.error e)
    | .ok () =>
      let committed ← commitSync
      pure (if committed then .ok () else .error .memoryFatal)

/-- file_object_container_update_internal; `validated` tells its two callers apart. -/
def update (L : Layout) (id : Nat) (writes : List Write) (legacy validated : Bool) : Store Unit := do
  if writes = [] ∨ manifestMaxObjects < writes.length then
    Prog.fail .nullParam
  else
    let loaded ← consult fun _ (files : Files) => baseOf L files id legacy validated
    let base ← liftCheck loaded
    let start ← liftCheck (nextManifest L id base.current)
    let targetSlot := targetSlotOf base.current
    let (fids, r) ← writeRecords L id targetSlot base.root [] writes [] start
    match r with
    | .error e =>
      rollback L fids
      Prog.fail e
    | .ok next =>
      let committed ← commitSync
      if committed = false then
        rollback L fids
        Prog.fail .memoryFatal
      else
        let r ← writeManifest L id targetSlot base.root (sortObjects next)
        match r with
        | .error e =>
          rollback L fids
          Prog.fail e
        | .ok () =>
          L.activate id
          L.retire id base.candidates (sortObjects next) targetSlot

/-- The manifest without one of its objects. -/
def withoutObject (m : Manifest) (objectType objectTag : Nat) : Except ObjErr Manifest :=
  match find m objectType objectTag with
  | none => .error .fileNotFound
  | some o =>
    if m.generation = uint32Max ∨ m.objects.length ≤ 1 ∨ m.extensionSize ≠ 0 ∨
        o.extensionSize ≠ 0 then
      .error .wrongData
    else
      .ok { m with
        objects := m.objects.eraseP fun p => p.objectType = objectType ∧ p.objectTag = objectTag
        previousGeneration := m.generation
        generation := m.generation + 1 }

/-- file_object_container_remove. -/
def remove (L : Layout) (id objectType objectTag : Nat) (legacy : Bool) : Store Unit := do
  let loaded ← consult fun _ (files : Files) => load L files id legacy
  let st ← liftCheck loaded
  let selected ← consult fun _ (files : Files) => selectValid L files id st
  let (slot, m) ← liftCheck selected
  let next ← liftCheck (withoutObject m objectType objectTag)
  let r ← writeManifest L id (1 - slot) st.root next
  match r with
  | .error e => Prog.fail e
  | .ok () => L.retire id st.candidates next (1 - slot)

/-- One slot of file_object_container_delete: the records of its manifest, then the manifest. -/
def deleteSlot (L : Layout) (id : Nat) (candidates : Nat → Option Manifest) (slot : Nat) :
    Store Unit := do
  match candidates slot with
  | none => pure ()
  | some m =>
    forEach (fun o => do
      let fid ← liftCheck (L.recordFid id o)
      removeFile fid) m.objects
  removeFile (L.manifestFid id slot)

/-- file_object_container_delete. -/
def containerDelete (L : Layout) (id : Nat) (legacy : Bool) : Store Unit := do
  let loaded ← consult fun _ (files : Files) => load L files id legacy
  let st ← liftCheck loaded
  deleteSlot L id st.candidates 0
  deleteSlot L id st.candidates 1
  L.deactivate id
  let committed ← commitSync
  if committed then pure () else Prog.fail .memoryFatal

end Container

end KeyWallet
