import KeyWallet.ContainerSweep

/-! The containers of the resident credentials, resident_container.c: one for each of the 256 slots.
The pointers that the functions check for NULL are valid here, and a buffer is no larger than what a
record can hold. -/
namespace KeyWallet

open CrashProgram

namespace Container.Resident

def objectRpIdHash : Nat := 1
def objectClientId : Nat := 2
def objectCredential : Nat := 3
def objectPublicKey : Nat := 4
def objectMetadata : Nat := 5
def objectPrivateKey : Nat := 6
def objectState : Nat := 7

def objectNamespace : Nat := 2
def containerKind : Nat := 1
def policyId : Nat := 0x0200
def efCred : Nat := 0xcf00

/-- resident_manifest_fid. -/
def manifestFid (slot manifestSlot : Nat) : Nat :=
  (if manifestSlot = 0 then 0xd1 else 0xd2) * 256 + slot % 256

/-- resident_record_fid. -/
def recordFid (slot manifestSlot objectType : Nat) : Nat :=
  if objectType = objectMetadata then
    (if manifestSlot = 0 then 0xdb else 0xdc) * 256 + slot % 256
  else if objectType = objectPrivateKey then
    (if manifestSlot = 0 then 0xe0 else 0xe1) * 256 + slot % 256
  else if objectType = objectState then
    (if manifestSlot = 0 then 0xe2 else 0xe3) * 256 + slot % 256
  else
    (((if manifestSlot = 0 then 0xd3 else 0xd7) + objectType - 1) * 256 + slot % 256) % 65536

/-- resident_record_fid_legacy. -/
def recordFidLegacy (slot manifestSlot objectType : Nat) : Nat :=
  if objectType = objectMetadata then
    (if manifestSlot = 0 then 0xdb else 0xdc) * 256 + slot % 256
  else
    (((if manifestSlot = 0 then 0xd3 else 0xd7) + objectType - 1) * 256 + slot % 256) % 65536

/-- resident_object_type_valid. -/
def objectTypeValid (objectType : Nat) : Bool := objectRpIdHash ≤ objectType && objectType ≤ objectState

/-- resident_record_id_valid. -/
def recordIdValid (slot : Nat) (o : Descriptor) : Bool :=
  if objectTypeValid o.objectType = false ∨ uint16Max < o.recordId then false
  else if o.recordId = recordFid slot 0 o.objectType ∨ o.recordId = recordFid slot 1 o.objectType then
    true
  else if o.objectType = objectPrivateKey ∨ o.objectType = objectState then
    o.recordId = recordFidLegacy slot 0 o.objectType ||
      o.recordId = recordFidLegacy slot 1 o.objectType
  else false

/-- The seven types of object. -/
def objectTypes : List Nat := [1, 2, 3, 4, 5, 6, 7]

/-- resident_marker_write: the file that says the slot is taken. -/
def markerWrite (slot : Nat) : Store Unit := do
  let r ← replaceFile (efCred + slot) (.marker .resident slot)
  liftCheck r
  let committed ← commitSync
  if committed then pure () else Prog.fail .memoryFatal

/-- resident_layout_activate. -/
def activate (containerId : Nat) : Store Unit := do
  let slot := containerId % 256
  let present ← consult fun _ (files : Files) =>
    decide (files (efCred + slot) = some (.marker .resident slot))
  if present then pure () else markerWrite slot

/-- resident_layout_retire. -/
def retire (containerId : Nat) (_candidates : Nat → Option Manifest) (next : Manifest)
    (targetSlot : Nat) : Store Unit :=
  sweep (manifestFid (containerId % 256)) (recordFid (containerId % 256)) objectTypes next targetSlot

/-- resident_layout_deactivate. -/
def deactivate (containerId : Nat) : Store Unit := do
  let slot := containerId % 256
  forEach (fun t => discardFile (recordFid slot 0 t)) objectTypes
  forEach (fun t => discardFile (recordFid slot 1 t)) objectTypes
  removeFile (efCred + slot)

/-- resident_container_layout. -/
def layout : Layout where
  namespaceId := objectNamespace
  containerKind := containerKind
  manifestFid := fun containerId slot => manifestFid (containerId % 256) slot
  recordFid := fun containerId o =>
    if 255 < containerId ∨ recordIdValid (containerId % 256) o = false then .error .wrongData
    else .ok o.recordId
  recordAllocate := fun containerId targetSlot w =>
    if 255 < containerId ∨ objectTypeValid w.objectType = false then .error .nullParam
    else .ok (recordFid containerId targetSlot w.objectType, recordFid containerId targetSlot w.objectType)
  policyKnown := fun id => id = policyId
  writeValid := fun w =>
    objectTypeValid w.objectType && w.objectTag = 0 && w.policyId = policyId && w.keyDomain = 0
  descriptorValid := fun containerId o =>
    containerId ≤ 255 && o.objectTag = 0 && recordIdValid (containerId % 256) o
  activate := activate
  deactivate := deactivate
  retire := retire
  rollbackNewRecords := false

/-- resident_container_can_create; `legacy` says whether there are keys of the old kind. -/
def canCreate (slot : Nat) (legacy : Bool) (files : Files) : Bool :=
  if (files (manifestFid slot 0)).isSome || (files (manifestFid slot 1)).isSome then
    match load layout files slot legacy with
    | .error _ => false
    | .ok st =>
      match st.candidates st.currentSlot with
      | none => false
      | some m =>
        match validate layout files slot st.root m with
        | .error _ => false
        | .ok () => true
  else
    [0, 1].all fun s => objectTypes.all fun t =>
      match files (recordFid slot s t) with
      | none => true
      | some (.record _ _ _) => true
      | some _ => false

/-- resident_container_update. -/
def containerUpdate (slot : Nat) (legacy : Bool) (writes : List Write) : Store Unit := do
  let refused ← consult fun _ (files : Files) =>
    (stored files (manifestFid slot 0)).isNone && (stored files (manifestFid slot 1)).isNone &&
      !canCreate slot legacy files
  if refused then Prog.fail .wrongData
  else update layout slot writes legacy true

/-- A buffer that a record can hold. -/
abbrev Blob := { d : Data // d.length ≤ uint32Max - recordHeaderSize - authTagSize }

abbrev RpIdHash := { d : Data // d.length = 32 }

def residentWrite (objectType protection flags : Nat) (data : Data) : Write where
  objectType := objectType
  objectTag := 0
  data := data
  policyId := policyId
  keyDomain := 0
  protection := protection
  flags := flags
  transactionGroup := 0

/-- fido_resident_metadata_t. -/
structure Metadata where
  status : BitVec 8
  properties : BitVec 8
  expiration : BitVec 32
  deriving DecidableEq, Repr

def statusActive : BitVec 8 := 0
def statusRevoked : BitVec 8 := 2

/-- resident_metadata_encode. -/
def metadataEncode (m : Metadata) : Data :=
  [m.status, m.properties, m.expiration.extractLsb' 24 8, m.expiration.extractLsb' 16 8,
    m.expiration.extractLsb' 8 8, m.expiration.extractLsb' 0 8]

/-- resident_metadata_decode of what was read for the state object. -/
def metadataDecode (d : Data) : Metadata where
  status := d.getD 0 0
  properties := d.getD 1 0
  expiration := (d.getD 2 0) ++ (d.getD 3 0) ++ (d.getD 4 0) ++ (d.getD 5 0)

def metadataValid (m : Metadata) : Bool := m.status ≤ statusRevoked

def metadataSize : Nat := 6

/-- resident_container_read_metadata. -/
def readMetadata (slot : Nat) (legacy : Bool) (files : Files) : Except ObjErr Metadata :=
  match read layout files slot legacy metadataSize objectState 0 with
  | .error .fileNotFound => .ok ⟨statusActive, 0, 0⟩
  | .error e => .error e
  | .ok d =>
    if d.length ≠ metadataSize then .error .wrongLength
    else if metadataValid (metadataDecode d) then .ok (metadataDecode d)
    else .error .wrongData

/-- The calls that write to a container. -/
inductive Call
  | create (rpIdHash : RpIdHash) (clientId credential publicKey : Blob)
  | createImported (rpIdHash : RpIdHash) (clientId credential publicKey privateKey metadata : Blob)
  | updateCredential (credential : Blob)
  | updateMetadata (metadata : Metadata)
  | updateMetadataBlob (metadata : Blob)
  | updatePrivateKey (privateKey : Blob)

def credentialWrite (d : Data) : Write :=
  residentWrite objectCredential protectionAeadSecret (flagMutable ||| flagNonExportable) d

def privateKeyWrite (d : Data) : Write :=
  residentWrite objectPrivateKey protectionAeadSecret (flagMutable ||| flagNonExportable) d

def metadataWrite (d : Data) : Write :=
  residentWrite objectMetadata protectionAuthenticatedPublic flagMutable d

def stateWrite (d : Data) : Write :=
  residentWrite objectState protectionAuthenticatedPublic flagMutable d

/-- The objects of both kinds of creation. -/
def identityWrites (rpIdHash : RpIdHash) (clientId credential publicKey : Blob) : List Write :=
  [residentWrite objectRpIdHash protectionAuthenticatedPublic 0 rpIdHash.1,
    residentWrite objectClientId protectionAuthenticatedPublic 0 clientId.1,
    credentialWrite credential.1,
    residentWrite objectPublicKey protectionAuthenticatedPublic 0 publicKey.1]

/-- What the call hands to resident_container_update, or the error before it. -/
def Call.writes (slot : Nat) (legacy : Bool) (files : Files) : Call → Except ObjErr (List Write)
  -- resident_container_create
  | .create rpIdHash clientId credential publicKey =>
    .ok (identityWrites rpIdHash clientId credential publicKey ++
      [metadataWrite [0, 0, 0, 0, 0, 0], stateWrite [0, 0, 0, 0, 0, 0]])
  -- resident_container_create_imported
  | .createImported rpIdHash clientId credential publicKey privateKey metadata =>
    if clientId.1 = [] ∨ credential.1 = [] ∨ publicKey.1 = [] ∨ privateKey.1 = [] ∨
        metadata.1 = [] then
      .error .nullParam
    else
      .ok (identityWrites rpIdHash clientId credential publicKey ++
        [metadataWrite metadata.1, privateKeyWrite privateKey.1, stateWrite [0, 1, 0, 0, 0, 0]])
  -- resident_container_update_credential
  | .updateCredential credential => .ok [credentialWrite credential.1]
  -- resident_container_update_metadata
  | .updateMetadata metadata =>
    if metadataValid metadata = false then .error .nullParam
    else
      match readMetadata slot legacy files with
      | .ok now =>
        if now.status ≠ statusActive ∧ metadata.status ≠ now.status then .error .wrongData
        else .ok [stateWrite (metadataEncode metadata)]
      | .error .fileNotFound => .ok [stateWrite (metadataEncode metadata)]
      | .error e => .error e
  -- resident_container_update_metadata_blob
  | .updateMetadataBlob metadata =>
    if metadata.1 = [] then .error .nullParam else .ok [metadataWrite metadata.1]
  -- resident_container_update_private_key
  | .updatePrivateKey privateKey => .ok [privateKeyWrite privateKey.1]

/-- The call as a program. -/
def Call.run (slot : Nat) (legacy : Bool) (c : Call) : Store Unit := do
  let writes ← consult fun _ (files : Files) => c.writes slot legacy files
  let ws ← liftCheck writes
  containerUpdate slot legacy ws

/-- resident_container_delete. -/
def containerDelete (slot : Nat) (legacy : Bool) : Store Unit := do
  let marked ← consult fun _ (files : Files) =>
    decide (files (efCred + slot) = some (.marker .resident slot))
  if marked then Container.containerDelete layout slot legacy else Prog.fail .fileNotFound

end Container.Resident

end KeyWallet
