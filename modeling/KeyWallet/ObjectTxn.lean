import KeyWallet.WriteCache
import KeyWallet.ObjectContainer

/-! The transactional objects of object_store_txn.c: two record slots and two commit slots, of which
the valid commit with the higher generation counts. The authenticator is a parameter. -/
namespace KeyWallet

open CrashProgram

namespace Txn

def recordHeaderSize : Nat := 32
def authTagSize : Nat := 16
def flagDeleted : Nat := 0x01
def uint8Max : Nat := 0xff
def uint32Max : Nat := 0xffffffff

abbrev Data := Container.Data

/-- file_object_txn_layout_t that passes file_object_txn_layout_valid. -/
structure Layout where
  namespaceId : Nat
  objectType : Nat
  objectId : Nat
  recordFid : Nat → Nat
  commitFid : Nat → Nat
  distinct : [recordFid 0, recordFid 1, commitFid 0, commitFid 1].Nodup
  proper : ∀ k ∈ [recordFid 0, recordFid 1, commitFid 0, commitFid 1], k ≠ 0 ∧ k ≠ 0xffff

/-- The header of a record; magic, version and reserved bytes are always the same. -/
structure RecordHeader where
  slot : Nat
  namespaceId : Nat
  objectType : Nat
  objectId : Nat
  generation : Nat
  recordId : Nat
  payloadSize : Nat
  recordFid : Nat
  deriving DecidableEq, Repr

structure CommitHeader (Tag : Type) where
  slot : Nat
  namespaceId : Nat
  objectType : Nat
  objectId : Nat
  generation : Nat
  recordId : Nat
  recordFid : Nat
  recordSlot : Nat
  flags : Nat
  payloadSize : Nat
  recordTag : Tag
  deriving DecidableEq, Repr

/-- What is authenticated. -/
inductive Message (Tag : Type)
  | record (header : RecordHeader) (payload : Data)
  | commit (header : CommitHeader Tag)

/-- The authenticator, and the tag of zero bytes. -/
structure Authenticator (Tag : Type) where
  sign : Message Tag → Tag
  emptyTag : Tag

inductive Content (Tag : Type)
  | record (header : RecordHeader) (payload : Data) (tag : Tag)
  | commit (header : CommitHeader Tag) (tag : Tag)
  | other (size : Nat)
  deriving DecidableEq, Repr

/-- `none` is a file that does not exist. -/
abbrev Files (Tag : Type) := Nat → Option (Content Tag)

structure State where
  generation : Nat
  recordId : Nat
  payloadSize : Nat
  commitSlot : Nat
  recordSlot : Nat
  deleted : Bool
  deriving DecidableEq, Repr

open Container (ObjErr)

section Recovery

variable {Tag : Type} [DecidableEq Tag] (auth : Authenticator Tag) (L : Layout) (files : Files Tag)

/-- The header that file_object_txn_write_record builds. -/
def recordHeader (slot generation recordId size : Nat) : RecordHeader where
  slot := slot
  namespaceId := L.namespaceId
  objectType := L.objectType
  objectId := L.objectId
  generation := generation
  recordId := recordId
  payloadSize := size
  recordFid := L.recordFid slot

def validateRecord (slot generation recordId payloadSize : Nat) (commitRecordTag : Tag) :
    Except ObjErr Unit :=
  if 1 < slot then .error .wrongData
  else
    match files (L.recordFid slot) with
    | none => .error .fileNotFound
    | some (.other 0) => .error .fileNotFound
    | some (.record header payload tag) =>
      if uint32Max - recordHeaderSize - authTagSize < payloadSize ∨ payload.length ≠ payloadSize then
        .error .wrongData
      else if header ≠ recordHeader L slot generation recordId payloadSize then .error .wrongData
      else if auth.sign (.record header payload) ≠ tag ∨
          auth.sign (.record header payload) ≠ commitRecordTag then
        .error .wrongSignature
      else .ok ()
    | some _ => .error .wrongData

/-- What a commit of the layout in this slot must say of itself. -/
def commitFits (slot : Nat) (h : CommitHeader Tag) : Bool :=
  h.slot = slot && h.namespaceId = L.namespaceId && h.objectType = L.objectType &&
    h.objectId = L.objectId && h.generation ≠ 0 && (h.flags = 0 || h.flags = flagDeleted)

def parseCommit (slot : Nat) : Except ObjErr State :=
  match files (L.commitFid slot) with
  | none => .error .fileNotFound
  | some (.other 0) => .error .fileNotFound
  | some (.commit h tag) =>
    if commitFits L slot h = false then .error .wrongData
    else if auth.sign (.commit h) ≠ tag then .error .wrongSignature
    else if h.flags = flagDeleted then
      if h.recordId ≠ 0 ∨ h.payloadSize ≠ 0 ∨ h.recordFid ≠ 0 ∨ h.recordSlot ≠ uint8Max ∨
          h.recordTag ≠ auth.emptyTag then
        .error .wrongData
      else .ok ⟨h.generation, h.recordId, h.payloadSize, slot, h.recordSlot, true⟩
    else if 1 < h.recordSlot ∨ h.recordFid ≠ L.recordFid h.recordSlot ∨ h.recordId = 0 then
      .error .wrongData
    else
      match validateRecord auth L files h.recordSlot h.generation h.recordId h.payloadSize
          h.recordTag with
      | .error e => .error e
      | .ok () => .ok ⟨h.generation, h.recordId, h.payloadSize, slot, h.recordSlot, false⟩
  | some _ => .error .wrongData

def invalidRecord (e : ObjErr) : Bool :=
  e = .fileNotFound || e = .wrongData || e = .wrongSignature

/-- One round of the loop in file_object_txn_recover. -/
def recoverSlot (selected : Option State) (slot : Nat) : Except ObjErr (Option State) :=
  match parseCommit auth L files slot with
  | .error e => if invalidRecord e then .ok selected else .error e
  | .ok candidate =>
    match selected with
    | none => .ok (some candidate)
    | some st =>
      if candidate.generation = st.generation then .error .wrongData
      else if st.generation < candidate.generation then .ok (some candidate)
      else .ok (some st)

def recover : Except ObjErr State :=
  match recoverSlot auth L files none 0 with
  | .error e => .error e
  | .ok selected =>
    match recoverSlot auth L files selected 1 with
    | .error e => .error e
    | .ok none => .error .fileNotFound
    | .ok (some st) => .ok st

/-- file_object_txn_next_state: the slot to write and the generation. -/
def nextState : Except ObjErr (Nat × Nat) :=
  match recover auth L files with
  | .error .fileNotFound => .ok (0, 1)
  | .error e => .error e
  | .ok current =>
    if current.generation = uint32Max then .error .wrongData
    else .ok (1 - current.commitSlot, current.generation + 1)

/-- The payload in the record file of a slot. -/
def payloadAt (slot : Nat) : Data :=
  match files (L.recordFid slot) with
  | some (.record _ payload _) => payload
  | _ => []

/-- What is recovered: the payload, `none` when the object is deleted. -/
def contents : Except ObjErr (Option Data) :=
  match recover auth L files with
  | .error e => .error e
  | .ok st => .ok (if st.deleted then none else some (payloadAt L files st.recordSlot))

end Recovery

section Operations

variable {Tag : Type} [DecidableEq Tag] (auth : Authenticator Tag) (L : Layout)

/-- Operations on the files of the object. -/
abbrev Op (Tag : Type) := Prog Nat (Option (Content Tag)) Unit Empty ObjErr

def removeFile (fid : Nat) : Op Tag Unit := do
  let present ← consult fun _ (files : Files Tag) => (files fid).isSome
  if present then do
    let deleted ← putFile fid none
    if deleted then pure () else Prog.fail .execError
  else pure ()

/-- file_object_txn_replace_file. -/
def replaceFile (fid : Nat) (c : Content Tag) : Op Tag Unit := do
  removeFile fid
  let put ← putFile fid (some c)
  if put then pure () else Prog.fail .noMemory

def syncOrFail : Op Tag Unit := do
  let committed ← commitSync
  if committed then pure () else Prog.fail .memoryFatal

/-- file_object_txn_write_record; the tag of the record. -/
def writeRecord (slot generation recordId : Nat) (data : Data) : Op Tag Tag :=
  if uint32Max - recordHeaderSize - authTagSize < data.length then Prog.fail .noMemory
  else do
    let header := recordHeader L slot generation recordId data.length
    let tag := auth.sign (.record header data)
    replaceFile (L.recordFid slot) (.record header data tag)
    pure tag

/-- The header that file_object_txn_write_commit builds. -/
def commitHeader (commitSlot recordSlot generation recordId payloadSize : Nat) (recordTag : Tag)
    (deleted : Bool) : CommitHeader Tag where
  slot := commitSlot
  namespaceId := L.namespaceId
  objectType := L.objectType
  objectId := L.objectId
  generation := generation
  recordId := if deleted then 0 else recordId
  recordFid := if deleted then 0 else L.recordFid recordSlot
  recordSlot := if deleted then uint8Max else recordSlot
  flags := if deleted then flagDeleted else 0
  payloadSize := if deleted then 0 else payloadSize
  recordTag := if deleted then auth.emptyTag else recordTag

def writeCommit (h : CommitHeader Tag) : Op Tag Unit :=
  replaceFile (L.commitFid h.slot) (.commit h (auth.sign (.commit h)))

/-- file_object_txn_put up to its first flash_commit_sync; the commit that is to follow. -/
def stagePut (data : Data) : Op Tag (CommitHeader Tag) :=
  if uint32Max < data.length then Prog.fail .wrongLength
  else do
    let next ← consult fun _ (files : Files Tag) => nextState auth L files
    let (targetSlot, generation) ← liftCheck next
    removeFile (L.commitFid targetSlot)
    removeFile (L.recordFid targetSlot)
    let tag ← writeRecord auth L targetSlot generation generation data
    syncOrFail
    pure (commitHeader auth L targetSlot targetSlot generation generation data.length tag false)

/-- file_object_txn_delete up to its first flash_commit_sync. -/
def stageDelete : Op Tag (CommitHeader Tag) := do
  let recovered ← consult fun _ (files : Files Tag) => recover auth L files
  let current ← liftCheck recovered
  if current.deleted then Prog.fail .fileNotFound
  else if current.generation = uint32Max then Prog.fail .wrongData
  else do
    let targetSlot := 1 - current.commitSlot
    removeFile (L.commitFid targetSlot)
    removeFile (L.recordFid targetSlot)
    syncOrFail
    pure (commitHeader auth L targetSlot uint8Max (current.generation + 1) 0 0 auth.emptyTag true)

/-- The second half of both: the commit is written and made durable. -/
def install (h : CommitHeader Tag) : Op Tag Unit := do
  writeCommit auth L h
  syncOrFail

def put (data : Data) : Op Tag Unit := do
  let h ← stagePut auth L data
  install auth L h

def delete : Op Tag Unit := do
  let h ← stageDelete auth L
  install auth L h

end Operations

end Txn

end KeyWallet
