import KeyWallet.ResidentAtomic
import KeyWallet.ResidentSlots

/-! The store of the resident credentials, credential_store and credential_resident_delete of
credential.c: which of the 256 slots a credential goes to, and which account each slot is of. -/
namespace KeyWallet

open CrashProgram

namespace Cred

namespace Account

open Container (StoreMachine Content)
open Container.Resident (Blob RpIdHash Call efCred canCreate readObject layout)

/-- The files, and what the files EF_CRED of the old format hold. -/
structure Disk where
  machine : StoreMachine
  records : SlotIndex → Data

def silentTagLen : Nat := 16

/-- What the functions use besides the files. The keys do not change while the device runs. -/
structure Maker where
  device : Device
  derive_length : ∀ credId, (device.deriveResident credId).length = residentLen
  silentTag : (record rpIdHash : Data) → { tag : Data // tag.length = silentTagLen }
  -- whether there are object keys of the old kind
  legacy : Bool

/-- The device when the clock shows this. -/
def Maker.deviceAt (k : Maker) (now : Option Nat) : Device := { k.device with clock := now }

/-- The objects of a slot, each as its own read finds it. -/
def objectsAt (legacy : Bool) (files : Container.Files) (i : SlotIndex) : Objects where
  rpIdHash :=
    Container.read layout files i.val legacy rpIdHashLen Container.Resident.objectRpIdHash 0
  clientId := readObject i.val legacy files Container.Resident.objectClientId
  credential := readObject i.val legacy files Container.Resident.objectCredential
  publicKey := readObject i.val legacy files Container.Resident.objectPublicKey
  metadata := readObject i.val legacy files Container.Resident.objectMetadata
  privateKey := readObject i.val legacy files Container.Resident.objectPrivateKey
  state := Container.Resident.readMetadata i.val legacy files

/-- The bytes of a marker: PKF1, the version, the slot and two reserved bytes. -/
def markerBytes (i : SlotIndex) : Data := [0x50, 0x4b, 0x46, 0x31, 1, BitVec.ofNat 8 i.val, 0, 0]

/-- The file EF_CRED of a slot, if it has data. -/
def slotAt (k : Maker) (disk : Disk) (i : SlotIndex) : Option SlotFile :=
  (Container.stored disk.machine.view (efCred + i.val)).map fun c =>
    if c = .marker .resident i.val then
      ⟨true, markerBytes i, objectsAt k.legacy disk.machine.view i⟩
    else ⟨false, disk.records i, objectsAt k.legacy disk.machine.view i⟩

/-- The loop of credential_store over the slots: the slot to use, if any, and whether what goes there
is a container. `free` is the first slot so far that can be taken. -/
def chooseSlot (k : Maker) (disk : Disk) (now : Option Nat) (rpIdHash userId : Data) :
    List SlotIndex → Option SlotIndex → Option SlotIndex × Bool
  | [], free => (free, true)
  | i :: is, free =>
    match slotAt k disk i with
    | none =>
      chooseSlot k disk now rpIdHash userId is
        (if free = none ∧ canCreate i.val k.legacy disk.machine.view then some i else free)
    | some s =>
      if matchesRp s (some rpIdHash) = false then chooseSlot k disk now rpIdHash userId is free
      else
        match loadResident (k.deviceAt now) s rpIdHash with
        | .error _ => chooseSlot k disk now rpIdHash userId is free
        | .ok rcred =>
          -- an id that is absent has length 0
          if rcred.userId.getD [] = userId then (some i, s.marker)
          else chooseSlot k disk now rpIdHash userId is free

/-- A call of credential_store, at the time that the clock shows. -/
structure Request where
  credId : Blob
  rpIdHash : RpIdHash
  publicKey : Blob
  now : Option Nat

/-- The id of the credential with its version byte and its tag. -/
def clientRecord (k : Maker) (credId rpIdHash : Data) : Blob :=
  ⟨k.device.deriveResident credId ++ [1] ++
      (k.silentTag (k.device.deriveResident credId ++ [1]) rpIdHash).1, by
    simp only [List.length_append, List.length_singleton, k.derive_length,
      (k.silentTag _ _).2]
    decide⟩

def createCall (k : Maker) (req : Request) : Call :=
  .create req.rpIdHash (clientRecord k req.credId.1 req.rpIdHash.1) req.credId req.publicKey

/-- The container of a slot and the commit at the end. -/
def storeContainer (k : Maker) (i : SlotIndex) (req : Request) : Container.Store Unit := do
  (createCall k req).run i.val k.legacy
  commitLater

/-- A record of the old format takes the place of another. -/
def storeRecord (disk : Disk) (i : SlotIndex) (data : Data) (rs : List Reply) : Bool × Disk :=
  let written : Disk :=
    ⟨disk.machine.write (efCred + i.val) (some (.other data.length)),
      Function.update disk.records i data⟩
  match rs with
  | [] => (true, written)
  | .ok :: _ => (true, written)
  | .refused true :: _ => (false, written)
  | .refused false :: _ => (false, disk)
  | .powerLoss :: _ => (false, disk)

/-- credential_store; the result says whether it returns 0. -/
def credentialStore (k : Maker) (disk : Disk) (req : Request) (rs : List Reply) : Bool × Disk :=
  if req.publicKey.1 = [] then (false, disk)
  else
    match k.device.load req.credId.1 req.rpIdHash.1 with
    | none => (false, disk)
    | some cred =>
      match chooseSlot k disk req.now req.rpIdHash.1 (cred.userId.getD []) (List.finRange 256) none with
      | (none, _) => (false, disk)
      | (some i, true) =>
        let r := exec (storeContainer k i req) disk.machine rs
        (r.1 = .done (), { disk with machine := r.2.1 })
      | (some i, false) =>
        storeRecord disk i
          (req.rpIdHash.1 ++ k.device.deriveResident req.credId.1 ++ req.credId.1) rs

/-- credential_resident_delete, undisturbed. -/
def residentDelete (k : Maker) (disk : Disk) (i : SlotIndex) : Bool × Disk :=
  match slotAt k disk i with
  | none => (false, disk)
  | some s =>
    if s.marker then
      let r := exec (Container.Resident.containerDelete i.val k.legacy) disk.machine []
      (r.1 = .done (), { disk with machine := r.2.1 })
    else (true, { disk with machine := disk.machine.write (efCred + i.val) none })

/-- What the storage replies to a call during which the power stays on. -/
abbrev Powered := { rs : List Reply // .powerLoss ∉ rs }

inductive Op
  | store (req : Request) (rs : Powered)
  | delete (i : SlotIndex)

def Op.run (k : Maker) (disk : Disk) : Op → Disk
  | .store req rs => (credentialStore k disk req rs.1).2
  | .delete i => (residentDelete k disk i).2

def run (k : Maker) (disk : Disk) (ops : List Op) : Disk := ops.foldl (Op.run k) disk

/-- The slot holds a credential for the account, at the time that the clock shows. -/
def accountAt (k : Maker) (disk : Disk) (now : Option Nat) (rpIdHash userId : Data)
    (i : SlotIndex) : Option Credential :=
  (slotAt k disk i).bind fun s =>
    if matchesRp s (some rpIdHash) then
      (loadResident (k.deviceAt now) s rpIdHash).toOption.filter fun cred =>
        cred.userId.getD [] = userId
    else none

/-- The credential that a search over the slots finds for the account. -/
def findAccount (k : Maker) (disk : Disk) (now : Option Nat) (rpIdHash userId : Data) :
    Option Credential :=
  (List.finRange 256).findSome? (accountAt k disk now rpIdHash userId)

def Empty (files : Container.Files) : Prop :=
  ∀ i : SlotIndex, files (efCred + i.val) = none ∧ Container.Resident.Vacant i.val files

end Account

end Cred

end KeyWallet
