import KeyWallet.ResidentSlots
import KeyWallet.StepSystem

/-! authenticatorCredentialManagement, cbor_cred_mgmt.c, from the request as it was parsed. What the
storage answers to a write, the MAC and the keys of the credentials are parameters of a call. -/
namespace KeyWallet

namespace Cred

namespace Mgmt

def permissionCm : BitVec 8 := 0x04

def permissionPcmr : BitVec 8 := 0x40

def walkIdleMs : Nat := 30000

structure AuthToken where
  data : Data
  permissions : BitVec 8
  hasRpId : Bool
  rpIdHash : Data
  deriving DecidableEq, Repr

structure PersistentToken where
  data : Data
  permissions : BitVec 8
  deriving DecidableEq, Repr

inductive Status where
  | invalidParameter
  | missingParameter
  | puatRequired
  | pinAuthInvalid
  | notAllowed
  | noCredentials
  | processing
  -- the errors of the CBOR encoder
  | encoding
  deriving DecidableEq, Repr

/-- A request. `preview` is the command byte 0x41, `rawSubpara` the bytes of the parameters. -/
structure Request where
  channel : BitVec 32
  preview : Bool := false
  subcommand : Nat
  rpIdHash : Option Data := none
  credentialId : Option Data := none
  userId : Option Data := none
  userName : Option Data := none
  userDisplayName : Option Data := none
  rawSubpara : Data := []
  pinUvAuthProtocol : Option Nat := none
  pinUvAuthParam : Option Data := none
  deriving DecidableEq, Repr

structure Entry where
  userId : Option Data
  userName : Option Data
  userDisplayName : Option Data
  credentialId : Data
  publicKey : Data
  totalCredentials : Option Nat
  credProtect : Nat
  largeBlobKey : Option Data
  thirdPartyPayment : Bool
  deriving DecidableEq, Repr

/-- `fault` is a call that follows a pointer to nothing. -/
inductive Reply where
  | metadata (existing remaining : Nat)
  | rp (id idHash : Data) (total : Option Nat)
  | credential (entry : Entry)
  | done
  | error (status : Status)
  | fault
  deriving DecidableEq, Repr

/-- What the storage does with a file: what it was asked, or something else. -/
inductive StoreReply (α : Type) where
  | done
  | refused (left : α)

/-- What a call reads besides the request: the tokens, the files, the clock, the channel that is in
the receive buffer by now, and what the memory of a freed RP ID hash holds. -/
structure Setting where
  device : Device
  storage : Storage
  paut : AuthToken
  ppaut : PersistentToken
  now : BitVec 32 := 0
  cid : BitVec 32
  heap : Data := []
  verify : (protocol : Nat) → (key message param : Data) → Bool
  loadKey : (curve : Int) → (seed : Data) → Option Data := fun _ _ => none
  coseKey : (key : Data) → (alg : Int) → Option Data := fun _ _ => none
  coseCachedKey : Data → Option Data := some
  largeBlobKey : (seed : Data) → Option Data := fun _ => none
  create : Credential → (name displayName : Option Data) → Option Data := fun _ _ _ => none
  deletion : StoreReply (Option SlotFile) := .done
  rpUpdate : StoreReply (Option Data) := .done
  update : StoreReply (Option SlotFile) := .done

/-- rpIdHashx: never set, or the hash, or a pointer to memory that was freed. -/
inductive Buffer where
  | never
  | live (hash : Data)
  | freed
  deriving DecidableEq, Repr

/-- The variables of the module, with the index of the relying parties. -/
structure Walk where
  rpCounter : Nat := 1
  rpTotal : Nat := 0
  credCounter : Nat := 1
  credTotal : Nat := 0
  rpChannel : BitVec 32 := 0
  credChannel : BitVec 32 := 0
  rpTimer : BitVec 32 := 0
  credTimer : BitVec 32 := 0
  rpWalkActive : Bool := false
  credWalkActive : Bool := false
  rpIdHashx : Buffer := .never
  index : List IndexEntry := []
  deriving DecidableEq, Repr

/-- The walk has been left alone for too long. -/
def idle (now timer : BitVec 32) : Bool := walkIdleMs ≤ (now - timer).toNat

/-- cbor_cred_mgmt_tick. -/
def tick (now : BitVec 32) (w : Walk) : Walk :=
  let w := if w.rpWalkActive && idle now w.rpTimer then
      { w with rpCounter := w.rpTotal, rpChannel := 0, rpWalkActive := false }
    else w
  if w.credWalkActive && idle now w.credTimer then
    { w with credCounter := w.credTotal + 1, credChannel := 0, credWalkActive := false }
  else w

/-- The checks that all subcommands share. -/
def precheck (req : Request) : Option Status :=
  if req.rpIdHash.any (fun h => h.length ≠ rpIdHashLen) ||
      req.credentialId.any (fun id => id.length ≠ residentLen) then
    some .invalidParameter
  else if req.pinUvAuthProtocol.any fun p => p ≠ 1 ∧ p ≠ 2 then some .invalidParameter
  else if req.subcommand ≠ 0x03 ∧ req.subcommand ≠ 0x05 then
    if req.pinUvAuthParam = none then some .puatRequired
    else if req.pinUvAuthProtocol = none then some .missingParameter
    else none
  else none

/-- What the MAC of a request is over. -/
def message (req : Request) : Data :=
  if req.subcommand = 0x01 ∨ req.subcommand = 0x02 then [BitVec.ofNat 8 req.subcommand]
  else
    (BitVec.ofNat 8 req.subcommand :: req.rawSubpara).take ((req.rawSubpara.length + 1) % 65536)

section Calls

variable (e : Setting) (req : Request)

/-- The MAC of the request verifies under this key. -/
def macVerifies (key : Data) : Bool :=
  e.verify (req.pinUvAuthProtocol.getD 0) key (message req) (req.pinUvAuthParam.getD [])

def hasCm : Bool := e.paut.permissions &&& permissionCm ≠ 0

/-- The checks of the subcommands that read. `bound` says that the token is bound to another RP than
the one that is asked for. -/
def mayRead (bound : Bool) : Bool :=
  if macVerifies e req e.ppaut.data then e.ppaut.permissions &&& permissionPcmr ≠ 0
  else macVerifies e req e.paut.data && (req.preview || (hasCm e && !bound))

/-- The token is bound to an RP, and not to the one of this hash. -/
def boundElsewhere (rpIdHash : Data) : Bool := e.paut.hasRpId && e.paut.rpIdHash ≠ rpIdHash

/-- The checks of the subcommands that write; an absent RP ID hash is compared all the same. -/
def refuseWrite : Option Reply :=
  if macVerifies e req e.paut.data = false then some (.error .pinAuthInvalid)
  else if req.preview then none
  else if hasCm e = false then some (.error .pinAuthInvalid)
  else if e.paut.hasRpId then
    match req.rpIdHash with
    | none => some .fault
    | some hash => if e.paut.rpIdHash ≠ hash then some (.error .pinAuthInvalid) else none
  else none

/-! getCredsMetadata. -/

def occupied (st : Storage) : Nat := (List.finRange 256).countP fun i => (st.slots i).isSome

/-- The count is kept in eight bits. -/
def existing (st : Storage) : Nat := occupied st % 256

def getCredsMetadata : Reply :=
  if mayRead e req e.paut.hasRpId then .metadata (existing e.storage) (256 - existing e.storage)
  else .error .pinAuthInvalid

/-! enumerateRPs. -/

/-- What enumerateRPsBegin and enumerateRPsGetNextRP share. -/
def answerRp (w : Walk) (first : Bool) : Reply × Walk :=
  match rpLoad e.device e.storage w.index w.rpCounter with
  | .error err => (.error (if err = .store .fileNotFound then .noCredentials else .processing), w)
  | .ok (id, idHash) =>
    let counter := w.rpCounter + 1
    (.rp id idHash (if first then some w.rpTotal else none),
      if counter < w.rpTotal then
        { w with rpCounter := counter, rpTimer := e.now, rpWalkActive := true }
      else { w with rpCounter := counter, rpWalkActive := false })

def enumerateRPsBegin (w : Walk) : Reply × Walk :=
  if mayRead e req e.paut.hasRpId = false then (.error .pinAuthInvalid, w)
  else
    let (index, room) := rpCount e.storage
    let w := { w with rpCounter := 0, rpChannel := e.cid, index := index }
    if room = false then (.error .processing, w)
    else answerRp e { w with rpTotal := index.length } true

def enumerateRPsGetNextRP (w : Walk) : Reply × Walk :=
  if w.rpChannel ≠ e.cid ∨ w.rpTotal ≤ w.rpCounter then (.error .notAllowed, w)
  else answerRp e w false

/-! enumerateCredentials. -/

/-- What the loop over the slots leaves: the credentials counted, the file at the position that was
asked for, and whether it was broken off. -/
structure Found where
  total : Nat
  file : Option SlotFile
  broken : Bool

/-- The loop over the slots. -/
def seek (d : Device) (st : Storage) (rpIdHash : Option Data) (counter : Nat) (first : Bool) :
    List SlotIndex → (skip total : Nat) → Option SlotFile → Found
  | [], _, total, file => ⟨total, file, false⟩
  | i :: is, skip, total, file =>
    match st.slots i with
    | none => seek d st rpIdHash counter first is skip total file
    | some s =>
      if matchesRp s rpIdHash = false then seek d st rpIdHash counter first is skip total file
      else
        match loadResident d s (rpIdHash.getD []) with
        | .error .noCredentials => seek d st rpIdHash counter first is skip total file
        | .error _ => ⟨total, file, true⟩
        | .ok _ =>
          if skip + 1 = counter ∧ first = false then ⟨total, file.or (some s), false⟩
          else
            seek d st rpIdHash counter first is (skip + 1) (if first then total + 1 else total)
              (if skip + 1 = counter then file.or (some s) else file)

def usesStableKeys (residentId : Data) : Bool :=
  residentId.length = residentLen && (residentId.drop 4).take 4 = [0xf1, 0xd0, 0x02, 0x06]

/-- The seed of the keys of a credential. -/
def keySeed (cred : Credential) : Data :=
  match cred.residentId with
  | some residentId => if usesStableKeys residentId then residentId else cred.id
  | none => cred.id

/-- The public key of a credential before it is encoded, and whether it was kept with it. -/
def publicKeyOf (s : SlotFile) (cred : Credential) : Option (Data × Bool) :=
  match residentPublicKey s with
  | .ok key => some (key, true)
  | .error _ => if s.marker then none else (e.loadKey cred.curve (keySeed cred)).map (·, false)

def encodeKey (cred : Credential) (key : Data × Bool) : Option Data :=
  if key.2 then e.coseCachedKey key.1 else e.coseKey key.1 cred.alg

/-- The largeBlobKey of a response: none where the credential has none, an error where it cannot be
derived. -/
def largeBlobKeyOf (cred : Credential) : Except Status (Option Data) :=
  if cred.largeBlobKey then
    match e.largeBlobKey (keySeed cred) with
    | none => .error .processing
    | some key => .ok (some key)
  else .ok none

def entryOf (cred : Credential) (publicKey : Data) (largeBlobKey : Option Data)
    (total : Option Nat) : Entry where
  userId := cred.userId
  userName := cred.userName
  userDisplayName := cred.userDisplayName
  credentialId := cred.residentId.getD (e.device.deriveResident cred.id)
  publicKey := publicKey
  totalCredentials := total
  credProtect := if 0 < cred.credProtect then cred.credProtect else 1
  largeBlobKey := largeBlobKey
  thirdPartyPayment := cred.thirdPartyPayment

/-- From the file at the position to the response. The flag says that the RP ID hash is kept for the
next request. -/
def answerCredential (rpIdHash : Data) (s : SlotFile) (w : Walk) (first : Bool) :
    Reply × Walk × Bool :=
  match loadResident e.device s rpIdHash with
  | .error _ => (.error .notAllowed, w, false)
  | .ok cred =>
    match publicKeyOf e s cred with
    | none => (.error .notAllowed, w, false)
    | some key =>
      let w := { w with credCounter := w.credCounter + 1 }
      match encodeKey e cred key with
      | none => (.error .encoding, w, false)
      | some publicKey =>
        let kept := w.credCounter ≤ w.credTotal
        let w := if kept then { w with credTimer := e.now, credWalkActive := true }
          else { w with credWalkActive := false }
        match largeBlobKeyOf e cred with
        | .error status => (.error status, w, kept)
        | .ok largeBlobKey =>
          (.credential (entryOf e cred publicKey largeBlobKey
            (if first then some w.credTotal else none)), w, kept)

/-- What enumerateCredentialsBegin and enumerateCredentialsGetNextCredential share. -/
def answerPosition (rpIdHash : Option Data) (w : Walk) (first : Bool) : Reply × Walk × Bool :=
  let found := seek e.device e.storage rpIdHash w.credCounter first (List.finRange 256) 0 w.credTotal none
  let w := { w with credTotal := found.total }
  if found.broken then (.error .notAllowed, w, false)
  else
    match found.file with
    | none => (.error .noCredentials, w, false)
    | some s => answerCredential e (rpIdHash.getD []) s w first

def enumerateCredentialsBegin (w : Walk) : Reply × Walk :=
  match req.rpIdHash with
  | none => (.error .missingParameter, w)
  | some hash =>
    if mayRead e req (boundElsewhere e hash) = false then (.error .pinAuthInvalid, w)
    else
      let (reply, w, kept) :=
        answerPosition e (some hash) { w with credCounter := 1, credTotal := 0, credChannel := e.cid } true
      (reply, if kept then { w with rpIdHashx := .live hash } else w)

/-- The hash that the pointer rpIdHashx gives. -/
def Buffer.read (heap : Data) : Buffer → Option Data
  | .never => none
  | .live hash => some hash
  | .freed => some heap

def enumerateCredentialsGetNextCredential (w : Walk) : Reply × Walk :=
  if w.credChannel ≠ e.cid ∨ w.credTotal < w.credCounter then (.error .notAllowed, w)
  else
    let (reply, w, kept) := answerPosition e (w.rpIdHashx.read e.heap) w false
    -- rpIdHashx is the hash that is freed here
    (reply, if kept ∨ w.rpIdHashx = .never then w else { w with rpIdHashx := .freed })

/-! deleteCredential and updateUserInformation. -/

/-- The first slot that holds a credential of this id. -/
def findById (d : Device) (st : Storage) (id : Data) : Option (SlotIndex × SlotFile) :=
  (List.finRange 256).findSome? fun i => (st.slots i).bind fun s =>
    if matchesId d s id then some (i, s) else none

def setSlot (st : Storage) (i : SlotIndex) (s : Option SlotFile) : Storage :=
  { st with slots := Function.update st.slots i s }

/-- The first record of the old format for this RP. -/
def findRp (st : Storage) (rpIdHash : Data) : Option (SlotIndex × Data) :=
  (List.finRange 256).findSome? fun i => (st.rps i).bind fun record =>
    if rpLegacyValid record && rpLegacyHash record = rpIdHash then some (i, record) else none

/-- The record with one credential less, if there are any left. -/
def rpDecremented (record : Data) : Option Data :=
  if record.getD 0 0 = 1 then none else some ((record.getD 0 0 - 1) :: record.drop 1)

/-- credential_rp_legacy_decrement; a missing record is no failure to its caller. -/
def rpLegacyDecrement (st : Storage) (rpIdHash : Data) : Bool × Storage :=
  match findRp st rpIdHash with
  | none => (true, st)
  | some (i, record) =>
    match e.rpUpdate with
    | .done => (true, { st with rps := Function.update st.rps i (rpDecremented record) })
    | .refused left => (false, { st with rps := Function.update st.rps i left })

/-- The deletion of a credential that was found, and of the count of its RP. -/
def deleteFound (i : SlotIndex) (s : SlotFile) (rpIdHash : Data) : Reply × Storage :=
  match e.deletion with
  | .refused left => (.error .notAllowed, setSlot e.storage i left)
  | .done =>
    let st := setSlot e.storage i none
    if s.marker then (.done, st)
    else
      let (ok, st) := rpLegacyDecrement e st rpIdHash
      (if ok then .done else .error .notAllowed, st)

def deleteCredential : Reply × Storage :=
  match req.credentialId with
  | none => (.error .missingParameter, e.storage)
  | some id =>
    match refuseWrite e req with
    | some reply => (reply, e.storage)
    | none =>
      match findById e.device e.storage id with
      | none => (.error (if e.paut.hasRpId && !req.preview then .pinAuthInvalid else .noCredentials),
          e.storage)
      | some (i, s) =>
        match residentRpIdHash s with
        | .error _ => (.error .notAllowed, e.storage)
        | .ok hash =>
          if req.preview = false ∧ boundElsewhere e hash then (.error .pinAuthInvalid, e.storage)
          else deleteFound e i s hash

/-- credential_resident_update: the file with the new credential, or none where it is refused. -/
def residentUpdated (d : Device) (s : SlotFile) (credential : Data) : Option SlotFile :=
  if s.marker then some { s with objects := { s.objects with credential := .ok credential } }
  else
    match residentRpIdHash s with
    | .error _ => none
    | .ok hash =>
      if rpIdHashLen + residentLen ≤ s.data.length ∧ isResident (s.data.drop rpIdHashLen) then
        some { s with data := hash ++ (s.data.drop rpIdHashLen).take residentLen ++ credential }
      else if s.data.length ≤ rpIdHashLen then none
      else some { s with data := hash ++ d.deriveResident (s.data.drop rpIdHashLen) ++ credential }

/-- The update of a credential that was found and loaded. -/
def updateFound (i : SlotIndex) (s : SlotFile) (cred : Credential) : Reply × Storage :=
  match e.create cred req.userName req.userDisplayName with
  | none => (.error .notAllowed, e.storage)
  | some credential =>
    match residentUpdated e.device s credential, e.update with
    | none, _ => (.error .notAllowed, e.storage)
    | some s', .done => (.done, setSlot e.storage i (some s'))
    | some _, .refused left => (.error .notAllowed, setSlot e.storage i left)

def updateUserInformation : Reply × Storage :=
  match req.credentialId, req.userId with
  | none, _ => (.error .missingParameter, e.storage)
  | _, none => (.error .missingParameter, e.storage)
  | some id, some userId =>
    match refuseWrite e req with
    | some reply => (reply, e.storage)
    | none =>
      match findById e.device e.storage id with
      | none => (.error (if e.paut.hasRpId && !req.preview then .pinAuthInvalid else .noCredentials),
          e.storage)
      | some (i, s) =>
        match residentRpIdHash s with
        | .error _ => (.error .notAllowed, e.storage)
        | .ok hash =>
          match loadResident e.device s hash with
          | .error _ => (.error .notAllowed, e.storage)
          | .ok cred =>
            if req.preview = false ∧ boundElsewhere e hash then (.error .pinAuthInvalid, e.storage)
            else if userId ≠ cred.userId.getD [] then (.error .invalidParameter, e.storage)
            else updateFound e req i s cred

/-- cbor_cred_mgmt: the response, the variables and the files after it. -/
def credMgmt (w : Walk) : Reply × Walk × Storage :=
  match precheck req with
  | some status => (.error status, w, e.storage)
  | none =>
    match req.subcommand with
    | 0x01 => (getCredsMetadata e req, w, e.storage)
    | 0x02 =>
      let (reply, w) := enumerateRPsBegin e req w
      (reply, w, e.storage)
    | 0x03 =>
      let (reply, w) := enumerateRPsGetNextRP e w
      (reply, w, e.storage)
    | 0x04 =>
      let (reply, w) := enumerateCredentialsBegin e req w
      (reply, w, e.storage)
    | 0x05 =>
      let (reply, w) := enumerateCredentialsGetNextCredential e w
      (reply, w, e.storage)
    | 0x06 =>
      let (reply, st) := deleteCredential e req
      (reply, w, st)
    | 0x07 =>
      let (reply, st) := updateUserInformation e req
      (reply, w, st)
    | _ => (.error .invalidParameter, w, e.storage)

end Calls

end Mgmt

end Cred

end KeyWallet
