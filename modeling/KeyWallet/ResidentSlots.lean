import KeyWallet.ResidentContainer

/-! The resident credentials as credential.c reads them: the files EF_CRED, each a container or a
record of the old format, and the files EF_RP of the old format. The ciphers and the CBOR of a
credential are parameters. -/
namespace KeyWallet

namespace Cred

open Container (ObjErr)
open Container.Resident (Metadata statusActive statusRevoked)

abbrev Data := Container.Data

def rpIdHashLen : Nat := 32

def residentLen : Nat := 42

/-- MAX_RESIDENT_CREDENTIALS. -/
abbrev SlotIndex := Fin 256

def statusExpired : BitVec 8 := 1

def propertyImported : BitVec 8 := 1

/-- What reads of the objects of a container give. -/
structure Objects where
  rpIdHash : Except ObjErr Data
  clientId : Except ObjErr Data
  credential : Except ObjErr Data
  publicKey : Except ObjErr Data
  metadata : Except ObjErr Data
  privateKey : Except ObjErr Data
  state : Except ObjErr Metadata

/-- A file EF_CRED with data. `marker` says that it is resident_container_is_marker. -/
structure SlotFile where
  marker : Bool
  data : Data
  objects : Objects

/-- Credential, as far as it is used here. -/
structure Credential where
  rpId : Option Data := none
  userId : Option Data := none
  userName : Option Data := none
  userDisplayName : Option Data := none
  credProtect : Nat := 0
  largeBlobKey : Bool := false
  thirdPartyPayment : Bool := false
  alg : Int := 0
  curve : Int := 0
  id : Data := []
  residentId : Option Data := none
  imported : Bool := false
  boardCreation : Nat := 0
  credBlob : Option Data := none
  hmacSecret : Option Bool := none
  rk : Option Bool := none
  privateKey : Option Data := none
  -- the flags `present` of the extensions and of the options, and use_sign_count
  extensionsPresent : Bool := false
  optsPresent : Bool := false
  useSignCount : Option Bool := none
  deriving DecidableEq, Repr

/-- The errors that a caller tells apart, and the others. -/
inductive LoadErr where
  | noCredentials
  | invalidCredential
  | store (e : ObjErr)
  deriving DecidableEq, Repr

/-- What the functions read besides the files: credential_load, credential_parse_metadata and
credential_derive_resident, the cipher of the RP records, and the clock once it is set. -/
structure Device where
  load : (credId rpIdHash : Data) → Option Credential
  parseMetadata : Data → Option Credential
  deriveResident : Data → Data
  openRp : (rpIdHash tail : Data) → Option Data
  clock : Option Nat := none

structure Storage where
  slots : SlotIndex → Option SlotFile
  rps : SlotIndex → Option Data

def isResident (credId : Data) : Bool :=
  (credId.drop 4).take 4 = [0xf1, 0xd0, 0x02, 0x03] || (credId.drop 4).take 4 = [0xf1, 0xd0, 0x02, 0x06]

section Slots

variable (d : Device) (s : SlotFile)

def readMetadata : Except ObjErr Metadata :=
  if s.marker then
    match s.objects.state with
    | .error e => .error e
    | .ok m =>
      if m.status = statusActive ∧ m.expiration ≠ 0 ∧
          d.clock.any (fun now => m.expiration.toNat ≤ now) then
        .ok { m with status := statusExpired }
      else .ok m
  else .ok ⟨statusActive, 0, 0⟩

def residentUsable : Bool :=
  match readMetadata d s with
  | .error _ => false
  | .ok m =>
    if m.status = statusExpired ∨ m.status = statusRevoked then false
    else m.expiration = 0 || d.clock.all fun now => now < m.expiration.toNat

def residentRpIdHash : Except ObjErr Data :=
  if s.marker then
    match s.objects.rpIdHash with
    | .error e => .error e
    | .ok hash => if hash.length = rpIdHashLen then .ok hash else .error .wrongLength
  else if s.data.length < rpIdHashLen then .error .wrongLength
  else .ok (s.data.take rpIdHashLen)

/-- credential_resident_matches_rp; no hash matches nothing. -/
def matchesRp (rpIdHash : Option Data) : Bool :=
  match rpIdHash, residentRpIdHash s with
  | some hash, .ok own => own = hash
  | _, _ => false

/-- The id that credential_resident_matches_id compares with. -/
def storedId : Option Data :=
  if s.objects.state.toOption.any fun m => m.properties = propertyImported then
    if s.marker then s.objects.clientId.toOption else none
  else if s.marker then
    (s.objects.clientId.toOption.filter fun id => residentLen ≤ id.length).map (·.take residentLen)
  else if rpIdHashLen + residentLen ≤ s.data.length ∧ isResident (s.data.drop rpIdHashLen) then
    some ((s.data.drop rpIdHashLen).take residentLen)
  else if rpIdHashLen < s.data.length then some (d.deriveResident (s.data.drop rpIdHashLen))
  else none

def matchesId (id : Data) : Bool := id.length = residentLen && storedId d s = some id

/-- The part of credential_load_resident for a container that is usable and of the RP. -/
def loadContainer (rpIdHash : Data) : Except LoadErr Credential :=
  match s.objects.credential, s.objects.clientId, s.objects.state with
  | .error e, _, _ => .error (.store e)
  | _, .error e, _ => .error (.store e)
  | .ok credential, .ok residentId, state =>
    if residentId.length < residentLen then .error (.store .wrongLength)
    else
      match state with
      | .error e => .error (.store e)
      | .ok m =>
        if m.properties = propertyImported then
          match s.objects.metadata, s.objects.privateKey with
          | .error e, _ => .error (.store e)
          | _, .error e => .error (.store e)
          | .ok metadata, .ok privateKey =>
            match d.parseMetadata metadata with
            | none => .error .invalidCredential
            -- credential_parse_metadata clears the whole structure, also the flag `imported` that
            -- was set just before
            | some cred => .ok { cred with
                id := credential, residentId := some (residentId.take residentLen),
                privateKey := some privateKey, imported := false }
        else
          match d.load credential rpIdHash with
          | none => .error .invalidCredential
          | some cred => .ok { cred with residentId := some (residentId.take residentLen) }

def loadResident (rpIdHash : Data) : Except LoadErr Credential :=
  if s.marker then
    if residentUsable d s = false then .error .noCredentials
    else if matchesRp s (some rpIdHash) = false then .error .noCredentials
    else loadContainer d s rpIdHash
  else if s.data.length ≤ rpIdHashLen then .error .noCredentials
  else if isResident (s.data.drop rpIdHashLen) then
    match d.load (s.data.drop (rpIdHashLen + residentLen)) rpIdHash with
    | none => .error .invalidCredential
    | some cred => .ok { cred with residentId := some ((s.data.drop rpIdHashLen).take residentLen) }
  else
    match d.load (s.data.drop rpIdHashLen) rpIdHash with
    | none => .error .invalidCredential
    | some cred => .ok cred

def residentPublicKey : Except ObjErr Data :=
  if s.marker then s.objects.publicKey else .error .fileNotFound

end Slots

/-! The relying parties. -/

def rpRecordHeaderLen : Nat := 33

def rpSecureOverhead : Nat := 32

def rpLegacyValid (record : Data) : Bool := rpRecordHeaderLen ≤ record.length && record.getD 0 0 ≠ 0

def rpLegacyHash (record : Data) : Data := (record.drop 1).take rpIdHashLen

def rpIdIsSecure (record : Data) : Bool :=
  rpRecordHeaderLen + rpSecureOverhead ≤ record.length &&
    (record.drop rpRecordHeaderLen).take 4 = [0xf1, 0xd0, 0x02, 0x04]

def rpIdDecrypt (d : Device) (record : Data) : Option Data :=
  if record.length < rpRecordHeaderLen then none
  else if rpIdIsSecure record then d.openRp (rpLegacyHash record) (record.drop rpRecordHeaderLen)
  else some (record.drop rpRecordHeaderLen)

/-- The file that an entry of the index comes from. -/
inductive RpSource where
  | legacy (i : SlotIndex)
  | container (i : SlotIndex)
  deriving DecidableEq, Repr

structure IndexEntry where
  idHash : Data
  source : RpSource
  deriving DecidableEq, Repr

/-- The files that credential_rp_count adds to the index, in its order. -/
def rpCandidates (st : Storage) : List IndexEntry :=
  ((List.finRange 256).filterMap fun i => (st.rps i).bind fun record =>
    if rpLegacyValid record then some ⟨rpLegacyHash record, .legacy i⟩ else none) ++
  (List.finRange 256).filterMap fun i => (st.slots i).bind fun s =>
    if s.marker then
      match residentRpIdHash s with
      | .ok hash => some ⟨hash, .container i⟩
      | .error _ => none
    else none

/-- credential_rp_index_add for each of them. The flag says that there was room for all. -/
def fillIndex : List IndexEntry → List IndexEntry → List IndexEntry × Bool
  | index, [] => (index, true)
  | index, e :: es =>
    if index.any fun k => k.idHash = e.idHash then fillIndex index es
    else if 256 ≤ index.length then (index, false)
    else fillIndex (index ++ [e]) es

/-- credential_rp_count: the index it leaves, and whether it succeeds. -/
def rpCount (st : Storage) : List IndexEntry × Bool := fillIndex [] (rpCandidates st)

/-- credential_rp_load: the id and its hash. -/
def rpLoad (d : Device) (st : Storage) (index : List IndexEntry) (n : Nat) :
    Except LoadErr (Data × Data) :=
  match index[n]? with
  | none => .error (.store .fileNotFound)
  | some e =>
    match e.source with
    | .legacy i =>
      match st.rps i with
      | none => .error (.store .fileNotFound)
      | some record =>
        match rpIdDecrypt d record with
        | none => .error .invalidCredential
        | some id => .ok (id, e.idHash)
    | .container i =>
      match st.slots i with
      | none => .error (.store .fileNotFound)
      | some s =>
        if s.marker = false then .error (.store .wrongData)
        else
          match loadResident d s e.idHash with
          | .error err => .error err
          | .ok cred =>
            match cred.rpId with
            | none => .error (.store .wrongData)
            | some id => .ok (id, e.idHash)

end Cred

end KeyWallet
