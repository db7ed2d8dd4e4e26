import KeyWallet.CredMgmt
import KeyWallet.CredPayload
import Mathlib.Data.List.TakeWhile

/-! updateUserInformation and what it leaves of a credential: it is loaded, made anew by credential_create
with the new names, stored over the old one, and loaded again. -/
namespace KeyWallet.Cred.Update

open Payload
open Envelope (magic credIvLen credTagLen credSilentTagLen credSilentEnvelopeOverhead sizeSub)
open Mgmt (updateUserInformation updateFound findById residentUpdated keySeed
  usesStableKeys)

def maxCredIdLength : Nat := 1024

/-- The libraries: the ciphers and hashes, and the bytes of CBOR. -/
structure Platform extends Envelope.Primitives where
  sha256 : Data → Data
  encryptAndTag : (key iv rpIdHash plain : Data) → Data × Data
  hmac : (key message : Data) → Data
  serial : Data
  encode : CborMap → Data
  decode : Data → Option CborMap

namespace Platform

variable (p : Platform)

/-- credential_load. The map is followed by the tag, which the length of the input takes in. -/
def load (credId rpIdHash : Data) : Option Credential :=
  ((Envelope.credentialLoad p.toPrimitives (fun length buffer => (p.decode (buffer.take length)).bind fields)
    {} credId rpIdHash).1).map fun c => { c with id := credId }

/-- credential_parse_metadata. -/
def parseMetadata (metadata : Data) : Option Credential := (p.decode metadata).bind metadataFields

/-- credential_derive_resident. The first HMAC is written over the start of its own key. -/
def deriveResident (credId : Data) : Data :=
  let first := p.hmac (List.replicate 32 0) p.serial
  let key := first.drop 10 ++ List.replicate 10 0
  let key := p.hmac key (ascii "SLIP-0022")
  let key := p.hmac key (credId.take 4)
  let key := p.hmac key (ascii "resident")
  first.take 4 ++ magic 0x06 ++ [0, 0] ++ p.hmac key credId

/-- The bytes around a map in credential_create. -/
def sealId (iv rpIdHash plain : Data) : Data :=
  let (cipher, tag) := p.encryptAndTag (p.deriveChachaKey (magic 0x05)) iv rpIdHash plain
  let body := magic 0x05 ++ iv ++ cipher ++ tag
  body ++ (p.silentTag body rpIdHash).take credSilentTagLen

def rpIdHash (a : Arguments) : Data := p.sha256 (a.cred.rpId.getD [])

/-- The map in credential_create, as bytes. -/
def plain (t : Times) (a : Arguments) : Data := p.encode (payload t (p.rpIdHash a) a)

def newId (t : Times) (iv : Data) (a : Arguments) : Data := p.sealId iv (p.rpIdHash a) (p.plain t a)

/-- credential_create. -/
def create (t : Times) (iv : Data) (a : Arguments) : Option Data :=
  if maxCredIdLength - credSilentEnvelopeOverhead < (p.plain t a).length then none
  else some (p.newId t iv a)

/-- The arguments of credential_create in updateUserInformation. use_sign_count is a pointer there, of
which the parameter only keeps whether it is null, and alg and curve are cut to an int. -/
def arguments (cred : Credential) (name displayName : Option Data) : Arguments :=
  ⟨cred, name, displayName, cred.useSignCount.isSome, BitVec.ofInt 32 cred.alg, BitVec.ofInt 32 cred.curve⟩

def device (d : Device) : Device :=
  { d with load := p.load, parseMetadata := p.parseMetadata, deriveResident := p.deriveResident }

/-- The setting of a call at this time, with these random bytes. -/
def setting (t : Times) (iv : Data) (e : Mgmt.Setting) : Mgmt.Setting :=
  { e with
    device := p.device e.device
    create := fun cred name displayName => p.create t iv (arguments cred name displayName) }

/-- What the libraries promise. -/
structure Laws : Prop where
  cipher_length : ∀ key iv rpIdHash plain, (p.encryptAndTag key iv rpIdHash plain).1.length = plain.length
  tag_length : ∀ key iv rpIdHash plain, (p.encryptAndTag key iv rpIdHash plain).2.length = credTagLen
  decrypts : ∀ key iv rpIdHash plain front rest : Data, front.length = 4 → iv.length = credIvLen →
    p.authDecrypt
      { length := plain.length
        key := key
        iv := iv
        rpIdHash := rpIdHash
        buffer := front ++ iv ++ (p.encryptAndTag key iv rpIdHash plain).1 ++
          (p.encryptAndTag key iv rpIdHash plain).2 ++ rest
        tagAt := 16 + plain.length
        cipherAt := 16 } =
      (0, front ++ iv ++ plain ++ (p.encryptAndTag key iv rpIdHash plain).2 ++ rest)
  silentTag_length : ∀ record rpIdHash, credSilentTagLen ≤ (p.silentTag record rpIdHash).length
  sha256_length : ∀ message, (p.sha256 message).length = 32
  hmac_length : ∀ key message, (p.hmac key message).length = 32

/-- The map is read back from its bytes, whatever follows them, and the hash in it takes up room. -/
structure Encodes (t : Times) (a : Arguments) : Prop where
  decodes : ∀ rest, p.decode (p.plain t a ++ rest) = some (payload t (p.rpIdHash a) a)
  long : (p.rpIdHash a).length ≤ (p.plain t a).length

end Platform

/-- The path that fido_load_key gives to derive_key: the first word is replaced, and the highest bit of
each other one is set. -/
def keyPath (seed : Data) : Data :=
  [0x26, 0x27, 0x00, 0x80] ++
    (List.range 28).map fun j => if j % 4 = 3 then seed.getD (4 + j) 0 ||| 0x80 else seed.getD (4 + j) 0

/-- What the signing key of a credential is made of. -/
inductive KeySource
  | imported (curve : Int) (privateKey : Data)
  | derived (curve : Int) (path : Data)
  deriving DecidableEq, Repr

def keySource (cred : Credential) : KeySource :=
  match cred.privateKey with
  | some privateKey => .imported cred.curve privateKey
  | none => .derived cred.curve (keyPath (keySeed cred))

/-- The new names, and all else as before. A text that is not there counts as an empty one. -/
structure Updated (req : Mgmt.Request) (before after : Credential) : Prop where
  userName : after.userName.getD [] = req.userName.getD []
  userDisplayName : after.userDisplayName.getD [] = req.userDisplayName.getD []
  rpId : after.rpId.getD [] = before.rpId.getD []
  userId : after.userId.getD [] = before.userId.getD []
  alg : after.alg = before.alg
  curve : after.curve = before.curve
  credProtect : after.credProtect = before.credProtect
  credBlob : after.credBlob = before.credBlob
  hmacSecret : after.hmacSecret = before.hmacSecret
  largeBlobKey : after.largeBlobKey = before.largeBlobKey
  thirdPartyPayment : after.thirdPartyPayment = before.thirdPartyPayment
  rk : after.rk = before.rk
  useSignCount : after.useSignCount = some true ↔ before.useSignCount = some true
  key : keySource after = keySource before

/-- The file `s'` in place of `s` has the same resident id, and loads as the credential with its new
names. -/
def NamesOnly (d : Device) (req : Mgmt.Request) (hash : Data) (s s' : SlotFile) (before : Credential) : Prop :=
  storedId d s' = storedId d s ∧ ∃ after, loadResident d s' hash = .ok after ∧ Updated req before after

/-- A container with an imported credential. -/
def imported (s : SlotFile) : Bool :=
  s.marker && s.objects.state.toOption.any fun m => m.properties = propertyImported

/-- The keys do not come from the credential id, which changes: there is a resident id with stable keys;
or there is none so far, and the one that is derived leads to the same path. -/
def KeyKept (p : Platform) (before : Credential) : Prop :=
  match before.residentId with
  | some residentId => usesStableKeys residentId = true
  | none => keyPath (p.deriveResident before.id) = keyPath before.id

/-- What credential_create passes on. -/
structure PassedOn (p : Platform) (req : Mgmt.Request) (hash : Data) (before : Credential) : Prop where
  userName : 0 ∉ req.userName.getD []
  userDisplayName : 0 ∉ req.userDisplayName.getD []
  rpId : 0 ∉ before.rpId.getD []
  rpIdHash : p.sha256 (before.rpId.getD []) = hash
  credBlob : ∀ b, before.credBlob = some b → b.length < maxCredBlobLength
  alg : (BitVec.ofInt 32 before.alg).toInt = before.alg
  curve : (BitVec.ofInt 32 before.curve).toInt = before.curve
  useSignCount : before.useSignCount ≠ some false
  key : KeyKept p before

/-- The names of an imported credential are not those that are updated. -/
def Meets (p : Platform) (req : Mgmt.Request) (hash : Data) (s : SlotFile) (before : Credential) : Prop :=
  if imported s then
    before.userName.getD [] = req.userName.getD [] ∧
      before.userDisplayName.getD [] = req.userDisplayName.getD []
  else PassedOn p req hash before

/-! The credential id that is made. -/

section Sealed

variable {p : Platform} {iv hash plain : Data}

/-- The call of the AEAD for an id that credential_create has made. -/
def sealCall (p : Platform) (iv hash plain rpIdHash : Data) : Envelope.AeadCall where
  length := plain.length
  key := p.deriveChachaKey (magic 0x05)
  iv := iv
  rpIdHash := rpIdHash
  buffer := p.sealId iv hash plain
  tagAt := 16 + plain.length
  cipherAt := 16

theorem sealId_eq (p : Platform) (iv hash plain : Data) :
    ∃ cipher tag silent, p.encryptAndTag (p.deriveChachaKey (magic 0x05)) iv hash plain = (cipher, tag) ∧
      p.sealId iv hash plain = magic 0x05 ++ iv ++ cipher ++ tag ++ silent.take credSilentTagLen ∧
      silent = p.silentTag (magic 0x05 ++ iv ++ cipher ++ tag) hash :=
  ⟨_, _, _, rfl, rfl, rfl⟩

theorem sealId_length (hp : p.Laws) (hiv : iv.length = credIvLen) :
    (p.sealId iv hash plain).length = plain.length + 48 := by
  obtain ⟨cipher, tag, silent, henc, heq, hsilent⟩ := sealId_eq p iv hash plain
  have hcipher := hp.cipher_length (p.deriveChachaKey (magic 0x05)) iv hash plain
  have htag := hp.tag_length (p.deriveChachaKey (magic 0x05)) iv hash plain
  have htake := hp.silentTag_length (magic 0x05 ++ iv ++ cipher ++ tag) hash
  have hmagic : (magic 0x05).length = 4 := rfl
  rw [henc] at hcipher htag
  rw [← hsilent] at htake
  rw [heq, List.length_append, List.length_append, List.length_append, List.length_append, List.length_take,
    hcipher, htag, hiv, hmagic, Nat.min_eq_left htake]
  show 4 + 12 + plain.length + 16 + 16 = _
  omega

theorem sealId_take (p : Platform) (iv hash plain : Data) (n : Nat) (h : n ≤ 4) :
    (p.sealId iv hash plain).take n = (magic 0x05).take n := by
  obtain ⟨cipher, tag, silent, -, heq, -⟩ := sealId_eq p iv hash plain
  rw [heq, List.append_assoc, List.append_assoc, List.append_assoc]
  exact List.take_append_of_le_length h

/-- credential_verify hands the whole ciphertext to the AEAD. -/
theorem verify_sealId (hp : p.Laws) (hiv : iv.length = credIvLen) (hlen : plain.length ≤ 976)
    (rpIdHash : Data) :
    (Envelope.credentialVerify p.toPrimitives (p.sealId iv hash plain) rpIdHash false).ret =
        (p.authDecrypt (sealCall p iv hash plain rpIdHash)).1 ∧
      (Envelope.credentialVerify p.toPrimitives (p.sealId iv hash plain) rpIdHash false).buffer =
        (p.authDecrypt (sealCall p iv hash plain rpIdHash)).2 := by
  have hsize : (p.sealId iv hash plain).length = plain.length + 48 := sealId_length hp hiv
  have hproto : Envelope.detectProto (p.sealId iv hash plain) = .proto25 := by
    unfold Envelope.detectProto
    have hhead : (p.sealId iv hash plain).take Envelope.credProtoLen = magic 0x05 :=
      sealId_take p iv hash plain 4 (le_refl 4)
    rw [if_pos (.inr hhead)]
  have hkey : (p.sealId iv hash plain).take Envelope.credProtoLen = magic 0x05 :=
    sealId_take p iv hash plain 4 (le_refl 4)
  have hiv' : ((p.sealId iv hash plain).drop Envelope.credProtoLen).take credIvLen = iv := by
    obtain ⟨cipher, tag, silent, -, heq, -⟩ := sealId_eq p iv hash plain
    have hdrop : (p.sealId iv hash plain).drop Envelope.credProtoLen =
        iv ++ (cipher ++ (tag ++ silent.take credSilentTagLen)) := by
      rw [heq, List.append_assoc, List.append_assoc, List.append_assoc]
      exact List.drop_left' rfl
    rw [hdrop]
    exact List.take_left' hiv
  have hlength : sizeSub (p.sealId iv hash plain).length 48 = plain.length := by
    rw [hsize, Envelope.sizeSub_eq (by omega) (by omega)]
    omega
  have htag : sizeSub (p.sealId iv hash plain).length 32 = 16 + plain.length := by
    rw [hsize, Envelope.sizeSub_eq (by omega) (by omega)]
    omega
  have hcall : (Envelope.credentialVerify p.toPrimitives (p.sealId iv hash plain) rpIdHash false).ret =
        (p.authDecrypt ⟨sizeSub (p.sealId iv hash plain).length 48,
          p.deriveChachaKey ((p.sealId iv hash plain).take Envelope.credProtoLen),
          ((p.sealId iv hash plain).drop Envelope.credProtoLen).take credIvLen, rpIdHash,
          p.sealId iv hash plain, sizeSub (p.sealId iv hash plain).length 32, 16⟩).1 ∧
      (Envelope.credentialVerify p.toPrimitives (p.sealId iv hash plain) rpIdHash false).buffer =
        (p.authDecrypt ⟨sizeSub (p.sealId iv hash plain).length 48,
          p.deriveChachaKey ((p.sealId iv hash plain).take Envelope.credProtoLen),
          ((p.sealId iv hash plain).drop Envelope.credProtoLen).take credIvLen, rpIdHash,
          p.sealId iv hash plain, sizeSub (p.sealId iv hash plain).length 32, 16⟩).2 := by
    have hlong : ¬ (p.sealId iv hash plain).length < Envelope.credEnvelopeOverhead := by
      show ¬ (p.sealId iv hash plain).length < 32
      omega
    unfold Envelope.credentialVerify
    dsimp only
    rw [if_neg hlong, if_pos rfl, hproto]
    exact ⟨rfl, rfl⟩
  rw [hlength, htag, hkey, hiv'] at hcall
  exact hcall

/-- credential_load gives back what credential_create was given. -/
theorem load_sealed (hp : p.Laws) (hiv : iv.length = credIvLen) (t : Times) (a : Arguments)
    (hcodec : p.Encodes t a) (hlen : (p.plain t a).length ≤ 976) :
    p.load (p.newId t iv a) (p.rpIdHash a) =
      some { recreated t a with
        id := p.newId t iv a } := by
  have hsize : (p.newId t iv a).length = (p.plain t a).length + 48 := sealId_length hp hiv
  obtain ⟨hret, hbuffer⟩ : (Envelope.credentialVerify p.toPrimitives (p.newId t iv a) (p.rpIdHash a) false).ret =
        (p.authDecrypt (sealCall p iv (p.rpIdHash a) (p.plain t a) (p.rpIdHash a))).1 ∧ _ :=
    verify_sealId hp hiv hlen (p.rpIdHash a)
  obtain ⟨cipher, tag, silent, henc, heq, -⟩ := sealId_eq p iv (p.rpIdHash a) (p.plain t a)
  have hopen := hp.decrypts (p.deriveChachaKey (magic 0x05)) iv (p.rpIdHash a)
    (p.plain t a) (magic 0x05) (silent.take credSilentTagLen) rfl hiv
  have htag := hp.tag_length (p.deriveChachaKey (magic 0x05)) iv (p.rpIdHash a) (p.plain t a)
  rw [henc] at hopen htag
  have hcall : sealCall p iv (p.rpIdHash a) (p.plain t a) (p.rpIdHash a) =
      ⟨(p.plain t a).length, p.deriveChachaKey (magic 0x05), iv, p.rpIdHash a,
        magic 0x05 ++ iv ++ cipher ++ tag ++ silent.take credSilentTagLen, 16 + (p.plain t a).length, 16⟩ := by
    unfold sealCall
    rw [heq]
  rw [hcall, hopen] at hret hbuffer
  -- behind the header are the map and the tag
  have hread : ((magic 0x05 ++ iv ++ p.plain t a ++ tag ++ silent.take credSilentTagLen).drop 16).take
      (sizeSub (p.newId t iv a).length 32) = p.plain t a ++ tag := by
    have hheader : (magic 0x05 ++ iv).length = 16 := by
      rw [List.length_append, hiv]
      rfl
    have hrest : (p.plain t a ++ tag).length = (p.plain t a).length + 16 := by
      rw [List.length_append, htag]
      rfl
    have hdrop : (magic 0x05 ++ iv ++ p.plain t a ++ tag ++ silent.take credSilentTagLen).drop 16 =
        (p.plain t a ++ tag) ++ silent.take credSilentTagLen := by
      have hassoc : magic 0x05 ++ iv ++ p.plain t a ++ tag ++ silent.take credSilentTagLen =
          (magic 0x05 ++ iv) ++ ((p.plain t a ++ tag) ++ silent.take credSilentTagLen) := by
        simp only [List.append_assoc]
      rw [hassoc]
      exact List.drop_left' hheader
    rw [hdrop, hsize, Envelope.sizeSub_eq (by omega) (by omega)]
    exact List.take_left' (by omega)
  have hdecode : (p.decode (p.plain t a ++ tag)).bind fields = some (recreated t a) := by
    rw [hcodec.decodes, Option.bind_some, fields_payload]
  have hret0 : (Envelope.credentialVerify p.toPrimitives (p.newId t iv a) (p.rpIdHash a) false).ret = 0 := hret
  have hbuffer' : (Envelope.credentialVerify p.toPrimitives (p.newId t iv a) (p.rpIdHash a) false).buffer =
      magic 0x05 ++ iv ++ p.plain t a ++ tag ++ silent.take credSilentTagLen := hbuffer
  unfold Platform.load Envelope.credentialLoad
  dsimp only
  rw [if_neg (not_not.mpr hret0), hbuffer']
  have hoffset : Envelope.credCiphertextOffset = 16 := rfl
  have hoverhead : Envelope.credEnvelopeOverhead = 32 := rfl
  rw [hoffset, hoverhead, hread, hdecode]
  rfl

theorem load_refused (hp : p.Laws) (hiv : iv.length = credIvLen) (t : Times) (a : Arguments)
    (hcodec : p.Encodes t a) {rpIdHash : Data} (hrefused : (Envelope.credentialVerify p.toPrimitives
      (p.newId t iv a) rpIdHash false).ret ≠ 0) :
    p.load (p.newId t iv a) rpIdHash = none := by
  have hsize : (p.newId t iv a).length = (p.plain t a).length + 48 := sealId_length hp hiv
  have hlong : 32 ≤ (p.plain t a).length := by
    calc 32 = (p.rpIdHash a).length := (hp.sha256_length _).symm
      _ ≤ (p.plain t a).length := hcodec.long
  have hne : (p.newId t iv a).length ≠ Envelope.keyHandleLen := by
    show _ ≠ 64
    omega
  unfold Platform.load Envelope.credentialLoad
  dsimp only
  rw [if_pos hrefused, if_pos (.inl hne)]
  rfl

end Sealed

/-! The files. -/

/-- The credential that a request is about: its file, the hash of its RP ID, and what it loads as. -/
structure Subject (p : Platform) (e : Mgmt.Setting) (req : Mgmt.Request) (i : SlotIndex) (s : SlotFile) (hash : Data)
    (before : Credential) : Prop where
  found : ∃ id, req.credentialId = some id ∧ findById (p.device e.device) e.storage id = some (i, s)
  hashed : residentRpIdHash s = .ok hash
  loads : loadResident (p.device e.device) s hash = .ok before

section Calls

variable {p : Platform} {e : Mgmt.Setting} {t : Times} {iv : Data} {req : Mgmt.Request} {i : SlotIndex} {s : SlotFile}
  {hash : Data} {before : Credential}

theorem refuseWrite_ne_done {r : Mgmt.Reply} (h : Mgmt.refuseWrite e req = some r) : r ≠ .done := by
  unfold Mgmt.refuseWrite at h
  split_ifs at h
  · rw [← Option.some.inj h]
    exact Mgmt.Reply.noConfusion
  · rw [← Option.some.inj h]
    exact Mgmt.Reply.noConfusion
  · cases hhash : req.rpIdHash with
    | none =>
      rw [hhash] at h
      rw [← Option.some.inj h]
      exact Mgmt.Reply.noConfusion
    | some other =>
      rw [hhash] at h
      dsimp only at h
      split_ifs at h
      rw [← Option.some.inj h]
      exact Mgmt.Reply.noConfusion

theorem update_reaches (h : Subject p e req i s hash before)
    (haccepted : (updateUserInformation (p.setting t iv e) req).1 = .done) (iv' : Data) :
    updateUserInformation (p.setting t iv' e) req = updateFound (p.setting t iv' e) req i s before := by
  obtain ⟨id, hid, hfind⟩ := h.found
  unfold updateUserInformation at haccepted ⊢
  rw [hid] at haccepted ⊢
  cases huser : req.userId with
  | none =>
    rw [huser] at haccepted
    cases haccepted
  | some userId =>
    rw [huser] at haccepted
    dsimp only at haccepted ⊢
    have hrefuse : Mgmt.refuseWrite (p.setting t iv' e) req = Mgmt.refuseWrite (p.setting t iv e) req := rfl
    have hfind' (iv : Data) : findById (p.setting t iv e).device (p.setting t iv e).storage id = some (i, s) :=
      hfind
    have hload (iv : Data) : loadResident (p.setting t iv e).device s hash = .ok before := h.loads
    have hbound : Mgmt.boundElsewhere (p.setting t iv' e) hash = Mgmt.boundElsewhere (p.setting t iv e) hash := rfl
    rw [hrefuse, hfind']
    rw [hfind'] at haccepted
    cases hr : Mgmt.refuseWrite (p.setting t iv e) req with
    | some reply =>
      rw [hr] at haccepted
      exact absurd haccepted (refuseWrite_ne_done hr)
    | none =>
      rw [hr] at haccepted
      dsimp only at haccepted ⊢
      rw [h.hashed] at haccepted ⊢
      dsimp only at haccepted ⊢
      rw [hload] at haccepted ⊢
      dsimp only at haccepted ⊢
      rw [hbound]
      by_cases hb : req.preview = false ∧ Mgmt.boundElsewhere (p.setting t iv e) hash = true
      · rw [if_pos hb] at haccepted
        cases haccepted
      · rw [if_neg hb] at haccepted ⊢
        by_cases hu : userId ≠ before.userId.getD []
        · rw [if_pos hu] at haccepted
          cases haccepted
        · rw [if_neg hu]

theorem update_stores (h : Subject p e req i s hash before)
    (haccepted : (updateUserInformation (p.setting t iv e) req).1 = .done) :
    (p.plain t (Platform.arguments before req.userName req.userDisplayName)).length ≤ 976 ∧
      e.update = .done := by
  have hreach := update_reaches h haccepted iv
  rw [hreach] at haccepted
  have hcreate : (p.setting t iv e).create before req.userName req.userDisplayName =
      p.create t iv (Platform.arguments before req.userName req.userDisplayName) := rfl
  unfold updateFound at haccepted
  rw [hcreate] at haccepted
  unfold Platform.create at haccepted
  by_cases hlong : maxCredIdLength - credSilentEnvelopeOverhead <
      (p.plain t (Platform.arguments before req.userName req.userDisplayName)).length
  · rw [if_pos hlong] at haccepted
    cases haccepted
  · rw [if_neg hlong] at haccepted
    dsimp only at haccepted
    have hmax : maxCredIdLength - credSilentEnvelopeOverhead = 976 := rfl
    refine ⟨by omega, ?_⟩
    have hstore : (p.setting t iv e).update = e.update := rfl
    rw [hstore] at haccepted
    cases hupdate : e.update with
    | done => rfl
    | refused left =>
      rw [hupdate] at haccepted
      split at haccepted
      · cases haccepted
      · rename_i hcases
        cases hcases
      · cases haccepted

theorem update_slot (h : Subject p e req i s hash before)
    (haccepted : (updateUserInformation (p.setting t iv e) req).1 = .done) {iv' : Data} {s' : SlotFile}
    (hs' : residentUpdated (p.device e.device) s
      (p.newId t iv' (Platform.arguments before req.userName req.userDisplayName)) = some s') :
    (updateUserInformation (p.setting t iv' e) req).2.slots i = some s' := by
  obtain ⟨hlen, hupdate⟩ := update_stores h haccepted
  have hcreate : (p.setting t iv' e).create before req.userName req.userDisplayName =
      some (p.newId t iv' (Platform.arguments before req.userName req.userDisplayName)) := by
    show p.create t iv' _ = _
    unfold Platform.create
    have hmax : maxCredIdLength - credSilentEnvelopeOverhead = 976 := rfl
    rw [if_neg (by omega)]
  have hdevice : residentUpdated (p.setting t iv' e).device s
      (p.newId t iv' (Platform.arguments before req.userName req.userDisplayName)) = some s' := hs'
  have hstore : (p.setting t iv' e).update = .done := hupdate
  rw [update_reaches h haccepted iv']
  unfold updateFound
  rw [hcreate]
  dsimp only
  rw [hdevice, hstore]
  show Function.update e.storage.slots i (some s') i = some s'
  rw [Function.update_self]

end Calls

section Files

variable {p : Platform} {d : Device} {s : SlotFile} {hash id : Data} {before : Credential}

/-- The resident id after the update. -/
def residentIdAfter (p : Platform) (before : Credential) : Data :=
  before.residentId.getD (p.deriveResident before.id)

theorem load_parsed {c : Credential} (h : p.load id hash = some c) : Parsed c ∧ c.id = id := by
  unfold Platform.load at h
  obtain ⟨old, hold, rfl⟩ := Option.map_eq_some_iff.mp h
  refine ⟨?_, rfl⟩
  have hparsed : Parsed old := by
    unfold Envelope.credentialLoad at hold
    dsimp only at hold
    split_ifs at hold
    · rw [← Option.some.inj hold]
      exact ⟨fun _ => ⟨rfl, rfl, rfl, rfl, rfl⟩, fun _ => rfl, by decide, rfl, rfl⟩
    · obtain ⟨m, -, hfields⟩ := Option.bind_eq_some_iff.mp hold
      exact fields_parsed hfields
  exact ⟨hparsed.extensions, hparsed.opts, hparsed.credProtect, hparsed.privateKey, hparsed.residentId⟩

theorem load_nil : p.load [] hash = none := by
  unfold Platform.load
  rw [Envelope.credentialLoad_short (by decide)]
  rfl

theorem deriveResident_length (hp : p.Laws) (credId : Data) : (p.deriveResident credId).length = residentLen := by
  have hfirst := hp.hmac_length (List.replicate 32 0) p.serial
  unfold Platform.deriveResident
  dsimp only
  rw [List.length_append, List.length_append, List.length_append, List.length_take, hfirst, hp.hmac_length]
  rfl

theorem deriveResident_proto (hp : p.Laws) (credId rest : Data) :
    ((p.deriveResident credId ++ rest).drop 4).take 4 = [0xf1, 0xd0, 0x02, 0x06] := by
  have hfirst := hp.hmac_length (List.replicate 32 0) p.serial
  unfold Platform.deriveResident
  dsimp only
  have htake : ((p.hmac (List.replicate 32 0) p.serial).take 4).length = 4 := by
    rw [List.length_take, hfirst]
    rfl
  rw [List.append_assoc, List.append_assoc, List.append_assoc, List.drop_left' htake]
  rfl

/-- What a container has to hold for credential_load_resident. -/
theorem loadContainer_cases (h : loadContainer d s hash = .ok before) :
    ∃ credential residentId m, s.objects.credential = .ok credential ∧ s.objects.clientId = .ok residentId ∧
      ¬ residentId.length < residentLen ∧ s.objects.state = .ok m ∧
      ((m.properties = propertyImported ∧ ∃ metadata privateKey cred, s.objects.metadata = .ok metadata ∧
        s.objects.privateKey = .ok privateKey ∧ d.parseMetadata metadata = some cred ∧
        before = { cred with
          id := credential, residentId := some (residentId.take residentLen),
          privateKey := some privateKey, imported := false }) ∨
      (m.properties ≠ propertyImported ∧ ∃ cred, d.load credential hash = some cred ∧
        before = { cred with residentId := some (residentId.take residentLen) })) := by
  unfold loadContainer at h
  cases hcredential : s.objects.credential with
  | error e =>
    rw [hcredential] at h
    cases h
  | ok credential =>
    rw [hcredential] at h
    cases hclient : s.objects.clientId with
    | error e =>
      rw [hclient] at h
      cases h
    | ok residentId =>
      rw [hclient] at h
      dsimp only at h
      by_cases hlen : residentId.length < residentLen
      · rw [if_pos hlen] at h
        cases h
      · rw [if_neg hlen] at h
        cases hstate : s.objects.state with
        | error e =>
          rw [hstate] at h
          cases h
        | ok m =>
          rw [hstate] at h
          dsimp only at h
          refine ⟨credential, residentId, m, rfl, rfl, hlen, rfl, ?_⟩
          by_cases himported : m.properties = propertyImported
          · rw [if_pos himported] at h
            left
            refine ⟨himported, ?_⟩
            cases hmeta : s.objects.metadata with
            | error e =>
              rw [hmeta] at h
              cases h
            | ok metadata =>
              rw [hmeta] at h
              cases hkey : s.objects.privateKey with
              | error e =>
                rw [hkey] at h
                cases h
              | ok privateKey =>
                rw [hkey] at h
                dsimp only at h
                cases hparse : d.parseMetadata metadata with
                | none =>
                  rw [hparse] at h
                  cases h
                | some cred =>
                  rw [hparse] at h
                  exact ⟨metadata, privateKey, cred, rfl, rfl, hparse, (Except.ok.inj h).symm⟩
          · rw [if_neg himported] at h
            right
            refine ⟨himported, ?_⟩
            cases hload : d.load credential hash with
            | none =>
              rw [hload] at h
              cases h
            | some cred =>
              rw [hload] at h
              exact ⟨cred, rfl, (Except.ok.inj h).symm⟩

/-- The container after the update. -/
def withCredential (s : SlotFile) (id : Data) : SlotFile :=
  { s with objects := { s.objects with credential := .ok id } }

theorem residentUpdated_container (hmarker : s.marker = true) :
    residentUpdated d s id = some (withCredential s id) := by
  unfold residentUpdated
  rw [if_pos hmarker]
  rfl

theorem loadResident_container (hmarker : s.marker = true) (hload : loadResident d s hash = .ok before)
    (id : Data) :
    loadContainer d s hash = .ok before ∧
      loadResident d (withCredential s id) hash = loadContainer d (withCredential s id) hash := by
  unfold loadResident at hload ⊢
  rw [if_pos hmarker] at hload
  have husable : residentUsable d (withCredential s id) = residentUsable d s := rfl
  have hmatches : matchesRp (withCredential s id) (some hash) = matchesRp s (some hash) := rfl
  rw [if_pos (show (withCredential s id).marker = true from hmarker), husable, hmatches]
  split_ifs at hload with h1 h2
  rw [if_neg h1, if_neg h2]
  exact ⟨hload, rfl⟩

theorem reload_imported (himported : imported s = true) (hload : loadResident d s hash = .ok before)
    (id : Data) :
    ∃ s', residentUpdated d s id = some s' ∧ storedId d s' = storedId d s ∧
      loadResident d s' hash = .ok { before with id := id } ∧ before.privateKey.isSome := by
  obtain ⟨hmarker, hany⟩ := Bool.and_eq_true_iff.mp himported
  obtain ⟨hcontainer, hafter⟩ := loadResident_container hmarker hload id
  refine ⟨_, residentUpdated_container hmarker, rfl, ?_⟩
  rw [hafter]
  obtain ⟨credential, residentId, m, -, hclient, hlen, hstate, hcases⟩ := loadContainer_cases hcontainer
  have hm : m.properties = propertyImported := by
    rw [hstate] at hany
    exact of_decide_eq_true hany
  obtain ⟨metadata, privateKey, cred, hmeta, hkey, hparse, hbefore⟩ :=
    (hcases.resolve_right fun h => h.1 hm).2
  refine ⟨?_, by rw [hbefore]; rfl⟩
  have hobjects : (withCredential s id).objects = { s.objects with credential := .ok id } := rfl
  unfold loadContainer
  rw [hobjects]
  dsimp only
  rw [hclient, hstate, hmeta, hkey]
  dsimp only
  rw [if_neg hlen, if_pos hm, hparse, hbefore]

theorem reload_container (hmarker : s.marker = true) (hnative : imported s = false)
    (hload : loadResident (p.device d) s hash = .ok before) (id : Data) :
    ∃ s', residentUpdated (p.device d) s id = some s' ∧ storedId (p.device d) s' = storedId (p.device d) s ∧
      loadResident (p.device d) s' hash = ((p.load id hash).elim (.error .invalidCredential) fun c =>
        .ok { c with residentId := some (residentIdAfter p before) }) ∧
      ∃ oldId old, p.load oldId hash = some old ∧ before = { old with residentId := before.residentId } := by
  obtain ⟨hcontainer, hafter⟩ := loadResident_container hmarker hload id
  refine ⟨_, residentUpdated_container hmarker, rfl, ?_⟩
  rw [hafter]
  obtain ⟨credential, residentId, m, -, hclient, hlen, hstate, hcases⟩ := loadContainer_cases hcontainer
  have hm : m.properties ≠ propertyImported := by
    intro hm
    unfold imported at hnative
    rw [hmarker, hstate, Bool.true_and] at hnative
    exact absurd hm (of_decide_eq_false hnative)
  obtain ⟨cred, hcred, hbefore⟩ := (hcases.resolve_left fun h => hm h.1).2
  have hobjects : (withCredential s id).objects = { s.objects with credential := .ok id } := rfl
  have hload' : (p.device d).load id hash = p.load id hash := rfl
  refine ⟨?_, credential, cred, hcred, by rw [hbefore]⟩
  unfold loadContainer
  rw [hobjects]
  dsimp only
  rw [hclient, hstate]
  dsimp only
  rw [if_neg hlen, if_neg hm, hload']
  cases p.load id hash with
  | none => rfl
  | some c =>
    dsimp only [Option.elim]
    rw [hbefore]
    rfl

theorem hash_length (hmarker : s.marker = false) (hhash : residentRpIdHash s = .ok hash) :
    hash.length = rpIdHashLen ∧ ¬ s.data.length < rpIdHashLen := by
  unfold residentRpIdHash at hhash
  rw [if_neg (by rw [hmarker]; exact Bool.false_ne_true)] at hhash
  by_cases hlen : s.data.length < rpIdHashLen
  · rw [if_pos hlen] at hhash
    cases hhash
  · rw [if_neg hlen] at hhash
    rw [← Except.ok.inj hhash, List.length_take]
    exact ⟨Nat.min_eq_left (by omega), hlen⟩

/-- A file of the old format, as it is written. -/
def legacyFile (s : SlotFile) (hash residentId id : Data) : SlotFile :=
  { s with data := hash ++ residentId ++ id }

theorem legacyFile_reads {residentId : Data} (hmarker : s.marker = false) (hhash : hash.length = rpIdHashLen)
    (hlen : residentId.length = residentLen) (hres : isResident (residentId ++ id) = true) :
    loadResident (p.device d) (legacyFile s hash residentId id) hash =
        ((p.load id hash).elim (.error .invalidCredential) fun c =>
          .ok { c with residentId := some residentId }) ∧
      storedId (p.device d) (legacyFile s hash residentId id) =
        if s.objects.state.toOption.any (fun m => m.properties = propertyImported) then none
        else some residentId := by
  have hfile : (legacyFile s hash residentId id).marker = true ↔ False := by
    show s.marker = true ↔ False
    rw [hmarker]
    exact ⟨Bool.false_ne_true, False.elim⟩
  have hdata : (legacyFile s hash residentId id).data = hash ++ (residentId ++ id) := List.append_assoc ..
  have hdrop : (hash ++ (residentId ++ id)).drop rpIdHashLen = residentId ++ id := List.drop_left' hhash
  have hrest : (hash ++ (residentId ++ id)).drop (rpIdHashLen + residentLen) = id := by
    rw [← List.drop_drop, hdrop, List.drop_left' hlen]
  have hsize : (hash ++ (residentId ++ id)).length = rpIdHashLen + (residentLen + id.length) := by
    rw [List.length_append, List.length_append, hhash, hlen]
  have hpos : 0 < residentLen := by decide
  have hload : (p.device d).load id hash = p.load id hash := rfl
  constructor
  · unfold loadResident
    rw [if_neg hfile.mp, hdata, if_neg (by omega), hdrop, if_pos hres, hrest, List.take_left' hlen, hload]
    cases p.load id hash with
    | none => rfl
    | some c => rfl
  · have hwhole : rpIdHashLen + residentLen ≤ (hash ++ (residentId ++ id)).length ∧
        isResident (residentId ++ id) = true := ⟨by omega, hres⟩
    unfold storedId
    rw [hdata, hdrop, List.take_left' hlen, if_neg hfile.mp, if_neg hfile.mp, if_pos hwhole]
    rfl

theorem reload_legacy (hp : p.Laws) (hmarker : s.marker = false) (hhash : residentRpIdHash s = .ok hash)
    (hload : loadResident (p.device d) s hash = .ok before) (id : Data) :
    ∃ s', residentUpdated (p.device d) s id = some s' ∧ storedId (p.device d) s' = storedId (p.device d) s ∧
      loadResident (p.device d) s' hash = ((p.load id hash).elim (.error .invalidCredential) fun c =>
        .ok { c with residentId := some (residentIdAfter p before) }) ∧
      ∃ oldId old, p.load oldId hash = some old ∧ before = { old with residentId := before.residentId } := by
  obtain ⟨hhashlen, -⟩ := hash_length hmarker hhash
  have hnot : ¬ s.marker = true := by
    rw [hmarker]
    exact Bool.false_ne_true
  unfold loadResident at hload
  rw [if_neg hnot] at hload
  have hload' (credId : Data) : (p.device d).load credId hash = p.load credId hash := rfl
  by_cases hshort : s.data.length ≤ rpIdHashLen
  · rw [if_pos hshort] at hload
    cases hload
  rw [if_neg hshort] at hload
  by_cases hres : isResident (s.data.drop rpIdHashLen) = true
  · rw [if_pos hres, hload'] at hload
    cases hold : p.load (s.data.drop (rpIdHashLen + residentLen)) hash with
    | none =>
      rw [hold] at hload
      cases hload
    | some old =>
      rw [hold] at hload
      have hbefore := (Except.ok.inj hload).symm
      -- the resident id is there as a whole, since a credential id follows it
      have hroom : rpIdHashLen + residentLen ≤ s.data.length := by
        by_contra hcut
        rw [List.drop_eq_nil_of_le (by omega), load_nil] at hold
        cases hold
      have hridlen : ((s.data.drop rpIdHashLen).take residentLen).length = residentLen := by
        rw [List.length_take, List.length_drop]
        omega
      have hres' : isResident ((s.data.drop rpIdHashLen).take residentLen ++ id) = true := by
        have height : ∀ rest : Data, (((s.data.drop rpIdHashLen).take residentLen ++ rest).drop 4).take 4 =
            ((s.data.drop rpIdHashLen).take 8).drop 4 := by
          intro rest
          have htake : (((s.data.drop rpIdHashLen).take residentLen ++ rest).take 8) =
              (s.data.drop rpIdHashLen).take 8 := by
            have h8 : 8 ≤ residentLen := by decide
            rw [List.take_append_of_le_length (by omega), List.take_take]
            rfl
          rw [List.take_drop, htake]
        have hwhole := height ((s.data.drop rpIdHashLen).drop residentLen)
        rw [List.take_append_drop] at hwhole
        unfold isResident at hres ⊢
        rw [height, ← hwhole]
        exact hres
      have hupdated : residentUpdated (p.device d) s id =
          some (legacyFile s hash ((s.data.drop rpIdHashLen).take residentLen) id) := by
        unfold residentUpdated
        rw [if_neg hnot, hhash]
        dsimp only
        rw [if_pos ⟨hroom, hres⟩]
        rfl
      obtain ⟨hreads, hstored⟩ := legacyFile_reads (p := p) (d := d) hmarker hhashlen hridlen hres'
      refine ⟨_, hupdated, ?_, ?_, _, old, hold, by rw [hbefore]⟩
      · have hwhole : rpIdHashLen + residentLen ≤ s.data.length ∧
            isResident (s.data.drop rpIdHashLen) = true := ⟨hroom, hres⟩
        rw [hstored]
        unfold storedId
        rw [if_neg hnot, if_neg hnot, if_pos hwhole]
      · rw [hreads, hbefore]
        rfl
  · rw [if_neg hres, hload'] at hload
    cases hold : p.load (s.data.drop rpIdHashLen) hash with
    | none =>
      rw [hold] at hload
      cases hload
    | some old =>
      rw [hold] at hload
      have hbefore := (Except.ok.inj hload).symm
      obtain ⟨hparsed, hid⟩ := load_parsed hold
      have hafter : residentIdAfter p before = p.deriveResident (s.data.drop rpIdHashLen) := by
        unfold residentIdAfter
        rw [hbefore, hparsed.residentId, hid]
        rfl
      have hres' : isResident (p.deriveResident (s.data.drop rpIdHashLen) ++ id) = true := by
        unfold isResident
        rw [deriveResident_proto hp]
        rfl
      have hupdated : residentUpdated (p.device d) s id =
          some (legacyFile s hash (p.deriveResident (s.data.drop rpIdHashLen)) id) := by
        unfold residentUpdated
        rw [if_neg hnot, hhash]
        dsimp only
        rw [if_neg (fun h => hres h.2), if_neg hshort]
        rfl
      obtain ⟨hreads, hstored⟩ :=
        legacyFile_reads (p := p) (d := d) hmarker hhashlen (deriveResident_length hp _) hres'
      refine ⟨_, hupdated, ?_, ?_, _, old, hold, by rw [hbefore]⟩
      · have hwhole : ¬ (rpIdHashLen + residentLen ≤ s.data.length ∧
            isResident (s.data.drop rpIdHashLen) = true) := fun h => hres h.2
        have hlong : rpIdHashLen < s.data.length := by omega
        rw [hstored]
        unfold storedId
        rw [if_neg hnot, if_neg hnot, if_neg hwhole, if_pos hlong]
        rfl
      · rw [hreads, hafter]

end Files

/-! The credential before and after. -/

section Compare

variable {p : Platform} {req : Mgmt.Request} {t : Times} {hash id : Data} {old before : Credential}

theorem cstr_eq_iff (x : Data) : cstr x = x ↔ 0 ∉ x := by
  unfold cstr
  rw [List.takeWhile_eq_self_iff]
  constructor
  · intro h hmem
    exact of_decide_eq_true (h 0 hmem) rfl
  · intro h x hx
    apply decide_eq_true
    rintro rfl
    exact h hx

theorem getD_written (s : Option Data) : (written s).getD [] = cstr (s.getD []) := by
  unfold written
  by_cases hs : s.getD [] = []
  · rw [if_pos hs, hs]
    rfl
  · rw [if_neg hs]
    rfl

theorem getD_writtenBytes (b : Option Data) : (writtenBytes b).getD [] = b.getD [] := by
  unfold writtenBytes
  by_cases hb : b.getD [] = []
  · rw [if_pos hb, hb]
    rfl
  · rw [if_neg hb]
    rfl

/-- The credential that is loaded after the update. -/
def afterwards (p : Platform) (t : Times) (req : Mgmt.Request) (before : Credential) (id : Data) : Credential :=
  { recreated t (Platform.arguments before req.userName req.userDisplayName) with
    id := id, residentId := some (residentIdAfter p before) }

theorem filter_eq_self_iff (b : Option Data) :
    (b.filter fun b => b.length < maxCredBlobLength) = b ↔ ∀ x, b = some x → x.length < maxCredBlobLength := by
  cases b with
  | none =>
    constructor
    · intro _ x hx
      cases hx
    · intro _
      rfl
  | some b =>
    rw [Option.filter_some]
    by_cases hb : b.length < maxCredBlobLength
    · rw [if_pos (decide_eq_true hb)]
      exact ⟨fun _ x hx => Option.some.inj hx ▸ hb, fun _ => rfl⟩
    · rw [if_neg (by rw [decide_eq_true_eq]; exact hb)]
      constructor
      · intro h
        cases h
      · intro h
        exact absurd (h b rfl) hb

theorem signCount_iff (b : Option Bool) : (some b.isSome = some true ↔ b = some true) ↔ b ≠ some false := by
  rcases b with _ | _ | _ <;> decide

/-- credential_create passes on a field exactly under the condition on that field. -/
theorem updated_iff (hparsed : Parsed old) (hbefore : before = { old with residentId := before.residentId }) :
    Updated req before (afterwards p t req before id) ↔
      0 ∉ req.userName.getD [] ∧ 0 ∉ req.userDisplayName.getD [] ∧ 0 ∉ before.rpId.getD [] ∧
      (∀ b, before.credBlob = some b → b.length < maxCredBlobLength) ∧
      (BitVec.ofInt 32 before.alg).toInt = before.alg ∧ (BitVec.ofInt 32 before.curve).toInt = before.curve ∧
      before.useSignCount ≠ some false ∧ keySource (afterwards p t req before id) = keySource before := by
  have hext : before.extensionsPresent = false → before.credBlob = none ∧ before.credProtect = 0 ∧
      before.hmacSecret = none ∧ before.largeBlobKey = false ∧ before.thirdPartyPayment = false := by
    rw [hbefore]
    exact hparsed.extensions
  have hopts : before.optsPresent = false → before.rk = none := by
    rw [hbefore]
    exact hparsed.opts
  have hprotect : before.credProtect < 18446744073709551616 := by
    rw [hbefore]
    exact hparsed.credProtect
  -- the extensions as a whole: only a blob that is too long is lost
  have hblob : (afterwards p t req before id).credBlob =
      before.credBlob.filter fun b => b.length < maxCredBlobLength := by
    show (if before.extensionsPresent then _ else _) = _
    cases h : before.extensionsPresent with
    | false =>
      rw [if_neg Bool.false_ne_true, (hext h).1]
      rfl
    | true =>
      rw [if_pos rfl]
      rfl
  constructor
  · intro h
    refine ⟨?_, ?_, ?_, ?_, h.alg, h.curve, ?_, h.key⟩
    · exact (cstr_eq_iff _).mp ((getD_written _).symm.trans h.userName)
    · exact (cstr_eq_iff _).mp ((getD_written _).symm.trans h.userDisplayName)
    · exact (cstr_eq_iff _).mp ((getD_written _).symm.trans h.rpId)
    · exact (filter_eq_self_iff _).mp (hblob.symm.trans h.credBlob)
    · exact (signCount_iff _).mp h.useSignCount
  · rintro ⟨hname, hdisplay, hrp, hlen, halg, hcurve, hcount, hkey⟩
    refine ⟨?_, ?_, ?_, getD_writtenBytes _, halg, hcurve, ?_, ?_, ?_, ?_, ?_, ?_, ?_, hkey⟩
    · exact (getD_written _).trans ((cstr_eq_iff _).mpr hname)
    · exact (getD_written _).trans ((cstr_eq_iff _).mpr hdisplay)
    · exact (getD_written _).trans ((cstr_eq_iff _).mpr hrp)
    · show (if before.extensionsPresent then before.credProtect % 18446744073709551616 else 0) = _
      cases h : before.extensionsPresent with
      | false => rw [if_neg Bool.false_ne_true, (hext h).2.1]
      | true => rw [if_pos rfl, Nat.mod_eq_of_lt hprotect]
    · exact hblob.trans ((filter_eq_self_iff _).mpr hlen)
    · show (if before.extensionsPresent then before.hmacSecret else none) = _
      cases h : before.extensionsPresent with
      | false => rw [if_neg Bool.false_ne_true, (hext h).2.2.1]
      | true => rw [if_pos rfl]
    · show (if before.extensionsPresent then before.largeBlobKey else false) = _
      cases h : before.extensionsPresent with
      | false => rw [if_neg Bool.false_ne_true, (hext h).2.2.2.1]
      | true => rw [if_pos rfl]
    · show (if before.extensionsPresent then before.thirdPartyPayment else false) = _
      cases h : before.extensionsPresent with
      | false => rw [if_neg Bool.false_ne_true, (hext h).2.2.2.2]
      | true => rw [if_pos rfl]
    · show (if before.optsPresent then before.rk else none) = _
      cases h : before.optsPresent with
      | false => rw [if_neg Bool.false_ne_true, hopts h]
      | true => rw [if_pos rfl]
    · exact (signCount_iff _).mpr hcount

theorem keySeed_after (p : Platform) (t : Times) (req : Mgmt.Request) (before : Credential) (id : Data) :
    keySeed (afterwards p t req before id) =
      if usesStableKeys (residentIdAfter p before) then residentIdAfter p before else id := rfl

theorem usesStableKeys_derived (hp : p.Laws) (credId : Data) :
    usesStableKeys (p.deriveResident credId) = true := by
  have hproto := deriveResident_proto hp credId []
  rw [List.append_nil] at hproto
  unfold usesStableKeys
  rw [hproto, deriveResident_length hp]
  rfl

theorem key_of_kept (hp : p.Laws) (hprivate : before.privateKey = none)
    (hcurve : (BitVec.ofInt 32 before.curve).toInt = before.curve) (h : KeyKept p before) (id : Data) :
    keySource (afterwards p t req before id) = keySource before := by
  have hafter : keySource (afterwards p t req before id) =
      .derived (BitVec.ofInt 32 before.curve).toInt (keyPath (keySeed (afterwards p t req before id))) := rfl
  have hsource : keySource before = .derived before.curve (keyPath (keySeed before)) := by
    unfold keySource
    rw [hprivate]
  rw [hafter, hsource, hcurve, keySeed_after]
  unfold KeyKept at h
  unfold keySeed residentIdAfter
  cases hres : before.residentId with
  | none =>
    rw [hres] at h
    rw [Option.getD_none, if_pos (usesStableKeys_derived hp before.id), h]
  | some residentId =>
    rw [hres] at h
    rw [Option.getD_some, if_pos h]
    dsimp only
    rw [if_pos h]

theorem keyPath_byte (seed : Data) : (keyPath seed).getD 4 0 = seed.getD 4 0 := rfl

theorem newId_byte (p : Platform) (t : Times) (a : Arguments) (b : BitVec 8) (rest : Data) :
    (p.newId t (b :: rest) a).getD 4 0 = b := rfl

theorem kept_of_key (hp : p.Laws) (hprivate : before.privateKey = none) (a : Arguments)
    (h : ∀ iv : Data, iv.length = credIvLen →
      keySource (afterwards p t req before (p.newId t iv a)) = keySource before) : KeyKept p before := by
  have hsource : keySource before = .derived before.curve (keyPath (keySeed before)) := by
    unfold keySource
    rw [hprivate]
  have hpath (iv : Data) (hiv : iv.length = credIvLen) :
      keyPath (keySeed (afterwards p t req before (p.newId t iv a))) = keyPath (keySeed before) := by
    have hiv' := h iv hiv
    rw [hsource] at hiv'
    exact (KeySource.derived.inj hiv').2
  unfold KeyKept
  cases hres : before.residentId with
  | none =>
    have hzero := hpath (List.replicate 12 0) rfl
    have hafter : residentIdAfter p before = p.deriveResident before.id := by
      unfold residentIdAfter
      rw [hres, Option.getD_none]
    have hbefore : keySeed before = before.id := by
      unfold keySeed
      rw [hres]
    rw [keySeed_after, hafter, if_pos (usesStableKeys_derived hp before.id), hbefore] at hzero
    exact hzero
  | some residentId =>
    dsimp only
    by_contra hunstable
    have hafter : residentIdAfter p before = residentId := by
      unfold residentIdAfter
      rw [hres, Option.getD_some]
    have hbefore : keySeed before = before.id := by
      unfold keySeed
      rw [hres]
      dsimp only
      rw [if_neg hunstable]
    -- the first random byte is part of the path, and can be another one than before
    have hother := hpath ((before.id.getD 4 0 + 1) :: List.replicate 11 0) rfl
    rw [keySeed_after, hafter, if_neg hunstable, hbefore] at hother
    have hbyte := congrArg (fun path => path.getD 4 0) hother
    rw [keyPath_byte, keyPath_byte, newId_byte] at hbyte
    have hnat : ((before.id.getD 4 0).toNat + 1) % 256 = (before.id.getD 4 0).toNat :=
      congrArg BitVec.toNat hbyte
    have hlt : (before.id.getD 4 0).toNat < 256 := (before.id.getD 4 0).isLt
    omega

end Compare

/-- An accepted request changes the names, and nothing else, whatever the random bytes are, exactly for
the credentials and names that are passed on. The AEAD is to refuse an id under another hash than the one
it was made for. -/
theorem update_names_only_iff (p : Platform) (hp : p.Laws) (e : Mgmt.Setting) (t : Times) (iv : Data)
    (req : Mgmt.Request) (i : SlotIndex) (s : SlotFile) (hash : Data) (before : Credential)
    (hsubject : Subject p e req i s hash before)
    (haccepted : (updateUserInformation (p.setting t iv e) req).1 = .done)
    (hcodec : p.Encodes t (Platform.arguments before req.userName req.userDisplayName))
    (hrefuse : p.sha256 (before.rpId.getD []) ≠ hash → ∃ iv : Data, iv.length = credIvLen ∧
      (Envelope.credentialVerify p.toPrimitives
        (p.newId t iv (Platform.arguments before req.userName req.userDisplayName)) hash false).ret ≠ 0) :
    (∀ iv : Data, iv.length = credIvLen →
      ∃ s', (updateUserInformation (p.setting t iv e) req).2.slots i = some s' ∧
        NamesOnly (p.device e.device) req hash s s' before) ↔ Meets p req hash s before := by
  obtain ⟨hlen, -⟩ := update_stores hsubject haccepted
  unfold Meets
  cases himported : imported s with
  | true =>
    rw [if_pos rfl]
    have hreload (iv : Data) := reload_imported himported hsubject.loads
      (p.newId t iv (Platform.arguments before req.userName req.userDisplayName))
    constructor
    · intro h
      obtain ⟨s', hslot, -, after, hafter, hupdated⟩ := h (List.replicate 12 0) rfl
      obtain ⟨s'', hs'', -, hloads, -⟩ := hreload (List.replicate 12 0)
      rw [update_slot hsubject haccepted hs''] at hslot
      rw [← Option.some.inj hslot, hloads] at hafter
      have heq := Except.ok.inj hafter
      rw [← heq] at hupdated
      exact ⟨hupdated.userName, hupdated.userDisplayName⟩
    · intro hnames iv _
      obtain ⟨s', hs', hstored, hloads, hprivate⟩ := hreload iv
      refine ⟨s', update_slot hsubject haccepted hs', hstored, _, hloads, ?_⟩
      refine ⟨hnames.1, hnames.2, rfl, rfl, rfl, rfl, rfl, rfl, rfl, rfl, rfl, rfl, Iff.rfl, ?_⟩
      obtain ⟨privateKey, hkey⟩ := Option.isSome_iff_exists.mp hprivate
      unfold keySource
      rw [hkey]
  | false =>
    rw [if_neg Bool.false_ne_true]
    have hreload (iv : Data) : ∃ s', residentUpdated (p.device e.device) s
          (p.newId t iv (Platform.arguments before req.userName req.userDisplayName)) = some s' ∧
        storedId (p.device e.device) s' = storedId (p.device e.device) s ∧
        loadResident (p.device e.device) s' hash =
          ((p.load (p.newId t iv (Platform.arguments before req.userName req.userDisplayName)) hash).elim
            (.error .invalidCredential) fun c => .ok { c with residentId := some (residentIdAfter p before) }) ∧
        ∃ oldId old, p.load oldId hash = some old ∧ before = { old with residentId := before.residentId } := by
      cases hmarker : s.marker with
      | true => exact reload_container hmarker himported hsubject.loads _
      | false => exact reload_legacy hp hmarker hsubject.hashed hsubject.loads _
    obtain ⟨-, -, -, -, oldId, old, hold, hbefore⟩ := hreload []
    have hparsed := (load_parsed hold).1
    have hprivate : before.privateKey = none := by
      rw [hbefore]
      exact hparsed.privateKey
    -- what is loaded afterwards, where the hash is the one that the id was made for
    have hafterwards (hhash : p.sha256 (before.rpId.getD []) = hash) (iv : Data) (hiv : iv.length = credIvLen) :
        ∃ s', residentUpdated (p.device e.device) s
            (p.newId t iv (Platform.arguments before req.userName req.userDisplayName)) = some s' ∧
          storedId (p.device e.device) s' = storedId (p.device e.device) s ∧
          loadResident (p.device e.device) s' hash = .ok (afterwards p t req before
            (p.newId t iv (Platform.arguments before req.userName req.userDisplayName))) := by
      obtain ⟨s', hs', hstored, hloads, -⟩ := hreload iv
      have hload := load_sealed hp hiv t (Platform.arguments before req.userName req.userDisplayName) hcodec hlen
      rw [show p.rpIdHash (Platform.arguments before req.userName req.userDisplayName) = hash from hhash] at hload
      rw [hload] at hloads
      exact ⟨s', hs', hstored, hloads⟩
    constructor
    · intro h
      have hhash : p.sha256 (before.rpId.getD []) = hash := by
        by_contra hother
        obtain ⟨iv, hiv, hret⟩ := hrefuse hother
        obtain ⟨s', hslot, -, after, hafter, -⟩ := h iv hiv
        obtain ⟨s'', hs'', -, hloads, -⟩ := hreload iv
        rw [update_slot hsubject haccepted hs''] at hslot
        rw [← Option.some.inj hslot, hloads, load_refused hp hiv t _ hcodec hret] at hafter
        cases hafter
      have hall (iv : Data) (hiv : iv.length = credIvLen) : Updated req before (afterwards p t req before
          (p.newId t iv (Platform.arguments before req.userName req.userDisplayName))) := by
        obtain ⟨s', hslot, -, after, hafter, hupdated⟩ := h iv hiv
        obtain ⟨s'', hs'', -, hloads⟩ := hafterwards hhash iv hiv
        rw [update_slot hsubject haccepted hs''] at hslot
        rw [← Option.some.inj hslot, hloads] at hafter
        rwa [← Except.ok.inj hafter] at hupdated
      obtain ⟨hname, hdisplay, hrp, hblob, halg, hcurve, hcount, -⟩ :=
        (updated_iff hparsed hbefore).mp (hall (List.replicate 12 0) rfl)
      have hkey : KeyKept p before := kept_of_key hp hprivate _ fun iv hiv => (hall iv hiv).key
      exact ⟨hname, hdisplay, hrp, hhash, hblob, halg, hcurve, hcount, hkey⟩
    · intro h iv hiv
      obtain ⟨s', hs', hstored, hloads⟩ := hafterwards h.rpIdHash iv hiv
      refine ⟨s', update_slot hsubject haccepted hs', hstored, _, hloads, (updated_iff hparsed hbefore).mpr ?_⟩
      exact ⟨h.userName, h.userDisplayName, h.rpId, h.credBlob, h.alg, h.curve, h.useSignCount,
        key_of_kept hp hprivate h.curve h.key _⟩

/-! A credential with other names. -/

/-- The head of a CBOR item. -/
def cborHead (major n : Nat) : Data :=
  if n < 24 then [BitVec.ofNat 8 (major * 32 + n)]
  else if n < 256 then [BitVec.ofNat 8 (major * 32 + 24), BitVec.ofNat 8 n]
  else [BitVec.ofNat 8 (major * 32 + 25), BitVec.ofNat 8 (n / 256), BitVec.ofNat 8 n]

def cborLeaf : Leaf → Data
  | .uint n => cborHead 0 n.toNat
  | .negative n => cborHead 1 n.toNat
  | .bytes b => cborHead 2 b.length ++ b
  | .text s => cborHead 3 s.length ++ s
  | .bool b => if b then [0xf5] else [0xf4]
  | .other => [0xf6]

def cborValue : Value → Data
  | .leaf l => cborLeaf l
  | .map entries => 0xbf :: (entries.flatMap fun x => cborLeaf x.1 ++ cborLeaf x.2) ++ [0xff]

def cborMap (m : CborMap) : Data := 0xbf :: (m.flatMap fun x => cborLeaf x.1 ++ cborValue x.2) ++ [0xff]

/-- A relying party, one user and the flag use_sign_count as given. -/
def sampleArguments (name : String) (useSignCount : Bool) : Arguments where
  cred :=
    { rpId := some (ascii "a.org")
      userId := some [7]
      extensionsPresent := true
      credProtect := 2
      optsPresent := true
      rk := some true }
  name := some (ascii name)
  displayName := none
  useSignCount := useSignCount
  alg := BitVec.ofInt 32 (-7)
  curve := 1

def sampleTimes : Times := ⟨1000, none⟩

/-- Two maps, and all else unreadable. -/
def decodePair (first second : CborMap) (b : Data) : Option CborMap :=
  [first, second].find? fun m => b.take (cborMap m).length = cborMap m

theorem decodePair_first (first second : CborMap) (rest : Data) :
    decodePair first second (cborMap first ++ rest) = some first := by
  unfold decodePair
  rw [List.find?_cons, List.take_left, decide_eq_true rfl]

theorem decodePair_second {first second : CborMap} (hlength : (cborMap first).length = (cborMap second).length)
    (hne : cborMap second ≠ cborMap first) (rest : Data) :
    decodePair first second (cborMap second ++ rest) = some second := by
  unfold decodePair
  rw [List.find?_cons, hlength, List.take_left, decide_eq_false hne, List.find?_cons, List.take_left,
    decide_eq_true rfl]

/-- The cipher leaves the text as it is. -/
def samplePlatform (useSignCount : Bool) : Platform where
  deriveChachaKey := id
  authDecrypt := fun call => (0, call.buffer)
  silentTag := fun _ _ => List.replicate 16 0
  verifyKey := fun _ _ => -1
  sha256 := fun _ => List.replicate 32 0
  encryptAndTag := fun _ _ _ plain => (plain, List.replicate 16 0)
  hmac := fun _ _ => List.replicate 32 0
  serial := []
  encode := cborMap
  decode := decodePair (payload sampleTimes (List.replicate 32 0) (sampleArguments "old" useSignCount))
    (payload sampleTimes (List.replicate 32 0) (sampleArguments "new" true))

theorem samplePlatform_laws (useSignCount : Bool) : (samplePlatform useSignCount).Laws where
  cipher_length _ _ _ _ := rfl
  tag_length _ _ _ _ := rfl
  decrypts _ _ _ _ _ _ _ _ := rfl
  silentTag_length _ _ := le_refl _
  sha256_length _ := rfl
  hmac_length _ _ := rfl

def sampleResidentId : Data := (samplePlatform true).deriveResident []

def sampleOldId (useSignCount : Bool) : Data :=
  (samplePlatform useSignCount).newId sampleTimes (List.replicate 12 1) (sampleArguments "old" useSignCount)

/-- A file of the old format, with a resident id that has stable keys. -/
def sampleFile (useSignCount : Bool) : SlotFile where
  marker := false
  data := List.replicate 32 0 ++ sampleResidentId ++ sampleOldId useSignCount
  objects := ⟨.error .fileNotFound, .error .fileNotFound, .error .fileNotFound, .error .fileNotFound,
    .error .fileNotFound, .error .fileNotFound, .error .fileNotFound⟩

def sampleSetting (useSignCount : Bool) : Mgmt.Setting where
  device := ⟨fun _ _ => none, fun _ => none, id, fun _ _ => none, none⟩
  storage := ⟨fun i => if i.val = 0 then some (sampleFile useSignCount) else none, fun _ => none⟩
  paut := ⟨[], 0x04, false, []⟩
  ppaut := ⟨[], 0⟩
  cid := 0
  verify := fun _ _ _ _ => true

def sampleRequest : Mgmt.Request where
  channel := 0
  subcommand := 0x07
  credentialId := some sampleResidentId
  userId := some [7]
  userName := some (ascii "new")
  pinUvAuthProtocol := some 1
  pinUvAuthParam := some []

def sampleBefore (useSignCount : Bool) : Credential :=
  { recreated sampleTimes (sampleArguments "old" useSignCount) with
    id := sampleOldId useSignCount
    residentId := some sampleResidentId }

theorem sample_plain (useSignCount : Bool) (a : Arguments) :
    (samplePlatform useSignCount).plain sampleTimes a =
      cborMap (payload sampleTimes (List.replicate 32 0) a) := rfl

theorem sample_rpIdHash (useSignCount : Bool) (a : Arguments) :
    (samplePlatform useSignCount).rpIdHash a = List.replicate 32 0 := rfl

theorem sample_decode (useSignCount : Bool) :
    (samplePlatform useSignCount).decode =
      decodePair (payload sampleTimes (List.replicate 32 0) (sampleArguments "old" useSignCount))
        (payload sampleTimes (List.replicate 32 0) (sampleArguments "new" true)) := rfl

theorem sample_encodes_old (useSignCount : Bool) :
    (samplePlatform useSignCount).Encodes sampleTimes (sampleArguments "old" useSignCount) := by
  have hlong : 32 ≤ (cborMap (payload sampleTimes (List.replicate 32 0)
      (sampleArguments "old" useSignCount))).length := by
    cases useSignCount <;> decide +kernel
  constructor
  · intro rest
    rw [sample_plain, sample_rpIdHash, sample_decode, decodePair_first]
  · rw [sample_plain, sample_rpIdHash]
    exact hlong

theorem sample_encodes_new (useSignCount : Bool) :
    (samplePlatform useSignCount).Encodes sampleTimes
      (Platform.arguments (sampleBefore useSignCount) sampleRequest.userName sampleRequest.userDisplayName) := by
  have hpayload : payload sampleTimes (List.replicate 32 0) (Platform.arguments (sampleBefore useSignCount)
      sampleRequest.userName sampleRequest.userDisplayName) =
        payload sampleTimes (List.replicate 32 0) (sampleArguments "new" true) := by
    cases useSignCount <;> decide +kernel
  have hne : cborMap (payload sampleTimes (List.replicate 32 0) (sampleArguments "new" true)) ≠
      cborMap (payload sampleTimes (List.replicate 32 0) (sampleArguments "old" useSignCount)) := by
    cases useSignCount <;> decide +kernel
  have hlength : (cborMap (payload sampleTimes (List.replicate 32 0) (sampleArguments "old" useSignCount))).length =
      (cborMap (payload sampleTimes (List.replicate 32 0) (sampleArguments "new" true))).length := by
    cases useSignCount <;> decide +kernel
  have hlong : 32 ≤ (cborMap (payload sampleTimes (List.replicate 32 0) (sampleArguments "new" true))).length := by
    decide +kernel
  constructor
  · intro rest
    rw [sample_plain, sample_rpIdHash, hpayload, sample_decode, decodePair_second hlength hne]
  · rw [sample_plain, sample_rpIdHash, hpayload]
    exact hlong

theorem sample_subject (useSignCount : Bool) :
    Subject (samplePlatform useSignCount) (sampleSetting useSignCount) sampleRequest 0 (sampleFile useSignCount)
      (List.replicate 32 0) (sampleBefore useSignCount) := by
  have hload : (samplePlatform useSignCount).load (sampleOldId useSignCount) (List.replicate 32 0) =
      some { recreated sampleTimes (sampleArguments "old" useSignCount) with id := sampleOldId useSignCount } := by
    apply load_sealed (samplePlatform_laws useSignCount) rfl sampleTimes (sampleArguments "old" useSignCount)
      (sample_encodes_old useSignCount)
    cases useSignCount <;> decide +kernel
  have hres : isResident (sampleResidentId ++ sampleOldId useSignCount) = true := by
    cases useSignCount <;> decide +kernel
  have hhash : (List.replicate 32 (0 : BitVec 8)).length = rpIdHashLen := rfl
  obtain ⟨hreads, hstored⟩ := legacyFile_reads (p := samplePlatform useSignCount)
    (d := (sampleSetting useSignCount).device) (s := sampleFile useSignCount) rfl hhash (by decide +kernel) hres
  refine ⟨⟨sampleResidentId, rfl, ?_⟩, ?_, ?_⟩
  · have hmatch : matchesId ((samplePlatform useSignCount).device (sampleSetting useSignCount).device)
        (sampleFile useSignCount) sampleResidentId = true := by
      unfold matchesId
      rw [show storedId _ (sampleFile useSignCount) = some sampleResidentId from hstored]
      decide +kernel
    have hrange : List.finRange 256 = 0 :: (List.finRange 255).map Fin.succ := List.finRange_succ
    unfold findById
    rw [hrange, List.findSome?_cons]
    have hslot : (sampleSetting useSignCount).storage.slots 0 = some (sampleFile useSignCount) := rfl
    rw [hslot, Option.bind_some, if_pos hmatch]
  · have hdata : (sampleFile useSignCount).data =
        List.replicate 32 0 ++ (sampleResidentId ++ sampleOldId useSignCount) := List.append_assoc ..
    have hlong : ¬ (sampleFile useSignCount).data.length < rpIdHashLen := by
      rw [hdata, List.length_append, List.length_replicate]
      show ¬ 32 + _ < 32
      omega
    unfold residentRpIdHash
    rw [if_neg (show ¬ (sampleFile useSignCount).marker = true from Bool.false_ne_true), if_neg hlong, hdata]
    exact congrArg Except.ok (List.take_left' rfl)
  · rw [show loadResident _ (sampleFile useSignCount) _ = _ from hreads, hload]
    rfl

theorem sample_accepted (useSignCount : Bool) :
    (updateUserInformation ((samplePlatform useSignCount).setting sampleTimes (List.replicate 12 3)
      (sampleSetting useSignCount)) sampleRequest).1 = .done := by
  cases useSignCount <;> decide +kernel

/-- With use_sign_count set, everything is passed on. -/
theorem update_names_only_sample :
    Meets (samplePlatform true) sampleRequest (List.replicate 32 0) (sampleFile true) (sampleBefore true) ∧
    ∀ iv : Data, iv.length = credIvLen →
      ∃ s', (updateUserInformation ((samplePlatform true).setting sampleTimes iv (sampleSetting true))
          sampleRequest).2.slots 0 = some s' ∧
        NamesOnly ((samplePlatform true).device (sampleSetting true).device) sampleRequest
          (List.replicate 32 0) (sampleFile true) s' (sampleBefore true) := by
  have hmeets : Meets (samplePlatform true) sampleRequest (List.replicate 32 0) (sampleFile true)
      (sampleBefore true) := by
    unfold Meets
    rw [if_neg (show ¬ imported (sampleFile true) = true from Bool.false_ne_true)]
    refine ⟨by decide +kernel, by decide +kernel, by decide +kernel, rfl, ?_, by decide +kernel,
      by decide +kernel, by decide +kernel, ?_⟩
    · intro b hb
      cases hb
    · show usesStableKeys sampleResidentId = true
      decide +kernel
  refine ⟨hmeets, (update_names_only_iff (samplePlatform true) (samplePlatform_laws true) (sampleSetting true)
    sampleTimes (List.replicate 12 3) sampleRequest 0 (sampleFile true) (List.replicate 32 0)
    (sampleBefore true) (sample_subject true) (sample_accepted true) (sample_encodes_new true) ?_).mpr hmeets⟩
  intro hother
  exact absurd rfl hother

/-- A credential without a signature counter, as makeCredential stores it for the known applications that
want none, has one once its user is renamed. -/
theorem update_sets_sign_count :
    (updateUserInformation ((samplePlatform false).setting sampleTimes (List.replicate 12 3)
      (sampleSetting false)) sampleRequest).1 = .done ∧
    Subject (samplePlatform false) (sampleSetting false) sampleRequest 0 (sampleFile false)
      (List.replicate 32 0) (sampleBefore false) ∧
    ¬ ∃ s', (updateUserInformation ((samplePlatform false).setting sampleTimes (List.replicate 12 3)
          (sampleSetting false)) sampleRequest).2.slots 0 = some s' ∧
        NamesOnly ((samplePlatform false).device (sampleSetting false).device) sampleRequest
          (List.replicate 32 0) (sampleFile false) s' (sampleBefore false) := by
  refine ⟨sample_accepted false, sample_subject false, ?_⟩
  rintro ⟨s', hslot, -, after, hafter, hupdated⟩
  have hcount : (((updateUserInformation ((samplePlatform false).setting sampleTimes (List.replicate 12 3)
      (sampleSetting false)) sampleRequest).2.slots 0).bind fun s =>
        (loadResident ((samplePlatform false).device (sampleSetting false).device) s
          (List.replicate 32 0)).toOption.bind Credential.useSignCount) = some true := by
    decide +kernel
  rw [hslot, Option.bind_some, hafter] at hcount
  have hbefore : (sampleBefore false).useSignCount = some true := hupdated.useSignCount.mp hcount
  exact absurd hbefore (by decide +kernel)

end KeyWallet.Cred.Update
