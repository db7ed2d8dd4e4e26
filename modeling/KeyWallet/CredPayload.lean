import KeyWallet.CredEnvelope
import KeyWallet.ResidentSlots

/-! The map inside a credential id: what credential_create writes, and what credential_load and
credential_parse_metadata read of it. The bytes of CBOR and the ciphers are parameters. -/
namespace KeyWallet.Cred.Payload

/-- A CBOR value without entries of its own, or one that is only stepped over. -/
inductive Leaf
  | uint (n : BitVec 64)
  -- the number -1 - n
  | negative (n : BitVec 64)
  | bytes (b : Data)
  | text (s : Data)
  | bool (b : Bool)
  | other
  deriving DecidableEq, Repr

inductive Value
  | leaf (l : Leaf)
  | map (entries : List (Leaf × Leaf))
  deriving DecidableEq, Repr

abbrev CborMap := List (Leaf × Value)

def Leaf.uint? : Leaf → Option (BitVec 64)
  | .uint n => some n
  | _ => none

/-- CBOR_FIELD_GET_INT. -/
def Leaf.int? : Leaf → Option Int
  | .uint n => some n.toInt
  | .negative n => some (~~~ n).toInt
  | _ => none

def Leaf.bytes? : Leaf → Option Data
  | .bytes b => some b
  | _ => none

def Leaf.text? : Leaf → Option Data
  | .text s => some s
  | _ => none

def Leaf.bool? : Leaf → Option Bool
  | .bool b => some b
  | _ => none

def Value.leaf? : Value → Option Leaf
  | .leaf l => some l
  | .map _ => none

def Value.map? : Value → Option (List (Leaf × Leaf))
  | .map entries => some entries
  | .leaf _ => none

/-- cbor_encode_int. -/
def intLeaf (i : Int) : Leaf :=
  if 0 ≤ i then .uint (BitVec.ofInt 64 i) else .negative (~~~ BitVec.ofInt 64 i)

def ascii (s : String) : Data := s.toList.map fun c => BitVec.ofNat 8 c.toNat

/-- A text up to its first NUL, as strlen and strcmp take it. -/
def cstr (s : Data) : Data := s.takeWhile (· ≠ 0)

def maxCredBlobLength : Nat := 128

/-- FIDO2_ALG_ES256. -/
def algEs256 : Int := -7

/-- FIDO2_CURVE_P256. -/
def curveP256 : Int := 1

/-! Reading. -/

section Reading

variable (c : Credential)

/-- An entry of the map of extensions. The key is copied to a buffer of 64 bytes. -/
def readExtension : Leaf × Leaf → Option Credential
  | (.text key, v) =>
    if 64 < key.length then none
    else if cstr key = ascii "hmac-secret" then v.bool?.map fun b => { c with hmacSecret := some b }
    else if cstr key = ascii "credProtect" then v.uint?.map fun n => { c with credProtect := n.toNat }
    else if cstr key = ascii "credBlob" then v.bytes?.map fun b => { c with credBlob := some b }
    else if cstr key = ascii "largeBlobKey" then v.bool?.map fun b => { c with largeBlobKey := b }
    else if cstr key = ascii "thirdPartyPayment" then
      v.bool?.map fun b => { c with thirdPartyPayment := b }
    else some c
  | _ => none

/-- An entry of the map of options. -/
def readOption : Leaf × Leaf → Option Credential
  | (.text key, v) =>
    if 64 < key.length then none
    else if cstr key = ascii "rk" then v.bool?.map fun b => { c with rk := some b }
    else some c
  | _ => none

/-- An entry of the map, in credential_load. -/
def readField (key : BitVec 64) (v : Value) : Option Credential :=
  match key.toNat with
  | 0x01 => (v.leaf?.bind Leaf.text?).map fun s => { c with rpId := some s }
  | 0x03 => (v.leaf?.bind Leaf.bytes?).map fun b => { c with userId := some b }
  | 0x04 => (v.leaf?.bind Leaf.text?).map fun s => { c with userName := some s }
  | 0x05 => (v.leaf?.bind Leaf.text?).map fun s => { c with userDisplayName := some s }
  | 0x06 => (v.leaf?.bind Leaf.uint?).map fun n => { c with boardCreation := n.toNat }
  | 0x07 => v.map?.bind (List.foldlM readExtension { c with extensionsPresent := true })
  | 0x08 => (v.leaf?.bind Leaf.bool?).map fun b => { c with useSignCount := some b }
  | 0x09 => (v.leaf?.bind Leaf.int?).map fun i => { c with alg := i }
  | 0x0A => (v.leaf?.bind Leaf.int?).map fun i => { c with curve := i }
  | 0x0B => v.map?.bind (List.foldlM readOption { c with optsPresent := true })
  -- rtc_creation, which nothing reads
  | 0x0C => (v.leaf?.bind Leaf.uint?).map fun _ => c
  | _ => some c

/-- The keys are unsigned numbers. -/
def readEntry : Leaf × Value → Option Credential
  | (.uint key, v) => readField c key v
  | _ => none

/-- An entry in credential_parse_metadata, which also takes the hash of the RP ID. `seen` are the keys
from 1 to 13 so far, of which none may come twice. -/
def readMetadataEntry : List Nat × Credential → Leaf × Value → Option (List Nat × Credential)
  | (seen, c), (.uint key, v) =>
    if key.toNat ∈ seen then none
    else
      let seen := if 1 ≤ key.toNat ∧ key.toNat ≤ 13 then key.toNat :: seen else seen
      if key.toNat = 0x02 then (v.leaf?.bind Leaf.bytes?).map fun _ => (seen, c)
      else (readField c key v).map (seen, ·)
  | _, _ => none

end Reading

/-- The fields before the first entry is read. -/
def blank : Credential := { alg := algEs256, curve := curveP256 }

/-- The entries of the map, in credential_load. -/
def fields (m : CborMap) : Option Credential := m.foldlM readEntry blank

def metadataFields (m : CborMap) : Option Credential :=
  (m.foldlM readMetadataEntry ([], blank)).map Prod.snd

/-! Writing. -/

/-- CBOR_APPEND_KEY_UINT_VAL_STRING. -/
def textField (key : BitVec 64) (s : Option Data) : CborMap :=
  if s.getD [] = [] then [] else [(.uint key, .leaf (.text (cstr (s.getD []))))]

/-- CBOR_APPEND_KEY_UINT_VAL_BYTES. -/
def bytesField (key : BitVec 64) (b : Option Data) : CborMap :=
  if b.getD [] = [] then [] else [(.uint key, .leaf (.bytes (b.getD [])))]

def extension (name : String) (v : Leaf) : Leaf × Leaf := (.text (ascii name), v)

/-- The map of extensions in credential_create. -/
def extensionEntries (c : Credential) : List (Leaf × Leaf) :=
  ((c.credBlob.filter fun b => b.length < maxCredBlobLength).toList.map fun b =>
    extension "credBlob" (.bytes b)) ++
  (if c.credProtect ≠ 0 then [extension "credProtect" (.uint (BitVec.ofNat 64 c.credProtect))] else []) ++
  (c.hmacSecret.toList.map fun b => extension "hmac-secret" (.bool b)) ++
  (if c.largeBlobKey then [extension "largeBlobKey" (.bool true)] else []) ++
  (if c.thirdPartyPayment then [extension "thirdPartyPayment" (.bool true)] else [])

def optionEntries (c : Credential) : List (Leaf × Leaf) :=
  c.rk.toList.map fun b => extension "rk" (.bool b)

/-- What board_millis, and the clock once it is set, show. -/
structure Times where
  millis : BitVec 64
  rtc : Option (BitVec 64)
  deriving DecidableEq, Repr

/-- The arguments of credential_create; the extensions and options are those of `cred`, and the numbers
are of type int. -/
structure Arguments where
  cred : Credential
  name : Option Data
  displayName : Option Data
  useSignCount : Bool
  alg : BitVec 32
  curve : BitVec 32

/-- The map that credential_create writes. -/
def payload (t : Times) (rpIdHash : Data) (a : Arguments) : CborMap :=
  textField 0x01 a.cred.rpId ++
  ([(.uint 0x02, .leaf (.bytes rpIdHash))] : List (Leaf × Value)) ++
  bytesField 0x03 a.cred.userId ++
  textField 0x04 a.name ++
  textField 0x05 a.displayName ++
  ([(.uint 0x06, .leaf (.uint t.millis))] : List (Leaf × Value)) ++
  (if a.cred.extensionsPresent then [(.uint 0x07, .map (extensionEntries a.cred))] else [] : List (Leaf × Value)) ++
  ([(.uint 0x08, .leaf (.bool a.useSignCount))] : List (Leaf × Value)) ++
  (if a.alg.toInt ≠ algEs256 ∨ a.curve.toInt ≠ curveP256 then
    [(.uint 0x09, .leaf (intLeaf a.alg.toInt)), (.uint 0x0A, .leaf (intLeaf a.curve.toInt))]
  else [] : List (Leaf × Value)) ++
  (if a.cred.optsPresent then [(.uint 0x0B, .map (optionEntries a.cred))] else [] : List (Leaf × Value)) ++
  (t.rtc.toList.map fun now => (.uint 0x0C, .leaf (.uint now)) : List (Leaf × Value))

/-! What is read of it. -/

/-- A text that was appended, as it is read back. -/
def written (s : Option Data) : Option Data := if s.getD [] = [] then none else some (cstr (s.getD []))

def writtenBytes (b : Option Data) : Option Data := if b.getD [] = [] then none else some (b.getD [])

/-- The credential that credential_load makes of the arguments. -/
def recreated (t : Times) (a : Arguments) : Credential where
  rpId := written a.cred.rpId
  userId := writtenBytes a.cred.userId
  userName := written a.name
  userDisplayName := written a.displayName
  boardCreation := t.millis.toNat
  extensionsPresent := a.cred.extensionsPresent
  credBlob := if a.cred.extensionsPresent then
    a.cred.credBlob.filter fun b => b.length < maxCredBlobLength else none
  credProtect := if a.cred.extensionsPresent then a.cred.credProtect % 18446744073709551616 else 0
  hmacSecret := if a.cred.extensionsPresent then a.cred.hmacSecret else none
  largeBlobKey := if a.cred.extensionsPresent then a.cred.largeBlobKey else false
  thirdPartyPayment := if a.cred.extensionsPresent then a.cred.thirdPartyPayment else false
  useSignCount := some a.useSignCount
  alg := a.alg.toInt
  curve := a.curve.toInt
  optsPresent := a.cred.optsPresent
  rk := if a.cred.optsPresent then a.cred.rk else none

section RoundTrip

variable {c : Credential}

theorem readInt_intLeaf (b : BitVec 32) : (intLeaf b.toInt).int? = some b.toInt := by
  have hlo := BitVec.le_toInt b
  have hhi := BitVec.toInt_lt (x := b)
  have hback : (BitVec.ofInt 64 b.toInt).toInt = b.toInt := by
    rw [BitVec.toInt_ofInt]
    apply Int.bmod_eq_of_le <;> omega
  unfold intLeaf
  split_ifs
  · show some (BitVec.ofInt 64 b.toInt).toInt = _
    rw [hback]
  · show some (~~~ (~~~ BitVec.ofInt 64 b.toInt)).toInt = _
    rw [BitVec.not_not, hback]

theorem foldlM_toList {α ε : Type} {f : Credential → ε → Option Credential} {entry : α → ε}
    (put : Option α → Credential) (hread : ∀ x, f c (entry x) = some (put (some x)))
    (hnone : put none = c) (x : Option α) : (x.toList.map entry).foldlM f c = some (put x) := by
  cases x with
  | none =>
    rw [hnone]
    rfl
  | some x =>
    show (f c (entry x)).bind _ = _
    rw [hread]
    rfl

theorem foldlM_ite {ε : Type} {f : Credential → ε → Option Credential} {entry : ε} {c' : Credential}
    {p : Prop} [Decidable p] (hread : f c entry = some c') :
    (if p then [entry] else []).foldlM f c = some (if p then c' else c) := by
  by_cases hp : p
  · rw [if_pos hp, if_pos hp]
    show (f c entry).bind _ = _
    rw [hread]
    rfl
  · rw [if_neg hp, if_neg hp]
    rfl

theorem foldlM_parts {ε : Type} {f : Credential → ε → Option Credential} {xs ys : List ε}
    {mid last : Credential} (hx : xs.foldlM f c = some mid) (hy : ys.foldlM f mid = some last) :
    (xs ++ ys).foldlM f c = some last := by
  rw [List.foldlM_append, hx]
  exact hy

theorem textField_eq (key : BitVec 64) (s : Option Data) :
    textField key s = (written s).toList.map fun s => (.uint key, .leaf (.text s)) := by
  unfold textField written
  split_ifs <;> rfl

theorem bytesField_eq (key : BitVec 64) (b : Option Data) :
    bytesField key b = (writtenBytes b).toList.map fun b => (.uint key, .leaf (.bytes b)) := by
  unfold bytesField writtenBytes
  split_ifs <;> rfl

theorem foldlM_extensionEntries (a : Credential) (hblob : c.credBlob = none) (hprotect : c.credProtect = 0)
    (hhmac : c.hmacSecret = none) (hlarge : c.largeBlobKey = false) (hpayment : c.thirdPartyPayment = false) :
    (extensionEntries a).foldlM readExtension c = some { c with
      credBlob := a.credBlob.filter fun b => b.length < maxCredBlobLength
      credProtect := a.credProtect % 18446744073709551616
      hmacSecret := a.hmacSecret
      largeBlobKey := a.largeBlobKey
      thirdPartyPayment := a.thirdPartyPayment } := by
  -- one part of the list at a time, each leaving the fields of the others alone
  have hblobs (b : Option Data) :
      (b.toList.map fun b => extension "credBlob" (.bytes b)).foldlM readExtension c =
        some { c with credBlob := b } := by
    apply foldlM_toList (fun b => { c with credBlob := b }) (fun _ => rfl)
    rw [← hblob]
  have hprotects (c : Credential) (h : c.credProtect = 0) (n : Nat) :
      (if n ≠ 0 then [extension "credProtect" (.uint (BitVec.ofNat 64 n))] else []).foldlM readExtension c =
        some { c with credProtect := n % 18446744073709551616 } := by
    have hread : readExtension c (extension "credProtect" (.uint (BitVec.ofNat 64 n))) =
        some { c with credProtect := n % 18446744073709551616 } := rfl
    rw [foldlM_ite hread]
    by_cases hn : n = 0
    · subst hn
      rw [if_neg (by omega), Nat.zero_mod, ← h]
    · rw [if_pos hn]
  have hhmacs (c : Credential) (h : c.hmacSecret = none) (b : Option Bool) :
      (b.toList.map fun b => extension "hmac-secret" (.bool b)).foldlM readExtension c =
        some { c with hmacSecret := b } := by
    apply foldlM_toList (fun b => { c with hmacSecret := b }) (fun _ => rfl)
    rw [← h]
  have hlarges (c : Credential) (h : c.largeBlobKey = false) (b : Bool) :
      (if b then [extension "largeBlobKey" (.bool true)] else []).foldlM readExtension c =
        some { c with largeBlobKey := b } := by
    have hread : readExtension c (extension "largeBlobKey" (.bool true)) =
        some { c with largeBlobKey := true } := rfl
    rw [foldlM_ite hread]
    cases b with
    | false => rw [if_neg Bool.false_ne_true, ← h]
    | true => rw [if_pos rfl]
  have hpayments (c : Credential) (h : c.thirdPartyPayment = false) (b : Bool) :
      (if b then [extension "thirdPartyPayment" (.bool true)] else []).foldlM readExtension c =
        some { c with thirdPartyPayment := b } := by
    have hread : readExtension c (extension "thirdPartyPayment" (.bool true)) =
        some { c with thirdPartyPayment := true } := rfl
    rw [foldlM_ite hread]
    cases b with
    | false => rw [if_neg Bool.false_ne_true, ← h]
    | true => rw [if_pos rfl]
  let c1 : Credential :=
    { c with credBlob := a.credBlob.filter fun b => b.length < maxCredBlobLength }
  let c2 : Credential := { c1 with credProtect := a.credProtect % 18446744073709551616 }
  let c3 : Credential := { c2 with hmacSecret := a.hmacSecret }
  let c4 : Credential := { c3 with largeBlobKey := a.largeBlobKey }
  have h1 := hblobs (a.credBlob.filter fun b => b.length < maxCredBlobLength)
  have h2 := foldlM_parts h1 (hprotects c1 hprotect a.credProtect)
  have h3 := foldlM_parts h2 (hhmacs c2 hhmac a.hmacSecret)
  have h4 := foldlM_parts h3 (hlarges c3 hlarge a.largeBlobKey)
  exact foldlM_parts h4 (hpayments c4 hpayment a.thirdPartyPayment)

theorem foldlM_optionEntries (a : Credential) (h : c.rk = none) :
    (optionEntries a).foldlM readOption c = some { c with rk := a.rk } := by
  apply foldlM_toList (fun b => { c with rk := b }) (fun _ => rfl)
  rw [← h]

theorem foldlM_extensions (a : Credential) (hpresent : c.extensionsPresent = false)
    (hblob : c.credBlob = none) (hprotect : c.credProtect = 0) (hhmac : c.hmacSecret = none)
    (hlarge : c.largeBlobKey = false) (hpayment : c.thirdPartyPayment = false) :
    (if a.extensionsPresent then [(Leaf.uint 0x07, Value.map (extensionEntries a))] else []).foldlM
      readEntry c = some { c with
        extensionsPresent := a.extensionsPresent
        credBlob := if a.extensionsPresent then
          a.credBlob.filter fun b => b.length < maxCredBlobLength else none
        credProtect := if a.extensionsPresent then a.credProtect % 18446744073709551616 else 0
        hmacSecret := if a.extensionsPresent then a.hmacSecret else none
        largeBlobKey := if a.extensionsPresent then a.largeBlobKey else false
        thirdPartyPayment := if a.extensionsPresent then a.thirdPartyPayment else false } := by
  have hread : readEntry c (.uint 0x07, .map (extensionEntries a)) =
      (extensionEntries a).foldlM readExtension { c with extensionsPresent := true } := rfl
  rw [foldlM_ite (hread.trans (foldlM_extensionEntries a hblob hprotect hhmac hlarge hpayment))]
  cases a.extensionsPresent with
  | false =>
    simp only [Bool.false_eq_true, if_false]
    cases c
    dsimp only at hpresent hblob hprotect hhmac hlarge hpayment
    subst hpresent hblob hprotect hhmac hlarge hpayment
    rfl
  | true => simp only [if_true]

theorem foldlM_numbers (a : Arguments) (halg : c.alg = algEs256) (hcurve : c.curve = curveP256) :
    (if a.alg.toInt ≠ algEs256 ∨ a.curve.toInt ≠ curveP256 then
      [(Leaf.uint 0x09, Value.leaf (intLeaf a.alg.toInt)), (.uint 0x0A, .leaf (intLeaf a.curve.toInt))]
      else []).foldlM readEntry c = some { c with alg := a.alg.toInt, curve := a.curve.toInt } := by
  by_cases hdefault : a.alg.toInt ≠ algEs256 ∨ a.curve.toInt ≠ curveP256
  · rw [if_pos hdefault, List.foldlM_cons]
    show (((intLeaf a.alg.toInt).int?.map fun i => { c with alg := i }).bind fun c =>
      [(Leaf.uint 0x0A, Value.leaf (intLeaf a.curve.toInt))].foldlM readEntry c) = _
    rw [readInt_intLeaf, Option.map_some, Option.bind_some, List.foldlM_cons]
    show (((intLeaf a.curve.toInt).int?.map fun i => { c with alg := a.alg.toInt, curve := i }).bind some) = _
    rw [readInt_intLeaf]
    rfl
  · rw [if_neg hdefault]
    have heq : a.alg.toInt = algEs256 ∧ a.curve.toInt = curveP256 := by
      constructor
      · exact not_not.mp fun h => hdefault (.inl h)
      · exact not_not.mp fun h => hdefault (.inr h)
    rw [heq.1, heq.2, ← halg, ← hcurve]
    rfl

theorem foldlM_options (a : Credential) (hpresent : c.optsPresent = false) (hrk : c.rk = none) :
    (if a.optsPresent then [(Leaf.uint 0x0B, Value.map (optionEntries a))] else []).foldlM
      readEntry c = some { c with
        optsPresent := a.optsPresent, rk := if a.optsPresent then a.rk else none } := by
  have hread : readEntry c (.uint 0x0B, .map (optionEntries a)) =
      (optionEntries a).foldlM readOption { c with optsPresent := true } := rfl
  rw [foldlM_ite (hread.trans (foldlM_optionEntries a hrk))]
  cases a.optsPresent with
  | false => rw [if_neg Bool.false_ne_true, if_neg Bool.false_ne_true, ← hpresent, ← hrk]
  | true => rw [if_pos rfl, if_pos rfl]

/-- credential_load reads what credential_create wrote. -/
theorem fields_payload (t : Times) (hash : Data) (a : Arguments) :
    fields (payload t hash a) = some (recreated t a) := by
  -- the credential after each entry, by the key of the entry
  let c1 : Credential := { blank with rpId := written a.cred.rpId }
  let c3 : Credential := { c1 with userId := writtenBytes a.cred.userId }
  let c4 : Credential := { c3 with userName := written a.name }
  let c5 : Credential := { c4 with userDisplayName := written a.displayName }
  let c6 : Credential := { c5 with boardCreation := t.millis.toNat }
  let c7 : Credential := { recreated t a with
    useSignCount := none, alg := algEs256, curve := curveP256, optsPresent := false, rk := none }
  let c8 : Credential := { c7 with useSignCount := some a.useSignCount }
  let c10 : Credential := { c8 with alg := a.alg.toInt, curve := a.curve.toInt }
  have h1 : (textField 0x01 a.cred.rpId).foldlM readEntry blank = some c1 := by
    rw [textField_eq]
    exact foldlM_toList (fun s => { blank with rpId := s }) (fun _ => rfl) rfl _
  have h2 : [(Leaf.uint 0x02, Value.leaf (.bytes hash))].foldlM readEntry c1 = some c1 := rfl
  have h3 : (bytesField 0x03 a.cred.userId).foldlM readEntry c1 = some c3 := by
    rw [bytesField_eq]
    exact foldlM_toList (fun b => { c1 with userId := b }) (fun _ => rfl) rfl _
  have h4 : (textField 0x04 a.name).foldlM readEntry c3 = some c4 := by
    rw [textField_eq]
    exact foldlM_toList (fun s => { c3 with userName := s }) (fun _ => rfl) rfl _
  have h5 : (textField 0x05 a.displayName).foldlM readEntry c4 = some c5 := by
    rw [textField_eq]
    exact foldlM_toList (fun s => { c4 with userDisplayName := s }) (fun _ => rfl) rfl _
  have h6 : [(Leaf.uint 0x06, Value.leaf (.uint t.millis))].foldlM readEntry c5 = some c6 := rfl
  have h7 : _ = some c7 := foldlM_extensions a.cred (c := c6) rfl rfl rfl rfl rfl rfl
  have h8 : [(Leaf.uint 0x08, Value.leaf (.bool a.useSignCount))].foldlM readEntry c7 = some c8 := rfl
  have h10 : _ = some c10 := foldlM_numbers a (c := c8) rfl rfl
  have h11 : _ = some (recreated t a) := foldlM_options a.cred (c := c10) rfl rfl
  have h12 : (t.rtc.toList.map fun now => (Leaf.uint 0x0C, Value.leaf (.uint now))).foldlM readEntry
      (recreated t a) = some (recreated t a) := foldlM_toList (fun _ => recreated t a) (fun _ => rfl) rfl _
  have hnames := foldlM_parts (foldlM_parts (foldlM_parts (foldlM_parts h1 h2) h3) h4) h5
  have hnumbers := foldlM_parts (foldlM_parts (foldlM_parts (foldlM_parts hnames h6) h7) h8) h10
  exact foldlM_parts (foldlM_parts hnumbers h11) h12

end RoundTrip

/-! What the parser leaves. -/

/-- Extensions and options are empty where their maps are not there, and nothing is read of the rest. -/
structure Parsed (c : Credential) : Prop where
  extensions : c.extensionsPresent = false → c.credBlob = none ∧ c.credProtect = 0 ∧
    c.hmacSecret = none ∧ c.largeBlobKey = false ∧ c.thirdPartyPayment = false
  opts : c.optsPresent = false → c.rk = none
  credProtect : c.credProtect < 18446744073709551616
  privateKey : c.privateKey = none
  residentId : c.residentId = none

theorem foldlM_invariant {ε : Type} {f : Credential → ε → Option Credential} {P : Credential → Prop}
    (hstep : ∀ c x c', P c → f c x = some c' → P c') {xs : List ε} :
    ∀ {c c' : Credential}, P c → xs.foldlM f c = some c' → P c' := by
  induction xs with
  | nil =>
    intro c c' hc h
    rwa [← Option.some.inj (show some c = some c' from h)]
  | cons x xs ih =>
    intro c c' hc h
    obtain ⟨mid, hmid, hrest⟩ := Option.bind_eq_some_iff.mp (List.foldlM_cons (m := Option) ▸ h)
    exact ih (hstep c x mid hc hmid) hrest

section Invariant

variable {c r : Credential}

theorem readExtension_parsed (x : Leaf × Leaf) (hpresent : c.extensionsPresent = true) (hc : Parsed c)
    (h : readExtension c x = some r) : r.extensionsPresent = true ∧ Parsed r := by
  obtain ⟨key, v⟩ := x
  -- whatever entry it is, the flag stays, and so do the fields behind it
  have hkeep (r : Credential) (h1 : r.extensionsPresent = c.extensionsPresent)
      (h2 : r.optsPresent = c.optsPresent) (h3 : r.rk = c.rk) (h4 : r.credProtect < 18446744073709551616)
      (h5 : r.privateKey = c.privateKey) (h6 : r.residentId = c.residentId) :
      r.extensionsPresent = true ∧ Parsed r := by
    have hr : r.extensionsPresent = true := h1.trans hpresent
    refine ⟨hr, fun hfalse => absurd (hfalse.symm.trans hr) Bool.false_ne_true, ?_, h4, ?_, ?_⟩
    · intro hopts
      rw [h3]
      exact hc.opts (h2 ▸ hopts)
    · rw [h5, hc.privateKey]
    · rw [h6, hc.residentId]
  cases key with
  | text key =>
    simp only [readExtension] at h
    split_ifs at h
    · obtain ⟨b, -, rfl⟩ := Option.map_eq_some_iff.mp h
      exact hkeep _ rfl rfl rfl hc.credProtect rfl rfl
    · obtain ⟨n, -, rfl⟩ := Option.map_eq_some_iff.mp h
      exact hkeep _ rfl rfl rfl n.isLt rfl rfl
    · obtain ⟨b, -, rfl⟩ := Option.map_eq_some_iff.mp h
      exact hkeep _ rfl rfl rfl hc.credProtect rfl rfl
    · obtain ⟨b, -, rfl⟩ := Option.map_eq_some_iff.mp h
      exact hkeep _ rfl rfl rfl hc.credProtect rfl rfl
    · obtain ⟨b, -, rfl⟩ := Option.map_eq_some_iff.mp h
      exact hkeep _ rfl rfl rfl hc.credProtect rfl rfl
    · rw [← Option.some.inj h]
      exact hkeep _ rfl rfl rfl hc.credProtect rfl rfl
  | _ => cases h

theorem readOption_parsed (x : Leaf × Leaf) (hpresent : c.optsPresent = true) (hc : Parsed c)
    (h : readOption c x = some r) : r.optsPresent = true ∧ Parsed r := by
  obtain ⟨key, v⟩ := x
  cases key with
  | text key =>
    simp only [readOption] at h
    split_ifs at h
    · obtain ⟨b, -, rfl⟩ := Option.map_eq_some_iff.mp h
      exact ⟨hpresent, hc.extensions, fun hfalse => absurd (hfalse.symm.trans hpresent) Bool.false_ne_true,
        hc.credProtect, hc.privateKey, hc.residentId⟩
    · rw [← Option.some.inj h]
      exact ⟨hpresent, hc⟩
  | _ => cases h

theorem readField_parsed (key : BitVec 64) (v : Value) (hc : Parsed c) (h : readField c key v = some r) :
    Parsed r := by
  -- an entry that sets a field of its own leaves what the invariant is about
  have hkeep {α : Type} {o : Option α} {put : α → Credential} (h : o.map put = some r)
      (hput : ∀ x, Parsed (put x)) : Parsed r := by
    obtain ⟨x, -, rfl⟩ := Option.map_eq_some_iff.mp h
    exact hput x
  have hsame (put : Credential) (h1 : put.extensionsPresent = c.extensionsPresent)
      (h2 : put.optsPresent = c.optsPresent) (h3 : put.rk = c.rk) (h4 : put.credProtect = c.credProtect)
      (h5 : put.privateKey = c.privateKey) (h6 : put.residentId = c.residentId)
      (h7 : put.credBlob = c.credBlob) (h8 : put.hmacSecret = c.hmacSecret)
      (h9 : put.largeBlobKey = c.largeBlobKey) (h10 : put.thirdPartyPayment = c.thirdPartyPayment) :
      Parsed put := by
    constructor
    · rw [h1, h4, h7, h8, h9, h10]
      exact hc.extensions
    · rw [h2, h3]
      exact hc.opts
    · rw [h4]
      exact hc.credProtect
    · rw [h5]
      exact hc.privateKey
    · rw [h6]
      exact hc.residentId
  unfold readField at h
  split at h
  case h_6 =>
    obtain ⟨entries, -, hfold⟩ := Option.bind_eq_some_iff.mp h
    refine (foldlM_invariant (P := fun c => c.extensionsPresent = true ∧ Parsed c)
      (fun c x c' hc h => readExtension_parsed x hc.1 hc.2 h) ⟨rfl, ?_⟩ hfold).2
    exact ⟨fun hfalse => absurd hfalse.symm Bool.false_ne_true, hc.opts, hc.credProtect, hc.privateKey,
      hc.residentId⟩
  case h_10 =>
    obtain ⟨entries, -, hfold⟩ := Option.bind_eq_some_iff.mp h
    refine (foldlM_invariant (P := fun c => c.optsPresent = true ∧ Parsed c)
      (fun c x c' hc h => readOption_parsed x hc.1 hc.2 h) ⟨rfl, ?_⟩ hfold).2
    exact ⟨hc.extensions, fun hfalse => absurd hfalse.symm Bool.false_ne_true, hc.credProtect, hc.privateKey,
      hc.residentId⟩
  case h_11 => exact hkeep h fun _ => hc
  case h_12 =>
    rw [← Option.some.inj h]
    exact hc
  all_goals exact hkeep h fun _ => hsame _ rfl rfl rfl rfl rfl rfl rfl rfl rfl rfl

theorem blank_parsed : Parsed blank :=
  ⟨fun _ => ⟨rfl, rfl, rfl, rfl, rfl⟩, fun _ => rfl, by decide, rfl, rfl⟩

theorem fields_parsed {m : CborMap} (h : fields m = some c) : Parsed c := by
  refine foldlM_invariant ?_ blank_parsed h
  intro c x c' hc hread
  obtain ⟨key, v⟩ := x
  cases key with
  | uint key => exact readField_parsed key v hc hread
  | _ => cases hread

end Invariant

end KeyWallet.Cred.Payload
