import KeyWallet.OathAccess
import KeyWallet.Tlv

/-! The data of an OATH credential as oath.c keeps them: a string of tags and values that PUT takes
from the request, RENAME and CALCULATE edit in place, and the metadata of a container repeat in part. -/
namespace KeyWallet.Oath.Store

open Tlv (Item findItem findTag valueOffset encode encodeAll Place TagBytes LengthBytes)

def tagName : Nat := 0x71
def tagNameList : Nat := 0x72
def tagProperty : Nat := 0x78
def tagImf : Nat := 0x7a
def tagPwsLogin : Nat := 0x83
def tagPwsPassword : Nat := 0x84
def tagPwsMetadata : Nat := 0x85

def propTouch : BitVec 8 := 0x02

/-- oath_encrypt_key and its inverse. -/
structure Crypto where
  encrypt : Data → Data
  decrypt : Data → Option Data
  encrypt_length : ∀ key, (encrypt key).length = key.length + secureKeyOverhead
  secure : ∀ key, key ≠ [] → keyIsSecure (encrypt key) = true
  decrypt_encrypt : ∀ key, decrypt (encrypt key) = some key

/-- oath_decrypt_key. -/
def plainKey (c : Crypto) (stored : Data) : Option Data :=
  if keyIsSecure stored then c.decrypt stored else some stored

def isHotp (key : Data) : Bool := key.headD 0 &&& 0xf0 = 0x10

/-- What cmd_put makes of the request: a HOTP credential gets a counter of eight bytes. -/
def putData (data key : Data) : Data :=
  if isHotp key then
    match findItem data tagImf with
    | none => data ++ [0x7a, 8, 0, 0, 0, 0, 0, 0, 0, 0]
    | some i =>
      if i.1.value.length < 8 then
        let at' := valueOffset data i
        data.take (at' - 1) ++ [8] ++ List.replicate (8 - i.1.value.length) 0 ++ data.drop at'
      else data
  else data

/-- What cmd_rename makes of the stored data: the byte before the name becomes the new length. -/
def renameData (data newName : Data) : Option Data :=
  (findItem data tagName).map fun i =>
    let at' := valueOffset data i
    data.take (at' - 1) ++ [BitVec.ofNat 8 newName.length] ++ newName ++
      data.drop (at' + i.1.value.length)

/-- The flag of the metadata for a password safe. -/
def hasPasswordSafe (data : Data) : Bool :=
  (findTag data tagPwsLogin).isSome || (findTag data tagPwsPassword).isSome ||
    (findTag data tagPwsMetadata).isSome

/-- The metadata of a credential, whatever their size. -/
def metadataBytes (name key : Data) (property : Option Data) (safe : Bool) : Data :=
  encode tagName name ++ encode tagKey (key.take 2) ++ property.elim [] (encode tagProperty) ++
    if safe then encode tagPwsMetadata [] else []

/-- oath_credential_metadata. -/
def metadata (data : Data) : Option Data :=
  match findTag data tagName, findTag data tagKey with
  | some name, some key =>
    if key.length < 2 then none
    else
      let out := metadataBytes name key (findTag data tagProperty) (hasPasswordSafe data)
      if 65535 < out.length then none else some out
  | _, _ => none

/-- oath_put_credential_data: in a legacy file the key is encrypted. -/
def legacyData (c : Crypto) (data : Data) : Data :=
  match findTag data tagKey with
  | none => data
  | some key =>
    if keyIsSecure key then data
    else encodeAll (fun i => if i.tag = tagKey then c.encrypt key else i.value) data

/-- The file of a credential: a legacy one holds it, any other marks a container with the credential
and its metadata. -/
structure Entry where
  legacy : Bool
  data : Data
  metadata : Data
  deriving DecidableEq, Repr

/-- oath_credential_open for the metadata. -/
def Entry.index (e : Entry) : Data := if e.legacy then e.data else e.metadata

/-- oath_credential_write, when the storage works. -/
def credentialWrite (c : Crypto) (old : Option Entry) (data : Data) : Option Entry :=
  if old.any Entry.legacy then some ⟨true, legacyData c data, []⟩
  else (metadata data).map fun m => ⟨false, data, m⟩

/-- A credential as its commands see it: the values by their tags, with the key in plain. -/
abbrev Cred := Nat → Option Data

def credOf (c : Crypto) (data : Data) : Cred := fun tag =>
  if tag = tagName then none
  else if tag = tagKey then (findTag data tagKey).bind (plainKey c)
  else findTag data tag

section Tags

theorem tagName_bytes : TagBytes tagName (Tlv.tagBytes tagName) := .short 0x71 (by decide)

theorem tagKey_bytes : TagBytes tagKey (Tlv.tagBytes tagKey) := .short 0x73 (by decide)

theorem tagProperty_bytes : TagBytes tagProperty (Tlv.tagBytes tagProperty) := .short 0x78 (by decide)

theorem tagPwsMetadata_bytes : TagBytes tagPwsMetadata (Tlv.tagBytes tagPwsMetadata) :=
  .short 0x85 (by decide)

end Tags

theorem place_of_ne_nil {data value : Data} {tag : Nat} (h : findTag data tag = some value)
    (hne : value ≠ []) :
    ∃ front lb post, Place tag front lb value post ∧ data = front ++ lb ++ value ++ post := by
  obtain ⟨i, hi, rfl⟩ := Option.map_eq_some_iff.mp h
  rcases (Tlv.findItem_place hi).2 with ⟨front, lb, hp, hdata⟩ | ⟨hv, -, -⟩
  · exact ⟨front, lb, i.2, hp, hdata⟩
  · exact absurd hv hne

section Put

variable {data key : Data}

theorem valueOffset_place {i : Item × Data} {front lb : Data}
    (h : data = front ++ lb ++ i.1.value ++ i.2) :
    valueOffset data i = front.length + lb.length := by
  unfold valueOffset
  rw [h]
  simp only [List.length_append]
  omega

theorem LengthBytes.lengthen {n : Nat} {lb : Data} (h : LengthBytes n lb) (hn : n < 8) :
    LengthBytes 8 (lb.dropLast ++ [8]) := by
  cases h with
  | one l _ _ => exact .one 8 (by decide) (by decide)
  | two l => exact .two 8
  | three a b =>
    have ha : a = 0 := by
      apply BitVec.eq_of_toNat_eq
      have : (0 : BitVec 8).toNat = 0 := rfl
      omega
    subst ha
    exact .three 0 8

theorem take_front (front lb rest : Data) (h : 0 < lb.length) :
    (front ++ lb ++ rest).take (front.length + lb.length - 1) = front ++ lb.dropLast := by
  have hlen : (front ++ lb.dropLast).length = front.length + lb.length - 1 := by
    rw [List.length_append, List.length_dropLast]
    omega
  have hsplit : front ++ lb ++ rest = (front ++ lb.dropLast) ++ (lb.drop (lb.length - 1) ++ rest) := by
    have hlb : lb = lb.dropLast ++ lb.drop (lb.length - 1) := by
      rw [List.dropLast_eq_take, List.take_append_drop]
    nth_rewrite 1 [hlb]
    simp only [List.append_assoc]
  rw [hsplit, ← hlen, List.take_left]

theorem drop_front (front lb value post : Data) :
    (front ++ lb ++ value ++ post).drop (front.length + lb.length) = value ++ post := by
  rw [← List.length_append, List.append_assoc (front ++ lb), List.drop_left]

theorem findTag_putData {tag : Nat} {value : Data} (h : findTag data tag = some value)
    (hne : value ≠ []) (htag : tag ≠ tagImf) : findTag (putData data key) tag = some value := by
  obtain ⟨front, lb, post, hp, hdata⟩ := place_of_ne_nil h hne
  unfold putData
  split_ifs
  · cases hi : findItem data tagImf with
    | none =>
      dsimp only
      rw [hdata, List.append_assoc]
      exact hp.findTag_append _
    | some i =>
      dsimp only
      split_ifs with hlen
      · obtain ⟨hit, ⟨front', lb', hp', hdata'⟩ | ⟨hv, hpost, front', tb, htb, hdata'⟩⟩ :=
          Tlv.findItem_place hi
        · -- the counter is lengthened where it stands
          have hat := valueOffset_place hdata'
          have hl' := hp'.length_bytes
          have hnew : LengthBytes (List.replicate (8 - i.1.value.length) 0 ++ i.1.value).length
              (lb'.dropLast ++ [8]) := by
            rw [List.length_append, List.length_replicate, Nat.sub_add_cancel (Nat.le_of_lt hlen)]
            exact LengthBytes.lengthen hl' hlen
          have hother := hp'.findTag_other hnew htag
          rw [hat]
          have hres : data.take (front'.length + lb'.length - 1) ++ [8] ++
              List.replicate (8 - i.1.value.length) 0 ++ data.drop (front'.length + lb'.length) =
              front' ++ (lb'.dropLast ++ [8]) ++
                (List.replicate (8 - i.1.value.length) 0 ++ i.1.value) ++ i.2 := by
            rw [hdata', drop_front, List.append_assoc (front' ++ lb'), take_front _ _ _ hl'.pos]
            simp only [List.append_assoc]
          rw [hres, hother, ← hdata', h]
        · -- the tag of the counter is the last byte, which becomes another tag
          have hat : valueOffset data i = data.length := by
            unfold valueOffset
            rw [hv, hpost]
            rfl
          have hpost' : post ≠ [] := by
            rintro rfl
            rw [hdata] at hi
            rcases hp.findItem_other htag hi with ⟨s, hs⟩ | hfound
            · rw [hpost] at hs
              have hlen' := congrArg List.length hs
              have hpos := hp.length_bytes.pos
              simp only [List.length_append, List.length_nil] at hlen'
              omega
            · cases hfound
          have htake : data.take (data.length - 1) = front ++ lb ++ value ++ post.dropLast := by
            rw [← List.dropLast_eq_take, hdata, List.dropLast_append_of_ne_nil hpost']
          rw [hat, htake, List.append_assoc (front ++ lb ++ value), List.append_assoc (front ++ lb ++ value),
            List.append_assoc (front ++ lb ++ value)]
          exact hp.findTag_append _
      · exact h
  · exact h

end Put

section Rename

variable {data newName : Data}

/-- The bytes of the old length can hold the new one: a single byte means what it says unless it is
0x81 or 0x82, and of three bytes the first part is not written again. -/
def FormFits (lb : Data) (n : Nat) : Prop :=
  (lb.length = 1 ∧ n ≠ 0x81 ∧ n ≠ 0x82) ∨ lb.length = 2 ∨ (lb.length = 3 ∧ lb.getD 1 0 = 0)

theorem LengthBytes.relabel {m n : Nat} {lb : Data} (h : LengthBytes m lb) (hf : FormFits lb n)
    (hn : n ≤ 255) : LengthBytes n (lb.dropLast ++ [BitVec.ofNat 8 n]) := by
  have hto : (BitVec.ofNat 8 n).toNat = n := by
    rw [BitVec.toNat_ofNat]
    omega
  have hne : ∀ k : Nat, k < 256 → n ≠ k → BitVec.ofNat 8 n ≠ BitVec.ofNat 8 k := by
    intro k hk hnk heq
    have hkn := congrArg BitVec.toNat heq
    rw [hto, BitVec.toNat_ofNat] at hkn
    omega
  cases h with
  | one l _ _ =>
    rcases hf with ⟨-, h81, h82⟩ | hf | ⟨hf, -⟩
    · have hone := LengthBytes.one (BitVec.ofNat 8 n) (hne 0x81 (by decide) h81)
        (hne 0x82 (by decide) h82)
      rwa [hto] at hone
    · cases hf
    · cases hf
  | two l =>
    have htwo := LengthBytes.two (BitVec.ofNat 8 n)
    rwa [hto] at htwo
  | three a b =>
    rcases hf with ⟨hf, -⟩ | hf | ⟨-, hf⟩
    · cases hf
    · cases hf
    · have ha : a = 0 := hf
      subst ha
      have hthree := LengthBytes.three 0 (BitVec.ofNat 8 n)
      rw [hto] at hthree
      have hzero : (0 : BitVec 8).toNat * 256 + n = n := by
        show 0 * 256 + n = n
        omega
      rwa [hzero] at hthree

/-- The name in these data can be replaced by one of this length. -/
def Fits (data : Data) (n : Nat) : Prop :=
  ∃ front lb value post, Place tagName front lb value post ∧ data = front ++ lb ++ value ++ post ∧
    FormFits lb n

/-- Then the new name is found, and everything else is as it was. -/
theorem renameData_fits (hf : Fits data newName.length) (hn : newName.length ≤ 255) :
    ∃ new, renameData data newName = some new ∧ findTag new tagName = some newName ∧
      ∀ tag, tag ≠ tagName → findTag new tag = findTag data tag := by
  obtain ⟨front, lb, value, post, hp, hdata, hform⟩ := hf
  have hl := hp.length_bytes
  have hnew := LengthBytes.relabel hl hform hn
  have hfound : findItem data tagName = some (⟨tagName, value⟩, post) := by
    rw [hdata]
    exact hp.findItem_self
  have hat : valueOffset data (⟨tagName, value⟩, post) = front.length + lb.length :=
    valueOffset_place hdata
  have hdrop : data.drop (front.length + lb.length + value.length) = post := by
    rw [← List.drop_drop, hdata, drop_front, List.drop_left]
  have htake : data.take (front.length + lb.length - 1) = front ++ lb.dropLast := by
    rw [hdata, List.append_assoc (front ++ lb)]
    exact take_front _ _ _ hl.pos
  have hres : renameData data newName =
      some (front ++ (lb.dropLast ++ [BitVec.ofNat 8 newName.length]) ++ newName ++ post) := by
    unfold renameData
    rw [hfound]
    show some (data.take (valueOffset data (⟨tagName, value⟩, post) - 1) ++ _ ++ newName ++
      data.drop (valueOffset data (⟨tagName, value⟩, post) + value.length)) = _
    rw [hat, hdrop, htake]
    simp only [List.append_assoc]
  refine ⟨_, hres, (hp.replace hnew post).findTag_append post, ?_⟩
  intro tag htag
  rw [hp.findTag_other hnew htag, ← hdata]

theorem credOf_rename (c : Crypto) {new : Data}
    (h : ∀ tag, tag ≠ tagName → findTag new tag = findTag data tag) : credOf c new = credOf c data := by
  funext tag
  unfold credOf
  split_ifs with h1 h2
  · rfl
  · rw [h tagKey (by decide)]
  · exact h tag h1

end Rename

section Metadata

variable {data : Data}

theorem findTag_metadataBytes {name : Data} {property : Option Data} (key : Data) (safe : Bool)
    (hname : name.length < 65536) (hproperty : ∀ p, property = some p → p.length < 65536) (tag : Nat) :
    findTag (metadataBytes name key property safe) tag =
      if tagName = tag then some name
      else if tagKey = tag then some (key.take 2)
      else if tagProperty = tag ∧ property.isSome then property
      else if tagPwsMetadata = tag ∧ safe then some []
      else none := by
  have hkey : (key.take 2).length < 65536 := by
    rw [List.length_take]
    omega
  have hsafe : findTag (if safe then encode tagPwsMetadata [] else []) tag =
      if tagPwsMetadata = tag ∧ safe then some [] else none := by
    cases safe with
    | true =>
      have hnil : ([] : Data).length < 65536 := Nat.zero_lt_succ _
      have henc := Tlv.findTag_encode tagPwsMetadata_bytes hnil [] tag
      rw [List.append_nil] at henc
      rw [if_pos rfl, henc]
      simp only [and_true]
      rfl
    | false =>
      simp only [Bool.false_eq_true, and_false, if_false]
      rfl
  have hrest : findTag (property.elim [] (encode tagProperty) ++
      if safe then encode tagPwsMetadata [] else []) tag =
      if tagProperty = tag ∧ property.isSome then property
      else if tagPwsMetadata = tag ∧ safe then some [] else none := by
    cases property with
    | none =>
      simp only [Option.isSome_none, Bool.false_eq_true, and_false, if_false]
      exact hsafe
    | some p =>
      simp only [Option.isSome_some, and_true, Option.elim_some]
      rw [Tlv.findTag_encode tagProperty_bytes (hproperty p rfl), hsafe]
  unfold metadataBytes
  rw [List.append_assoc, List.append_assoc, Tlv.findTag_encode tagName_bytes hname,
    Tlv.findTag_encode tagKey_bytes hkey, hrest]

/-- What the metadata of a credential say about it. -/
structure Indexed (data index : Data) : Prop where
  name : findTag index tagName = findTag data tagName
  key : findTag index tagKey = (findTag data tagKey).map (List.take 2)
  property : findTag index tagProperty = findTag data tagProperty
  safe : hasPasswordSafe index = hasPasswordSafe data

theorem metadata_indexed {index : Data} (h : metadata data = some index) : Indexed data index := by
  unfold metadata at h
  split at h
  · next name key hname hkey =>
    split_ifs at h with hlen
    dsimp only at h
    split_ifs at h with hsize
    obtain rfl := Option.some.inj h
    have hn := Tlv.findTag_lt hname
    have hp : ∀ p, findTag data tagProperty = some p → p.length < 65536 := fun p => Tlv.findTag_lt
    have hfind := findTag_metadataBytes key (hasPasswordSafe data) hn hp
    generalize metadataBytes name key (findTag data tagProperty) (hasPasswordSafe data) = index at hfind
    refine ⟨?_, ?_, ?_, ?_⟩
    · rw [hfind, if_pos rfl, hname]
    · rw [hfind, if_neg (by decide), if_pos rfl, hkey]
      rfl
    · rw [hfind, if_neg (by decide), if_neg (by decide)]
      cases findTag data tagProperty with
      | none => rfl
      | some p => rfl
    · have h83 : findTag index tagPwsLogin = none := by
        rw [hfind, if_neg (by decide), if_neg (by decide), if_neg (fun hx => absurd hx.1 (by decide)),
          if_neg (fun hx => absurd hx.1 (by decide))]
      have h84 : findTag index tagPwsPassword = none := by
        rw [hfind, if_neg (by decide), if_neg (by decide), if_neg (fun hx => absurd hx.1 (by decide)),
          if_neg (fun hx => absurd hx.1 (by decide))]
      have h85 : findTag index tagPwsMetadata = if hasPasswordSafe data then some [] else none := by
        rw [hfind, if_neg (by decide), if_neg (by decide), if_neg (fun hx => absurd hx.1 (by decide))]
        simp only [true_and]
      have hindex : hasPasswordSafe index = (findTag index tagPwsMetadata).isSome := by
        unfold hasPasswordSafe
        rw [h83, h84]
        rfl
      rw [hindex, h85]
      cases hasPasswordSafe data with
      | true => rfl
      | false => rfl
  · cases h

theorem metadata_some {name key : Data} (hname : findTag data tagName = some name)
    (hkey : findTag data tagKey = some key) (hlen : 2 ≤ key.length)
    (hsize : (metadataBytes name key (findTag data tagProperty) (hasPasswordSafe data)).length ≤ 65535) :
    ∃ index, metadata data = some index := by
  refine ⟨metadataBytes name key (findTag data tagProperty) (hasPasswordSafe data), ?_⟩
  unfold metadata
  rw [hname, hkey]
  dsimp only
  rw [if_neg (by omega), if_neg (by omega)]

end Metadata

section Legacy

variable {c : Crypto} {data key : Data}

theorem legacy_values {sealed : Data} (h : sealed.length < 65536) :
    ∀ i ∈ Tlv.items data, (if i.1.tag = tagKey then sealed else i.1.value).length < 65536 := by
  intro i hi
  split_ifs
  · exact h
  · exact Tlv.item_lt hi

theorem findTag_legacyData (hkey : findTag data tagKey = some key)
    (hsize : keyIsSecure key = false → key.length + secureKeyOverhead < 65536) {tag : Nat}
    (htag : tag ≠ tagKey) : findTag (legacyData c data) tag = findTag data tag := by
  unfold legacyData
  rw [hkey]
  dsimp only
  split_ifs with hs
  · rfl
  · have hlen : (c.encrypt key).length < 65536 := by
      rw [c.encrypt_length]
      exact hsize (Bool.eq_false_of_not_eq_true hs)
    rw [Tlv.findTag_encodeAll _ _ _ (legacy_values hlen), Tlv.findTag_eq_findItem]
    cases hf : findItem data tag with
    | none => rfl
    | some i =>
      have hit : i.1.tag ≠ tagKey := by
        rw [(Tlv.findItem_place hf).1]
        exact htag
      show some (if i.1.tag = tagKey then c.encrypt key else i.1.value) = some i.1.value
      rw [if_neg hit]

theorem findTag_legacyData_key (hkey : findTag data tagKey = some key)
    (hsize : keyIsSecure key = false → key.length + secureKeyOverhead < 65536) :
    findTag (legacyData c data) tagKey = some (if keyIsSecure key then key else c.encrypt key) := by
  unfold legacyData
  rw [hkey]
  dsimp only
  split_ifs with hs
  · exact hkey
  · have hlen : (c.encrypt key).length < 65536 := by
      rw [c.encrypt_length]
      exact hsize (Bool.eq_false_of_not_eq_true hs)
    rw [Tlv.findTag_encodeAll _ _ _ (legacy_values hlen)]
    obtain ⟨i, hi, -⟩ := Option.map_eq_some_iff.mp hkey
    have hi' : findItem data tagKey = some i := hi
    have hit : i.1.tag = tagKey := (Tlv.findItem_place hi').1
    rw [hi']
    show some (if i.1.tag = tagKey then c.encrypt key else i.1.value) = some (c.encrypt key)
    rw [if_pos hit]

theorem plainKey_sealed (c : Crypto) (hne : key ≠ []) :
    plainKey c (if keyIsSecure key then key else c.encrypt key) = plainKey c key := by
  unfold plainKey
  split_ifs with h1 h2
  · rfl
  · exact c.decrypt_encrypt key
  · exact absurd (c.secure key hne) h2

theorem credOf_legacyData (hkey : findTag data tagKey = some key) (hne : key ≠ [])
    (hsize : keyIsSecure key = false → key.length + secureKeyOverhead < 65536) :
    credOf c (legacyData c data) = credOf c data := by
  funext tag
  unfold credOf
  split_ifs with h1 h2
  · rfl
  · rw [findTag_legacyData_key hkey hsize, hkey]
    exact plainKey_sealed c hne
  · exact findTag_legacyData hkey hsize h2

end Legacy

end KeyWallet.Oath.Store
