import KeyWallet.KeyDevice
import Mathlib.Data.List.TakeWhile

/-! The configuration of the device, phy.c: the record in RAM, and the string of tags, lengths and values that
it is stored as. -/
namespace KeyWallet.Phy

def phyMaxSize : Nat :=
  (2 + 4) + (2 + 4) + (2 + 32) + (2 + 2) + (2 + 1) + (2 + 1) + (2 + 1) + (2 + 1) + (2 + 2)

def phyVidpid : Byte := 0x0
def phyLedGpio : Byte := 0x4
def phyLedBtness : Byte := 0x5
def phyOpts : Byte := 0x6
def phyUpBtn : Byte := 0x8
def phyUsbProduct : Byte := 0x9
def phyEnabledCurves : Byte := 0xA
def phyEnabledUsbItf : Byte := 0xB
def phyLedDriver : Byte := 0xC

def phyUsbItfAll : Byte := 0x1f

def phyLedOrderRgb : Byte := 0

structure VidPid where
  (b0 b1 b2 b3 : Byte := 0)
  deriving DecidableEq, Repr

/-- phy_data_t. -/
structure PhyData where
  vidpid : VidPid := {}
  enabledCurves : BitVec 32 := 0
  usbProduct : Vector Byte 32 := Vector.replicate 32 0
  opts : BitVec 16 := 0
  ledGpio : Byte := 0
  ledBrightness : Byte := 0
  upBtn : Byte := 0
  enabledUsbItf : Byte := 0
  ledDriver : Byte := 0
  ledOrder : Byte := 0
  vidpidPresent : Bool := false
  ledGpioPresent : Bool := false
  ledBrightnessPresent : Bool := false
  upBtnPresent : Bool := false
  usbProductPresent : Bool := false
  enabledCurvesPresent : Bool := false
  enabledUsbItfPresent : Bool := false
  ledDriverPresent : Bool := false
  ledOrderPresent : Bool := false
  deriving DecidableEq, Repr

inductive Error
  | nullParam
  deriving DecidableEq, Repr

/-! Writing. -/

def putUint16Be (v : BitVec 16) : Bytes := [BitVec.ofNat 8 (v.toNat / 256), BitVec.ofNat 8 v.toNat]

def putUint32Be (v : BitVec 32) : Bytes :=
  [BitVec.ofNat 8 (v.toNat / 16777216), BitVec.ofNat 8 (v.toNat / 65536), BitVec.ofNat 8 (v.toNat / 256),
    BitVec.ofNat 8 v.toNat]

def flag (b : Bool) : Byte := if b then 1 else 0

/-- The record is packed: what lies behind usb_product, in the order of memory. -/
def PhyData.behind (d : PhyData) : Bytes :=
  [BitVec.ofNat 8 d.opts.toNat, BitVec.ofNat 8 (d.opts.toNat / 256), d.ledGpio, d.ledBrightness, d.upBtn,
    d.enabledUsbItf, d.ledDriver, d.ledOrder, flag d.vidpidPresent, flag d.ledGpioPresent,
    flag d.ledBrightnessPresent, flag d.upBtnPresent, flag d.usbProductPresent, flag d.enabledCurvesPresent,
    flag d.enabledUsbItfPresent, flag d.ledDriverPresent, flag d.ledOrderPresent]

/-- The bytes that strlen counts, if it meets a zero. -/
def cString : Bytes → Option Bytes
  | [] => none
  | b :: bs => if b = 0 then some [] else (cString bs).map (b :: ·)

/-- A field that is written when it is present. -/
def optional (present : Bool) (tag : Byte) (value : Bytes) : Bytes :=
  if present then tag :: BitVec.ofNat 8 value.length :: value else []

/-- The product as strcpy writes it. -/
def productField (d : PhyData) (beyond : Bytes) : Option Bytes :=
  if d.usbProductPresent then
    (cString (d.usbProduct.toList ++ d.behind ++ beyond)).map fun s =>
      phyUsbProduct :: (BitVec.ofNat 8 s.length + 1) :: (s ++ [0])
  else some []

/-- What phy_serialize_data writes; `beyond` is the memory behind the record. -/
def encode (d : PhyData) (beyond : Bytes) : Option Bytes :=
  (productField d beyond).map fun product =>
    optional d.vidpidPresent phyVidpid [d.vidpid.b1, d.vidpid.b0, d.vidpid.b3, d.vidpid.b2] ++
      optional d.ledGpioPresent phyLedGpio [d.ledGpio] ++
      optional d.ledBrightnessPresent phyLedBtness [d.ledBrightness] ++
      optional true phyOpts (putUint16Be d.opts) ++
      optional d.upBtnPresent phyUpBtn [d.upBtn] ++
      product ++
      optional d.enabledCurvesPresent phyEnabledCurves (putUint32Be d.enabledCurves) ++
      optional d.enabledUsbItfPresent phyEnabledUsbItf [d.enabledUsbItf] ++
      optional d.ledDriverPresent phyLedDriver (d.ledDriver :: if d.ledOrderPresent then [d.ledOrder] else [])

/-- phy_serialize_data, into a buffer that holds `used` bytes. No answer where strlen meets no zero. -/
def phySerializeData (d : PhyData) (beyond : Bytes) (used capacity : Nat) : Option (Except Error Bytes) :=
  if capacity < used ∨ capacity - used < phyMaxSize then some (.error .nullParam)
  else (encode d beyond).map .ok

/-! Reading. -/

def getUint16Be (v : Bytes) : BitVec 16 := BitVec.ofNat 16 ((v.getD 0 0).toNat * 256 + (v.getD 1 0).toNat)

def getUint32Be (v : Bytes) : BitVec 32 :=
  BitVec.ofNat 32 ((v.getD 0 0).toNat * 16777216 + (v.getD 1 0).toNat * 65536 + (v.getD 2 0).toNat * 256 +
    (v.getD 3 0).toNat)

/-- usb_product after memset and memcpy. -/
def padded (v : Bytes) : Vector Byte 32 := Vector.ofFn fun i => v.getD i.val 0

/-- The value without a zero at its end. -/
def stripped (v : Bytes) : Bytes := if v.getLast? = some 0 then v.dropLast else v

/-- The switch over the tag. -/
def PhyData.read (d : PhyData) (tag : Byte) (v : Bytes) : PhyData :=
  if tag = phyVidpid then
    if v.length = 4 then
      { d with vidpid := ⟨v.getD 1 0, v.getD 0 0, v.getD 3 0, v.getD 2 0⟩, vidpidPresent := true }
    else d
  else if tag = phyLedGpio then
    if v.length = 1 then { d with ledGpio := v.getD 0 0, ledGpioPresent := true } else d
  else if tag = phyLedBtness then
    if v.length = 1 then { d with ledBrightness := v.getD 0 0, ledBrightnessPresent := true } else d
  else if tag = phyOpts then
    if v.length = 2 then { d with opts := getUint16Be v } else d
  else if tag = phyUpBtn then
    if v.length = 1 then { d with upBtn := v.getD 0 0, upBtnPresent := true } else d
  else if tag = phyUsbProduct then
    if 0 < v.length ∧ v.length ≤ 32 then
      { d with usbProduct := padded (stripped v), usbProductPresent := true }
    else d
  else if tag = phyEnabledCurves then
    if v.length = 4 then { d with enabledCurves := getUint32Be v, enabledCurvesPresent := true } else d
  else if tag = phyEnabledUsbItf then
    if v.length = 1 then { d with enabledUsbItf := v.getD 0 0, enabledUsbItfPresent := true } else d
  else if tag = phyLedDriver then
    if 1 ≤ v.length then
      let d := { d with ledDriver := v.getD 0 0, ledDriverPresent := true }
      if 2 ≤ v.length then { d with ledOrder := v.getD 1 0, ledOrderPresent := true } else d
    else d
  else d

/-- How many bytes of a value the switch reads. -/
def valueRead (tag : Byte) (tlen : Nat) : Nat :=
  if tag = phyVidpid ∨ tag = phyEnabledCurves then if tlen = 4 then 4 else 0
  else if tag = phyLedGpio ∨ tag = phyLedBtness ∨ tag = phyUpBtn ∨ tag = phyEnabledUsbItf then
    if tlen = 1 then 1 else 0
  else if tag = phyOpts then if tlen = 2 then 2 else 0
  else if tag = phyUsbProduct then if tlen ≤ 32 then tlen else 0
  else if tag = phyLedDriver then min tlen 2
  else 0

/-- A read of so many bytes from an offset on. -/
abbrev Read := Nat × Nat

/-- The loop from `p` on. No answer when the fuel runs out. -/
def walk (data : Bytes) : (fuel p : Nat) → PhyData → List Read → Option (PhyData × List Read)
  | 0, _, _, _ => none
  | fuel + 1, p, d, reads =>
    if p + 2 ≤ data.length then
      let tag := data.getD p 0
      let tlen := (data.getD (p + 1) 0).toNat
      if data.length - (p + 2) < tlen then some (d, reads ++ [(p, 1), (p + 1, 1)])
      else walk data fuel (p + 2 + tlen) (d.read tag ((data.drop (p + 2)).take tlen))
        (reads ++ [(p, 1), (p + 1, 1), (p + 2, valueRead tag tlen)])
    else some (d, reads)

/-- The defaults behind the loop. -/
def PhyData.withDefaults (d : PhyData) : PhyData :=
  let d := if d.enabledUsbItfPresent then d
    else { d with enabledUsbItf := phyUsbItfAll, enabledUsbItfPresent := true }
  if d.ledOrderPresent then d else { d with ledOrder := phyLedOrderRgb }

/-- phy_unserialize_data, with its reads. -/
def phyUnserializeData (data : Bytes) : Option (Except Error (PhyData × List Read)) :=
  if data.length = 0 ∨ 65535 < data.length then some (.error .nullParam)
  else (walk data (data.length + 1) 0 {} []).map fun r => .ok (r.1.withDefaults, r.2)

/-! The items of a string. -/

/-- The fields that the loop sees. -/
def items : (fuel : Nat) → Bytes → List (Byte × Bytes)
  | fuel + 1, tag :: tlen :: rest =>
    if rest.length < tlen.toNat then []
    else (tag, rest.take tlen.toNat) :: items fuel (rest.drop tlen.toNat)
  | _, _ => []

/-- A product is taken when it has 1 to 32 bytes. -/
def productStep (product : Option Bytes) (i : Byte × Bytes) : Option Bytes :=
  if i.1 = phyUsbProduct ∧ 0 < i.2.length ∧ i.2.length ≤ 32 then some i.2 else product

/-- The last product that is taken. -/
def productOf (its : List (Byte × Bytes)) : Option Bytes := its.foldl productStep none

/-- The product that the string sets is 32 bytes without a zero. -/
def Unterminated (data : Bytes) : Prop :=
  ∃ v, productOf (items (data.length + 1) data) = some v ∧ v.length = 32 ∧ 0 ∉ v

/-! The record after a round trip. -/

/-- What is left of a record: what is not present is zero, but for the two defaults. -/
def PhyData.normal (d : PhyData) : PhyData where
  vidpid := if d.vidpidPresent then d.vidpid else {}
  enabledCurves := if d.enabledCurvesPresent then d.enabledCurves else 0
  usbProduct := if d.usbProductPresent then padded (d.usbProduct.toList.takeWhile (· ≠ 0)) else Vector.replicate 32 0
  opts := d.opts
  ledGpio := if d.ledGpioPresent then d.ledGpio else 0
  ledBrightness := if d.ledBrightnessPresent then d.ledBrightness else 0
  upBtn := if d.upBtnPresent then d.upBtn else 0
  enabledUsbItf := if d.enabledUsbItfPresent then d.enabledUsbItf else phyUsbItfAll
  ledDriver := if d.ledDriverPresent then d.ledDriver else 0
  ledOrder := if d.ledDriverPresent && d.ledOrderPresent then d.ledOrder else phyLedOrderRgb
  vidpidPresent := d.vidpidPresent
  ledGpioPresent := d.ledGpioPresent
  ledBrightnessPresent := d.ledBrightnessPresent
  upBtnPresent := d.upBtnPresent
  usbProductPresent := d.usbProductPresent
  enabledCurvesPresent := d.enabledCurvesPresent
  enabledUsbItfPresent := true
  ledDriverPresent := d.ledDriverPresent
  ledOrderPresent := d.ledDriverPresent && d.ledOrderPresent

/-- usb_product is a string: a zero ends it, after at most 31 characters. -/
def PhyData.Terminated (d : PhyData) : Prop := 0 ∈ d.usbProduct.toList

/-- Whatever lies behind the record, writing it ends, within PHY_MAX_SIZE, and reads usb_product as a string. -/
def PhyData.WritesBack (d : PhyData) : Prop :=
  d.Terminated ∧ ∀ beyond, ∃ out, encode d beyond = some out ∧ out.length ≤ phyMaxSize

/-- Written anywhere with room for PHY_MAX_SIZE, a record is read back as what is left of it. -/
def PhyData.RoundTrips (d : PhyData) : Prop :=
  ∀ beyond used capacity, used ≤ capacity → phyMaxSize ≤ capacity - used →
    ∃ out reads, phySerializeData d beyond used capacity = some (.ok out) ∧ out.length ≤ phyMaxSize ∧
      phyUnserializeData out = some (.ok (d.normal, reads)) ∧ ∀ r ∈ reads, r.1 + r.2 ≤ out.length

/-- Reading a string ends, inside of it, with a record that can be written back. -/
def ReadsSafely (data : Bytes) : Prop :=
  ∃ d reads, phyUnserializeData data = some (.ok (d, reads)) ∧ (∀ r ∈ reads, r.1 + r.2 ≤ data.length) ∧ d.WritesBack

/-! The loop is a fold over the items. -/

/-- The record after some items. -/
def PhyData.readAll (d : PhyData) (its : List (Byte × Bytes)) : PhyData := its.foldl (fun d i => d.read i.1 i.2) d

@[simp] theorem readAll_nil (d : PhyData) : d.readAll [] = d := rfl

@[simp] theorem readAll_cons (d : PhyData) (i : Byte × Bytes) (its : List (Byte × Bytes)) :
    d.readAll (i :: its) = (d.read i.1 i.2).readAll its := rfl

theorem readAll_append (d : PhyData) (xs ys : List (Byte × Bytes)) :
    d.readAll (xs ++ ys) = (d.readAll xs).readAll ys := List.foldl_append

theorem valueRead_le (tag : Byte) (tlen : Nat) : valueRead tag tlen ≤ tlen := by
  unfold valueRead
  split_ifs <;> omega

theorem getD_of_drop (data : Bytes) (p : Nat) (x : Byte) (rest : Bytes) (h : data.drop p = x :: rest) :
    data.getD p 0 = x ∧ data.drop (p + 1) = rest := by
  constructor
  · have hget : data[p]? = some x := by
      rw [← List.head?_drop, h, List.head?_cons]
    rw [List.getD_eq_getElem?_getD, hget, Option.getD_some]
  · rw [← List.drop_drop, h, List.drop_one, List.tail_cons]

theorem walk_eq (data : Bytes) (fuel p : Nat) (d : PhyData) (reads : List Read) (hfuel : data.length - p < fuel)
    (hreads : ∀ r ∈ reads, r.1 + r.2 ≤ data.length) :
    ∃ out, walk data fuel p d reads = some (d.readAll (items fuel (data.drop p)), out) ∧
      ∀ r ∈ out, r.1 + r.2 ≤ data.length := by
  -- on the fuel; an item takes two bytes at least, so that what is left of it stays ahead
  induction fuel generalizing p d reads with
  | zero => exact absurd hfuel (Nat.not_lt_zero _)
  | succ fuel ih =>
    by_cases hp : p + 2 ≤ data.length
    · obtain ⟨tag, htag⟩ : ∃ tag, data[p]? = some tag := ⟨_, List.getElem?_eq_getElem (by omega)⟩
      obtain ⟨tag, tlen, rest, hdrop⟩ : ∃ tag tlen rest, data.drop p = tag :: tlen :: rest := by
        have hlen : (data.drop p).length = data.length - p := List.length_drop
        rcases hd : data.drop p with _ | ⟨tag, _ | ⟨tlen, rest⟩⟩
        · rw [hd, List.length_nil] at hlen
          omega
        · rw [hd, List.length_singleton] at hlen
          omega
        · exact ⟨tag, tlen, rest, rfl⟩
      obtain ⟨h0, hdrop1⟩ := getD_of_drop data p tag _ hdrop
      obtain ⟨h1, hdrop2⟩ := getD_of_drop data (p + 1) tlen rest hdrop1
      have hrest : rest.length = data.length - (p + 2) := by
        rw [← hdrop2, List.length_drop]
      rw [walk, if_pos hp, hdrop]
      simp only [h0, h1, items]
      rw [← hrest]
      by_cases hshort : rest.length < tlen.toNat
      · rw [if_pos hshort, if_pos hshort]
        refine ⟨_, rfl, ?_⟩
        intro r hr
        rcases List.mem_append.mp hr with hr | hr
        · exact hreads r hr
        · simp only [List.mem_cons, List.not_mem_nil, or_false] at hr
          rcases hr with rfl | rfl
          · show p + 1 ≤ data.length
            omega
          · show p + 1 + 1 ≤ data.length
            omega
      · rw [if_neg hshort, if_neg hshort]
        have hin := valueRead_le tag tlen.toNat
        have hnext := ih (p + 2 + tlen.toNat) (d.read tag (rest.take tlen.toNat))
          (reads ++ [(p, 1), (p + 1, 1), (p + 2, valueRead tag tlen.toNat)]) (by omega) (by
            intro r hr
            rcases List.mem_append.mp hr with hr | hr
            · exact hreads r hr
            · simp only [List.mem_cons, List.not_mem_nil, or_false] at hr
              rcases hr with rfl | rfl | rfl
              · show p + 1 ≤ data.length
                omega
              · show p + 1 + 1 ≤ data.length
                omega
              · show p + 2 + valueRead tag tlen.toNat ≤ data.length
                omega)
        have hafter : data.drop (p + 2 + tlen.toNat) = rest.drop tlen.toNat := by
          rw [← List.drop_drop, hdrop2]
        rw [hafter] at hnext
        rw [hdrop2, readAll_cons]
        exact hnext
    · have hitems : items (fuel + 1) (data.drop p) = [] := by
        have hlen : (data.drop p).length = data.length - p := List.length_drop
        rcases hd : data.drop p with _ | ⟨tag, _ | ⟨tlen, rest⟩⟩
        · rfl
        · rfl
        · rw [hd] at hlen
          simp only [List.length_cons] at hlen
          omega
      rw [walk, if_neg hp, hitems]
      exact ⟨reads, rfl, hreads⟩

theorem phyUnserializeData_eq (data : Bytes) (hne : data ≠ []) (hlen : data.length ≤ 65535) :
    ∃ reads, phyUnserializeData data =
        some (.ok ((PhyData.readAll {} (items (data.length + 1) data)).withDefaults, reads)) ∧
      ∀ r ∈ reads, r.1 + r.2 ≤ data.length := by
  have hpos : ¬ (data.length = 0 ∨ 65535 < data.length) := by
    have : data.length ≠ 0 := fun h => hne (List.length_eq_zero_iff.mp h)
    omega
  obtain ⟨out, hwalk, hout⟩ := walk_eq data (data.length + 1) 0 {} [] (by omega) (by simp)
  rw [List.drop_zero] at hwalk
  rw [phyUnserializeData, if_neg hpos, hwalk]
  exact ⟨out, rfl, hout⟩

/-! The product that a string sets. -/

theorem read_product (d : PhyData) (v : Bytes) (hv : 0 < v.length ∧ v.length ≤ 32) :
    d.read phyUsbProduct v = { d with usbProduct := padded (stripped v), usbProductPresent := true } := by
  have h1 : phyUsbProduct ≠ phyVidpid := by decide
  have h2 : phyUsbProduct ≠ phyLedGpio := by decide
  have h3 : phyUsbProduct ≠ phyLedBtness := by decide
  have h4 : phyUsbProduct ≠ phyOpts := by decide
  have h5 : phyUsbProduct ≠ phyUpBtn := by decide
  rw [PhyData.read, if_neg h1, if_neg h2, if_neg h3, if_neg h4, if_neg h5, if_pos rfl, if_pos hv]

theorem read_keeps_product (d : PhyData) (tag : Byte) (v : Bytes)
    (h : ¬ (tag = phyUsbProduct ∧ 0 < v.length ∧ v.length ≤ 32)) : (d.read tag v).usbProduct = d.usbProduct := by
  unfold PhyData.read
  by_cases h0 : tag = phyVidpid
  · rw [if_pos h0]
    split <;> rfl
  rw [if_neg h0]
  by_cases h1 : tag = phyLedGpio
  · rw [if_pos h1]
    split <;> rfl
  rw [if_neg h1]
  by_cases h2 : tag = phyLedBtness
  · rw [if_pos h2]
    split <;> rfl
  rw [if_neg h2]
  by_cases h3 : tag = phyOpts
  · rw [if_pos h3]
    split <;> rfl
  rw [if_neg h3]
  by_cases h4 : tag = phyUpBtn
  · rw [if_pos h4]
    split <;> rfl
  rw [if_neg h4]
  by_cases h5 : tag = phyUsbProduct
  · rw [if_pos h5, if_neg fun hv => h ⟨h5, hv⟩]
  rw [if_neg h5]
  by_cases h6 : tag = phyEnabledCurves
  · rw [if_pos h6]
    split <;> rfl
  rw [if_neg h6]
  by_cases h7 : tag = phyEnabledUsbItf
  · rw [if_pos h7]
    split <;> rfl
  rw [if_neg h7]
  by_cases h8 : tag = phyLedDriver
  · rw [if_pos h8]
    split
    · split <;> rfl
    · rfl
  · rw [if_neg h8]

/-- What the items leave in usb_product. -/
theorem readAll_product (d : PhyData) (its : List (Byte × Bytes)) (start : Option Bytes)
    (hd : ∀ v, start = some v → d.usbProduct = padded (stripped v) ∧ 0 < v.length ∧ v.length ≤ 32)
    (hnone : start = none → d.usbProduct = Vector.replicate 32 0) :
    (∀ v, its.foldl productStep start = some v → (d.readAll its).usbProduct = padded (stripped v) ∧
        0 < v.length ∧ v.length ≤ 32) ∧
      (its.foldl productStep start = none → (d.readAll its).usbProduct = Vector.replicate 32 0) := by
  induction its generalizing d start with
  | nil => exact ⟨hd, hnone⟩
  | cons i its ih =>
    rw [List.foldl_cons, readAll_cons]
    by_cases hi : i.1 = phyUsbProduct ∧ 0 < i.2.length ∧ i.2.length ≤ 32
    · have hread : (d.read i.1 i.2).usbProduct = padded (stripped i.2) := by
        rw [hi.1, read_product d i.2 hi.2]
      apply ih
      · intro v hv
        rw [productStep, if_pos hi] at hv
        cases hv
        exact ⟨hread, hi.2⟩
      · intro h
        rw [productStep, if_pos hi] at h
        exact absurd h (Option.some_ne_none _)
    · have hread : (d.read i.1 i.2).usbProduct = d.usbProduct := by
        exact read_keeps_product d i.1 i.2 hi
      apply ih
      · intro v hv
        rw [productStep, if_neg hi] at hv
        rw [hread]
        exact hd v hv
      · intro h
        rw [productStep, if_neg hi] at h
        rw [hread]
        exact hnone h

theorem padded_toList (v : Bytes) (h : v.length ≤ 32) :
    (padded v).toList = v ++ List.replicate (32 - v.length) 0 := by
  apply List.ext_getElem
  · simp only [Vector.length_toList, List.length_append, List.length_replicate]
    omega
  · intro i h1 h2
    have hi : i < 32 := by simpa using h1
    simp only [padded, Vector.getElem_toList, Vector.getElem_ofFn, List.getElem_append]
    split_ifs with hlt
    · rw [List.getD_eq_getElem?_getD, List.getElem?_eq_getElem hlt, Option.getD_some]
    · rw [List.getD_eq_getElem?_getD, List.getElem?_eq_none (by omega), Option.getD_none, List.getElem_replicate]

theorem stripped_length (v : Bytes) : (stripped v).length ≤ v.length := by
  unfold stripped
  split_ifs
  · rw [List.length_dropLast]
    omega
  · exact Nat.le_refl _

theorem zero_replicate : (0 : Byte) ∈ (Vector.replicate 32 (0 : Byte)).toList := by
  rw [Vector.toList_replicate]
  exact List.mem_replicate.mpr ⟨by decide, rfl⟩

theorem padded_terminated_iff (v : Bytes) (h : v.length ≤ 32) :
    0 ∈ (padded (stripped v)).toList ↔ ¬ (v.length = 32 ∧ 0 ∉ v) := by
  have hle := stripped_length v
  rw [padded_toList _ (Nat.le_trans hle h), List.mem_append, List.mem_replicate]
  constructor
  · rintro (hmem | hmem) ⟨hlen, hno⟩
    · have hsub : ∀ b ∈ stripped v, b ∈ v := by
        unfold stripped
        split_ifs
        · exact fun b hb => (List.dropLast_subset v) hb
        · exact fun b hb => hb
      exact hno (hsub 0 hmem)
    · -- nothing was cut off, so that no zero is left to fill the field
      have hcut : stripped v = v := by
        unfold stripped
        rw [if_neg]
        intro hlast
        exact hno (List.mem_of_getLast? hlast)
      rw [hcut, hlen] at hmem
      exact hmem.1 rfl
  · intro hnot
    by_cases hzero : 0 ∈ v
    · by_cases hlast : v.getLast? = some 0
      · right
        refine ⟨?_, rfl⟩
        have hne : v ≠ [] := List.ne_nil_of_mem hzero
        have hpos : 0 < v.length := List.length_pos_of_ne_nil hne
        rw [stripped, if_pos hlast, List.length_dropLast]
        omega
      · left
        rw [stripped, if_neg hlast]
        exact hzero
    · right
      refine ⟨?_, rfl⟩
      have hshort : v.length ≠ 32 := fun hlen => hnot ⟨hlen, hzero⟩
      omega

theorem withDefaults_product (d : PhyData) : d.withDefaults.usbProduct = d.usbProduct := by
  unfold PhyData.withDefaults
  simp only
  split_ifs <;> rfl

theorem parsed_terminated_iff (data : Bytes) :
    (PhyData.readAll {} (items (data.length + 1) data)).withDefaults.Terminated ↔ ¬ Unterminated data := by
  unfold PhyData.Terminated Unterminated
  rw [withDefaults_product]
  have hproduct := readAll_product {} (items (data.length + 1) data) none (fun v h => absurd h (by simp))
    (fun _ => rfl)
  change (∀ v, productOf _ = some v → _) ∧ (productOf _ = none → _) at hproduct
  rcases hv : productOf (items (data.length + 1) data) with _ | v
  · rw [hproduct.2 hv]
    simp only [reduceCtorEq, false_and, exists_false, not_false_eq_true, iff_true]
    exact zero_replicate
  · obtain ⟨heq, -, hle⟩ := hproduct.1 v hv
    rw [heq, padded_terminated_iff v hle]
    simp

/-! The string that a record is stored as. -/

/-- The fields that are written, with `product` for usb_product. -/
def PhyData.fields (d : PhyData) (product : Bytes) : List (Byte × Bytes) :=
  (if d.vidpidPresent then [(phyVidpid, [d.vidpid.b1, d.vidpid.b0, d.vidpid.b3, d.vidpid.b2])] else []) ++
    (if d.ledGpioPresent then [(phyLedGpio, [d.ledGpio])] else []) ++
    (if d.ledBrightnessPresent then [(phyLedBtness, [d.ledBrightness])] else []) ++
    [(phyOpts, putUint16Be d.opts)] ++
    (if d.upBtnPresent then [(phyUpBtn, [d.upBtn])] else []) ++
    (if d.usbProductPresent then [(phyUsbProduct, product)] else []) ++
    (if d.enabledCurvesPresent then [(phyEnabledCurves, putUint32Be d.enabledCurves)] else []) ++
    (if d.enabledUsbItfPresent then [(phyEnabledUsbItf, [d.enabledUsbItf])] else []) ++
    (if d.ledDriverPresent then
      [(phyLedDriver, d.ledDriver :: if d.ledOrderPresent then [d.ledOrder] else [])] else [])

/-- Fields as they stand in a string. -/
def flat (its : List (Byte × Bytes)) : Bytes := its.flatMap fun i => i.1 :: BitVec.ofNat 8 i.2.length :: i.2

theorem flat_append (xs ys : List (Byte × Bytes)) : flat (xs ++ ys) = flat xs ++ flat ys := List.flatMap_append

theorem flat_optional (present : Bool) (tag : Byte) (v : Bytes) :
    flat (if present then [(tag, v)] else []) = optional present tag v := by
  cases present with
  | false => rfl
  | true =>
    rw [flat, if_pos rfl, List.flatMap_singleton]
    rfl

theorem items_flat (its : List (Byte × Bytes)) (hlen : ∀ i ∈ its, i.2.length < 256) (fuel : Nat)
    (hfuel : (flat its).length < fuel) : items fuel (flat its) = its := by
  -- on the items; each takes one unit of fuel and two bytes at least
  induction its generalizing fuel with
  | nil =>
    cases fuel with
    | zero => exact absurd hfuel (Nat.not_lt_zero _)
    | succ fuel => rfl
  | cons i its ih =>
    have hcons : flat (i :: its) = i.1 :: BitVec.ofNat 8 i.2.length :: (i.2 ++ flat its) := by
      rw [flat, List.flatMap_cons]
      rfl
    have hi : (BitVec.ofNat 8 i.2.length).toNat = i.2.length := by
      have := hlen i List.mem_cons_self
      simp only [BitVec.toNat_ofNat]
      omega
    rw [hcons] at hfuel ⊢
    simp only [List.length_cons, List.length_append] at hfuel
    cases fuel with
    | zero => exact absurd hfuel (Nat.not_lt_zero _)
    | succ fuel =>
      have hroom : ¬ (i.2 ++ flat its).length < i.2.length := by
        rw [List.length_append]
        omega
      rw [items, hi, if_neg hroom, List.take_left, List.drop_left]
      rw [ih (fun j hj => hlen j (List.mem_cons_of_mem _ hj)) fuel (by omega)]

/-- The string in usb_product. -/
def PhyData.product (d : PhyData) : Bytes := d.usbProduct.toList.takeWhile (· ≠ 0)

theorem cString_of_mem (v rest : Bytes) (h : 0 ∈ v) : cString (v ++ rest) = some (v.takeWhile (· ≠ 0)) := by
  induction v with
  | nil => exact absurd h List.not_mem_nil
  | cons b v ih =>
    rw [List.cons_append, cString]
    by_cases hb : b = 0
    · rw [if_pos hb, List.takeWhile_cons_of_neg (by simp [hb])]
    · have hv : 0 ∈ v := by
        rcases List.mem_cons.mp h with h0 | hv
        · exact absurd h0.symm hb
        · exact hv
      rw [if_neg hb, ih hv, List.takeWhile_cons]
      simp only [ne_eq, hb, not_false_eq_true, decide_true, if_true]
      rfl

theorem product_length (d : PhyData) (h : d.Terminated) : d.product.length ≤ 31 := by
  have hle : d.product.length ≤ 32 := by
    have := (List.takeWhile_sublist (l := d.usbProduct.toList) (· ≠ 0)).length_le
    simpa [PhyData.product] using this
  have hne : d.product.length ≠ 32 := by
    intro h32
    -- a string that fills the field is the field
    have hall : d.product = d.usbProduct.toList := by
      apply (List.takeWhile_sublist _).eq_of_length
      show d.product.length = _
      rw [h32, Vector.length_toList]
    have hzero : 0 ∈ d.product := by
      rw [hall]
      exact h
    have := List.mem_takeWhile_imp hzero
    simp at this
  omega

/-- A record with a string for usb_product is written as its fields, whatever lies behind it. -/
theorem encode_eq (d : PhyData) (h : d.Terminated) (beyond : Bytes) :
    encode d beyond = some (flat (d.fields (d.product ++ [0]))) := by
  have hproduct : productField d beyond = some (optional d.usbProductPresent phyUsbProduct (d.product ++ [0])) := by
    unfold productField optional
    rw [List.append_assoc, cString_of_mem _ _ h]
    cases d.usbProductPresent with
    | false => rfl
    | true =>
      rw [if_pos rfl, if_pos rfl, Option.map_some, List.length_append, List.length_singleton, BitVec.ofNat_add]
      rfl
  rw [encode, hproduct, Option.map_some]
  simp only [PhyData.fields, flat_append, flat_optional]
  rfl

theorem length_of_mem_flat (its : List (Byte × Bytes)) (i : Byte × Bytes) (h : i ∈ its) :
    i.2.length ≤ (flat its).length := by
  obtain ⟨xs, ys, rfl⟩ := List.append_of_mem h
  rw [flat_append, List.length_append]
  simp only [flat, List.flatMap_cons, List.length_append, List.length_cons]
  omega

theorem fields_length (d : PhyData) (h : d.Terminated) :
    (flat (d.fields (d.product ++ [0]))).length ≤ phyMaxSize := by
  have hp := product_length d h
  have hopt (present : Bool) (tag : Byte) (v : Bytes) :
      (flat (if present then [(tag, v)] else [])).length ≤ 2 + v.length := by
    rw [flat_optional]
    unfold optional
    split_ifs
    · simp only [List.length_cons]
      omega
    · exact Nat.zero_le _
  have h1 := hopt d.vidpidPresent phyVidpid [d.vidpid.b1, d.vidpid.b0, d.vidpid.b3, d.vidpid.b2]
  have h2 := hopt d.ledGpioPresent phyLedGpio [d.ledGpio]
  have h3 := hopt d.ledBrightnessPresent phyLedBtness [d.ledBrightness]
  have h4 := hopt true phyOpts (putUint16Be d.opts)
  have h5 := hopt d.upBtnPresent phyUpBtn [d.upBtn]
  have h6 := hopt d.usbProductPresent phyUsbProduct (d.product ++ [0])
  have h7 := hopt d.enabledCurvesPresent phyEnabledCurves (putUint32Be d.enabledCurves)
  have h8 := hopt d.enabledUsbItfPresent phyEnabledUsbItf [d.enabledUsbItf]
  have h9 := hopt d.ledDriverPresent phyLedDriver (d.ledDriver :: if d.ledOrderPresent then [d.ledOrder] else [])
  have horder : (if d.ledOrderPresent then [d.ledOrder] else []).length ≤ 1 := by
    split_ifs <;> simp
  simp only [List.length_cons, List.length_nil, List.length_append, putUint16Be, putUint32Be, if_true]
    at h1 h2 h3 h4 h5 h6 h7 h8 h9
  simp only [PhyData.fields, flat_append, List.length_append, phyMaxSize, putUint16Be, putUint32Be]
  omega

/-! What the fields of a record are read back as. -/

theorem readAll_optional (d : PhyData) (present : Bool) (tag : Byte) (v : Bytes) :
    d.readAll (if present then [(tag, v)] else []) = if present then d.read tag v else d := by
  cases present <;> rfl

theorem getUint16Be_put (v : BitVec 16) : getUint16Be (putUint16Be v) = v := by
  apply BitVec.eq_of_toNat_eq
  have hv := v.isLt
  simp only [getUint16Be, putUint16Be, List.getD_cons_zero, List.getD_cons_succ, BitVec.toNat_ofNat]
  omega

theorem getUint32Be_put (v : BitVec 32) : getUint32Be (putUint32Be v) = v := by
  apply BitVec.eq_of_toNat_eq
  have hv := v.isLt
  simp only [getUint32Be, putUint32Be, List.getD_cons_zero, List.getD_cons_succ, BitVec.toNat_ofNat]
  omega

theorem stripped_append_zero (v : Bytes) : stripped (v ++ [0]) = v := by
  rw [stripped, if_pos List.getLast?_concat, List.dropLast_concat]

theorem read_opts (d : PhyData) (v : BitVec 16) : d.read phyOpts (putUint16Be v) = { d with opts := v } := by
  have hget := getUint16Be_put v
  calc d.read phyOpts (putUint16Be v) = { d with opts := getUint16Be (putUint16Be v) } := rfl
    _ = { d with opts := v } := by rw [hget]

theorem read_curves (d : PhyData) (v : BitVec 32) :
    d.read phyEnabledCurves (putUint32Be v) = { d with enabledCurves := v, enabledCurvesPresent := true } := by
  have hget := getUint32Be_put v
  calc d.read phyEnabledCurves (putUint32Be v) =
        { d with enabledCurves := getUint32Be (putUint32Be v), enabledCurvesPresent := true } := rfl
    _ = { d with enabledCurves := v, enabledCurvesPresent := true } := by rw [hget]

theorem read_driver (d : PhyData) (driver order : Byte) (present : Bool) :
    d.read phyLedDriver (driver :: if present then [order] else []) =
      { d with
        ledDriver := driver, ledDriverPresent := true
        ledOrder := if present then order else d.ledOrder
        ledOrderPresent := present || d.ledOrderPresent } := by
  cases present <;> rfl

theorem fields_read (d : PhyData) (h : d.Terminated) :
    (PhyData.readAll {} (d.fields (d.product ++ [0]))).withDefaults = d.normal := by
  have hp := product_length d h
  have hread (e : PhyData) : e.read phyUsbProduct (d.product ++ [0]) =
      { e with usbProduct := padded d.product, usbProductPresent := true } := by
    rw [read_product e _ (by rw [List.length_append, List.length_singleton]; omega), stripped_append_zero]
  -- each field decides about itself and its flag only
  have hvidpid (e : PhyData) (p : Bool) :
      (if p then e.read phyVidpid [d.vidpid.b1, d.vidpid.b0, d.vidpid.b3, d.vidpid.b2] else e) =
        { e with
          vidpid := if p then d.vidpid else e.vidpid, vidpidPresent := p || e.vidpidPresent } := by
    cases p <;> rfl
  have hgpio (e : PhyData) (p : Bool) : (if p then e.read phyLedGpio [d.ledGpio] else e) =
      { e with ledGpio := if p then d.ledGpio else e.ledGpio, ledGpioPresent := p || e.ledGpioPresent } := by
    cases p <;> rfl
  have hbright (e : PhyData) (p : Bool) : (if p then e.read phyLedBtness [d.ledBrightness] else e) =
      { e with
        ledBrightness := if p then d.ledBrightness else e.ledBrightness
        ledBrightnessPresent := p || e.ledBrightnessPresent } := by
    cases p <;> rfl
  have hbtn (e : PhyData) (p : Bool) : (if p then e.read phyUpBtn [d.upBtn] else e) =
      { e with upBtn := if p then d.upBtn else e.upBtn, upBtnPresent := p || e.upBtnPresent } := by
    cases p <;> rfl
  have hproduct (e : PhyData) (p : Bool) : (if p then e.read phyUsbProduct (d.product ++ [0]) else e) =
      { e with
        usbProduct := if p then padded d.product else e.usbProduct
        usbProductPresent := p || e.usbProductPresent } := by
    rw [hread]
    cases p <;> rfl
  have hcurves (e : PhyData) (p : Bool) :
      (if p then e.read phyEnabledCurves (putUint32Be d.enabledCurves) else e) =
        { e with
          enabledCurves := if p then d.enabledCurves else e.enabledCurves
          enabledCurvesPresent := p || e.enabledCurvesPresent } := by
    rw [read_curves]
    cases p <;> rfl
  have hitf (e : PhyData) (p : Bool) : (if p then e.read phyEnabledUsbItf [d.enabledUsbItf] else e) =
      { e with
        enabledUsbItf := if p then d.enabledUsbItf else e.enabledUsbItf
        enabledUsbItfPresent := p || e.enabledUsbItfPresent } := by
    cases p <;> rfl
  have hdriver (e : PhyData) (p : Bool) :
      (if p then e.read phyLedDriver (d.ledDriver :: if d.ledOrderPresent then [d.ledOrder] else []) else e) =
        { e with
          ledDriver := if p then d.ledDriver else e.ledDriver, ledDriverPresent := p || e.ledDriverPresent
          ledOrder := if p && d.ledOrderPresent then d.ledOrder else e.ledOrder
          ledOrderPresent := p && d.ledOrderPresent || e.ledOrderPresent } := by
    rw [read_driver]
    cases p <;> rfl
  simp only [PhyData.fields, readAll_append, readAll_optional, readAll_cons, readAll_nil, read_opts, hvidpid, hgpio,
    hbright, hbtn, hproduct, hcurves, hitf, hdriver, Bool.or_false]
  unfold PhyData.withDefaults PhyData.normal PhyData.product
  cases d.enabledUsbItfPresent with
  | false => cases d.ledDriverPresent && d.ledOrderPresent <;> rfl
  | true => cases d.ledDriverPresent && d.ledOrderPresent <;> rfl

/-- A record with a string for usb_product makes the round trip. -/
theorem round_trips (d : PhyData) (h : d.Terminated) : d.RoundTrips := by
  intro beyond used capacity hused hroom
  have hle := fields_length d h
  have hwrite : phySerializeData d beyond used capacity = some (.ok (flat (d.fields (d.product ++ [0])))) := by
    rw [phySerializeData, if_neg (by omega), encode_eq d h beyond]
    rfl
  have hne : flat (d.fields (d.product ++ [0])) ≠ [] := by
    intro hnil
    have hmem : (phyOpts, putUint16Be d.opts) ∈ d.fields (d.product ++ [0]) := by
      simp [PhyData.fields]
    have hlen := length_of_mem_flat _ _ hmem
    rw [hnil] at hlen
    change 2 ≤ 0 at hlen
    omega
  have hmax : phyMaxSize = 66 := rfl
  obtain ⟨reads, hparse, hreads⟩ := phyUnserializeData_eq _ hne (by omega)
  have hitems : items ((flat (d.fields (d.product ++ [0]))).length + 1) (flat (d.fields (d.product ++ [0]))) =
      d.fields (d.product ++ [0]) := by
    apply items_flat
    · intro i hi
      have := length_of_mem_flat _ _ hi
      omega
    · exact Nat.lt_succ_self _
  rw [hitems, fields_read d h] at hparse
  exact ⟨_, reads, hwrite, hle, hparse, hreads⟩

theorem writesBack_iff (d : PhyData) : d.WritesBack ↔ d.Terminated := by
  constructor
  · exact fun h => h.1
  · intro h
    exact ⟨h, fun beyond => ⟨_, encode_eq d h beyond, fields_length d h⟩⟩

theorem readsSafely_iff (data : Bytes) (hne : data ≠ []) (hlen : data.length ≤ 65535) :
    ReadsSafely data ↔ ¬ Unterminated data := by
  obtain ⟨reads, hparse, hreads⟩ := phyUnserializeData_eq data hne hlen
  rw [← parsed_terminated_iff, ← writesBack_iff]
  constructor
  · rintro ⟨d, out, hd, -, hback⟩
    rw [hparse] at hd
    cases hd
    exact hback
  · intro hback
    exact ⟨_, reads, hparse, hreads, hback⟩

/-- The configuration makes the round trip, and a stored string is read safely, if and only if the product it sets
does not fill usb_product without a zero. -/
theorem phy_round_trip_iff (d : PhyData) (hd : d.Terminated) (data : Bytes) (hne : data ≠ [])
    (hlen : data.length ≤ 65535) : (d.RoundTrips ∧ ReadsSafely data) ↔ ¬ Unterminated data := by
  rw [readsSafely_iff data hne hlen]
  exact ⟨fun h => h.2, fun h => ⟨round_trips d hd, h⟩⟩

/-- All fields, and a product of 32 letters. -/
def sampleStored : Bytes :=
  [0x0, 4, 0xfe, 0xff, 0xfc, 0xfd, 0x4, 1, 25, 0x5, 1, 15, 0x6, 2, 1, 1, 0x8, 1, 15, 0x9, 32] ++
    List.replicate 32 0x41 ++ [0xA, 4, 0, 0, 0, 1, 0xB, 1, 31, 0xC, 2, 3, 2]

/-- All fields, and the product "Key". -/
def namedRecord : PhyData where
  vidpid := ⟨0xff, 0xfe, 0xfd, 0xfc⟩
  enabledCurves := 1
  usbProduct := padded [0x4b, 0x65, 0x79]
  opts := 0x0101
  ledGpio := 25
  ledBrightness := 15
  upBtn := 15
  enabledUsbItf := 31
  ledDriver := 3
  ledOrder := 2
  vidpidPresent := true
  ledGpioPresent := true
  ledBrightnessPresent := true
  upBtnPresent := true
  usbProductPresent := true
  enabledCurvesPresent := true
  enabledUsbItfPresent := true
  ledDriverPresent := true
  ledOrderPresent := true

def namedStored : Bytes :=
  [0x0, 4, 0xfe, 0xff, 0xfc, 0xfd, 0x4, 1, 25, 0x5, 1, 15, 0x6, 2, 1, 1, 0x8, 1, 15, 0x9, 4, 0x4b, 0x65, 0x79, 0,
    0xA, 4, 0, 0, 0, 1, 0xB, 1, 31, 0xC, 2, 3, 2]

theorem phy_round_trip_sample : namedRecord.RoundTrips ∧ ReadsSafely namedStored := by
  have hterminated : namedRecord.Terminated := by
    show 0 ∈ namedRecord.usbProduct.toList
    decide +kernel
  refine (phy_round_trip_iff namedRecord hterminated namedStored (List.cons_ne_nil _ _) (by decide)).mpr ?_
  rintro ⟨v, hv, hlen, -⟩
  have hproduct : productOf (items (namedStored.length + 1) namedStored) = some [0x4b, 0x65, 0x79, 0] := by
    decide +kernel
  rw [hproduct] at hv
  rw [← Option.some.inj hv] at hlen
  exact absurd hlen (by decide)

/-- What is read of the sample is written as more bytes than the buffer of phy_save has. -/
theorem full_product_overflows :
    ¬ ∀ d : PhyData, d.Terminated → ∀ data : Bytes, data ≠ [] → data.length ≤ 65535 →
      d.RoundTrips ∧ ReadsSafely data := by
  intro h
  have hne : sampleStored ≠ [] := List.cons_ne_nil _ _
  have hlen : sampleStored.length ≤ 65535 := by decide +kernel
  obtain ⟨-, d, reads, hparse, -, -, hback⟩ := h {} zero_replicate sampleStored hne hlen
  obtain ⟨out, hout, hle⟩ := hback [0]
  obtain ⟨reads', hparse', -⟩ := phyUnserializeData_eq sampleStored hne hlen
  rw [hparse'] at hparse
  cases hparse
  -- the product runs on through the opts, the LED fields and the flags
  have hwritten : encode (PhyData.readAll {} (items (sampleStored.length + 1) sampleStored)).withDefaults [0] =
      some (flat ([(phyVidpid, [0xfe, 0xff, 0xfc, 0xfd]), (phyLedGpio, [25]), (phyLedBtness, [15]),
        (phyOpts, [1, 1]), (phyUpBtn, [15])] ++
        [(phyUsbProduct, List.replicate 32 0x41 ++ [1, 1, 25, 15, 15, 31, 3, 2, 1, 1, 1, 1, 1, 1, 1, 1, 1, 0])] ++
        [(phyEnabledCurves, [0, 0, 0, 1]), (phyEnabledUsbItf, [31]), (phyLedDriver, [3, 2])])) := by
    decide +kernel
  rw [hwritten, Option.some.injEq] at hout
  rw [← hout] at hle
  exact absurd hle (by decide)

end KeyWallet.Phy
