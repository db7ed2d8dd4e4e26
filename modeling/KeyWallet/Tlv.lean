import Mathlib.Data.List.Basic
import Mathlib.Tactic.Tauto

/-! Tag, length and value: how tlv.c reads a string of them. A tag has one or two bytes, a length
one, two behind 0x81 or three behind 0x82; a tag at the very end has an empty value. -/
namespace Tlv

abbrev Byte := BitVec 8

structure Item where
  tag : Nat
  value : List Byte
  deriving DecidableEq, Repr

/-- The tag at the front, and what is behind it. -/
def readTag : List Byte → Option (Nat × List Byte)
  | [] => none
  | t :: rest =>
    if t &&& 0x1f = 0x1f then
      match rest with
      | [] => none
      | t' :: rest => some (t.toNat * 256 + t'.toNat, rest)
    else some (t.toNat, rest)

/-- The length at the front; nothing at all stands for zero. -/
def readLength : List Byte → Option (Nat × List Byte)
  | [] => some (0, [])
  | l :: rest =>
    if l = 0x82 then
      match rest with
      | a :: b :: rest => some (a.toNat * 256 + b.toNat, rest)
      | _ => none
    else if l = 0x81 then
      match rest with
      | a :: rest => some (a.toNat, rest)
      | [] => none
    else some (l.toNat, rest)

/-- tlv_walk: the item at the front, and what is behind it. -/
def next (data : List Byte) : Option (Item × List Byte) := do
  let (tag, rest) ← readTag data
  let (len, rest) ← readLength rest
  if rest.length < len then none else some (⟨tag, rest.take len⟩, rest.drop len)

/-- The items up to the first that cannot be read, each with what is behind it. -/
def walk : Nat → List Byte → List (Item × List Byte)
  | 0, _ => []
  | fuel + 1, data =>
    match next data with
    | none => []
    | some (item, rest) => (item, rest) :: walk fuel rest

/-- Every item takes a byte at least. -/
def items (data : List Byte) : List (Item × List Byte) := walk data.length data

/-- tlv_find_tag. -/
def findTag (data : List Byte) (tag : Nat) : Option (List Byte) :=
  ((items data).find? fun i => i.1.tag = tag).map fun i => i.1.value

/-- tlv_format_len: how many bytes the length takes. -/
def formatLen (len : Nat) : Nat := if len < 128 then 1 else if len < 256 then 2 else 3

/-- The first item with this tag, and what is behind it. -/
def findItem (data : List Byte) (tag : Nat) : Option (Item × List Byte) :=
  (items data).find? fun i => i.1.tag = tag

/-- Where the value of an item starts, given what is behind it. -/
def valueOffset (data : List Byte) (i : Item × List Byte) : Nat :=
  data.length - i.2.length - i.1.value.length

/-- tlv_format_len: the bytes themselves. -/
def lengthBytes (len : Nat) : List Byte :=
  if len < 128 then [BitVec.ofNat 8 len]
  else if len < 256 then [0x81, BitVec.ofNat 8 len]
  else [0x82, BitVec.ofNat 8 (len / 256), BitVec.ofNat 8 len]

def tagBytes (tag : Nat) : List Byte :=
  if 0xff < tag then [BitVec.ofNat 8 (tag / 256), BitVec.ofNat 8 tag] else [BitVec.ofNat 8 tag]

/-- An item in its shortest form. -/
def encode (tag : Nat) (value : List Byte) : List Byte :=
  tagBytes tag ++ lengthBytes value.length ++ value

/-! How an item is written. -/

/-- The bytes of a tag. -/
inductive TagBytes : Nat → List Byte → Prop
  | short (t : Byte) : t &&& 0x1f ≠ 0x1f → TagBytes t.toNat [t]
  | long (t t' : Byte) : t &&& 0x1f = 0x1f → TagBytes (t.toNat * 256 + t'.toNat) [t, t']

/-- The bytes of a length, in any of its forms. -/
inductive LengthBytes : Nat → List Byte → Prop
  | one (l : Byte) : l ≠ 0x81 → l ≠ 0x82 → LengthBytes l.toNat [l]
  | two (l : Byte) : LengthBytes l.toNat [0x81, l]
  | three (a b : Byte) : LengthBytes (a.toNat * 256 + b.toNat) [0x82, a, b]

theorem readTag_append {tag : Nat} {tb : List Byte} (h : TagBytes tag tb) (rest : List Byte) :
    readTag (tb ++ rest) = some (tag, rest) := by
  cases h with
  | short t ht => exact if_neg ht
  | long t t' ht => exact if_pos ht

theorem readLength_append {len : Nat} {lb : List Byte} (h : LengthBytes len lb) (rest : List Byte) :
    readLength (lb ++ rest) = some (len, rest) := by
  cases h with
  | one l h1 h2 => exact (if_neg h2).trans (if_neg h1)
  | two l => rfl
  | three a b => rfl

/-- An item that is written out is read back, whatever follows it. -/
theorem next_append {tag : Nat} {tb lb value : List Byte} (ht : TagBytes tag tb)
    (hl : LengthBytes value.length lb) (rest : List Byte) :
    next (tb ++ lb ++ value ++ rest) = some (⟨tag, value⟩, rest) := by
  have h1 : readTag (tb ++ lb ++ value ++ rest) = some (tag, lb ++ (value ++ rest)) := by
    rw [List.append_assoc, List.append_assoc, readTag_append ht]
  have h2 : readLength (lb ++ (value ++ rest)) = some (value.length, value ++ rest) :=
    readLength_append hl _
  have h3 : ¬ (value ++ rest).length < value.length := by
    rw [List.length_append]
    omega
  unfold next
  rw [h1]
  simp only [Option.bind_eq_bind, Option.bind_some, h2]
  rw [if_neg h3, List.take_left, List.drop_left]

theorem readTag_cases {data rest : List Byte} {tag : Nat} (h : readTag data = some (tag, rest)) :
    ∃ tb, TagBytes tag tb ∧ data = tb ++ rest := by
  unfold readTag at h
  split at h
  · cases h
  · next t rest' =>
    split_ifs at h with ht
    · split at h
      · cases h
      · next t' rest'' =>
        obtain ⟨rfl, rfl⟩ := Prod.mk.inj (Option.some.inj h)
        exact ⟨[t, t'], .long t t' ht, rfl⟩
    · obtain ⟨rfl, rfl⟩ := Prod.mk.inj (Option.some.inj h)
      exact ⟨[t], .short t ht, rfl⟩

theorem readLength_cases {data rest : List Byte} {len : Nat} (h : readLength data = some (len, rest)) :
    (data = [] ∧ len = 0 ∧ rest = []) ∨ ∃ lb, LengthBytes len lb ∧ data = lb ++ rest := by
  unfold readLength at h
  split at h
  · obtain ⟨rfl, rfl⟩ := Prod.mk.inj (Option.some.inj h)
    exact .inl ⟨rfl, rfl, rfl⟩
  · next l rest' =>
    right
    split_ifs at h with h82 h81
    · split at h
      · next a b rest'' =>
        obtain ⟨rfl, rfl⟩ := Prod.mk.inj (Option.some.inj h)
        exact ⟨[0x82, a, b], .three a b, by rw [h82]; rfl⟩
      · cases h
    · split at h
      · next a rest'' =>
        obtain ⟨rfl, rfl⟩ := Prod.mk.inj (Option.some.inj h)
        exact ⟨[0x81, a], .two a, by rw [h81]; rfl⟩
      · cases h
    · obtain ⟨rfl, rfl⟩ := Prod.mk.inj (Option.some.inj h)
      exact ⟨[l], .one l h81 h82, rfl⟩

theorem next_cases {data rest : List Byte} {i : Item} (h : next data = some (i, rest)) :
    (∃ tb lb, TagBytes i.tag tb ∧ LengthBytes i.value.length lb ∧ data = tb ++ lb ++ i.value ++ rest) ∨
      (TagBytes i.tag data ∧ i.value = [] ∧ rest = []) := by
  unfold next at h
  simp only [Option.bind_eq_bind, Option.bind_eq_some_iff] at h
  obtain ⟨⟨tag, rest1⟩, h1, ⟨len, rest2⟩, h2, h⟩ := h
  obtain ⟨tb, htb, rfl⟩ := readTag_cases h1
  dsimp only at h2 h
  split_ifs at h with hlen
  obtain ⟨rfl, rfl⟩ := Prod.mk.inj (Option.some.inj h)
  rcases readLength_cases h2 with ⟨rfl, rfl, rfl⟩ | ⟨lb, hlb, rfl⟩
  · right
    simpa using htb
  · left
    have htake : (rest2.take len).length = len := by
      rw [List.length_take]
      omega
    refine ⟨tb, lb, htb, ?_, ?_⟩
    · dsimp only
      rw [htake]
      exact hlb
    · simp

theorem TagBytes.pos {tag : Nat} {tb : List Byte} (h : TagBytes tag tb) : 0 < tb.length := by
  cases h with
  | short t _ => exact Nat.one_pos
  | long t t' _ => exact Nat.two_pos

theorem LengthBytes.pos {len : Nat} {lb : List Byte} (h : LengthBytes len lb) : 0 < lb.length := by
  cases h with
  | one l _ _ => exact Nat.one_pos
  | two l => exact Nat.two_pos
  | three a b => exact Nat.succ_pos 2

theorem next_length {data rest : List Byte} {i : Item} (h : next data = some (i, rest)) :
    rest.length < data.length := by
  rcases next_cases h with ⟨tb, lb, htb, -, rfl⟩ | ⟨htb, -, rfl⟩
  · have := htb.pos
    simp only [List.length_append]
    omega
  · exact htb.pos

/-! Walking over the whole string. -/

theorem walk_fuel (n m : Nat) (data : List Byte) (hn : data.length ≤ n) (hm : data.length ≤ m) :
    walk n data = walk m data := by
  induction n generalizing m data with
  | zero =>
    have h0 : data = [] := List.eq_nil_of_length_eq_zero (Nat.le_zero.mp hn)
    subst h0
    cases m with
    | zero => rfl
    | succ m => rfl
  | succ n ih =>
    cases m with
    | zero =>
      have h0 : data = [] := List.eq_nil_of_length_eq_zero (Nat.le_zero.mp hm)
      subst h0
      rfl
    | succ m =>
      unfold walk
      split
      · rfl
      · next item rest hnext =>
        have hlt := next_length hnext
        rw [ih m rest (by omega) (by omega)]

theorem items_eq (data : List Byte) :
    items data = (next data).elim [] fun r => r :: items r.2 := by
  cases hd : data with
  | nil => rfl
  | cons b l =>
    have hwalk : items (b :: l) = (next (b :: l)).elim [] fun r => r :: walk l.length r.2 := by
      show walk (l.length + 1) (b :: l) = _
      rw [walk]
      cases next (b :: l) <;> rfl
    rw [hwalk]
    cases hn : next (b :: l) with
    | none => rfl
    | some r =>
      have hlt := next_length hn
      rw [List.length_cons] at hlt
      have hfuel : walk l.length r.2 = items r.2 :=
        walk_fuel l.length r.2.length r.2 (by omega) (Nat.le_refl _)
      show r :: walk l.length r.2 = r :: items r.2
      rw [hfuel]

theorem findItem_eq (data : List Byte) (tag : Nat) :
    findItem data tag = (next data).elim none fun r =>
      if r.1.tag = tag then some r else findItem r.2 tag := by
  unfold findItem
  rw [items_eq data]
  cases next data with
  | none => rfl
  | some r =>
    show List.find? _ (r :: items r.2) = _
    rw [List.find?_cons]
    by_cases ht : r.1.tag = tag
    · simp [ht]
    · simp [ht]

theorem findTag_eq_findItem (data : List Byte) (tag : Nat) :
    findTag data tag = (findItem data tag).map fun i => i.1.value := rfl

theorem findItem_append {tag tag' : Nat} {tb lb value : List Byte} (ht : TagBytes tag tb)
    (hl : LengthBytes value.length lb) (rest : List Byte) :
    findItem (tb ++ lb ++ value ++ rest) tag' =
      if tag = tag' then some (⟨tag, value⟩, rest) else findItem rest tag' := by
  rw [findItem_eq, next_append ht hl]
  rfl

/-- The first item with a tag: `front` ends with the tag, `lb` are the bytes of the length and
`post` is what is behind the value. -/
inductive Place (tag : Nat) : List Byte → List Byte → List Byte → List Byte → Prop
  | here {tb lb value : List Byte} (ht : TagBytes tag tb) (hl : LengthBytes value.length lb)
      (post : List Byte) : Place tag tb lb value post
  | there {tag' : Nat} {tb lb' value' front lb value post : List Byte} (ht : TagBytes tag' tb)
      (hl : LengthBytes value'.length lb') (hne : tag' ≠ tag) (h : Place tag front lb value post) :
      Place tag (tb ++ lb' ++ value' ++ front) lb value post

namespace Place

variable {tag : Nat} {front lb value post : List Byte}

theorem replace (h : Place tag front lb value post) {lb' value' : List Byte}
    (hl : LengthBytes value'.length lb') (post' : List Byte) : Place tag front lb' value' post' := by
  induction h with
  | here ht _ _ => exact .here ht hl post'
  | there ht hl' hne _ ih => exact .there ht hl' hne ih

theorem length_bytes (h : Place tag front lb value post) : LengthBytes value.length lb := by
  induction h with
  | here _ hl _ => exact hl
  | there _ _ _ _ ih => exact ih

theorem findItem_self (h : Place tag front lb value post) :
    findItem (front ++ lb ++ value ++ post) tag = some (⟨tag, value⟩, post) := by
  induction h with
  | here ht hl post => rw [findItem_append ht hl, if_pos rfl]
  | there ht hl hne h ih =>
    rw [List.append_assoc, List.append_assoc, List.append_assoc _ _ (_ ++ (_ ++ _)),
      findItem_append ht hl, if_neg hne]
    rw [List.append_assoc, List.append_assoc] at ih
    exact ih

/-- Other tags are found as if the value were another. -/
theorem findTag_other (h : Place tag front lb value post) {lb' value' : List Byte}
    (hl : LengthBytes value'.length lb') {tag' : Nat} (hne : tag' ≠ tag) :
    findTag (front ++ lb' ++ value' ++ post) tag' = findTag (front ++ lb ++ value ++ post) tag' := by
  simp only [findTag_eq_findItem]
  induction h with
  | here ht hl0 post =>
    rw [findItem_append ht hl, findItem_append ht hl0, if_neg hne.symm, if_neg hne.symm]
  | @there tag'' tb lb'' value'' front lb value post ht hl0 hne0 h ih =>
    have hsplit : ∀ x y : List Byte, tb ++ lb'' ++ value'' ++ front ++ x ++ y ++ post =
        tb ++ lb'' ++ value'' ++ (front ++ x ++ y ++ post) := by
      intro x y
      simp only [List.append_assoc]
    rw [hsplit, hsplit, findItem_append ht hl0, findItem_append ht hl0]
    split_ifs
    · rfl
    · exact ih

end Place

theorem findItem_place {data : List Byte} {tag : Nat} {i : Item × List Byte}
    (h : findItem data tag = some i) :
    i.1.tag = tag ∧
    ((∃ front lb, Place tag front lb i.1.value i.2 ∧ data = front ++ lb ++ i.1.value ++ i.2) ∨
      (i.1.value = [] ∧ i.2 = [] ∧ ∃ front tb, TagBytes tag tb ∧ data = front ++ tb)) := by
  induction hn : data.length using Nat.strongRecOn generalizing data with
  | _ n ih =>
    rw [findItem_eq] at h
    cases hnext : next data with
    | none =>
      rw [hnext] at h
      cases h
    | some r =>
      rw [hnext] at h
      have h' : (if r.1.tag = tag then some r else findItem r.2 tag) = some i := h
      by_cases ht : r.1.tag = tag
      · rw [if_pos ht, Option.some.injEq] at h'
        subst h'
        refine ⟨ht, ?_⟩
        rcases next_cases hnext with ⟨tb, lb, htb, hlb, hdata⟩ | ⟨htb, hv, hr⟩
        · left
          rw [ht] at htb
          exact ⟨tb, lb, .here htb hlb _, hdata⟩
        · right
          rw [ht] at htb
          exact ⟨hv, hr, [], data, htb, rfl⟩
      · rw [if_neg ht] at h'
        have hlt := next_length hnext
        obtain ⟨htag, hplace⟩ := ih r.2.length (by omega) h' rfl
        refine ⟨htag, ?_⟩
        rcases next_cases hnext with ⟨tb, lb, htb, hlb, hdata⟩ | ⟨htb, hv, hr⟩
        · rcases hplace with ⟨front, lb', hp, hrest⟩ | ⟨hv, hpost, front, tb', htb', hrest⟩
          · left
            refine ⟨tb ++ lb ++ r.1.value ++ front, lb', .there htb hlb ht hp, ?_⟩
            rw [hdata, hrest]
            simp only [List.append_assoc]
          · right
            refine ⟨hv, hpost, tb ++ lb ++ r.1.value ++ front, tb', htb', ?_⟩
            rw [hdata, hrest]
            simp only [List.append_assoc]
        · rw [hr] at h'
          cases h'

/-! Writing. -/

theorem lengthBytes_spec {n : Nat} (h : n < 65536) : LengthBytes n (lengthBytes n) := by
  unfold lengthBytes
  split_ifs with h1 h2
  · have hn : (BitVec.ofNat 8 n).toNat = n := by
      rw [BitVec.toNat_ofNat]
      omega
    have h81 : BitVec.ofNat 8 n ≠ 0x81 := by
      intro heq
      have := congrArg BitVec.toNat heq
      rw [hn] at this
      simp at this
      omega
    have h82 : BitVec.ofNat 8 n ≠ 0x82 := by
      intro heq
      have := congrArg BitVec.toNat heq
      rw [hn] at this
      simp at this
      omega
    have hone := LengthBytes.one (BitVec.ofNat 8 n) h81 h82
    rwa [hn] at hone
  · have htwo := LengthBytes.two (BitVec.ofNat 8 n)
    rwa [BitVec.toNat_ofNat, Nat.mod_eq_of_lt (by omega)] at htwo
  · have hthree := LengthBytes.three (BitVec.ofNat 8 (n / 256)) (BitVec.ofNat 8 n)
    have hn : (BitVec.ofNat 8 (n / 256)).toNat * 256 + (BitVec.ofNat 8 n).toNat = n := by
      rw [BitVec.toNat_ofNat, BitVec.toNat_ofNat]
      omega
    rwa [hn] at hthree

theorem tagBytes_of_read {tag : Nat} {tb : List Byte} (h : TagBytes tag tb) : tagBytes tag = tb := by
  unfold tagBytes
  cases h with
  | short t ht =>
    have hlt := t.isLt
    rw [if_neg (by omega)]
    simp
  | long t t' ht =>
    have hlt' := t'.isLt
    have hpos : 0x1f ≤ t.toNat := by
      have hand := congrArg BitVec.toNat ht
      rw [BitVec.toNat_and] at hand
      have hle : t.toNat &&& (0x1f : Byte).toNat ≤ t.toNat := Nat.and_le_left
      rw [hand] at hle
      exact hle
    rw [if_pos (by omega)]
    have h1 : (t.toNat * 256 + t'.toNat) / 256 = t.toNat := by omega
    have h2 : BitVec.ofNat 8 (t.toNat * 256 + t'.toNat) = t' := by
      apply BitVec.eq_of_toNat_eq
      rw [BitVec.toNat_ofNat]
      omega
    rw [h1, h2]
    simp

theorem findItem_encode {tag tag' : Nat} (ht : TagBytes tag (tagBytes tag)) {value : List Byte}
    (hv : value.length < 65536) (rest : List Byte) :
    findItem (encode tag value ++ rest) tag' =
      if tag = tag' then some (⟨tag, value⟩, rest) else findItem rest tag' :=
  findItem_append ht (lengthBytes_spec hv) rest

theorem findTag_encode {tag : Nat} (ht : TagBytes tag (tagBytes tag)) {value : List Byte}
    (hv : value.length < 65536) (rest : List Byte) (tag' : Nat) :
    findTag (encode tag value ++ rest) tag' =
      if tag = tag' then some value else findTag rest tag' := by
  rw [findTag_eq_findItem, findItem_encode ht hv]
  split_ifs <;> rfl

/-- All items again, with other values. -/
def encodeAll (f : Item → List Byte) (data : List Byte) : List Byte :=
  (items data).flatMap fun i => encode i.1.tag (f i.1)

theorem findTag_encodeAll (f : Item → List Byte) (data : List Byte) (tag : Nat)
    (hf : ∀ i ∈ items data, (f i.1).length < 65536) :
    findTag (encodeAll f data) tag = (findItem data tag).map fun i => f i.1 := by
  rw [findTag_eq_findItem]
  induction hn : data.length using Nat.strongRecOn generalizing data with
  | _ n ih =>
    unfold encodeAll
    rw [findItem_eq data]
    rw [items_eq data] at hf ⊢
    cases hnext : next data with
    | none => rfl
    | some r =>
      rw [hnext] at hf
      have htb : TagBytes r.1.tag (tagBytes r.1.tag) := by
        rcases next_cases hnext with ⟨tb, lb, htb, -, -⟩ | ⟨htb, -, -⟩
        · rw [tagBytes_of_read htb]
          exact htb
        · rw [tagBytes_of_read htb]
          exact htb
      have hlt := next_length hnext
      have hrest := ih r.2.length (by omega) r.2 (fun i hi => hf i (List.mem_cons_of_mem _ hi)) rfl
      show ((findItem (encode r.1.tag (f r.1) ++ encodeAll f r.2) tag).map _) =
        (if r.1.tag = tag then some r else findItem r.2 tag).map _
      rw [findItem_encode htb (hf r (List.mem_cons_self ..))]
      split_ifs
      · rfl
      · exact hrest

theorem LengthBytes.lt {len : Nat} {lb : List Byte} (h : LengthBytes len lb) : len < 65536 := by
  cases h with
  | one l _ _ =>
    have := l.isLt
    omega
  | two l =>
    have := l.isLt
    omega
  | three a b =>
    have ha := a.isLt
    have hb := b.isLt
    omega

theorem item_lt {data : List Byte} {i : Item × List Byte} (h : i ∈ items data) :
    i.1.value.length < 65536 := by
  induction hn : data.length using Nat.strongRecOn generalizing data with
  | _ n ih =>
    rw [items_eq] at h
    cases hnext : next data with
    | none =>
      rw [hnext] at h
      cases h
    | some r =>
      rw [hnext] at h
      have hlt := next_length hnext
      rcases List.mem_cons.mp h with rfl | h
      · rcases next_cases hnext with ⟨tb, lb, -, hlb, -⟩ | ⟨-, hv, -⟩
        · exact hlb.lt
        · rw [hv]
          exact Nat.zero_lt_succ _
      · exact ih r.2.length (by omega) h rfl

theorem findTag_lt {data value : List Byte} {tag : Nat} (h : findTag data tag = some value) :
    value.length < 65536 := by
  obtain ⟨i, hi, rfl⟩ := Option.map_eq_some_iff.mp h
  exact item_lt (List.mem_of_find?_eq_some hi)

theorem Place.findItem_other {tag tag' : Nat} {front lb value post : List Byte}
    (h : Place tag front lb value post) (hne : tag ≠ tag') {r : Item × List Byte}
    (hr : findItem (front ++ lb ++ value ++ post) tag' = some r) :
    (∃ s, r.2 = s ++ (lb ++ value ++ post)) ∨ findItem post tag' = some r := by
  induction h with
  | here ht hl post =>
    rw [findItem_append ht hl, if_neg hne] at hr
    exact .inr hr
  | @there tag'' tb lb'' value'' front lb value post ht hl hne' h ih =>
    have hsplit : tb ++ lb'' ++ value'' ++ front ++ lb ++ value ++ post =
        tb ++ lb'' ++ value'' ++ (front ++ lb ++ value ++ post) := by
      simp only [List.append_assoc]
    rw [hsplit, findItem_append ht hl] at hr
    split_ifs at hr with heq
    · left
      rw [← Option.some.inj hr]
      refine ⟨front, ?_⟩
      simp only [List.append_assoc]
    · exact ih hr

theorem Place.findTag_append {tag : Nat} {front lb value post : List Byte}
    (h : Place tag front lb value post) (post' : List Byte) :
    findTag (front ++ lb ++ value ++ post') tag = some value := by
  rw [findTag_eq_findItem, (h.replace h.length_bytes post').findItem_self]
  rfl

end Tlv
