import KeyWallet.MetaMap

/-! tlv_walk and tlv_find_tag as they go through memory: with a pointer into the data, and the bytes that they
read on the way. -/
namespace KeyWallet.TlvCursor

open Tlv (Item next readLength readTag items encode lengthBytes tagBytes TagBytes)
open Meta (lenTag)

/-- tlv_item_t: the value is a stretch of the data. -/
structure Span where
  tag : Nat
  start : Nat
  len : Nat
  deriving DecidableEq, Repr

def valueAt (data : Bytes) (s : Span) : Bytes := (data.drop s.start).take s.len

/-- A call of tlv_walk: the item, if the call returns 1, the pointer that it leaves, and the offsets of the bytes
that it has read. -/
structure Call where
  item : Option Span
  p : Nat
  reads : List Nat
  deriving DecidableEq, Repr

section Functions

variable (data : Bytes)

/-- The end of tlv_walk. The pointer is never behind the data, so that the difference does not wrap. -/
def takeValue (tag len p : Nat) (reads : List Nat) : Call :=
  if data.length - p < len then ⟨none, p, reads⟩
  else ⟨some ⟨tag, p, len⟩, p + len, reads⟩

/-- tlv_walk from the length on. A tag at the very end has an empty value. -/
def takeLength (tag p : Nat) (reads : List Nat) : Call :=
  if data.length ≤ p then takeValue data tag 0 p reads
  else if data.getD p 0 = 0x82 then
    if data.length - (p + 1) < 2 then ⟨none, p + 1, reads ++ [p]⟩
    else
      takeValue data tag ((data.getD (p + 1) 0).toNat * 256 + (data.getD (p + 2) 0).toNat) (p + 3)
        (reads ++ [p, p + 1, p + 2])
  else if data.getD p 0 = 0x81 then
    if data.length ≤ p + 1 then ⟨none, p + 1, reads ++ [p]⟩
    else takeValue data tag (data.getD (p + 1) 0).toNat (p + 2) (reads ++ [p, p + 1])
  else takeValue data tag (data.getD p 0).toNat (p + 1) (reads ++ [p])

/-- tlv_walk. A null pointer stands for the beginning. -/
def tlvWalk (p : Option Nat) : Call :=
  let p := p.getD 0
  if data.length ≤ p then ⟨none, p, []⟩
  else if data.getD p 0 &&& 0x1f = 0x1f then
    if data.length ≤ p + 1 then ⟨none, p + 1, [p]⟩
    else takeLength data ((data.getD p 0).toNat * 256 + (data.getD (p + 1) 0).toNat) (p + 2) [p, p + 1]
  else takeLength data (data.getD p 0).toNat (p + 1) [p]

/-- The loop over tlv_walk until it returns 0; `none` when the fuel does not last. -/
def walkFrom : Nat → Option Nat → Option (List Call)
  | 0, _ => none
  | fuel + 1, p =>
    let c := tlvWalk data p
    if c.item.isNone then some [c] else (walkFrom fuel (some c.p)).map (c :: ·)

/-- tlv_find_tag, with the length in 16 bits. -/
def findFrom (tag : Nat) : Nat → Option Nat → Option (Option Span)
  | 0, _ => none
  | fuel + 1, p =>
    let c := tlvWalk data p
    match c.item with
    | none => some none
    | some s => if s.tag = tag then some (some { s with len := s.len % 65536 }) else findFrom tag fuel (some c.p)

end Functions

/-- The values lie one behind the other from `lo` on, each behind its tag, and end by `hi`. -/
def InOrder (hi : Nat) : Nat → List Span → Prop
  | lo, [] => lo ≤ hi
  | lo, s :: spans => lo < s.start ∧ InOrder hi (s.start + s.len) spans

/-- Walking over the data ends, reads nothing outside them, and gives items that lie inside in their order. -/
def Sound (data : Bytes) : Prop :=
  ∃ calls, (∀ fuel, data.length < fuel → walkFrom data fuel none = some calls) ∧
    (∀ c ∈ calls, c.p ≤ data.length ∧ ∀ i ∈ c.reads, i < data.length) ∧
    InOrder data.length 0 (calls.filterMap (·.item))

/-- A tag of one byte, or of two. -/
def Encodable (tag : Nat) : Prop :=
  (tag < 256 ∧ tag % 32 ≠ 31) ∨ (256 ≤ tag ∧ tag < 65536 ∧ tag / 256 % 32 = 31)

def encodeList (pairs : List (Nat × Bytes)) : Bytes := pairs.flatMap fun p => encode p.1 p.2

/-- What was encoded is walked over and found again, and has the size that tlv_len_tag says. -/
structure Inverse (pairs : List (Nat × Bytes)) : Prop where
  walked : ∃ calls, (∀ fuel, (encodeList pairs).length < fuel → walkFrom (encodeList pairs) fuel none = some calls) ∧
    (calls.filterMap (·.item)).map (fun s => (s.tag, valueAt (encodeList pairs) s)) = pairs
  found : ∀ tag, ∃ r, (∀ fuel, (encodeList pairs).length < fuel →
      findFrom (encodeList pairs) tag fuel none = some r) ∧
    r.map (fun s => (s.tag, valueAt (encodeList pairs) s)) = pairs.find? fun p => p.1 = tag
  sized : ∀ p ∈ pairs, (encode p.1 p.2).length < 65536 → lenTag p.1 p.2.length = (encode p.1 p.2).length

/-- The item whose tag and length have been read. -/
def finish (tag : Nat) (r : Nat × Bytes) : Option (Item × Bytes) :=
  if r.2.length < r.1 then none else some (⟨tag, r.2.take r.1⟩, r.2.drop r.1)

/-! One call. -/

section Calls

variable {data : Bytes} {p : Nat}

/-- The call reads what `read` reads behind `p`. -/
structure Agrees (data : Bytes) (p : Nat) (read : Option (Item × Bytes)) (c : Call) : Prop where
  item : read = c.item.map fun s => (⟨s.tag, valueAt data s⟩, data.drop c.p)
  place : ∀ s, c.item = some s → p ≤ s.start ∧ s.start + s.len = c.p ∧ s.len < 65536
  within : c.p ≤ data.length
  reads : ∀ i ∈ c.reads, i < data.length

theorem drop_getD (hp : p < data.length) : data.drop p = data.getD p 0 :: data.drop (p + 1) := by
  have hget : data.getD p 0 = data[p] := by
    rw [List.getD_eq_getElem?_getD, List.getElem?_eq_getElem hp, Option.getD_some]
  rw [hget]
  exact List.drop_eq_getElem_cons hp

theorem agrees_none {reads : List Nat} (hp : p ≤ data.length) (lo : Nat) (hreads : ∀ i ∈ reads, i < data.length) :
    Agrees data lo none ⟨none, p, reads⟩ where
  item := rfl
  place := fun _ h => absurd h.symm (Option.some_ne_none _)
  within := hp
  reads := hreads

theorem takeValue_agrees (tag : Nat) {len : Nat} {reads : List Nat} (hp : p ≤ data.length) (hlen : len < 65536)
    (hreads : ∀ i ∈ reads, i < data.length) :
    Agrees data p (finish tag (len, data.drop p)) (takeValue data tag len p reads) := by
  unfold takeValue finish
  dsimp only
  rw [List.length_drop]
  by_cases hshort : data.length - p < len
  · rw [if_pos hshort, if_pos hshort]
    exact agrees_none hp p hreads
  · rw [if_neg hshort, if_neg hshort]
    refine ⟨?_, ?_, ?_, hreads⟩
    · rw [List.drop_drop]
      rfl
    · intro s hs
      obtain rfl := Option.some.inj hs
      exact ⟨Nat.le_refl p, rfl, hlen⟩
    · show p + len ≤ data.length
      omega

theorem Agrees.mono {lo : Nat} {read : Option (Item × Bytes)} {c : Call} (h : Agrees data p read c) (hlo : lo ≤ p) :
    Agrees data lo read c := by
  refine ⟨h.item, ?_, h.within, h.reads⟩
  intro s hs
  obtain ⟨hstart, hrest⟩ := h.place s hs
  exact ⟨Nat.le_trans hlo hstart, hrest⟩

theorem reads_append {reads : List Nat} (more : List Nat) (hreads : ∀ i ∈ reads, i < data.length)
    (hmore : ∀ i ∈ more, i < data.length) : ∀ i ∈ reads ++ more, i < data.length := by
  intro i hi
  rcases List.mem_append.mp hi with hi | hi
  · exact hreads i hi
  · exact hmore i hi

theorem takeLength_agrees (tag : Nat) {reads : List Nat} (hp : p ≤ data.length)
    (hreads : ∀ i ∈ reads, i < data.length) :
    Agrees data p ((readLength (data.drop p)).bind (finish tag)) (takeLength data tag p reads) := by
  unfold takeLength
  by_cases hend : data.length ≤ p
  · have hnil : data.drop p = [] := List.drop_eq_nil_of_le hend
    have hvalue := takeValue_agrees tag hp (by decide : 0 < 65536) hreads
    rw [if_pos hend, hnil]
    rw [hnil] at hvalue
    exact hvalue
  rw [if_neg hend, drop_getD (by omega)]
  by_cases h82 : data.getD p 0 = 0x82
  · rw [if_pos h82, h82]
    by_cases htwo : data.length - (p + 1) < 2
    · -- one byte at most behind the 0x82
      have hread : readLength (0x82 :: data.drop (p + 1)) = none := by
        have hcount : (data.drop (p + 1)).length < 2 := by
          rw [List.length_drop]
          exact htwo
        rcases hrest : data.drop (p + 1) with _ | ⟨a, _ | ⟨b, rest⟩⟩
        · rfl
        · rfl
        · rw [hrest] at hcount
          simp only [List.length_cons] at hcount
          omega
      rw [if_pos htwo, hread]
      apply agrees_none (by omega)
      apply reads_append [p] hreads
      intro i hi
      rw [List.mem_singleton.mp hi]
      omega
    · rw [if_neg htwo, drop_getD (by omega : p + 1 < data.length), drop_getD (by omega : p + 1 + 1 < data.length)]
      have hsize : (data.getD (p + 1) 0).toNat * 256 + (data.getD (p + 2) 0).toNat < 65536 := by
        have ha := (data.getD (p + 1) 0).isLt
        have hb := (data.getD (p + 2) 0).isLt
        omega
      have hvalue := takeValue_agrees tag (by omega : p + 3 ≤ data.length) hsize
        (reads_append [p, p + 1, p + 2] hreads (by
          intro i hi
          simp only [List.mem_cons, List.not_mem_nil, or_false] at hi
          omega))
      exact hvalue.mono (by omega)
  rw [if_neg h82]
  by_cases h81 : data.getD p 0 = 0x81
  · rw [if_pos h81, h81]
    by_cases hone : data.length ≤ p + 1
    · have hnil : data.drop (p + 1) = [] := List.drop_eq_nil_of_le hone
      have hread : readLength [0x81] = none := rfl
      rw [if_pos hone, hnil, hread]
      apply agrees_none (by omega)
      apply reads_append [p] hreads
      intro i hi
      rw [List.mem_singleton.mp hi]
      omega
    · rw [if_neg hone, drop_getD (by omega : p + 1 < data.length)]
      have hsize : (data.getD (p + 1) 0).toNat < 65536 := by
        have ha := (data.getD (p + 1) 0).isLt
        omega
      have hvalue := takeValue_agrees tag (by omega : p + 2 ≤ data.length) hsize
        (reads_append [p, p + 1] hreads (by
          intro i hi
          simp only [List.mem_cons, List.not_mem_nil, or_false] at hi
          omega))
      exact hvalue.mono (by omega)
  · have hread : readLength (data.getD p 0 :: data.drop (p + 1)) =
        some ((data.getD p 0).toNat, data.drop (p + 1)) := (if_neg h82).trans (if_neg h81)
    rw [if_neg h81, hread]
    have hsize : (data.getD p 0).toNat < 65536 := by
      have ha := (data.getD p 0).isLt
      omega
    have hvalue := takeValue_agrees tag (by omega : p + 1 ≤ data.length) hsize
      (reads_append [p] hreads (by
        intro i hi
        rw [List.mem_singleton.mp hi]
        omega))
    exact hvalue.mono (by omega)

theorem next_eq (d : Bytes) : next d = (readTag d).bind fun t => (readLength t.2).bind (finish t.1) := by
  unfold next
  cases readTag d with
  | none => rfl
  | some t =>
    obtain ⟨tag, rest⟩ := t
    show (readLength rest).bind _ = (readLength rest).bind (finish tag)
    cases readLength rest with
    | none => rfl
    | some r => rfl

theorem tlvWalk_agrees (hp : p ≤ data.length) : Agrees data (p + 1) (next (data.drop p)) (tlvWalk data (some p)) := by
  unfold tlvWalk
  dsimp only [Option.getD_some]
  rw [next_eq]
  by_cases hend : data.length ≤ p
  · have hnil : data.drop p = [] := List.drop_eq_nil_of_le hend
    have hread : readTag [] = none := rfl
    rw [if_pos hend, hnil, hread]
    exact agrees_none hp (p + 1) fun i hi => absurd hi List.not_mem_nil
  have hfirst : ∀ i ∈ [p], i < data.length := by
    intro i hi
    rw [List.mem_singleton.mp hi]
    omega
  rw [if_neg hend, drop_getD (by omega)]
  by_cases hlong : data.getD p 0 &&& 0x1f = 0x1f
  · rw [if_pos hlong]
    by_cases hone : data.length ≤ p + 1
    · have hnil : data.drop (p + 1) = [] := List.drop_eq_nil_of_le hone
      have hread : readTag [data.getD p 0] = none := if_pos hlong
      rw [if_pos hone, hnil, hread]
      exact agrees_none (by omega) (p + 1) hfirst
    · have hread : readTag (data.getD p 0 :: data.getD (p + 1) 0 :: data.drop (p + 1 + 1)) =
          some ((data.getD p 0).toNat * 256 + (data.getD (p + 1) 0).toNat, data.drop (p + 1 + 1)) := if_pos hlong
      rw [if_neg hone, drop_getD (by omega : p + 1 < data.length), hread]
      have hlength := takeLength_agrees ((data.getD p 0).toNat * 256 + (data.getD (p + 1) 0).toNat)
        (by omega : p + 2 ≤ data.length) (reads_append [p + 1] hfirst (by
          intro i hi
          rw [List.mem_singleton.mp hi]
          omega))
      exact hlength.mono (by omega)
  · have hread : readTag (data.getD p 0 :: data.drop (p + 1)) =
        some ((data.getD p 0).toNat, data.drop (p + 1)) := if_neg hlong
    rw [if_neg hlong, hread]
    exact takeLength_agrees _ (by omega) hfirst

end Calls

/-! The loops. -/

section Loops

variable {data : Bytes}

/-- What the loop from `p` on has done. -/
structure Walked (data : Bytes) (p : Nat) (calls : List Call) : Prop where
  inside : ∀ c ∈ calls, c.p ≤ data.length ∧ ∀ i ∈ c.reads, i < data.length
  order : InOrder data.length p (calls.filterMap (·.item))
  read : (calls.filterMap (·.item)).map (fun s => (⟨s.tag, valueAt data s⟩ : Item)) =
    (items (data.drop p)).map Prod.fst

theorem walkFrom_ends (p : Nat) (hp : p ≤ data.length) : ∃ calls,
    (∀ fuel, data.length - p < fuel → walkFrom data fuel (some p) = some calls) ∧ Walked data p calls := by
  induction hn : data.length - p using Nat.strongRecOn generalizing p with
  | _ n ih =>
    have hcall := tlvWalk_agrees hp
    cases hitem : (tlvWalk data (some p)).item with
    | none =>
      have hnext : next (data.drop p) = none := by
        rw [hcall.item, hitem]
        rfl
      have hnone : [tlvWalk data (some p)].filterMap (·.item) = [] := List.filterMap_cons_none hitem
      refine ⟨[tlvWalk data (some p)], ?_, ?_, ?_, ?_⟩
      · intro fuel hfuel
        obtain ⟨k, rfl⟩ := Nat.exists_eq_succ_of_ne_zero (by omega : fuel ≠ 0)
        unfold walkFrom
        dsimp only
        rw [hitem, Option.isNone_none, if_pos rfl]
      · intro c hc
        rw [List.mem_singleton.mp hc]
        exact ⟨hcall.within, hcall.reads⟩
      · rw [hnone]
        exact hp
      · rw [hnone, Tlv.items_eq, hnext]
        rfl
    | some s =>
      obtain ⟨hstart, hend, -⟩ := hcall.place s hitem
      have hwithin := hcall.within
      have hnext : next (data.drop p) = some (⟨s.tag, valueAt data s⟩, data.drop (tlvWalk data (some p)).p) := by
        rw [hcall.item, hitem]
        rfl
      obtain ⟨calls, hcalls, hwalked⟩ := ih (data.length - (tlvWalk data (some p)).p) (by omega) _ hwithin rfl
      have hcons : (tlvWalk data (some p) :: calls).filterMap (·.item) = s :: calls.filterMap (·.item) :=
        List.filterMap_cons_some hitem
      refine ⟨tlvWalk data (some p) :: calls, ?_, ?_, ?_, ?_⟩
      · intro fuel hfuel
        obtain ⟨k, rfl⟩ := Nat.exists_eq_succ_of_ne_zero (by omega : fuel ≠ 0)
        have hrest := hcalls k (by omega)
        unfold walkFrom
        dsimp only
        rw [hitem, Option.isNone_some, if_neg Bool.false_ne_true, hrest]
        rfl
      · intro c hc
        rcases List.mem_cons.mp hc with rfl | hc
        · exact ⟨hwithin, hcall.reads⟩
        · exact hwalked.inside c hc
      · rw [hcons]
        refine ⟨hstart, ?_⟩
        rw [hend]
        exact hwalked.order
      · rw [hcons, List.map_cons, hwalked.read, Tlv.items_eq (data.drop p), hnext]
        rfl

/-- What tlv_find_tag gives is the first item with the tag. -/
theorem findFrom_ends (tag p : Nat) (hp : p ≤ data.length) : ∃ r,
    (∀ fuel, data.length - p < fuel → findFrom data tag fuel (some p) = some r) ∧
      r.map (fun s => (⟨s.tag, valueAt data s⟩ : Item)) =
        ((items (data.drop p)).map Prod.fst).find? fun i => i.tag = tag := by
  induction hn : data.length - p using Nat.strongRecOn generalizing p with
  | _ n ih =>
    have hcall := tlvWalk_agrees hp
    cases hitem : (tlvWalk data (some p)).item with
    | none =>
      have hnext : next (data.drop p) = none := by
        rw [hcall.item, hitem]
        rfl
      refine ⟨none, ?_, ?_⟩
      · intro fuel hfuel
        obtain ⟨k, rfl⟩ := Nat.exists_eq_succ_of_ne_zero (by omega : fuel ≠ 0)
        unfold findFrom
        dsimp only
        rw [hitem]
      · rw [Tlv.items_eq, hnext]
        rfl
    | some s =>
      obtain ⟨hstart, hend, hlen⟩ := hcall.place s hitem
      have hwithin := hcall.within
      have hnext : next (data.drop p) = some (⟨s.tag, valueAt data s⟩, data.drop (tlvWalk data (some p)).p) := by
        rw [hcall.item, hitem]
        rfl
      have hitems : (items (data.drop p)).map Prod.fst = ⟨s.tag, valueAt data s⟩ ::
          (items (data.drop (tlvWalk data (some p)).p)).map Prod.fst := by
        rw [Tlv.items_eq (data.drop p), hnext]
        rfl
      rw [hitems]
      by_cases htag : s.tag = tag
      · have hsame : { s with len := s.len % 65536 } = s := by
          rw [Nat.mod_eq_of_lt hlen]
        refine ⟨some s, ?_, ?_⟩
        · intro fuel hfuel
          obtain ⟨k, rfl⟩ := Nat.exists_eq_succ_of_ne_zero (by omega : fuel ≠ 0)
          unfold findFrom
          dsimp only
          rw [hitem]
          dsimp only
          rw [if_pos htag, hsame]
        · rw [List.find?_cons_of_pos (p := fun i : Item => decide (i.tag = tag)) (decide_eq_true htag)]
          rfl
      · obtain ⟨r, hr, hfound⟩ := ih (data.length - (tlvWalk data (some p)).p) (by omega) _ hwithin rfl
        have hskip : ¬ decide (s.tag = tag) = true := fun hyes => htag (of_decide_eq_true hyes)
        refine ⟨r, ?_, ?_⟩
        · intro fuel hfuel
          obtain ⟨k, rfl⟩ := Nat.exists_eq_succ_of_ne_zero (by omega : fuel ≠ 0)
          have hrest := hr k (by omega)
          unfold findFrom
          dsimp only
          rw [hitem]
          dsimp only
          rw [if_neg htag, hrest]
        · rw [hfound, List.find?_cons_of_neg (p := fun i : Item => decide (i.tag = tag)) hskip]

theorem walkFrom_null (fuel : Nat) : walkFrom data fuel none = walkFrom data fuel (some 0) := by
  cases fuel with
  | zero => rfl
  | succ fuel => rfl

theorem findFrom_null (tag fuel : Nat) : findFrom data tag fuel none = findFrom data tag fuel (some 0) := by
  cases fuel with
  | zero => rfl
  | succ fuel => rfl

theorem sound (data : Bytes) : Sound data := by
  obtain ⟨calls, hcalls, hwalked⟩ := walkFrom_ends 0 (Nat.zero_le data.length)
  refine ⟨calls, ?_, hwalked.inside, hwalked.order⟩
  intro fuel hfuel
  rw [walkFrom_null]
  exact hcalls fuel (by omega)

end Loops

/-! Encoding. -/

section Encoding

variable {pairs : List (Nat × Bytes)}

theorem low_bits (t : Nat) : BitVec.ofNat 8 t &&& 0x1f = 0x1f ↔ t % 32 = 31 := by
  have hand : (BitVec.ofNat 8 t &&& 0x1f).toNat = t % 32 := by
    have hmask : (0x1f : Tlv.Byte).toNat = 2 ^ 5 - 1 := rfl
    rw [BitVec.toNat_and, hmask, Nat.and_two_pow_sub_one_eq_mod, BitVec.toNat_ofNat]
    omega
  have htop : (0x1f : Tlv.Byte).toNat = 31 := rfl
  constructor
  · intro heq
    rw [← hand, heq, htop]
  · intro hmod
    apply BitVec.eq_of_toNat_eq
    rw [hand, htop, hmod]

theorem Encodable.tagBytes {tag : Nat} (h : Encodable tag) : TagBytes tag (tagBytes tag) := by
  unfold Tlv.tagBytes
  rcases h with ⟨hlt, hmod⟩ | ⟨hge, hlt, hmod⟩
  · have hshort := TagBytes.short (BitVec.ofNat 8 tag) fun heq => hmod ((low_bits tag).mp heq)
    rw [BitVec.toNat_ofNat, Nat.mod_eq_of_lt hlt] at hshort
    rw [if_neg (by omega)]
    exact hshort
  · have hlong := TagBytes.long (BitVec.ofNat 8 (tag / 256)) (BitVec.ofNat 8 tag)
      ((low_bits (tag / 256)).mpr hmod)
    have hvalue : (BitVec.ofNat 8 (tag / 256)).toNat * 256 + (BitVec.ofNat 8 tag).toNat = tag := by
      rw [BitVec.toNat_ofNat, BitVec.toNat_ofNat]
      omega
    rw [hvalue] at hlong
    rw [if_pos (by omega)]
    exact hlong

theorem items_encodeList (hpairs : ∀ p ∈ pairs, Encodable p.1 ∧ p.2.length ≤ 65535) :
    (items (encodeList pairs)).map Prod.fst = pairs.map fun p => (⟨p.1, p.2⟩ : Item) := by
  induction pairs with
  | nil => rfl
  | cons p pairs ih =>
    obtain ⟨htag, hlen⟩ := hpairs p List.mem_cons_self
    have hrest := ih fun q hq => hpairs q (List.mem_cons_of_mem p hq)
    have hcons : encodeList (p :: pairs) =
        Tlv.tagBytes p.1 ++ lengthBytes p.2.length ++ p.2 ++ encodeList pairs := List.flatMap_cons ..
    rw [hcons, Tlv.items_eq, Tlv.next_append htag.tagBytes (Tlv.lengthBytes_spec (by omega))]
    show (⟨p.1, p.2⟩ : Item) :: (items (encodeList pairs)).map Prod.fst = _
    rw [hrest]
    rfl

theorem encode_length (tag : Nat) (value : Bytes) :
    (encode tag value).length = (if 0xff < tag then 2 else 1) + Tlv.formatLen value.length + value.length := by
  unfold encode
  rw [List.length_append, List.length_append, Meta.lengthBytes_length]
  unfold Tlv.tagBytes
  split_ifs <;> rfl

/-- tlv_len_tag is the size of an item, as long as that has 16 bits. -/
theorem lenTag_encode {tag : Nat} {value : Bytes} (h : (encode tag value).length < 65536) :
    lenTag tag value.length = (encode tag value).length := by
  rw [encode_length] at h ⊢
  unfold lenTag
  by_cases htag : 0xff < tag
  · rw [if_pos htag] at h ⊢
    rw [if_pos htag]
    omega
  · rw [if_neg htag] at h ⊢
    rw [if_neg htag]
    omega

theorem inverse (hpairs : ∀ p ∈ pairs, Encodable p.1 ∧ p.2.length ≤ 65535) : Inverse pairs := by
  have hitems := items_encodeList hpairs
  constructor
  · obtain ⟨calls, hcalls, hwalked⟩ := walkFrom_ends 0 (Nat.zero_le (encodeList pairs).length)
    refine ⟨calls, ?_, ?_⟩
    · intro fuel hfuel
      rw [walkFrom_null]
      exact hcalls fuel (by omega)
    · have hread := hwalked.read
      rw [List.drop_zero, hitems] at hread
      have hpair := congrArg (List.map fun i : Item => (i.tag, i.value)) hread
      rw [List.map_map, List.map_map] at hpair
      exact hpair.trans (List.map_id pairs)
  · intro tag
    obtain ⟨r, hr, hfound⟩ := findFrom_ends tag 0 (Nat.zero_le (encodeList pairs).length)
    refine ⟨r, ?_, ?_⟩
    · intro fuel hfuel
      rw [findFrom_null]
      exact hr fuel (by omega)
    · rw [List.drop_zero, hitems, List.find?_map] at hfound
      have hpair := congrArg (Option.map fun i : Item => (i.tag, i.value)) hfound
      rw [Option.map_map, Option.map_map] at hpair
      exact hpair.trans Option.map_id_apply
  · intro p _ hfits
    exact lenTag_encode hfits

end Encoding

/-- Walking over any data ends inside them with items in their order, and over encoded pairs it gives these. -/
theorem walk_sound_inverse (data : Bytes) (pairs : List (Nat × Bytes))
    (hpairs : ∀ p ∈ pairs, Encodable p.1 ∧ p.2.length ≤ 65535) : Sound data ∧ Inverse pairs :=
  ⟨sound data, inverse hpairs⟩

/-- A tag of one byte and one of two; the string of three bytes ends in a length that it does not have. -/
theorem two_tags_walked : Sound [0x71, 0x82, 0x01] ∧ Inverse [(0x71, [1, 2]), (0x9f38, [])] := by
  apply walk_sound_inverse
  intro p hp
  rcases List.mem_cons.mp hp with rfl | hp
  · exact ⟨.inl ⟨by decide, by decide⟩, by decide⟩
  · rw [List.mem_singleton.mp hp]
    exact ⟨.inr ⟨by decide, by decide, by decide⟩, by decide⟩

end KeyWallet.TlvCursor
