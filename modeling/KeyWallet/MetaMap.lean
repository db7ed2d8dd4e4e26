import KeyWallet.FidoReset
import KeyWallet.StepSystem

/-! The metadata of files, file.c: EF_META as a string of entries, and what meta_add and meta_delete make
of it. An entry is a TLV whose value begins with the number of the file. -/
namespace KeyWallet.Meta

open KeyWallet.Reset (entryFid isEntry metaFind metaRemoved)
open StepSystem

abbrev Fid := BitVec 16

/-- tlv_len_tag, in 16 bits. -/
def lenTag (tag len : Nat) : Nat :=
  ((1 + Tlv.formatLen len + len) % 65536 + if 0xff < tag then 1 else 0) % 65536

/-- put_uint16_be. -/
def fidBytes (fid : Fid) : Bytes := [fid.extractLsb' 8 8, fid.extractLsb' 0 8]

/-- An entry as meta_add writes it. -/
def entryBytes (tag : Byte) (fid : Fid) (d : Bytes) : Bytes :=
  tag :: Tlv.lengthBytes ((d.length + 2) % 65536) ++ fidBytes fid ++ d

/-- The tag of a new entry, and the one that an entry gets when it changes its size. -/
def appendTag (fid : Fid) : Byte := fid.extractLsb' 0 8 &&& 0x1f

def moveTag (fid : Fid) : Byte := fid.extractLsb' 0 8

/-- An entry that keeps its size is overwritten. -/
def overwritten (item : Tlv.Item) (behind d data : Bytes) : Bytes :=
  data.take (data.length - behind.length - item.value.length + 2) ++ d ++ behind

/-- Any other one is taken out and written anew at the end. The size of the buffer goes by the values
alone, and the bytes behind the new entry are what was there before. -/
def moved (item : Tlv.Item) (behind : Bytes) (fid : Fid) (d data : Bytes) : Bytes :=
  let tpos := data.length - behind.length - lenTag item.tag item.value.length
  let offset := tpos + behind.length
  let buffer := data.take tpos ++ behind ++ data.drop offset
  let entry := entryBytes (moveTag fid) fid d
  (buffer.take offset ++ entry ++ buffer.drop (offset + entry.length)).take
    (data.length + d.length - (item.value.length - 2))

def appended (fid : Fid) (d data : Bytes) : Bytes :=
  (data ++ entryBytes (appendTag fid) fid d).take
    (data.length + lenTag (appendTag fid).toNat ((d.length + 2) % 65536))

/-- The bytes that meta_add stores. -/
def added (fid : Fid) (d data : Bytes) : Bytes :=
  match (Tlv.items data).find? (isEntry fid.toNat) with
  | some (item, behind) =>
    if item.value.length - 2 = d.length then overwritten item behind d data
    else moved item behind fid d data
  | none => appended fid d data

/-- The calls; the flag says whether file_put_data, or flash_clear_file, did its work. -/
inductive Op
  | add (puts : Bool) (fid : Fid) (d : Bytes)
  | delete (puts : Bool) (fid : Fid)
  deriving DecidableEq, Repr

/-- meta_add and meta_delete: whether they return PICOKEYS_OK, and EF_META. -/
def call (data : Bytes) : Op → Bool × Bytes
  | .add puts fid d => if puts then (true, added fid d data) else (false, data)
  | .delete puts fid =>
    match metaRemoved fid.toNat data with
    | none => (true, data)
    | some rest => if puts then (true, rest) else (false, data)

def step (data : Bytes) (op : Op) : Bytes := (call data op).2

/-- What a call that succeeds is to do. -/
def Lawful (data : Bytes) (op : Op) : Prop :=
  (call data op).1 = true →
    match op with
    | .add _ fid d => metaFind fid.toNat (step data op) = some d ∧
        ∀ g : Fid, g ≠ fid → metaFind g.toNat (step data op) = metaFind g.toNat data
    | .delete _ fid => metaFind fid.toNat (step data op) = none ∧
        ∀ g : Fid, g ≠ fid → metaFind g.toNat (step data op) = metaFind g.toNat data

/-- The length of a new entry fits 16 bits with its header, and an entry that changes its size keeps the
size of its length field. -/
def RoomFor (d : Bytes) : Option Bytes → Prop
  | none => d.length ≤ 65529
  | some old => old.length = d.length ∨
      Tlv.formatLen (old.length + 2) = Tlv.formatLen (d.length + 2) ∧ old.length ≤ 65529

instance RoomFor.decidable (d : Bytes) : ∀ old, Decidable (RoomFor d old)
  | none => inferInstanceAs (Decidable (_ ≤ _))
  | some _ => inferInstanceAs (Decidable (_ ∨ _ ∧ _))

/-- A call that the layout of the entries allows for: the tag has one byte, and there is room. -/
def Meets (data : Bytes) : Op → Prop
  | .add _ fid d => fid.extractLsb' 0 8 &&& 0x1f ≠ (0x1f : Byte) ∧ d.length ≤ 65533 ∧
      RoomFor d (metaFind fid.toNat data)
  | .delete _ _ => True

instance Meets.decidable (data : Bytes) : ∀ op, Decidable (Meets data op)
  | .add _ _ _ => inferInstanceAs (Decidable (_ ∧ _ ∧ _))
  | .delete _ _ => .isTrue trivial

/-! The entries that the calls leave. -/

structure Entry where
  tag : Byte
  fid : Fid
  value : Bytes
  deriving DecidableEq, Repr

def Entry.bytes (e : Entry) : Bytes := entryBytes e.tag e.fid e.value

/-- It can be read back. -/
structure Entry.Sound (e : Entry) : Prop where
  tag : e.tag &&& 0x1f ≠ 0x1f
  length : e.value.length ≤ 65533

/-- EF_META is made of these entries, of which no two are of one file. -/
structure Holds (es : List Entry) (data : Bytes) : Prop where
  bytes : data = es.flatMap Entry.bytes
  sound : ∀ e ∈ es, e.Sound
  nodup : (es.map Entry.fid).Nodup

/-- The entry of a file. -/
def lookup (es : List Entry) (fid : Fid) : Option Bytes := (es.find? fun e => e.fid = fid).map Entry.value

section Reading

theorem entryFid_fidBytes (fid : Fid) (v : Bytes) : entryFid (fidBytes fid ++ v) = fid.toNat := by
  show (fid.extractLsb' 8 8).toNat * 256 + (fid.extractLsb' 0 8).toNat = fid.toNat
  rw [BitVec.extractLsb'_toNat, BitVec.extractLsb'_toNat, Nat.shiftRight_eq_div_pow,
    Nat.shiftRight_eq_div_pow]
  have hlt := fid.isLt
  omega

/-- The item of an entry. -/
def Entry.item (e : Entry) : Tlv.Item := ⟨e.tag.toNat, fidBytes e.fid ++ e.value⟩

theorem Entry.item_length (e : Entry) : e.item.value.length = e.value.length + 2 := by
  show (fidBytes e.fid ++ e.value).length = _
  rw [List.length_append]
  show 2 + e.value.length = _
  omega

theorem Entry.isEntry_item (e : Entry) (fid : Fid) (behind : Bytes) :
    isEntry fid.toNat (e.item, behind) = decide (e.fid = fid) := by
  have hlen : 2 ≤ e.item.value.length := by
    rw [e.item_length]
    omega
  unfold isEntry
  rw [decide_eq_true hlen, Bool.true_and]
  have hfid : entryFid e.item.value = e.fid.toNat := entryFid_fidBytes e.fid e.value
  rw [hfid]
  apply decide_eq_decide.mpr
  exact BitVec.toNat_inj

theorem Entry.Sound.mod_length {e : Entry} (h : e.Sound) :
    (e.value.length + 2) % 65536 = e.value.length + 2 := by
  have := h.length
  omega

theorem Entry.Sound.next {e : Entry} (h : e.Sound) (rest : Bytes) :
    Tlv.next (e.bytes ++ rest) = some (e.item, rest) := by
  have hlen : Tlv.LengthBytes (fidBytes e.fid ++ e.value).length
      (Tlv.lengthBytes ((e.value.length + 2) % 65536)) := by
    have hsize : (fidBytes e.fid ++ e.value).length = (e.value.length + 2) % 65536 := by
      rw [h.mod_length]
      exact e.item_length
    rw [hsize]
    apply Tlv.lengthBytes_spec
    omega
  have hread := Tlv.next_append (.short e.tag h.tag) hlen rest
  have hbytes : e.bytes = [e.tag] ++ Tlv.lengthBytes ((e.value.length + 2) % 65536) ++
      (fidBytes e.fid ++ e.value) := by
    show e.tag :: Tlv.lengthBytes _ ++ fidBytes e.fid ++ e.value = _
    rw [List.append_assoc]
    rfl
  rw [hbytes]
  exact hread

theorem items_cons {e : Entry} (h : e.Sound) (es : List Entry) :
    Tlv.items ((e :: es).flatMap Entry.bytes) =
      (e.item, es.flatMap Entry.bytes) :: Tlv.items (es.flatMap Entry.bytes) := by
  rw [Tlv.items_eq, List.flatMap_cons, h.next]
  rfl

theorem find_entry (fid : Fid) (es : List Entry) (hs : ∀ e ∈ es, e.Sound) :
    ((∀ e ∈ es, e.fid ≠ fid) ∧ (Tlv.items (es.flatMap Entry.bytes)).find? (isEntry fid.toNat) = none) ∨
      ∃ front e back, es = front ++ e :: back ∧ e.fid = fid ∧ (∀ e' ∈ front, e'.fid ≠ fid) ∧
        (Tlv.items (es.flatMap Entry.bytes)).find? (isEntry fid.toNat) =
          some (e.item, back.flatMap Entry.bytes) := by
  induction es with
  | nil => exact .inl ⟨fun e he => absurd he List.not_mem_nil, rfl⟩
  | cons e es ih =>
    rw [items_cons (hs e List.mem_cons_self), List.find?_cons, e.isEntry_item]
    by_cases hfid : e.fid = fid
    · rw [decide_eq_true hfid]
      exact .inr ⟨[], e, es, rfl, hfid, fun e' he' => absurd he' List.not_mem_nil, rfl⟩
    · rw [decide_eq_false hfid]
      rcases ih fun e' he' => hs e' (List.mem_cons_of_mem _ he') with ⟨hno, hnone⟩ |
        ⟨front, e', back, hes, he', hfront, hsome⟩
      · refine .inl ⟨?_, hnone⟩
        intro e' he'
        rcases List.mem_cons.mp he' with rfl | he'
        · exact hfid
        · exact hno e' he'
      · refine .inr ⟨e :: front, e', back, ?_, he', ?_, hsome⟩
        · rw [hes, List.cons_append]
        · intro x hx
          rcases List.mem_cons.mp hx with rfl | hx
          · exact hfid
          · exact hfront x hx

theorem lookup_skip {x : Entry} {g : Fid} (front back : List Entry) (h : x.fid ≠ g) :
    lookup (front ++ x :: back) g = lookup (front ++ back) g := by
  unfold lookup
  rw [List.find?_append, List.find?_append, List.find?_cons, decide_eq_false h]

theorem lookup_here {x : Entry} (front back : List Entry) (h : ∀ e ∈ front, e.fid ≠ x.fid) :
    lookup (front ++ x :: back) x.fid = some x.value := by
  unfold lookup
  have hnone : front.find? (fun e => decide (e.fid = x.fid)) = none := by
    apply List.find?_eq_none.mpr
    intro e he
    rw [decide_eq_true_eq]
    exact h e he
  rw [List.find?_append, hnone, List.find?_cons, decide_eq_true (rfl : x.fid = x.fid)]
  rfl

theorem lookup_absent {es : List Entry} {fid : Fid} (h : ∀ e ∈ es, e.fid ≠ fid) :
    lookup es fid = none := by
  unfold lookup
  have hnone : es.find? (fun e => decide (e.fid = fid)) = none := by
    apply List.find?_eq_none.mpr
    intro e he
    rw [decide_eq_true_eq]
    exact h e he
  rw [hnone]
  rfl

/-- meta_find reads the entries as a map. -/
theorem metaFind_eq {es : List Entry} {data : Bytes} (h : Holds es data) (fid : Fid) :
    metaFind fid.toNat data = lookup es fid := by
  unfold metaFind
  rw [h.bytes]
  rcases find_entry fid es h.sound with ⟨hno, hnone⟩ | ⟨front, e, back, hes, hfid, hfront, hsome⟩
  · rw [hnone, lookup_absent hno]
    rfl
  · rw [hsome]
    subst hes hfid
    rw [lookup_here front back hfront]
    rfl

end Reading

section Others

theorem Holds.others {front back : List Entry} {e : Entry} {data : Bytes}
    (h : Holds (front ++ e :: back) data) : ∀ e' ∈ front ++ back, e'.fid ≠ e.fid := by
  have hmap := h.nodup
  rw [List.map_append, List.map_cons] at hmap
  have hnot := (List.nodup_middle.mp hmap).notMem
  intro e' he' heq
  apply hnot
  rw [← List.map_append, ← heq]
  exact List.mem_map_of_mem he'

theorem Holds.front_sound {front back : List Entry} {e : Entry} {data : Bytes}
    (h : Holds (front ++ e :: back) data) : ∀ e' ∈ front ++ back, e'.Sound := by
  intro e' he'
  apply h.sound
  rcases List.mem_append.mp he' with hf | hb
  · exact List.mem_append_left _ hf
  · exact List.mem_append_right _ (List.mem_cons_of_mem _ hb)

theorem Holds.without {front back : List Entry} {e : Entry} {data : Bytes}
    (h : Holds (front ++ e :: back) data) :
    Holds (front ++ back) ((front ++ back).flatMap Entry.bytes) := by
  refine ⟨rfl, h.front_sound, ?_⟩
  have hmap := h.nodup
  rw [List.map_append, List.map_cons] at hmap
  rw [List.map_append]
  exact (List.nodup_cons.mp (List.nodup_middle.mp hmap)).2

theorem Holds.insert {front back : List Entry} {data : Bytes} (h : Holds (front ++ back) data)
    {x : Entry} (hs : x.Sound) (hx : ∀ e ∈ front ++ back, e.fid ≠ x.fid) :
    Holds (front ++ x :: back) ((front ++ x :: back).flatMap Entry.bytes) := by
  refine ⟨rfl, ?_, ?_⟩
  · intro e he
    rcases List.mem_append.mp he with hf | hb
    · exact h.sound e (List.mem_append_left _ hf)
    · rcases List.mem_cons.mp hb with rfl | hb
      · exact hs
      · exact h.sound e (List.mem_append_right _ hb)
  · rw [List.map_append, List.map_cons]
    apply List.nodup_middle.mpr
    apply List.nodup_cons.mpr
    rw [← List.map_append]
    refine ⟨?_, h.nodup⟩
    intro hmem
    obtain ⟨e, he, heq⟩ := List.mem_map.mp hmem
    exact hx e he heq

end Others

/-! What the calls store. -/

/-- The bytes are those of entries that differ from `es` in one file only. -/
def Updates (es : List Entry) (fid : Fid) (r : Option Bytes) (data : Bytes) : Prop :=
  ∃ es', Holds es' data ∧ lookup es' fid = r ∧ ∀ g, g ≠ fid → lookup es' g = lookup es g

section Sizes

theorem lengthBytes_length (n : Nat) : (Tlv.lengthBytes n).length = Tlv.formatLen n := by
  unfold Tlv.lengthBytes Tlv.formatLen
  split_ifs <;> rfl

theorem formatLen_le (n : Nat) : Tlv.formatLen n ≤ 3 := by
  unfold Tlv.formatLen
  split_ifs <;> omega

theorem entryBytes_length (tag : Byte) (fid : Fid) {d : Bytes} (h : d.length ≤ 65533) :
    (entryBytes tag fid d).length = 3 + Tlv.formatLen (d.length + 2) + d.length := by
  have hmod : (d.length + 2) % 65536 = d.length + 2 := by omega
  show (tag :: Tlv.lengthBytes _ ++ fidBytes fid ++ d).length = _
  rw [List.length_append, List.length_append, List.length_cons, lengthBytes_length, hmod]
  show _ + 1 + 2 + _ = _
  omega

/-- tlv_len_tag is the size of an entry that is not too long for it. -/
theorem lenTag_eq (tag : Byte) (fid : Fid) {d : Bytes} (h : d.length ≤ 65529) :
    lenTag tag.toNat (d.length + 2) = (entryBytes tag fid d).length := by
  have hfmt := formatLen_le (d.length + 2)
  have htag : ¬ 0xff < tag.toNat := by
    have := tag.isLt
    omega
  rw [entryBytes_length tag fid (by omega)]
  unfold lenTag
  rw [if_neg htag]
  omega

end Sizes

section Calls

variable {es front back : List Entry} {e : Entry} {data : Bytes} {fid : Fid}

theorem flatMap_middle (x : Entry) :
    (front ++ x :: back).flatMap Entry.bytes =
      front.flatMap Entry.bytes ++ (x.bytes ++ back.flatMap Entry.bytes) := by
  rw [List.flatMap_append, List.flatMap_cons]

theorem take_header (e : Entry) :
    e.bytes.take (e.bytes.length - e.value.length) =
      e.tag :: Tlv.lengthBytes ((e.value.length + 2) % 65536) ++ fidBytes e.fid := by
  have hsplit : e.bytes =
      (e.tag :: Tlv.lengthBytes ((e.value.length + 2) % 65536) ++ fidBytes e.fid) ++ e.value := rfl
  have hlen : e.bytes.length - e.value.length =
      (e.tag :: Tlv.lengthBytes ((e.value.length + 2) % 65536) ++ fidBytes e.fid).length := by
    rw [hsplit, List.length_append]
    omega
  rw [hlen, hsplit]
  exact List.take_left

theorem overwritten_eq (h : Holds (front ++ e :: back) data) {d : Bytes}
    (hd : e.value.length = d.length) :
    overwritten e.item (back.flatMap Entry.bytes) d data =
      (front ++ (⟨e.tag, e.fid, d⟩ : Entry) :: back).flatMap Entry.bytes := by
  have hs : e.Sound := h.sound e (by simp)
  have hdata := h.bytes
  rw [flatMap_middle] at hdata
  have hle : e.value.length + 2 ≤ e.bytes.length := by
    show _ ≤ (entryBytes e.tag e.fid e.value).length
    rw [entryBytes_length _ _ hs.length]
    omega
  have hpos : data.length - (back.flatMap Entry.bytes).length - e.item.value.length + 2 =
      (front.flatMap Entry.bytes).length + (e.bytes.length - e.value.length) := by
    rw [hdata, e.item_length, List.length_append, List.length_append]
    omega
  have htake : data.take ((front.flatMap Entry.bytes).length + (e.bytes.length - e.value.length)) =
      front.flatMap Entry.bytes ++
        (e.tag :: Tlv.lengthBytes ((e.value.length + 2) % 65536) ++ fidBytes e.fid) := by
    rw [hdata, List.take_length_add_append, List.take_append_of_le_length (by omega),
      take_header e]
  unfold overwritten
  rw [hpos, htake, flatMap_middle]
  show _ = _ ++ (entryBytes e.tag e.fid d ++ _)
  unfold entryBytes
  rw [hd]
  simp only [List.append_assoc]

theorem moved_eq (h : Holds (front ++ e :: back) data) {d : Bytes} (hd : d.length ≤ 65533)
    (hfmt : Tlv.formatLen (e.value.length + 2) = Tlv.formatLen (d.length + 2))
    (hold : e.value.length ≤ 65529) :
    moved e.item (back.flatMap Entry.bytes) fid d data =
      (front ++ back ++ [(⟨moveTag fid, fid, d⟩ : Entry)]).flatMap Entry.bytes := by
  have hdata := h.bytes
  rw [flatMap_middle] at hdata
  have hsize : e.bytes.length = 3 + Tlv.formatLen (e.value.length + 2) + e.value.length :=
    entryBytes_length e.tag e.fid (by omega)
  have hnew := entryBytes_length (moveTag fid) fid hd
  have htag : lenTag e.item.tag e.item.value.length = e.bytes.length := by
    rw [e.item_length]
    exact lenTag_eq e.tag e.fid hold
  have hlen : data.length = (front.flatMap Entry.bytes).length +
      (e.bytes.length + (back.flatMap Entry.bytes).length) := by
    rw [hdata, List.length_append, List.length_append]
  have htpos : data.length - (back.flatMap Entry.bytes).length - lenTag e.item.tag e.item.value.length =
      (front.flatMap Entry.bytes).length := by
    rw [htag]
    omega
  have hfront : data.take (front.flatMap Entry.bytes).length = front.flatMap Entry.bytes := by
    rw [hdata]
    exact List.take_left
  have hbuffer (rest : Bytes) :
      (front.flatMap Entry.bytes ++ back.flatMap Entry.bytes ++ rest).take
        ((front.flatMap Entry.bytes).length + (back.flatMap Entry.bytes).length) =
      front.flatMap Entry.bytes ++ back.flatMap Entry.bytes := by
    apply List.take_left'
    exact List.length_append
  have hkept : data.length + d.length - (e.item.value.length - 2) =
      (front.flatMap Entry.bytes ++ back.flatMap Entry.bytes ++
        entryBytes (moveTag fid) fid d).length := by
    rw [e.item_length, List.length_append, List.length_append]
    omega
  unfold moved
  dsimp only
  rw [htpos, hfront, hbuffer, hkept, List.take_left]
  rw [List.flatMap_append, List.flatMap_append, List.flatMap_singleton]
  rfl

theorem appended_eq (h : Holds es data) {d : Bytes} (hd : d.length ≤ 65529) :
    appended fid d data = (es ++ [(⟨appendTag fid, fid, d⟩ : Entry)]).flatMap Entry.bytes := by
  have hmod : (d.length + 2) % 65536 = d.length + 2 := by omega
  unfold appended
  rw [hmod, lenTag_eq _ fid hd, ← List.length_append, List.take_length, h.bytes, List.flatMap_append,
    List.flatMap_singleton]
  rfl

theorem removed_eq (h : Holds (front ++ e :: back) data) :
    data.take (data.length - (back.flatMap Entry.bytes).length - e.item.value.length -
        Tlv.formatLen e.item.value.length - 1) ++
      data.drop (data.length - (back.flatMap Entry.bytes).length) =
    (front ++ back).flatMap Entry.bytes := by
  have hs : e.Sound := h.sound e (by simp)
  have hdata := h.bytes
  rw [flatMap_middle] at hdata
  have hsize : e.bytes.length = 3 + Tlv.formatLen (e.value.length + 2) + e.value.length :=
    entryBytes_length e.tag e.fid hs.length
  have hlen : data.length = (front.flatMap Entry.bytes).length +
      (e.bytes.length + (back.flatMap Entry.bytes).length) := by
    rw [hdata, List.length_append, List.length_append]
  have hbehind : data.length - (back.flatMap Entry.bytes).length =
      (front.flatMap Entry.bytes ++ e.bytes).length := by
    rw [List.length_append]
    omega
  have hstart : data.length - (back.flatMap Entry.bytes).length - e.item.value.length -
      Tlv.formatLen e.item.value.length - 1 = (front.flatMap Entry.bytes).length := by
    rw [e.item_length]
    omega
  have htake : data.take (front.flatMap Entry.bytes).length = front.flatMap Entry.bytes := by
    rw [hdata]
    exact List.take_left
  have hdrop : data.drop (front.flatMap Entry.bytes ++ e.bytes).length = back.flatMap Entry.bytes := by
    rw [hdata, ← List.append_assoc]
    exact List.drop_left
  rw [hstart, hbehind, htake, hdrop, List.flatMap_append]

/-- meta_delete takes out the entry, and no other. -/
theorem removed_updates (h : Holds es data) (fid : Fid) :
    (metaRemoved fid.toNat data = none ∧ lookup es fid = none) ∨
      ∃ rest, metaRemoved fid.toNat data = some rest ∧ Updates es fid none rest := by
  unfold metaRemoved
  have hfind := find_entry fid es h.sound
  rw [← h.bytes] at hfind
  rcases hfind with ⟨hno, hnone⟩ | ⟨front, e, back, hes, hfid, hfront, hsome⟩
  · left
    rw [hnone]
    exact ⟨rfl, lookup_absent hno⟩
  · right
    rw [hsome]
    subst hes hfid
    refine ⟨_, rfl, front ++ back, ?_, lookup_absent h.others, ?_⟩
    · dsimp only
      rw [removed_eq h]
      exact h.without
    · intro g hg
      exact (lookup_skip front back (Ne.symm hg)).symm

/-- meta_add makes the data those of the entry, and changes no other. -/
theorem added_updates (h : Holds es data) {d : Bytes} {puts : Bool}
    (hok : Meets data (.add puts fid d)) : Updates es fid (some d) (added fid d data) := by
  obtain ⟨htag, hd, hsize⟩ := hok
  have hfind := find_entry fid es h.sound
  rw [metaFind_eq h] at hsize
  rw [← h.bytes] at hfind
  unfold added
  rcases hfind with ⟨hno, hnone⟩ | ⟨front, e, back, hes, hfid, hfront, hsome⟩
  · rw [lookup_absent hno] at hsize
    rw [hnone]
    have happ : appended fid d data = _ := appended_eq h hsize
    have hsound : Entry.Sound ⟨appendTag fid, fid, d⟩ := by
      refine ⟨?_, hd⟩
      show fid.extractLsb' 0 8 &&& 0x1f &&& 0x1f ≠ 0x1f
      rwa [BitVec.and_assoc, BitVec.and_self]
    have hes : es ++ [] = es := List.append_nil es
    rw [← hes] at h hno
    dsimp only
    rw [happ]
    refine ⟨_, h.insert hsound hno, lookup_here es [] ?_, ?_⟩
    · rwa [List.append_nil] at hno
    · intro g hg
      rw [lookup_skip es [] (Ne.symm hg), List.append_nil]
  · subst hes hfid
    rw [lookup_here front back hfront] at hsize
    rw [hsome]
    dsimp only
    have hvalue : e.item.value.length - 2 = e.value.length := by
      rw [e.item_length]
      omega
    rw [hvalue]
    by_cases hlen : e.value.length = d.length
    · rw [if_pos hlen, overwritten_eq h hlen]
      have hsound : Entry.Sound ⟨e.tag, e.fid, d⟩ := ⟨(h.sound e (by simp)).tag, hd⟩
      refine ⟨_, h.without.insert hsound h.others, lookup_here front back hfront, ?_⟩
      intro g hg
      calc lookup (front ++ (⟨e.tag, e.fid, d⟩ : Entry) :: back) g
          = lookup (front ++ back) g := lookup_skip front back (Ne.symm hg)
        _ = lookup (front ++ e :: back) g := (lookup_skip front back (Ne.symm hg)).symm
    · rw [if_neg hlen]
      obtain ⟨hfmt, hold⟩ := hsize.resolve_left hlen
      rw [moved_eq h hd hfmt hold]
      have hsound : Entry.Sound ⟨moveTag e.fid, e.fid, d⟩ := ⟨htag, hd⟩
      have hothers := h.others
      have hwithout := h.without
      rw [← List.append_nil (front ++ back)] at hothers hwithout
      refine ⟨_, hwithout.insert hsound hothers, lookup_here (front ++ back) [] h.others, ?_⟩
      intro g hg
      calc lookup (front ++ back ++ [(⟨moveTag e.fid, e.fid, d⟩ : Entry)]) g
          = lookup (front ++ back ++ []) g := lookup_skip (front ++ back) [] (Ne.symm hg)
        _ = lookup (front ++ back) g := by rw [List.append_nil]
        _ = lookup (front ++ e :: back) g := (lookup_skip front back (Ne.symm hg)).symm

end Calls

/-! Runs. -/

/-- EF_META is made of entries. -/
def WellFormed (data : Bytes) : Prop := ∃ es, Holds es data

theorem wellFormed_nil : WellFormed [] := by
  refine ⟨[], rfl, ?_, List.nodup_nil⟩
  intro e he
  exact absurd he List.not_mem_nil

theorem Updates.wellFormed {es : List Entry} {fid : Fid} {r : Option Bytes} {data : Bytes}
    (h : Updates es fid r data) : WellFormed data := by
  obtain ⟨es', hes', -⟩ := h
  exact ⟨es', hes'⟩

/-- The entry of one file has changed for meta_find, and no other has. -/
theorem Updates.reads {es : List Entry} {fid : Fid} {r : Option Bytes} {data data' : Bytes}
    (h : Updates es fid r data') (hes : Holds es data) :
    metaFind fid.toNat data' = r ∧ ∀ g : Fid, g ≠ fid → metaFind g.toNat data' = metaFind g.toNat data := by
  obtain ⟨es', hes', hr, hother⟩ := h
  refine ⟨?_, ?_⟩
  · rw [metaFind_eq hes', hr]
  · intro g hg
    rw [metaFind_eq hes', metaFind_eq hes, hother g hg]

theorem step_lawful (data : Bytes) (op : Op) (hok : Meets data op) (h : WellFormed data) :
    WellFormed (step data op) ∧ Lawful data op := by
  obtain ⟨es, hes⟩ := h
  cases op with
  | add puts fid d =>
    have hup := added_updates hes hok
    cases puts with
    | false =>
      refine ⟨⟨es, hes⟩, ?_⟩
      intro hfalse
      exact absurd hfalse Bool.false_ne_true
    | true =>
      refine ⟨hup.wellFormed, ?_⟩
      intro _
      exact hup.reads hes
  | delete puts fid =>
    rcases removed_updates hes fid with ⟨hnone, habsent⟩ | ⟨rest, hsome, hup⟩
    · have hcall : call data (.delete puts fid) = (true, data) := by
        simp only [call, hnone]
      have hstep : step data (.delete puts fid) = data := by
        unfold step
        rw [hcall]
      refine ⟨?_, ?_⟩
      · rw [hstep]
        exact ⟨es, hes⟩
      · intro _
        dsimp only
        rw [hstep, metaFind_eq hes]
        exact ⟨habsent, fun g _ => rfl⟩
    · have hcall : call data (.delete puts fid) = if puts then (true, rest) else (false, data) := by
        simp only [call, hsome]
      cases puts with
      | false =>
        have hstep : step data (.delete false fid) = data := by
          unfold step
          rw [hcall]
          rfl
        refine ⟨?_, ?_⟩
        · rw [hstep]
          exact ⟨es, hes⟩
        · intro htrue
          rw [hcall] at htrue
          exact absurd htrue Bool.false_ne_true
      | true =>
        have hstep : step data (.delete true fid) = rest := by
          unfold step
          rw [hcall]
          rfl
        refine ⟨?_, ?_⟩
        · rw [hstep]
          exact hup.wellFormed
        · intro _
          dsimp only
          rw [hstep]
          exact hup.reads hes

/-- In every run from an empty EF_META whose calls the layout allows for, each call that succeeds changes
the entry of its own file, and that one alone. -/
theorem meta_map_laws (ops : List Op) (h : Along step Meets [] ops) : Along step Lawful [] ops :=
  along_law step_lawful [] ops h wellFormed_nil

/-- A new entry, the same one longer and shorter, an empty one, and the first one deleted. -/
theorem meta_map_laws_five :
    Along step Meets [] [.add true 0xcf20 [1, 2], .add true 0xcf20 [3, 4, 5], .add true 0x1100 [],
      .add true 0xcf20 [6], .delete true 0xcf20] ∧
    Along step Lawful [] [.add true 0xcf20 [1, 2], .add true 0xcf20 [3, 4, 5], .add true 0x1100 [],
      .add true 0xcf20 [6], .delete true 0xcf20] :=
  ⟨by decide +kernel, meta_map_laws _ (by decide +kernel)⟩

/-- The tag of file 0x001f is read as the first of two bytes, and an entry whose length grows from 127 to
128 loses its last byte: neither is found again. -/
theorem meta_add_loses :
    ¬ Lawful [] (.add true 0x001f [1]) ∧
    ¬ Along step Lawful [] [.add true 0x1100 (List.replicate 125 7), .add true 0x1100 (List.replicate 126 7)] := by
  have htag : metaFind 0x001f (step [] (.add true 0x001f [1])) = none := by decide +kernel
  have hlength : metaFind 0x1100 (step (step [] (.add true 0x1100 (List.replicate 125 7)))
      (.add true 0x1100 (List.replicate 126 7))) = none := by decide +kernel
  refine ⟨?_, ?_⟩
  · intro h
    have hfound := (h rfl).1
    rw [show (0x001f : Fid).toNat = 0x001f from rfl, htag] at hfound
    exact absurd hfound (by simp)
  · intro h
    have hfound := (h.2.1 rfl).1
    rw [show (0x1100 : Fid).toNat = 0x1100 from rfl, hlength] at hfound
    exact absurd hfound (by simp)

end KeyWallet.Meta
