import Mathlib.Data.List.Induction
import KeyWallet.ByteBuffer
import KeyWallet.KeyDevice

/-! The CTAPHID frames of ctap_hid.h: a message goes over the wire as one init frame and the
continuation frames behind it. -/
namespace KeyWallet.Hid

open ByteBuffer

/-- The payload of an init frame, and of a continuation frame. -/
def initRoom : Nat := 64 - 7

def contRoom : Nat := 64 - 5

/-- CTAP_MAX_PACKET_SIZE. -/
def maxPacketSize : Nat := 64 - 7 + 128 * (64 - 5)

abbrev Cid := BitVec 32

def cidBroadcast : Cid := 0xffffffff

def ctaphidPing : Byte := 0x81
def ctaphidMsg : Byte := 0x83
def ctaphidLock : Byte := 0x84
def ctaphidInit : Byte := 0x86
def ctaphidWink : Byte := 0x88
def ctaphidCbor : Byte := 0x90
def ctaphidCancel : Byte := 0x91
def ctaphidKeepalive : Byte := 0xbb
def ctaphidSync : Byte := 0xbc
def ctaphidError : Byte := 0xbf
def ctaphidVersion : Byte := 0xe1
def ctaphidUuid : Byte := 0xe2
def ctaphidOtp : Byte := 0xf0
def ctaphidAdmin : Byte := 0xf2
def ctaphidVendorFirst : Byte := 0xc0

/-- CTAPHID_FRAME. The byte `type` is the command of an init frame and the sequence number of a
continuation frame; `rest` is what stands behind it in the 64 bytes. -/
structure Frame where
  cid : Cid
  type : Byte
  rest : Bytes
  size : rest.length = 59
  deriving DecidableEq

namespace Frame

/-- FRAME_TYPE is TYPE_INIT. -/
def isInit (f : Frame) : Bool := f.type.msb

def msgLen (f : Frame) : Nat := (f.rest.getD 0 0).toNat * 256 + (f.rest.getD 1 0).toNat

def initData (f : Frame) : Bytes := f.rest.drop 2

def contData (f : Frame) : Bytes := f.rest

@[simp] theorem initData_length (f : Frame) : f.initData.length = initRoom := by
  rw [initData, List.length_drop, f.size]
  rfl

@[simp] theorem contData_length (f : Frame) : f.contData.length = contRoom := f.size

end Frame

/-- The payloads of the frames, one behind the other. -/
def joined (init : Frame) (conts : List Frame) : Bytes := init.initData ++ conts.flatMap Frame.contData

/-- How much the init frame and `k` continuation frames hold. -/
def room (k : Nat) : Nat := initRoom + contRoom * k

@[simp] theorem room_zero : room 0 = initRoom := rfl

theorem room_succ (k : Nat) : room (k + 1) = room k + contRoom := by
  simp only [room, Nat.mul_succ, Nat.add_assoc]

theorem joined_length (init : Frame) (conts : List Frame) :
    (joined init conts).length = room conts.length := by
  induction conts using List.reverseRecOn with
  | nil => simp [joined]
  | append_singleton conts f ih =>
    have hlen : (joined init (conts ++ [f])).length = (joined init conts).length + contRoom := by
      simp [joined, Nat.add_assoc]
    rw [hlen, ih, List.length_append, List.length_singleton, room_succ]

theorem joined_concat (init : Frame) (conts : List Frame) (f : Frame) :
    joined init (conts ++ [f]) = joined init conts ++ f.contData := by
  simp [joined]

/-- `init` and `conts` carry the message on one channel, as far as they go: the continuation frames
are numbered 0, 1, 2, … and each is needed. -/
structure Carries (cid : Cid) (cmd : Byte) (payload : Bytes) (init : Frame) (conts : List Frame) :
    Prop where
  isInit : init.isInit = true
  cmd : init.type = cmd
  len : init.msgLen = payload.length
  cid : ∀ f ∈ init :: conts, f.cid = cid
  seq : conts.map Frame.type = (List.range conts.length).map (BitVec.ofNat 8)
  isCont : ∀ f ∈ conts, f.isInit = false
  bytes : (joined init conts).take payload.length = payload.take (room conts.length)
  needed : ∀ k, k < conts.length → room k < payload.length

/-- The frames carry the whole message. -/
def CarriesAll (cid : Cid) (cmd : Byte) (payload : Bytes) (frames : List Frame) : Prop :=
  ∃ init conts, frames = init :: conts ∧ Carries cid cmd payload init conts ∧
    payload.length ≤ room conts.length

theorem Carries.payload_eq {cid : Cid} {cmd : Byte} {payload : Bytes} {init : Frame}
    {conts : List Frame} (h : Carries cid cmd payload init conts)
    (hall : payload.length ≤ room conts.length) :
    (joined init conts).take payload.length = payload := by
  rw [h.bytes, List.take_of_length_le hall]

theorem Carries.concat {cid : Cid} {cmd : Byte} {payload : Bytes} {init : Frame}
    {conts : List Frame} (h : Carries cid cmd payload init conts) (f : Frame)
    (hmore : room conts.length < payload.length) (hcid : f.cid = cid)
    (htype : f.type = BitVec.ofNat 8 conts.length) (hcont : f.isInit = false)
    (hdata : f.contData.take (payload.length - room conts.length) =
      (payload.drop (room conts.length)).take contRoom) :
    Carries cid cmd payload init (conts ++ [f]) where
  isInit := h.isInit
  cmd := h.cmd
  len := h.len
  cid := by
    intro g hg
    rw [← List.cons_append, List.mem_append, List.mem_singleton] at hg
    rcases hg with hg | rfl
    · exact h.cid g hg
    · exact hcid
  seq := by
    rw [List.map_append, h.seq, List.length_append, List.length_singleton, List.range_succ,
      List.map_append, List.map_singleton, List.map_singleton, htype]
  isCont := by
    intro g hg
    rcases List.mem_append.mp hg with hg | hg
    · exact h.isCont g hg
    · rw [List.mem_singleton.mp hg]
      exact hcont
  bytes := by
    have hfull : (joined init conts).take payload.length = joined init conts := by
      apply List.take_of_length_le
      rw [joined_length]
      exact Nat.le_of_lt hmore
    have hbytes : joined init conts = payload.take (room conts.length) := hfull.symm.trans h.bytes
    calc (joined init (conts ++ [f])).take payload.length
        = joined init conts ++ f.contData.take (payload.length - room conts.length) := by
          rw [joined_concat, List.take_append, hfull, joined_length]
      _ = payload.take (room conts.length) ++ (payload.drop (room conts.length)).take contRoom := by
          rw [hdata, hbytes]
      _ = payload.take (room (conts ++ [f]).length) := by
          rw [List.length_append, List.length_singleton, room_succ, List.take_add]
  needed := by
    intro k hk
    rw [List.length_append, List.length_singleton] at hk
    rcases Nat.lt_succ_iff_lt_or_eq.mp hk with hk | rfl
    · exact h.needed k hk
    · exact hmore

theorem CarriesAll.unique {cid cid' : Cid} {cmd cmd' : Byte} {payload payload' : Bytes}
    {frames : List Frame} (h : CarriesAll cid cmd payload frames)
    (h' : CarriesAll cid' cmd' payload' frames) : payload = payload' := by
  obtain ⟨init, conts, rfl, hc, hall⟩ := h
  obtain ⟨init', conts', heq, hc', hall'⟩ := h'
  obtain ⟨rfl, rfl⟩ := List.cons.inj heq
  have hlen : payload.length = payload'.length := hc.len.symm.trans hc'.len
  rw [← hc.payload_eq hall, ← hc'.payload_eq hall', hlen]

/-- The bytes of a frame, filled up with zeros. -/
def filled (n : Nat) (xs : Bytes) : Bytes := (xs ++ List.replicate n 0).take n

theorem filled_length (n : Nat) (xs : Bytes) : (filled n xs).length = n := by
  simp [filled]

theorem filled_take (n : Nat) (xs : Bytes) {k : Nat} (h : k ≤ xs.length) :
    (filled n xs).take k = xs.take (min k n) := by
  rw [filled, List.take_take, List.take_append_of_le_length (Nat.le_trans (Nat.min_le_left _ _) h)]

/-- What stands behind the command: the length, high byte first, and the data. -/
def initRest (payload : Bytes) : Bytes :=
  BitVec.ofNat 8 (payload.length / 256) :: BitVec.ofNat 8 payload.length :: filled initRoom payload

theorem initRest_length (payload : Bytes) : (initRest payload).length = 59 := by
  simp [initRest, filled_length, initRoom]

def initFrame (cid : Cid) (cmd : Byte) (payload : Bytes) : Frame where
  cid := cid
  type := cmd
  rest := initRest payload
  size := initRest_length payload

def contFrame (cid : Cid) (payload : Bytes) (k : Nat) : Frame where
  cid := cid
  type := BitVec.ofNat 8 k
  rest := filled contRoom (payload.drop (room k))
  size := filled_length _ _

/-- How many continuation frames a payload of this length takes. -/
def contCount (len : Nat) : Nat := (len - initRoom + (contRoom - 1)) / contRoom

/-- The frames that a host sends for a message. -/
def fragment (cid : Cid) (cmd : Byte) (payload : Bytes) : List Frame :=
  initFrame cid cmd payload :: (List.range (contCount payload.length)).map (contFrame cid payload)

theorem room_contCount (len : Nat) : len ≤ room (contCount len) := by
  unfold room contCount initRoom contRoom
  omega

theorem lt_contCount {len k : Nat} (h : k < contCount len) : room k < len := by
  unfold contCount initRoom contRoom at h
  unfold room initRoom contRoom
  omega

theorem contCount_le {len : Nat} (h : len ≤ maxPacketSize) : contCount len ≤ 128 := by
  unfold maxPacketSize at h
  unfold contCount initRoom contRoom
  omega

theorem initFrame_carries {cid : Cid} {cmd : Byte} {payload : Bytes} (hcmd : cmd.msb = true)
    (hlen : payload.length ≤ maxPacketSize) :
    Carries cid cmd payload (initFrame cid cmd payload) [] where
  isInit := hcmd
  cmd := rfl
  len := by
    have hsmall : payload.length < 65536 := Nat.lt_of_le_of_lt hlen (by decide)
    show (BitVec.ofNat 8 (payload.length / 256)).toNat * 256 +
      (BitVec.ofNat 8 payload.length).toNat = payload.length
    rw [BitVec.toNat_ofNat, BitVec.toNat_ofNat]
    omega
  cid := by simp [initFrame]
  seq := rfl
  isCont := by simp
  bytes := by
    have hdata : joined (initFrame cid cmd payload) [] = filled initRoom payload := by
      simp [joined, initFrame, initRest, Frame.initData]
    rw [hdata, filled_take _ _ (Nat.le_refl _), List.length_nil, room_zero, List.take_eq_take_iff]
    omega
  needed := by simp

theorem fragment_carries_upto {cid : Cid} {cmd : Byte} {payload : Bytes} (hcmd : cmd.msb = true)
    (hlen : payload.length ≤ maxPacketSize) (n : Nat) (hn : n ≤ contCount payload.length) :
    Carries cid cmd payload (initFrame cid cmd payload)
      ((List.range n).map (contFrame cid payload)) := by
  induction n with
  | zero => exact initFrame_carries hcmd hlen
  | succ n ih =>
    have hmore := lt_contCount hn
    have hcount := contCount_le hlen
    rw [List.range_succ, List.map_append, List.map_singleton]
    apply (ih (Nat.le_of_succ_le hn)).concat
    · rwa [List.length_map, List.length_range]
    · rfl
    · rw [List.length_map, List.length_range]
      rfl
    · show (BitVec.ofNat 8 n).msb = false
      rw [BitVec.msb_eq_decide, BitVec.toNat_ofNat, decide_eq_false_iff_not]
      omega
    · rw [List.length_map, List.length_range]
      have htake := filled_take contRoom (payload.drop (room n))
        (Nat.le_of_eq (List.length_drop (i := room n) (l := payload)).symm)
      rw [show (contFrame cid payload n).contData = filled contRoom (payload.drop (room n)) from rfl,
        htake, List.take_eq_take_iff, List.length_drop]
      omega

theorem fragment_carriesAll (cid : Cid) {cmd : Byte} {payload : Bytes} (hcmd : cmd.msb = true)
    (hlen : payload.length ≤ maxPacketSize) :
    CarriesAll cid cmd payload (fragment cid cmd payload) := by
  refine ⟨_, _, rfl, fragment_carries_upto hcmd hlen _ (Nat.le_refl _), ?_⟩
  rw [List.length_map, List.length_range]
  exact room_contCount _

end KeyWallet.Hid
