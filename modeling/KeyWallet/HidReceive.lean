import KeyWallet.HidFrames
import KeyWallet.StepSystem

/-! The receiving side of hid.c: frames are put together to messages, and a message goes to the
handler of its command. The clock is `board_millis`, in 32 bits. -/
namespace KeyWallet.Hid

open ByteBuffer StepSystem

inductive HidError
  | invalidCmd
  | invalidParameter
  | invalidLen
  | invalidSeq
  | msgTimeout
  | channelBusy
  | invalidChannel
  deriving DecidableEq, Repr

/-- The globals that reception keeps: msg_packet, what is left of last_req, and the channel lock. -/
structure Receiver where
  len : Nat := 0
  currentLen : Nat := 0
  data : Nat → Byte := fun _ => 0
  lastReqCid : Cid := 0
  lastCmd : Byte := 0
  lastSeq : Byte := 0
  lastCmdTime : BitVec 32 := 0
  lastPacketTime : BitVec 32 := 0
  lock : BitVec 32 := 0
  lockCid : Cid := 0

/-- What comes of a frame. -/
inductive Outcome
  -- nothing is sent, and nothing is handed on
  | ignored
  | waiting
  | error (e : HidError)
  -- CTAPHID_CANCEL for the request that is being executed
  | cancel
  -- answered at once, in one frame
  | reply
  -- handed to the handler of the command
  | message (cmd : Byte) (payload : Bytes)
  deriving DecidableEq

def ctapError (e : HidError) (r : Receiver) : Receiver × Outcome :=
  ({ r with lastPacketTime := 0 }, .error e)

/-- An init frame begins a new message. A message that began less than 100 ms ago is not given up
for it, unless it is a CTAPHID_INIT. -/
def acceptInit (now : BitVec 32) (f : Frame) (r : Receiver) : Except HidError Receiver :=
  if maxPacketSize < f.msgLen then .error .invalidLen
  else if 0 < r.len ∧ now < r.lastCmdTime + 100 ∧ f.type ≠ ctaphidInit then
    if r.lastReqCid ≠ f.cid then .error .channelBusy else .error .invalidSeq
  else
    let r := { r with lastReqCid := f.cid, lastCmd := f.type, lastSeq := 0, lastCmdTime := now }
    -- a message that fits its init frame is not copied
    if initRoom < f.msgLen then
      .ok { r with len := f.msgLen, currentLen := initRoom, data := blit r.data 0 f.initData }
    else .ok { r with len := 0, currentLen := 0 }

/-- A continuation frame. One of another channel is passed over once the message is 100 ms old. -/
def acceptCont (now : BitVec 32) (f : Frame) (r : Receiver) : Except HidError Receiver :=
  if r.lastSeq ≠ f.type then .error .invalidSeq
  else if r.lastReqCid = f.cid then
    let n := min contRoom (r.len - r.currentLen)
    .ok { r with
      data := blit r.data r.currentLen (f.contData.take n)
      currentLen := r.currentLen + n
      lastSeq := r.lastSeq + 1 }
  else if now < r.lastCmdTime + 100 then .error .channelBusy
  else .ok r

def accept (now : BitVec 32) (f : Frame) (r : Receiver) : Except HidError Receiver :=
  if f.isInit then acceptInit now f r else acceptCont now f r

/-- No message is open, or the one that is open is complete. -/
def complete (r : Receiver) : Prop := r.len = 0 ∨ r.len = r.currentLen

instance (r : Receiver) : Decidable (complete r) := inferInstanceAs (Decidable (_ ∨ _))

/-- The message that the handler gets. -/
def received (f : Frame) (r : Receiver) : Bytes :=
  if 0 < r.len then window r.data 0 r.len else f.initData.take f.msgLen

/-- The message is over. -/
def cleared (r : Receiver) : Receiver := { r with len := 0, currentLen := 0, lastPacketTime := 0 }

/-- CTAPHID_LOCK, with a time in seconds. -/
def lockChannel (now : BitVec 32) (f : Frame) (r : Receiver) : Receiver × Outcome :=
  let seconds := f.initData.getD 0 0
  if f.msgLen ≠ 1 then ctapError .invalidLen r
  else if 10 < seconds then ctapError .invalidParameter r
  else if now < r.lock ∧ f.cid ≠ r.lockCid then ctapError .channelBusy r
  else if seconds = 0 then ({ cleared r with lock := 0, lockCid := 0 }, .reply)
  else ({ cleared r with
    lock := now + seconds.setWidth 32 * 1000
    lockCid := f.cid }, .reply)

/-- The commands that are handed on as a message. -/
def isEcho (cmd : Byte) : Prop := cmd = ctaphidPing ∨ cmd = ctaphidSync

def isApdu (cmd : Byte) : Prop := cmd = ctaphidMsg ∨ cmd = ctaphidOtp

def isCbor (cmd : Byte) : Prop := cmd = ctaphidCbor ∨ ctaphidVendorFirst ≤ cmd

instance (cmd : Byte) : Decidable (isEcho cmd) := inferInstanceAs (Decidable (_ ∨ _))
instance (cmd : Byte) : Decidable (isApdu cmd) := inferInstanceAs (Decidable (_ ∨ _))
instance (cmd : Byte) : Decidable (isCbor cmd) := inferInstanceAs (Decidable (_ ∨ _))

/-- What is done with a frame that was taken in. Some branches go by the frame and some by the
command of the message that is open. -/
def dispatch (now : BitVec 32) (f : Frame) (r : Receiver) : Receiver × Outcome :=
  if f.type = ctaphidInit then (cleared r, .reply)
  else if f.type = ctaphidWink then
    if f.msgLen ≠ 0 then ctapError .invalidLen r else (cleared r, .reply)
  else if isEcho r.lastCmd ∧ complete r then (cleared r, .message r.lastCmd (received f r))
  else if f.type = ctaphidLock then lockChannel now f r
  else if f.type = ctaphidUuid ∨ f.type = ctaphidVersion ∨ f.type = ctaphidAdmin then
    (cleared r, .reply)
  else if (isApdu r.lastCmd ∨ isCbor r.lastCmd) ∧ complete r then
    (cleared r, .message r.lastCmd (received f r))
  else if r.len = 0 then ctapError .invalidCmd r
  else (r, .waiting)

/-- driver_process_usb_packet_hid. `busy` is what is_busy says of the worker. -/
def processPacket (busy : Bool) (now : BitVec 32) (f : Frame) (r₀ : Receiver) :
    Receiver × Outcome :=
  let r := { r₀ with lastPacketTime := now }
  if f.isInit = false ∧ r.len = 0 then ({ r with lastPacketTime := 0 }, .ignored)
  else if f.cid = 0 ∨ (f.cid = cidBroadcast ∧ (f.isInit = false ∨ f.type ≠ ctaphidInit)) then
    ctapError .invalidChannel r
  else if now < r.lock ∧ f.cid ≠ r.lockCid ∧ ¬ (f.cid = cidBroadcast ∧ f.type = ctaphidInit) then
    ctapError .channelBusy r
  else if f.isInit ∧ f.type = ctaphidCancel then
    (r, if f.msgLen = 0 ∧ busy ∧ r.lastCmd = ctaphidCbor ∧ f.cid = r.lastReqCid then .cancel
      else .ignored)
  else
    match accept now f r with
    | .error e => ctapError e r
    | .ok r => dispatch now f r

/-- driver_process_usb_nopacket_hid. -/
def processNoPacket (now : BitVec 32) (r : Receiver) : Receiver :=
  if 0 < r.lastPacketTime ∧ r.lastPacketTime + 500 < now then
    { r with lastPacketTime := 0, len := 0, currentLen := 0 }
  else r

/-- A report that comes in, or a pass of hid_task, at a time since the start of the device. -/
inductive Input
  | frame (busy : Bool) (time : Nat) (f : Frame)
  | poll (time : Nat)

namespace Receiver

/-- tud_hid_set_report_cb looks at the timeout right behind the frame. -/
def step (r : Receiver) : Input → Receiver
  | .frame busy time f =>
    processNoPacket (BitVec.ofNat 32 time) (processPacket busy (BitVec.ofNat 32 time) f r).1
  | .poll time => processNoPacket (BitVec.ofNat 32 time) r

def outcome (r : Receiver) : Input → Option Outcome
  | .frame busy time f => some (processPacket busy (BitVec.ofNat 32 time) f r).2
  | .poll _ => none

end Receiver

/-- The commands whose messages go to a handler. -/
def IsMessage (cmd : Byte) : Prop := isEcho cmd ∨ isApdu cmd ∨ isCbor cmd

instance (cmd : Byte) : Decidable (IsMessage cmd) := inferInstanceAs (Decidable (_ ∨ _))

/-- The message fits its buffer. -/
def Bounded (r : Receiver) : Prop := r.currentLen ≤ r.len ∧ r.len ≤ maxPacketSize

/-- The open message is made of an init frame and continuation frames of its channel, numbered from
0. -/
structure Opened (r : Receiver) (init : Frame) (conts : List Frame) : Prop where
  isInit : init.isInit = true
  cmd : init.type = r.lastCmd
  len : init.msgLen = r.len
  cid : ∀ f ∈ init :: conts, f.cid = r.lastReqCid
  seq : conts.map Frame.type = (List.range conts.length).map (BitVec.ofNat 8)
  isCont : ∀ f ∈ conts, f.isInit = false
  next : r.lastSeq = BitVec.ofNat 8 conts.length
  needed : ∀ k, k < conts.length → room k < r.len
  current : r.currentLen = min r.len (room conts.length)
  data : window r.data 0 r.currentLen = (joined init conts).take r.currentLen

/-- What holds after the frames `history` have come in. Some of them make up the open message, and
more are to come. -/
structure ReceiverInv (history : List Frame) (r : Receiver) : Prop where
  bounded : Bounded r
  opened : 0 < r.len → IsMessage r.lastCmd →
    ∃ init conts, (init :: conts).Sublist history ∧ Opened r init conts ∧ room conts.length < r.len

/-- Nothing of the message has changed. -/
structure SameMessage (r r' : Receiver) : Prop where
  len : r'.len = r.len
  currentLen : r'.currentLen = r.currentLen
  data : r'.data = r.data
  lastReqCid : r'.lastReqCid = r.lastReqCid
  lastCmd : r'.lastCmd = r.lastCmd
  lastSeq : r'.lastSeq = r.lastSeq

section Receiving

variable {r r' : Receiver} {f : Frame} {now : BitVec 32} {history : List Frame}

theorem SameMessage.opened (h : SameMessage r r') {init : Frame} {conts : List Frame}
    (ho : Opened r init conts) : Opened r' init conts where
  isInit := ho.isInit
  cmd := ho.cmd.trans h.lastCmd.symm
  len := ho.len.trans h.len.symm
  cid := fun f hf => (ho.cid f hf).trans h.lastReqCid.symm
  seq := ho.seq
  isCont := ho.isCont
  next := h.lastSeq.trans ho.next
  needed := h.len ▸ ho.needed
  current := by rw [h.currentLen, h.len, ho.current]
  data := by
    rw [h.data, h.currentLen]
    exact ho.data

theorem ReceiverInv.same (h : ReceiverInv history r) (hs : SameMessage r r') (f : Frame) :
    ReceiverInv (history ++ [f]) r' where
  bounded := by
    rw [Bounded, hs.len, hs.currentLen]
    exact h.bounded
  opened := by
    intro hlen hcmd
    rw [hs.len] at hlen
    rw [hs.lastCmd] at hcmd
    obtain ⟨init, conts, hsub, ho, hmore⟩ := h.opened hlen hcmd
    exact ⟨init, conts, hsub.trans (List.sublist_append_left _ _), hs.opened ho, hs.len ▸ hmore⟩

theorem receiverInv_of_empty (hlen : r.len = 0) (hcur : r.currentLen = 0) : ReceiverInv history r where
  bounded := by
    rw [Bounded, hlen, hcur]
    exact ⟨Nat.le_refl _, Nat.zero_le _⟩
  opened := by
    intro hpos
    omega

theorem acceptInit_ok (h : acceptInit now f r = .ok r') :
    f.msgLen ≤ maxPacketSize ∧ r'.lastCmd = f.type ∧ r'.lastReqCid = f.cid ∧ r'.lastSeq = 0 ∧
      (initRoom < f.msgLen ∧ r'.len = f.msgLen ∧ r'.currentLen = initRoom ∧
          r'.data = blit r.data 0 f.initData ∨
        f.msgLen ≤ initRoom ∧ r'.len = 0 ∧ r'.currentLen = 0) := by
  unfold acceptInit at h
  split_ifs at h with hlong hbusy hcid hroom
  · cases h
    exact ⟨Nat.le_of_not_lt hlong, rfl, rfl, rfl, .inl ⟨hroom, rfl, rfl, rfl⟩⟩
  · cases h
    exact ⟨Nat.le_of_not_lt hlong, rfl, rfl, rfl, .inr ⟨Nat.le_of_not_lt hroom, rfl, rfl⟩⟩

theorem acceptCont_ok (h : acceptCont now f r = .ok r') :
    r' = r ∨ r.lastSeq = f.type ∧ r.lastReqCid = f.cid ∧ r' = { r with
      data := blit r.data r.currentLen (f.contData.take (min contRoom (r.len - r.currentLen)))
      currentLen := r.currentLen + min contRoom (r.len - r.currentLen)
      lastSeq := r.lastSeq + 1 } := by
  unfold acceptCont at h
  split_ifs at h with hseq hcid hbusy
  · cases h
    exact .inr ⟨Decidable.not_not.mp hseq, hcid, rfl⟩
  · cases h
    exact .inl rfl

theorem lockChannel_cases (now : BitVec 32) (f : Frame) (r : Receiver) :
    ((lockChannel now f r).1.len = 0 ∧ (lockChannel now f r).1.currentLen = 0 ∨
      SameMessage r (lockChannel now f r).1) ∧
    ∀ cmd payload, (lockChannel now f r).2 ≠ .message cmd payload := by
  unfold lockChannel
  dsimp only
  split_ifs
  · exact ⟨.inr ⟨rfl, rfl, rfl, rfl, rfl, rfl⟩, fun _ _ h => by cases h⟩
  · exact ⟨.inr ⟨rfl, rfl, rfl, rfl, rfl, rfl⟩, fun _ _ h => by cases h⟩
  · exact ⟨.inr ⟨rfl, rfl, rfl, rfl, rfl, rfl⟩, fun _ _ h => by cases h⟩
  · exact ⟨.inl ⟨rfl, rfl⟩, fun _ _ h => by cases h⟩
  · exact ⟨.inl ⟨rfl, rfl⟩, fun _ _ h => by cases h⟩

/-- A frame of the open message: the message is over, and handed on if it is one for a handler, or it
stays open and was not complete. -/
def Dispatched (f : Frame) (r : Receiver) (x : Receiver × Outcome) : Prop :=
  (x.1.len = 0 ∧ x.1.currentLen = 0 ∧ ∀ cmd payload, x.2 = .message cmd payload →
    cmd = r.lastCmd ∧ payload = received f r ∧ complete r ∧ IsMessage cmd) ∨
  (SameMessage r x.1 ∧ (IsMessage r.lastCmd → ¬ complete r) ∧ ∀ cmd payload, x.2 ≠ .message cmd payload)

theorem Dispatched.closed {x : Receiver × Outcome} (hlen : x.1.len = 0) (hcur : x.1.currentLen = 0)
    (hno : ∀ cmd payload, x.2 ≠ .message cmd payload) : Dispatched f r x :=
  .inl ⟨hlen, hcur, fun cmd payload h => absurd h (hno cmd payload)⟩

/-- Every message of a handler's command is handed on as soon as it is complete, and is over then. -/
theorem dispatch_cases (hcmd : f.isInit = true → r.lastCmd = f.type) : Dispatched f r (dispatch now f r) := by
  have hnot : ∀ cmd, f.type = cmd → cmd.msb = true → ¬ IsMessage cmd → ¬ IsMessage r.lastCmd := by
    intro cmd hf hmsb hno
    rwa [hcmd (by rw [Frame.isInit, hf]; exact hmsb), hf]
  have herror (e : HidError) : SameMessage r (ctapError e r).1 := ⟨rfl, rfl, rfl, rfl, rfl, rfl⟩
  have hreply : Dispatched f r (cleared r, .reply) := .closed rfl rfl fun _ _ h => by cases h
  have hmessage (hm : IsMessage r.lastCmd) (hc : complete r) :
      Dispatched f r (cleared r, .message r.lastCmd (received f r)) := by
    refine .inl ⟨rfl, rfl, fun cmd payload h => ?_⟩
    cases h
    exact ⟨rfl, rfl, hc, hm⟩
  unfold dispatch
  -- along the branches of the definition
  refine iteInduction (motive := Dispatched f r) (fun _ => hreply) (fun _ => ?_)
  refine iteInduction (motive := Dispatched f r) (fun hwink => ?_) (fun _ => ?_)
  · refine iteInduction (motive := Dispatched f r) (fun _ => ?_) (fun _ => hreply)
    refine .inr ⟨herror _, fun hm => ?_, fun _ _ h => by cases h⟩
    exact absurd hm (hnot _ hwink (by decide) (by decide))
  refine iteInduction (motive := Dispatched f r) (fun hecho => hmessage (.inl hecho.1) hecho.2) (fun hecho => ?_)
  refine iteInduction (motive := Dispatched f r) (fun hlock => ?_) (fun _ => ?_)
  · obtain ⟨hst, hno⟩ := lockChannel_cases now f r
    rcases hst with ⟨hl, hc⟩ | hkept
    · exact .closed hl hc hno
    · refine .inr ⟨hkept, fun hm => ?_, hno⟩
      exact absurd hm (hnot _ hlock (by decide) (by decide))
  refine iteInduction (motive := Dispatched f r) (fun _ => hreply) (fun _ => ?_)
  refine iteInduction (motive := Dispatched f r) (fun happ => hmessage (.inr happ.1) happ.2) (fun happ => ?_)
  -- no handler's message is complete
  have hopen : IsMessage r.lastCmd → ¬ complete r := by
    rintro (hm | hm) hc
    · exact hecho ⟨hm, hc⟩
    · exact happ ⟨hm, hc⟩
  refine iteInduction (motive := Dispatched f r) (fun _ => ?_) (fun _ => ?_)
  · exact .inr ⟨herror _, hopen, fun _ _ h => by cases h⟩
  · exact .inr ⟨⟨rfl, rfl, rfl, rfl, rfl, rfl⟩, hopen, fun _ _ h => by cases h⟩

theorem opened_init (hinit : f.isInit = true) (h : acceptInit now f r = .ok r')
    (hlong : 0 < r'.len) : Opened r' f [] ∧ r'.len ≤ maxPacketSize := by
  obtain ⟨hmax, hcmd, hcid, hseq, ⟨hroom, hlen, hcur, hdata⟩ | ⟨-, hzero, -⟩⟩ := acceptInit_ok h
  · refine ⟨⟨hinit, hcmd.symm, hlen.symm, ?_, rfl, by simp, hseq, by simp, ?_, ?_⟩, hlen ▸ hmax⟩
    · intro g hg
      rw [List.mem_singleton.mp hg, hcid]
    · rw [hcur, hlen, List.length_nil, room_zero, Nat.min_eq_right (Nat.le_of_lt hroom)]
    · have hfull : f.initData.length = initRoom := f.initData_length
      rw [hdata, hcur, ← hfull, window_blit]
      simp only [joined, List.flatMap_nil, List.append_nil, List.take_length]
  · omega

theorem Opened.cont {init : Frame} {conts : List Frame} (ho : Opened r init conts)
    (hmore : room conts.length < r.len) (hcont : f.isInit = false) (hseq : r.lastSeq = f.type)
    (hcid : r.lastReqCid = f.cid) :
    Opened { r with
      data := blit r.data r.currentLen (f.contData.take (min contRoom (r.len - r.currentLen)))
      currentLen := r.currentLen + min contRoom (r.len - r.currentLen)
      lastSeq := r.lastSeq + 1 } init (conts ++ [f]) := by
  have hcur : r.currentLen = room conts.length := by
    rw [ho.current, Nat.min_eq_right (Nat.le_of_lt hmore)]
  have hlen : (conts ++ [f]).length = conts.length + 1 := by simp
  refine ⟨ho.isInit, ho.cmd, ho.len, ?_, ?_, ?_, ?_, ?_, ?_, ?_⟩
  · intro g hg
    rw [← List.cons_append, List.mem_append, List.mem_singleton] at hg
    rcases hg with hg | rfl
    · exact ho.cid g hg
    · exact hcid.symm
  · rw [List.map_append, ho.seq, hlen, List.range_succ, List.map_append, List.map_singleton,
      List.map_singleton, ← hseq, ho.next]
  · intro g hg
    rcases List.mem_append.mp hg with hg | hg
    · exact ho.isCont g hg
    · rw [List.mem_singleton.mp hg]
      exact hcont
  · show r.lastSeq + 1 = _
    rw [ho.next, hlen, BitVec.ofNat_add]
    rfl
  · intro k hk
    rw [hlen] at hk
    rcases Nat.lt_succ_iff_lt_or_eq.mp hk with hk | rfl
    · exact ho.needed k hk
    · exact hmore
  · show r.currentLen + min contRoom (r.len - r.currentLen) = min r.len (room (conts ++ [f]).length)
    rw [hlen, room_succ, hcur]
    omega
  · show window (blit r.data r.currentLen (f.contData.take (min contRoom (r.len - r.currentLen)))) 0
      (r.currentLen + min contRoom (r.len - r.currentLen)) =
        (joined init (conts ++ [f])).take (r.currentLen + min contRoom (r.len - r.currentLen))
    have htake : (f.contData.take (min contRoom (r.len - r.currentLen))).length =
        min contRoom (r.len - r.currentLen) := by
      rw [List.length_take, f.contData_length]
      omega
    have happ := window_blit_append r.data 0 r.currentLen
      (f.contData.take (min contRoom (r.len - r.currentLen)))
    rw [Nat.zero_add, htake, ho.data] at happ
    have hjoined : (joined init conts).length = r.currentLen := (joined_length init conts).trans hcur.symm
    rw [happ, joined_concat, List.take_append, hjoined, Nat.add_sub_cancel_left,
      List.take_of_length_le (Nat.le_of_eq hjoined),
      List.take_of_length_le (Nat.le_trans (Nat.le_of_eq hjoined) (Nat.le_add_right _ _))]

theorem Opened.carriesAll {init : Frame} {conts : List Frame} (ho : Opened r init conts)
    (hlen : r.len = r.currentLen) :
    CarriesAll r.lastReqCid r.lastCmd (window r.data 0 r.len) (init :: conts) := by
  have hall : r.len ≤ room conts.length := by
    have := ho.current
    omega
  have hdata : window r.data 0 r.len = (joined init conts).take r.len := by
    have := ho.data
    rwa [← hlen] at this
  refine ⟨init, conts, rfl, ⟨ho.isInit, ho.cmd, ?_, ho.cid, ho.seq, ho.isCont, ?_, ?_⟩, ?_⟩
  · rw [window_length, ho.len]
  · rw [window_length, ← hdata]
    exact (List.take_of_length_le (by rwa [window_length])).symm
  · rw [window_length]
    exact ho.needed
  · rwa [window_length]

theorem carriesAll_init (hinit : f.isInit = true) (hshort : f.msgLen ≤ initRoom) :
    CarriesAll f.cid f.type (f.initData.take f.msgLen) [f] := by
  have hlen : (f.initData.take f.msgLen).length = f.msgLen := by
    rw [List.length_take, f.initData_length]
    omega
  refine ⟨f, [], rfl, ⟨hinit, rfl, hlen.symm, ?_, rfl, by simp, ?_, by simp⟩, ?_⟩
  · intro g hg
    rw [List.mem_singleton.mp hg]
  · rw [hlen, List.take_take]
    simp only [joined, List.flatMap_nil, List.append_nil, List.length_nil, room_zero]
    rw [Nat.min_eq_right hshort]
  · rwa [hlen]

/-- What holds between taking a frame in and acting on it. -/
structure Accepted (history : List Frame) (f : Frame) (r : Receiver) : Prop where
  cmd : f.isInit = true → r.lastCmd = f.type
  bounded : Bounded r
  short : r.len = 0 → f.isInit = true ∧ f.msgLen ≤ initRoom
  opened : 0 < r.len → IsMessage r.lastCmd → ∃ init conts, (init :: conts).Sublist (history ++ [f]) ∧
    Opened r init conts ∧ (complete r → (init :: conts).getLast? = some f)

theorem acceptInit_accepted (hinit : f.isInit = true) (hacc : acceptInit now f r = .ok r') :
    Accepted history f r' := by
  obtain ⟨-, hcmd, -, -, hlen⟩ := acceptInit_ok hacc
  refine ⟨fun _ => hcmd, ?_, ?_, ?_⟩
  · rcases hlen with ⟨hroom, hlen, hcur, -⟩ | ⟨-, hlen, hcur⟩
    · refine ⟨?_, (opened_init hinit hacc (by omega)).2⟩
      omega
    · rw [Bounded, hlen, hcur]
      exact ⟨Nat.le_refl _, Nat.zero_le _⟩
  · intro hzero
    rcases hlen with ⟨hroom, hlen, -⟩ | ⟨hshort, -⟩
    · omega
    · exact ⟨hinit, hshort⟩
  · intro hpos _
    exact ⟨f, [], List.sublist_append_right _ _, (opened_init hinit hacc hpos).1, fun _ => rfl⟩

theorem acceptCont_accepted (h : ReceiverInv history r) (hopen : 0 < r.len)
    (hcont : f.isInit = false) (hacc : acceptCont now f r = .ok r') : Accepted history f r' := by
  rcases acceptCont_ok hacc with rfl | ⟨hseq, hcid, rfl⟩
  · -- a frame of another channel: the message stays open
    refine ⟨fun hi => absurd hi (by rw [hcont]; decide), h.bounded, fun hz => by omega, ?_⟩
    intro hpos hm
    obtain ⟨init, conts, hsub, ho, hmore⟩ := h.opened hpos hm
    refine ⟨init, conts, hsub.trans (List.sublist_append_left _ _), ho, fun hc => ?_⟩
    have := ho.current
    rcases hc with hc | hc <;> omega
  · refine ⟨fun hi => absurd hi (by rw [hcont]; decide), ?_, fun hz => absurd hz (by
      show ¬ r.len = 0
      omega), ?_⟩
    · show r.currentLen + min contRoom (r.len - r.currentLen) ≤ r.len ∧ r.len ≤ maxPacketSize
      have := h.bounded.1
      exact ⟨by omega, h.bounded.2⟩
    · intro hpos hm
      obtain ⟨init, conts, hsub, ho, hmore⟩ := h.opened hpos hm
      refine ⟨init, conts ++ [f], ?_, ho.cont hmore hcont hseq hcid, fun _ => ?_⟩
      · rw [← List.cons_append]
        exact hsub.append (List.Sublist.refl _)
      · rw [← List.cons_append, List.getLast?_append]
        rfl

/-- A message goes to its handler with what its frames carry, the last of which is the one that has
just come in. -/
def HandsOver (history : List Frame) (f : Frame) (o : Outcome) : Prop :=
  ∀ cmd payload, o = .message cmd payload → ∃ cid frames, CarriesAll cid cmd payload frames ∧
    frames.Sublist (history ++ [f]) ∧ frames.getLast? = some f

theorem Accepted.dispatch (h : Accepted history f r) :
    ReceiverInv (history ++ [f]) (dispatch now f r).1 ∧
      HandsOver history f (dispatch now f r).2 := by
  rcases @dispatch_cases r f now h.cmd with ⟨hlen, hcur, hmsg⟩ | ⟨hsame, hopen, hno⟩
  · refine ⟨receiverInv_of_empty hlen hcur, ?_⟩
    intro cmd payload heq
    obtain ⟨rfl, rfl, hcomplete, hm⟩ := hmsg cmd payload heq
    by_cases hpos : 0 < r.len
    · obtain ⟨init, conts, hsub, ho, hlast⟩ := h.opened hpos hm
      refine ⟨r.lastReqCid, init :: conts, ?_, hsub, hlast hcomplete⟩
      rw [received, if_pos hpos]
      exact ho.carriesAll (hcomplete.resolve_left (by omega))
    · obtain ⟨hinit, hshort⟩ := h.short (by omega)
      refine ⟨f.cid, [f], ?_, List.sublist_append_right _ _, rfl⟩
      rw [received, if_neg hpos, h.cmd hinit]
      exact carriesAll_init hinit hshort
  · refine ⟨⟨?_, ?_⟩, fun cmd payload heq => absurd heq (hno cmd payload)⟩
    · rw [Bounded, hsame.len, hsame.currentLen]
      exact h.bounded
    · intro hpos hm
      rw [hsame.len] at hpos
      rw [hsame.lastCmd] at hm
      obtain ⟨init, conts, hsub, ho, -⟩ := h.opened hpos hm
      refine ⟨init, conts, hsub, hsame.opened ho, ?_⟩
      have hmore := hopen hm
      have hcur := ho.current
      rw [complete, not_or] at hmore
      rw [hsame.len]
      omega

/-- Every frame keeps the invariant, and hands over only what it should. -/
theorem processPacket_inv (h : ReceiverInv history r) (busy : Bool) (now : BitVec 32) (f : Frame) :
    ReceiverInv (history ++ [f]) (processPacket busy now f r).1 ∧
      HandsOver history f (processPacket busy now f r).2 := by
  have hsame : ∀ t, SameMessage r { r with lastPacketTime := t } :=
    fun _ => ⟨rfl, rfl, rfl, rfl, rfl, rfl⟩
  unfold processPacket
  dsimp only
  split_ifs with hstray hcid hlock hcancel
  · exact ⟨h.same (hsame _) f, fun _ _ heq => by cases heq⟩
  · exact ⟨h.same (hsame _) f, fun _ _ heq => by cases heq⟩
  · exact ⟨h.same (hsame _) f, fun _ _ heq => by cases heq⟩
  · exact ⟨h.same (hsame _) f, fun _ _ heq => by cases heq⟩
  · exact ⟨h.same (hsame _) f, fun _ _ heq => by cases heq⟩
  · have hstart : ReceiverInv history { r with lastPacketTime := now } :=
      ⟨h.bounded, fun hpos hm => by
        obtain ⟨init, conts, hsub, ho, hmore⟩ := h.opened hpos hm
        exact ⟨init, conts, hsub, (hsame now).opened ho, hmore⟩⟩
    cases hacc : accept now f { r with lastPacketTime := now } with
    | error e => exact ⟨h.same (hsame _) f, fun _ _ heq => by cases heq⟩
    | ok r1 =>
      apply Accepted.dispatch
      unfold accept at hacc
      split_ifs at hacc with hinit
      · exact acceptInit_accepted hinit hacc
      · rw [Bool.not_eq_true] at hinit
        have hpos : 0 < r.len := by
          rcases Nat.eq_zero_or_pos r.len with hz | hpos
          · exact absurd ⟨hinit, hz⟩ hstray
          · exact hpos
        exact acceptCont_accepted hstart hpos hinit hacc

theorem processNoPacket_inv (h : ReceiverInv history r) (now : BitVec 32) :
    ReceiverInv history (processNoPacket now r) := by
  unfold processNoPacket
  split_ifs
  · exact receiverInv_of_empty rfl rfl
  · exact h

end Receiving

/-- The frames among the inputs. -/
def framesOf (inputs : List Input) : List Frame :=
  inputs.filterMap fun
    | .frame _ _ f => some f
    | .poll _ => none

theorem receiverInv_run (inputs : List Input) :
    ReceiverInv (framesOf inputs) (run Receiver.step {} inputs) := by
  induction inputs using List.reverseRecOn with
  | nil => exact receiverInv_of_empty rfl rfl
  | append_singleton inputs i ih =>
    rw [run_append]
    cases i with
    | frame busy time f =>
      have hframes : framesOf (inputs ++ [Input.frame busy time f]) = framesOf inputs ++ [f] := by
        simp [framesOf]
      rw [hframes]
      exact processNoPacket_inv (processPacket_inv ih busy _ f).1 _
    | poll time =>
      have hframes : framesOf (inputs ++ [Input.poll time]) = framesOf inputs := by
        simp [framesOf]
      rw [hframes]
      exact processNoPacket_inv ih _

/-- The messages that go to a handler along a run. -/
def handed (r : Receiver) : List Input → List (Byte × Bytes)
  | [] => []
  | i :: rest =>
    match r.outcome i with
    | some (.message cmd payload) => (cmd, payload) :: handed (r.step i) rest
    | _ => handed (r.step i) rest

/-- When the frames came in. -/
def stamps (inputs : List Input) : List Nat :=
  inputs.filterMap fun
    | .frame _ time _ => some time
    | .poll _ => none

theorem stamps_length (inputs : List Input) : (stamps inputs).length = (framesOf inputs).length := by
  induction inputs with
  | nil => rfl
  | cons i inputs ih =>
    cases i with
    | frame busy t f => simpa [stamps, framesOf] using ih
    | poll t => simpa [stamps, framesOf] using ih

/-- From each frame to the next, and to the passes in between, it takes at most 500 ms. -/
def Timely (last : Nat) : List Input → Prop
  | [] => True
  | .frame _ time _ :: rest => (last ≤ time ∧ time ≤ last + 500) ∧ Timely time rest
  | .poll time :: rest => (last ≤ time ∧ time ≤ last + 500) ∧ Timely last rest

/-- The clock does not wrap in the 500 ms from here. -/
def ClockSafe (time : Nat) : Prop := time % 4294967296 + 500 < 4294967296

instance (time : Nat) : Decidable (ClockSafe time) := inferInstanceAs (Decidable (_ < _))

/-- The channel is not locked out. -/
def Unlocked (r : Receiver) (cid : Cid) (time : Nat) : Prop :=
  ¬ (BitVec.ofNat 32 time < r.lock ∧ cid ≠ r.lockCid)

/-- No message that began less than 100 ms ago is open. -/
def Idle (r : Receiver) (time : Nat) : Prop :=
  ¬ (0 < r.len ∧ BitVec.ofNat 32 time < r.lastCmdTime + 100)

/-- The commands whose messages may have more than one frame. -/
def Transfers (cmd : Byte) : Prop :=
  IsMessage cmd ∧ cmd ≠ ctaphidUuid ∧ cmd ≠ ctaphidVersion ∧ cmd ≠ ctaphidAdmin

/-- A channel that messages are sent on. -/
def IsChannel (cid : Cid) : Prop := cid ≠ 0 ∧ cid ≠ cidBroadcast

section Delivery

variable {r : Receiver} {f : Frame} {cid : Cid} {cmd : Byte} {payload : Bytes}

theorem clock_advance {t₀ t : Nat} (hsafe : ClockSafe t₀) (h : t₀ ≤ t ∧ t ≤ t₀ + 500) :
    (BitVec.ofNat 32 t).toNat = (BitVec.ofNat 32 t₀).toNat + (t - t₀) := by
  unfold ClockSafe at hsafe
  rw [BitVec.toNat_ofNat, BitVec.toNat_ofNat]
  omega

theorem add_500_toNat {t₀ : Nat} (hsafe : ClockSafe t₀) :
    (BitVec.ofNat 32 t₀ + 500).toNat = (BitVec.ofNat 32 t₀).toNat + 500 := by
  unfold ClockSafe at hsafe
  rw [BitVec.toNat_add, BitVec.toNat_ofNat, show (500 : BitVec 32).toNat = 500 from rfl]
  omega

theorem processNoPacket_safe {t₀ t : Nat} (hlast : r.lastPacketTime = BitVec.ofNat 32 t₀)
    (hsafe : ClockSafe t₀) (h : t₀ ≤ t ∧ t ≤ t₀ + 500) :
    processNoPacket (BitVec.ofNat 32 t) r = r := by
  apply if_neg
  rintro ⟨-, hlt⟩
  rw [hlast, BitVec.lt_def, add_500_toNat hsafe, clock_advance hsafe h] at hlt
  omega

theorem processNoPacket_wrap {t : Nat} (hlast : r.lastPacketTime = BitVec.ofNat 32 t)
    (hwrap : ¬ ClockSafe t) : (processNoPacket (BitVec.ofNat 32 t) r).len = 0 := by
  have hfires : 0 < r.lastPacketTime ∧ r.lastPacketTime + 500 < BitVec.ofNat 32 t := by
    unfold ClockSafe at hwrap
    rw [hlast, BitVec.lt_def, BitVec.lt_def, BitVec.toNat_add, BitVec.toNat_ofNat,
      show (500 : BitVec 32).toNat = 500 from rfl, show (0 : BitVec 32).toNat = 0 from rfl]
    omega
  rw [processNoPacket, if_pos hfires]

theorem processNoPacket_idle (hlast : r.lastPacketTime = 0) (now : BitVec 32) :
    processNoPacket now r = r := by
  apply if_neg
  rintro ⟨hpos, -⟩
  rw [hlast] at hpos
  exact absurd hpos (by decide)

theorem handed_closed (inputs : List Input) (hlen : r.len = 0)
    (hconts : ∀ f ∈ framesOf inputs, f.isInit = false) : handed r inputs = [] := by
  induction inputs generalizing r with
  | nil => rfl
  | cons i rest ih =>
    have hnop : ∀ (now : BitVec 32) (q : Receiver), q.len = 0 → (processNoPacket now q).len = 0 := by
      intro now q hq
      unfold processNoPacket
      split_ifs
      · rfl
      · exact hq
    cases i with
    | frame busy time f =>
      have hf : f.isInit = false := hconts f (by simp [framesOf])
      have hrest : ∀ g ∈ framesOf rest, g.isInit = false := by
        intro g hg
        apply hconts
        simp only [framesOf, List.filterMap_cons] at hg ⊢
        exact List.mem_cons_of_mem _ hg
      have hstray : processPacket busy (BitVec.ofNat 32 time) f r =
          ({ r with lastPacketTime := 0 }, .ignored) := by
        rw [processPacket]
        exact if_pos ⟨hf, hlen⟩
      have hout : r.outcome (.frame busy time f) = some .ignored := by
        rw [Receiver.outcome, hstray]
      rw [handed, hout]
      apply ih _ hrest
      rw [Receiver.step, hstray]
      exact hnop _ _ hlen
    | poll time =>
      have hrest : ∀ g ∈ framesOf rest, g.isInit = false := by
        intro g hg
        apply hconts
        simpa only [framesOf, List.filterMap_cons] using hg
      rw [handed]
      exact ih (hnop _ _ hlen) hrest

/-- None of the commands that go by the frame. -/
def GoesByMessage (type : Byte) : Prop :=
  type ≠ ctaphidInit ∧ type ≠ ctaphidWink ∧ type ≠ ctaphidLock ∧ type ≠ ctaphidUuid ∧
    type ≠ ctaphidVersion ∧ type ≠ ctaphidAdmin

theorem goesByMessage_cont (h : f.isInit = false) : GoesByMessage f.type := by
  have hne : ∀ c : Byte, c.msb = true → f.type ≠ c := by
    rintro c hc rfl
    rw [Frame.isInit, hc] at h
    cases h
  exact ⟨hne _ (by decide), hne _ (by decide), hne _ (by decide), hne _ (by decide),
    hne _ (by decide), hne _ (by decide)⟩

theorem goesByMessage_transfer (h : Transfers cmd) : GoesByMessage cmd := by
  refine ⟨?_, ?_, ?_, h.2⟩
  · rintro rfl
    exact absurd h.1 (by decide)
  · rintro rfl
    exact absurd h.1 (by decide)
  · rintro rfl
    exact absurd h.1 (by decide)

theorem dispatch_message (now : BitVec 32) (hf : GoesByMessage f.type) (hm : IsMessage r.lastCmd) :
    dispatch now f r = if complete r then (cleared r, .message r.lastCmd (received f r))
      else (r, .waiting) := by
  obtain ⟨hinit, hwink, hlock, huuid, hversion, hadmin⟩ := hf
  have hreply : ¬ (f.type = ctaphidUuid ∨ f.type = ctaphidVersion ∨ f.type = ctaphidAdmin) := by
    rintro (h | h | h)
    · exact huuid h
    · exact hversion h
    · exact hadmin h
  unfold dispatch
  rw [if_neg hinit, if_neg hwink, if_neg hlock, if_neg hreply]
  by_cases hc : complete r
  · rw [if_pos hc]
    rcases hm with hm | hm
    · rw [if_pos ⟨hm, hc⟩]
    · by_cases he : isEcho r.lastCmd
      · rw [if_pos ⟨he, hc⟩]
      · rw [if_neg fun h => he h.1, if_pos ⟨hm, hc⟩]
  · have hlen : ¬ r.len = 0 := fun hz => hc (.inl hz)
    rw [if_neg hc, if_neg fun h => hc h.2, if_neg fun h => hc h.2, if_neg hlen]

/-- A message is being sent: `conts` have come in, the last frame at `t`. -/
structure Underway (cid : Cid) (cmd : Byte) (payload : Bytes) (init : Frame) (conts : List Frame)
    (t : Nat) (r : Receiver) : Prop where
  opened : Opened r init conts
  command : r.lastCmd = cmd
  channel : r.lastReqCid = cid
  len : r.len = payload.length
  more : room conts.length < r.len
  last : r.lastPacketTime = BitVec.ofNat 32 t
  unlocked : Unlocked r cid t

theorem Carries.next {init : Frame} {conts more : List Frame}
    (h : Carries cid cmd payload init (conts ++ f :: more)) :
    f.cid = cid ∧ f.type = BitVec.ofNat 8 conts.length ∧ f.isInit = false := by
  refine ⟨h.cid f (by simp), ?_, h.isCont f (by simp)⟩
  have hseq := congrArg (fun types => types[conts.length]?) h.seq
  simpa using hseq

theorem Underway.processPacket {init : Frame} {conts : List Frame} {t₀ t : Nat}
    (h : Underway cid cmd payload init conts t₀ r) (hchannel : IsChannel cid)
    (hsafe : ClockSafe t₀) (ht : t₀ ≤ t ∧ t ≤ t₀ + 500) (hcid : f.cid = cid)
    (htype : f.type = BitVec.ofNat 8 conts.length) (hcont : f.isInit = false) (busy : Bool) :
    ∃ r', Opened r' init (conts ++ [f]) ∧ r'.lastCmd = cmd ∧ r'.lastReqCid = cid ∧
      r'.len = payload.length ∧ r'.lastPacketTime = BitVec.ofNat 32 t ∧ Unlocked r' cid t ∧
      processPacket busy (BitVec.ofNat 32 t) f r = dispatch (BitVec.ofNat 32 t) f r' := by
  have hunlocked : Unlocked r cid t := by
    rintro ⟨hlt, hne⟩
    refine h.unlocked ⟨?_, hne⟩
    rw [BitVec.lt_def, clock_advance hsafe ht] at hlt
    rw [BitVec.lt_def]
    omega
  have hseq : r.lastSeq = f.type := h.opened.next.trans htype.symm
  have hown : r.lastReqCid = f.cid := h.channel.trans hcid.symm
  have hsame : SameMessage r { r with lastPacketTime := BitVec.ofNat 32 t } :=
    ⟨rfl, rfl, rfl, rfl, rfl, rfl⟩
  have hopened := (hsame.opened h.opened).cont h.more hcont hseq hown
  refine ⟨_, hopened, h.command, h.channel, h.len, rfl, hunlocked, ?_⟩
  have hpos : ¬ (f.isInit = false ∧ r.len = 0) := fun hz => absurd h.more (by rw [hz.2]; omega)
  have hvalid : ¬ (f.cid = 0 ∨ f.cid = cidBroadcast ∧ (f.isInit = false ∨ f.type ≠ ctaphidInit)) := by
    rw [hcid]
    rintro (hz | ⟨hb, -⟩)
    · exact hchannel.1 hz
    · exact hchannel.2 hb
  have hfree : ¬ (BitVec.ofNat 32 t < r.lock ∧ f.cid ≠ r.lockCid ∧
      ¬ (f.cid = cidBroadcast ∧ f.type = ctaphidInit)) := by
    rw [hcid]
    exact fun hl => hunlocked ⟨hl.1, hl.2.1⟩
  have hinit : ¬ f.isInit = true := by rw [hcont]; decide
  have hcancel : ¬ (f.isInit = true ∧ f.type = ctaphidCancel) := fun hc => hinit hc.1
  unfold KeyWallet.Hid.processPacket
  dsimp only
  rw [if_neg hpos, if_neg hvalid, if_neg hfree, if_neg hcancel, accept, if_neg hinit, acceptCont,
    if_neg (fun hne => hne hseq), if_pos hown]

theorem handed_underway {init : Frame} {conts rest : List Frame} (hcmd : Transfers cmd)
    (hchannel : IsChannel cid) (hcarries : Carries cid cmd payload init (conts ++ rest))
    (hall : payload.length ≤ room (conts ++ rest).length) {t₀ : Nat} (hsafe : ClockSafe t₀)
    (inputs : List Input) (h : Underway cid cmd payload init conts t₀ r)
    (hframes : framesOf inputs = rest) (htimely : Timely t₀ inputs) :
    handed r inputs =
      if ∀ t ∈ (stamps inputs).dropLast, ClockSafe t then [(cmd, payload)] else [] := by
  induction inputs generalizing r conts rest t₀ with
  | nil =>
    have hnil : rest = [] := hframes.symm
    have hlt := h.more
    rw [hnil, List.append_nil, ← h.len] at hall
    omega
  | cons i inputs ih =>
    cases i with
    | poll t =>
      have hstep : r.step (.poll t) = r := processNoPacket_safe h.last hsafe htimely.1
      rw [handed, hstep]
      exact ih hcarries hall hsafe h hframes htimely.2
    | frame busy t f =>
      have hrest : f :: framesOf inputs = rest := hframes
      subst hrest
      obtain ⟨hcid, htype, hcont⟩ := hcarries.next
      obtain ⟨r', hopened, hcmd', hcid', hlen', hlast', hunlocked', heq⟩ :=
        h.processPacket hchannel hsafe htimely.1 hcid htype hcont busy
      have hmessage : IsMessage r'.lastCmd := hcmd'.symm ▸ hcmd.1
      rw [dispatch_message _ (goesByMessage_cont hcont) hmessage] at heq
      have hcur := hopened.current
      have hlenc : (conts ++ [f]).length = conts.length + 1 := by simp
      rw [hlenc] at hcur
      cases hframes' : framesOf inputs with
      | nil =>
        -- the last frame
        rw [hframes'] at hall hcarries
        have hfull : r'.len = r'.currentLen := by
          rw [hlenc] at hall
          omega
        have hpos : 0 < r'.len := by
          have := h.more
          rw [h.len] at this
          omega
        have hpayload : received f r' = payload := by
          rw [received, if_pos hpos]
          exact (hopened.carriesAll hfull).unique ⟨init, conts ++ [f], rfl, hcarries, hall⟩
        rw [if_pos (.inr hfull), hcmd', hpayload] at heq
        have hout : r.outcome (.frame busy t f) = some (.message cmd payload) := by
          rw [Receiver.outcome, heq]
        have hstep : r.step (.frame busy t f) = cleared r' := by
          rw [Receiver.step, heq]
          exact processNoPacket_idle rfl _
        have hstamps : stamps inputs = [] := by
          apply List.eq_nil_of_length_eq_zero
          rw [stamps_length, hframes']
          rfl
        have hsafeAll : ∀ s ∈ (stamps (.frame busy t f :: inputs)).dropLast, ClockSafe s := by
          have hone : stamps (.frame busy t f :: inputs) = t :: stamps inputs := rfl
          rw [hone, hstamps]
          simp
        rw [handed, hout, hstep, if_pos hsafeAll,
          handed_closed inputs rfl (by rw [hframes']; simp)]
      | cons g more =>
        rw [hframes'] at hall hcarries
        have hneeded : room (conts.length + 1) < payload.length := by
          apply hcarries.needed
          simp
        have hopen : ¬ complete r' := by
          rintro (hz | hfull) <;> omega
        rw [if_neg hopen] at heq
        have hout : r.outcome (.frame busy t f) = some .waiting := by
          rw [Receiver.outcome, heq]
        have hstep : r.step (.frame busy t f) = processNoPacket (BitVec.ofNat 32 t) r' := by
          rw [Receiver.step, heq]
        have hconts : ∀ e ∈ framesOf inputs, e.isInit = false := by
          intro e he
          apply hcarries.isCont
          rw [hframes'] at he
          simp [List.mem_cons.mp he]
        have hstamps : (stamps (.frame busy t f :: inputs)).dropLast =
            t :: (stamps inputs).dropLast := by
          apply List.dropLast_cons_of_ne_nil
          intro hnil
          have hlen := stamps_length inputs
          rw [show stamps inputs = [] from hnil, hframes'] at hlen
          cases hlen
        rw [handed, hout, hstep, hstamps]
        by_cases ht : ClockSafe t
        · have hnext : Underway cid cmd payload init (conts ++ [f]) t r' :=
            ⟨hopened, hcmd', hcid', hlen', by rw [hlenc]; omega, hlast', hunlocked'⟩
          have happ : conts ++ f :: g :: more = (conts ++ [f]) ++ g :: more := by simp
          rw [happ] at hcarries hall
          rw [processNoPacket_safe hlast' ht ⟨Nat.le_refl _, Nat.le_add_right _ _⟩]
          rw [ih hcarries hall ht hnext hframes' htimely.2]
          simp only [List.forall_mem_cons, ht, true_and]
        · rw [handed_closed inputs (processNoPacket_wrap hlast' ht) hconts, if_neg]
          exact fun hsafe => ht (hsafe t List.mem_cons_self)

theorem processPacket_init {init : Frame} {conts : List Frame} {t : Nat}
    (hcmd : Transfers cmd) (hchannel : IsChannel cid)
    (hcarries : Carries cid cmd payload init conts) (hlen : payload.length ≤ maxPacketSize)
    (hidle : Idle r t) (hunlocked : Unlocked r cid t) (busy : Bool) :
    ∃ r', acceptInit (BitVec.ofNat 32 t) init { r with lastPacketTime := BitVec.ofNat 32 t } = .ok r' ∧
      r'.lastPacketTime = BitVec.ofNat 32 t ∧ Unlocked r' cid t ∧
      processPacket busy (BitVec.ofNat 32 t) init r = dispatch (BitVec.ofNat 32 t) init r' := by
  have hcid : init.cid = cid := hcarries.cid init List.mem_cons_self
  have hfits : ¬ maxPacketSize < init.msgLen := by
    rw [hcarries.len]
    exact Nat.not_lt.mpr hlen
  have hfree : ¬ (0 < r.len ∧ BitVec.ofNat 32 t < r.lastCmdTime + 100 ∧ init.type ≠ ctaphidInit) :=
    fun h => hidle ⟨h.1, h.2.1⟩
  have hstray : ¬ (init.isInit = false ∧ r.len = 0) := by
    rw [hcarries.isInit]
    exact fun h => absurd h.1 (by decide)
  have hvalid : ¬ (init.cid = 0 ∨
      init.cid = cidBroadcast ∧ (init.isInit = false ∨ init.type ≠ ctaphidInit)) := by
    rw [hcid]
    rintro (hz | ⟨hb, -⟩)
    · exact hchannel.1 hz
    · exact hchannel.2 hb
  have hlock : ¬ (BitVec.ofNat 32 t < r.lock ∧ init.cid ≠ r.lockCid ∧
      ¬ (init.cid = cidBroadcast ∧ init.type = ctaphidInit)) := by
    rw [hcid]
    exact fun h => hunlocked ⟨h.1, h.2.1⟩
  have hcancel : ¬ (init.isInit = true ∧ init.type = ctaphidCancel) := by
    rw [hcarries.cmd]
    rintro ⟨-, rfl⟩
    exact absurd hcmd.1 (by decide)
  have hprocess : ∀ r', acceptInit (BitVec.ofNat 32 t) init
      { r with lastPacketTime := BitVec.ofNat 32 t } = .ok r' →
      processPacket busy (BitVec.ofNat 32 t) init r = dispatch (BitVec.ofNat 32 t) init r' := by
    intro r' hacc
    unfold processPacket
    dsimp only
    rw [if_neg hstray, if_neg hvalid, if_neg hlock, if_neg hcancel, accept, if_pos hcarries.isInit,
      hacc]
  have haccepted : ∃ r', acceptInit (BitVec.ofNat 32 t) init
      { r with lastPacketTime := BitVec.ofNat 32 t } = .ok r' ∧
      r'.lastPacketTime = BitVec.ofNat 32 t ∧ Unlocked r' cid t := by
    unfold acceptInit
    rw [if_neg hfits, if_neg hfree]
    by_cases hroom : initRoom < init.msgLen
    · rw [if_pos hroom]
      exact ⟨_, rfl, rfl, hunlocked⟩
    · rw [if_neg hroom]
      exact ⟨_, rfl, rfl, hunlocked⟩
  obtain ⟨r', hacc, hlast, hfree'⟩ := haccepted
  exact ⟨r', hacc, hlast, hfree', hprocess r' hacc⟩

theorem payload_handed {busy : Bool} {t : Nat} {init : Frame} {rest : List Input}
    (hcmd : Transfers cmd) (hchannel : IsChannel cid)
    (hcarries : CarriesAll cid cmd payload (framesOf (.frame busy t init :: rest)))
    (hlen : payload.length ≤ maxPacketSize) (hidle : Idle r t) (hunlocked : Unlocked r cid t)
    (htimely : Timely t rest) :
    handed r (.frame busy t init :: rest) = [(cmd, payload)] ↔
      ∀ s ∈ (stamps (.frame busy t init :: rest)).dropLast, ClockSafe s := by
  obtain ⟨init', conts, hframes, hc, hall⟩ := hcarries
  obtain ⟨rfl, hconts⟩ : init = init' ∧ framesOf rest = conts := List.cons.inj hframes
  obtain ⟨r', hacc, hlast, hunlocked', heq⟩ :=
    processPacket_init hcmd hchannel hc hlen hidle hunlocked busy
  obtain ⟨-, hcmd', hcid', -, hsize⟩ := acceptInit_ok hacc
  have hmessage : IsMessage r'.lastCmd := by
    rw [hcmd', hc.cmd]
    exact hcmd.1
  rw [dispatch_message _ (by rw [hc.cmd]; exact goesByMessage_transfer hcmd) hmessage] at heq
  have hstamps : stamps (.frame busy t init :: rest) = t :: stamps rest := rfl
  have hcount : (stamps rest).length = conts.length := by rw [stamps_length, hconts]
  have hisCont : ∀ f ∈ framesOf rest, f.isInit = false := by
    rw [hconts]
    exact hc.isCont
  rcases hsize with ⟨hroom, hlen', hcur, -⟩ | ⟨hroom, hlen', -⟩
  · have hopened := (opened_init hc.isInit hacc (by omega)).1
    have hopen : ¬ complete r' := by
      rintro (hz | hfull) <;> omega
    rw [if_neg hopen] at heq
    have hmore : stamps rest ≠ [] := by
      intro hnil
      rw [hnil] at hcount
      rw [← hcount, List.length_nil, room_zero, ← hc.len] at hall
      omega
    have hout : r.outcome (.frame busy t init) = some .waiting := by
      rw [Receiver.outcome, heq]
    have hstep : r.step (.frame busy t init) = processNoPacket (BitVec.ofNat 32 t) r' := by
      rw [Receiver.step, heq]
    rw [handed, hout, hstep, hstamps, List.dropLast_cons_of_ne_nil hmore]
    dsimp only
    by_cases ht : ClockSafe t
    · have hunder : Underway cid cmd payload init [] t r' :=
        ⟨hopened, hcmd'.trans hc.cmd, hcid'.trans (hc.cid init List.mem_cons_self),
          hlen'.trans hc.len, by rw [hlen']; exact hroom, hlast, hunlocked'⟩
      rw [processNoPacket_safe hlast ht ⟨Nat.le_refl _, Nat.le_add_right _ _⟩,
        handed_underway hcmd hchannel hc hall ht rest hunder hconts htimely]
      simp only [List.forall_mem_cons, ht, true_and, ite_eq_left_iff, List.nil_eq, List.cons_ne_nil,
        imp_false, Classical.not_not]
    · rw [handed_closed rest (processNoPacket_wrap hlast ht) hisCont]
      simp [ht]
  · -- the message fits its init frame
    have hnil : conts = [] := by
      cases conts with
      | nil => rfl
      | cons f conts =>
        have := hc.needed 0 (by simp)
        rw [room_zero, ← hc.len] at this
        omega
    have hpayload : received init r' = payload := by
      have hunique := (carriesAll_init hc.isInit hroom).unique ⟨init, conts, by rw [hnil], hc, hall⟩
      rw [received, if_neg (by omega), hunique]
    rw [if_pos (.inl hlen'), hcmd', hc.cmd, hpayload] at heq
    have hout : r.outcome (.frame busy t init) = some (.message cmd payload) := by
      rw [Receiver.outcome, heq]
    have hstep : r.step (.frame busy t init) = cleared r' := by
      rw [Receiver.step, heq]
      exact processNoPacket_idle rfl _
    have hone : stamps rest = [] := by
      apply List.eq_nil_of_length_eq_zero
      rw [hcount, hnil]
      rfl
    rw [handed, hout, hstep, handed_closed rest rfl hisCont, hstamps, hone]
    simp

end Delivery

end KeyWallet.Hid
