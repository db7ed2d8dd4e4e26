import KeyWallet.HidTransmit

/-! Which bytes of its buffers hid.c touches: with each frame that comes in, each report that goes out
and each answer that the worker has ready. -/
namespace KeyWallet.Hid

open ByteBuffer StepSystem

/-- The arrays that frames go through: msg_packet.data, hid_rx, hid_tx, cbor_request and last_req. Then ccid_tx, and the
message that ccid_header points to. -/
inductive Store
  | msgPacket
  | rx
  | tx
  | cborRequest
  | lastReq
  | ccidTx
  | ccidHeader
  deriving DecidableEq, Repr

/-- What belongs to the smart card has no room for a frame. -/
def Store.size : Store → Nat
  | .msgPacket => maxPacketSize
  | .rx => usbBufferSize
  | .tx => usbBufferSize
  | .cborRequest => maxPacketSize
  | .lastReq => 64
  | .ccidTx => 0
  | .ccidHeader => 0

/-- The bytes that one copy reads, or writes. -/
structure Region where
  store : Store
  start : Nat
  length : Nat
  deriving DecidableEq, Repr

def Region.Inside (g : Region) : Prop := g.start + g.length ≤ g.store.size

instance (g : Region) : Decidable g.Inside := inferInstanceAs (Decidable (_ ≤ _))

def HidError.code : HidError → Byte
  | .invalidCmd => 0x01
  | .invalidParameter => 0x02
  | .invalidLen => 0x03
  | .invalidSeq => 0x04
  | .msgTimeout => 0x05
  | .channelBusy => 0x06
  | .invalidChannel => 0x0b

namespace Sender

/-- driver_init_hid, on the side of the transmit buffer. -/
def reset (s : Sender) : Sender :=
  { s with
    buffer := blit s.buffer 0 (List.replicate 64 0)
    rPtr := 0
    wPtr := 0
    sendBufferSize := 0
    resp := 0 }

/-- ctap_error: the frame is built where ctap_resp stands. -/
def error (cid : Cid) (code : Byte) (s : Sender) : Sender :=
  { s with
    buffer := blit s.buffer s.resp
      (cidBytes cid ++ [ctaphidError, 0, 1, code] ++ List.replicate 56 0)
    wPtr := (s.wPtr + 64) % 65536 }

/-- An answer of one frame, at the start of the buffer. -/
def answer (accepted : Bool) (cid : Cid) (cmd : Byte) (body : Bytes) (s : Sender) : Sender :=
  let s := { s with buffer := blit s.buffer 0 (cidBytes cid ++ [cmd] ++ body) }
  s.write accepted (frameAt s.buffer 0)

end Sender

/-- What apdu_process does with a command: the worker gets it, it is dropped, or it is a GET RESPONSE
that is answered from the buffer, `n` bytes from `start` on. The two bytes that had been put aside go
back to their place, and the status may go behind the answer. -/
inductive ApduReply
  | started
  | dropped
  | further (start n : Nat) (back : Bytes) (status : Option Bytes)
  deriving DecidableEq, Repr

/-- What the rest of the device does around one frame. `body` is the answer to CTAPHID_INIT and its
like, `status` the byte of a keepalive, `sw` is apdu.sw. `ccidWPtr` is where ccid_tx is written next, when a smart card
interface has the number of the one of CTAPHID. -/
structure Around where
  busy : Bool := false
  accepted : Bool := true
  sw : BitVec 16 := 0
  status : Byte := 1
  body : Bytes := []
  apdu : ApduReply := .started
  ccidWPtr : Option Nat := none
  deriving DecidableEq, Repr

/-- The interface with its two buffers. `reqCid` is the channel of the last frame; the worker has a
request from the time it is handed over until its answer is fetched. -/
structure Port where
  receiver : Receiver := {}
  sender : Sender
  rxR : Nat := 0
  rxW : Nat := 0
  reqCid : Cid := 0
  threadType : Nat := 0
  isNk : Bool := false
  working : Bool := false

/-- A frame, a look at the timeout, the end of the worker with `sizeNext` bytes, and what hid_task and
the USB stack do to the reports. -/
inductive PortInput
  | frame (around : Around) (time : Nat) (f : Frame)
  | poll (time : Nat)
  | finished (sw : BitVec 16) (sizeNext : Nat)
  | keepalive (accepted : Bool) (status : Byte)
  | task (accepted : Bool)
  | complete

/-- The receiver behind the reassembly, if the frame gets that far. -/
def takenIn (now : BitVec 32) (f : Frame) (r₀ : Receiver) : Option Receiver :=
  let r := { r₀ with lastPacketTime := now }
  if f.isInit = false ∧ r.len = 0 then none
  else if f.cid = 0 ∨ (f.cid = cidBroadcast ∧ (f.isInit = false ∨ f.type ≠ ctaphidInit)) then none
  else if now < r.lock ∧ f.cid ≠ r.lockCid ∧ ¬ (f.cid = cidBroadcast ∧ f.type = ctaphidInit) then none
  else if f.isInit ∧ f.type = ctaphidCancel then none
  else (accept now f r).toOption

/-- The condition of driver_process_usb_nopacket_hid. -/
def TimedOut (now : BitVec 32) (r : Receiver) : Prop :=
  0 < r.lastPacketTime ∧ r.lastPacketTime + 500 < now

instance (now : BitVec 32) (r : Receiver) : Decidable (TimedOut now r) :=
  inferInstanceAs (Decidable (_ ∧ _))

namespace Port

/-! What becomes of the port. -/

/-- driver_exec_finished_hid. With is_nk the status goes in front of the answer. -/
def execFinished (sw : BitVec 16) (sizeNext : Nat) (p : Port) : Port :=
  if sizeNext = 0 then p
  else if p.threadType = 2 ∧ sw ≠ 0 then
    { p with sender := p.sender.error p.reqCid (sw.extractLsb' 0 8) }
  else
    let s := if p.isNk then
        { p.sender with
          buffer := blit (blit p.sender.buffer 9 (window p.sender.buffer 7 (sizeNext - 2))) 7
            [sw.extractLsb' 8 8, sw.extractLsb' 0 8] }
      else p.sender
    { p with sender := s.execFinishedCont p.receiver.lastReqCid p.receiver.lastCmd sizeNext 7 }

/-- PING and SYNC. A message of one frame is answered at once, a longer one from msg_packet. -/
def echo (around : Around) (f : Frame) (cmd : Byte) (payload : Bytes) (whole : Bool) (p : Port) : Port :=
  if whole then
    execFinished around.sw payload.length
      { p with sender := { p.sender with buffer := blit p.sender.buffer 7 payload } }
  else
    let body := [BitVec.ofNat 8 (f.msgLen / 256), BitVec.ofNat 8 f.msgLen] ++ payload
    { p with sender := p.sender.answer around.accepted f.cid cmd body }

/-- MSG and OTP. -/
def apdu (around : Around) (cmd : Byte) (p : Port) : Port :=
  let p := { p with threadType := 1, isNk := decide (cmd = ctaphidOtp) }
  match around.apdu with
  | .started => { p with working := true }
  | .dropped => p
  | .further start n back status =>
    let buffer := blit p.sender.buffer (7 + start) back
    let buffer := match status with
      | none => buffer
      | some word => blit buffer (7 + start + n - 2) word
    { p with sender :=
        ({ p.sender with buffer := buffer }).execFinishedCont p.receiver.lastReqCid cmd n start }

/-- CBOR and the vendor commands: the request is copied, and the first keepalive goes out. -/
def cbor (around : Around) (payload : Bytes) (p : Port) : Port :=
  if maxPacketSize < payload.length then
    { p with threadType := 2, sender := p.sender.error p.reqCid HidError.invalidLen.code }
  else
    { p with
      threadType := 2
      working := true
      sender := ({ p.sender with buffer := blit p.sender.buffer 7 [0] }).keepalive around.accepted
        p.receiver.lastReqCid around.status }

/-- What the outcome of a frame puts into the transmit buffer. -/
def respond (around : Around) (f : Frame) (whole : Bool) : Outcome → Port → Port
  | .ignored, p => p
  | .waiting, p => p
  | .cancel, p => p
  | .error e, p => { p with sender := p.sender.error f.cid e.code }
  | .reply, p => { p with
      working := p.working && !decide (f.type = ctaphidInit)
      sender := p.sender.answer around.accepted f.cid f.type around.body }
  | .message cmd payload, p =>
    if isEcho cmd then p.echo around f cmd payload whole
    else if isApdu cmd then p.apdu around cmd
    else p.cbor around payload

/-- driver_process_usb_nopacket_hid. -/
def expire (now : BitVec 32) (p : Port) : Port :=
  if TimedOut now p.receiver then
    { p with
      receiver := processNoPacket now p.receiver
      sender := p.sender.error p.reqCid HidError.msgTimeout.code }
  else p

/-- The message that this frame completes lies in msg_packet. -/
def whole (now : BitVec 32) (f : Frame) (p : Port) : Bool :=
  (takenIn now f p.receiver).any fun r => decide (0 < r.len)

/-- tud_hid_set_report_cb up to the outcome of the frame. -/
def receive (around : Around) (now : BitVec 32) (f : Frame) (p : Port) : Port :=
  { p with
    receiver := (processPacket around.busy now f p.receiver).1
    sender := p.sender.reset
    reqCid := f.cid
    isNk := false
    rxR := if p.rxW + 64 ≤ p.rxR + 64 then 0 else p.rxR + 64
    rxW := if p.rxW + 64 ≤ p.rxR + 64 then 0 else p.rxW + 64 }

/-- A frame, up to the look at the timeout. -/
def takeFrame (around : Around) (now : BitVec 32) (f : Frame) (p : Port) : Port :=
  (p.receive around now f).respond around f (p.whole now f)
    (processPacket around.busy now f p.receiver).2

def rest (p : Port) : Port := { p with working := false }

def step (p : Port) : PortInput → Port
  | .frame around time f =>
    (p.takeFrame around (BitVec.ofNat 32 time) f).expire (BitVec.ofNat 32 time)
  | .poll time => p.expire (BitVec.ofNat 32 time)
  | .finished sw sizeNext => if p.working then (p.execFinished sw sizeNext).rest else p
  | .keepalive accepted status =>
    -- send_keepalive does nothing for an APDU
    if p.threadType = 1 then p
    else { p with sender := p.sender.keepalive accepted p.receiver.lastReqCid status }
  | .task accepted => { p with sender := p.sender.task accepted }
  | .complete => { p with sender := p.sender.complete }

/-! What is touched on the way. -/

/-- The frame that ctap_error clears and fills. -/
def errorRegions (p : Port) : List Region := [⟨.tx, p.sender.resp, 64⟩]

def keepaliveRegions : List Region := [⟨.tx, keepaliveAt, 5⟩, ⟨.tx, keepaliveAt + 6, 2⟩]

/-- The reassembly, with ctap_req at `req` in the receive buffer. -/
def assembleRegions (req : Nat) (f : Frame) (r : Receiver) : List Region :=
  if f.isInit then
    (if initRoom < f.msgLen then [⟨.rx, req + 7, initRoom⟩, ⟨.msgPacket, 0, initRoom⟩] else []) ++
      [⟨.rx, req, 64⟩, ⟨.lastReq, 0, 64⟩]
  else if r.lastReqCid = f.cid then
    let n := min contRoom (r.len - r.currentLen)
    [⟨.rx, req + 5, n⟩, ⟨.msgPacket, r.currentLen, n⟩, ⟨.rx, req, 64⟩, ⟨.lastReq, 0, 64⟩]
  else []

/-- The answers of one frame. The serial number has at most 16 bytes. -/
def replyRegions (req : Nat) (f : Frame) : List Region :=
  if f.type = ctaphidInit then [⟨.rx, req + 7, 8⟩, ⟨.tx, 0, 7⟩, ⟨.tx, 7, 17⟩]
  else if f.type = ctaphidWink then [⟨.rx, req, 64⟩, ⟨.tx, 0, 64⟩]
  else if f.type = ctaphidUuid then [⟨.tx, 0, 7⟩, ⟨.tx, 7, 16⟩]
  else if f.type = ctaphidAdmin then [⟨.rx, req + 7, 1⟩, ⟨.tx, 0, 7⟩, ⟨.tx, 7, 5⟩]
  else [⟨.tx, 0, 7⟩, ⟨.tx, 7, 2⟩]

/-- The length of the memmove for is_nk; it wraps below 2. -/
def moveLen (sizeNext : Nat) : Nat := (sizeNext + 4294967296 - 2) % 4294967296

def execFinishedRegions (sw : BitVec 16) (sizeNext : Nat) (p : Port) : List Region :=
  if sizeNext = 0 then []
  else if p.threadType = 2 ∧ sw ≠ 0 then p.errorRegions
  else
    (if p.isNk then [⟨.tx, 7, moveLen sizeNext⟩, ⟨.tx, 9, moveLen sizeNext⟩, ⟨.tx, 7, 2⟩] else []) ++
      [⟨.tx, Sender.headerAt 7, 7⟩]

/-- PING and SYNC; the length is that of msg_packet or of the frame. -/
def echoRegions (around : Around) (req len : Nat) (whole : Bool) (p : Port) : List Region :=
  if whole then
    [⟨.msgPacket, 0, len⟩, ⟨.tx, 7, len⟩] ++ p.execFinishedRegions around.sw len
  else [⟨.rx, req + 7, len⟩, ⟨.tx, 7, len⟩, ⟨.tx, 0, 7⟩]

/-- driver_exec_finished_cont_ccid, which apdu_process calls for an interface of the same number: bSeq is read through
ccid_header, and the header written. -/
def besideRegions (start : Nat) : Option Nat → List Region
  | none => []
  | some wPtr => [⟨.ccidHeader, 6, 1⟩, ⟨.ccidTx, wPtr + start, 10⟩]

def apduRegions (around : Around) : List Region :=
  match around.apdu with
  | .started => []
  | .dropped => []
  | .further start n _ status =>
    [⟨.tx, 7 + start, 2⟩] ++ (if status.isSome then [⟨.tx, 7 + start + n - 2, 2⟩] else []) ++
      [⟨.tx, Sender.headerAt start, 7⟩] ++ besideRegions start around.ccidWPtr

def cborRegions (req len : Nat) (whole : Bool) (p : Port) : List Region :=
  if maxPacketSize < len then p.errorRegions
  else
    [if whole then ⟨.msgPacket, 0, len⟩ else ⟨.rx, req + 7, len⟩, ⟨.cborRequest, 0, len⟩, ⟨.tx, 7, 1⟩] ++
      keepaliveRegions

/-- The length that the handler is given. -/
def handedLen (now : BitVec 32) (f : Frame) (p : Port) : Nat :=
  match takenIn now f p.receiver with
  | none => 0
  | some r => if 0 < r.len then r.len else f.msgLen

def respondRegions (around : Around) (req len : Nat) (f : Frame) (whole : Bool) :
    Outcome → Port → List Region
  | .ignored, _ => []
  | .waiting, _ => []
  | .cancel, _ => []
  | .error _, p => p.errorRegions
  | .reply, _ => replyRegions req f
  | .message cmd _, p =>
    if isEcho cmd then p.echoRegions around req len whole
    else if isApdu cmd then apduRegions around
    else p.cborRegions req len whole

def expireRegions (now : BitVec 32) (p : Port) : List Region :=
  if TimedOut now p.receiver then p.errorRegions else []

/-- The report goes into the receive buffer, driver_init_hid clears a frame of the transmit buffer, the
frame is put to its message, and the outcome is answered. -/
def frameRegions (around : Around) (now : BitVec 32) (f : Frame) (p : Port) : List Region :=
  [⟨.rx, p.rxW, 64⟩, ⟨.tx, 0, 64⟩] ++
    (match takenIn now f p.receiver with
      | none => []
      | some _ => assembleRegions p.rxR f p.receiver) ++
    (p.receive around now f).respondRegions around p.rxR (p.handedLen now f) f (p.whole now f)
      (processPacket around.busy now f p.receiver).2

/-- tud_hid_report_complete_cb writes the header of the next frame in place. -/
def completeRegions (p : Port) : List Region :=
  match p.sender.pending with
  | none => []
  | some req =>
    if isResponse req ∧ 0 < Sender.leftAfter req p.sender.sendBufferSize then
      [⟨.tx, p.sender.resp + contRoom, 5⟩]
    else []

def regions (p : Port) : PortInput → List Region
  | .frame around time f =>
    p.frameRegions around (BitVec.ofNat 32 time) f ++
      (p.takeFrame around (BitVec.ofNat 32 time) f).expireRegions (BitVec.ofNat 32 time)
  | .poll time => p.expireRegions (BitVec.ofNat 32 time)
  | .finished sw sizeNext => if p.working then p.execFinishedRegions sw sizeNext else []
  | .keepalive _ _ => if p.threadType = 1 then [] else keepaliveRegions
  | .task _ => []
  | .complete => p.completeRegions

def handedOver (p : Port) : PortInput → Option (Byte × Bytes)
  | .frame around time f =>
    match (processPacket around.busy (BitVec.ofNat 32 time) f p.receiver).2 with
    | .message cmd payload => some (cmd, payload)
    | _ => none
  | _ => none

end Port

/-- The space for a message of a command: an echo goes behind the header in the transmit buffer, an
APDU is read where it is, a CBOR request is copied to cbor_request. -/
def space (cmd : Byte) : Nat := if isEcho cmd then usbBufferSize - 7 else maxPacketSize

/-- One step stays inside the buffers, and gives no handler more than it has space for. -/
structure StaysInside (p : Port) (i : PortInput) : Prop where
  regions : ∀ g ∈ p.regions i, g.Inside
  space : ∀ m, p.handedOver i = some m → m.2.length ≤ Hid.space m.1

/-! The steps that keep to the buffers. -/

/-- An answer of this size stays inside even if each of its reports is taken for an init frame, as can
happen once two answers are mixed. -/
def mixedRoom : Nat := initRoom * 35

structure Port.Quiet (p : Port) : Prop where
  rPtr : p.sender.rPtr = 0
  wPtr : p.sender.wPtr = 0
  lastPacketTime : p.receiver.lastPacketTime = 0

/-- What a step needs, in terms of the state before it: the last frame of a PING or SYNC message finds
room for its echo, GET RESPONSE goes on behind the first seven bytes and no smart card interface has the number of the
one of CTAPHID, an error frame is not built near
the end of the transmit buffer, and the answer of the worker has room. -/
def Meets (p : Port) : PortInput → Prop
  | .frame around _ f =>
    (f.isInit = false → isEcho p.receiver.lastCmd → f.cid = p.receiver.lastReqCid →
      f.type = p.receiver.lastSeq → p.receiver.len ≤ p.receiver.currentLen + contRoom →
      p.receiver.len + 7 ≤ usbBufferSize) ∧
    ∀ start n back status, around.apdu = .further start n back status → around.ccidWPtr = none ∧
      7 ≤ start ∧ 2 ≤ n ∧ 7 + start + n ≤ usbBufferSize
  | .poll time => TimedOut (BitVec.ofNat 32 time) p.receiver → p.sender.resp + 64 ≤ usbBufferSize
  | .finished sw sizeNext => p.working = true → 0 < sizeNext →
    (p.threadType = 2 ∧ sw ≠ 0 → p.sender.resp + 64 ≤ usbBufferSize) ∧
    (¬ (p.threadType = 2 ∧ sw ≠ 0) → (p.isNk = true → 2 ≤ sizeNext) ∧
      (sizeNext ≤ mixedRoom ∨ sizeNext + 7 ≤ usbBufferSize ∧ p.Quiet))
  | _ => True

end KeyWallet.Hid
