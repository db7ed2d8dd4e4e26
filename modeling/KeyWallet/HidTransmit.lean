import KeyWallet.HidReceive

/-! The sending side of hid.c. A response lies in the transmit buffer with room for the header of
its first frame in front of it; the header of each further frame is written over bytes that have
been sent. Keepalives are built at the end of the same buffer. -/
namespace KeyWallet.Hid

open ByteBuffer StepSystem

def usbBufferSize : Nat := 2048

/-- Where send_keepalive builds its report. -/
def keepaliveAt : Nat := usbBufferSize - 64

/-- A channel as it lies in memory. -/
def cidBytes (cid : Cid) : Bytes :=
  [cid.extractLsb' 0 8, cid.extractLsb' 8 8, cid.extractLsb' 16 8, cid.extractLsb' 24 8]

def readCid (m : Nat → Byte) (addr : Nat) : Cid := m (addr + 3) ++ m (addr + 2) ++ m (addr + 1) ++ m addr

/-- The 64 bytes from `addr` on, as a frame. -/
def frameAt (m : Nat → Byte) (addr : Nat) : Frame where
  cid := readCid m addr
  type := m (addr + 4)
  rest := window m (addr + 5) 59
  size := window_length

/-- hid_tx, with the report that is in flight and those that the host has got. `resp` is where
ctap_resp points to. -/
structure Sender where
  buffer : Nat → Byte
  rPtr : Nat := 0
  wPtr : Nat := 0
  sendBufferSize : Nat := 0
  resp : Nat := 0
  pending : Option Frame := none
  sent : List Frame := []

namespace Sender

/-- Where the header of a response goes, in 16 bits. -/
def headerAt (offset : Nat) : Nat := (offset + 65536 - 7) % 65536

/-- driver_exec_finished_cont_hid, with hid_write_offset. The pointers have 16 bits. -/
def execFinishedCont (cid : Cid) (cmd : Byte) (sizeNext offset : Nat) (s : Sender) : Sender :=
  { s with
    buffer := blit s.buffer (headerAt offset)
      (cidBytes cid ++ [cmd, BitVec.ofNat 8 (sizeNext / 256), BitVec.ofNat 8 sizeNext])
    resp := headerAt offset
    sendBufferSize := sizeNext
    wPtr := (s.wPtr + (sizeNext + 7) + headerAt offset) % 65536
    rPtr := (s.rPtr + headerAt offset) % 65536 }

/-- driver_write_hid. One report is in flight at a time, and the stack may refuse it. -/
def write (accepted : Bool) (report : Frame) (s : Sender) : Sender :=
  if s.pending.isSome then s
  else if accepted then { s with pending := some report }
  else s

/-- The end of hid_task. -/
def task (accepted : Bool) (s : Sender) : Sender :=
  if s.rPtr < s.wPtr then s.write accepted (frameAt s.buffer s.rPtr) else s

/-- send_keepalive behind its guards. The high byte of the length is not written. -/
def keepalive (accepted : Bool) (cid : Cid) (status : Byte) (s : Sender) : Sender :=
  let s := { s with
    buffer := blit (blit s.buffer keepaliveAt (cidBytes cid ++ [ctaphidKeepalive]))
      (keepaliveAt + 6) [1, status] }
  s.write accepted (frameAt s.buffer keepaliveAt)

end Sender

/-- A report other than a keepalive. -/
def isResponse (f : Frame) : Bool := !(f.isInit && f.type == ctaphidKeepalive)

namespace Sender

/-- What is left to send once `req` is through. -/
def leftAfter (req : Frame) (size : Nat) : Nat :=
  if isResponse req then
    if req.isInit then size - min initRoom size else size - min contRoom size
  else size

/-- The header of the next frame, or the end of the last one. -/
def advance (req : Frame) (s : Sender) : Sender :=
  if 0 < s.sendBufferSize then
    let seq := if req.isInit then 0 else (req.type &&& 0x7f) + 1
    { s with
      resp := s.resp + contRoom
      buffer := blit s.buffer (s.resp + contRoom) (cidBytes req.cid ++ [seq])
      rPtr := (s.rPtr + contRoom) % 65536 }
  else { s with rPtr := (s.rPtr + 64) % 65536 }

/-- tud_hid_report_complete_cb. -/
def complete (s : Sender) : Sender :=
  match s.pending with
  | none => s
  | some req =>
    let s := { s with
      pending := none
      sent := s.sent ++ [req]
      sendBufferSize := leftAfter req s.sendBufferSize }
    let s := if isResponse req then s.advance req else s
    if s.wPtr ≤ s.rPtr then { s with rPtr := 0, wPtr := 0 } else s

end Sender

/-- What the device does while a response is on its way. -/
inductive SendInput
  | task (accepted : Bool)
  | keepalive (accepted : Bool) (cid : Cid) (status : Byte)
  | complete

def Sender.step (s : Sender) : SendInput → Sender
  | .task accepted => s.task accepted
  | .keepalive accepted cid status => s.keepalive accepted cid status
  | .complete => s.complete

/-- A response: a whole one, of `n` bytes behind the header, or `n` more bytes of a long one that
GET RESPONSE asks for, `start` bytes into it. -/
inductive Response
  | whole (n : Nat)
  | further (start n : Nat)

namespace Response

def length : Response → Nat
  | .whole n => n
  | .further _ n => n

/-- The bytes that are to be sent. -/
def bytes (m : Nat → Byte) : Response → Bytes
  | .whole n => window m 7 n
  | .further start n => window m (7 + start) n

/-- The offset that driver_exec_finished_hid gives, and the one that apdu_process gives. -/
def offset : Response → Nat
  | .whole _ => 7
  | .further start _ => start

/-- The response lies in the buffer. -/
def Fits : Response → Prop
  | .whole n => 0 < n ∧ 7 + n ≤ usbBufferSize
  | .further start n => 0 < start ∧ 0 < n ∧ 7 + start + n ≤ usbBufferSize

end Response

/-- `k` passes of hid_task, each with its report accepted and sent. -/
def rounds (k : Nat) : List SendInput := (List.replicate k [.task true, .complete]).flatten

/-- Nothing but a keepalive is in flight. -/
structure Quiet (s : Sender) : Prop where
  rPtr : s.rPtr = 0
  wPtr : s.wPtr = 0
  sent : s.sent = []
  pending : ∀ f, s.pending = some f → isResponse f = false

/-- Whatever happens from the end of the execution on, the reports that are no keepalives are the
first of frames that carry the response; and all of them go out once the reports are accepted. -/
def Delivers (resp : Response) : Prop :=
  ∀ (s : Sender) (cid : Cid) (cmd : Byte) (inputs : List SendInput), Quiet s → Transfers cmd →
    ∃ frames, CarriesAll cid cmd (resp.bytes s.buffer) frames ∧
      (run Sender.step (s.execFinishedCont cid cmd resp.length resp.offset) inputs).sent.filter
        isResponse <+: frames ∧
      ∀ k, frames.length < k →
        (run Sender.step (s.execFinishedCont cid cmd resp.length resp.offset)
          (inputs ++ rounds k)).sent.filter isResponse = frames

theorem cid_split (cid : Cid) :
    (cid.extractLsb' 24 8 ++ cid.extractLsb' 16 8 ++ cid.extractLsb' 8 8 ++ cid.extractLsb' 0 8 : Cid) =
      cid := by
  apply BitVec.eq_of_getLsbD_eq
  intro i hi
  simp only [BitVec.getLsbD_append, BitVec.getLsbD_extractLsb']
  grind

theorem readCid_of_window {m : Nat → Byte} {addr : Nat} {cid : Cid}
    (h : window m addr 4 = cidBytes cid) : readCid m addr = cid := by
  obtain ⟨h0, h1, h2, h3⟩ : m addr = cid.extractLsb' 0 8 ∧ m (addr + 1) = cid.extractLsb' 8 8 ∧
      m (addr + 2) = cid.extractLsb' 16 8 ∧ m (addr + 3) = cid.extractLsb' 24 8 := by
    simpa [window, cidBytes, List.range_succ] using h
  rw [readCid, h0, h1, h2, h3]
  exact cid_split cid

/-- How much of a response its first `k` frames carry. -/
def sentLen : Nat → Nat
  | 0 => 0
  | k + 1 => room k

/-- The header of the `k`-th frame. -/
def header (cid : Cid) (cmd : Byte) (n : Nat) : Nat → Bytes
  | 0 => cidBytes cid ++ [cmd, BitVec.ofNat 8 (n / 256), BitVec.ofNat 8 n]
  | k + 1 => cidBytes cid ++ [BitVec.ofNat 8 k]

theorem execFinishedCont_buffer (cid : Cid) (cmd : Byte) (n offset : Nat) (s : Sender) :
    (s.execFinishedCont cid cmd n offset).buffer =
      blit s.buffer (Sender.headerAt offset) (header cid cmd n 0) := by
  simp only [Sender.execFinishedCont, header]

theorem header_end (cid : Cid) (cmd : Byte) (n k : Nat) :
    contRoom * k + (header cid cmd n k).length = 7 + sentLen k := by
  cases k with
  | zero => rfl
  | succ k =>
    have hlen : (header cid cmd n (k + 1)).length = 5 := rfl
    rw [hlen, sentLen, room, initRoom, contRoom]
    omega

/-- A frame that may go out as the `k`-th of the response. -/
def IsPart (cid : Cid) (cmd : Byte) (p : Bytes) : Nat → Frame → Prop
  | 0, f => Carries cid cmd p f []
  | k + 1, f => f.cid = cid ∧ f.type = BitVec.ofNat 8 k ∧ f.isInit = false ∧
    f.contData.take (p.length - room k) = (p.drop (room k)).take contRoom

/-- The first `k` frames have gone out. -/
def HasSent (cid : Cid) (cmd : Byte) (p : Bytes) : Nat → List Frame → Prop
  | 0, frames => frames = []
  | k + 1, frames => ∃ init conts, frames = init :: conts ∧ conts.length = k ∧
    Carries cid cmd p init conts

/-- The response `p` is on its way, and `k` of its frames are through. -/
structure Sending (cid : Cid) (cmd : Byte) (p : Bytes) (k : Nat) (s : Sender) : Prop where
  more : sentLen k < p.length
  rPtr : s.rPtr = contRoom * k
  wPtr : s.wPtr = p.length + 7
  resp : s.resp = contRoom * k
  size : s.sendBufferSize = p.length - sentLen k
  header : window s.buffer (contRoom * k) (header cid cmd p.length k).length =
    header cid cmd p.length k
  data : window s.buffer (7 + sentLen k) (p.length - sentLen k) = p.drop (sentLen k)
  sent : HasSent cid cmd p k (s.sent.filter isResponse)
  pending : ∀ f, s.pending = some f → isResponse f = true → IsPart cid cmd p k f

/-- The response is through. -/
structure Over (cid : Cid) (cmd : Byte) (p : Bytes) (s : Sender) : Prop where
  rPtr : s.rPtr = 0
  wPtr : s.wPtr = 0
  sent : CarriesAll cid cmd p (s.sent.filter isResponse)
  pending : ∀ f, s.pending = some f → isResponse f = false

section Sending

variable {cid : Cid} {cmd : Byte} {p : Bytes} {k : Nat} {s : Sender} {f : Frame} {frames : List Frame}

theorem transfers_msb (h : Transfers cmd) : cmd.msb = true ∧ cmd ≠ ctaphidKeepalive := by
  have hvendor : ∀ c : Byte, ctaphidVendorFirst ≤ c → c.msb = true ∧ c ≠ ctaphidKeepalive := by
    decide
  rcases h.1 with (rfl | rfl) | (rfl | rfl) | (rfl | hv)
  · decide
  · decide
  · decide
  · decide
  · decide
  · exact hvendor cmd hv

theorem IsPart.isResponse (hcmd : Transfers cmd) (h : IsPart cid cmd p k f) : isResponse f = true := by
  cases k with
  | zero =>
    have hne : f.type ≠ ctaphidKeepalive := by
      rw [Carries.cmd h]
      exact (transfers_msb hcmd).2
    simp [KeyWallet.Hid.isResponse, hne]
  | succ k =>
    obtain ⟨-, -, hcont, -⟩ := h
    simp [KeyWallet.Hid.isResponse, hcont]

theorem HasSent.part (h : HasSent cid cmd p k frames) (hf : IsPart cid cmd p k f)
    (hmore : sentLen k < p.length) : HasSent cid cmd p (k + 1) (frames ++ [f]) := by
  cases k with
  | zero =>
    rw [show frames = [] from h]
    exact ⟨f, [], rfl, rfl, hf⟩
  | succ k =>
    obtain ⟨init, conts, rfl, rfl, hc⟩ := h
    obtain ⟨hcid, htype, hcont, hdata⟩ := hf
    exact ⟨init, conts ++ [f], rfl, by simp, hc.concat f hmore hcid htype hcont hdata⟩

theorem Sending.frame_cid (h : Sending cid cmd p k s) : (frameAt s.buffer s.rPtr).cid = cid := by
  apply readCid_of_window
  have hlen : 4 ≤ (KeyWallet.Hid.header cid cmd p.length k).length := by
    cases k <;> simp [KeyWallet.Hid.header, cidBytes]
  have htake := congrArg (List.take 4) h.header
  rw [window_take _ _ hlen] at htake
  rw [h.rPtr, htake]
  cases k <;> rfl

theorem Sending.frame_isPart (hcmd : Transfers cmd) (hfit : p.length + 7 ≤ usbBufferSize)
    (h : Sending cid cmd p k s) : IsPart cid cmd p k (frameAt s.buffer s.rPtr) := by
  have hsmall : p.length < 65536 := by
    unfold usbBufferSize at hfit
    omega
  have hcid := h.frame_cid
  have hheader := h.header
  have hdata := h.data
  cases k with
  | zero =>
    have hbytes : s.buffer 4 = cmd ∧ s.buffer 5 = BitVec.ofNat 8 (p.length / 256) ∧
        s.buffer 6 = BitVec.ofNat 8 p.length := by
      have h4 := congrArg (fun l => l[4]?) hheader
      have h5 := congrArg (fun l => l[5]?) hheader
      have h6 := congrArg (fun l => l[6]?) hheader
      simp [KeyWallet.Hid.header, cidBytes, window] at h4 h5 h6
      exact ⟨h4, h5, h6⟩
    have hr : s.rPtr = 0 := h.rPtr
    have htype : (frameAt s.buffer s.rPtr).type = cmd := by
      rw [hr]
      exact hbytes.1
    refine ⟨?_, htype, ?_, ?_, rfl, by simp, ?_, by simp⟩
    · rw [Frame.isInit, htype]
      exact (transfers_msb hcmd).1
    · have hrest : (frameAt s.buffer s.rPtr).rest = s.buffer 5 :: s.buffer 6 :: window s.buffer 7 57 := by
        rw [hr]
        show window s.buffer (0 + 5) (57 + 1 + 1) = _
        rw [window_succ, window_succ]
      rw [Frame.msgLen, hrest, List.getD_cons_zero, List.getD_cons_succ, List.getD_cons_zero,
        hbytes.2.1, hbytes.2.2, BitVec.toNat_ofNat, BitVec.toNat_ofNat]
      omega
    · intro g hg
      rw [List.mem_singleton.mp hg]
      exact hcid
    · have hinit : (frameAt s.buffer s.rPtr).initData = window s.buffer 7 57 := by
        rw [hr]
        show (window s.buffer (0 + 5) 59).drop 2 = _
        rw [window_drop _ _ (by decide)]
      have hp : window s.buffer 7 p.length = p := hdata
      simp only [joined, List.flatMap_nil, List.append_nil, List.length_nil, room_zero]
      rw [hinit, window_take_comm, hp]
      rfl
  | succ k =>
    have hr : s.rPtr = contRoom * (k + 1) := h.rPtr
    have hbytes : s.buffer (contRoom * (k + 1) + 4) = BitVec.ofNat 8 k := by
      have h4 := congrArg (fun l => l[4]?) hheader
      simpa [KeyWallet.Hid.header, cidBytes, window] using h4
    have htype : (frameAt s.buffer s.rPtr).type = BitVec.ofNat 8 k := by
      rw [hr]
      exact hbytes
    have hmore : room k < p.length := h.more
    have hk : k < 128 := by
      unfold usbBufferSize at hfit
      unfold room initRoom contRoom at hmore
      omega
    refine ⟨hcid, htype, ?_, ?_⟩
    · rw [Frame.isInit, htype, BitVec.msb_eq_decide, BitVec.toNat_ofNat, decide_eq_false_iff_not]
      omega
    · have hrest : (frameAt s.buffer s.rPtr).contData = window s.buffer (7 + room k) 59 := by
        show window s.buffer (s.rPtr + 5) 59 = _
        rw [hr, show contRoom * (k + 1) + 5 = 7 + room k by
          unfold room initRoom contRoom
          omega]
      have hp : window s.buffer (7 + room k) (p.length - room k) = p.drop (room k) := hdata
      rw [hrest, window_take_comm, hp]
      rfl

theorem Sending.task (hcmd : Transfers cmd) (hfit : p.length + 7 ≤ usbBufferSize)
    (h : Sending cid cmd p k s) (accepted : Bool) : Sending cid cmd p k (s.task accepted) := by
  unfold Sender.task Sender.write
  split_ifs with hmore hpending haccepted
  · exact h
  · refine ⟨h.more, h.rPtr, h.wPtr, h.resp, h.size, h.header, h.data, h.sent, ?_⟩
    intro f hf _
    cases hf
    exact h.frame_isPart hcmd hfit
  · exact h
  · exact h

theorem Sending.rebuffer {buffer : Nat → Byte} {pending : Option Frame} (h : Sending cid cmd p k s)
    (hsame : ∀ a < p.length + 7, buffer a = s.buffer a)
    (hpending : ∀ f, pending = some f → isResponse f = true → IsPart cid cmd p k f) :
    Sending cid cmd p k { s with buffer := buffer, pending := pending } := by
  have hmore := h.more
  have hend := header_end cid cmd p.length k
  refine ⟨h.more, h.rPtr, h.wPtr, h.resp, h.size, ?_, ?_, h.sent, hpending⟩
  · rw [← h.header, window_length]
    exact window_congr fun i hi => hsame _ (by omega)
  · rw [← h.data]
    exact window_congr fun i hi => hsame _ (by omega)

theorem keepalive_type (m : Nat → Byte) (cid : Cid) (status : Byte) :
    isResponse (frameAt (blit (blit m keepaliveAt (cidBytes cid ++ [ctaphidKeepalive]))
      (keepaliveAt + 6) [1, status]) keepaliveAt) = false := by
  have htype : (frameAt (blit (blit m keepaliveAt (cidBytes cid ++ [ctaphidKeepalive]))
      (keepaliveAt + 6) [1, status]) keepaliveAt).type = ctaphidKeepalive := by
    show blit (blit m keepaliveAt (cidBytes cid ++ [ctaphidKeepalive])) (keepaliveAt + 6) [1, status]
      (keepaliveAt + 4) = _
    rw [blit_before (by omega)]
    exact blit_inside (i := 4) (by simp [cidBytes])
  rw [isResponse, Frame.isInit, htype]
  rfl

theorem keepalive_outside (m : Nat → Byte) (cid : Cid) (status : Byte) {a : Nat}
    (h : a < keepaliveAt) :
    blit (blit m keepaliveAt (cidBytes cid ++ [ctaphidKeepalive])) (keepaliveAt + 6) [1, status] a =
      m a := by
  rw [blit_before (by omega), blit_before h]

theorem keepalive_buffer (accepted : Bool) (cid : Cid) (status : Byte) (s : Sender) :
    (s.keepalive accepted cid status).buffer =
      blit (blit s.buffer keepaliveAt (cidBytes cid ++ [ctaphidKeepalive])) (keepaliveAt + 6)
        [1, status] := by
  unfold Sender.keepalive Sender.write
  dsimp only
  split_ifs <;> rfl

theorem Sending.keepalive (hfit : p.length + 7 ≤ keepaliveAt) (h : Sending cid cmd p k s)
    (accepted : Bool) (cid' : Cid) (status : Byte) :
    Sending cid cmd p k (s.keepalive accepted cid' status) := by
  have hsame := fun a (ha : a < p.length + 7) =>
    keepalive_outside s.buffer cid' status (Nat.lt_of_lt_of_le ha hfit)
  unfold Sender.keepalive Sender.write
  dsimp only
  split_ifs with hpending haccepted
  · exact h.rebuffer hsame h.pending
  · apply h.rebuffer hsame
    intro f hf hresp
    cases hf
    rw [keepalive_type] at hresp
    cases hresp
  · exact h.rebuffer hsame h.pending

theorem IsPart.leftAfter (hcmd : Transfers cmd) (h : IsPart cid cmd p k f) :
    Sender.leftAfter f (p.length - sentLen k) = p.length - sentLen (k + 1) := by
  rw [Sender.leftAfter, if_pos (h.isResponse hcmd)]
  cases k with
  | zero =>
    rw [if_pos (Carries.isInit h), sentLen, sentLen, room_zero]
    omega
  | succ k =>
    obtain ⟨-, -, hcont, -⟩ := h
    rw [if_neg (by rw [hcont]; decide), sentLen, sentLen, room_succ]
    omega

theorem IsPart.nextHeader (h : IsPart cid cmd p k f) (hk : k < 128) (n : Nat) :
    cidBytes f.cid ++ [if f.isInit then 0 else (f.type &&& 0x7f) + 1] = header cid cmd n (k + 1) := by
  cases k with
  | zero =>
    rw [if_pos (Carries.isInit h), Carries.cid h f List.mem_cons_self]
    rfl
  | succ k =>
    obtain ⟨hcid, htype, hcont, -⟩ := h
    have hseq : ∀ j < 127, (BitVec.ofNat 8 j &&& 0x7f) + 1 = BitVec.ofNat 8 (j + 1) := by decide
    rw [if_neg (by rw [hcont]; decide), hcid, htype, hseq k (by omega)]
    rfl

theorem sentLen_le (k : Nat) : sentLen k ≤ sentLen (k + 1) := by
  cases k with
  | zero => exact Nat.zero_le _
  | succ k =>
    rw [sentLen, sentLen, room_succ]
    exact Nat.le_add_right _ _

theorem complete_next (hpending : s.pending = some f) (hresp : isResponse f = true)
    (hleft : 0 < Sender.leftAfter f s.sendBufferSize)
    (hback : (s.rPtr + contRoom) % 65536 < s.wPtr) :
    s.complete = { s with
      pending := none
      sent := s.sent ++ [f]
      sendBufferSize := Sender.leftAfter f s.sendBufferSize
      resp := s.resp + contRoom
      buffer := blit s.buffer (s.resp + contRoom)
        (cidBytes f.cid ++ [if f.isInit then 0 else (f.type &&& 0x7f) + 1])
      rPtr := (s.rPtr + contRoom) % 65536 } := by
  unfold Sender.complete
  rw [hpending]
  simp only [hresp, if_true, Sender.advance, hleft, Nat.not_le.mpr hback, if_false]

theorem complete_last (hpending : s.pending = some f) (hresp : isResponse f = true)
    (hleft : Sender.leftAfter f s.sendBufferSize = 0)
    (hreach : s.wPtr ≤ (s.rPtr + 64) % 65536) :
    s.complete = { s with
      pending := none
      sent := s.sent ++ [f]
      sendBufferSize := 0
      rPtr := 0
      wPtr := 0 } := by
  unfold Sender.complete
  rw [hpending]
  simp only [hresp, if_true, Sender.advance, hleft, Nat.lt_irrefl, if_false, hreach]

theorem Sending.fits (hfit : p.length + 7 ≤ usbBufferSize) (h : Sending cid cmd p k s) :
    contRoom * k + 64 < 65536 ∧ k < 128 ∧ contRoom * k < p.length + 7 := by
  have hmore := h.more
  have hend := header_end cid cmd p.length k
  unfold usbBufferSize at hfit
  unfold contRoom at hend ⊢
  omega

theorem Sending.next (hcmd : Transfers cmd) (hfit : p.length + 7 ≤ usbBufferSize)
    (h : Sending cid cmd p k s) (hf : IsPart cid cmd p k f) (hpending : s.pending = some f)
    (hleft : sentLen (k + 1) < p.length) :
    Sending cid cmd p (k + 1) s.complete ∧ s.complete.pending = none := by
  obtain ⟨hsmall, hk, -⟩ := h.fits hfit
  have hresp := hf.isResponse hcmd
  have hsize : Sender.leftAfter f s.sendBufferSize = p.length - sentLen (k + 1) := by
    rw [h.size, hf.leftAfter hcmd]
  have hmul : contRoom * (k + 1) = contRoom * k + contRoom := Nat.mul_succ _ _
  have hend := header_end cid cmd p.length (k + 1)
  have hptr : (s.rPtr + contRoom) % 65536 = contRoom * (k + 1) := by
    rw [h.rPtr, hmul]
    apply Nat.mod_eq_of_lt
    unfold contRoom at hsmall ⊢
    omega
  have hback : (s.rPtr + contRoom) % 65536 < s.wPtr := by
    rw [hptr, h.wPtr]
    omega
  rw [complete_next hpending hresp (by omega) hback, hsize, hptr, hf.nextHeader hk p.length, h.resp,
    ← hmul]
  refine ⟨⟨hleft, rfl, h.wPtr, rfl, rfl, window_blit _ _ _, ?_, ?_, ?_⟩, rfl⟩
  · have hdata := congrArg (List.drop (sentLen (k + 1) - sentLen k)) h.data
    have hle := sentLen_le k
    rw [List.drop_drop, window_drop _ _ (by omega),
      show 7 + sentLen k + (sentLen (k + 1) - sentLen k) = 7 + sentLen (k + 1) by omega,
      show p.length - sentLen k - (sentLen (k + 1) - sentLen k) = p.length - sentLen (k + 1) by omega,
      show sentLen k + (sentLen (k + 1) - sentLen k) = sentLen (k + 1) by omega] at hdata
    rw [← hdata]
    exact window_blit_apart _ (.inr (Nat.le_of_eq hend))
  · rw [List.filter_append, List.filter_cons_of_pos hresp]
    exact h.sent.part hf h.more
  · rintro g ⟨⟩

theorem Sending.last (hcmd : Transfers cmd) (hfit : p.length + 7 ≤ usbBufferSize)
    (h : Sending cid cmd p k s) (hf : IsPart cid cmd p k f) (hpending : s.pending = some f)
    (hall : p.length ≤ sentLen (k + 1)) :
    Over cid cmd p s.complete ∧ s.complete.pending = none := by
  obtain ⟨hsmall, -, -⟩ := h.fits hfit
  have hresp := hf.isResponse hcmd
  have hsize : Sender.leftAfter f s.sendBufferSize = 0 := by
    rw [h.size, hf.leftAfter hcmd]
    omega
  have hreach : s.wPtr ≤ (s.rPtr + 64) % 65536 := by
    rw [h.rPtr, h.wPtr, Nat.mod_eq_of_lt hsmall]
    rw [sentLen, room, initRoom] at hall
    omega
  rw [complete_last hpending hresp hsize hreach]
  refine ⟨⟨rfl, rfl, ?_, by rintro g ⟨⟩⟩, rfl⟩
  obtain ⟨init, conts, hframes, hlen, hc⟩ := h.sent.part hf h.more
  refine ⟨init, conts, ?_, hc, hlen ▸ hall⟩
  rw [List.filter_append, List.filter_cons_of_pos hresp]
  exact hframes

theorem Sending.other (hfit : p.length + 7 ≤ usbBufferSize) (h : Sending cid cmd p k s)
    (hf : isResponse f = false) (hpending : s.pending = some f) :
    Sending cid cmd p k s.complete ∧ s.complete.pending = none := by
  have hcomplete : s.complete = { s with pending := none, sent := s.sent ++ [f] } := by
    have hback : ¬ s.wPtr ≤ s.rPtr := by
      rw [h.wPtr, h.rPtr]
      exact Nat.not_le.mpr (h.fits hfit).2.2
    unfold Sender.complete
    rw [hpending]
    simp only [Sender.leftAfter, hf, Bool.false_eq_true, if_false, hback]
  rw [hcomplete]
  refine ⟨⟨h.more, h.rPtr, h.wPtr, h.resp, h.size, h.header, h.data, ?_, by rintro g ⟨⟩⟩, rfl⟩
  rw [List.filter_append, List.filter_cons_of_neg (by rw [hf]; decide), List.filter_nil,
    List.append_nil]
  exact h.sent

theorem Over.step (h : Over cid cmd p s) (i : SendInput) :
    Over cid cmd p (s.step i) ∧
      (s.step i).sent.filter isResponse = s.sent.filter isResponse := by
  cases i with
  | task accepted =>
    have hstep : s.step (.task accepted) = s := if_neg (by rw [h.rPtr, h.wPtr]; decide)
    rw [hstep]
    exact ⟨h, rfl⟩
  | keepalive accepted cid' status =>
    show Over cid cmd p (s.keepalive accepted cid' status) ∧ _
    unfold Sender.step Sender.keepalive Sender.write
    dsimp only
    split_ifs
    · exact ⟨⟨h.rPtr, h.wPtr, h.sent, h.pending⟩, rfl⟩
    · refine ⟨⟨h.rPtr, h.wPtr, h.sent, ?_⟩, rfl⟩
      intro f hf
      cases hf
      exact keepalive_type _ _ _
    · exact ⟨⟨h.rPtr, h.wPtr, h.sent, h.pending⟩, rfl⟩
  | complete =>
    cases hpending : s.pending with
    | none =>
      have hstep : s.step .complete = s := by
        unfold Sender.step Sender.complete
        rw [hpending]
      rw [hstep]
      exact ⟨h, rfl⟩
    | some f =>
      have hf := h.pending f hpending
      have hstep : s.step .complete = { s with pending := none, sent := s.sent ++ [f] } := by
        unfold Sender.step Sender.complete
        rw [hpending]
        simp only [Sender.leftAfter, hf, Bool.false_eq_true, if_false, h.rPtr, h.wPtr, Nat.le_refl,
          if_true]
      have hsent : (s.sent ++ [f]).filter isResponse = s.sent.filter isResponse := by
        rw [List.filter_append, List.filter_cons_of_neg (by rw [hf]; decide), List.filter_nil,
          List.append_nil]
      rw [hstep]
      refine ⟨⟨h.rPtr, h.wPtr, ?_, by rintro g ⟨⟩⟩, hsent⟩
      rw [hsent]
      exact h.sent

theorem Over.run (h : Over cid cmd p s) (inputs : List SendInput) :
    Over cid cmd p (run Sender.step s inputs) ∧
      (run Sender.step s inputs).sent.filter isResponse = s.sent.filter isResponse := by
  induction inputs generalizing s with
  | nil => exact ⟨h, rfl⟩
  | cons i inputs ih =>
    obtain ⟨hover, hsent⟩ := h.step i
    obtain ⟨hrun, heq⟩ := ih hover
    exact ⟨hrun, heq.trans hsent⟩

/-- The response is on its way or through. -/
def Progress (cid : Cid) (cmd : Byte) (p : Bytes) (s : Sender) : Prop :=
  (∃ k, Sending cid cmd p k s) ∨ Over cid cmd p s

/-- A step that does not build a keepalive in the middle of the response. -/
def Spares (p : Bytes) : SendInput → Prop
  | .keepalive _ _ _ => p.length + 7 ≤ keepaliveAt
  | _ => True

theorem Sending.complete (hcmd : Transfers cmd) (hfit : p.length + 7 ≤ usbBufferSize)
    (h : Sending cid cmd p k s) : Progress cid cmd p s.complete := by
  cases hpending : s.pending with
  | none =>
    have hsame : s.complete = s := by
      unfold Sender.complete
      rw [hpending]
    rw [hsame]
    exact .inl ⟨k, h⟩
  | some f =>
    by_cases hresp : isResponse f = true
    · have hf := h.pending f hpending hresp
      by_cases hleft : sentLen (k + 1) < p.length
      · exact .inl ⟨k + 1, (h.next hcmd hfit hf hpending hleft).1⟩
      · exact .inr (h.last hcmd hfit hf hpending (by omega)).1
    · exact .inl ⟨k, (h.other hfit (Bool.not_eq_true _ ▸ hresp) hpending).1⟩

theorem Progress.step (hcmd : Transfers cmd) (hfit : p.length + 7 ≤ usbBufferSize)
    (h : Progress cid cmd p s) (i : SendInput) (hi : Spares p i) : Progress cid cmd p (s.step i) := by
  rcases h with ⟨k, h⟩ | h
  · cases i with
    | task accepted => exact .inl ⟨k, h.task hcmd hfit accepted⟩
    | keepalive accepted cid' status => exact .inl ⟨k, h.keepalive hi accepted cid' status⟩
    | complete => exact h.complete hcmd hfit
  · exact .inr (h.step i).1

theorem Sending.round (hcmd : Transfers cmd) (hfit : p.length + 7 ≤ usbBufferSize)
    (h : Sending cid cmd p k s) :
    Over cid cmd p (s.task true).complete ∨
      ((s.task true).complete.pending = none ∧
        (Sending cid cmd p (k + 1) (s.task true).complete ∨
          Sending cid cmd p k (s.task true).complete ∧ s.pending ≠ none)) := by
  have htask := h.task hcmd hfit true
  cases hpending : (s.task true).pending with
  | none =>
    -- a report was accepted, or one was in flight
    have hmore : s.rPtr < s.wPtr := by
      rw [h.rPtr, h.wPtr]
      exact (h.fits hfit).2.2
    unfold Sender.task Sender.write at hpending
    rw [if_pos hmore] at hpending
    split_ifs at hpending with hsome htrue
    · rw [hpending] at hsome
      cases hsome
    · exact absurd rfl htrue
  | some f =>
    by_cases hresp : isResponse f = true
    · have hf := htask.pending f hpending hresp
      by_cases hleft : sentLen (k + 1) < p.length
      · obtain ⟨hnext, hnone⟩ := htask.next hcmd hfit hf hpending hleft
        exact .inr ⟨hnone, .inl hnext⟩
      · exact .inl (htask.last hcmd hfit hf hpending (by omega)).1
    · rw [Bool.not_eq_true] at hresp
      obtain ⟨hother, hnone⟩ := htask.other hfit hresp hpending
      refine .inr ⟨hnone, .inr ⟨hother, ?_⟩⟩
      intro hfree
      have hmore : s.rPtr < s.wPtr := by
        rw [h.rPtr, h.wPtr]
        exact (h.fits hfit).2.2
      have hpart := h.frame_isPart hcmd hfit
      have hwritten : (s.task true).pending = some (frameAt s.buffer s.rPtr) := by
        rw [Sender.task, if_pos hmore, Sender.write, if_neg (by rw [hfree]; decide), if_pos rfl]
      rw [hpending] at hwritten
      cases hwritten
      rw [hpart.isResponse hcmd] at hresp
      cases hresp

theorem Sending.rounds (hcmd : Transfers cmd) (hfit : p.length + 7 ≤ usbBufferSize) (j : Nat)
    (h : Sending cid cmd p k s)
    (hj : contCount p.length + 1 - k + (if s.pending = none then 0 else 1) ≤ j) :
    Over cid cmd p (StepSystem.run Sender.step s (rounds j)) := by
  have hk : k ≤ contCount p.length := by
    by_contra hlt
    have hmore := h.more
    have hroom := room_contCount p.length
    have hmono : room (contCount p.length) ≤ sentLen k := by
      obtain ⟨d, rfl⟩ : ∃ d, k = contCount p.length + d + 1 := ⟨k - contCount p.length - 1, by omega⟩
      rw [sentLen, room, room]
      exact Nat.add_le_add_left (Nat.mul_le_mul_left _ (Nat.le_add_right _ _)) _
    omega
  induction j generalizing k s with
  | zero => omega
  | succ j ih =>
    have hrounds : KeyWallet.Hid.rounds (j + 1) = .task true :: .complete :: KeyWallet.Hid.rounds j := by
      simp [KeyWallet.Hid.rounds, List.replicate_succ]
    rw [hrounds, run_cons, run_cons]
    rcases h.round hcmd hfit with hover | ⟨hnone, hnext | ⟨hsame, hbusy⟩⟩
    · exact (hover.run _).1
    · have hk' : k + 1 ≤ contCount p.length := by
        by_contra hlt
        have hmore := hnext.more
        have hroom := room_contCount p.length
        rw [show k = contCount p.length by omega, sentLen] at hmore
        omega
      apply ih hnext _ hk'
      rw [if_pos hnone]
      omega
    · apply ih hsame _ hk
      rw [if_pos hnone]
      rw [if_neg hbusy] at hj
      omega

theorem sending_whole {n : Nat} (hs : Quiet s) (hn : 0 < n) (hfit : 7 + n ≤ usbBufferSize)
    (hp : p = window s.buffer 7 n) (cid : Cid) (cmd : Byte) :
    Sending cid cmd p 0 (s.execFinishedCont cid cmd n 7) := by
  have hlen : p.length = n := by rw [hp, window_length]
  have hstart : Sender.headerAt 7 = 0 := rfl
  unfold Sender.execFinishedCont
  simp only [hstart, hs.rPtr, hs.wPtr]
  refine ⟨?_, rfl, ?_, rfl, ?_, ?_, ?_, ?_, ?_⟩
  · rw [hlen]
    exact hn
  · show (0 + (n + 7) + 0) % 65536 = p.length + 7
    unfold usbBufferSize at hfit
    omega
  · rw [hlen]
    rfl
  · rw [hlen]
    exact window_blit s.buffer 0 (header cid cmd n 0)
  · show window (blit s.buffer 0 _) 7 (p.length - 0) = p
    rw [Nat.sub_zero, hlen]
    exact (window_blit_apart _ (.inr (Nat.le_refl _))).trans hp.symm
  · rw [hs.sent]
    rfl
  · intro f hf hresp
    rw [hs.pending f hf] at hresp
    cases hresp

theorem write_sent (accepted : Bool) (report : Frame) (s : Sender) :
    (s.write accepted report).sent = s.sent := by
  unfold Sender.write
  split_ifs <;> rfl

theorem Sending.overwritten (h : Sending cid cmd p 0 s) (hfree : s.pending = none) (cid' : Cid)
    (status : Byte) :
    Sending cid cmd (window (s.keepalive false cid' status).buffer 7 p.length) 0
      (s.keepalive false cid' status) := by
  have hrefused : s.keepalive false cid' status = { s with
      buffer := blit (blit s.buffer keepaliveAt (cidBytes cid' ++ [ctaphidKeepalive]))
        (keepaliveAt + 6) [1, status] } := by
    unfold Sender.keepalive Sender.write
    simp [hfree]
  have hlen : ∀ m : Nat → Byte, (window m 7 p.length).length = p.length := fun _ => window_length
  rw [hrefused]
  refine ⟨?_, h.rPtr, ?_, h.resp, ?_, ?_, ?_, h.sent, ?_⟩
  · rw [hlen]
    exact h.more
  · rw [hlen]
    exact h.wPtr
  · rw [hlen]
    exact h.size
  · rw [hlen, ← h.header, window_length]
    refine window_congr fun i hi => keepalive_outside _ _ _ ?_
    have hheader : (KeyWallet.Hid.header cid cmd p.length 0).length = 7 := rfl
    unfold keepaliveAt usbBufferSize
    omega
  · rw [hlen]
    rfl
  · intro f hf
    rw [show s.pending = some f from hf] at hfree
    cases hfree

theorem complete_sent (hpending : s.pending = some f) : s.complete.sent = s.sent ++ [f] := by
  unfold Sender.complete Sender.advance
  rw [hpending]
  dsimp only
  split_ifs <;> rfl

theorem sent_step (s : Sender) (i : SendInput) : s.sent <+: (s.step i).sent := by
  cases i with
  | task accepted =>
    have hsame : (s.step (.task accepted)).sent = s.sent := by
      unfold Sender.step Sender.task
      split_ifs
      · exact write_sent _ _ _
      · rfl
    exact hsame ▸ List.prefix_refl _
  | keepalive accepted cid status =>
    have hsame : (s.step (.keepalive accepted cid status)).sent = s.sent := write_sent _ _ _
    exact hsame ▸ List.prefix_refl _
  | complete =>
    cases hpending : s.pending with
    | none =>
      have hsame : s.step .complete = s := by
        unfold Sender.step Sender.complete
        rw [hpending]
      exact hsame.symm ▸ List.prefix_refl _
    | some f =>
      have hsent : (s.step .complete).sent = s.sent ++ [f] := complete_sent hpending
      exact hsent ▸ List.prefix_append _ _

theorem sent_run (s : Sender) (inputs : List SendInput) : s.sent <+: (run Sender.step s inputs).sent := by
  induction inputs generalizing s with
  | nil => exact List.prefix_refl _
  | cons i inputs ih => exact (sent_step s i).trans (ih _)

theorem Progress.run (hcmd : Transfers cmd) (hfit : p.length + 7 ≤ usbBufferSize)
    (h : Progress cid cmd p s) (inputs : List SendInput) (hi : ∀ i ∈ inputs, Spares p i) :
    Progress cid cmd p (run Sender.step s inputs) := by
  induction inputs generalizing s with
  | nil => exact h
  | cons i inputs ih =>
    apply ih (h.step hcmd hfit i (hi i List.mem_cons_self))
    exact fun j hj => hi j (List.mem_cons_of_mem _ hj)

theorem CarriesAll.length_eq (h : CarriesAll cid cmd p frames) :
    frames.length = contCount p.length + 1 := by
  obtain ⟨init, conts, rfl, hc, hall⟩ := h
  have hcount : conts.length = contCount p.length := by
    apply Nat.le_antisymm
    · by_contra hlt
      have hneeded := hc.needed (contCount p.length) (by omega)
      have hroom := room_contCount p.length
      omega
    · by_contra hlt
      have hless := @lt_contCount p.length conts.length (by omega)
      omega
  rw [List.length_cons, hcount]

theorem Progress.rounds (hcmd : Transfers cmd) (hfit : p.length + 7 ≤ usbBufferSize)
    (h : Progress cid cmd p s) {j : Nat} (hj : contCount p.length + 1 < j) :
    Over cid cmd p (StepSystem.run Sender.step s (rounds j)) := by
  rcases h with ⟨k, h⟩ | h
  · apply h.rounds hcmd hfit
    split_ifs <;> omega
  · exact (h.run _).1

theorem rounds_add (a b : Nat) : rounds (a + b) = rounds a ++ rounds b := by
  rw [rounds, List.replicate_add, List.flatten_append]
  rfl

theorem delivers_of_progress (hcmd : Transfers cmd) (hfit : p.length + 7 ≤ usbBufferSize)
    (h : Progress cid cmd p s) (inputs : List SendInput) (hi : ∀ i ∈ inputs, Spares p i) :
    ∃ frames, CarriesAll cid cmd p frames ∧
      (StepSystem.run Sender.step s inputs).sent.filter isResponse <+: frames ∧
      ∀ k, frames.length < k →
        (StepSystem.run Sender.step s (inputs ++ rounds k)).sent.filter isResponse = frames := by
  have hrun := h.run hcmd hfit inputs hi
  have hover := hrun.rounds hcmd hfit (Nat.lt_succ_self _)
  refine ⟨_, hover.sent, ?_, ?_⟩
  · exact (sent_run _ _).filter _
  · intro k hk
    rw [hover.sent.length_eq] at hk
    obtain ⟨d, rfl⟩ : ∃ d, k = (contCount p.length + 1).succ + d :=
      ⟨k - (contCount p.length + 2), by omega⟩
    rw [rounds_add, run_append, run_append]
    exact (hover.run (KeyWallet.Hid.rounds d)).2

end Sending

theorem delivers_whole {n : Nat} (hn : 0 < n) (hfit : 7 + n ≤ keepaliveAt) :
    Delivers (.whole n) := by
  intro s cid cmd inputs hs hcmd
  have hroom : keepaliveAt ≤ usbBufferSize := Nat.sub_le _ _
  have hlen : (window s.buffer 7 n).length + 7 ≤ keepaliveAt := by
    rw [window_length]
    omega
  apply delivers_of_progress hcmd (Nat.le_trans hlen hroom)
  · exact .inl ⟨0, sending_whole hs hn (Nat.le_trans hfit hroom) rfl cid cmd⟩
  · intro i _
    cases i with
    | task accepted => trivial
    | keepalive accepted cid status => exact hlen
    | complete => trivial

/-- The sender with this buffer, before anything is sent. -/
def atRest (buffer : Nat → Byte) : Sender := { buffer := buffer }

theorem atRest_quiet (buffer : Nat → Byte) : Quiet (atRest buffer) :=
  ⟨rfl, rfl, rfl, by rintro f ⟨⟩⟩

theorem transfers_cbor : Transfers ctaphidCbor := by
  refine ⟨.inr (.inr (.inl rfl)), ?_, ?_, ?_⟩ <;> decide

theorem not_delivers_long {n : Nat} (hfit : 7 + n ≤ usbBufferSize) (hlong : keepaliveAt < 7 + n) :
    ¬ Delivers (.whole n) := by
  intro h
  have hbound : keepaliveAt = 1984 := rfl
  obtain ⟨frames, hcarries, -, hsent⟩ :=
    h (atRest fun _ => 0) 1 ctaphidCbor [.keepalive false 1 1] (atRest_quiet _) transfers_cbor
  have hstart : Sending 1 ctaphidCbor (window (fun _ => 0) 7 n) 0
      ((atRest fun _ => 0).execFinishedCont 1 ctaphidCbor n 7) :=
    sending_whole (atRest_quiet _) (by omega) hfit rfl 1 ctaphidCbor
  have hkept := hstart.overwritten rfl 1 1
  rw [window_length] at hkept
  -- the run is that of the response with the keepalive in it
  have hover := Progress.rounds transfers_cbor (by rwa [window_length, Nat.add_comm])
    (.inl ⟨0, hkept⟩) (Nat.lt_succ_self _)
  rw [window_length] at hover
  have hframes := hsent (contCount n + 1).succ (by
    rw [hcarries.length_eq, Response.bytes, window_length]
    exact Nat.lt_succ_self _)
  rw [List.singleton_append, run_cons] at hframes
  have hall : CarriesAll 1 ctaphidCbor _ frames := hframes ▸ hover.sent
  have hsame := hall.unique hcarries
  have hroom : keepaliveAt - 7 < n := by omega
  have hbyte := congrArg (fun l => l[keepaliveAt - 7]?) hsame
  simp only [Response.bytes, List.getElem?_eq_getElem, window_length, hroom, window_getElem,
    Option.some.injEq] at hbyte
  have hwritten : (((atRest fun _ => 0).execFinishedCont 1 ctaphidCbor n 7).keepalive false 1 1).buffer
      (7 + (keepaliveAt - 7)) = 1 := by
    rw [keepalive_buffer, show 7 + (keepaliveAt - 7) = keepaliveAt + 0 from rfl,
      blit_before (by omega)]
    exact blit_inside (by decide)
  rw [hwritten] at hbyte
  exact absurd hbyte (by decide)

theorem rounds_stuck {s : Sender} (hpending : s.pending = none) (hptr : s.wPtr ≤ s.rPtr) (k : Nat) :
    run Sender.step s (rounds k) = s := by
  induction k with
  | zero => rfl
  | succ k ih =>
    have hrounds : rounds (k + 1) = .task true :: .complete :: rounds k := by
      simp [rounds, List.replicate_succ]
    have htask : s.step (.task true) = s := if_neg (Nat.not_lt.mpr hptr)
    have hcomplete : s.step .complete = s := by
      unfold Sender.step Sender.complete
      rw [hpending]
    rw [hrounds, run_cons, run_cons, htask, hcomplete, ih]

/-- The rest of a long response is taken seven bytes too early: apdu_process counts from the data and
driver_exec_finished_cont_hid from the header. Less than seven bytes into it the offset wraps, and
nothing is sent. -/
theorem not_delivers_further {start n : Nat} (hn : 0 < n) (hfit : 7 + start + n ≤ usbBufferSize) :
    ¬ Delivers (.further start n) := by
  intro h
  unfold usbBufferSize at hfit
  let m : Nat → Byte := fun a => if a = start then 1 else 0
  obtain ⟨s, hs⟩ : ∃ s, s = (atRest m).execFinishedCont 1 ctaphidCbor n start := ⟨_, rfl⟩
  have hrun : ∀ inputs, run Sender.step ((atRest m).execFinishedCont 1 ctaphidCbor
      (Response.further start n).length (Response.further start n).offset) inputs =
      run Sender.step s inputs := by
    intro inputs
    rw [hs]
    rfl
  by_cases hwrap : start < 7
  · obtain ⟨frames, hcarries, -, hsent⟩ := h (atRest m) 1 ctaphidCbor [] (atRest_quiet m) transfers_cbor
    have hptr : s.wPtr ≤ s.rPtr := by
      rw [hs]
      show (0 + (n + 7) + Sender.headerAt start) % 65536 ≤ (0 + Sender.headerAt start) % 65536
      unfold Sender.headerAt
      omega
    have hfree : s.pending = none := by
      rw [hs]
      rfl
    have hnone := hsent (frames.length + 1) (Nat.lt_succ_self _)
    rw [List.nil_append, hrun, rounds_stuck hfree hptr, hs] at hnone
    obtain ⟨init, conts, rfl, -⟩ := hcarries
    cases hnone
  · obtain ⟨frames, hcarries, hprefix, -⟩ := h (atRest m) 1 ctaphidCbor [.task true, .complete]
      (atRest_quiet m) transfers_cbor
    have hoff : Sender.headerAt start = start - 7 := by
      unfold Sender.headerAt
      omega
    have hbuffer : s.buffer = blit m (start - 7) (header 1 ctaphidCbor n 0) := by
      rw [hs, execFinishedCont_buffer, hoff]
      rfl
    have hr : s.rPtr = start - 7 := by
      rw [hs]
      show (0 + Sender.headerAt start) % 65536 = _
      omega
    have hmore : s.rPtr < s.wPtr := by
      rw [hr, hs]
      show start - 7 < (0 + (n + 7) + Sender.headerAt start) % 65536
      omega
    have hfree : s.pending = none ∧ s.sent = [] := by
      rw [hs]
      exact ⟨rfl, rfl⟩
    have htask : s.task true = { s with pending := some (frameAt s.buffer s.rPtr) } := by
      rw [Sender.task, if_pos hmore, Sender.write, hfree.1]
      rfl
    have hsent : (run Sender.step s [.task true, .complete]).sent = [frameAt s.buffer s.rPtr] := by
      show (s.task true).complete.sent = _
      rw [htask, complete_sent rfl, hfree.2]
      rfl
    have htype : (frameAt s.buffer s.rPtr).type = ctaphidCbor := by
      show s.buffer (s.rPtr + 4) = _
      rw [hbuffer, hr]
      exact blit_inside (i := 4) (by simp [header, cidBytes])
    have hresp : isResponse (frameAt s.buffer s.rPtr) = true := by
      rw [isResponse, htype, Frame.isInit, htype]
      decide
    obtain ⟨init, conts, rfl, hc, hall⟩ := hcarries
    have hinit : frameAt s.buffer s.rPtr = init := by
      rw [hrun, hsent, List.filter_cons_of_pos hresp, List.filter_nil] at hprefix
      exact (List.cons_prefix_cons.mp hprefix).1
    -- the first byte that goes out is not the first one of the response
    have hfirst : init.initData[0]? = some 1 := by
      rw [← hinit]
      show ((window s.buffer (s.rPtr + 5) 59).drop 2)[0]? = _
      rw [window_drop _ _ (by decide), List.getElem?_eq_getElem (by rw [window_length]; decide),
        window_getElem, hbuffer, hr, show start - 7 + 5 + 2 + 0 = start by omega]
      rw [blit_behind (by
          show start - 7 + 7 ≤ _
          omega)]
      exact congrArg some (if_pos rfl)
    have hbytes := congrArg (fun l => l[0]?) (hc.payload_eq hall)
    have hlen : ((Response.further start n).bytes (atRest m).buffer).length = n := window_length
    simp only [hlen, List.getElem?_take, hn, if_true, joined] at hbytes
    rw [List.getElem?_append_left (by rw [init.initData_length]; decide), hfirst] at hbytes
    have hzero : ((Response.further start n).bytes (atRest m).buffer)[0]? = some 0 := by
      have hoff : ¬ 7 + start + 0 = start := by omega
      show (window m (7 + start) n)[0]? = some 0
      rw [List.getElem?_eq_getElem (by rwa [window_length]), window_getElem]
      exact congrArg some (if_neg hoff)
    rw [hzero] at hbytes
    exact absurd hbytes (by decide)

theorem delivers_iff {resp : Response} (hfits : resp.Fits) :
    Delivers resp ↔ ∃ n, resp = .whole n ∧ 7 + n ≤ keepaliveAt := by
  cases resp with
  | whole n =>
    constructor
    · intro h
      by_contra hlong
      have hover : keepaliveAt < 7 + n := by
        by_contra hle
        exact hlong ⟨n, rfl, Nat.le_of_not_lt hle⟩
      exact not_delivers_long hfits.2 hover h
    · rintro ⟨_, ⟨⟩, hn⟩
      exact delivers_whole hfits.1 hn
  | further start n =>
    constructor
    · exact fun h => absurd h (not_delivers_further hfits.2.1 hfits.2.2)
    · rintro ⟨_, ⟨⟩, -⟩

/-- Reassembly and fragmentation. A payload that is sent in frames reaches its handler as it is if
and only if no frame before the last comes within 500 ms of the wrap of the clock. Whatever comes in,
the message fits its buffer, and each message that is handed on is what one init frame and its
continuation frames carry. A response is received by the host as it is, with keepalives anywhere, if
and only if it is a whole one that ends before the place where they are built. -/
theorem ctaphid_transport (resp : Response) (hfits : resp.Fits) :
    (∀ (r : Receiver) (cid : Cid) (cmd : Byte) (payload : Bytes) (busy : Bool) (t : Nat) (init : Frame)
      (rest : List Input), Transfers cmd → IsChannel cid →
      CarriesAll cid cmd payload (framesOf (.frame busy t init :: rest)) →
      payload.length ≤ maxPacketSize → Idle r t → Unlocked r cid t → Timely t rest →
      (handed r (.frame busy t init :: rest) = [(cmd, payload)] ↔
        ∀ s ∈ (stamps (.frame busy t init :: rest)).dropLast, ClockSafe s)) ∧
    (∀ (inputs : List Input) (i : Input), Bounded (run Receiver.step {} inputs) ∧
      ∀ cmd payload, (run Receiver.step {} inputs).outcome i = some (.message cmd payload) →
        ∃ cid frames, CarriesAll cid cmd payload frames ∧ frames.Sublist (framesOf (inputs ++ [i])) ∧
          frames.getLast? = (framesOf (inputs ++ [i])).getLast?) ∧
    (Delivers resp ↔ ∃ n, resp = .whole n ∧ 7 + n ≤ keepaliveAt) := by
  refine ⟨?_, ?_, delivers_iff hfits⟩
  · intro r cid cmd payload busy t init rest hcmd hchannel hcarries hlen hidle hunlocked htimely
    exact payload_handed hcmd hchannel hcarries hlen hidle hunlocked htimely
  · intro inputs i
    have hinv := receiverInv_run inputs
    refine ⟨hinv.bounded, fun cmd payload hout => ?_⟩
    cases i with
    | poll t => cases hout
    | frame busy t f =>
      have hframes : framesOf (inputs ++ [Input.frame busy t f]) = framesOf inputs ++ [f] := by
        simp [framesOf]
      obtain ⟨cid, frames, hcarries, hsub, hlast⟩ :=
        (processPacket_inv hinv busy (BitVec.ofNat 32 t) f).2 cmd payload (Option.some.inj hout)
      rw [hframes]
      refine ⟨cid, frames, hcarries, hsub, hlast.trans ?_⟩
      rw [List.getLast?_append]
      rfl

/-- A ping of 100 bytes in two frames, and its reply. -/
theorem ctaphid_transport_ping :
    handed {} [.frame false 1000 (initFrame 5 ctaphidPing (List.replicate 100 7)), .poll 1001,
      .frame false 1002 (contFrame 5 (List.replicate 100 7) 0)] =
        [(ctaphidPing, List.replicate 100 7)] ∧
    Delivers (.whole 100) := by
  have hfits : (Response.whole 100).Fits := ⟨by decide, by decide⟩
  obtain ⟨hreceived, -, hdelivers⟩ := ctaphid_transport (.whole 100) hfits
  refine ⟨?_, hdelivers.mpr ⟨100, rfl, by decide⟩⟩
  refine (hreceived {} 5 ctaphidPing (List.replicate 100 7) false 1000 _
    [.poll 1001, .frame false 1002 _] ?_ ?_ ?_ ?_ ?_ ?_ ?_).mpr ?_
  · refine ⟨.inl (.inl rfl), ?_, ?_, ?_⟩ <;> decide
  · constructor <;> decide
  · exact fragment_carriesAll 5 (by decide) (by decide)
  · decide
  · rintro ⟨h, -⟩
    exact absurd h (by decide)
  · rintro ⟨h, -⟩
    exact absurd h (by decide)
  · exact ⟨by decide, by decide, trivial⟩
  · intro s hs
    rw [List.mem_singleton.mp hs]
    decide

/-- Two frames of a message 300 ms before the clock wraps are not put together. A response of 2000
bytes does not survive a keepalive, and the rest of a long one does not arrive. -/
theorem ctaphid_transport_broken :
    handed {} [.frame false 4294966996 (initFrame 5 ctaphidPing (List.replicate 100 7)),
      .frame false 4294966997 (contFrame 5 (List.replicate 100 7) 0)] = [] ∧
    ¬ Delivers (.whole 2000) ∧ ¬ Delivers (.further 256 100) := by
  refine ⟨by decide, ?_, ?_⟩
  · exact not_delivers_long (by decide) (by decide)
  · exact not_delivers_further (by decide) (by decide)

end KeyWallet.Hid
