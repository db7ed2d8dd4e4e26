import KeyWallet.GetResponse
import KeyWallet.Chaining

/-! Command chaining in apdu.c. The parts of a command are kept in chain_buf; with the last one the whole is put
together in the receive buffer of the transport, where apdu.data points. -/
namespace KeyWallet.Apdu.Chain

open ByteBuffer StepSystem

/-- sizeof(chain_buf). -/
def chainBufSize : Nat := 2038

/-- Where apdu.data can point: nowhere, into ccid_rx, hid_rx, msg_packet.data or otp_frame_rx. -/
inductive Buffer
  | null
  | ccidRx (itf : Nat)
  | hidRx
  | msgPacket
  | otpFrameRx
  deriving DecidableEq, Repr

def Buffer.size : Buffer → Nat
  | .null => 0
  | .ccidRx _ => Hid.usbBufferSize
  | .hidRx => Hid.usbBufferSize
  | .msgPacket => Hid.maxPacketSize
  | .otpFrameRx => 70

structure Pointer where
  buffer : Buffer
  addr : Nat
  deriving DecidableEq, Repr

abbrev Memory := Buffer → Nat → Byte

def Memory.read (m : Memory) (p : Pointer) (n : Nat) : Bytes := window (m p.buffer) p.addr n

def Memory.write (m : Memory) (p : Pointer) (xs : Bytes) : Memory :=
  Function.update m p.buffer (blit (m p.buffer) p.addr xs)

def Pointer.shift (p : Pointer) (n : Nat) : Pointer := { p with addr := p.addr + n }

/-- CLA, INS, P1 and P2. -/
structure Header where
  cla : Byte
  ins : Byte
  p1 : Byte
  p2 : Byte
  deriving DecidableEq, Repr

namespace Header

def read (m : Memory) (p : Pointer) : Header :=
  ⟨m p.buffer p.addr, m p.buffer (p.addr + 1), m p.buffer (p.addr + 2), m p.buffer (p.addr + 3)⟩

/-- The chaining bit is set. -/
def chains (h : Header) : Bool := decide (h.cla &&& 0x10 ≠ 0)

/-- The header without the chaining bit. -/
def key (h : Header) : Header := { h with cla := h.cla &&& 0xef }

/-- SELECT by AID. -/
def isSelect (h : Header) : Bool := decide (h.ins = 0xa4 ∧ h.p1 = 0x04 ∧ (h.p2 = 0x00 ∨ h.p2 = 0x04))

/-- The class is one that the card has. -/
def supported (h : Header) : Bool := decide (h.cla &&& 0x10 ≠ 0 ∨ h.cla &&& 0x0c = 0)

end Header

/-- What becomes of a command: apdu_process drops it or answers it from the response that is left, process_apdu
answers it with a status, or select_app or the application gets its data. -/
inductive Outcome
  | dropped
  | answered
  | ok
  | lastChainExpected
  | wrongLength
  | claNotSupported
  | select (aid : Bytes)
  | command (header : Header) (data : Bytes)
  deriving DecidableEq, Repr

/-- The end of process_apdu. -/
def dispatch (h : Header) (data : Bytes) : Outcome :=
  if h.supported = false then .claNotSupported
  else if h.isSelect then .select data
  else .command h data

/-- is_chaining, chain_header, chain_buf up to chain_ptr, and apdu.data. -/
structure State where
  isChaining : Bool := false
  chainHeader : Header := ⟨0, 0, 0, 0⟩
  chainBuf : Bytes := []
  data : Pointer := ⟨.null, 0⟩
  deriving DecidableEq, Repr

def State.discard (s : State) : State := { s with isChaining := false, chainBuf := [] }

/-- `used` is how many bytes from apdu.data on were read or written, the data of the handler among them. -/
structure Result where
  state : State
  outcome : Outcome
  used : Nat := 0
  deriving DecidableEq, Repr

/-- The whole command: memmove of the last part behind the room for the others, and memcpy of these. -/
def concatenate (m : Memory) (p : Pointer) (parts : Bytes) (nc : Nat) : Memory :=
  (m.write (p.shift parts.length) (m.read p nc)).write p parts

/-- The open chain is left: by a SELECT, or by a command with another header. -/
def State.leaves (s : State) (h : Header) : Bool := s.isChaining && (h.isSelect || decide (h.key ≠ s.chainHeader))

/-- process_apdu for a command without the chaining bit, when a chain that it left is gone. -/
def processLast (s : State) (m : Memory) (at' : Pointer) (nc : Nat) : Result :=
  if s.isChaining then
    if chainBufSize ≤ s.chainBuf.length + nc then ⟨s.discard, .wrongLength, 0⟩
    else
      let whole := concatenate m s.data s.chainBuf nc
      ⟨s.discard, dispatch (Header.read whole at') (whole.read s.data (s.chainBuf.length + nc)),
        s.chainBuf.length + nc⟩
  else ⟨s, dispatch (Header.read m at') (m.read s.data nc), nc⟩

/-- process_apdu, with the header at `at'`. -/
def processApdu (s : State) (m : Memory) (at' : Pointer) (nc : Nat) : Result :=
  let h := Header.read m at'
  if h.chains then
    if s.isChaining ∧ h.key ≠ s.chainHeader then ⟨s.discard, .lastChainExpected, 0⟩
    else
      let parts := if s.isChaining then s.chainBuf else []
      if chainBufSize ≤ parts.length + nc then ⟨s.discard, .wrongLength, 0⟩
      else ⟨{ s with isChaining := true, chainHeader := h.key, chainBuf := parts ++ m.read s.data nc }, .ok, nc⟩
  else if s.leaves h ∧ h.isSelect = false then ⟨s.discard, .lastChainExpected, 0⟩
  else processLast (if s.leaves h then s.discard else s) m at' nc

/-- Where a command may begin in a buffer: behind the header of its CCID message, of its only HID frame, or at
the beginning of what several frames were put together to. -/
def Buffer.Placed : Buffer → (start length : Nat) → Prop
  | .ccidRx _, start, length => 10 ≤ start ∧ start + length ≤ Hid.usbBufferSize
  | .hidRx, start, length => start = 7 ∧ length ≤ 57
  | .msgPacket, start, length => start = 0 ∧ 57 < length ∧ length ≤ Hid.maxPacketSize
  | _, _, _ => False

/-- A command as it comes in. `memory` is what the buffers hold then, and `responsePending` says that a response
is left for GET RESPONSE. -/
structure Arrival where
  buffer : Buffer
  start : Nat
  length : Nat
  memory : Memory
  responsePending : Bool
  placed : buffer.Placed start length

namespace Arrival

def at' (a : Arrival) : Pointer := ⟨a.buffer, a.start⟩

def bytes (a : Arrival) : Bytes := a.memory.read a.at' a.length

def header (a : Arrival) : Header := Header.read a.memory a.at'

end Arrival

/-- Where apdu_process sets apdu.data to, counted from the header. Short commands leave it as it is. -/
def dataOffset (b : Bytes) : Option Nat :=
  if b.length < 6 then none
  else if (b.getD 4 0).toNat = 0 ∧ 7 ≤ b.length then if b.length = 7 then none else some 7
  else some 5

/-- apdu.data when apdu_process is through with its parser. -/
def arrivalData (s : State) (a : Arrival) : Pointer :=
  match dataOffset a.bytes with
  | none => s.data
  | some offset => a.at'.shift offset

/-- apdu_process and the worker. -/
def receive (s : State) (a : Arrival) : Result :=
  let s := { s with data := arrivalData s a }
  match parse a.bytes with
  | none => ⟨s, .dropped, 0⟩
  | some cmd =>
    if cmd.ins = insGetResponse ∧ a.responsePending then ⟨s, .answered, 0⟩
    else processApdu s a.memory a.at' cmd.nc

/-- A command on CCID or HID, or a frame of the keyboard interface, which otp.c puts to its own command. -/
inductive Input
  | apdu (a : Arrival)
  | otpFrame

def step (s : State) : Input → State
  | .apdu a => (receive s a).state
  | .otpFrame => { s with data := ⟨.otpFrameRx, 0⟩ }

/-! What is asked of the card. -/

/-- The short and the extended commands of ISO 7816, with their data. -/
inductive Iso : Bytes → Bytes → Prop
  | case1 {h : Bytes} : h.length = 4 → Iso h []
  | case2 {h : Bytes} (le : Byte) : h.length = 4 → Iso (h ++ [le]) []
  | case3 {h data : Bytes} (lc : Byte) : h.length = 4 → data ≠ [] → lc.toNat = data.length →
      Iso (h ++ lc :: data) data
  | case4 {h data : Bytes} (lc le : Byte) : h.length = 4 → data ≠ [] → lc.toNat = data.length →
      Iso (h ++ lc :: (data ++ [le])) data
  | extended2 {h : Bytes} (hi lo : Byte) : h.length = 4 → Iso (h ++ [0, hi, lo]) []
  | extended3 {h data : Bytes} (hi lo : Byte) : h.length = 4 → data ≠ [] →
      hi.toNat * 256 + lo.toNat = data.length → Iso (h ++ 0 :: hi :: lo :: data) data
  | extended4 {h data : Bytes} (hi lo hi' lo' : Byte) : h.length = 4 → data ≠ [] →
      hi.toNat * 256 + lo.toNat = data.length → Iso (h ++ 0 :: hi :: lo :: (data ++ [hi', lo'])) data

/-- The chain that is open. -/
def State.pending (s : State) : Option (Header × Bytes) :=
  if s.isChaining then some (s.chainHeader, s.chainBuf) else none

/-- The outcome of a part. SELECT begins afresh where it is not part of the chain. -/
def verdictOutcome (h : Header) (data : Bytes) : Chaining.Verdict Byte → Outcome
  | .taken => .ok
  | .mismatch => if h.chains = false ∧ h.isSelect then dispatch h data else .lastChainExpected
  | .tooLong => .wrongLength
  | .whole message => dispatch h message

/-- The chain behind a command with these data, and the outcome. -/
def expected (pending : Option (Header × Bytes)) (responsePending : Bool) (h : Header) (data : Bytes) :
    Option (Header × Bytes) × Outcome :=
  if h.ins = insGetResponse ∧ responsePending ∧ pending = none then (none, .answered)
  else
    let r := Chaining.step chainBufSize pending (!h.chains) h.key data
    (r.1, verdictOutcome h data r.2)

/-- The command is treated as it should be: a command of ISO 7816 as its chain asks for, any other one dropped;
nothing is read or written outside the buffer, or where another command left apdu.data. -/
structure Treated (s : State) (a : Arrival) : Prop where
  accepted : ∀ data, Iso a.bytes data →
    ((receive s a).state.pending, (receive s a).outcome) = expected s.pending a.responsePending a.header data
  dropped : (¬ ∃ data, Iso a.bytes data) →
    (receive s a).outcome = .dropped ∧ (receive s a).state.pending = s.pending
  inside : (receive s a).used ≠ 0 →
    (receive s a).state.data.addr + (receive s a).used ≤ (receive s a).state.data.buffer.size
  fresh : (receive s a).used ≠ 0 → (dataOffset a.bytes).isSome = true

def TreatedInput (s : State) : Input → Prop
  | .apdu a => Treated s a
  | .otpFrame => True

/-- A command that no case of ISO 7816 has: Lc is zero, and Le follows. -/
def Lax (b : Bytes) : Prop :=
  (b.length = 6 ∧ (b.getD 4 0).toNat = 0) ∨
    (b.length = 9 ∧ (b.getD 4 0).toNat = 0 ∧ (b.getD 5 0).toNat = 0 ∧ (b.getD 6 0).toNat = 0)

/-- The command with `nc` bytes ends the open chain. -/
def Ends (s : State) (a : Arrival) : Prop :=
  s.isChaining = true ∧ a.header.chains = false ∧ a.header.key = s.chainHeader

/-- The command has Le only behind a length, it is no GET RESPONSE for a response that is left while a chain is
open, and where it ends a chain: a SELECT has no parts before it, and any other command that is short enough has
no data at all, or a last part that is not empty, with room for the whole behind it. -/
structure Clear (s : State) (a : Arrival) : Prop where
  strict : ¬ Lax a.bytes
  answerable : ∀ cmd, parse a.bytes = some cmd → s.isChaining = true →
    ¬ (cmd.ins = insGetResponse ∧ a.responsePending = true)
  select : ∀ cmd, parse a.bytes = some cmd → Ends s a → a.header.isSelect = true →
    s.chainBuf.length + cmd.nc < chainBufSize ∧ (s.chainBuf = [] ∨ a.header.supported = false)
  room : ∀ cmd, parse a.bytes = some cmd → Ends s a → a.header.isSelect = false →
    s.chainBuf.length + cmd.nc < chainBufSize → s.chainBuf.length + cmd.nc ≠ 0 →
      0 < cmd.nc ∧ a.start + (dataOffset a.bytes).getD 0 + s.chainBuf.length + cmd.nc ≤ a.buffer.size

def ClearInput (s : State) : Input → Prop
  | .apdu a => Clear s a
  | .otpFrame => True

/-! The parser. -/

section Parser

theorem header_split {h : Bytes} (hlen : h.length = 4) : ∃ c i p q, h = [c, i, p, q] := by
  rcases h with _ | ⟨c, _ | ⟨i, _ | ⟨p, _ | ⟨q, _ | ⟨x, rest⟩⟩⟩⟩⟩
  · cases hlen
  · cases hlen
  · cases hlen
  · cases hlen
  · exact ⟨c, i, p, q, rfl⟩
  · simp only [List.length_cons] at hlen
    omega

/-- What apdu_process makes of a command with the data `data`. -/
structure Parsed (b data : Bytes) : Prop where
  parsed : ∃ cmd, parse b = some cmd ∧ cmd.nc = data.length ∧ cmd.ins = b.getD 1 0
  found : data ≠ [] → ∃ offset, dataOffset b = some offset ∧ 5 ≤ offset ∧ (b.drop offset).take data.length = data ∧
    offset + data.length ≤ b.length

theorem parse_short {b : Bytes} {n : Nat} (hn : 0 < n) (hmax : n < 256) (hlc : (b.getD 4 0).toNat = n)
    (hlen : b.length = n + 5 ∨ b.length = n + 6) :
    (∃ cmd, parse b = some cmd ∧ cmd.nc = n ∧ cmd.ins = b.getD 1 0) ∧ dataOffset b = some 5 := by
  constructor
  · unfold parse
    dsimp only
    rw [if_neg (by omega), if_neg (by omega), if_neg (by omega), if_neg (by omega)]
    rcases hlen with hlen | hlen
    · rw [if_pos (by omega)]
      exact ⟨_, rfl, hlc, rfl⟩
    · rw [if_neg (by omega), if_pos (by omega)]
      exact ⟨_, rfl, hlc, rfl⟩
  · unfold dataOffset
    rw [if_neg (by omega), if_neg (by omega)]

theorem parse_extended {b : Bytes} {n : Nat} (hn : 0 < n) (hmax : b.length ≤ 65535) (hfour : (b.getD 4 0).toNat = 0)
    (hlc : (b.getD 5 0).toNat * 256 + (b.getD 6 0).toNat = n) (hlen : b.length = n + 7 ∨ b.length = n + 9) :
    (∃ cmd, parse b = some cmd ∧ cmd.nc = n ∧ cmd.ins = b.getD 1 0) ∧ dataOffset b = some 7 := by
  have hword : (b.getD 5 0).toNat * 256 + (b.getD (5 + 1) 0).toNat = n := hlc
  constructor
  · unfold parse
    dsimp only
    rw [if_neg (by omega), if_neg (by omega), if_neg (by omega), if_pos (by omega), if_neg (by omega)]
    rcases hlen with hlen | hlen
    · rw [if_pos (by omega)]
      exact ⟨_, rfl, hlc, rfl⟩
    · rw [if_neg (by omega), if_pos (by omega)]
      exact ⟨_, rfl, hlc, rfl⟩
  · unfold dataOffset
    rw [if_neg (by omega), if_pos (by omega), if_neg (by omega)]

theorem parsed_short {c i p q lc : Byte} {data tail : Bytes} (hne : data ≠ []) (hlc : lc.toNat = data.length)
    (htail : tail.length = 0 ∨ tail.length = 1) : Parsed ([c, i, p, q] ++ lc :: (data ++ tail)) data := by
  have hlen : ([c, i, p, q] ++ lc :: (data ++ tail)).length = data.length + tail.length + 5 := by
    simp only [List.cons_append, List.nil_append, List.length_cons, List.length_append]
  have hlt : lc.toNat < 256 := lc.isLt
  obtain ⟨hparse, hoffset⟩ := parse_short (b := [c, i, p, q] ++ lc :: (data ++ tail)) (List.length_pos_iff.mpr hne)
    (by omega) hlc (by omega)
  refine ⟨hparse, fun _ => ⟨5, hoffset, Nat.le_refl 5, ?_, by omega⟩⟩
  show (data ++ tail).take data.length = data
  exact List.take_left

theorem parsed_extended {c i p q hi lo : Byte} {data tail : Bytes} (hne : data ≠ [])
    (hlc : hi.toNat * 256 + lo.toNat = data.length) (htail : tail.length = 0 ∨ tail.length = 2)
    (hmax : ([c, i, p, q] ++ 0 :: hi :: lo :: (data ++ tail)).length ≤ 65535) :
    Parsed ([c, i, p, q] ++ 0 :: hi :: lo :: (data ++ tail)) data := by
  have hlen : ([c, i, p, q] ++ 0 :: hi :: lo :: (data ++ tail)).length = data.length + tail.length + 7 := by
    simp only [List.cons_append, List.nil_append, List.length_cons, List.length_append]
  obtain ⟨hparse, hoffset⟩ := parse_extended (b := [c, i, p, q] ++ 0 :: hi :: lo :: (data ++ tail))
    (List.length_pos_iff.mpr hne) hmax rfl hlc (by omega)
  refine ⟨hparse, fun _ => ⟨7, hoffset, by omega, ?_, by omega⟩⟩
  show (data ++ tail).take data.length = data
  exact List.take_left

theorem Iso.parsed {b data : Bytes} (h : Iso b data) (hmax : b.length ≤ 65535) : Parsed b data := by
  have hnone : ∀ {P : Prop}, ([] : Bytes) ≠ [] → P := fun hne => absurd rfl hne
  cases h with
  | case1 hlen =>
    obtain ⟨c, i, p, q, rfl⟩ := header_split hlen
    exact ⟨⟨_, rfl, rfl, rfl⟩, hnone⟩
  | case2 le hlen =>
    obtain ⟨c, i, p, q, rfl⟩ := header_split hlen
    exact ⟨⟨_, rfl, rfl, rfl⟩, hnone⟩
  | case3 lc hlen hne hlc =>
    obtain ⟨c, i, p, q, rfl⟩ := header_split hlen
    have hparsed : Parsed ([c, i, p, q] ++ lc :: (data ++ [])) data := parsed_short hne hlc (.inl rfl)
    rwa [List.append_nil] at hparsed
  | case4 lc le hlen hne hlc =>
    obtain ⟨c, i, p, q, rfl⟩ := header_split hlen
    exact parsed_short hne hlc (.inr rfl)
  | extended2 hi lo hlen =>
    obtain ⟨c, i, p, q, rfl⟩ := header_split hlen
    exact ⟨⟨_, rfl, rfl, rfl⟩, hnone⟩
  | extended3 hi lo hlen hne hlc =>
    obtain ⟨c, i, p, q, rfl⟩ := header_split hlen
    rw [← List.append_nil data] at hmax
    have hparsed : Parsed ([c, i, p, q] ++ 0 :: hi :: lo :: (data ++ [])) data :=
      parsed_extended hne hlc (.inl rfl) hmax
    rwa [List.append_nil] at hparsed
  | extended4 hi lo hi' lo' hlen hne hlc =>
    obtain ⟨c, i, p, q, rfl⟩ := header_split hlen
    exact parsed_extended hne hlc (.inr rfl) hmax

theorem split_four {b : Bytes} (hlen : 4 ≤ b.length) : ∃ h rest, b = h ++ rest ∧ h.length = 4 :=
  ⟨b.take 4, b.drop 4, (List.take_append_drop 4 b).symm, List.length_take_of_le hlen⟩

/-- The lengths that apdu_process takes. -/
theorem parse_lengths {b : Bytes} (h : (parse b).isSome = true) : b.length = 4 ∨ b.length = 5 ∨
    ((b.getD 4 0).toNat = 0 ∧ b.length = 7) ∨
    ((b.getD 4 0).toNat = 0 ∧ 8 ≤ b.length ∧ (b.length = (b.getD 5 0).toNat * 256 + (b.getD 6 0).toNat + 7 ∨
      b.length = (b.getD 5 0).toNat * 256 + (b.getD 6 0).toNat + 9)) ∨
    (6 ≤ b.length ∧ (b.length = (b.getD 4 0).toNat + 5 ∨ b.length = (b.getD 4 0).toNat + 6)) := by
  unfold parse at h
  dsimp only at h
  by_cases hshort : b.length < 4 ∨ 65535 < b.length
  · rw [if_pos hshort] at h
    cases h
  rw [if_neg hshort] at h
  by_cases hfour : b.length = 4
  · exact .inl hfour
  rw [if_neg hfour] at h
  by_cases hfive : b.length = 5
  · exact .inr (.inl hfive)
  rw [if_neg hfive] at h
  right
  right
  by_cases hextended : (b.getD 4 0).toNat = 0 ∧ 7 ≤ b.length
  · rw [if_pos hextended] at h
    by_cases hseven : b.length = 7
    · exact .inl ⟨hextended.1, hseven⟩
    rw [if_neg hseven] at h
    right
    left
    refine ⟨hextended.1, by omega, ?_⟩
    by_cases hcase3 : b.length = (b.getD 5 0).toNat * 256 + (b.getD (5 + 1) 0).toNat + 7
    · exact .inl hcase3
    rw [if_neg hcase3] at h
    by_cases hcase4 : b.length = (b.getD 5 0).toNat * 256 + (b.getD (5 + 1) 0).toNat + 9
    · exact .inr hcase4
    · rw [if_neg hcase4] at h
      cases h
  · rw [if_neg hextended] at h
    right
    right
    refine ⟨by omega, ?_⟩
    by_cases hcase3 : b.length = (b.getD 4 0).toNat + 5
    · exact .inl hcase3
    rw [if_neg hcase3] at h
    by_cases hcase4 : b.length = (b.getD 4 0).toNat + 6
    · exact .inr hcase4
    · rw [if_neg hcase4] at h
      cases h

theorem split_data {b : Bytes} {k n : Nat} (hlen : b.length = k + n) :
    ∃ data tail, b = data ++ tail ∧ data.length = k ∧ tail.length = n :=
  ⟨b.take k, b.drop k, (List.take_append_drop k b).symm, List.length_take_of_le (by omega), by
    rw [List.length_drop]
    omega⟩

theorem iso_extended {h : Bytes} {y z : Byte} {rest : Bytes} (hhead : h.length = 4) (hne : rest ≠ [])
    (hlen : rest.length = y.toNat * 256 + z.toNat ∨ rest.length = y.toNat * 256 + z.toNat + 2) :
    (∃ data, Iso (h ++ 0 :: y :: z :: rest) data) ∨ (y.toNat = 0 ∧ z.toNat = 0 ∧ rest.length = 2) := by
  rcases hlen with hlen | hlen
  · exact .inl ⟨rest, .extended3 y z hhead hne hlen.symm⟩
  obtain ⟨data, tail, rfl, hdata, htail⟩ := split_data hlen
  obtain ⟨u, v, rfl⟩ := List.length_eq_two.mp htail
  by_cases hzero : data = []
  · rw [hzero, List.length_nil] at hdata
    right
    refine ⟨by omega, by omega, ?_⟩
    rw [hzero]
    rfl
  · exact .inl ⟨data, .extended4 y z u v hhead hzero hdata.symm⟩

theorem iso_short {h : Bytes} {x : Byte} {rest : Bytes} (hhead : h.length = 4) (hne : rest ≠ [])
    (hlen : rest.length = x.toNat ∨ rest.length = x.toNat + 1) :
    (∃ data, Iso (h ++ x :: rest) data) ∨ (x.toNat = 0 ∧ rest.length = 1) := by
  rcases hlen with hlen | hlen
  · exact .inl ⟨rest, .case3 x hhead hne hlen.symm⟩
  obtain ⟨data, tail, rfl, hdata, htail⟩ := split_data hlen
  obtain ⟨u, rfl⟩ := List.length_eq_one_iff.mp htail
  by_cases hzero : data = []
  · rw [hzero, List.length_nil] at hdata
    right
    refine ⟨by omega, ?_⟩
    rw [hzero]
    rfl
  · exact .inl ⟨data, .case4 x u hhead hzero hdata.symm⟩

/-- What apdu_process takes is a command of ISO 7816, or has Le behind a length that is zero. -/
theorem iso_or_lax {b : Bytes} (h : (parse b).isSome = true) : (∃ data, Iso b data) ∨ Lax b := by
  have hlengths := parse_lengths h
  obtain ⟨head, rest, rfl, hhead⟩ := split_four (by omega : 4 ≤ b.length)
  obtain ⟨c, i, p, q, rfl⟩ := header_split hhead
  have hlen : ([c, i, p, q] ++ rest).length = rest.length + 4 := by
    rw [List.length_append, hhead, Nat.add_comm]
  rw [hlen] at hlengths
  rcases rest with _ | ⟨x, rest⟩
  · exact .inl ⟨[], .case1 rfl⟩
  have hfour : ([c, i, p, q] ++ x :: rest).getD 4 0 = x := rfl
  unfold Lax
  rw [hfour] at hlengths ⊢
  rw [hlen]
  rw [List.length_cons] at hlengths ⊢
  rcases hlengths with hlengths | hlengths | ⟨hx, hlengths⟩ | ⟨hx, hlong, hlengths⟩ | ⟨hlong, hlengths⟩
  · omega
  · have hrest : rest = [] := List.length_eq_zero_iff.mp (by omega)
    rw [hrest]
    exact .inl ⟨[], .case2 x rfl⟩
  · obtain ⟨y, z, rfl⟩ := List.length_eq_two.mp (by omega : rest.length = 2)
    obtain rfl : x = 0 := BitVec.eq_of_toNat_eq hx
    exact .inl ⟨[], .extended2 y z rfl⟩
  · obtain rfl : x = 0 := BitVec.eq_of_toNat_eq hx
    rcases rest with _ | ⟨y, _ | ⟨z, rest⟩⟩
    · rw [List.length_nil] at hlong
      omega
    · rw [List.length_singleton] at hlong
      omega
    have hfive : ([c, i, p, q] ++ 0 :: y :: z :: rest).getD 5 0 = y := rfl
    have hsix : ([c, i, p, q] ++ 0 :: y :: z :: rest).getD 6 0 = z := rfl
    rw [hfive, hsix] at hlengths ⊢
    simp only [List.length_cons] at hlong hlengths ⊢
    have hne : rest ≠ [] := List.ne_nil_of_length_pos (by omega)
    rcases iso_extended hhead hne (by omega : rest.length = y.toNat * 256 + z.toNat ∨
      rest.length = y.toNat * 256 + z.toNat + 2) with hiso | ⟨hy, hz, htwo⟩
    · exact .inl hiso
    · exact .inr (.inr ⟨by omega, hx, hy, hz⟩)
  · have hne : rest ≠ [] := List.ne_nil_of_length_pos (by omega)
    rcases iso_short (x := x) hhead hne (by omega) with hiso | ⟨hzero, hone⟩
    · exact .inl hiso
    · exact .inr (.inl ⟨by omega, hzero⟩)

theorem Lax.not_iso {b : Bytes} (h : Lax b) : ¬ ∃ data, Iso b data := by
  rintro ⟨data, hiso⟩
  unfold Lax at h
  cases hiso with
  | case1 hlen =>
    omega
  | case2 le hlen =>
    rw [List.length_append, List.length_singleton] at h
    omega
  | case3 lc hlen hne hlc =>
    obtain ⟨c, i, p, q, rfl⟩ := header_split hlen
    have hpos : 0 < data.length := List.length_pos_iff.mpr hne
    have hfour : (([c, i, p, q] ++ lc :: data).getD 4 0).toNat = lc.toNat := rfl
    omega
  | case4 lc le hlen hne hlc =>
    obtain ⟨c, i, p, q, rfl⟩ := header_split hlen
    have hpos : 0 < data.length := List.length_pos_iff.mpr hne
    have hfour : (([c, i, p, q] ++ lc :: (data ++ [le])).getD 4 0).toNat = lc.toNat := rfl
    omega
  | extended2 hi lo hlen =>
    rw [List.length_append] at h
    simp only [List.length_cons, List.length_nil] at h
    omega
  | extended3 hi lo hlen hne hlc =>
    obtain ⟨c, i, p, q, rfl⟩ := header_split hlen
    have hpos : 0 < data.length := List.length_pos_iff.mpr hne
    have hfive : (([c, i, p, q] ++ 0 :: hi :: lo :: data).getD 5 0).toNat = hi.toNat := rfl
    have hsix : (([c, i, p, q] ++ 0 :: hi :: lo :: data).getD 6 0).toNat = lo.toNat := rfl
    have hcount : ([c, i, p, q] ++ 0 :: hi :: lo :: data).length = data.length + 7 := by
      simp only [List.cons_append, List.nil_append, List.length_cons]
    omega
  | extended4 hi lo hi' lo' hlen hne hlc =>
    obtain ⟨c, i, p, q, rfl⟩ := header_split hlen
    have hpos : 0 < data.length := List.length_pos_iff.mpr hne
    have hfive : (([c, i, p, q] ++ 0 :: hi :: lo :: (data ++ [hi', lo'])).getD 5 0).toNat = hi.toNat := rfl
    have hsix : (([c, i, p, q] ++ 0 :: hi :: lo :: (data ++ [hi', lo'])).getD 6 0).toNat = lo.toNat := rfl
    have hcount : ([c, i, p, q] ++ 0 :: hi :: lo :: (data ++ [hi', lo'])).length = data.length + 9 := by
      simp only [List.cons_append, List.nil_append, List.length_cons, List.length_append, List.length_nil]
    omega

end Parser

/-! The receive buffer. -/

section Buffers

variable {m : Memory} {p : Pointer}

theorem read_write_same (m : Memory) (p q : Pointer) (xs : Bytes) (n : Nat) (hq : q.buffer = p.buffer) :
    (m.write p xs).read q n = window (blit (m p.buffer) p.addr xs) q.addr n := by
  unfold Memory.read Memory.write
  rw [hq, Function.update_self]

theorem write_nil (m : Memory) (p : Pointer) : m.write p [] = m := by
  have hblit : blit (m p.buffer) p.addr [] = m p.buffer := by
    funext a
    unfold blit
    rw [List.getElem?_nil, Option.getD_none, ite_self]
  unfold Memory.write
  rw [hblit, Function.update_eq_self]

theorem concatenate_read (m : Memory) (p : Pointer) (parts : Bytes) (nc : Nat) :
    (concatenate m p parts nc).read p (parts.length + nc) = parts ++ m.read p nc := by
  have hlength : (m.read p nc).length = nc := window_length
  have hcopied : ∀ xs : Bytes, xs.length = nc →
      window (blit (m p.buffer) (p.addr + parts.length) xs) (p.addr + parts.length) nc = xs := by
    rintro xs rfl
    exact window_blit _ _ _
  have hlast := hcopied (m.read p nc) hlength
  have hshift : (m.write (p.shift parts.length) (m.read p nc)) p.buffer =
      blit (m p.buffer) (p.addr + parts.length) (m.read p nc) := Function.update_self ..
  unfold concatenate
  rw [read_write_same _ p p parts _ rfl, hshift, window_add, window_blit,
    window_blit_apart parts (.inr (Nat.le_refl _)), hlast]

theorem concatenate_header (m : Memory) (at' : Pointer) (parts : Bytes) (nc : Nat) {offset : Nat} (h : 4 ≤ offset) :
    Header.read (concatenate m (at'.shift offset) parts nc) at' = Header.read m at' := by
  have hkept : ∀ k < 4, concatenate m (at'.shift offset) parts nc at'.buffer (at'.addr + k) =
      m at'.buffer (at'.addr + k) := by
    intro k hk
    have hsame : concatenate m (at'.shift offset) parts nc at'.buffer =
        blit (blit (m at'.buffer) (at'.addr + offset + parts.length) (m.read (at'.shift offset) nc))
          (at'.addr + offset) parts := by
      unfold concatenate Memory.write
      have hbuffer : (at'.shift offset).buffer = at'.buffer := rfl
      have hbuffer' : ((at'.shift offset).shift parts.length).buffer = at'.buffer := rfl
      rw [hbuffer, hbuffer', Function.update_self, Function.update_self]
      rfl
    rw [hsame, blit_before (by omega), blit_before (by omega)]
  unfold Header.read
  rw [hkept 1 (by omega), hkept 2 (by omega), hkept 3 (by omega)]
  have hfirst := hkept 0 (by omega)
  rw [Nat.add_zero] at hfirst
  rw [hfirst]

theorem concatenate_nothing (m : Memory) (p : Pointer) : concatenate m p [] 0 = m := by
  unfold concatenate
  have hread : m.read p 0 = [] := rfl
  rw [hread, write_nil, write_nil]

end Buffers

/-! process_apdu, case by case. -/

section Process

variable {s : State} {m : Memory} {at' : Pointer} {nc : Nat}

theorem process_chains_changed (hchains : (Header.read m at').chains = true) (hopen : s.isChaining = true)
    (hkey : (Header.read m at').key ≠ s.chainHeader) :
    processApdu s m at' nc = ⟨s.discard, .lastChainExpected, 0⟩ := by
  unfold processApdu
  dsimp only
  rw [if_pos hchains, if_pos ⟨hopen, hkey⟩]

theorem process_chains_long (hchains : (Header.read m at').chains = true)
    (hkey : s.isChaining = true → (Header.read m at').key = s.chainHeader)
    (hlong : chainBufSize ≤ (if s.isChaining then s.chainBuf else []).length + nc) :
    processApdu s m at' nc = ⟨s.discard, .wrongLength, 0⟩ := by
  unfold processApdu
  dsimp only
  rw [if_pos hchains, if_neg (fun hboth => hboth.2 (hkey hboth.1)), if_pos hlong]

theorem process_chains_taken (hchains : (Header.read m at').chains = true)
    (hkey : s.isChaining = true → (Header.read m at').key = s.chainHeader)
    (hshort : ¬ chainBufSize ≤ (if s.isChaining then s.chainBuf else []).length + nc) :
    processApdu s m at' nc =
      ⟨{ s with
          isChaining := true
          chainHeader := (Header.read m at').key
          chainBuf := (if s.isChaining then s.chainBuf else []) ++ m.read s.data nc }, .ok, nc⟩ := by
  unfold processApdu
  dsimp only
  rw [if_pos hchains, if_neg (fun hboth => hboth.2 (hkey hboth.1)), if_neg hshort]

theorem process_idle (hchains : (Header.read m at').chains = false) (hopen : s.isChaining = false) :
    processApdu s m at' nc = ⟨s, dispatch (Header.read m at') (m.read s.data nc), nc⟩ := by
  have hleaves : s.leaves (Header.read m at') = false := by
    unfold State.leaves
    rw [hopen, Bool.false_and]
  have hclosed : ¬ s.isChaining = true := Bool.eq_false_iff.mp hopen
  unfold processApdu
  dsimp only
  rw [if_neg (Bool.eq_false_iff.mp hchains), hleaves, if_neg (fun hboth => Bool.false_ne_true hboth.1),
    if_neg Bool.false_ne_true]
  unfold processLast
  rw [if_neg hclosed]

theorem process_changed (hchains : (Header.read m at').chains = false) (hopen : s.isChaining = true)
    (hselect : (Header.read m at').isSelect = false) (hkey : (Header.read m at').key ≠ s.chainHeader) :
    processApdu s m at' nc = ⟨s.discard, .lastChainExpected, 0⟩ := by
  have hleaves : s.leaves (Header.read m at') = true := by
    unfold State.leaves
    rw [hopen, hselect, decide_eq_true hkey]
    rfl
  unfold processApdu
  dsimp only
  rw [if_neg (Bool.eq_false_iff.mp hchains), if_pos ⟨hleaves, hselect⟩]

theorem process_select (hchains : (Header.read m at').chains = false) (hopen : s.isChaining = true)
    (hselect : (Header.read m at').isSelect = true) :
    processApdu s m at' nc = ⟨s.discard, dispatch (Header.read m at') (m.read s.data nc), nc⟩ := by
  have hleaves : s.leaves (Header.read m at') = true := by
    unfold State.leaves
    rw [hopen, hselect]
    rfl
  have hother : ¬ (Header.read m at').isSelect = false := by
    intro hno
    rw [hselect] at hno
    cases hno
  have hclosed : ¬ s.discard.isChaining = true := Bool.false_ne_true
  unfold processApdu
  dsimp only
  rw [if_neg (Bool.eq_false_iff.mp hchains), if_neg (fun hboth => hother hboth.2), if_pos hleaves]
  unfold processLast
  rw [if_neg hclosed]
  rfl

theorem process_ends (hchains : (Header.read m at').chains = false) (hselect : (Header.read m at').isSelect = false)
    (hkey : (Header.read m at').key = s.chainHeader) : processApdu s m at' nc = processLast s m at' nc := by
  have hleaves : s.leaves (Header.read m at') = false := by
    have hsame : decide ((Header.read m at').key ≠ s.chainHeader) = false := decide_eq_false (fun hne => hne hkey)
    unfold State.leaves
    rw [hselect, hsame, Bool.or_false, Bool.and_false]
  unfold processApdu
  dsimp only
  rw [if_neg (Bool.eq_false_iff.mp hchains), hleaves, if_neg (fun hboth => Bool.false_ne_true hboth.1),
    if_neg Bool.false_ne_true]

theorem process_last_long (hchains : (Header.read m at').chains = false) (hopen : s.isChaining = true)
    (hselect : (Header.read m at').isSelect = false) (hkey : (Header.read m at').key = s.chainHeader)
    (hlong : chainBufSize ≤ s.chainBuf.length + nc) :
    processApdu s m at' nc = ⟨s.discard, .wrongLength, 0⟩ := by
  rw [process_ends hchains hselect hkey]
  unfold processLast
  rw [if_pos hopen, if_pos hlong]

theorem process_last (hchains : (Header.read m at').chains = false) (hopen : s.isChaining = true)
    (hselect : (Header.read m at').isSelect = false) (hkey : (Header.read m at').key = s.chainHeader)
    (hshort : ¬ chainBufSize ≤ s.chainBuf.length + nc) :
    processApdu s m at' nc =
      ⟨s.discard, dispatch (Header.read (concatenate m s.data s.chainBuf nc) at') (s.chainBuf ++ m.read s.data nc),
        s.chainBuf.length + nc⟩ := by
  rw [process_ends hchains hselect hkey]
  unfold processLast
  dsimp only
  rw [if_pos hopen, if_neg hshort, concatenate_read]

theorem dispatch_unsupported {h : Header} (data : Bytes) (hcla : h.supported = false) :
    dispatch h data = .claNotSupported := by
  unfold dispatch
  rw [if_pos hcla]

theorem pending_open (hopen : s.isChaining = true) : s.pending = some (s.chainHeader, s.chainBuf) := by
  unfold State.pending
  rw [if_pos hopen]

theorem pending_closed (hopen : s.isChaining = false) : s.pending = none := by
  unfold State.pending
  rw [hopen, if_neg Bool.false_ne_true]

/-- process_apdu does what the chain asks for. -/
theorem process_expected {data : Bytes} (hread : m.read s.data nc = data) (hlen : data.length = nc)
    (hsel : s.isChaining = true → (Header.read m at').chains = false → (Header.read m at').key = s.chainHeader →
      (Header.read m at').isSelect = true → s.chainBuf.length + nc < chainBufSize ∧
        (s.chainBuf = [] ∨ (Header.read m at').supported = false))
    (hkept : s.isChaining = true → (Header.read m at').chains = false → (Header.read m at').key = s.chainHeader →
      (Header.read m at').isSelect = false → s.chainBuf.length + nc < chainBufSize →
        Header.read (concatenate m s.data s.chainBuf nc) at' = Header.read m at') :
    ((processApdu s m at' nc).state.pending, (processApdu s m at' nc).outcome) =
      ((Chaining.step chainBufSize s.pending (!(Header.read m at').chains) (Header.read m at').key data).1,
        verdictOutcome (Header.read m at') data
          (Chaining.step chainBufSize s.pending (!(Header.read m at').chains) (Header.read m at').key data).2) := by
  cases hchains : (Header.read m at').chains with
  | true =>
    have hnotLast : verdictOutcome (Header.read m at') data .mismatch = .lastChainExpected := by
      unfold verdictOutcome
      rw [hchains, if_neg (fun hboth => absurd hboth.1 Bool.noConfusion)]
    rw [Bool.not_true]
    cases hopen : s.isChaining with
    | true =>
      rw [pending_open hopen]
      by_cases hkey : (Header.read m at').key = s.chainHeader
      · rw [hkey]
        by_cases hlong : chainBufSize ≤ s.chainBuf.length + nc
        · rw [process_chains_long hchains (fun _ => hkey) (by rw [if_pos hopen]; exact hlong),
            Chaining.step_tooLong false (by rw [hlen]; exact hlong)]
          rfl
        · rw [process_chains_taken hchains (fun _ => hkey) (by rw [if_pos hopen]; exact hlong),
            Chaining.step_further (by rw [hlen]; omega), if_pos hopen, hread, hkey]
          rfl
      · rw [process_chains_changed hchains hopen hkey, Chaining.step_mismatch false _ _ hkey, hnotLast]
        rfl
    | false =>
      have hclosed : ¬ s.isChaining = true := Bool.eq_false_iff.mp hopen
      rw [pending_closed hopen]
      by_cases hlong : chainBufSize ≤ nc
      · rw [process_chains_long hchains (fun hyes => absurd hyes hclosed)
          (by rw [if_neg hclosed, List.length_nil, Nat.zero_add]; exact hlong),
          Chaining.step_first_long (by rw [hlen]; exact hlong)]
        rfl
      · rw [process_chains_taken hchains (fun hyes => absurd hyes hclosed)
          (by rw [if_neg hclosed, List.length_nil, Nat.zero_add]; exact hlong),
          Chaining.step_first (by rw [hlen]; omega), if_neg hclosed, hread]
        rfl
  | false =>
    rw [Bool.not_false]
    cases hopen : s.isChaining with
    | false =>
      rw [pending_closed hopen, process_idle hchains hopen, Chaining.step_single, hread]
      exact Prod.ext (pending_closed hopen) rfl
    | true =>
      rw [pending_open hopen]
      by_cases hkey : (Header.read m at').key = s.chainHeader
      · cases hselect : (Header.read m at').isSelect with
        | true =>
          -- the parts of a SELECT are lost, so there are none or it is refused
          obtain ⟨hshort, hlost⟩ := hsel hopen hchains hkey hselect
          have hsame : dispatch (Header.read m at') (s.chainBuf ++ data) = dispatch (Header.read m at') data := by
            rcases hlost with hnone | hcla
            · rw [hnone, List.nil_append]
            · rw [dispatch_unsupported _ hcla, dispatch_unsupported _ hcla]
          rw [process_select hchains hopen hselect, hkey, Chaining.step_last (by rw [hlen]; exact hshort), hread]
          exact Prod.ext rfl hsame.symm
        | false =>
          by_cases hlong : chainBufSize ≤ s.chainBuf.length + nc
          · rw [process_last_long hchains hopen hselect hkey hlong, hkey,
              Chaining.step_tooLong true (by rw [hlen]; exact hlong)]
            rfl
          · rw [process_last hchains hopen hselect hkey hlong, hread, hkey,
              Chaining.step_last (by rw [hlen]; omega), hkept hopen hchains hkey hselect (by omega)]
            rfl
      · rw [Chaining.step_mismatch true _ _ hkey]
        cases hselect : (Header.read m at').isSelect with
        | true =>
          rw [process_select hchains hopen hselect, hread]
          unfold verdictOutcome
          rw [if_pos ⟨hchains, hselect⟩]
          rfl
        | false =>
          have hother : ¬ ((Header.read m at').chains = false ∧ (Header.read m at').isSelect = true) := by
            intro hboth
            rw [hselect] at hboth
            cases hboth.2
          rw [process_changed hchains hopen hselect hkey]
          unfold verdictOutcome
          rw [if_neg hother]
          rfl

end Process

/-! A command that comes in. -/

section Arrivals

variable {s : State} {a : Arrival} {data : Bytes}

theorem Arrival.inside (a : Arrival) : a.start + a.length ≤ a.buffer.size := by
  obtain ⟨buffer, start, length, memory, responsePending, placed⟩ := a
  show start + length ≤ buffer.size
  cases buffer with
  | null => exact placed.elim
  | ccidRx itf => exact placed.2
  | hidRx =>
    obtain ⟨hstart, hlength⟩ := placed
    have hsize : Buffer.hidRx.size = 2048 := rfl
    omega
  | msgPacket =>
    obtain ⟨hstart, -, hlength⟩ := placed
    rw [hstart, Nat.zero_add]
    exact hlength
  | otpFrameRx => exact placed.elim

theorem Buffer.size_le (b : Buffer) : b.size ≤ 65535 := by
  cases b with
  | null => decide
  | ccidRx itf => exact (by decide : Hid.usbBufferSize ≤ 65535)
  | hidRx => decide
  | msgPacket => decide
  | otpFrameRx => decide

theorem Arrival.bytes_length (a : Arrival) : a.bytes.length = a.length := window_length

theorem Arrival.bytes_le (a : Arrival) : a.bytes.length ≤ 65535 := by
  have hinside := a.inside
  have hsize := a.buffer.size_le
  rw [a.bytes_length]
  omega

theorem Arrival.bytes_ins (a : Arrival) (h : 4 ≤ a.bytes.length) : a.bytes.getD 1 0 = a.header.ins := by
  have hlt : 1 < (window (a.memory a.buffer) a.start a.length).length := by
    have hlength : 4 ≤ (window (a.memory a.buffer) a.start a.length).length := h
    omega
  have hget : (window (a.memory a.buffer) a.start a.length).getD 1 0 = a.memory a.buffer (a.start + 1) := by
    rw [List.getD_eq_getElem?_getD, List.getElem?_eq_getElem hlt, Option.getD_some, window_getElem]
  exact hget

theorem Iso.length_le {b : Bytes} (h : Iso b data) : 4 ≤ b.length := by
  cases h with
  | case1 hlen => omega
  | case2 le hlen =>
    rw [List.length_append]
    omega
  | case3 lc hlen hne hlc =>
    rw [List.length_append]
    omega
  | case4 lc le hlen hne hlc =>
    rw [List.length_append]
    omega
  | extended2 hi lo hlen =>
    rw [List.length_append]
    omega
  | extended3 hi lo hlen hne hlc =>
    rw [List.length_append]
    omega
  | extended4 hi lo hi' lo' hlen hne hlc =>
    rw [List.length_append]
    omega

theorem Iso.offset_none {b : Bytes} (h : Iso b []) : dataOffset b = none := by
  cases h with
  | case1 hlen =>
    unfold dataOffset
    rw [if_pos (by omega)]
  | case2 le hlen =>
    unfold dataOffset
    rw [List.length_append, List.length_singleton, if_pos (by omega)]
  | case3 lc hlen hne => exact absurd rfl hne
  | case4 lc le hlen hne => exact absurd rfl hne
  | extended2 hi lo hlen =>
    obtain ⟨c, i, p, q, rfl⟩ := header_split hlen
    rfl
  | extended3 hi lo hlen hne => exact absurd rfl hne
  | extended4 hi lo hi' lo' hlen hne => exact absurd rfl hne

theorem arrivalData_some {offset : Nat} (h : dataOffset a.bytes = some offset) :
    arrivalData s a = a.at'.shift offset := by
  unfold arrivalData
  rw [h]

theorem read_data (hiso : Iso a.bytes data) : a.memory.read (arrivalData s a) data.length = data := by
  by_cases hne : data = []
  · subst hne
    rfl
  obtain ⟨offset, hoffset, -, hdata, hroom⟩ := (hiso.parsed a.bytes_le).found hne
  have hbytes : a.bytes = window (a.memory a.buffer) a.start a.length := rfl
  rw [a.bytes_length] at hroom
  rw [hbytes, window_drop _ _ (by omega), window_take _ _ (by omega)] at hdata
  rw [arrivalData_some hoffset]
  exact hdata

theorem receive_iso (hiso : Iso a.bytes data) : ∃ cmd, parse a.bytes = some cmd ∧ cmd.nc = data.length ∧
    cmd.ins = a.header.ins ∧ receive s a =
      if cmd.ins = insGetResponse ∧ a.responsePending = true then ⟨{ s with data := arrivalData s a }, .answered, 0⟩
      else processApdu { s with data := arrivalData s a } a.memory a.at' data.length := by
  obtain ⟨cmd, hparse, hnc, hins⟩ := (hiso.parsed a.bytes_le).parsed
  rw [a.bytes_ins hiso.length_le] at hins
  refine ⟨cmd, hparse, hnc, hins, ?_⟩
  unfold receive
  dsimp only
  rw [hparse]
  dsimp only
  rw [hnc]

theorem receive_none (hparse : parse a.bytes = none) :
    receive s a = ⟨{ s with data := arrivalData s a }, .dropped, 0⟩ := by
  unfold receive
  dsimp only
  rw [hparse]

/-- The handlers are another end than the statuses of the chain. -/
theorem dispatch_cases (h : Header) (message : Bytes) : dispatch h message = .claNotSupported ∨
    dispatch h message = .select message ∨ dispatch h message = .command h message := by
  unfold dispatch
  split_ifs
  · exact .inl rfl
  · exact .inr (.inl rfl)
  · exact .inr (.inr rfl)

theorem dispatch_ne {h : Header} {message : Bytes} {o : Outcome} (hcla : o ≠ .claNotSupported)
    (hselect : ∀ x, o ≠ .select x) (hcommand : ∀ x y, o ≠ .command x y) : dispatch h message ≠ o := by
  rintro rfl
  rcases dispatch_cases h message with heq | heq | heq
  · exact hcla heq
  · exact hselect _ heq
  · exact hcommand _ _ heq

theorem verdict_ne_answered (h : Header) (verdict : Chaining.Verdict Byte) :
    verdictOutcome h data verdict ≠ .answered := by
  have hdispatch : ∀ message, dispatch h message ≠ .answered := fun message =>
    dispatch_ne Outcome.noConfusion (fun _ => Outcome.noConfusion) (fun _ _ => Outcome.noConfusion)
  cases verdict with
  | taken => exact Outcome.noConfusion
  | mismatch =>
    unfold verdictOutcome
    split_ifs
    · exact hdispatch data
    · exact Outcome.noConfusion
  | tooLong => exact Outcome.noConfusion
  | whole message => exact hdispatch message

/-- How process_apdu can end: with a status and the chain gone, with another part, or with a handler that gets the
data of the command or of the whole chain. -/
theorem process_cases (s : State) (m : Memory) (at' : Pointer) (nc : Nat) :
    (∃ o, (o = .lastChainExpected ∨ o = .wrongLength) ∧ processApdu s m at' nc = ⟨s.discard, o, 0⟩) ∨
    (∃ parts, processApdu s m at' nc =
      ⟨{ s with isChaining := true, chainHeader := (Header.read m at').key, chainBuf := parts }, .ok, nc⟩) ∨
    (∃ s', (s' = s ∨ s' = s.discard) ∧
      processApdu s m at' nc = ⟨s', dispatch (Header.read m at') (m.read s.data nc), nc⟩) ∨
    ((s.isChaining = true ∧ (Header.read m at').chains = false ∧ (Header.read m at').key = s.chainHeader) ∧
      (Header.read m at').isSelect = false ∧ s.chainBuf.length + nc < chainBufSize ∧
      ∃ o, o ≠ .dropped ∧ processApdu s m at' nc = ⟨s.discard, o, s.chainBuf.length + nc⟩) := by
  have hdispatch : ∀ h message, dispatch h message ≠ .dropped := fun h message =>
    dispatch_ne Outcome.noConfusion (fun _ => Outcome.noConfusion) (fun _ _ => Outcome.noConfusion)
  cases hchains : (Header.read m at').chains with
  | true =>
    by_cases hchanged : s.isChaining = true ∧ (Header.read m at').key ≠ s.chainHeader
    · exact .inl ⟨_, .inl rfl, process_chains_changed hchains hchanged.1 hchanged.2⟩
    have hkey : s.isChaining = true → (Header.read m at').key = s.chainHeader := by
      intro hopen
      by_contra hne
      exact hchanged ⟨hopen, hne⟩
    by_cases hlong : chainBufSize ≤ (if s.isChaining then s.chainBuf else []).length + nc
    · exact .inl ⟨_, .inr rfl, process_chains_long hchains hkey hlong⟩
    · exact .inr (.inl ⟨_, process_chains_taken hchains hkey hlong⟩)
  | false =>
    cases hopen : s.isChaining with
    | false => exact .inr (.inr (.inl ⟨s, .inl rfl, process_idle hchains hopen⟩))
    | true =>
      cases hselect : (Header.read m at').isSelect with
      | true => exact .inr (.inr (.inl ⟨_, .inr rfl, process_select hchains hopen hselect⟩))
      | false =>
        by_cases hkey : (Header.read m at').key = s.chainHeader
        · by_cases hlong : chainBufSize ≤ s.chainBuf.length + nc
          · exact .inl ⟨_, .inr rfl, process_last_long hchains hopen hselect hkey hlong⟩
          · exact .inr (.inr (.inr ⟨⟨rfl, rfl, hkey⟩, rfl, by omega, _, hdispatch _ _,
              process_last hchains hopen hselect hkey hlong⟩))
        · exact .inl ⟨_, .inl rfl, process_changed hchains hopen hselect hkey⟩

theorem process_ne_dropped (s : State) (m : Memory) (at' : Pointer) (nc : Nat) :
    (processApdu s m at' nc).outcome ≠ .dropped := by
  rcases process_cases s m at' nc with ⟨o, ho, heq⟩ | ⟨parts, heq⟩ | ⟨s', -, heq⟩ | ⟨-, -, -, o, ho, heq⟩
  · rw [heq]
    rcases ho with rfl | rfl
    · exact Outcome.noConfusion
    · exact Outcome.noConfusion
  · rw [heq]
    exact Outcome.noConfusion
  · rw [heq]
    exact dispatch_ne Outcome.noConfusion (fun _ => Outcome.noConfusion) (fun _ _ => Outcome.noConfusion)
  · rw [heq]
    exact ho

/-- process_apdu leaves apdu.data as it is. -/
theorem process_data (s : State) (m : Memory) (at' : Pointer) (nc : Nat) :
    (processApdu s m at' nc).state.data = s.data := by
  rcases process_cases s m at' nc with ⟨o, -, heq⟩ | ⟨parts, heq⟩ | ⟨s', hs', heq⟩ | ⟨-, -, -, o, -, heq⟩
  · rw [heq]
    rfl
  · rw [heq]
  · rw [heq]
    rcases hs' with rfl | rfl
    · rfl
    · rfl
  · rw [heq]
    rfl

theorem lax_taken (hlax : Lax a.bytes) : (parse a.bytes).isSome = true := by
  unfold parse
  dsimp only
  rcases hlax with ⟨hlen, hfour⟩ | ⟨hlen, hfour, hfive, hsix⟩
  · rw [if_neg (by omega), if_neg (by omega), if_neg (by omega), if_neg (by omega), if_neg (by omega),
      if_pos (by omega)]
    rfl
  · have hsix' : (a.bytes.getD (5 + 1) 0).toNat = 0 := hsix
    rw [if_neg (by omega), if_neg (by omega), if_neg (by omega), if_pos (by omega), if_neg (by omega),
      if_neg (by omega), if_pos (by omega)]
    rfl

/-- What apdu_process takes has an outcome. -/
theorem receive_taken {cmd : Command} (hparse : parse a.bytes = some cmd) : (receive s a).outcome ≠ .dropped := by
  unfold receive
  dsimp only
  rw [hparse]
  dsimp only
  by_cases hanswer : cmd.ins = insGetResponse ∧ a.responsePending = true
  · rw [if_pos hanswer]
    exact Outcome.noConfusion
  · rw [if_neg hanswer]
    exact process_ne_dropped _ _ _ _

theorem data_found (hiso : Iso a.bytes data) (hne : data ≠ []) : ∃ offset, dataOffset a.bytes = some offset ∧
    4 ≤ offset ∧ arrivalData s a = a.at'.shift offset ∧ a.start + offset + data.length ≤ a.buffer.size := by
  obtain ⟨offset, hoffset, hfive, -, hroom⟩ := (hiso.parsed a.bytes_le).found hne
  have hinside := a.inside
  rw [a.bytes_length] at hroom
  exact ⟨offset, hoffset, by omega, arrivalData_some hoffset, by omega⟩

theorem Clear.used (h : Clear s a) (hused : (receive s a).used ≠ 0) : ∃ offset, dataOffset a.bytes = some offset ∧
    (receive s a).state.data = a.at'.shift offset ∧ a.start + offset + (receive s a).used ≤ a.buffer.size := by
  cases hparse : parse a.bytes with
  | none =>
    rw [receive_none hparse] at hused
    exact absurd rfl hused
  | some cmd =>
    obtain ⟨data, hiso⟩ := (iso_or_lax (by rw [hparse]; rfl)).resolve_right h.strict
    obtain ⟨cmd', hparse', hnc, -, heq⟩ := receive_iso (s := s) hiso
    obtain rfl : cmd = cmd' := Option.some.inj (hparse.symm.trans hparse')
    rw [heq] at hused ⊢
    by_cases hanswer : cmd.ins = insGetResponse ∧ a.responsePending = true
    · rw [if_pos hanswer] at hused
      exact absurd rfl hused
    rw [if_neg hanswer] at hused ⊢
    rw [process_data]
    have hown : data.length ≠ 0 → ∃ offset, dataOffset a.bytes = some offset ∧
        arrivalData s a = a.at'.shift offset ∧ a.start + offset + data.length ≤ a.buffer.size := by
      intro hlen
      obtain ⟨offset, hoffset, -, hdata, hroom⟩ := data_found (s := s) hiso fun hnil => hlen (by rw [hnil]; rfl)
      exact ⟨offset, hoffset, hdata, hroom⟩
    rcases process_cases { s with data := arrivalData s a } a.memory a.at' data.length with
      ⟨o, -, hcase⟩ | ⟨parts, hcase⟩ | ⟨s', -, hcase⟩ | ⟨hends, hselect, hshort, o, -, hcase⟩
    · rw [hcase] at hused
      exact absurd rfl hused
    · rw [hcase] at hused ⊢
      exact hown hused
    · rw [hcase] at hused ⊢
      exact hown hused
    · rw [hcase] at hused ⊢
      have hlimit : s.chainBuf.length + cmd.nc < chainBufSize := by
        rw [hnc]
        exact hshort
      have htotal : s.chainBuf.length + cmd.nc ≠ 0 := by
        rw [hnc]
        exact hused
      obtain ⟨hpos, hroom⟩ := h.room cmd hparse hends hselect hlimit htotal
      obtain ⟨offset, hoffset, hdata, -⟩ := hown (by omega)
      rw [hoffset, hnc] at hroom
      have hfits : a.start + offset + s.chainBuf.length + data.length ≤ a.buffer.size := hroom
      refine ⟨offset, hoffset, hdata, ?_⟩
      show a.start + offset + (s.chainBuf.length + data.length) ≤ a.buffer.size
      omega

theorem Clear.treated (h : Clear s a) : Treated s a := by
  constructor
  · intro data hiso
    obtain ⟨cmd, hparse, hnc, hins, heq⟩ := receive_iso (s := s) hiso
    rw [heq]
    unfold expected
    by_cases hanswer : cmd.ins = insGetResponse ∧ a.responsePending = true
    · have hclosed : s.isChaining = false := by
        apply Bool.eq_false_iff.mpr
        intro hopen
        exact h.answerable cmd hparse hopen hanswer
      rw [if_pos hanswer, if_pos ⟨hins.symm.trans hanswer.1, hanswer.2, pending_closed hclosed⟩]
      exact Prod.ext (pending_closed hclosed) rfl
    · rw [if_neg hanswer, if_neg fun hand => hanswer ⟨hins.trans hand.1, hand.2.1⟩]
      apply process_expected (read_data hiso) rfl
      · intro hopen hchains hkey hselect
        have hlost := h.select cmd hparse ⟨hopen, hchains, hkey⟩ hselect
        rw [hnc] at hlost
        exact hlost
      · intro hopen hchains hkey hselect hshort
        show Header.read (concatenate a.memory (arrivalData s a) s.chainBuf data.length) a.at' =
          Header.read a.memory a.at'
        have hroom := h.room cmd hparse ⟨hopen, hchains, hkey⟩ hselect
        rw [hnc] at hroom
        by_cases htotal : s.chainBuf.length + data.length = 0
        · have hparts : s.chainBuf = [] := List.length_eq_zero_iff.mp (by omega)
          have hdata : data.length = 0 := by omega
          rw [hparts, hdata, concatenate_nothing]
        · have hpos : 0 < data.length := (hroom hshort htotal).1
          obtain ⟨offset, -, hoffset, hdata, -⟩ := data_found (s := s) hiso (List.ne_nil_of_length_pos hpos)
          rw [hdata]
          exact concatenate_header a.memory a.at' s.chainBuf data.length hoffset
  · intro hno
    cases hparse : parse a.bytes with
    | none =>
      rw [receive_none hparse]
      exact ⟨rfl, rfl⟩
    | some cmd =>
      exact absurd ((iso_or_lax (by rw [hparse]; rfl)).resolve_right h.strict) hno
  · intro hused
    obtain ⟨offset, -, hdata, hroom⟩ := h.used hused
    rw [hdata]
    exact hroom
  · intro hused
    obtain ⟨offset, hoffset, -⟩ := h.used hused
    rw [hoffset]
    rfl

theorem Treated.iso (h : Treated s a) {cmd : Command} (hparse : parse a.bytes = some cmd) :
    ∃ data, Iso a.bytes data := by
  by_contra hno
  exact receive_taken hparse (h.dropped hno).1

theorem Treated.strict (h : Treated s a) : ¬ Lax a.bytes := by
  intro hlax
  obtain ⟨cmd, hparse⟩ := Option.isSome_iff_exists.mp (lax_taken hlax)
  exact hlax.not_iso (h.iso hparse)

theorem Treated.answerable (h : Treated s a) {cmd : Command} (hparse : parse a.bytes = some cmd)
    (hopen : s.isChaining = true) : ¬ (cmd.ins = insGetResponse ∧ a.responsePending = true) := by
  intro hanswer
  obtain ⟨data, hiso⟩ := h.iso hparse
  obtain ⟨cmd', hparse', -, -, heq⟩ := receive_iso (s := s) hiso
  obtain rfl : cmd = cmd' := Option.some.inj (hparse.symm.trans hparse')
  rw [if_pos hanswer] at heq
  have hpending : s.pending ≠ none := by
    rw [pending_open hopen]
    exact Option.some_ne_none _
  have hout := congrArg Prod.snd (h.accepted data hiso)
  unfold expected at hout
  rw [heq, if_neg fun hand => hpending hand.2.2] at hout
  exact verdict_ne_answered _ _ hout.symm

theorem Treated.ends (h : Treated s a) {cmd : Command} (hparse : parse a.bytes = some cmd) (hends : Ends s a) :
    ∃ data, Iso a.bytes data ∧ cmd.nc = data.length ∧
      receive s a = processApdu { s with data := arrivalData s a } a.memory a.at' data.length ∧
      (processApdu { s with data := arrivalData s a } a.memory a.at' data.length).outcome =
        verdictOutcome a.header data
          (Chaining.step chainBufSize (some (s.chainHeader, s.chainBuf)) true s.chainHeader data).2 := by
  obtain ⟨hopen, hchains, hkey⟩ := hends
  obtain ⟨data, hiso⟩ := h.iso hparse
  obtain ⟨cmd', hparse', hnc, hins, heq⟩ := receive_iso (s := s) hiso
  obtain rfl : cmd = cmd' := Option.some.inj (hparse.symm.trans hparse')
  have hno := h.answerable hparse hopen
  rw [if_neg hno] at heq
  refine ⟨data, hiso, hnc, heq, ?_⟩
  have hout := congrArg Prod.snd (h.accepted data hiso)
  unfold expected at hout
  rw [if_neg fun hand => hno ⟨hins.trans hand.1, hand.2.1⟩, heq, pending_open hopen, hchains, hkey] at hout
  exact hout

theorem Treated.select (h : Treated s a) {cmd : Command} (hparse : parse a.bytes = some cmd) (hends : Ends s a)
    (hselect : a.header.isSelect = true) : s.chainBuf.length + cmd.nc < chainBufSize ∧
      (s.chainBuf = [] ∨ a.header.supported = false) := by
  obtain ⟨data, hiso, hnc, -, hout⟩ := h.ends hparse hends
  obtain ⟨hopen, hchains, -⟩ := hends
  -- the code takes the data of the last command alone
  have hcode : processApdu { s with data := arrivalData s a } a.memory a.at' data.length =
      ⟨{ s with data := arrivalData s a }.discard, dispatch a.header (a.memory.read (arrivalData s a) data.length),
        data.length⟩ := process_select hchains hopen hselect
  rw [hcode] at hout
  have hread : a.memory.read (arrivalData s a) data.length = data := read_data hiso
  have hgiven : dispatch a.header data = verdictOutcome a.header data
      (Chaining.step chainBufSize (some (s.chainHeader, s.chainBuf)) true s.chainHeader data).2 := by
    rw [← hout, hread]
  rw [hnc]
  by_cases hlong : chainBufSize ≤ s.chainBuf.length + data.length
  · rw [Chaining.step_tooLong true hlong] at hgiven
    exact absurd hgiven
      (dispatch_ne Outcome.noConfusion (fun _ => Outcome.noConfusion) (fun _ _ => Outcome.noConfusion))
  · refine ⟨by omega, ?_⟩
    rw [Chaining.step_last (by omega)] at hgiven
    have hwhole : dispatch a.header data = dispatch a.header (s.chainBuf ++ data) := hgiven
    by_cases hcla : a.header.supported = false
    · exact .inr hcla
    left
    unfold dispatch at hwhole
    rw [if_neg hcla, if_neg hcla, if_pos hselect, if_pos hselect] at hwhole
    have hsame : data = s.chainBuf ++ data := Outcome.select.inj hwhole
    have hlength := congrArg List.length hsame
    rw [List.length_append] at hlength
    exact List.length_eq_zero_iff.mp (by omega)

theorem Treated.room (h : Treated s a) {cmd : Command} (hparse : parse a.bytes = some cmd) (hends : Ends s a)
    (hselect : a.header.isSelect = false) (hshort : s.chainBuf.length + cmd.nc < chainBufSize)
    (htotal : s.chainBuf.length + cmd.nc ≠ 0) :
    0 < cmd.nc ∧ a.start + (dataOffset a.bytes).getD 0 + s.chainBuf.length + cmd.nc ≤ a.buffer.size := by
  obtain ⟨data, hiso, hnc, heq, -⟩ := h.ends hparse hends
  obtain ⟨hopen, hchains, hkey⟩ := hends
  rw [hnc] at hshort htotal ⊢
  have hlimit : ¬ chainBufSize ≤ s.chainBuf.length + data.length := Nat.not_le.mpr hshort
  have hused : (receive s a).used = s.chainBuf.length + data.length := by
    rw [heq]
    exact congrArg Result.used
      (process_last (s := { s with data := arrivalData s a }) hchains hopen hselect hkey hlimit)
  have hdata : (receive s a).state.data = arrivalData s a := by
    rw [heq, process_data]
  have hfresh := h.fresh (by rw [hused]; exact htotal)
  have hne : data ≠ [] := by
    rintro rfl
    rw [hiso.offset_none] at hfresh
    cases hfresh
  obtain ⟨offset, hoffset, -, hplace, -⟩ := data_found (s := s) hiso hne
  have hinside := h.inside (by rw [hused]; exact htotal)
  rw [hused, hdata, hplace] at hinside
  have hfits : a.start + offset + (s.chainBuf.length + data.length) ≤ a.buffer.size := hinside
  refine ⟨List.length_pos_iff.mpr hne, ?_⟩
  rw [hoffset, Option.getD_some]
  omega

theorem treated_iff (s : State) (a : Arrival) : Treated s a ↔ Clear s a := by
  constructor
  · intro h
    exact ⟨h.strict, fun _ => h.answerable, fun _ => h.select, fun _ => h.room⟩
  · exact Clear.treated

end Arrivals

/-! Runs. -/

/-- In a run every command is treated as ISO 7816 and its chain ask for, with nothing read or written outside the
receive buffer or through an apdu.data that is not its own, exactly when every command is clear. -/
theorem chains_treated_iff (s : State) (is : List Input) :
    Along step TreatedInput s is ↔ Along step ClearInput s is := by
  have hstep : ∀ s, ∀ i ∈ is, True → (TreatedInput s i ↔ ClearInput s i) := by
    intro s i _ _
    cases i with
    | apdu a => exact treated_iff s a
    | otpFrame => exact Iff.rfl
  exact along_iff hstep (fun _ _ _ _ _ => trivial) s trivial

/-! What a whole chain comes to. -/

section Delivery

variable {s : State} {a : Arrival} {data sofar : Bytes} {key : Header}

theorem Treated.continues (h : Treated s a) (hiso : Iso a.bytes data) (hopen : s.pending = some (key, sofar))
    (hkey : a.header.key = key) (hshort : sofar.length + data.length < chainBufSize) :
    (a.header.chains = true → (receive s a).state.pending = some (key, sofar ++ data)) ∧
    (a.header.chains = false → (receive s a).outcome = dispatch a.header (sofar ++ data)) := by
  have hresult := h.accepted data hiso
  unfold expected at hresult
  rw [hopen, if_neg fun hand => Option.some_ne_none _ hand.2.2, hkey] at hresult
  constructor
  · intro hchains
    rw [hchains, Bool.not_true, Chaining.step_further hshort] at hresult
    exact congrArg Prod.fst hresult
  · intro hchains
    rw [hchains, Bool.not_false, Chaining.step_last hshort] at hresult
    exact congrArg Prod.snd hresult

theorem chain_delivered (parts : List (Arrival × Bytes)) {last : Arrival}
    (hparts : ∀ p ∈ parts, Iso p.1.bytes p.2 ∧ p.1.header.chains = true ∧ p.1.header.key = key)
    (hlast : Iso last.bytes data) (hchains : last.header.chains = false) (hkey : last.header.key = key)
    (hopen : s.pending = some (key, sofar))
    (htotal : sofar.length + (parts.map Prod.snd).flatten.length + data.length < chainBufSize)
    (hrun : Along step ClearInput s (parts.map (fun p => Input.apdu p.1) ++ [Input.apdu last])) :
    (receive (run step s (parts.map fun p => .apdu p.1)) last).outcome =
      dispatch last.header (sofar ++ (parts.map Prod.snd).flatten ++ data) := by
  induction parts generalizing s sofar with
  | nil =>
    have hnone : (([] : List (Arrival × Bytes)).map Prod.snd).flatten = [] := rfl
    have hclear : Clear s last := hrun.1
    rw [hnone, List.length_nil, Nat.add_zero] at htotal
    rw [hnone, List.append_nil]
    exact (hclear.treated.continues hlast hopen hkey htotal).2 hchains
  | cons p parts ih =>
    obtain ⟨hiso, hpart, hsame⟩ := hparts p List.mem_cons_self
    have hclear : Clear s p.1 := hrun.1
    rw [List.map_cons, List.flatten_cons, List.length_append] at htotal
    have hnext := (hclear.treated.continues hiso hopen hsame (by omega)).1 hpart
    rw [List.map_cons, List.map_cons, List.flatten_cons, run_cons, ← List.append_assoc]
    apply ih (fun q hq => hparts q (List.mem_cons_of_mem p hq)) hnext
    · rw [List.length_append]
      omega
    · exact hrun.2

end Delivery

/-! Chains that go wrong. -/

/-- A command at the beginning of the CCID receive buffer. -/
def ccidCommand (length : Nat) (memory : Nat → Byte) (h : 10 + length ≤ Hid.usbBufferSize) : Arrival where
  buffer := .ccidRx 0
  start := 10
  length := length
  memory := fun _ => memory
  responsePending := false
  placed := ⟨Nat.le_refl 10, h⟩

/-- 2000 bytes in an extended command with the chaining bit, and 37 in a short one without. -/
def longPart : Arrival :=
  ccidCommand 2007 (fun a =>
    if a = 10 then 0x10 else if a = 11 then 0x02 else if a = 15 then 0x07 else if a = 16 then 0xd0 else 0) (by decide)

def shortEnd : Arrival := ccidCommand 42 (fun a => if a = 11 then 0x02 else if a = 14 then 37 else 0) (by decide)

/-- 100 bytes with the chaining bit, and a command without data. -/
def onePart : Arrival :=
  ccidCommand 105 (fun a => if a = 10 then 0x10 else if a = 11 then 0x02 else if a = 14 then 100 else 0) (by decide)

def emptyEnd : Arrival := ccidCommand 4 (fun a => if a = 11 then 0x02 else 0) (by decide)

/-- Lc is zero, and Le is 5. -/
def zeroLc : Arrival := ccidCommand 6 (fun a => if a = 11 then 0x02 else if a = 15 then 5 else 0) (by decide)

theorem outside_untreated {s : State} {a : Arrival} {p : Pointer} {n : Nat} (hdata : (receive s a).state.data = p)
    (hused : (receive s a).used = n) (hpos : n ≠ 0) (hout : p.buffer.size < p.addr + n) : ¬ Treated s a := by
  intro h
  have hinside := h.inside (by rw [hused]; exact hpos)
  rw [hdata, hused] at hinside
  omega

/-- A chain that chain_buf has room for is written four bytes beyond the receive buffer; an empty last part puts
the chain where the keyboard interface left apdu.data; a command with Le behind a zero Lc is carried out. -/
theorem chain_overruns :
    ((receive (run step {} [.apdu longPart]) shortEnd).state.data = ⟨.ccidRx 0, 15⟩ ∧
      (receive (run step {} [.apdu longPart]) shortEnd).used = 2037 ∧
      ¬ Along step TreatedInput {} [.apdu longPart, .apdu shortEnd]) ∧
    ((receive (run step {} [.apdu onePart, .otpFrame]) emptyEnd).state.data = ⟨.otpFrameRx, 0⟩ ∧
      (receive (run step {} [.apdu onePart, .otpFrame]) emptyEnd).used = 100 ∧
      ¬ Along step TreatedInput {} [.apdu onePart, .otpFrame, .apdu emptyEnd]) ∧
    ((receive {} zeroLc).outcome = .command ⟨0, 0x02, 0, 0⟩ [] ∧ ¬ Along step TreatedInput {} [.apdu zeroLc]) := by
  have hlong : (receive (run step {} [.apdu longPart]) shortEnd).state.data = ⟨.ccidRx 0, 15⟩ ∧
      (receive (run step {} [.apdu longPart]) shortEnd).used = 2037 := by decide +kernel
  have hstale : (receive (run step {} [.apdu onePart, .otpFrame]) emptyEnd).state.data = ⟨.otpFrameRx, 0⟩ ∧
      (receive (run step {} [.apdu onePart, .otpFrame]) emptyEnd).used = 100 := by decide +kernel
  have hzero : (receive {} zeroLc).outcome = .command ⟨0, 0x02, 0, 0⟩ [] := by decide +kernel
  refine ⟨⟨hlong.1, hlong.2, ?_⟩, ⟨hstale.1, hstale.2, ?_⟩, hzero, ?_⟩
  · rintro ⟨-, htreated, -⟩
    exact outside_untreated hlong.1 hlong.2 (by decide) (by decide) htreated
  · rintro ⟨-, -, htreated, -⟩
    exact outside_untreated hstale.1 hstale.2 (by decide) (by decide) htreated
  · rintro ⟨htreated, -⟩
    have hlax : Lax zeroLc.bytes := .inl ⟨by decide +kernel, by decide +kernel⟩
    exact htreated.strict hlax

end KeyWallet.Apdu.Chain
