import KeyWallet.HidTransmit

/-! Long responses in apdu.c. What an answer has no room for stays in the transmit buffer, and the
host fetches it with GET RESPONSE. The status of an answer stands in the place of the two bytes
behind it, which are put aside until the next one. -/
namespace KeyWallet.Apdu

open ByteBuffer
abbrev Word := BitVec 16

def wordBytes (w : Word) : Bytes := [w.extractLsb' 8 8, w.extractLsb' 0 8]

def readWord (m : Nat → Byte) (addr : Nat) : Word := m addr ++ m (addr + 1)

/-- INS of GET RESPONSE. -/
def insGetResponse : Byte := 0xc0

structure Command where
  ins : Byte
  nc : Nat
  ne : Nat
  deriving DecidableEq, Repr

/-- Le, where zero stands for the largest value. -/
def leOr (largest le : Nat) : Nat := if le = 0 then largest else le

/-- The lengths of a command, at the beginning of apdu_process. A command whose lengths are wrong is
dropped. -/
def parse (b : Bytes) : Option Command :=
  let byte (i : Nat) : Nat := (b.getD i 0).toNat
  let word (i : Nat) : Nat := byte i * 256 + byte (i + 1)
  let ins := b.getD 1 0
  if b.length < 4 ∨ 65535 < b.length then none
  else if b.length = 4 then some ⟨ins, 0, 256⟩
  else if b.length = 5 then some ⟨ins, 0, leOr 256 (byte 4)⟩
  else if byte 4 = 0 ∧ 7 ≤ b.length then
    if b.length = 7 then some ⟨ins, 0, leOr 65536 (word 5)⟩
    else if b.length = word 5 + 7 then some ⟨ins, word 5, 0⟩
    else if b.length = word 5 + 9 then some ⟨ins, word 5, leOr 65536 (word (b.length - 2))⟩
    else none
  else if b.length = byte 4 + 5 then some ⟨ins, byte 4, 0⟩
  else if b.length = byte 4 + 6 then some ⟨ins, byte 4, leOr 256 (byte (b.length - 1))⟩
  else none

/-- The transmit buffer of the transport and the variables of apdu.c. `rdata` and `rdataGr` are
addresses in the buffer. -/
structure Card where
  buffer : Nat → Byte
  rdata : Nat
  rlen : Nat := 0
  ne : Nat := 0
  sw : Word := 0
  rdataGr : Nat := 0
  rdataBk : Word := 0
  responsePending : Bool := false

/-- The status 61xx for `left` more bytes. -/
def more (left : Nat) : Word := (0x61 : Byte) ++ (if 256 ≤ left then 0 else BitVec.ofNat 8 left : Byte)

namespace Card

/-- The status for `left` more bytes at `addr`, with the two bytes there put aside. -/
def cut (c : Card) (addr left : Nat) : Card :=
  { c with
    rdataGr := addr
    rdataBk := readWord c.buffer addr
    buffer := blit c.buffer addr (wordBytes (more left)) }

/-- apdu_finish. -/
def finish (c : Card) : Card := { c with buffer := blit c.buffer (c.rdata + c.rlen) (wordBytes c.sw) }

/-- apdu_next, with the size of the answer. -/
def next (c : Card) : Card × Nat :=
  if c.sw ≠ 0 then
    if c.rlen ≤ c.ne then ({ c with responsePending := false }, (c.rlen + 2) % 65536)
    else
      ({ c.cut (c.rdata + c.ne) (c.rlen - c.ne) with
          rlen := c.rlen - c.ne
          responsePending := true }, (c.ne + 2) % 65536)
  else ({ c with responsePending := false }, 0)

/-- apdu_limit_response. -/
def limitResponse (c : Card) (sizeNext maxSize : Nat) : Card × Nat :=
  if c.sw = 0 ∨ maxSize < 2 ∨ sizeNext ≤ maxSize then (c, sizeNext)
  else if c.rlen ≤ maxSize - 2 then (c, sizeNext)
  else
    ({ c.cut (c.rdata + (maxSize - 2)) (c.rlen - (maxSize - 2)) with
        rlen := c.rlen - (maxSize - 2)
        responsePending := true }, maxSize)

end Card

/-- CCID_MAX_XFR_BLOCK_DATA_SIZE. -/
def ccidMax : Nat := Hid.usbBufferSize - 10

/-- ccid_header_t up to its data. -/
def ccidHeader (seq status : Byte) (size : Nat) : Bytes :=
  [0x80, BitVec.ofNat 8 size, BitVec.ofNat 8 (size / 256), 0, 0, 0, seq, status, 0, 0]

/-- What driver_exec_finished_cont_ccid finds when it is called for a command that came in over HID. The number in `seq`
is read through ccid_header, which is NULL before the first message on that interface. -/
structure Slot where
  seq : Option Byte
  status : Byte
  wPtr : Nat
  deriving DecidableEq, Repr

/-- The transport that a command comes in on, with what it puts into its headers. The interfaces of HID and those of the
smart card are numbered from zero each. For two of one number apdu_process calls the functions of both, and `beside` is
what the other one puts into its header: last_req.cid and last_cmd, or the slot. -/
inductive Link where
  | ccid (seq status : Byte) (beside : Option (Hid.Cid × Byte))
  | hid (cid : Hid.Cid) (cmd : Byte) (beside : Option Slot)

/-- A header that goes into the transmit buffer of the other transport, and how many bytes it puts into the queue there.
`known` says that no field of it was read through NULL. -/
structure Echo where
  start : Nat
  header : Bytes
  queued : Nat
  known : Bool
  deriving DecidableEq, Repr

/-- It lies in the buffer. -/
def Echo.Inside (x : Echo) : Prop := x.known = true ∧ x.start + x.header.length ≤ Hid.usbBufferSize

namespace Link

def isCcid : Link → Bool
  | .ccid _ _ _ => true
  | .hid _ _ _ => false

/-- The number of the interface is also one of the other transport. -/
def shares : Link → Bool
  | .ccid _ _ other => other.isSome
  | .hid _ _ other => other.isSome

/-- Where the response is built: behind the header of the transport. -/
def rdata : Link → Nat
  | .ccid _ _ _ => 10
  | .hid _ _ _ => 7

/-- The size of a block, at the beginning of driver_exec_finished_cont_ccid. -/
def limit (c : Card) (sizeNext offset : Nat) : Card × Nat :=
  if offset = 0 then c.limitResponse sizeNext ccidMax else (c, min sizeNext ccidMax)

/-- driver_exec_finished_cont_ccid and driver_exec_finished_cont_hid, with the bytes that the host
gets. Before them the buffer has been sent, and both of its pointers are at its beginning. -/
def execFinishedCont (l : Link) (c : Card) (sizeNext offset : Nat) : Card × Bytes :=
  match l with
  | .ccid seq status _ =>
    let limited := limit c sizeNext offset
    let buffer := blit limited.1.buffer offset (ccidHeader seq status limited.2)
    ({ limited.1 with buffer := buffer }, window buffer (offset + 10) limited.2)
  | .hid cid cmd _ =>
    let s := Hid.Sender.execFinishedCont cid cmd sizeNext offset { buffer := c.buffer }
    -- nothing is sent while the read pointer is not below the write pointer
    ({ c with buffer := s.buffer },
      if s.rPtr < s.wPtr then window s.buffer (s.rPtr + 7) sizeNext else [])

/-- The same function of the other transport, which works on its own transmit buffer. -/
def execFinishedBeside (l : Link) (c : Card) (sizeNext offset : Nat) : Card × Option Echo :=
  match l with
  | .ccid _ _ none => (c, none)
  | .hid _ _ none => (c, none)
  | .ccid _ _ (some (cid, cmd)) =>
    (c, some
      { start := Hid.Sender.headerAt offset
        header := Hid.cidBytes cid ++ [cmd, BitVec.ofNat 8 (sizeNext / 256), BitVec.ofNat 8 sizeNext]
        queued := sizeNext + 7
        known := true })
  | .hid _ _ (some slot) =>
    let limited := limit c sizeNext offset
    (limited.1, some
      { start := slot.wPtr + offset
        header := ccidHeader (slot.seq.getD 0) slot.status limited.2
        queued := limited.2 + 10
        known := slot.seq.isSome })

/-- driver_exec_finished_ccid and driver_exec_finished_hid. -/
def execFinished (l : Link) (c : Card) (sizeNext : Nat) : Card × Bytes :=
  match l with
  | .ccid _ _ _ => l.execFinishedCont c sizeNext 0
  | .hid _ _ _ =>
    if 0 < sizeNext then
      let sent := l.execFinishedCont c sizeNext 7
      ({ sent.1 with sw := 0 }, sent.2)
    else ({ c with sw := 0 }, [])

/-- A command comes in. driver_init_hid clears the first frame of the transmit buffer. -/
def receive (l : Link) (c : Card) : Card :=
  match l with
  | .ccid _ _ _ => { c with rdata := 10 }
  | .hid _ _ _ => { c with rdata := 7, buffer := blit c.buffer 0 (List.replicate 64 0) }

end Link

/-- The end of apdu_thread and the answer that follows: the response of `c` has been built. -/
def answer (l : Link) (c : Card) : Card × Bytes :=
  l.execFinished c.finish.next.1 c.finish.next.2

/-- What becomes of a command: it is dropped, given to the application, or answered from the
response that is left. -/
inductive Outcome where
  | dropped
  | executed
  | answered (block : Bytes) (beside : Option Echo)
  deriving DecidableEq, Repr

/-- apdu_process behind its parser. -/
def process (l : Link) (c : Card) (cmd : Command) : Card × Outcome :=
  let c := { c with ne := cmd.ne }
  if cmd.ins = insGetResponse then
    if c.responsePending = false then ({ c with rdataGr := c.rdata }, .executed)
    else
      let c := { c with buffer := blit c.buffer c.rdataGr (wordBytes c.rdataBk) }
      if c.rlen ≤ c.ne then
        let sent := l.execFinishedCont c ((c.rlen + 2) % 65536) (c.rdataGr - c.rdata)
        let echo := l.execFinishedBeside sent.1 ((c.rlen + 2) % 65536) (c.rdataGr - c.rdata)
        ({ echo.1 with
            sw := 0
            rlen := 0
            rdataGr := echo.1.rdata
            responsePending := false }, .answered sent.2 echo.2)
      else
        let here := c.rdataGr
        let c := c.cut (c.rdataGr + c.ne) (c.rlen - c.ne)
        let sent := l.execFinishedCont c ((c.ne + 2) % 65536) (here - c.rdata)
        let echo := l.execFinishedBeside sent.1 ((c.ne + 2) % 65536) (here - c.rdata)
        ({ echo.1 with rlen := echo.1.rlen - c.ne, responsePending := true }, .answered sent.2 echo.2)
  else ({ c with sw := 0, rlen := 0, rdataGr := c.rdata, responsePending := false }, .executed)

/-- apdu_process, for a command as it comes in. -/
def apduProcess (l : Link) (c : Card) (command : Bytes) : Card × Outcome :=
  match parse command with
  | none => (l.receive c, .dropped)
  | some cmd => process l (l.receive c) cmd

/-- Answers, what went to the other transport with them, and what is left. -/
structure Fetched where
  blocks : List Bytes
  beside : List Echo
  card : Card

/-- The answers to commands, until one of them is given to the application. -/
def fetch (c : Card) : List (Link × Bytes) → Fetched
  | [] => ⟨[], [], c⟩
  | (l, command) :: rest =>
    match apduProcess l c command with
    | (c', .dropped) => fetch c' rest
    | (c', .executed) => ⟨[], [], c'⟩
    | (c', .answered block echo) =>
      ⟨block :: (fetch c' rest).blocks, echo.toList ++ (fetch c' rest).beside, (fetch c' rest).card⟩

/-! The bytes that are put aside. -/

theorem wordBytes_length (w : Word) : (wordBytes w).length = 2 := rfl

theorem wordBytes_pair (a b : Byte) : wordBytes (a ++ b) = [a, b] := by
  have hhigh : (a ++ b : Word).extractLsb' 8 8 = a := by
    apply BitVec.eq_of_getLsbD_eq
    intro i hi
    simp only [BitVec.getLsbD_extractLsb', BitVec.getLsbD_append]
    grind
  have hlow : (a ++ b : Word).extractLsb' 0 8 = b := by
    apply BitVec.eq_of_getLsbD_eq
    intro i hi
    simp only [BitVec.getLsbD_extractLsb', BitVec.getLsbD_append]
    grind
  unfold wordBytes
  rw [hhigh, hlow]

theorem wordBytes_readWord (m : Nat → Byte) (addr : Nat) :
    wordBytes (readWord m addr) = window m addr 2 :=
  wordBytes_pair (m addr) (m (addr + 1))

theorem window_restored (m : Nat → Byte) (addr : Nat) (status : Word) (n : Nat) :
    window (blit (blit m addr (wordBytes status)) addr (wordBytes (readWord m addr))) addr n =
      window m addr n := by
  apply window_congr
  intro i _
  by_cases hi : i < 2
  · -- the two bytes themselves
    have hin : i < (window m addr 2).length := by rw [window_length]; exact hi
    rw [wordBytes_readWord, blit_inside hin, window_getElem hin]
  · rw [blit_behind (by rw [wordBytes_length]; omega), blit_behind (by rw [wordBytes_length]; omega)]

/-- A response behind the place where the next bytes are taken from: `rest` and the status word. -/
structure Left (c : Card) (rest : Bytes) (sw : Word) : Prop where
  pending : c.responsePending = true
  rlen : c.rlen = rest.length
  room : 10 ≤ c.rdataGr
  short : rest.length + 2 < 65536
  bytes : window (blit c.buffer c.rdataGr (wordBytes c.rdataBk)) c.rdataGr (rest.length + 2) =
    rest ++ wordBytes sw

theorem window_status {m : Nat → Byte} {addr : Nat} {bytes : Bytes} {sw : Word} {k : Nat}
    (h : window m addr (bytes.length + 2) = bytes ++ wordBytes sw) (hk : k ≤ bytes.length)
    (status : Word) :
    window (blit m (addr + k) (wordBytes status)) addr (k + 2) = bytes.take k ++ wordBytes status := by
  have hstatus := window_blit_append m addr k (wordBytes status)
  rw [wordBytes_length] at hstatus
  rw [hstatus]
  have htake : window m addr k = bytes.take k := by
    rw [← window_take m addr (show k ≤ bytes.length + 2 by omega), h,
      List.take_append_of_le_length hk]
  rw [htake]

theorem Left.of_cut {c : Card} {m : Nat → Byte} {addr k : Nat} {rest : Bytes} {sw : Word}
    (status : Word) (hbytes : window m addr (rest.length + 2) = rest ++ wordBytes sw)
    (hk : k ≤ rest.length) (hshort : rest.length + 2 < 65536) (hroom : 10 ≤ addr)
    (hpending : c.responsePending = true) (hrlen : c.rlen = rest.length - k)
    (hgr : c.rdataGr = addr + k) (hbk : c.rdataBk = readWord m (addr + k))
    (hbuffer : ∀ a, addr ≤ a → c.buffer a = blit m (addr + k) (wordBytes status) a) :
    Left c (rest.drop k) sw := by
  refine ⟨hpending, by rw [hrlen, List.length_drop], by omega, by rw [List.length_drop]; omega, ?_⟩
  rw [hgr, hbk, List.length_drop]
  calc
    window (blit c.buffer (addr + k) (wordBytes (readWord m (addr + k)))) (addr + k)
          (rest.length - k + 2) =
        window (blit (blit m (addr + k) (wordBytes status)) (addr + k)
          (wordBytes (readWord m (addr + k)))) (addr + k) (rest.length - k + 2) := by
      -- the header lies before the bytes
      apply window_congr
      intro i _
      have hsame := hbuffer (addr + k + i) (by omega)
      unfold blit at hsame ⊢
      rw [hsame]
    _ = window m (addr + k) (rest.length - k + 2) := window_restored m (addr + k) status _
    _ = (window m addr (rest.length + 2)).drop k := by
      rw [window_drop m addr (by omega)]
      congr 1
      omega
    _ = rest.drop k ++ wordBytes sw := by
      rw [hbytes, List.drop_append_of_le_length hk]

/-! One answer over CCID. -/

theorem ccidHeader_length (seq status : Byte) (size : Nat) :
    (ccidHeader seq status size).length = 10 := rfl

theorem limitResponse_small {c : Card} {size max : Nat} (h : size ≤ max) :
    c.limitResponse size max = (c, size) := by
  unfold Card.limitResponse
  rw [if_pos (.inr (.inr h))]

variable {seq status : Byte} {other : Option (Hid.Cid × Byte)}

theorem execFinishedCont_ccid (seq status : Byte) (other : Option (Hid.Cid × Byte)) (c : Card) {size offset : Nat}
    (hsize : size ≤ ccidMax) :
    (Link.ccid seq status other).execFinishedCont c size offset =
      ({ c with buffer := blit c.buffer offset (ccidHeader seq status size) },
        window c.buffer (offset + 10) size) := by
  have hlimited : Link.limit c size offset = (c, size) := by
    unfold Link.limit
    split_ifs
    · exact limitResponse_small hsize
    · rw [Nat.min_eq_left hsize]
  have hsent : window (blit c.buffer offset (ccidHeader seq status size)) (offset + 10) size =
      window c.buffer (offset + 10) size :=
    window_blit_apart _ (.inr (Nat.le_of_eq (by rw [ccidHeader_length])))
  dsimp only [Link.execFinishedCont]
  rw [hlimited]
  dsimp only
  rw [hsent]

/-- Where the header of the other transport goes, on the way back to the host over CCID. -/
theorem execFinishedBeside_ccid (c : Card) (size offset : Nat) :
    ((Link.ccid seq status other).execFinishedBeside c size offset).1 = c ∧
      ((∀ x ∈ ((Link.ccid seq status other).execFinishedBeside c size offset).2, x.Inside) ↔
        (other.isSome = true → Hid.Sender.headerAt offset + 7 ≤ Hid.usbBufferSize)) := by
  cases other with
  | none => exact ⟨rfl, fun _ h => (Bool.false_ne_true h).elim, fun _ x hx => by cases hx⟩
  | some target =>
    refine ⟨rfl, ?_, ?_⟩
    · intro h _
      exact (h _ rfl).2
    · intro h x hx
      have hhead := h rfl
      rw [← Option.some.inj hx]
      exact ⟨rfl, hhead⟩

/-- It is inside where the offset is not taken below zero. -/
def Clear (shares : Bool) (offset : Nat) : Prop := shares = true → 7 ≤ offset ∧ offset ≤ Hid.usbBufferSize

theorem Clear.inside {offset : Nat} (h : Clear other.isSome offset) (c : Card) (size : Nat) :
    ∀ x ∈ ((Link.ccid seq status other).execFinishedBeside c size offset).2, x.Inside := by
  apply (execFinishedBeside_ccid c size offset).2.mpr
  intro hshares
  obtain ⟨hlow, hhigh⟩ := h hshares
  unfold Hid.Sender.headerAt
  have hsize : Hid.usbBufferSize = 2048 := rfl
  omega

/-- The status that goes with an answer: `sw` with the last one, else how much is left. -/
def statusAfter (left : Nat) (sw : Word) : Word := if left = 0 then sw else more left

theorem process_ccid (seq status : Byte) {c : Card} {rest : Bytes} {sw : Word} (h : Left c rest sw)
    {cmd : Command} (hins : cmd.ins = insGetResponse)
    (hfits : min cmd.ne rest.length + 2 ≤ ccidMax) (hclear : Clear other.isSome (c.rdataGr - 10)) :
    ∃ c' echo, process (.ccid seq status other) ((Link.ccid seq status other).receive c) cmd =
        (c', .answered (rest.take cmd.ne ++
          wordBytes (statusAfter (rest.length - cmd.ne) sw)) echo) ∧
      (∀ x ∈ echo, x.Inside) ∧
      if rest.length ≤ cmd.ne then c'.responsePending = false
      else Left c' (rest.drop cmd.ne) sw ∧ c'.rdataGr = c.rdataGr + cmd.ne := by
  have hshort := h.short
  have hroom := h.room
  have hoffset : c.rdataGr - 10 + 10 = c.rdataGr := by omega
  unfold process
  dsimp only [Link.receive]
  rw [if_pos hins, if_neg (by rw [h.pending]; decide)]
  by_cases hlast : rest.length ≤ cmd.ne
  · have hsize : (c.rlen + 2) % 65536 = rest.length + 2 := by
      rw [h.rlen, Nat.mod_eq_of_lt hshort]
    have hblock : rest.length + 2 ≤ ccidMax := by omega
    rw [if_pos (show c.rlen ≤ cmd.ne by rw [h.rlen]; exact hlast), hsize,
      execFinishedCont_ccid seq status other _ hblock]
    refine ⟨_, _, congrArg (fun block => (_, Outcome.answered block _)) ?_, hclear.inside _ _,
      by rw [if_pos hlast]⟩
    dsimp only
    rw [hoffset, h.bytes, List.take_of_length_le hlast, statusAfter, if_pos (by omega)]
  · have hsize : (cmd.ne + 2) % 65536 = cmd.ne + 2 := Nat.mod_eq_of_lt (by omega)
    have hblock : cmd.ne + 2 ≤ ccidMax := by omega
    have hstatus : statusAfter (rest.length - cmd.ne) sw = more (rest.length - cmd.ne) :=
      if_neg (by omega)
    rw [if_neg (show ¬ c.rlen ≤ cmd.ne by rw [h.rlen]; exact hlast)]
    dsimp only [Card.cut]
    rw [hsize, execFinishedCont_ccid seq status other _ hblock, (execFinishedBeside_ccid _ _ _).1]
    refine ⟨_, _, congrArg (fun block => (_, Outcome.answered block _)) ?_, hclear.inside _ _, ?_⟩
    · dsimp only
      rw [hoffset, h.rlen, hstatus, window_status h.bytes (by omega)]
    · rw [if_neg hlast]
      refine ⟨Left.of_cut (more (c.rlen - cmd.ne)) h.bytes (by omega) hshort hroom rfl ?_ rfl rfl ?_, rfl⟩
      · dsimp only
        rw [h.rlen]
      · intro a ha
        dsimp only
        exact blit_behind (by rw [ccidHeader_length]; omega)

/-! All answers. -/

/-- The blocks carry the bytes one part after the other, each with its status; the flag says that
the last one is among them. -/
inductive Carries (sw : Word) : Bytes → List Bytes → Bool → Prop
  | pause (rest : Bytes) : Carries sw rest [] false
  | last (rest : Bytes) : Carries sw rest [rest ++ wordBytes sw] true
  | part {rest : Bytes} {k : Nat} {blocks : List Bytes} {ended : Bool} (hk : k < rest.length)
      (h : Carries sw (rest.drop k) blocks ended) :
      Carries sw rest ((rest.take k ++ wordBytes (more (rest.length - k))) :: blocks) ended

/-- A command that asks for more, over the same interface. -/
def Asks (l : Link) (request : Link × Bytes) : Prop :=
  (request.1.isCcid = l.isCcid ∧ request.1.shares = l.shares) ∧
    ∃ cmd, parse request.2 = some cmd ∧ cmd.ins = insGetResponse

/-- Each of the answers fits in a block, `offset` bytes into the response, and leaves the other transport alone. -/
def Fits (shares : Bool) : Nat → Nat → List (Link × Bytes) → Prop
  | _, _, [] => True
  | offset, left, (_, command) :: rest => ∀ cmd, parse command = some cmd →
      min cmd.ne left + 2 ≤ ccidMax ∧ Clear shares offset ∧
        (cmd.ne < left → Fits shares (offset + cmd.ne) (left - cmd.ne) rest)

theorem fetch_done {l : Link} {requests : List (Link × Bytes)} (hasks : ∀ r ∈ requests, Asks l r)
    {c : Card} (hc : c.responsePending = false) :
    (fetch c requests).blocks = [] ∧ (fetch c requests).beside = [] ∧
      (fetch c requests).card.responsePending = false := by
  cases requests with
  | nil => exact ⟨rfl, rfl, hc⟩
  | cons request rest =>
    obtain ⟨l', command⟩ := request
    obtain ⟨-, cmd, hparse, hins⟩ := hasks _ List.mem_cons_self
    have hpending : (l'.receive c).responsePending = false := by
      cases l' <;> exact hc
    have hprocess : apduProcess l' c command =
        ({ l'.receive c with ne := cmd.ne, rdataGr := (l'.receive c).rdata }, .executed) := by
      unfold apduProcess process
      dsimp only at hparse
      rw [hparse]
      dsimp only
      rw [if_pos hins, if_pos hpending]
    unfold fetch
    rw [hprocess]
    exact ⟨rfl, rfl, hpending⟩

theorem fetch_ccid_cons {sw : Word} {c : Card} {rest : Bytes} (h : Left c rest sw)
    {l : Link} {command : Bytes} {requests : List (Link × Bytes)}
    (hasks : ∀ r ∈ (l, command) :: requests, Asks (.ccid seq status other) r)
    (hfits : Fits other.isSome (c.rdataGr - 10) rest.length ((l, command) :: requests)) :
    ∃ c' cmd echo, parse command = some cmd ∧
      fetch c ((l, command) :: requests) =
        ⟨(rest.take cmd.ne ++ wordBytes (statusAfter (rest.length - cmd.ne) sw)) ::
          (fetch c' requests).blocks, echo ++ (fetch c' requests).beside, (fetch c' requests).card⟩ ∧
      (∀ x ∈ echo, x.Inside) ∧ (∀ r ∈ requests, Asks (.ccid seq status other) r) ∧
      if rest.length ≤ cmd.ne then c'.responsePending = false
      else Left c' (rest.drop cmd.ne) sw ∧
        Fits other.isSome (c'.rdataGr - 10) (rest.drop cmd.ne).length requests := by
  obtain ⟨⟨hccid, hshares⟩, cmd, hparse, hins⟩ := hasks _ List.mem_cons_self
  obtain ⟨hroom, hclear, hrest⟩ := hfits cmd hparse
  have hbehind := h.room
  cases l with
  | hid cid hidCmd slot => cases hccid
  | ccid seq' status' other' =>
    dsimp only [Link.shares] at hshares
    rw [← hshares] at hclear
    obtain ⟨c', echo, hanswer, hinside, hafter⟩ := process_ccid seq' status' h hins hroom hclear
    have hprocess : apduProcess (.ccid seq' status' other') c command = (c', .answered (rest.take cmd.ne ++
        wordBytes (statusAfter (rest.length - cmd.ne) sw)) echo) := by
      unfold apduProcess
      dsimp only at hparse
      rw [hparse]
      exact hanswer
    refine ⟨c', cmd, echo.toList, hparse, by rw [fetch, hprocess], ?_,
      fun r hr => hasks r (List.mem_cons_of_mem _ hr), ?_⟩
    · intro x hx
      exact hinside x (Option.mem_toList.mp hx)
    by_cases hlast : rest.length ≤ cmd.ne
    · rw [if_pos hlast] at hafter ⊢
      exact hafter
    · rw [if_neg hlast] at hafter ⊢
      obtain ⟨hleft, hgr⟩ := hafter
      refine ⟨hleft, ?_⟩
      rw [List.length_drop, hgr, show c.rdataGr + cmd.ne - 10 = c.rdataGr - 10 + cmd.ne by omega]
      exact hrest (by omega)

theorem fetch_ccid {sw : Word} :
    ∀ {requests : List (Link × Bytes)} {c : Card} {rest : Bytes}, Left c rest sw →
      (∀ r ∈ requests, Asks (.ccid seq status other) r) →
      Fits other.isSome (c.rdataGr - 10) rest.length requests →
      Carries sw rest (fetch c requests).blocks (!(fetch c requests).card.responsePending) ∧
        ∀ x ∈ (fetch c requests).beside, x.Inside := by
  intro requests
  induction requests with
  | nil =>
    intro c rest h _ _
    have hended : (!(fetch c []).card.responsePending) = false := by
      dsimp only [fetch]
      rw [h.pending]
      rfl
    rw [hended]
    exact ⟨.pause rest, fun x hx => by cases hx⟩
  | cons request requests ih =>
    intro c rest h hasks hfits
    obtain ⟨l', command⟩ := request
    obtain ⟨c', cmd, echo, -, hfetch, hinside, hrequests, hafter⟩ := fetch_ccid_cons h hasks hfits
    rw [hfetch]
    by_cases hlast : rest.length ≤ cmd.ne
    · rw [if_pos hlast] at hafter
      obtain ⟨hnone, hquiet, hdone⟩ := fetch_done hrequests hafter
      rw [hnone, hquiet, hdone, List.take_of_length_le hlast, statusAfter, if_pos (by omega), List.append_nil]
      exact ⟨.last rest, hinside⟩
    · rw [if_neg hlast] at hafter
      obtain ⟨hmore, hbehind⟩ := ih hafter.1 hrequests hafter.2
      rw [statusAfter, if_neg (by omega)]
      exact ⟨.part (by omega) hmore, List.forall_mem_append.mpr ⟨hinside, hbehind⟩⟩

/-- How many bytes the requests ask for together. -/
def asked : List (Link × Bytes) → Nat
  | [] => 0
  | (_, command) :: rest => ((parse command).map Command.ne).getD 0 + asked rest

theorem fetch_ccid_over {sw : Word} :
    ∀ {requests : List (Link × Bytes)} {c : Card} {rest : Bytes}, Left c rest sw → 0 < rest.length →
      (∀ r ∈ requests, Asks (.ccid seq status other) r) →
      Fits other.isSome (c.rdataGr - 10) rest.length requests →
      ((fetch c requests).card.responsePending = false ↔ rest.length ≤ asked requests) := by
  intro requests
  induction requests with
  | nil =>
    intro c rest h hpos _ _
    dsimp only [fetch, asked]
    rw [h.pending]
    constructor
    · intro hfalse
      cases hfalse
    · intro hzero
      omega
  | cons request requests ih =>
    intro c rest h hpos hasks hfits
    obtain ⟨l', command⟩ := request
    obtain ⟨c', cmd, echo, hparse, hfetch, -, hrequests, hafter⟩ := fetch_ccid_cons h hasks hfits
    have hasked : asked ((l', command) :: requests) = cmd.ne + asked requests := by
      dsimp only [asked]
      rw [hparse]
      rfl
    rw [hfetch, hasked]
    by_cases hlast : rest.length ≤ cmd.ne
    · rw [if_pos hlast] at hafter
      have hdone := (fetch_done hrequests hafter).2.2
      exact ⟨fun _ => by omega, fun _ => hdone⟩
    · rw [if_neg hlast] at hafter
      have hmore := ih hafter.1 (by rw [List.length_drop]; omega) hrequests hafter.2
      rw [List.length_drop] at hmore
      exact hmore.trans ⟨fun hle => by omega, fun hle => by omega⟩

/-- The response lies behind the header, with a status word. -/
structure Loaded (l : Link) (c : Card) (data : Bytes) : Prop where
  rdata : c.rdata = l.rdata
  rlen : c.rlen = data.length
  bytes : window c.buffer l.rdata data.length = data
  sw : c.sw ≠ 0
  short : data.length + 9 < 65536

theorem Loaded.finished {l : Link} {c : Card} {data : Bytes} (h : Loaded l c data) :
    window c.finish.buffer l.rdata (data.length + 2) = data ++ wordBytes c.sw := by
  dsimp only [Card.finish]
  rw [h.rdata, h.rlen]
  have happend := window_blit_append c.buffer l.rdata data.length (wordBytes c.sw)
  rw [wordBytes_length] at happend
  rw [happend, h.bytes]

/-- apdu_next for a response that Le has room for. -/
theorem Loaded.next_whole {l : Link} {c : Card} {data : Bytes} (h : Loaded l c data)
    (hne : data.length ≤ c.ne) :
    c.finish.next = ({ c.finish with responsePending := false }, data.length + 2) := by
  have hshort := h.short
  have hrlen : c.finish.rlen = data.length := h.rlen
  have hsize : (c.finish.rlen + 2) % 65536 = data.length + 2 := by
    rw [hrlen, Nat.mod_eq_of_lt (by omega)]
  unfold Card.next
  rw [if_pos (show c.finish.sw ≠ 0 from h.sw),
    if_pos (show c.finish.rlen ≤ c.finish.ne by rw [hrlen]; exact hne), hsize]

/-- apdu_next for a longer one. -/
theorem Loaded.next_part {l : Link} {c : Card} {data : Bytes} (h : Loaded l c data)
    (hne : c.ne < data.length) :
    c.finish.next = ({ c.finish.cut (l.rdata + c.ne) (data.length - c.ne) with
      rlen := data.length - c.ne
      responsePending := true }, c.ne + 2) := by
  have hshort := h.short
  have hrlen : c.finish.rlen = data.length := h.rlen
  have hne' : c.finish.ne = c.ne := rfl
  have hsize : (c.finish.ne + 2) % 65536 = c.ne + 2 := Nat.mod_eq_of_lt (by omega)
  unfold Card.next
  rw [if_pos (show c.finish.sw ≠ 0 from h.sw),
    if_neg (show ¬ c.finish.rlen ≤ c.finish.ne by rw [hrlen, hne']; omega), hsize, hrlen,
    show c.finish.rdata = l.rdata from h.rdata, hne']

/-- How many bytes the first answer carries over CCID, if there are as many. -/
def firstRoom (ne : Nat) : Nat := min ne (ccidMax - 2)

/-- apdu_limit_response for a response that Le has room for and the block has not. -/
theorem Loaded.limit {c : Card} {data : Bytes} (h : Loaded (.ccid seq status other) c data)
    (hlong : ccidMax < data.length + 2) (pending : Bool) :
    Card.limitResponse { c.finish with responsePending := pending } (data.length + 2) ccidMax =
      ({ c.finish.cut (10 + (ccidMax - 2)) (data.length - (ccidMax - 2)) with
        rlen := data.length - (ccidMax - 2)
        responsePending := true }, ccidMax) := by
  have hrlen : c.finish.rlen = data.length := h.rlen
  have hrdata : c.finish.rdata = 10 := h.rdata
  have hmax : 2 ≤ ccidMax := by decide
  have hguard : ¬ (c.finish.sw = 0 ∨ ccidMax < 2 ∨ data.length + 2 ≤ ccidMax) := by
    intro hor
    obtain hzero | hsmall | hroom := hor
    · exact h.sw hzero
    · omega
    · omega
  unfold Card.limitResponse
  rw [if_neg hguard, if_neg (show ¬ c.finish.rlen ≤ ccidMax - 2 by rw [hrlen]; omega)]
  dsimp only [Card.cut]
  rw [hrlen, hrdata]

theorem answer_ccid {c : Card} {data : Bytes} (h : Loaded (.ccid seq status other) c data)
    (hfits : data.length ≤ c.ne ∨ c.ne + 2 ≤ ccidMax) :
    (answer (.ccid seq status other) c).2 = data.take (firstRoom c.ne) ++
        wordBytes (statusAfter (data.length - firstRoom c.ne) c.sw) ∧
      if data.length ≤ firstRoom c.ne then
        (answer (.ccid seq status other) c).1.responsePending = false
      else Left (answer (.ccid seq status other) c).1 (data.drop (firstRoom c.ne)) c.sw ∧
        (answer (.ccid seq status other) c).1.rdataGr = 10 + firstRoom c.ne := by
  have hbytes := h.finished
  have hshort := h.short
  have hmax : 2 ≤ ccidMax := by decide
  have hroom : firstRoom c.ne = min c.ne (ccidMax - 2) := rfl
  unfold answer
  dsimp only [Link.execFinished]
  dsimp only [Link.rdata] at hbytes
  by_cases hwhole : data.length ≤ c.ne
  · rw [h.next_whole hwhole]
    dsimp only
    by_cases hblock : data.length + 2 ≤ ccidMax
    · -- the whole response
      have hall : data.length ≤ firstRoom c.ne := by omega
      rw [execFinishedCont_ccid seq status other _ hblock, if_pos hall]
      refine ⟨?_, rfl⟩
      dsimp only
      rw [Nat.zero_add, hbytes, List.take_of_length_le hall, statusAfter, if_pos (by omega)]
    · -- as much as the block has room for
      have hk : firstRoom c.ne = ccidMax - 2 := by omega
      have hstatus : statusAfter (data.length - (ccidMax - 2)) c.sw =
          more (data.length - (ccidMax - 2)) := if_neg (by omega)
      dsimp only [Link.execFinishedCont, Link.limit]
      rw [if_pos rfl, h.limit (by omega), hk, hstatus, if_neg (by omega)]
      dsimp only [Card.cut]
      constructor
      · rw [window_blit_apart _ (.inr (Nat.le_of_eq (by rw [ccidHeader_length]))), Nat.zero_add]
        have hsent := window_status hbytes (show ccidMax - 2 ≤ data.length by omega)
          (more (data.length - (ccidMax - 2)))
        rw [show ccidMax - 2 + 2 = ccidMax by omega] at hsent
        exact hsent
      · refine ⟨Left.of_cut (more (data.length - (ccidMax - 2))) hbytes (by omega) (by omega)
          (by omega) rfl rfl rfl rfl ?_, rfl⟩
        intro a ha
        dsimp only
        exact blit_behind (by rw [ccidHeader_length]; omega)
  · -- as much as Le asks for
    have hk : firstRoom c.ne = c.ne := by omega
    have hstatus : statusAfter (data.length - c.ne) c.sw = more (data.length - c.ne) :=
      if_neg (by omega)
    rw [h.next_part (by omega), hk, hstatus, if_neg hwhole]
    dsimp only [Card.cut, Link.rdata]
    rw [execFinishedCont_ccid seq status other _ (by omega)]
    dsimp only
    constructor
    · rw [Nat.zero_add]
      exact window_status hbytes (by omega) _
    · refine ⟨Left.of_cut (more (data.length - c.ne)) hbytes (by omega) (by omega) (by omega) rfl rfl
        rfl rfl ?_, rfl⟩
      intro a ha
      dsimp only
      exact blit_behind (by rw [ccidHeader_length]; omega)

/-! One answer over HID. -/

variable {slot : Option Slot}

theorem execFinished_hid (cid : Hid.Cid) (cmd : Byte) (c : Card) {size : Nat} (hpos : 0 < size)
    (hsize : size + 7 < 65536) :
    ((Link.hid cid cmd slot).execFinished c size).2 = window c.buffer 7 size ∧
      ((Link.hid cid cmd slot).execFinished c size).1.responsePending = c.responsePending := by
  have hread : (Hid.Sender.execFinishedCont cid cmd size 7 { buffer := c.buffer }).rPtr = 0 := rfl
  have hwrite : (Hid.Sender.execFinishedCont cid cmd size 7 { buffer := c.buffer }).wPtr = size + 7 := by
    show (0 + (size + 7) + 0) % 65536 = size + 7
    omega
  have hbuffer : window (Hid.Sender.execFinishedCont cid cmd size 7 { buffer := c.buffer }).buffer 7
      size = window c.buffer 7 size := by
    rw [Hid.execFinishedCont_buffer]
    exact window_blit_apart _ (.inr (Nat.le_refl 7))
  dsimp only [Link.execFinished]
  rw [if_pos hpos]
  refine ⟨?_, rfl⟩
  dsimp only [Link.execFinishedCont]
  rw [hread, hwrite, if_pos (by omega), Nat.zero_add, hbuffer]

theorem answer_hid {c : Card} {data : Bytes} {cid : Hid.Cid} {cmd : Byte}
    (h : Loaded (.hid cid cmd slot) c data) :
    (answer (.hid cid cmd slot) c).2 = data.take c.ne ++
        wordBytes (statusAfter (data.length - c.ne) c.sw) ∧
      ((answer (.hid cid cmd slot) c).1.responsePending = false ↔ data.length ≤ c.ne) := by
  have hbytes := h.finished
  have hshort := h.short
  unfold answer
  by_cases hwhole : data.length ≤ c.ne
  · rw [h.next_whole hwhole]
    obtain ⟨hsent, hpending⟩ := execFinished_hid cid cmd
      { c.finish with responsePending := false } (show 0 < data.length + 2 by omega) (by omega)
    dsimp only at hsent hpending ⊢
    rw [hsent, hpending, List.take_of_length_le hwhole, statusAfter, if_pos (by omega)]
    exact ⟨hbytes, fun _ => hwhole, fun _ => rfl⟩
  · rw [h.next_part (by omega)]
    obtain ⟨hsent, hpending⟩ := execFinished_hid cid cmd
      { c.finish.cut (7 + c.ne) (data.length - c.ne) with
        rlen := data.length - c.ne
        responsePending := true } (show 0 < c.ne + 2 by omega) (by omega)
    dsimp only [Link.rdata] at hsent hpending ⊢
    rw [hsent, hpending, statusAfter, if_neg (by omega)]
    refine ⟨window_status hbytes (by omega) _, ?_⟩
    constructor
    · intro hfalse
      cases hfalse
    · intro hall
      exact absurd hall hwhole

/-! What the host puts together. -/

def dataPart (block : Bytes) : Bytes := block.take (block.length - 2)

def statusPart (block : Bytes) : Bytes := block.drop (block.length - 2)

def delivered (blocks : List Bytes) : Bytes := (blocks.map dataPart).flatten

/-- The data parts are the response as far as it has come, and all of it at the end; the last block
has the status word then, and every other one says how much is left. -/
structure Reassembles (data : Bytes) (sw : Word) (blocks : List Bytes) (ended : Bool) : Prop where
  inOrder : delivered blocks <+: data
  whole : ended = true → delivered blocks = data
  status : ∀ (i : Nat) (hi : i < blocks.length), statusPart blocks[i] =
    wordBytes (if ended = true ∧ i + 1 = blocks.length then sw
      else more (data.length - (delivered (blocks.take (i + 1))).length))

theorem dataPart_append (data : Bytes) (status : Word) : dataPart (data ++ wordBytes status) = data := by
  have hlen : (data ++ wordBytes status).length - 2 = data.length := by
    rw [List.length_append, wordBytes_length]
    omega
  rw [dataPart, hlen, List.take_left]

theorem statusPart_append (data : Bytes) (status : Word) :
    statusPart (data ++ wordBytes status) = wordBytes status := by
  have hlen : (data ++ wordBytes status).length - 2 = data.length := by
    rw [List.length_append, wordBytes_length]
    omega
  rw [statusPart, hlen, List.drop_left]

theorem delivered_cons (block : Bytes) (blocks : List Bytes) :
    delivered (block :: blocks) = dataPart block ++ delivered blocks := by
  rw [delivered, List.map_cons, List.flatten_cons, delivered]

theorem Carries.ne_nil {sw : Word} {rest : Bytes} {blocks : List Bytes} (h : Carries sw rest blocks true) :
    blocks ≠ [] := by
  cases h with
  | last => exact List.cons_ne_nil _ _
  | part hk h => exact List.cons_ne_nil _ _

theorem Carries.reassembles {sw : Word} {data : Bytes} {blocks : List Bytes} {ended : Bool}
    (h : Carries sw data blocks ended) : Reassembles data sw blocks ended := by
  induction h with
  | pause rest =>
    refine ⟨List.nil_prefix, ?_, ?_⟩
    · intro hended
      cases hended
    · intro i hi
      exact absurd hi (Nat.not_lt_zero i)
  | last rest =>
    have hall : delivered [rest ++ wordBytes sw] = rest := by
      rw [delivered_cons, dataPart_append]
      exact List.append_nil rest
    refine ⟨⟨[], by rw [List.append_nil, hall]⟩, fun _ => hall, ?_⟩
    intro i hi
    have hi0 : i = 0 := by
      rw [List.length_singleton] at hi
      omega
    subst hi0
    rw [if_pos ⟨rfl, rfl⟩]
    exact statusPart_append rest sw
  | @part rest k blocks ended hk h ih =>
    have hsplit : rest.take k ++ rest.drop k = rest := List.take_append_drop k rest
    have htake : (rest.take k).length = k := by
      rw [List.length_take]
      omega
    refine ⟨?_, ?_, ?_⟩
    · rw [delivered_cons, dataPart_append]
      have hmore := (List.prefix_append_right_inj (rest.take k)).mpr ih.inOrder
      rw [hsplit] at hmore
      exact hmore
    · intro hended
      rw [delivered_cons, dataPart_append, ih.whole hended, hsplit]
    · intro i hi
      cases i with
      | zero =>
        -- an answer that leaves something is not the last one
        have hnot : ¬ (ended = true ∧
            0 + 1 = ((rest.take k ++ wordBytes (more (rest.length - k))) :: blocks).length) := by
          intro hlast
          obtain ⟨hended, hlen⟩ := hlast
          subst hended
          have hnil : blocks = [] := by
            apply List.eq_nil_of_length_eq_zero
            rw [List.length_cons] at hlen
            omega
          exact h.ne_nil hnil
        have hfirst : delivered [rest.take k ++ wordBytes (more (rest.length - k))] = rest.take k := by
          rw [delivered_cons, dataPart_append]
          exact List.append_nil _
        rw [if_neg hnot, List.take_succ_cons, List.take_zero, hfirst, htake]
        exact statusPart_append _ _
      | succ i =>
        have hi' : i < blocks.length := by
          rw [List.length_cons] at hi
          omega
        have hstatus := ih.status i hi'
        have hleft : rest.length - (rest.take k ++ delivered (blocks.take (i + 1))).length =
            (rest.drop k).length - (delivered (blocks.take (i + 1))).length := by
          rw [List.length_append, htake, List.length_drop]
          omega
        rw [List.getElem_cons_succ, List.take_succ_cons, delivered_cons, dataPart_append, hleft,
          List.length_cons, hstatus]
        congr 1
        apply if_congr _ rfl rfl
        rw [Nat.add_right_cancel_iff]

/-- A command with its answers. -/
def exchange (l : Link) (c : Card) (requests : List (Link × Bytes)) : Fetched :=
  { fetch (answer l c).1 requests with blocks := (answer l c).2 :: (fetch (answer l c).1 requests).blocks }

/-- When the response arrives. On CCID each answer has to fit in a block, and a later one of an interface that shares
its number with HID to begin seven bytes into the response; on HID the first answer has to carry all of it, if more is
asked for. -/
def Deliverable (l : Link) (ne n : Nat) (requests : List (Link × Bytes)) : Prop :=
  match l with
  | .ccid _ _ other => (n ≤ ne ∨ ne + 2 ≤ ccidMax) ∧
      (firstRoom ne < n → Fits other.isSome (firstRoom ne) (n - firstRoom ne) requests)
  | .hid _ _ _ => n ≤ ne ∨ requests = []

/-- The first answer and the requests together ask for the whole response. -/
def asksAll (l : Link) (ne n : Nat) (requests : List (Link × Bytes)) : Prop :=
  match l with
  | .ccid _ _ _ => n ≤ firstRoom ne + asked requests
  | .hid _ _ _ => n ≤ ne + asked requests

/-- The response arrives, as far as it is asked for, nothing is written outside the transmit buffer of the other
transport, and a command that is not GET RESPONSE discards what is left. -/
def Arrives (l : Link) (c : Card) (data : Bytes) (requests : List (Link × Bytes)) : Prop :=
  Reassembles data c.sw (exchange l c requests).blocks (!(exchange l c requests).card.responsePending) ∧
    (∀ x ∈ (exchange l c requests).beside, x.Inside) ∧
    ((exchange l c requests).card.responsePending = false ↔ asksAll l c.ne data.length requests) ∧
    ∀ l' command cmd, parse command = some cmd → cmd.ins ≠ insGetResponse →
      (apduProcess l' (exchange l c requests).card command).2 = .executed ∧
        (apduProcess l' (exchange l c requests).card command).1.responsePending = false ∧
        (apduProcess l' (exchange l c requests).card command).1.rlen = 0

theorem apduProcess_other {l : Link} {c : Card} {command : Bytes} {cmd : Command}
    (hparse : parse command = some cmd) (hins : cmd.ins ≠ insGetResponse) :
    (apduProcess l c command).2 = .executed ∧
      (apduProcess l c command).1.responsePending = false ∧ (apduProcess l c command).1.rlen = 0 := by
  unfold apduProcess process
  rw [hparse]
  dsimp only
  rw [if_neg hins]
  exact ⟨rfl, rfl, rfl⟩

theorem exchange_ccid {c : Card} {data : Bytes} (h : Loaded (.ccid seq status other) c data)
    {requests : List (Link × Bytes)} (hasks : ∀ r ∈ requests, Asks (.ccid seq status other) r)
    (hgood : Deliverable (.ccid seq status other) c.ne data.length requests) :
    Carries c.sw data (exchange (.ccid seq status other) c requests).blocks
        (!(exchange (.ccid seq status other) c requests).card.responsePending) ∧
      (∀ x ∈ (exchange (.ccid seq status other) c requests).beside, x.Inside) ∧
      ((exchange (.ccid seq status other) c requests).card.responsePending = false ↔
        data.length ≤ firstRoom c.ne + asked requests) := by
  obtain ⟨hfirst, hfits⟩ := hgood
  obtain ⟨hblock, hafter⟩ := answer_ccid h hfirst
  unfold exchange
  dsimp only
  rw [hblock]
  by_cases hall : data.length ≤ firstRoom c.ne
  · rw [if_pos hall] at hafter
    obtain ⟨hnone, hquiet, hdone⟩ := fetch_done hasks hafter
    rw [hnone, hquiet, hdone, List.take_of_length_le hall, statusAfter, if_pos (by omega)]
    refine ⟨.last data, ?_, fun _ => by omega, fun _ => rfl⟩
    intro x hx
    cases hx
  · rw [if_neg hall] at hafter
    obtain ⟨hleft, hgr⟩ := hafter
    have hlen : (data.drop (firstRoom c.ne)).length = data.length - firstRoom c.ne := List.length_drop
    have hrest : Fits other.isSome ((answer (.ccid seq status other) c).1.rdataGr - 10)
        (data.drop (firstRoom c.ne)).length requests := by
      rw [hlen, hgr, Nat.add_sub_cancel_left]
      exact hfits (by omega)
    obtain ⟨hmore, hinside⟩ := fetch_ccid hleft hasks hrest
    have hover := fetch_ccid_over hleft (by omega) hasks hrest
    rw [statusAfter, if_neg (by omega)]
    refine ⟨.part (by omega) hmore, hinside, ?_⟩
    rw [hlen] at hover
    exact hover.trans ⟨fun hle => by omega, fun hle => by omega⟩

theorem exchange_hid {c : Card} {data : Bytes} {cid : Hid.Cid} {cmd : Byte}
    (h : Loaded (.hid cid cmd slot) c data) {requests : List (Link × Bytes)}
    (hasks : ∀ r ∈ requests, Asks (.hid cid cmd slot) r)
    (hgood : Deliverable (.hid cid cmd slot) c.ne data.length requests) :
    Carries c.sw data (exchange (.hid cid cmd slot) c requests).blocks
        (!(exchange (.hid cid cmd slot) c requests).card.responsePending) ∧
      (exchange (.hid cid cmd slot) c requests).beside = [] ∧
      ((exchange (.hid cid cmd slot) c requests).card.responsePending = false ↔
        data.length ≤ c.ne + asked requests) := by
  obtain ⟨hblock, hafter⟩ := answer_hid h
  unfold exchange
  dsimp only
  rw [hblock]
  by_cases hall : data.length ≤ c.ne
  · obtain ⟨hnone, hquiet, hdone⟩ := fetch_done hasks (hafter.mpr hall)
    rw [hnone, hquiet, hdone, List.take_of_length_le hall, statusAfter, if_pos (by omega)]
    exact ⟨.last data, rfl, fun _ => by omega, fun _ => rfl⟩
  · -- the rest is not asked for
    have hnil : requests = [] := hgood.resolve_left hall
    subst hnil
    have hpending : (answer (.hid cid cmd slot) c).1.responsePending = true := by
      by_contra hnot
      exact hall (hafter.mp (Bool.eq_false_iff.mpr hnot))
    dsimp only [fetch, asked]
    rw [hpending, statusAfter, if_neg (by omega)]
    refine ⟨.part (by omega) (.pause _), rfl, ?_⟩
    constructor
    · intro hfalse
      cases hfalse
    · intro hle
      omega

/-! Where the other transport is written to outside its buffer. -/

theorem fits_of_short {shares : Bool} {requests : List (Link × Bytes)} :
    ∀ {offset left : Nat}, offset + left + 2 ≤ ccidMax → (shares = true → 7 ≤ offset) →
      Fits shares offset left requests := by
  induction requests with
  | nil =>
    intro offset left _ _
    trivial
  | cons request requests ih =>
    intro offset left hshort hlow cmd _
    have hmax : ccidMax = 2038 := rfl
    have hsize : Hid.usbBufferSize = 2048 := rfl
    refine ⟨by omega, fun hshares => ⟨hlow hshares, by omega⟩, fun hmore => ih (by omega) fun hshares => ?_⟩
    have hseven := hlow hshares
    omega

/-- A response of zeros. -/
def zeroResponse (ne n : Nat) : Card where
  buffer _ := 0
  rdata := 10
  rlen := n
  ne := ne
  sw := 0x9000

theorem zeroResponse_loaded (seq status : Byte) (other : Option (Hid.Cid × Byte)) {ne n : Nat} (hn : n + 9 < 65536) :
    Loaded (.ccid seq status other) (zeroResponse ne n) (window (zeroResponse ne n).buffer 10 n) := by
  have hsw : (0x9000 : Word) ≠ 0 := by decide
  refine ⟨rfl, window_length.symm, ?_, hsw, ?_⟩
  · rw [window_length]
    rfl
  · rw [window_length]
    exact hn

theorem process_beside (l : Link) {c : Card} {cmd : Command} (hpending : c.responsePending = true)
    (hins : cmd.ins = insGetResponse) : ∃ c' block c₀ size, process l c cmd =
      (c', .answered block (l.execFinishedBeside c₀ size (c.rdataGr - c.rdata)).2) := by
  unfold process
  dsimp only
  rw [if_pos hins, if_neg (by rw [hpending]; decide)]
  by_cases hlast : c.rlen ≤ cmd.ne
  · rw [if_pos hlast]
    exact ⟨_, _, _, _, rfl⟩
  · rw [if_neg hlast]
    exact ⟨_, _, _, _, rfl⟩

/-- The rest is asked for less than seven bytes into the response. -/
theorem not_arrives_ccid {ne n : Nat} (hn : n + 2 ≤ ccidMax) (hne : ne < n) (hshares : other.isSome = true)
    (hlow : ne < 7) {requests : List (Link × Bytes)} (hasks : ∀ r ∈ requests, Asks (.ccid seq status other) r)
    (hsome : requests ≠ []) :
    ¬ Arrives (.ccid seq status other) (zeroResponse ne n) (window (zeroResponse ne n).buffer 10 n) requests := by
  have hmax : ccidMax = 2038 := rfl
  have hlen : (window (zeroResponse ne n).buffer 10 n).length = n := window_length
  have hroom : firstRoom ne = ne := by
    unfold firstRoom
    omega
  obtain ⟨-, hafter⟩ := answer_ccid (zeroResponse_loaded seq status other
    (show n + 9 < 65536 by omega)) (.inr (show ne + 2 ≤ ccidMax by omega))
  rw [if_neg (by rw [hlen]; exact (show ¬ n ≤ firstRoom ne by omega))] at hafter
  obtain ⟨hleft, hgr⟩ := hafter
  cases requests with
  | nil => exact absurd rfl hsome
  | cons request requests =>
    obtain ⟨l, command⟩ := request
    obtain ⟨⟨hccid, hsame⟩, cmd, hparse, hins⟩ := hasks _ List.mem_cons_self
    cases l with
    | hid cid hidCmd slot => cases hccid
    | ccid seq' status' other' =>
      intro harrives
      dsimp only [Link.shares] at hsame
      rw [← hsame] at hshares
      have hoffset : (answer (.ccid seq status other) (zeroResponse ne n)).1.rdataGr - 10 = ne := by
        rw [hgr, show (zeroResponse ne n).ne = ne from rfl, hroom, Nat.add_sub_cancel_left]
      -- its header is written behind the buffer
      obtain ⟨c', block, c₀, size, hprocess⟩ := process_beside (Link.ccid seq' status' other')
        (c := (Link.ccid seq' status' other').receive (answer (.ccid seq status other) (zeroResponse ne n)).1)
        hleft.pending hins
      have hgoes : apduProcess (.ccid seq' status' other') (answer (.ccid seq status other) (zeroResponse ne n)).1
          command = (c', .answered block ((Link.ccid seq' status' other').execFinishedBeside c₀ size ne).2) := by
        unfold apduProcess
        dsimp only at hparse
        rw [hparse]
        dsimp only [Link.receive] at hprocess ⊢
        rw [hoffset] at hprocess
        exact hprocess
      have hinside := harrives.2.1
      unfold exchange at hinside
      dsimp only at hinside
      rw [fetch, hgoes] at hinside
      have hhead := (execFinishedBeside_ccid c₀ size ne).2.mp
        (fun x hx => hinside x (List.mem_append_left _ (Option.mem_toList.mpr hx))) hshares
      unfold Hid.Sender.headerAt at hhead
      have hsize : Hid.usbBufferSize = 2048 := rfl
      omega

/-! Where the rest of a response goes wrong over HID. -/

/-- A response whose bytes are 2 up to Le and 1 behind it. -/
def twoParts (ne n : Nat) : Card where
  buffer a := if a < 7 + ne then 2 else 1
  rdata := 7
  rlen := n
  ne := ne
  sw := 0x9000

theorem twoParts_loaded (slot : Option Slot) (cid : Hid.Cid) (cmd : Byte) {ne n : Nat} (hn : n + 9 < 65536) :
    Loaded (.hid cid cmd slot) (twoParts ne n) (window (twoParts ne n).buffer 7 n) := by
  have hsw : (0x9000 : Word) ≠ 0 := by decide
  refine ⟨rfl, window_length.symm, ?_, hsw, ?_⟩
  · rw [window_length]
    rfl
  · rw [window_length]
    exact hn

/-- The bytes before the rest, which are not those of the rest. -/
def Marked (ne : Nat) (c : Card) : Prop := ∀ a < 7 + ne, c.buffer a = 0 ∨ c.buffer a = 2

/-- Nothing is sent, or it begins before the rest. -/
def Displaced (block : Bytes) : Prop := block = [] ∨ ∃ x tail, block = x :: tail ∧ (x = 0 ∨ x = 2)

/-- The offset that apdu_process gives is that of the response, and seven is taken off once more. -/
theorem execFinishedCont_displaced (cid : Hid.Cid) (cmd : Byte) {c : Card} {ne size : Nat}
    (hc : Marked ne c) (hpos : 0 < size) (hsize : size + ne < 65529) :
    Displaced ((Link.hid cid cmd slot).execFinishedCont c size ne).2 := by
  have hread : (Hid.Sender.execFinishedCont cid cmd size ne { buffer := c.buffer }).rPtr =
      (0 + (ne + 65536 - 7) % 65536) % 65536 := rfl
  have hwrite : (Hid.Sender.execFinishedCont cid cmd size ne { buffer := c.buffer }).wPtr =
      (0 + (size + 7) + (ne + 65536 - 7) % 65536) % 65536 := rfl
  dsimp only [Link.execFinishedCont]
  by_cases hlow : ne < 7
  · -- the offset wraps around, and the read pointer is behind the write pointer
    rw [if_neg (by rw [hread, hwrite]; omega)]
    exact .inl rfl
  · have hat : (Hid.Sender.execFinishedCont cid cmd size ne { buffer := c.buffer }).rPtr + 7 = ne := by
      rw [hread]
      omega
    have hhead : Hid.Sender.headerAt ne + 7 = ne := by
      unfold Hid.Sender.headerAt
      omega
    obtain ⟨tail, rfl⟩ : ∃ tail, size = tail + 1 := ⟨size - 1, by omega⟩
    rw [if_pos (by rw [hread, hwrite]; omega), hat, Hid.execFinishedCont_buffer, window_succ]
    refine .inr ⟨_, _, rfl, ?_⟩
    rw [blit_behind (show Hid.Sender.headerAt ne + 7 ≤ ne by omega)]
    exact hc ne (by omega)

theorem answer_twoParts (slot : Option Slot) (cid : Hid.Cid) (cmd : Byte) {ne n : Nat} (hn : n + 9 < 65536)
    (hne : ne < n) :
    (answer (.hid cid cmd slot) (twoParts ne n)).1.rdataGr = 7 + ne ∧
      (answer (.hid cid cmd slot) (twoParts ne n)).1.rlen = n - ne ∧
      ∀ a, 7 ≤ a → a < 7 + ne → (answer (.hid cid cmd slot) (twoParts ne n)).1.buffer a = 2 := by
  have hlen : (window (twoParts ne n).buffer 7 n).length = n := window_length
  have hnext := (twoParts_loaded slot cid cmd hn).next_part (show ne < _ by rw [hlen]; exact hne)
  rw [hlen] at hnext
  unfold answer
  rw [hnext]
  dsimp only [Link.execFinished]
  rw [if_pos (Nat.succ_pos _)]
  refine ⟨rfl, rfl, ?_⟩
  intro a hfrom hto
  dsimp only [Link.execFinishedCont]
  rw [Hid.execFinishedCont_buffer]
  -- the header is before the bytes, both statuses are behind them
  rw [blit_behind (show Hid.Sender.headerAt 7 + 7 ≤ a from hfrom)]
  dsimp only [Card.cut, Card.finish, Link.rdata, twoParts]
  rw [blit_before hto, blit_before (by omega), if_pos hto]

theorem process_displaced (slot : Option Slot) (cid : Hid.Cid) (hidCmd : Byte) {c : Card} {ne n : Nat} {cmd : Command}
    (hpending : c.responsePending = true) (hgr : c.rdataGr = 7 + ne) (hrlen : c.rlen = n - ne)
    (hne : ne < n) (hn : n + 9 < 65536) (hbuffer : ∀ a, 7 ≤ a → a < 7 + ne → c.buffer a = 2)
    (hins : cmd.ins = insGetResponse) :
    ∃ c' block echo, process (.hid cid hidCmd slot) ((Link.hid cid hidCmd slot).receive c) cmd =
      (c', .answered block echo) ∧ Displaced block := by
  have hmarked : Marked ne ((Link.hid cid hidCmd slot).receive c) := by
    intro a ha
    dsimp only [Link.receive]
    by_cases hcleared : a < 64
    · left
      have hin : a < (List.replicate 64 (0 : Byte)).length := by
        rw [List.length_replicate]
        exact hcleared
      have hzero : blit c.buffer 0 (List.replicate 64 0) (0 + a) = (List.replicate 64 (0 : Byte))[a] :=
        blit_inside hin
      rw [Nat.zero_add, List.getElem_replicate] at hzero
      exact hzero
    · right
      rw [blit_behind (by rw [List.length_replicate]; omega)]
      exact hbuffer a (by omega) ha
  have hoffset : c.rdataGr - 7 = ne := by omega
  unfold process
  dsimp only [Link.receive]
  rw [if_pos hins, if_neg (by rw [hpending]; decide)]
  by_cases hlast : c.rlen ≤ cmd.ne
  · rw [if_pos hlast]
    refine ⟨_, _, _, rfl, ?_⟩
    rw [hoffset]
    apply execFinishedCont_displaced
    · intro a ha
      dsimp only
      rw [blit_before (by omega)]
      exact hmarked a ha
    · omega
    · omega
  · rw [if_neg hlast]
    refine ⟨_, _, _, rfl, ?_⟩
    dsimp only [Card.cut]
    rw [hoffset]
    apply execFinishedCont_displaced
    · intro a ha
      dsimp only
      rw [blit_before (by omega), blit_before (by omega)]
      exact hmarked a ha
    · omega
    · omega

theorem not_reassembles_of_displaced {ne n : Nat} (hne : ne < n) {status : Word} {block : Bytes}
    (hblock : Displaced block) (blocks : List Bytes) (ended : Bool) :
    ¬ Reassembles (window (twoParts ne n).buffer 7 n) 0x9000
      (((window (twoParts ne n).buffer 7 n).take ne ++ wordBytes status) :: block :: blocks) ended := by
  intro h
  -- the second block has a status word
  have hstatus := h.status 1 (by rw [List.length_cons, List.length_cons]; omega)
  rw [List.getElem_cons_succ, List.getElem_cons_zero] at hstatus
  have hword : ∃ y, statusPart block = [0x90, y] ∨ statusPart block = [0x61, y] := by
    rw [hstatus]
    split_ifs
    · exact ⟨0, .inl (by decide)⟩
    · exact ⟨_, .inr (wordBytes_pair 0x61 _)⟩
  obtain ⟨y, hword⟩ := hword
  have hlong : 2 ≤ block.length := by
    have hpart : (statusPart block).length = 2 := by
      rcases hword with hword | hword <;> rw [hword] <;> rfl
    rw [statusPart, List.length_drop] at hpart
    omega
  obtain rfl | ⟨x, tail, rfl, hx⟩ := hblock
  · exact absurd hlong (by decide)
  by_cases hshort : (x :: tail).length = 2
  · -- the block is only a status, but it does not begin as one
    rw [statusPart, hshort] at hword
    rcases hx with rfl | rfl <;> simp at hword
  · -- the block has data, but it does not begin as the rest
    have hdata : dataPart (x :: tail) = x :: tail.take (tail.length - 2) := by
      rw [List.length_cons] at hshort hlong
      rw [dataPart, List.length_cons, show tail.length + 1 - 2 = (tail.length - 2) + 1 by omega,
        List.take_succ_cons]
    obtain ⟨more, hmore⟩ := h.inOrder
    rw [delivered_cons, dataPart_append, delivered_cons, hdata] at hmore
    have htake : ((window (twoParts ne n).buffer 7 n).take ne).length = ne := by
      rw [List.length_take, window_length]
      omega
    have hat := congrArg (fun bytes => bytes[ne]?) hmore.symm
    rw [List.append_assoc, List.getElem?_append_right (Nat.le_of_eq htake), htake, Nat.sub_self,
      List.cons_append, List.cons_append, List.getElem?_cons_zero] at hat
    rw [List.getElem?_eq_getElem (by rw [window_length]; exact hne), window_getElem] at hat
    dsimp only [twoParts] at hat
    rw [if_neg (by omega)] at hat
    rcases hx with rfl | rfl <;> simp at hat

theorem not_arrives_hid (cid : Hid.Cid) (cmd : Byte) {ne n : Nat} (hn : n + 9 < 65536) (hne : ne < n)
    {requests : List (Link × Bytes)} (hasks : ∀ r ∈ requests, Asks (.hid cid cmd slot) r)
    (hsome : requests ≠ []) :
    ¬ Arrives (.hid cid cmd slot) (twoParts ne n) (window (twoParts ne n).buffer 7 n) requests := by
  have hloaded : Loaded (.hid cid cmd slot) (twoParts ne n) _ := twoParts_loaded slot cid cmd hn
  obtain ⟨hfirst, hpending⟩ := answer_hid hloaded
  obtain ⟨hgr, hrlen, hbuffer⟩ := answer_twoParts slot cid cmd hn hne
  have hmore : (answer (.hid cid cmd slot) (twoParts ne n)).1.responsePending = true := by
    by_contra hnot
    have hall := hpending.mp (Bool.eq_false_iff.mpr hnot)
    rw [window_length] at hall
    exact absurd hall (Nat.not_le.mpr hne)
  cases requests with
  | nil => exact absurd rfl hsome
  | cons request requests =>
    obtain ⟨l, command⟩ := request
    obtain ⟨hlink, cmd', hparse, hins⟩ := hasks _ List.mem_cons_self
    cases l with
    | ccid seq status other => cases hlink.1
    | hid cid' hidCmd slot' =>
      obtain ⟨c', block, echo, hprocess, hblock⟩ :=
        process_displaced slot' cid' hidCmd hmore hgr hrlen hne hn hbuffer hins
      have hfetch : (exchange (.hid cid cmd slot) (twoParts ne n)
          ((.hid cid' hidCmd slot', command) :: requests)).blocks =
          (answer (.hid cid cmd slot) (twoParts ne n)).2 :: block :: (fetch c' requests).blocks := by
        have hone : apduProcess (.hid cid' hidCmd slot') (answer (.hid cid cmd slot) (twoParts ne n)).1 command =
            (c', .answered block echo) := by
          unfold apduProcess
          dsimp only at hparse
          rw [hparse]
          exact hprocess
        unfold exchange
        dsimp only
        rw [fetch, hone]
      intro harrives
      have hall := harrives.1
      rw [hfetch, hfirst] at hall
      exact not_reassembles_of_displaced hne hblock _ _ hall

/-- Ten bytes behind a CCID header. -/
def tenBytes (ne : Nat) : Card where
  buffer a := BitVec.ofNat 8 (a - 9)
  rdata := 10
  rlen := 10
  ne := ne
  sw := 0x9000

theorem tenBytes_loaded (l : Link) (hl : l.isCcid = true) (ne : Nat) :
    Loaded l (tenBytes ne) [1, 2, 3, 4, 5, 6, 7, 8, 9, 10] := by
  cases l with
  | ccid seq status other =>
    have hbytes : window (fun a => BitVec.ofNat 8 (a - 9)) 10 10 =
        ([1, 2, 3, 4, 5, 6, 7, 8, 9, 10] : Bytes) := by decide
    have hsw : (0x9000 : Word) ≠ 0 := by decide
    exact ⟨rfl, rfl, hbytes, hsw, by decide⟩
  | hid cid cmd slot => cases hl

end KeyWallet.Apdu
