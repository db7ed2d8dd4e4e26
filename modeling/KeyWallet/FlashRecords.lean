import KeyWallet.ByteBuffer
import KeyWallet.KeyDevice
import Mathlib.Logic.Function.Basic

/-! The records of the files in the flash, flash.c and flash_clear_file of file.c, over a flat memory:
what the page cache shows of it. A call of flash_program_block does its work, or fails behind one of the
sectors that it writes. -/
namespace KeyWallet.FlashFile

open ByteBuffer (blit window)

abbrev Memory := Nat → Byte

abbrev Fid := BitVec 16

/-- FLASH_FILE_EXTENDED_LENGTH. -/
def extendedLength : Nat := 0xffff

def flashSectorSize : Nat := 4096

def flashPermanentRegion : Nat := 16384

/-- The pools, as flash_set_bounds sets them. -/
structure Layout where
  start : Nat
  finish : Nat
  start_pos : 0 < start
  room : start + (flashPermanentRegion + 20) ≤ finish
  fits : finish ≤ 4294967296

def Layout.endRomPool (l : Layout) : Nat := l.finish - 12

def Layout.startRomPool (l : Layout) : Nat := l.endRomPool - flashPermanentRegion

def Layout.endDataPool (l : Layout) : Nat := l.startRomPool - 8

/-- Where the pool of the files with FILE_PERSISTENT, or the other one, begins and ends. -/
def Layout.startp (l : Layout) (persistent : Bool) : Nat :=
  if persistent then l.startRomPool else l.start

def Layout.endp (l : Layout) (persistent : Bool) : Nat :=
  if persistent then l.endRomPool else l.endDataPool

/-! Numbers in the memory, least significant byte first. -/

/-- flash_read_uint16. -/
def readU16 (m : Memory) (a : Nat) : Nat := (m a).toNat + 256 * (m (a + 1)).toNat

/-- flash_read_uint32, and flash_read_uintptr. -/
def readU32 (m : Memory) (a : Nat) : Nat := readU16 m a + 65536 * readU16 m (a + 2)

def u16Bytes (v : Nat) : Bytes := [BitVec.ofNat 8 v, BitVec.ofNat 8 (v / 256)]

def u32Bytes (v : Nat) : Bytes := u16Bytes v ++ u16Bytes (v / 65536)

/-- What flash_program_block answers: it is done, or it fails with so many bytes written. -/
abbrev Reply := Option Nat

/-- flash_program_block, and whether it returns PICOKEYS_OK. -/
def program (m : Memory) (addr : Nat) (data : Bytes) : Reply → Bool × Memory
  | none => (true, blit m addr data)
  | some k => (false, blit m addr (data.take k))

/-- The next call, unless there was an error. -/
def andThen (r : Bool × Memory) (f : Memory → Bool × Memory) : Bool × Memory := if r.1 then f r.2 else r

/-! Records. A file points to the length field. -/

/-- file_length_size. -/
def lengthSize (m : Memory) (data : Nat) : Nat := if readU16 m data = extendedLength then 6 else 2

/-- file_get_size. -/
def fileSize (m : Memory) (data : Nat) : Nat :=
  if readU16 m data = extendedLength then readU32 m (data + 2) else readU16 m data

/-- flash_record_size. -/
def recordSize (m : Memory) (base : Nat) : Nat := 10 + lengthSize m (base + 10) + fileSize m (base + 10)

/-- The bytes that the length field at `data` announces. -/
def stored (m : Memory) : Option Nat → Bytes
  | none => []
  | some data => window m (data + lengthSize m data) (fileSize m data)

/-! flash_clear_file. -/

structure ClearReplies where
  unlink : Reply := none
  length : Reply := none
  zero : Nat → Reply := fun _ => none
  back : Reply := none
  next : Reply := none
  prev : Reply := none

/-- The loop that writes zeros, `i` counting its rounds. -/
def zeroRange (rs : Nat → Reply) : (fuel i addr len : Nat) → Memory → Bool × Memory
  | 0, _, _, _, m => (true, m)
  | fuel + 1, i, addr, len, m =>
    if len = 0 then (true, m)
    else andThen (program m addr (List.replicate (min 256 len) 0) (rs i)) fun m =>
      zeroRange rs fuel (i + 1) (addr + min 256 len) (len - min 256 len) m

/-- flash_clear_file for a file with data. The results of the calls outside the loop are not looked at. -/
def clearFile (rs : ClearReplies) (m : Memory) (data : Nat) : Bool × Memory :=
  let len := fileSize m data
  let payload := data + lengthSize m data
  let base := data - 10
  let prev := readU32 m (base + 4)
  let next := readU32 m base
  let m := (program m prev (u32Bytes next) rs.unlink).2
  let m := (program m data (u16Bytes 0) rs.length).2
  andThen (zeroRange rs.zero len 0 payload len m) fun m =>
    let m := if 0 < next then (program m (next + 4) (u32Bytes prev) rs.back).2 else m
    let m := (program m base (u32Bytes 0) rs.next).2
    (true, (program m (base + 4) (u32Bytes 0) rs.prev).2)

/-! allocate_free_addr. -/

structure LinkReplies where
  next : Reply := none
  prev : Reply := none
  nextPrev : Reply := none

/-- The pointers of the new record, and the one back to it. -/
def linkNew (rs : LinkReplies) (m : Memory) (addr next base : Nat) : Bool × Memory :=
  andThen (andThen (program m addr (u32Bytes next) rs.next) fun m =>
    program m (addr + 4) (u32Bytes base) rs.prev) fun m =>
      if next ≠ 0 then program m (next + 4) (u32Bytes addr) rs.nextPrev else (true, m)

/-- The free bytes under `base` begin here. -/
def gapStart (m : Memory) (startp next : Nat) : Nat := if next ≠ 0 then next + recordSize m next else startp

/-- The walk from `base` on: the place of the new record, and the pointer to publish it at. -/
def allocateFrom (m : Memory) (realSize startp : Nat) : (fuel base : Nat) → Option (Nat × Nat)
  | 0, _ => none
  | fuel + 1, base =>
    let next := readU32 m base
    if base < startp ∨ base < realSize then none
    else if next ≠ 0 ∧ (base ≤ next ∨ base - next < recordSize m next) then none
    else if gapStart m startp next ≤ base - realSize ∧ startp ≤ base - realSize then
      some (base - realSize, base)
    else if next = 0 then none
    else allocateFrom m realSize startp fuel next

/-- The size of the length field for a file of this size. -/
def lengthSizeOf (size : Nat) : Nat := if extendedLength ≤ size then 6 else 2

/-- How many bytes its record takes. -/
def realSizeOf (size : Nat) : Nat := 10 + lengthSizeOf size + size

def allocateFreeAddr (l : Layout) (rs : LinkReplies) (m : Memory) (size : Nat) (persistent : Bool) :
    Option (Nat × Nat) × Memory :=
  if 4294967296 ≤ realSizeOf size ∨ l.endp persistent - l.startp persistent < realSizeOf size then (none, m)
  else
    match allocateFrom m (realSizeOf size) (l.startp persistent) (l.endp persistent) (l.endp persistent) with
    | none => (none, m)
    | some (addr, base) =>
      let (ok, m) := linkNew rs m addr (readU32 m base) base
      (if ok then some (addr, base) else none, m)

/-! flash_write_data_to_file_internal. -/

def writeFileLength (short long : Reply) (m : Memory) (data len : Nat) : Bool × Memory :=
  if extendedLength ≤ len then
    andThen (program m data (u16Bytes extendedLength) short) fun m => program m (data + 2) (u32Bytes len) long
  else program m data (u16Bytes len) short

/-- copy_file_range, from one place of the memory to another. -/
def copyRange (rs : Nat → Reply) : (fuel i source destination len : Nat) → Memory → Bool × Memory
  | 0, _, _, _, _, m => (true, m)
  | fuel + 1, i, source, destination, len, m =>
    if len = 0 then (true, m)
    else andThen (program m destination (window m source (min 256 len)) (rs i)) fun m =>
      copyRange rs fuel (i + 1) (source + min 256 len) (destination + min 256 len) (len - min 256 len) m

/-- What the calls of one write answer. The flags say that flash_commit_sync is in time. -/
structure WriteReplies where
  lengthInPlace : Reply := none
  dataInPlace : Reply := none
  commitInPlace : Bool := true
  link : LinkReplies := {}
  fid : Reply := none
  short : Reply := none
  long : Reply := none
  copyFront : Nat → Reply := fun _ => none
  data : Reply := none
  copyBehind : Nat → Reply := fun _ => none
  commitRecord : Bool := true
  publish : Reply := none
  clearNew : ClearReplies := {}
  clearOld : ClearReplies := {}
  commitOld : Bool := true

/-- file_t: the pointer to its length field, and FILE_PERSISTENT in its type. -/
structure File where
  data : Option Nat := none
  persistent : Bool := false
  deriving DecidableEq, Repr

def File.size (m : Memory) (f : File) : Nat := (f.data.map (fileSize m)).getD 0

/-- The write over the record that is there. -/
def writeInPlace (rs : WriteReplies) (m : Memory) (data : Nat) (bytes : Bytes) (offset : Nat)
    (partly : Bool) : Bool × Memory :=
  let extended := readU16 m data = extendedLength
  let payload := data + lengthSize m data
  let oldSize := fileSize m data
  let r := if partly then (true, m)
    else if extended then program m (data + 2) (u32Bytes bytes.length) rs.lengthInPlace
    else program m data (u16Bytes bytes.length) rs.lengthInPlace
  let r := andThen r fun m =>
    if bytes = [] then (true, m) else program m (payload + offset) bytes rs.dataInPlace
  andThen r fun m => (decide (oldSize ≤ flashSectorSize) || rs.commitInPlace, m)

/-- The fid and the length of the new record. -/
def writeHeader (rs : WriteReplies) (m : Memory) (fid : Fid) (addr newSize : Nat) : Bool × Memory :=
  andThen (program m (addr + 8) (u16Bytes fid.toNat) rs.fid) fun m =>
    writeFileLength rs.short rs.long m (addr + 10) newSize

/-- Its payload: what stays of the old one before and behind the new bytes, and these. -/
def writePayload (rs : WriteReplies) (m : Memory) (old : Option Nat) (payload : Nat) (bytes : Bytes)
    (offset : Nat) (partly : Bool) : Bool × Memory :=
  let r := match old with
    | none => (true, m)
    | some data =>
      if partly then copyRange rs.copyFront offset 0 (data + lengthSize m data) payload offset m else (true, m)
  let r := andThen r fun m => if bytes = [] then (true, m) else program m (payload + offset) bytes rs.data
  andThen r fun m =>
    match old with
    | none => (true, m)
    | some data =>
      if partly && decide (offset + bytes.length < fileSize m data) then
        copyRange rs.copyBehind (fileSize m data) 0
          (data + lengthSize m data + (offset + bytes.length)) (payload + (offset + bytes.length))
          (fileSize m data - (offset + bytes.length)) m
      else (true, m)

/-- The new record, up to the pointer that publishes it. -/
def writeRecord (rs : WriteReplies) (m : Memory) (old : Option Nat) (fid : Fid) (addr base : Nat)
    (bytes : Bytes) (offset newSize : Nat) (partly : Bool) : Bool × Memory :=
  let r := writeHeader rs m fid addr newSize
  let r := andThen r fun m => writePayload rs m old (addr + 10 + lengthSizeOf newSize) bytes offset partly
  let r := andThen r fun m => (decide (base / flashSectorSize = addr / flashSectorSize) || rs.commitRecord, m)
  andThen r fun m => program m base (u32Bytes addr) rs.publish

/-- The write to a new record: the file and the memory after it. -/
def writeAnew (l : Layout) (rs : WriteReplies) (f : File) (fid : Fid) (m : Memory) (bytes : Bytes)
    (offset newSize : Nat) (partly : Bool) : Bool × File × Memory :=
  match allocateFreeAddr l rs.link m newSize f.persistent with
  | (none, m) => (false, f, m)
  | (some (addr, base), m) =>
    let r := writeRecord rs m f.data fid addr base bytes offset newSize partly
    if r.1 = false then (false, f, (clearFile rs.clearNew r.2 (addr + 10)).2)
    else
      match f.data with
      | none => (true, ⟨some (addr + 10), f.persistent⟩, r.2)
      | some data =>
        let c := clearFile rs.clearOld r.2 data
        if c.1 = false then (false, f, (clearFile rs.clearNew c.2 (addr + 10)).2)
        else if flashSectorSize < realSizeOf newSize ∧ rs.commitOld = false then (false, f, c.2)
        else (true, ⟨some (addr + 10), f.persistent⟩, c.2)

/-- flash_write_data_to_file_internal. -/
def writeFile (l : Layout) (rs : WriteReplies) (f : File) (fid : Fid) (m : Memory) (bytes : Bytes)
    (offset : Nat) (partly : Bool) : Bool × File × Memory :=
  let oldSize := f.size m
  let writeEnd := offset + bytes.length
  if 4294967296 ≤ bytes.length ∨ 4294967296 ≤ writeEnd ∨ partly ∧ oldSize < offset then (false, f, m)
  else
    let newSize := if partly then max oldSize writeEnd else bytes.length
    match f.data with
    | none => writeAnew l rs f fid m bytes offset newSize partly
    | some data =>
      let extended := readU16 m data = extendedLength
      if partly ∧ writeEnd ≤ oldSize ∨
          ¬ partly ∧ bytes.length ≤ oldSize ∧ (extended ∨ bytes.length < extendedLength) then
        let r := writeInPlace rs m data bytes offset partly
        (r.1, f, r.2)
      else writeAnew l rs f fid m bytes offset newSize partly

/-! The files. -/

structure State where
  mem : Memory
  files : Fid → File

/-- file_put_data, file_put_data_offset, and flash_clear_file. -/
inductive Op
  | put (fid : Fid) (bytes : Bytes) (rs : WriteReplies)
  | putOffset (fid : Fid) (bytes : Bytes) (offset : Nat) (rs : WriteReplies)
  | clear (fid : Fid) (rs : ClearReplies)

def Op.fid : Op → Fid
  | .put fid _ _ => fid
  | .putOffset fid _ _ _ => fid
  | .clear fid _ => fid

/-- A call: whether it returns PICOKEYS_OK, the file and the memory after it. -/
def Op.call (l : Layout) (s : State) : Op → Bool × File × Memory
  | .put fid bytes rs => writeFile l rs (s.files fid) fid s.mem bytes 0 false
  | .putOffset fid bytes offset rs => writeFile l rs (s.files fid) fid s.mem bytes offset true
  | .clear fid rs =>
    match (s.files fid).data with
    | none => (true, s.files fid, s.mem)
    | some data =>
      let r := clearFile rs s.mem data
      (r.1, if r.1 then { s.files fid with data := none } else s.files fid, r.2)

def step (l : Layout) (s : State) (op : Op) : State :=
  let r := op.call l s
  ⟨r.2.2, Function.update s.files op.fid r.2.1⟩

/-- What file_get_data and file_get_size show of a file. -/
def contents (s : State) (fid : Fid) : Bytes := stored s.mem (s.files fid).data

end KeyWallet.FlashFile
