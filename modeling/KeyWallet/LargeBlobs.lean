import Mathlib.Tactic.Common
import Mathlib.Algebra.Order.Ring.Nat
import KeyWallet.StepSystem

/-! authenticatorLargeBlobs (`cbor_large_blobs.c`): the serialized array is read in fragments and
replaced by an upload in fragments. The request is given by its decoded CBOR map. -/
namespace KeyWallet

namespace LargeBlob

abbrev Bytes := List UInt8

/-- MAX_FRAGMENT_LENGTH, that is MAX_MSG_SIZE - 64. -/
def maxFragmentLength : Nat := 960

def maxLargeBlobSize : Nat := 2048

def statefulWalkIdleMs : Nat := 30000

/-- UINT64_MAX, which stands for an offset that was not sent. -/
def noOffset : Nat := 18446744073709551615

/-- CTAP_PERMISSION_LBW. -/
def permissionLbw : UInt8 := 0x10

/-- SHA-256 and HMAC-SHA-256. -/
structure Hashes where
  sha256 : Bytes → Bytes
  hmac : (key data : Bytes) → Bytes

/-- The pinUvAuthToken `paut`. -/
structure Token where
  data : Bytes := []
  permissions : UInt8 := 0
deriving DecidableEq

/-- The decoded request. -/
structure Request where
  get : Option Nat := none
  set : Option Bytes := none
  offset : Nat := noOffset
  length : Option Nat := none
  pinUvAuthParam : Option Bytes := none
  pinUvAuthProtocol : Option Nat := none
deriving DecidableEq

/-- What file_put_data makes of EF_LARGEBLOB: the new array, nothing, or, where a page is refused
in the middle of the write, the new length over bytes of which only the first are new. -/
inductive Put
  | written
  | kept
  | torn (left : Bytes)
deriving DecidableEq

/-- What a request finds outside `cbor_large_blobs.c`: the clock, `file_has_data(ef_pin)`, the
always-UV option, the token, what a write of EF_LARGEBLOB comes to, and, while a sector of an array
that crosses into a second one is not drained, how many of its bytes are before the crossing and
the memory that the pointer of file_get_data meets behind them. -/
structure Device where
  now : UInt32 := 0
  pinSet : Bool := false
  alwaysUv : Bool := false
  token : Token := {}
  put : Put := .written
  crossing : Option (Nat × Bytes) := none
deriving DecidableEq

inductive BlobErr
  | invalidParameter | invalidLen | invalidSeq | largeBlobStorageFull
  | puatRequired | missingParameter | pinAuthInvalid | integrityFailure
deriving DecidableEq, Repr

/-- The statics of `cbor_large_blobs.c` and the contents of EF_LARGEBLOB. -/
structure State where
  expectedLength : Nat := 0
  expectedNextOffset : Nat := 0
  timer : UInt32 := 0
  active : Bool := false
  temp : Bytes := List.replicate maxLargeBlobSize 0
  file : Bytes := []
deriving DecidableEq

/-- cbor_large_blobs_tick. -/
def tick (now : UInt32) (s : State) : State :=
  if s.active ∧ (now - s.timer).toNat ≥ statefulWalkIdleMs then
    { s with expectedLength := 0, expectedNextOffset := 0, active := false }
  else s

/-- file_get_data: one pointer, into the cache or the flash, for the whole array. -/
def fileGetData (d : Device) (s : State) : Bytes :=
  match d.crossing with
  | none => s.file
  | some (n, beyond) =>
    s.file.take n ++ (List.range (s.file.length - n)).map fun i => beyond.getD i 0

/-- The part of a request that is read back. -/
def getFragment (r : Request) (d : Device) (count : Nat) (s : State) : Except BlobErr Bytes :=
  if r.length.isSome ∨ r.pinUvAuthParam.isSome ∨ r.pinUvAuthProtocol.isSome then
    .error .invalidParameter
  else if count > maxFragmentLength then .error .invalidLen
  else if r.offset > s.file.length then .error .invalidParameter
  else .ok (((fileGetData d s).drop r.offset).take (min count (s.file.length - r.offset)))

/-- The checks of a fragment before anything is authorized. A fragment at offset 0 starts a new
upload, whether or not it is accepted in the end. -/
def startSet (r : Request) (d : Device) (set : Bytes) (s : State) : Except BlobErr Unit × State :=
  if set.length > maxFragmentLength then (.error .invalidLen, s)
  else if r.offset = 0 then
    if r.length.getD 0 = 0 then (.error .invalidParameter, s)
    else if r.length.getD 0 > maxLargeBlobSize then (.error .largeBlobStorageFull, s)
    else if r.length.getD 0 < 17 then (.error .invalidParameter, s)
    else
      (.ok (), { s with
        expectedLength := r.length.getD 0
        expectedNextOffset := 0
        timer := d.now
        active := true })
  else if r.length.getD 0 ≠ 0 then (.error .invalidParameter, s)
  else (.ok (), s)

def putUint32Le (n : Nat) : Bytes :=
  [n % 256, n / 256 % 256, n / 65536 % 256, n / 16777216 % 256].map UInt8.ofNat

/-- The 70 bytes under the MAC of a fragment. -/
def verifyData (H : Hashes) (offset : Nat) (set : Bytes) : Bytes :=
  List.replicate 32 0xff ++ [0x0c, 0x00] ++ putUint32Le (offset % 2 ^ 32) ++ H.sha256 set

/-- verify, of `cbor_client_pin.c`. -/
def verify (H : Hashes) (protocol : Nat) (key data sign : Bytes) : Bool :=
  if protocol = 1 then sign.take 16 == (H.hmac key data).take 16
  else if protocol = 2 then sign.take 32 == (H.hmac key data).take 32
  else false

def requirePinAuth (d : Device) : Bool := d.pinSet || d.alwaysUv

/-- The pinUvAuthParam of a fragment. -/
def authorizeSet (H : Hashes) (r : Request) (d : Device) (set : Bytes) : Except BlobErr Unit :=
  if requirePinAuth d ∨ r.pinUvAuthParam.isSome ∨ r.pinUvAuthProtocol.isSome then
    match r.pinUvAuthParam, r.pinUvAuthProtocol with
    | none, _ => .error .puatRequired
    | some _, none => .error .missingParameter
    | some param, some protocol =>
      if param.length ≠ (if protocol = 1 then 16 else 32) then .error .pinAuthInvalid
      else if verify H protocol d.token.data (verifyData H r.offset set) param = false then
        .error .pinAuthInvalid
      else if d.token.permissions &&& permissionLbw = 0 then .error .pinAuthInvalid
      else .ok ()
  else .ok ()

/-- memcpy into the buffer. -/
def copyTo (buffer : Bytes) (offset : Nat) (data : Bytes) : Bytes :=
  buffer.take offset ++ data ++ buffer.drop (offset + data.length)

/-- The buffer with the fragment in it. -/
def bufferSet (r : Request) (d : Device) (set : Bytes) (s : State) : State :=
  { s with
    temp := copyTo (if r.offset = 0 then List.replicate maxLargeBlobSize 0 else s.temp)
      s.expectedNextOffset set
    expectedNextOffset := s.expectedNextOffset + set.length
    timer := d.now }

/-- The end of an upload: the hash is checked and the file replaced. The result of the write is
not looked at. -/
def finishSet (H : Hashes) (d : Device) (s : State) : Except BlobErr Unit × State :=
  if s.expectedNextOffset = s.expectedLength then
    if (H.sha256 (s.temp.take (s.expectedLength - 16))).take 16 ≠
        (s.temp.drop (s.expectedLength - 16)).take 16 then
      (.error .integrityFailure, s)
    else
      (.ok (), { s with
        file := match d.put with
          | .written => s.temp.take s.expectedLength
          | .kept => s.file
          | .torn left => left
        expectedLength := 0
        expectedNextOffset := 0
        active := false })
  else (.ok (), s)

/-- A fragment that passed `startSet`. -/
def storeSet (H : Hashes) (r : Request) (d : Device) (set : Bytes) (s : State) :
    Except BlobErr Unit × State :=
  if r.offset ≠ s.expectedNextOffset then (.error .invalidSeq, s)
  else match authorizeSet H r d set with
  | .error e => (.error e, s)
  | .ok () =>
    if r.offset + set.length > s.expectedLength then (.error .invalidParameter, s)
    else finishSet H d (bufferSet r d set s)

/-- cbor_large_blobs. The answer to a set is empty. -/
def largeBlobs (H : Hashes) (r : Request) (d : Device) (s : State) : Except BlobErr Bytes × State :=
  if r.pinUvAuthProtocol.any fun p => p ≠ 1 ∧ p ≠ 2 then (.error .invalidParameter, s)
  else if r.offset = noOffset then (.error .invalidParameter, s)
  else match r.get, r.set with
  | none, none => (.error .invalidParameter, s)
  | some _, some _ => (.error .invalidParameter, s)
  | some count, none => (getFragment r d count s, s)
  | none, some set =>
    match startSet r d set s with
    | (.error e, t) => (.error e, t)
    | (.ok (), t) =>
      let stored := storeSet H r d set t
      (stored.1.map fun _ => [], stored.2)

/-- A tick, or a request. -/
inductive Input
  | tick (now : UInt32)
  | request (r : Request) (d : Device)
deriving DecidableEq

def step (H : Hashes) (s : State) : Input → State
  | .tick now => tick now s
  | .request r d => (largeBlobs H r d s).2

/-- A write of the array in this step is not torn. -/
def Whole : Input → Prop
  | .tick _ => True
  | .request _ d => ∀ left, d.put ≠ .torn left

/-! What an upload is made of. -/

/-- A fragment in the buffer, with the request it came in and the device as it was then. -/
structure Fragment where
  data : Bytes
  request : Request
  device : Device

/-- The answers to a fragment that was put in the buffer. One that completes an upload with a wrong
hash was put there as well. -/
def buffered {α : Type} : Except BlobErr α → Bool
  | .ok _ => true
  | .error e => e = .integrityFailure

/-- The fragment that a step puts in the buffer. -/
def taken (H : Hashes) (s : State) : Input → Option Fragment
  | .tick _ => none
  | .request r d =>
    match r.get, r.set with
    | none, some set => if buffered (largeBlobs H r d s).1 then some ⟨set, r, d⟩ else none
    | _, _ => none

/-- The fragments of a run, in order. -/
def accepted (H : Hashes) : State → List Input → List Fragment
  | _, [] => []
  | s, i :: is => (taken H s i).toList ++ accepted H (step H s i) is

/-- Each fragment starts where the one before it ended. -/
def Consecutive : Nat → List Fragment → Prop
  | _, [] => True
  | n, f :: fs => f.request.offset = n ∧ Consecutive (n + f.data.length) fs

def joined (fs : List Fragment) : Bytes := fs.flatMap Fragment.data

/-- With a PIN set or always-UV on, the request carries the MAC over its offset and its fragment,
under a token with the lbw permission. -/
def Authorized (H : Hashes) (f : Fragment) : Prop :=
  requirePinAuth f.device = true → ∃ param protocol,
    f.request.pinUvAuthParam = some param ∧ f.request.pinUvAuthProtocol = some protocol ∧
    param.length = (if protocol = 1 then 16 else 32) ∧
    verify H protocol f.device.token.data (verifyData H f.request.offset f.data) param = true ∧
    f.device.token.permissions &&& permissionLbw ≠ 0

/-- A value that an upload may install, by the fragments accepted so far. -/
def Installed (H : Hashes) (log : List Fragment) (v : Bytes) : Prop :=
  17 ≤ v.length ∧ v.length ≤ maxLargeBlobSize ∧
  v.drop (v.length - 16) = (H.sha256 (v.take (v.length - 16))).take 16 ∧
  ∃ older fs, log = older ++ fs ∧ v = joined fs ∧ Consecutive 0 fs ∧ ∀ f ∈ fs, Authorized H f

theorem Installed.append_left {H : Hashes} {log : List Fragment} {v : Bytes} (h : Installed H log v)
    (older : List Fragment) : Installed H (older ++ log) v := by
  obtain ⟨hmin, hmax, hhash, older', fs, hlog, hrest⟩ := h
  refine ⟨hmin, hmax, hhash, older ++ older', fs, ?_, hrest⟩
  rw [hlog, List.append_assoc]

/-- The statics stand for the upload of these fragments. -/
structure Uploaded (H : Hashes) (s : State) (fs : List Fragment) : Prop where
  buffer : s.temp.length = maxLargeBlobSize
  bound : s.expectedNextOffset ≤ s.expectedLength
  size : s.expectedLength = 0 ∨ 17 ≤ s.expectedLength ∧ s.expectedLength ≤ maxLargeBlobSize
  contents : s.temp.take s.expectedNextOffset = joined fs
  consecutive : Consecutive 0 fs
  authorized : ∀ f ∈ fs, Authorized H f

section Upload

variable {H : Hashes} {s : State} {fs : List Fragment} {r : Request} {d : Device} {set : Bytes}

theorem consecutive_append (n : Nat) (fs : List Fragment) (f : Fragment) :
    Consecutive n (fs ++ [f]) ↔ Consecutive n fs ∧ f.request.offset = n + (joined fs).length := by
  induction fs generalizing n with
  | nil => simp [Consecutive, joined]
  | cons g fs ih =>
    simp only [List.cons_append, Consecutive, ih, joined, List.flatMap_cons, List.length_append]
    constructor
    · rintro ⟨hg, hfs, hf⟩
      exact ⟨⟨hg, hfs⟩, by omega⟩
    · rintro ⟨⟨hg, hfs⟩, hf⟩
      exact ⟨hg, hfs, by omega⟩

theorem joined_append (fs : List Fragment) (f : Fragment) : joined (fs ++ [f]) = joined fs ++ f.data := by
  simp [joined]

theorem Uploaded.le_size (h : Uploaded H s fs) : s.expectedLength ≤ maxLargeBlobSize := by
  rcases h.size with h0 | ⟨-, hle⟩
  · rw [h0]
    exact Nat.zero_le _
  · exact hle

theorem Uploaded.length_joined (h : Uploaded H s fs) : (joined fs).length = s.expectedNextOffset := by
  have hbound := h.bound
  have hle := h.le_size
  rw [← h.contents, List.length_take, h.buffer]
  omega

theorem uploaded_nil (hbuffer : s.temp.length = maxLargeBlobSize) (hnext : s.expectedNextOffset = 0)
    (hsize : s.expectedLength = 0 ∨ 17 ≤ s.expectedLength ∧ s.expectedLength ≤ maxLargeBlobSize) :
    Uploaded H s [] where
  buffer := hbuffer
  bound := by rw [hnext]; exact Nat.zero_le _
  size := hsize
  contents := by rw [hnext]; rfl
  consecutive := trivial
  authorized := fun _ hf => absurd hf List.not_mem_nil

theorem Uploaded.ticked (h : Uploaded H s fs) (now : UInt32) :
    (tick now s).file = s.file ∧ ∃ fs', (fs' = fs ∨ fs' = []) ∧ Uploaded H (tick now s) fs' := by
  unfold tick
  split
  · exact ⟨rfl, [], .inr rfl, uploaded_nil h.buffer rfl (.inl rfl)⟩
  · exact ⟨rfl, fs, .inl rfl, h⟩

theorem Uploaded.started (h : Uploaded H s fs) (r : Request) (d : Device) (set : Bytes) :
    (∃ e, startSet r d set s = (.error e, s) ∧ e ≠ .integrityFailure) ∨
    startSet r d set s = (.ok (), s) ∧ r.offset ≠ 0 ∨
    ∃ t, startSet r d set s = (.ok (), t) ∧ t.file = s.file ∧ Uploaded H t [] ∧
      t.expectedLength ≠ 0 := by
  unfold startSet
  by_cases hlong : set.length > maxFragmentLength
  · rw [if_pos hlong]
    exact .inl ⟨_, rfl, by decide⟩
  rw [if_neg hlong]
  by_cases hoff : r.offset = 0
  · rw [if_pos hoff]
    by_cases h0 : r.length.getD 0 = 0
    · rw [if_pos h0]
      exact .inl ⟨_, rfl, by decide⟩
    by_cases hbig : r.length.getD 0 > maxLargeBlobSize
    · rw [if_neg h0, if_pos hbig]
      exact .inl ⟨_, rfl, by decide⟩
    by_cases hsmall : r.length.getD 0 < 17
    · rw [if_neg h0, if_neg hbig, if_pos hsmall]
      exact .inl ⟨_, rfl, by decide⟩
    rw [if_neg h0, if_neg hbig, if_neg hsmall]
    have hsize : 17 ≤ r.length.getD 0 ∧ r.length.getD 0 ≤ maxLargeBlobSize := by omega
    exact .inr (.inr ⟨_, rfl, rfl, uploaded_nil h.buffer rfl (.inr hsize), h0⟩)
  · rw [if_neg hoff]
    by_cases hlen : r.length.getD 0 ≠ 0
    · rw [if_pos hlen]
      exact .inl ⟨_, rfl, by decide⟩
    · rw [if_neg hlen]
      exact .inr (.inl ⟨rfl, hoff⟩)

theorem authorizeSet_ok (h : authorizeSet H r d set = .ok ()) : Authorized H ⟨set, r, d⟩ := by
  intro hreq
  unfold authorizeSet at h
  rw [if_pos (Or.inl hreq)] at h
  cases hparam : r.pinUvAuthParam with
  | none => simp [hparam] at h
  | some param =>
    cases hprotocol : r.pinUvAuthProtocol with
    | none => simp [hparam, hprotocol] at h
    | some protocol =>
      simp only [hparam, hprotocol] at h
      by_cases hlen : param.length ≠ (if protocol = 1 then 16 else 32)
      · rw [if_pos hlen] at h
        cases h
      by_cases hmac : verify H protocol d.token.data (verifyData H r.offset set) param = false
      · rw [if_neg hlen, if_pos hmac] at h
        cases h
      by_cases hperm : d.token.permissions &&& permissionLbw = 0
      · rw [if_neg hlen, if_neg hmac, if_pos hperm] at h
        cases h
      rw [Bool.not_eq_false] at hmac
      exact ⟨param, protocol, rfl, rfl, not_not.mp hlen, hmac, hperm⟩

theorem authorizeSet_ne : authorizeSet H r d set ≠ .error .integrityFailure := by
  unfold authorizeSet
  by_cases hreq : requirePinAuth d ∨ r.pinUvAuthParam.isSome ∨ r.pinUvAuthProtocol.isSome
  · rw [if_pos hreq]
    cases r.pinUvAuthParam <;> cases r.pinUvAuthProtocol <;> dsimp only <;> try split_ifs
    all_goals exact fun h => nomatch h
  · rw [if_neg hreq]
    nofun

theorem copyTo_length {buffer data : Bytes} {offset : Nat} (h : offset + data.length ≤ buffer.length) :
    (copyTo buffer offset data).length = buffer.length := by
  simp only [copyTo, List.length_append, List.length_take, List.length_drop]
  omega

theorem copyTo_take {buffer data : Bytes} {offset : Nat} (h : offset + data.length ≤ buffer.length) :
    (copyTo buffer offset data).take (offset + data.length) = buffer.take offset ++ data := by
  have hlen : (buffer.take offset ++ data).length = offset + data.length := by
    rw [List.length_append, List.length_take]
    omega
  rw [copyTo, ← hlen, List.take_left]

theorem Uploaded.joins (h : Uploaded H s fs) (hoff : r.offset = s.expectedNextOffset)
    (hfit : r.offset + set.length ≤ s.expectedLength) (hauth : Authorized H ⟨set, r, d⟩) :
    Uploaded H (bufferSet r d set s) (fs ++ [⟨set, r, d⟩]) := by
  have hle := h.le_size
  have hlength : (if r.offset = 0 then List.replicate maxLargeBlobSize 0 else s.temp).length =
      maxLargeBlobSize := by
    split
    · exact List.length_replicate
    · exact h.buffer
  -- The bytes before the fragment are the ones that were there.
  have hbefore : (if r.offset = 0 then List.replicate maxLargeBlobSize 0 else s.temp).take
      s.expectedNextOffset = joined fs := by
    split
    · next h0 =>
      have hnil : joined fs = [] := List.length_eq_zero_iff.mp (by rw [h.length_joined]; omega)
      rw [hnil, ← hoff, h0, List.take_zero]
    · exact h.contents
  have hroom : s.expectedNextOffset + set.length ≤
      (if r.offset = 0 then List.replicate maxLargeBlobSize 0 else s.temp).length := by
    rw [hlength]
    omega
  refine ⟨?_, ?_, h.size, ?_, ?_, ?_⟩
  · exact (copyTo_length hroom).trans hlength
  · show s.expectedNextOffset + set.length ≤ s.expectedLength
    omega
  · show (copyTo _ s.expectedNextOffset set).take (s.expectedNextOffset + set.length) = _
    rw [copyTo_take hroom, hbefore, joined_append]
  · rw [consecutive_append, h.length_joined]
    exact ⟨h.consecutive, by simp only [hoff, Nat.zero_add]⟩
  · intro f hf
    rcases List.mem_append.mp hf with hf | hf
    · exact h.authorized f hf
    · rw [List.mem_singleton.mp hf]
      exact hauth

theorem Uploaded.finished (h : Uploaded H s fs) (hpos : s.expectedLength ≠ 0)
    (hput : ∀ left, d.put ≠ .torn left) :
    (finishSet H d s = (.ok (), s) ∨ finishSet H d s = (.error .integrityFailure, s)) ∨
    (finishSet H d s).1 = .ok () ∧ Uploaded H (finishSet H d s).2 [] ∧
      ((finishSet H d s).2.file = s.file ∨
        (finishSet H d s).2.file = joined fs ∧ Installed H fs (joined fs)) := by
  unfold finishSet
  by_cases hend : s.expectedNextOffset = s.expectedLength
  · rw [if_pos hend]
    by_cases hhash : (H.sha256 (s.temp.take (s.expectedLength - 16))).take 16 ≠
        (s.temp.drop (s.expectedLength - 16)).take 16
    · rw [if_pos hhash]
      exact .inl (.inr rfl)
    rw [if_neg hhash]
    refine .inr ⟨rfl, uploaded_nil h.buffer rfl (.inl rfl), ?_⟩
    cases hd : d.put with
    | kept => exact .inl rfl
    | torn left => exact absurd hd (hput left)
    | written =>
      have hjoin : joined fs = s.temp.take s.expectedLength := by rw [← h.contents, hend]
      refine .inr ⟨hjoin.symm, ?_⟩
      have hlen : (joined fs).length = s.expectedLength := by rw [h.length_joined, hend]
      obtain ⟨hmin, hmax⟩ := h.size.resolve_left hpos
      refine ⟨by omega, by omega, ?_, [], fs, rfl, rfl, h.consecutive, h.authorized⟩
      have hrest : s.expectedLength - (s.expectedLength - 16) = 16 := by omega
      rw [hlen, hjoin, List.take_take, List.drop_take, Nat.min_eq_left (Nat.sub_le _ _), hrest,
        not_not.mp hhash]
  · rw [if_neg hend]
    exact .inl (.inl rfl)

theorem Uploaded.kept (h : Uploaded H s fs)
    (hpos : r.offset = s.expectedNextOffset → s.expectedLength ≠ 0)
    (hput : ∀ left, d.put ≠ .torn left) :
    (storeSet H r d set s).2 = s ∧ buffered (storeSet H r d set s).1 = false ∨
    buffered (storeSet H r d set s).1 = true ∧
      ∃ fs', (fs' = fs ++ [⟨set, r, d⟩] ∨ fs' = []) ∧ Uploaded H (storeSet H r d set s).2 fs' ∧
        ((storeSet H r d set s).2.file = s.file ∨
          (storeSet H r d set s).2.file = joined (fs ++ [⟨set, r, d⟩]) ∧
          Installed H (fs ++ [⟨set, r, d⟩]) (joined (fs ++ [⟨set, r, d⟩]))) := by
  unfold storeSet
  by_cases hoff : r.offset ≠ s.expectedNextOffset
  · rw [if_pos hoff]
    exact .inl ⟨rfl, rfl⟩
  rw [if_neg hoff]
  rw [ne_eq, not_not] at hoff
  cases hauth : authorizeSet H r d set with
  | error e =>
    have hne : e ≠ .integrityFailure := by
      rintro rfl
      exact authorizeSet_ne hauth
    exact .inl ⟨rfl, decide_eq_false hne⟩
  | ok _ =>
    by_cases hfit : r.offset + set.length > s.expectedLength
    · simp only [if_pos hfit]
      exact .inl ⟨trivial, rfl⟩
    simp only [if_neg hfit]
    have hbuffered := h.joins hoff (Nat.not_lt.mp hfit) (authorizeSet_ok hauth)
    rcases hbuffered.finished (hpos hoff) hput with (hfin | hfin) | ⟨hok, hnil, hfile⟩
    · rw [hfin]
      exact .inr ⟨rfl, _, .inl rfl, hbuffered, .inl rfl⟩
    · rw [hfin]
      exact .inr ⟨rfl, _, .inl rfl, hbuffered, .inl rfl⟩
    · rw [hok]
      exact .inr ⟨rfl, [], .inr rfl, hnil, hfile⟩

theorem largeBlobs_cases (H : Hashes) (r : Request) (d : Device) (s : State) :
    (largeBlobs H r d s).2 = s ∧ taken H s (.request r d) = none ∨
    ∃ set, r.get = none ∧ r.set = some set ∧ largeBlobs H r d s =
      match startSet r d set s with
      | (.error e, t) => (.error e, t)
      | (.ok (), t) => ((storeSet H r d set t).1.map fun _ => [], (storeSet H r d set t).2) := by
  by_cases hprotocol : r.pinUvAuthProtocol.any fun p => p ≠ 1 ∧ p ≠ 2
  · have heq : largeBlobs H r d s = (.error .invalidParameter, s) := by
      rw [largeBlobs, if_pos hprotocol]
    refine .inl ⟨by rw [heq], ?_⟩
    simp only [taken, heq, buffered]
    split <;> rfl
  by_cases hoff : r.offset = noOffset
  · have heq : largeBlobs H r d s = (.error .invalidParameter, s) := by
      rw [largeBlobs, if_neg hprotocol, if_pos hoff]
    refine .inl ⟨by rw [heq], ?_⟩
    simp only [taken, heq, buffered]
    split <;> rfl
  rw [largeBlobs, if_neg hprotocol, if_neg hoff]
  simp only [taken]
  cases r.get with
  | some count => cases r.set <;> exact .inl ⟨rfl, rfl⟩
  | none =>
    cases r.set with
    | none => exact .inl ⟨rfl, rfl⟩
    | some set => exact .inr ⟨set, rfl, rfl, rfl⟩

theorem buffered_map {α β : Type} (f : α → β) (a : Except BlobErr α) : buffered (a.map f) = buffered a := by
  cases a <;> rfl

theorem Uploaded.goes_on {t : State} {gs : List Fragment} (h : Uploaded H t fs) (hget : r.get = none)
    (hset : r.set = some set) (heq : largeBlobs H r d s =
      ((storeSet H r d set t).1.map fun _ => [], (storeSet H r d set t).2))
    (hpos : r.offset = t.expectedNextOffset → t.expectedLength ≠ 0)
    (hput : ∀ left, d.put ≠ .torn left) (older : List Fragment) (hgs : gs = older ++ fs) (hfile : t.file = s.file) :
    ∃ fs', Uploaded H (step H s (.request r d)) fs' ∧
      (∃ older, gs ++ (taken H s (.request r d)).toList = older ++ fs') ∧
      ((step H s (.request r d)).file = s.file ∨
        Installed H (gs ++ (taken H s (.request r d)).toList)
          (step H s (.request r d)).file) := by
  have htaken : taken H s (.request r d) =
      if buffered (storeSet H r d set t).1 then some ⟨set, r, d⟩ else none := by
    simp only [taken, hget, hset, heq, buffered_map]
  rw [step, htaken, heq]
  subst hgs
  rcases h.kept hpos hput with ⟨hsame, hbuf⟩ | ⟨hbuf, fs', hfs, hup, hres⟩
  · rw [hsame, hbuf]
    exact ⟨fs, h, ⟨older, by simp⟩, .inl hfile⟩
  · rw [hbuf]
    refine ⟨fs', hup, ?_, ?_⟩
    · rcases hfs with rfl | rfl
      · exact ⟨older, by simp⟩
      · exact ⟨older ++ fs ++ [⟨set, r, d⟩], by simp⟩
    · rcases hres with hkeep | ⟨hnew, hinst⟩
      · exact .inl (hkeep.trans hfile)
      · rw [hnew]
        rw [List.append_assoc]
        exact .inr (hinst.append_left older)

theorem Uploaded.stepped (h : Uploaded H s fs) (i : Input) (hi : Whole i) :
    ∃ fs', Uploaded H (step H s i) fs' ∧ (∃ older, fs ++ (taken H s i).toList = older ++ fs') ∧
      ((step H s i).file = s.file ∨
        Installed H (fs ++ (taken H s i).toList) (step H s i).file) := by
  cases i with
  | tick now =>
    obtain ⟨hfile, fs', hfs, hup⟩ := h.ticked now
    refine ⟨fs', hup, ?_, .inl hfile⟩
    rcases hfs with rfl | rfl
    · exact ⟨[], by simp [taken]⟩
    · exact ⟨fs, by simp [taken]⟩
  | request r d =>
    rcases largeBlobs_cases H r d s with ⟨hsame, hnone⟩ | ⟨set, hget, hset, heq⟩
    · rw [step, hsame, hnone]
      exact ⟨fs, h, ⟨[], by simp⟩, .inl rfl⟩
    have htaken : ∀ answer : Except BlobErr Bytes, (largeBlobs H r d s).1 = answer →
        taken H s (.request r d) = if buffered answer then some ⟨set, r, d⟩ else none := by
      rintro answer rfl
      simp only [taken, hget, hset]
    rcases h.started r d set with ⟨e, hst, hne⟩ | ⟨hst, hoff⟩ | ⟨t, hst, hfile, hnew, hpos⟩
    · rw [hst] at heq
      rw [step, htaken (.error e) (by rw [heq]), heq]
      have hfalse : buffered (.error e : Except BlobErr Bytes) = false := decide_eq_false hne
      rw [hfalse]
      exact ⟨fs, h, ⟨[], by simp⟩, .inl rfl⟩
    · have hpos : r.offset = s.expectedNextOffset → s.expectedLength ≠ 0 := by
        have := h.bound
        omega
      exact h.goes_on hget hset (by rw [heq, hst]) hpos hi [] rfl rfl
    · exact hnew.goes_on hget hset (by rw [heq, hst]) (fun _ => hpos) hi fs (by simp) hfile

end Upload

/-! Runs. -/
section Runs

open StepSystem

variable {H : Hashes} {s : State} {fs : List Fragment}

theorem accepted_append (is js : List Input) :
    accepted H s (is ++ js) = accepted H s is ++ accepted H (run (step H) s is) js := by
  induction is generalizing s with
  | nil => rfl
  | cons i is ih => simp only [List.cons_append, accepted, ih, run_cons, List.append_assoc]

theorem Uploaded.run (h : Uploaded H s fs) (is : List Input) (hw : ∀ i ∈ is, Whole i) :
    ∃ fs' older, Uploaded H (run (step H) s is) fs' ∧ fs ++ accepted H s is = older ++ fs' := by
  induction is generalizing s fs with
  | nil => exact ⟨fs, [], h, by simp [accepted]⟩
  | cons i is ih =>
    obtain ⟨hi, his⟩ := List.forall_mem_cons.mp hw
    obtain ⟨fs₁, h₁, ⟨older₁, heq₁⟩, -⟩ := h.stepped i hi
    obtain ⟨fs₂, older₂, h₂, heq₂⟩ := ih h₁ his
    refine ⟨fs₂, older₁ ++ older₂, h₂, ?_⟩
    rw [accepted, ← List.append_assoc, heq₁, List.append_assoc, heq₂, List.append_assoc]

theorem Uploaded.file_le (h : Uploaded H s fs) (is : List Input) (hw : ∀ i ∈ is, Whole i) {n : Nat}
    (hn : maxLargeBlobSize ≤ n) (hs : s.file.length ≤ n) : (StepSystem.run (step H) s is).file.length ≤ n := by
  induction is generalizing s fs with
  | nil => exact hs
  | cons i is ih =>
    obtain ⟨hi, his⟩ := List.forall_mem_cons.mp hw
    obtain ⟨fs', h', -, hfile⟩ := h.stepped i hi
    apply ih h' his
    rcases hfile with hsame | ⟨-, hmax, -⟩
    · rw [hsame]
      exact hs
    · exact Nat.le_trans hmax hn

theorem uploaded_boot (file : Bytes) : Uploaded H { file := file } [] :=
  uploaded_nil List.length_replicate rfl (.inl rfl)

/-- Gets of these lengths, each at the end of the fragment before it. -/
def readFrom (H : Hashes) (s : State) : Nat → List (Device × Nat) → Option Bytes
  | _, [] => some []
  | offset, (d, count) :: gets =>
    match (largeBlobs H { get := some count, offset := offset } d s).1 with
    | .error _ => none
    | .ok fragment => (readFrom H s (offset + fragment.length) gets).map (fragment ++ ·)

theorem readFrom_eq (hsize : s.file.length < noOffset) (gets : List (Device × Nat)) (offset : Nat)
    (hoff : offset ≤ s.file.length) (hcounts : ∀ g ∈ gets, g.2 ≤ maxFragmentLength)
    (hflat : ∀ g ∈ gets, g.1.crossing = none) :
    readFrom H s offset gets = some ((s.file.drop offset).take (gets.map Prod.snd).sum) := by
  induction gets generalizing offset with
  | nil => simp [readFrom]
  | cons g gets ih =>
    obtain ⟨d, count⟩ := g
    obtain ⟨hcount, hcounts⟩ := List.forall_mem_cons.mp hcounts
    obtain ⟨hd, hflat⟩ := List.forall_mem_cons.mp hflat
    dsimp only at hcount hd
    have hne : offset ≠ noOffset := by omega
    have hget : (largeBlobs H { get := some count, offset := offset } d s).1 =
        .ok ((s.file.drop offset).take (min count (s.file.length - offset))) := by
      simp [largeBlobs, getFragment, fileGetData, hd, hne, Nat.not_lt.mpr hcount,
        Nat.not_lt.mpr hoff]
    have hlen : ((s.file.drop offset).take (min count (s.file.length - offset))).length =
        min count (s.file.length - offset) := by
      rw [List.length_take, List.length_drop]
      omega
    simp only [readFrom, hget, hlen]
    rw [ih _ (by omega) hcounts hflat, Option.map_some, List.map_cons, List.sum_cons]
    congr 1
    -- A get past the end returns what is left, and the rest of the gets return nothing.
    by_cases hshort : count ≤ s.file.length - offset
    · rw [Nat.min_eq_left hshort, List.take_add, List.drop_drop]
    · have hmin : min count (s.file.length - offset) = s.file.length - offset := by omega
      have hend : offset + (s.file.length - offset) = s.file.length := by omega
      rw [hmin, hend, List.drop_length, List.take_nil, List.append_nil, List.take_of_length_le,
        List.take_of_length_le]
      · rw [List.length_drop]
        omega
      · exact Nat.le_of_eq List.length_drop

/-- In every run from boot without a torn write, EF_LARGEBLOB changes only to an upload that was
accepted fragment by fragment and whose hash is right, and gets at contiguous offsets read the array
back when none of them comes while a crossed sector is not drained. -/
theorem large_blob_integrity (H : Hashes) (file : Bytes) (hfile : file.length < 2 ^ 32)
    (is : List Input) (hwhole : ∀ i ∈ is, Whole i) :
    (∀ before i after, is = before ++ i :: after →
      (run (step H) { file := file } (before ++ [i])).file ≠
        (run (step H) { file := file } before).file →
      Installed H (accepted H { file := file } (before ++ [i]))
        (run (step H) { file := file } (before ++ [i])).file) ∧
    ∀ gets : List (Device × Nat), (∀ g ∈ gets, g.2 ≤ maxFragmentLength) →
      (∀ g ∈ gets, g.1.crossing = none) →
      (run (step H) { file := file } is).file.length ≤ (gets.map Prod.snd).sum →
      readFrom H (run (step H) { file := file } is) 0 gets =
        some (run (step H) { file := file } is).file := by
  constructor
  · intro before i after heq hne
    rw [heq, List.forall_mem_append, List.forall_mem_cons] at hwhole
    obtain ⟨hbefore, hi, -⟩ := hwhole
    obtain ⟨fs, older, hup, hlog⟩ := (uploaded_boot (H := H) file).run before hbefore
    obtain ⟨-, -, -, hinst⟩ := hup.stepped i hi
    rw [run_append] at hne ⊢
    rw [accepted_append]
    rw [List.nil_append] at hlog
    have hlast : accepted H (run (step H) { file := file } before) [i] =
        (taken H (run (step H) { file := file } before) i).toList := by simp [accepted]
    rw [hlog, hlast, List.append_assoc]
    exact (hinst.resolve_left hne).append_left older
  · intro gets hcounts hflat hsum
    have hsize : (run (step H) { file := file } is).file.length < noOffset := by
      have hle := (uploaded_boot (H := H) file).file_le is hwhole (n := 2 ^ 32) (by decide)
        (Nat.le_of_lt hfile)
      have : 2 ^ 32 < noOffset := by decide
      omega
    rw [readFrom_eq hsize gets 0 (Nat.zero_le _) hcounts hflat, List.drop_zero,
      List.take_of_length_le hsum]

/-- Hashes that are right for the empty array, the byte 0x80. -/
def emptyArrayHashes : Hashes where
  sha256 := fun _ =>
    [0x76, 0xbe, 0x8b, 0x52, 0x8d, 0x00, 0x75, 0xf7, 0xaa, 0xe9, 0x8d, 0x6f, 0xa5, 0x7a, 0x6d, 0x3c,
      0x83, 0xae, 0x48, 0x0a, 0x84, 0x69, 0xe6, 0x68, 0xd7, 0xb0, 0xaf, 0x96, 0x89, 0x95, 0xac, 0x71]
  hmac := fun _ _ => []

/-- The empty array, as `scan_files_fido` stores it. -/
def emptyArray : Bytes :=
  [0x80, 0x76, 0xbe, 0x8b, 0x52, 0x8d, 0x00, 0x75, 0xf7,
    0xaa, 0xe9, 0x8d, 0x6f, 0xa5, 0x7a, 0x6d, 0x3c]

/-- The upload of the empty array in two fragments, of which the second finishes with this put. -/
def emptyArrayUpload (put : Put) : List Input :=
  [.request { set := some (emptyArray.take 9), offset := 0, length := some 17 } {}, .tick 100,
    .request { set := some (emptyArray.drop 9), offset := 9 } { put := put }]

/-- The empty array is uploaded over seventeen bytes and read back in two gets. -/
theorem empty_array_uploaded :
    (run (step emptyArrayHashes) { file := List.replicate 17 7 } (emptyArrayUpload .written)).file =
      emptyArray ∧
    readFrom emptyArrayHashes
      (run (step emptyArrayHashes) { file := List.replicate 17 7 } (emptyArrayUpload .written)) 0
      [({}, 10), ({}, 10)] = some emptyArray := by
  have hrun : (run (step emptyArrayHashes) { file := List.replicate 17 7 }
      (emptyArrayUpload .written)).file = emptyArray := by
    decide +kernel
  have hwhole : ∀ i ∈ emptyArrayUpload .written, Whole i := by
    simp [emptyArrayUpload, Whole]
  refine ⟨hrun, ?_⟩
  have hread := (large_blob_integrity emptyArrayHashes (List.replicate 17 7) (by decide)
    (emptyArrayUpload .written) hwhole).2 [({}, 10), ({}, 10)] (by decide) (by decide)
  rw [hrun] at hread
  exact hread (by decide)

/-- The same upload, when the page behind the ninth byte is refused: it is answered with success,
and the hash of what it leaves is wrong. A get of an array that crosses a sector after nine bytes
reads what is behind that sector in the cache. -/
theorem torn_array_left :
    (largeBlobs emptyArrayHashes { set := some (emptyArray.drop 9), offset := 9 }
      { put := .torn (emptyArray.take 9 ++ List.replicate 8 7) }
      (run (step emptyArrayHashes) { file := List.replicate 17 7 }
        ((emptyArrayUpload .written).take 2))).1 = .ok [] ∧
    (run (step emptyArrayHashes) { file := List.replicate 17 7 }
      (emptyArrayUpload (.torn (emptyArray.take 9 ++ List.replicate 8 7)))).file ≠
        List.replicate 17 7 ∧
    (∀ log, ¬ Installed emptyArrayHashes log (run (step emptyArrayHashes)
      { file := List.replicate 17 7 }
      (emptyArrayUpload (.torn (emptyArray.take 9 ++ List.replicate 8 7)))).file) ∧
    readFrom emptyArrayHashes
      (run (step emptyArrayHashes) { file := List.replicate 17 7 } (emptyArrayUpload .written)) 0
      [({ crossing := some (9, []) }, 17)] ≠ some emptyArray := by
  refine ⟨by decide +kernel, by decide +kernel, ?_, by decide +kernel⟩
  rintro log ⟨-, -, hhash, -⟩
  revert hhash
  decide +kernel

end Runs

end LargeBlob

end KeyWallet
