import KeyWallet.ObjectTxnCrash
import Mathlib.Algebra.Order.Ring.Nat

/-! The record ids of object_container.c: a high-water mark in a transactional object, written to
both slots before an id is handed out. -/
namespace KeyWallet

open CrashProgram

namespace Txn

open Container (ObjErr)

def idStateSize : Nat := 16
def uint64Max : Nat := 0xffffffffffffffff

def idMagic : Data := [0x50, 0x4b, 0x52, 0x49]

/-- put_uint64_be. -/
def putUint64 (n : Nat) : Data :=
  [56, 48, 40, 32, 24, 16, 8, 0].map fun i => BitVec.ofNat 8 (n / 2 ^ i)

/-- get_uint64_be. -/
def getUint64 (d : Data) : Nat := d.foldl (fun n b => n * 256 + b.toNat) 0

/-- The state that file_object_record_id_allocate stores. -/
def encodeId (id : Nat) : Data := idMagic ++ [1, 0, 0, 0] ++ putUint64 id

/-- The checks on the state that is read back. -/
def decodeId (d : Data) : Except ObjErr Nat :=
  if d.take 8 ≠ idMagic ++ [1, 0, 0, 0] then .error .wrongData
  else if getUint64 (d.drop 8) = 0 ∨ getUint64 (d.drop 8) = uint64Max then .error .wrongData
  else .ok (getUint64 (d.drop 8))

theorem byte_behind (n b : Nat) : n / (b * 256) * 256 + n / b % 256 = n / b := by
  rw [← Nat.div_div_eq_div_mul]
  exact Nat.div_add_mod' (n / b) 256

theorem getUint64_put {n : Nat} (h : n ≤ uint64Max) : getUint64 (putUint64 n) = n := by
  have htop : n / 72057594037927936 % 256 = n / 72057594037927936 := by
    apply Nat.mod_eq_of_lt
    apply Nat.div_lt_of_lt_mul
    exact Nat.lt_of_le_of_lt h (by decide)
  have h6 := byte_behind n 281474976710656
  have h5 := byte_behind n 1099511627776
  have h4 := byte_behind n 4294967296
  have h3 := byte_behind n 16777216
  have h2 := byte_behind n 65536
  have h1 := byte_behind n 256
  have h0 := byte_behind n 1
  simp only [Nat.reduceMul, Nat.div_one, Nat.one_mul] at h6 h5 h4 h3 h2 h1 h0
  simp only [putUint64, getUint64, List.map_cons, List.map_nil, List.foldl_cons, List.foldl_nil,
    BitVec.toNat_ofNat, Nat.reducePow, Nat.div_one, Nat.zero_mul, Nat.zero_add]
  rw [htop, h6, h5, h4, h3, h2, h1, h0]

theorem encodeId_length (id : Nat) : (encodeId id).length = idStateSize := rfl

theorem decodeId_encode {id : Nat} (hpos : 0 < id) (h : id < uint64Max) :
    decodeId (encodeId id) = .ok id := by
  have htake : (encodeId id).take 8 = idMagic ++ [1, 0, 0, 0] := rfl
  have hdrop : getUint64 ((encodeId id).drop 8) = id := getUint64_put (Nat.le_of_lt h)
  unfold decodeId
  rw [if_neg (not_not.mpr htake), hdrop, if_neg (by omega)]

theorem decodeId_last : decodeId (encodeId uint64Max) = .error .wrongData := by decide

section Allocation

variable {Tag : Type} [DecidableEq Tag] (auth : Authenticator Tag) (L : Layout)

/-- The high-water mark, none when there is none yet: the object is opened, read and closed again,
for which a handle must be free. -/
def readMark (handleFree : Bool) (files : Files Tag) : Except ObjErr (Option Nat) :=
  match recover auth L files with
  | .error .fileNotFound => .ok none
  | .error e => .error e
  | .ok st =>
    if st.deleted then .ok none
    else if handleFree = false then .error .noMemory
    else if st.payloadSize ≠ idStateSize then .error .wrongData
    else (decodeId (payloadAt L files st.recordSlot)).map some

def nextId : Option Nat → Nat
  | none => 1
  | some previous => previous + 1

/-- file_object_record_id_allocate. -/
def recordIdAllocate (handleFree : Bool) : Op Tag Nat := do
  let mark ← consult fun _ (files : Files Tag) => readMark auth L handleFree files
  let previous ← liftCheck mark
  put auth L (encodeId (nextId previous))
  put auth L (encodeId (nextId previous))
  pure (nextId previous)

end Allocation

/-! What the two slots hold between two calls. -/
section Marks

variable {Tag : Type} [DecidableEq Tag] (auth : Authenticator Tag) (L : Layout)

/-- A commit that verifies is one of a put, for the record of the same slot. -/
def CommitOwn (x : Nat) (c : Option (Content Tag)) : Prop :=
  ∀ h tag, c = some (.commit h tag) → auth.sign (.commit h) = tag → h.flags = 0 ∧ h.recordSlot = x

/-- A record that verifies holds a mark of at least `n`. -/
def RecordMark (n : Nat) (r : Option (Content Tag)) : Prop :=
  ∀ h p tag, r = some (.record h p tag) → auth.sign (.record h p) = tag →
    ∃ id, n ≤ id ∧ 0 < id ∧ id ≤ uint64Max ∧ p = encodeId id

structure Marks (n : Nat) (m : TxnCache Tag) : Prop where
  commits : ∀ x < 2, ∀ c, m.Possible (L.commitFid x) c → CommitOwn auth x c
  records : ∀ x < 2, ∀ r, m.Possible (L.recordFid x) r → RecordMark auth n r

/-- The slot is valid, and nothing about it can change. -/
def Anchored (s : Nat) (m : TxnCache Tag) : Prop :=
  (∃ st, parseCommit auth L m.view s = .ok st) ∧ m.Fixed (L.commitFid s) ∧ m.Fixed (L.recordFid s)

/-- Every slot that is valid for the running code is durable. -/
def Durable (m : TxnCache Tag) : Prop :=
  ∀ s < 2, (∃ st, parseCommit auth L m.view s = .ok st) → Anchored auth L s m

/-- Slot `t` may be written: what counts is in the other one. -/
def Guard (t n : Nat) (m : TxnCache Tag) : Prop :=
  Marks auth L n m ∧ (0 < n → Anchored auth L (1 - t) m)

variable {auth L} {m : TxnCache Tag} {files files' : Files Tag} {s t n g : Nat} {st : State}

theorem parseCommit_same (hown : CommitOwn auth s (files (L.commitFid s)))
    (hcommit : files' (L.commitFid s) = files (L.commitFid s))
    (hrecord : files' (L.recordFid s) = files (L.recordFid s)) :
    parseCommit auth L files' s = parseCommit auth L files s := by
  unfold parseCommit
  rw [hcommit]
  split
  · rfl
  · rfl
  · next h tag hc =>
    split_ifs with h1 h2 h3
    · rfl
    · rfl
    · rfl
    · rfl
    · rfl
    · have hslot : h.recordSlot = s := (hown h tag hc (not_not.mp h2)).2
      rw [hslot, validateRecord_congr hrecord]
  · rfl

theorem validateRecord_ok {slot i k : Nat} {tag : Tag}
    (h : validateRecord auth L files slot g i k tag = .ok ()) :
    ∃ header p, files (L.recordFid slot) = some (.record header p (auth.sign (.record header p))) ∧
      p.length = k := by
  unfold validateRecord at h
  split at h
  · exact absurd h (by simp)
  · split at h
    · exact absurd h (by simp)
    · exact absurd h (by simp)
    · next header p tag' hf =>
      split_ifs at h with h1 h2 h3
      push Not at h1 h3
      exact ⟨header, p, hf.trans (by rw [h3.1]), h1.2⟩
    · exact absurd h (by simp)

theorem parseCommit_mark (h : parseCommit auth L files s = .ok st)
    (hown : CommitOwn auth s (files (L.commitFid s)))
    (hmark : RecordMark auth n (files (L.recordFid s))) :
    st.deleted = false ∧ st.recordSlot = s ∧ st.payloadSize = idStateSize ∧
      ∃ id, n ≤ id ∧ 0 < id ∧ id ≤ uint64Max ∧ payloadAt L files s = encodeId id := by
  unfold parseCommit at h
  split at h
  · exact absurd h (by simp)
  · exact absurd h (by simp)
  · next c tag hc =>
    split_ifs at h with h1 h2 h3
    · obtain ⟨hflags, -⟩ := hown c tag hc (not_not.mp h2)
      exact absurd (hflags.symm.trans h3) (by decide)
    · split at h
      · exact absurd h (by simp)
      · next hv =>
        have hslot : c.recordSlot = s := (hown c tag hc (not_not.mp h2)).2
        rw [← Except.ok.inj h]
        rw [hslot] at hv
        obtain ⟨header, p, hfile, hlen⟩ := validateRecord_ok hv
        obtain ⟨id, hn, hpos, hmax, rfl⟩ := hmark header p _ hfile rfl
        refine ⟨rfl, hslot, hlen.symm, id, hn, hpos, hmax, ?_⟩
        simp only [payloadAt, hfile]
  · exact absurd h (by simp)

theorem recover_notFound (h : recover auth L files = .error .fileNotFound) (hs : s < 2) :
    ∃ e, parseCommit auth L files s = .error e := by
  have hslots : s = 0 ∨ s = 1 := by omega
  cases h₀ : parseCommit auth L files 0 with
  | error e₀ =>
    cases h₁ : parseCommit auth L files 1 with
    | error e₁ =>
      rcases hslots with rfl | rfl
      · exact ⟨_, h₀⟩
      · exact ⟨_, h₁⟩
    | ok st₁ => simp [recover, recoverSlot, h₀, h₁, parseCommit_error h₀] at h
  | ok st₀ =>
    cases h₁ : parseCommit auth L files 1 with
    | error e₁ => simp [recover, recoverSlot, h₀, h₁, parseCommit_error h₁] at h
    | ok st₁ =>
      simp only [recover, recoverSlot, h₀, h₁] at h
      split_ifs at h
      exact absurd h (by simp)

theorem nextState_ok (h : nextState auth L files = .ok (t, g)) : t < 2 ∧ 0 < g ∧
    ((recover auth L files = .error .fileNotFound ∧ ∃ e, parseCommit auth L files (1 - t) = .error e) ∨
      ∃ st, recover auth L files = .ok st ∧ parseCommit auth L files (1 - t) = .ok st ∧
        st.generation < g) := by
  unfold nextState at h
  split at h
  · next hrec =>
    obtain ⟨rfl, rfl⟩ := Prod.mk.inj (Except.ok.inj h)
    exact ⟨by decide, by decide, .inl ⟨hrec, recover_notFound hrec (by decide)⟩⟩
  · exact absurd h (by simp)
  · next st hrec =>
    split at h
    · exact absurd h (by simp)
    · obtain ⟨rfl, rfl⟩ := Prod.mk.inj (Except.ok.inj h)
      obtain ⟨hs, hparse⟩ := recover_ok hrec
      have hback : 1 - (1 - st.commitSlot) = st.commitSlot := by omega
      refine ⟨by omega, Nat.succ_pos _, .inr ⟨st, hrec, ?_, Nat.lt_succ_self _⟩⟩
      rw [hback]
      exact hparse

omit [DecidableEq Tag] in
theorem Marks.own (h : Marks auth L n m) (hs : s < 2) : CommitOwn auth s (m.view (L.commitFid s)) :=
  h.commits s hs _ (m.possible_view _)

theorem Anchored.parse (h : Anchored auth L s m) (hs : s < 2) (hm : Marks auth L n m)
    (hp : ∀ k, m.Possible k (files k)) :
    parseCommit auth L files s = parseCommit auth L m.view s :=
  parseCommit_same (hm.own hs) (h.2.1 _ (hp _)) (h.2.2 _ (hp _))

theorem Anchored.write (h : Anchored auth L s m) (hs : s < 2) (hm : Marks auth L n m) {k : Nat}
    (hcommit : L.commitFid s ≠ k) (hrecord : L.recordFid s ≠ k) (v : Option (Content Tag)) :
    Anchored auth L s (m.write k v) := by
  refine ⟨?_, h.2.1.write hcommit v, h.2.2.write hrecord v⟩
  have hparse : parseCommit auth L (m.write k v).view s = parseCommit auth L m.view s :=
    parseCommit_same (hm.own hs) (Function.update_of_ne hcommit _ _) (Function.update_of_ne hrecord _ _)
  rw [hparse]
  exact h.1

omit [DecidableEq Tag] in
theorem Marks.write_commit (h : Marks auth L n m) (ht : t < 2) {c : Option (Content Tag)}
    (hc : CommitOwn auth t c) : Marks auth L n (m.write (L.commitFid t) c) := by
  refine ⟨fun x hx c' hc' => ?_, fun x hx r hr => ?_⟩
  · rcases hc'.of_write with hc' | ⟨hk, rfl⟩
    · exact h.commits x hx c' hc'
    · by_cases hxt : x = t
      · exact hxt ▸ hc
      · exact absurd hk ((L.fids hx ht).2 hxt).1
  · exact h.records x hx r (hr.of_write_ne (L.fids ht hx).1.symm)

omit [DecidableEq Tag] in
theorem Marks.write_record (h : Marks auth L n m) (ht : t < 2) {r : Option (Content Tag)}
    (hr : RecordMark auth n r) : Marks auth L n (m.write (L.recordFid t) r) := by
  refine ⟨fun x hx c hc => ?_, fun x hx r' hr' => ?_⟩
  · exact h.commits x hx c (hc.of_write_ne (L.fids hx ht).1)
  · rcases hr'.of_write with hr' | ⟨hk, rfl⟩
    · exact h.records x hx r' hr'
    · exact hr

theorem Guard.write_commit (h : Guard auth L t n m) (ht : t < 2) {c : Option (Content Tag)}
    (hc : CommitOwn auth t c) : Guard auth L t n (m.write (L.commitFid t) c) := by
  have hother : 1 - t < 2 := by omega
  refine ⟨h.1.write_commit ht hc, fun hn => (h.2 hn).write hother h.1 ?_ ?_ _⟩
  · exact ((L.fids hother ht).2 (by omega)).1
  · exact (L.fids ht hother).1.symm

theorem Guard.write_record (h : Guard auth L t n m) (ht : t < 2) {r : Option (Content Tag)}
    (hr : RecordMark auth n r) : Guard auth L t n (m.write (L.recordFid t) r) := by
  have hother : 1 - t < 2 := by omega
  refine ⟨h.1.write_record ht hr, fun hn => (h.2 hn).write hother h.1 ?_ ?_ _⟩
  · exact (L.fids hother ht).1
  · exact ((L.fids hother ht).2 (by omega)).2

theorem Guard.sync (h : Guard auth L t n m) : Guard auth L t n m.sync := by
  refine ⟨⟨fun x hx c hc => ?_, fun x hx r hr => ?_⟩, fun hn => ?_⟩
  · exact hc.of_sync ▸ h.1.commits x hx _ (m.possible_view _)
  · exact hr.of_sync ▸ h.1.records x hx _ (m.possible_view _)
  · exact ⟨(h.2 hn).1, m.fixed_sync _, m.fixed_sync _⟩

omit [DecidableEq Tag] in
theorem commitOwn_none (x : Nat) : CommitOwn auth x none := fun _ _ h => absurd h (by simp)

omit [DecidableEq Tag] in
theorem recordMark_none (n : Nat) : RecordMark auth n none := fun _ _ _ h => absurd h (by simp)

omit [DecidableEq Tag] in
theorem commitOwn_put (tag : Tag) (data : Data) :
    CommitOwn auth t (some (.commit (commitOf auth L t g data) tag)) := by
  intro h tag' he _
  obtain ⟨rfl, -⟩ := Content.commit.inj (Option.some.inj he)
  exact ⟨rfl, rfl⟩

omit [DecidableEq Tag] in
theorem recordMark_put {id : Nat} (hid : n ≤ id ∧ 0 < id ∧ id ≤ uint64Max) :
    RecordMark auth n (some (recordOf auth L t g (encodeId id))) := by
  intro h p tag he _
  obtain ⟨-, rfl, -⟩ := Content.record.inj (Option.some.inj he)
  exact ⟨id, hid.1, hid.2.1, hid.2.2, rfl⟩

/-- The slot after a put. -/
structure Written (auth : Authenticator Tag) (L : Layout) (t g : Nat) (data : Data)
    (files : Files Tag) : Prop where
  commit : files (L.commitFid t) = some (.commit (commitOf auth L t g data)
    (auth.sign (.commit (commitOf auth L t g data))))
  record : files (L.recordFid t) = some (recordOf auth L t g data)

theorem Written.parse {id : Nat} (h : Written auth L t g (encodeId id) files) (ht : t < 2) (hg : 0 < g) :
    parseCommit auth L files t = .ok ⟨g, g, idStateSize, t, t, false⟩ := by
  have hself : installed auth L (commitOf auth L t g (encodeId id)) files = files := by
    have hslot : (commitOf auth L t g (encodeId id)).slot = t := rfl
    unfold installed
    rw [hslot, ← h.commit, Function.update_eq_self]
  have hsize : (encodeId id).length ≤ uint32Max - recordHeaderSize - authTagSize := by
    rw [encodeId_length]
    decide
  have hparse : parseCommit auth L (installed auth L (commitOf auth L t g (encodeId id)) files) t =
      .ok ⟨g, g, (encodeId id).length, t, t, false⟩ := parseCommit_put ht hg hsize h.record
  rw [hself] at hparse
  exact hparse

theorem always_put_mark {id : Nat} (hnext : nextState auth L m.view = .ok (t, g))
    (hm : Guard auth L t n m) (hid : n ≤ id ∧ 0 < id ∧ id ≤ uint64Max) :
    always (put auth L (encodeId id))
      (fun _ n' => n'.sync = n' ∧ Guard auth L t n n' ∧ Written auth L t g (encodeId id) n'.view ∧
        ∀ k, k ≠ L.commitFid t → k ≠ L.recordFid t → n'.view k = m.view k)
      (fun _ n' => Guard auth L t n n') (Guard auth L t n) m := by
  have ht := (nextState_ok hnext).1
  have hstage := always_fill (I := fun n' => Guard auth L t n n' ∧
      ∀ k, k ≠ L.commitFid t → k ≠ L.recordFid t → n'.view k = m.view k) (encodeId id) ht hnext
    ⟨hm, fun _ _ _ => rfl⟩ ?_ ?_
  · simp only [put, bind_eq, always_bind]
    apply always_mono hstage _ (fun _ _ hn => hn.1) (fun _ hn => hn.1)
    rintro _ _ ⟨rfl, -, n', rfl, ⟨hn, hframe⟩, hempty, hfile⟩
    -- only the commit is missing
    have hsame : (n'.sync).view (L.commitFid (commitOf auth L t g (encodeId id)).slot) = none := hempty
    have hcommit := hn.sync.write_commit ht (commitOwn_put (L := L) (g := g)
      (auth.sign (.commit (commitOf auth L t g (encodeId id)))) (encodeId id))
    simp only [install, writeCommit, replaceFile, removeFile, bind_eq, always_bind, always_consult,
      hsame, Option.isSome_none, Bool.false_eq_true, if_false, pure_eq, always_done, always_putFile,
      if_true, syncOrFail, always_commitSync, always_fail]
    refine ⟨hn.sync, ⟨hcommit, ⟨rfl, hcommit.sync, ⟨?_, ?_⟩, ?_⟩, hcommit⟩, hn.sync, hcommit⟩
    · exact Function.update_self _ _ _
    · exact (Function.update_of_ne (L.fids ht ht).1.symm _ _).trans hfile
    · intro k hk hk'
      exact (Function.update_of_ne hk _ _).trans (hframe k hk hk')
  · rintro n' ⟨hn, hframe⟩
    refine ⟨hn.write_commit ht (commitOwn_none t), fun k hk hk' => ?_⟩
    exact (Function.update_of_ne hk _ _).trans (hframe k hk hk')
  · rintro n' v hv ⟨hn, hframe⟩
    refine ⟨hn.write_record ht ?_, fun k hk hk' => ?_⟩
    · rcases hv with rfl | rfl
      · exact recordMark_none n
      · exact recordMark_put hid
    · exact (Function.update_of_ne hk' _ _).trans (hframe k hk hk')

end Marks

/-! The calls. -/
section Calls

variable {Tag : Type} [DecidableEq Tag] {auth : Authenticator Tag} {L : Layout} {m : TxnCache Tag}
  {files : Files Tag} {n : Nat}

/-- What holds whenever power may be lost: the marks, and a slot that cannot be lost. -/
def Guarded (auth : Authenticator Tag) (L : Layout) (n : Nat) (m : TxnCache Tag) : Prop :=
  Marks auth L n m ∧ (0 < n → ∃ s < 2, Anchored auth L s m)

theorem Guard.guarded {t : Nat} (h : Guard auth L t n m) : Guarded auth L n m :=
  ⟨h.1, fun hn => ⟨1 - t, by omega, h.2 hn⟩⟩

theorem Guarded.boot (h : Guarded auth L n m) (hp : ∀ k, m.Possible k (files k)) :
    Guarded auth L n (Cache.boot files ()) ∧ Durable auth L (Cache.boot files ()) := by
  refine ⟨⟨⟨fun x hx c hc => ?_, fun x hx r hr => ?_⟩, fun hn => ?_⟩, ?_⟩
  · exact hc.of_boot ▸ h.1.commits x hx _ (hp _)
  · exact hr.of_boot ▸ h.1.records x hx _ (hp _)
  · obtain ⟨s, hs, hanchor⟩ := h.2 hn
    refine ⟨s, hs, ?_, Cache.fixed_boot _ _ _, Cache.fixed_boot _ _ _⟩
    have hparse : parseCommit auth L files s = parseCommit auth L m.view s := hanchor.parse hs h.1 hp
    exact hparse ▸ hanchor.1
  · exact fun s hs hvalid => ⟨hvalid, Cache.fixed_boot _ _ _, Cache.fixed_boot _ _ _⟩

theorem readMark_ok {free : Bool} {previous : Option Nat} (h : Guarded auth L n m)
    (hread : readMark auth L free m.view = .ok previous) :
    n < nextId previous ∧ nextId previous ≤ uint64Max := by
  unfold readMark at hread
  split at hread
  · next hrec =>
    -- nothing was found, so nothing was handed out
    have hn : n = 0 := by
      by_contra hn
      obtain ⟨s, hs, ⟨st, hst⟩, -⟩ := h.2 (Nat.pos_iff_ne_zero.mpr hn)
      obtain ⟨e, he⟩ := recover_notFound hrec hs
      exact absurd (he.symm.trans hst) (by simp)
    rw [← Except.ok.inj hread, hn]
    exact ⟨by decide, by decide⟩
  · exact absurd hread (by simp)
  · next st hrec =>
    obtain ⟨hs, hparse⟩ := recover_ok hrec
    obtain ⟨hd, hslot, hsize, id, hn, hpos, hmax, hpayload⟩ := parseCommit_mark hparse (h.1.own hs)
      (h.1.records _ hs _ (m.possible_view _))
    rw [hd, hslot, hpayload] at hread
    rw [if_neg (by decide)] at hread
    split_ifs at hread
    rcases Nat.lt_or_eq_of_le hmax with hlt | rfl
    · rw [decodeId_encode hpos hlt] at hread
      have hprevious : previous = some id := (Except.ok.inj hread).symm
      rw [hprevious]
      exact ⟨Nat.lt_succ_of_le hn, hlt⟩
    · rw [decodeId_last] at hread
      exact absurd hread (by simp [Except.map])

theorem Guarded.guard {t g : Nat} (h : Guarded auth L n m) (hd : Durable auth L m)
    (hnext : nextState auth L m.view = .ok (t, g)) : Guard auth L t n m := by
  refine ⟨h.1, fun hn => ?_⟩
  obtain ⟨ht, -, ⟨hrec, -⟩ | ⟨st, -, hparse, -⟩⟩ := nextState_ok hnext
  · obtain ⟨s, hs, ⟨st, hst⟩, -⟩ := h.2 hn
    obtain ⟨e, he⟩ := recover_notFound hrec hs
    exact absurd (he.symm.trans hst) (by simp)
  · exact hd (1 - t) (by omega) ⟨st, hparse⟩

theorem put_refused {data : Data} {e : ObjErr} {Q : Unit → TxnCache Tag → Prop}
    {R : ObjErr → TxnCache Tag → Prop} {C : TxnCache Tag → Prop}
    (hnext : nextState auth L m.view = .error e) (hR : ∀ e, R e m) :
    always (put auth L data) Q R C m := by
  simp only [put, bind_eq, always_bind]
  exact stagePut_refused hnext hR

theorem nextState_again {t g id : Nat} {m' : TxnCache Tag} (hm : Marks auth L n m)
    (hnext : nextState auth L m.view = .ok (t, g)) (hw : Written auth L t g (encodeId id) m'.view)
    (hframe : ∀ k, k ≠ L.commitFid t → k ≠ L.recordFid t → m'.view k = m.view k) :
    nextState auth L m'.view = if g = uint32Max then .error .wrongData else .ok (1 - t, g + 1) := by
  obtain ⟨ht, hg, hcases⟩ := nextState_ok hnext
  have hother : 1 - t < 2 := by omega
  have hne : 1 - t ≠ t := by omega
  have hparse : parseCommit auth L m'.view (1 - t) = parseCommit auth L m.view (1 - t) := by
    apply parseCommit_same (hm.own hother)
    · exact hframe _ ((L.fids hother ht).2 hne).1 (L.fids hother ht).1
    · exact hframe _ (L.fids ht hother).1.symm ((L.fids hother ht).2 hne).2
  have hrec : recover auth L m'.view = .ok ⟨g, g, idStateSize, t, t, false⟩ := by
    apply recover_eq ht (hw.parse ht hg)
    intro st' hst'
    rw [hparse] at hst'
    rcases hcases with ⟨-, e, he⟩ | ⟨st, -, hst, hlt⟩
    · exact absurd (he.symm.trans hst') (by simp)
    · rw [← Except.ok.inj (hst.symm.trans hst')]
      exact hlt
  simp only [nextState, hrec]

theorem always_allocate (free : Bool) (h : Guarded auth L n m) (hd : Durable auth L m) :
    always (recordIdAllocate auth L free)
      (fun id n' => n < id ∧ Guarded auth L id n' ∧ Durable auth L n')
      (fun _ n' => Guarded auth L n n') (Guarded auth L n) m := by
  simp only [recordIdAllocate, bind_eq, always_bind, always_consult]
  cases hread : readMark auth L free m.view with
  | error e => exact h
  | ok previous =>
    obtain ⟨hnew, hmax⟩ := readMark_ok h hread
    rw [always_liftCheck_ok]
    generalize nextId previous = id at hnew hmax
    have hid : n ≤ id ∧ 0 < id ∧ id ≤ uint64Max := ⟨by omega, by omega, hmax⟩
    cases hnext : nextState auth L m.view with
    | error e => exact put_refused hnext fun _ => h
    | ok p =>
      obtain ⟨t, g⟩ := p
      obtain ⟨ht, hg, -⟩ := nextState_ok hnext
      apply always_mono (always_put_mark hnext (h.guard hd hnext) hid) _
        (fun _ _ hn => hn.guarded) (fun _ hn => hn.guarded)
      rintro _ m₁ ⟨hsync₁, hguard₁, hw₁, hframe₁⟩
      have hagain := nextState_again h.1 hnext hw₁ hframe₁
      have hback : 1 - (1 - t) = t := by omega
      have hother : 1 - t < 2 := by omega
      -- the slot just written is durable
      have hguard₂ : Guard auth L (1 - t) n m₁ := by
        refine ⟨hguard₁.1, fun _ => ?_⟩
        rw [hback]
        refine ⟨⟨_, hw₁.parse ht hg⟩, ?_, ?_⟩
        · exact hsync₁ ▸ m₁.fixed_sync _
        · exact hsync₁ ▸ m₁.fixed_sync _
      split at hagain
      · exact put_refused hagain fun _ => hguard₂.guarded
      · apply always_mono (always_put_mark hagain hguard₂ hid) _ (fun _ _ hn => hn.guarded)
          (fun _ hn => hn.guarded)
        rintro _ m₂ ⟨hsync₂, hguard₃, hw₂, hframe₂⟩
        have hview : ∀ k v, m₂.Possible k v → v = m₂.view k := by
          intro k v hv
          rw [← hsync₂] at hv
          exact hv.of_sync
        have hrecord₁ : m₂.view (L.recordFid t) = some (recordOf auth L t g (encodeId id)) := by
          rw [hframe₂ _ (L.fids hother ht).1.symm ((L.fids hother ht).2 (by omega)).2.symm]
          exact hw₁.record
        have hfixed : ∀ k, m₂.Fixed k := fun k v hv => hview k v hv
        refine ⟨hnew, ⟨⟨hguard₃.1.commits, fun x hx r hr => ?_⟩, fun _ => ?_⟩, ?_⟩
        · rw [hview _ _ hr]
          have hx' : x = t ∨ x = 1 - t := by omega
          rcases hx' with rfl | rfl
          · rw [hrecord₁]
            exact recordMark_put ⟨Nat.le_refl _, hid.2⟩
          · rw [hw₂.record]
            exact recordMark_put ⟨Nat.le_refl _, hid.2⟩
        · exact ⟨1 - t, hother, ⟨_, hw₂.parse hother (Nat.succ_pos _)⟩, hfixed _, hfixed _⟩
        · exact fun s _ hvalid => ⟨hvalid, hfixed _, hfixed _⟩

end Calls

/-! Runs of the allocation, with power losses and damage in between. -/
section Runs

variable {Tag : Type} [DecidableEq Tag] (auth : Authenticator Tag) (L : Layout)

/-- Damage does not produce anything that verifies. -/
def Unauthentic (c : Option (Content Tag)) : Prop :=
  (∀ h tag, c = some (.commit h tag) → auth.sign (.commit h) ≠ tag) ∧
  ∀ h p tag, c = some (.record h p tag) → auth.sign (.record h p) ≠ tag

/-- What may become of a file of the damaged slot. -/
def Damaged (old new : Option (Content Tag)) : Prop := new = old ∨ Unauthentic auth new

def damage (s : Nat) (c r : Option (Content Tag)) (m : TxnCache Tag) : TxnCache Tag :=
  (m.overwrite (L.commitFid s) c).overwrite (L.recordFid s) r

def BothValid (m : TxnCache Tag) : Prop := ∀ s < 2, ∃ st, parseCommit auth L m.view s = .ok st

/-- Runs of file_object_record_id_allocate with the ids they hand out, the last one first. A call
that fails leaves the valid slots durable, and damage strikes only when both slots are valid. -/
inductive IdRun : TxnCache Tag → List Nat → Prop
  | start (m : TxnCache Tag) (hc : ∀ x < 2, ∀ c, m.Possible (L.commitFid x) c → c = none)
      (hr : ∀ x < 2, ∀ r, m.Possible (L.recordFid x) r → r = none) : IdRun m []
  | issued (m n : TxnCache Tag) (ids : List Nat) (free : Bool) (rs : List Reply) (id : Nat)
      (h : IdRun m ids) (hdone : perform (recordIdAllocate auth L free) m rs = (.done id, n)) :
      IdRun n (id :: ids)
  | failed (m n : TxnCache Tag) (ids : List Nat) (free : Bool) (rs : List Reply) (e : ObjErr)
      (h : IdRun m ids) (hfail : perform (recordIdAllocate auth L free) m rs = (.fail e, n))
      (hdurable : Durable auth L n) : IdRun n ids
  | lost (m n : TxnCache Tag) (ids : List Nat) (free : Bool) (rs : List Reply)
      (out : Outcome ObjErr Nat) (files : Files Tag) (h : IdRun m ids)
      (hrun : perform (recordIdAllocate auth L free) m rs = (out, n)) (hout : ∀ id, out ≠ .done id)
      (hlost : n.Survives files) : IdRun (Cache.boot files ()) ids
  | restart (m : TxnCache Tag) (ids : List Nat) (files : Files Tag) (h : IdRun m ids)
      (hlost : m.Survives files) : IdRun (Cache.boot files ()) ids
  | damaged (m : TxnCache Tag) (ids : List Nat) (s : Nat) (c r : Option (Content Tag))
      (h : IdRun m ids) (hs : s < 2) (hboth : BothValid auth L m)
      (hc : Damaged auth (m.view (L.commitFid s)) c) (hr : Damaged auth (m.view (L.recordFid s)) r) :
      IdRun (damage L s c r m) ids

variable {auth L} {m : TxnCache Tag} {n : Nat}

theorem Guarded.damage {s : Nat} {c r : Option (Content Tag)} (h : Guarded auth L n m)
    (hd : Durable auth L m) (hs : s < 2) (hboth : BothValid auth L m)
    (hc : Damaged auth (m.view (L.commitFid s)) c) (hr : Damaged auth (m.view (L.recordFid s)) r) :
    Guarded auth L n (damage L s c r m) ∧ Durable auth L (damage L s c r m) := by
  have hother : 1 - s < 2 := by omega
  have hne : 1 - s ≠ s := by omega
  have hcommit : L.commitFid (1 - s) ≠ L.commitFid s := ((L.fids hother hs).2 hne).1
  have hrecord : L.recordFid (1 - s) ≠ L.recordFid s := ((L.fids hother hs).2 hne).2
  have hmarks : Marks auth L n (Txn.damage L s c r m) := by
    refine ⟨fun x hx c' hc' => ?_, fun x hx r' hr' => ?_⟩
    · rcases hc'.of_overwrite with ⟨he, -⟩ | ⟨-, hc'⟩
      · exact absurd he (L.fids hx hs).1
      · rcases hc'.of_overwrite with ⟨he, rfl⟩ | ⟨-, hc'⟩
        · have hxs : x = s := by
            by_contra hxs
            exact ((L.fids hx hs).2 hxs).1 he
          subst hxs
          rcases hc with rfl | hc
          · exact h.1.own hx
          · exact fun d tag hd hsign => absurd hsign (hc.1 d tag hd)
        · exact h.1.commits x hx c' hc'
    · rcases hr'.of_overwrite with ⟨-, rfl⟩ | ⟨-, hr'⟩
      · rcases hr with rfl | hr
        · exact h.1.records s hs _ (m.possible_view _)
        · exact fun d p tag hd hsign => absurd hsign (hr.2 d p tag hd)
      · rcases hr'.of_overwrite with ⟨he, -⟩ | ⟨-, hr'⟩
        · exact absurd he.symm (L.fids hs hx).1
        · exact h.1.records x hx r' hr'
  have hanchor : Anchored auth L (1 - s) (Txn.damage L s c r m) := by
    obtain ⟨hvalid, hfixed⟩ := hd (1 - s) hother (hboth (1 - s) hother)
    refine ⟨?_, ?_, ?_⟩
    · have hparse : parseCommit auth L (Txn.damage L s c r m).view (1 - s) =
          parseCommit auth L m.view (1 - s) := by
        apply parseCommit_same (h.1.own hother)
        · exact (Function.update_of_ne (L.fids hother hs).1 _ _).trans
            (Function.update_of_ne hcommit _ _)
        · exact (Function.update_of_ne hrecord _ _).trans
            (Function.update_of_ne (L.fids hs hother).1.symm _ _)
      rw [hparse]
      exact hvalid
    · exact (hfixed.1.overwrite hcommit c).overwrite (L.fids hother hs).1 r
    · exact (hfixed.2.overwrite (L.fids hs hother).1.symm c).overwrite hrecord r
  refine ⟨⟨hmarks, fun _ => ⟨1 - s, hother, hanchor⟩⟩, fun x hx hvalid => ?_⟩
  by_cases hxs : x = s
  · subst hxs
    exact ⟨hvalid, (Cache.fixed_overwrite m _ c).overwrite (L.fids hs hs).1 r,
      Cache.fixed_overwrite _ _ r⟩
  · have : x = 1 - s := by omega
    subst this
    exact hanchor

theorem IdRun.guarded {ids : List Nat} (h : IdRun auth L m ids) :
    Guarded auth L (ids.headD 0) m ∧ Durable auth L m ∧ ids.Pairwise fun later earlier => earlier < later := by
  have hsurvive : ∀ {m' : TxnCache Tag} {files : Files Tag}, m'.Survives files →
      ∀ k, m'.Possible k (files k) := fun hf => hf.possible
  induction h with
  | start m hc hr =>
    refine ⟨⟨⟨fun x hx c hp => ?_, fun x hx r hp => ?_⟩, fun h0 => absurd h0 (by simp)⟩, ?_, .nil⟩
    · exact hc x hx c hp ▸ commitOwn_none x
    · exact hr x hx r hp ▸ recordMark_none _
    · rintro s hs ⟨st, hst⟩
      obtain ⟨⟨c, tag, hcommit, -⟩, -⟩ := parseCommit_ok hst
      have hnone := hc s hs _ (m.possible_view _)
      exact absurd (hnone.symm.trans hcommit) (by simp)
  | issued m n ids free rs id _ hdone ih =>
    have hsound := always_sound (always_allocate free ih.1 ih.2.1) rs
    rw [hdone] at hsound
    obtain ⟨hnew, hguard, hdurable⟩ := hsound
    refine ⟨hguard, hdurable, List.pairwise_cons.mpr ⟨fun earlier hin => ?_, ih.2.2⟩⟩
    -- the last id was the largest
    cases ids with
    | nil => exact absurd hin List.not_mem_nil
    | cons last rest =>
      have hlast : last < id := hnew
      rcases List.mem_cons.mp hin with rfl | hin
      · exact hlast
      · exact Nat.lt_trans ((List.pairwise_cons.mp ih.2.2).1 earlier hin) hlast
  | failed m n ids free rs e _ hfail hdurable ih =>
    have hsound := always_sound (always_allocate free ih.1 ih.2.1) rs
    rw [hfail] at hsound
    exact ⟨hsound, hdurable, ih.2.2⟩
  | lost m n ids free rs out files _ hrun hout hlost ih =>
    have hsound := always_sound (always_allocate free ih.1 ih.2.1) rs
    rw [hrun] at hsound
    have hguard : Guarded auth L (ids.headD 0) n := by
      cases out with
      | done id => exact absurd rfl (hout id)
      | fail e => exact hsound
      | lost => exact hsound
    obtain ⟨hboot, hdurable⟩ := hguard.boot (hsurvive hlost)
    exact ⟨hboot, hdurable, ih.2.2⟩
  | restart m ids files _ hlost ih =>
    obtain ⟨hboot, hdurable⟩ := ih.1.boot (hsurvive hlost)
    exact ⟨hboot, hdurable, ih.2.2⟩
  | damaged m ids s c r _ hs hboth hc hr ih =>
    obtain ⟨hguard, hdurable⟩ := ih.1.damage ih.2.1 hs hboth hc hr
    exact ⟨hguard, hdurable, ih.2.2⟩

end Runs

/-- The ids that are handed out increase. -/
theorem record_ids_increase {Tag : Type} [DecidableEq Tag] (auth : Authenticator Tag) (L : Layout)
    (m : TxnCache Tag) (ids : List Nat) (h : IdRun auth L m ids) :
    ids.Pairwise fun later earlier => earlier < later :=
  h.guarded.2.2

def allocatedOnce : TxnCache (List Nat) :=
  (perform (recordIdAllocate sampleAuth sampleLayout true) emptyCache []).2

def allocatedTwice : TxnCache (List Nat) :=
  (perform (recordIdAllocate sampleAuth sampleLayout true) allocatedOnce []).2

/-- Two calls, two ids. -/
theorem second_id_larger :
    IdRun sampleAuth sampleLayout allocatedTwice [2, 1] ∧
    ([2, 1] : List Nat).Pairwise fun later earlier => earlier < later := by
  have hempty : IdRun sampleAuth sampleLayout emptyCache [] := by
    refine .start _ (fun x _ c hc => ?_) (fun x _ r hr => ?_)
    · rw [hc.of_boot]
    · rw [hr.of_boot]
  have hfirst : IdRun sampleAuth sampleLayout allocatedOnce [1] :=
    .issued emptyCache _ [] true [] 1 hempty (Prod.ext (by decide +kernel) rfl)
  have hsecond : IdRun sampleAuth sampleLayout allocatedTwice [2, 1] :=
    .issued allocatedOnce _ [1] true [] 2 hfirst (Prod.ext (by decide +kernel) rfl)
  exact ⟨hsecond, record_ids_increase sampleAuth sampleLayout _ _ hsecond⟩

/-- The second call is ended by a power loss when one slot holds its mark and the other is cleared. -/
def endedHalfway : TxnCache (List Nat) :=
  (perform (recordIdAllocate sampleAuth sampleLayout true) allocatedOnce
    [.ok, .ok, .ok, .ok, .ok, .ok, .ok, .ok, .ok, .ok, .powerLoss]).2

/-- Damage to the one slot that is left, and the ids start again. -/
theorem id_repeats :
    (perform (recordIdAllocate sampleAuth sampleLayout true) emptyCache []).1 = .done 1 ∧
    endedHalfway.Survives endedHalfway.flash ∧
    Damaged sampleAuth (endedHalfway.flash (sampleLayout.recordFid 0)) (some (.other 5)) ∧
    (perform (recordIdAllocate sampleAuth sampleLayout true)
      (damage sampleLayout 0 (endedHalfway.flash (sampleLayout.commitFid 0)) (some (.other 5))
        (Cache.boot endedHalfway.flash ())) []).1 = .done 1 := by
  refine ⟨by decide +kernel, Cache.survives_flash _, .inr ⟨?_, ?_⟩, by decide +kernel⟩
  · exact fun _ _ h => absurd h (by simp)
  · exact fun _ _ _ h => absurd h (by simp)

end Txn

end KeyWallet
