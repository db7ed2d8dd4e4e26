import KeyWallet.FlashPools

/-! What the three writes make of the records: a file that is cleared, a file written in place, and a file
written to a new record, with the failures that they make up for. -/
namespace KeyWallet.FlashFile

open ByteBuffer (blit window)

section Memory

variable {l : Layout} {m m' : Memory} {chains : Bool → List Nat} {p : Bool} {pre post : List Nat} {addr base b : Nat}

theorem first_apart {a : Nat} (h : ∀ n, post.head? = some n → a < n + 4 ∨ n + 8 ≤ a) :
    first post = 0 ∨ a < first post + 4 ∨ first post + 8 ≤ a := by
  cases post with
  | nil => exact .inl rfl
  | cons n post => exact .inr (h n rfl)

/-- flash_clear_file takes the record of the file out of the list, and zeroes its payload. -/
theorem clearFile_linked {rs : ClearReplies} (hrs : rs.Safe) (h : Linked l m chains) {q : Bool}
    (hb : b ∈ chains q) :
    (clearFile rs m (b + 10)).1 = true ∧
      (∃ chains', Linked l (clearFile rs m (b + 10)).2 chains' ∧
        ∀ q c, c ∈ chains' q ↔ c ∈ chains q ∧ c ≠ b) ∧
      (∀ q, ∀ c ∈ chains q, c ≠ b → Kept m (clearFile rs m (b + 10)).2 c) ∧
      ∀ i < fileSize m (b + 10), (clearFile rs m (b + 10)).2 (b + 10 + lengthSize m (b + 10) + i) = 0 := by
  obtain ⟨pre, post, hsplit⟩ := List.append_of_mem hb
  obtain ⟨_, hnode, hrest⟩ := h.split hsplit
  obtain ⟨hnext, hpost⟩ := (chain_iff post).mp hrest
  have hpos := l.startp_pos q
  have hhigh := hnode.high
  have hsize := twelve_le_recordSize m b
  have hplace : b + recordSize m b ≤ readU32 m (b + 4) := by
    rw [hnode.back]
    exact hhigh
  have hroom : readU32 m b = 0 ∨ readU32 m b + 8 ≤ b := by
    rw [hnext]
    by_cases hz : first post = 0
    · exact .inl hz
    · obtain ⟨n, hn⟩ := (first_pos hpost hpos).mp hz
      have hhead := (hpost.head hn).2.1
      have hsize' := twelve_le_recordSize m n
      rw [first_eq hn]
      omega
  obtain ⟨hok, hcleared⟩ := clearFile_spec hrs m b hplace hroom
  rw [hnode.back, hnext] at hcleared
  generalize (clearFile rs m (b + 10)).2 = m' at *
  have hbeside : Beside m m' b (last (l.endp q) pre) post := by
    intro a ha hn
    exact hcleared.apart a (by omega) (by omega) (first_apart hn)
  have hback : ∀ n, post.head? = some n → readU32 m' (n + 4) = last (l.endp q) pre := by
    intro n hn
    have hword := hcleared.back ((first_pos hpost hpos).mpr ⟨n, hn⟩)
    rw [first_eq hn] at hword
    exact hword
  obtain ⟨hchains, hkept⟩ := h.remove hsplit hbeside hcleared.next hback
  exact ⟨hok, hchains, hkept, hcleared.zero⟩

/-! The place of a new record. -/

/-- Where allocate_free_addr puts a record for so many bytes, before it writes. -/
def place (l : Layout) (m : Memory) (size : Nat) (persistent : Bool) : Option (Nat × Nat) :=
  if 4294967296 ≤ realSizeOf size ∨ l.endp persistent - l.startp persistent < realSizeOf size then none
  else allocateFrom m (realSizeOf size) (l.startp persistent) (l.endp persistent) (l.endp persistent)

theorem allocateFreeAddr_none {rs : LinkReplies} {size : Nat} (h : place l m size p = none) :
    allocateFreeAddr l rs m size p = (none, m) := by
  by_cases hlarge : 4294967296 ≤ realSizeOf size ∨ l.endp p - l.startp p < realSizeOf size
  · rw [allocateFreeAddr, if_pos hlarge]
  · rw [place, if_neg hlarge] at h
    rw [allocateFreeAddr, if_neg hlarge, h]

theorem allocateFreeAddr_some (rs : LinkReplies) {size : Nat} (h : place l m size p = some (addr, base)) :
    allocateFreeAddr l rs m size p =
      (if (linkNew rs m addr (readU32 m base) base).1 = true then some (addr, base) else none,
        (linkNew rs m addr (readU32 m base) base).2) := by
  by_cases hlarge : 4294967296 ≤ realSizeOf size ∨ l.endp p - l.startp p < realSizeOf size
  · rw [place, if_pos hlarge] at h
    cases h
  · rw [place, if_neg hlarge] at h
    rw [allocateFreeAddr, if_neg hlarge, h]

theorem allocateFrom_spec {lo size fuel e : Nat} {bs : List Nat} (hlo : 0 < lo) (hc : Chain m lo e bs)
    (hf : allocateFrom m size lo fuel e = some (addr, base)) :
    ∃ pre post, bs = pre ++ post ∧ base = last e pre ∧ addr + size = base ∧ lo ≤ addr ∧ Free m addr post := by
  -- on the walk: it stops below `e`, or goes on from the first record
  induction fuel generalizing e bs with
  | zero => cases hf
  | succ fuel ih =>
    obtain ⟨hnext, hbelow⟩ := (chain_iff bs).mp hc
    simp only [allocateFrom] at hf
    by_cases hend : e < lo ∨ e < size
    · rw [if_pos hend] at hf
      cases hf
    · rw [if_neg hend] at hf
      by_cases hbad : readU32 m e ≠ 0 ∧ (e ≤ readU32 m e ∨ e - readU32 m e < recordSize m (readU32 m e))
      · rw [if_pos hbad] at hf
        cases hf
      · rw [if_neg hbad] at hf
        by_cases hfits : gapStart m lo (readU32 m e) ≤ e - size ∧ lo ≤ e - size
        · rw [if_pos hfits] at hf
          obtain ⟨rfl, rfl⟩ := Prod.mk.inj (Option.some.inj hf)
          refine ⟨[], bs, rfl, rfl, by omega, hfits.2, ?_⟩
          intro n hn
          have hgap := hfits.1
          have hne : readU32 m e ≠ 0 := by
            rw [hnext]
            exact (first_pos hbelow hlo).mpr ⟨n, hn⟩
          rw [gapStart, if_pos hne, hnext, first_eq hn] at hgap
          exact hgap
        · rw [if_neg hfits] at hf
          by_cases hz : readU32 m e = 0
          · rw [if_pos hz] at hf
            cases hf
          · rw [if_neg hz] at hf
            cases bs with
            | nil => exact absurd hnext hz
            | cons n bs =>
              have hn : readU32 m e = n := hnext
              rw [hn] at hf
              obtain ⟨pre, post, rfl, hbase, hrest⟩ := ih hbelow.2 hf
              exact ⟨n :: pre, post, rfl, hbase, hrest⟩

/-- The place of a new record in the list of its pool. -/
structure Spot (l : Layout) (m : Memory) (chains : Bool → List Nat) (p : Bool) (pre post : List Nat)
    (addr size : Nat) : Prop where
  split : chains p = pre ++ post
  high : addr + size = last (l.endp p) pre
  low : l.startp p ≤ addr
  free : Free m addr post

theorem place_spot {size : Nat} (h : Linked l m chains) (hp : place l m size p = some (addr, base)) :
    realSizeOf size < 4294967296 ∧
      ∃ pre post, base = last (l.endp p) pre ∧ Spot l m chains p pre post addr (realSizeOf size) := by
  by_cases hlarge : 4294967296 ≤ realSizeOf size ∨ l.endp p - l.startp p < realSizeOf size
  · rw [place, if_pos hlarge] at hp
    cases hp
  · rw [place, if_neg hlarge] at hp
    obtain ⟨pre, post, hsplit, hbase, hhigh, hlow, hfree⟩ := allocateFrom_spec (l.startp_pos p) (h p) hp
    refine ⟨by omega, pre, post, hbase, hsplit, ?_, hlow, hfree⟩
    rw [← hbase]
    exact hhigh

/-- The new record was linked, and its calls answer so that a failure is made up for. -/
structure AnewSafe (rs : WriteReplies) (f : File) (fid : Fid) (m : Memory) (newSize addr base : Nat) : Prop where
  nextPrev : readU32 m base = 0 ∨ rs.link.nextPrev = none ∨ rs.link.nextPrev = some 0
  header : HeaderWithin rs m fid addr newSize
  clearNew : rs.clearNew.Safe
  clearOld : f.data ≠ none → rs.clearOld.Safe
  commitOld : f.data ≠ none → flashSectorSize < realSizeOf newSize → rs.commitOld = true

section Spot

variable {size : Nat}

theorem Spot.le (s : Spot l m chains p pre post addr size) : addr ≤ last (l.endp p) pre := by
  have hhigh := s.high
  omega

theorem Spot.next (s : Spot l m chains p pre post addr size) (h : Linked l m chains) :
    readU32 m (last (l.endp p) pre) = first post := (h.split s.split).1.tail

theorem Spot.kept (s : Spot l m chains p pre post addr size) (h : Linked l m chains)
    (hm : Beside m m' addr (last (l.endp p) pre) post) {q : Bool} (hb : b ∈ chains q) : Kept m m' b :=
  h.beside_kept s.split hm s.free s.low s.le hb

theorem Spot.apart (s : Spot l m chains p pre post addr size) (h : Linked l m chains) {q : Bool}
    (hb : b ∈ chains q) : b + recordSize m b ≤ addr ∨ addr + size ≤ b := by
  have hhigh := s.high
  have hplace := h.free_apart s.split s.free s.low s.le hb
  omega

theorem Spot.fresh (s : Spot l m chains p pre post addr size) (h : Linked l m chains) (hsize : 0 < size)
    {q : Bool} : addr ∉ chains q := by
  intro hb
  have hplace := s.apart h hb
  have htwelve := twelve_le_recordSize m addr
  omega

theorem Spot.first_lt (s : Spot l m chains p pre post addr size) : first post = 0 ∨ first post + 8 ≤ addr := by
  cases post with
  | nil => exact .inl rfl
  | cons n post =>
    have hroom := s.free.head_lt rfl
    right
    simp only [first, List.headD_cons]
    omega

theorem Spot.link_beside (s : Spot l m chains p pre post addr size) (h : Linked l m chains) (hsize : 8 ≤ size)
    (rs : LinkReplies) :
    Beside m (linkNew rs m addr (readU32 m (last (l.endp p) pre)) (last (l.endp p) pre)).2 addr
      (last (l.endp p) pre) post := by
  have hhigh := s.high
  intro a ha hn
  rw [s.next h]
  exact linkNew_apart rs m addr _ _ (by omega) (first_apart hn)

theorem Spot.link_failed (s : Spot l m chains p pre post addr size) (h : Linked l m chains) (hsize : 8 ≤ size)
    {rs : LinkReplies} (hback : first post = 0 ∨ rs.nextPrev = none ∨ rs.nextPrev = some 0)
    (hfail : (linkNew rs m addr (readU32 m (last (l.endp p) pre)) (last (l.endp p) pre)).1 = false) :
    Linked l (linkNew rs m addr (readU32 m (last (l.endp p) pre)) (last (l.endp p) pre)).2 chains := by
  obtain ⟨_, hpost⟩ := h.split s.split
  have hhigh := s.high
  have hnext := s.next h
  rw [hnext] at hfail ⊢
  have hbeside := s.link_beside h hsize rs
  rw [hnext] at hbeside
  refine h.restore s.split hbeside s.free s.low s.le ?_ ?_
  · refine (readU32_congr ?_).trans hnext
    intro a ha ha'
    exact linkNew_failed hback hfail (by omega)
  · intro n hn
    have hroom := s.free.head_lt hn
    refine (readU32_congr ?_).trans (hpost.head hn).2.2
    intro a ha ha'
    exact linkNew_failed hback hfail (by omega)

/-- What a linked record reads. -/
structure Spot.Ready (l : Layout) (m m' : Memory) (p : Bool) (pre post : List Nat) (addr : Nat) : Prop where
  beside : Beside m m' addr (last (l.endp p) pre) post
  next : readU32 m' addr = first post
  prev : readU32 m' (addr + 4) = last (l.endp p) pre
  back : ∀ n, post.head? = some n → readU32 m' (n + 4) = addr

theorem Spot.link_ready (s : Spot l m chains p pre post addr size) (h : Linked l m chains) (hsize : 8 ≤ size)
    {rs : LinkReplies}
    (hok : (linkNew rs m addr (readU32 m (last (l.endp p) pre)) (last (l.endp p) pre)).1 = true) :
    Spot.Ready l m (linkNew rs m addr (readU32 m (last (l.endp p) pre)) (last (l.endp p) pre)).2 p pre post addr := by
  obtain ⟨hpre, hpost⟩ := h.split s.split
  have hbeside := s.link_beside h hsize rs
  have hle := hpre.last_le
  have haddr := s.le
  have hlt := l.endp_lt p
  have hnext := s.next h
  have hword := readU32_lt m (last (l.endp p) pre)
  rw [hnext] at hok hbeside hword ⊢
  obtain ⟨h1, h2, h3⟩ := linkNew_ok s.first_lt hword (by omega) (by omega) hok
  refine ⟨hbeside, h1, h2, ?_⟩
  intro n hn
  rw [first_eq hn] at h3 ⊢
  have hroom := (hpost.head hn).1
  have hpos := l.startp_pos p
  exact h3 (by omega)

end Spot

/-! The new record. -/

variable {rs : WriteReplies} {f : File} {fid : Fid} {bytes : Bytes} {offset newSize : Nat} {partly : Bool}

/-- The file is one of the records, if it has data. -/
def Placed (chains : Bool → List Nat) (old : Option Nat) : Prop :=
  ∀ d, old = some d → ∃ q, ∃ b ∈ chains q, d = b + 10

theorem Spot.old_apart {size : Nat} (s : Spot l m chains p pre post addr size) (h : Linked l m chains)
    {old : Option Nat} (hold : Placed chains old) : OldApart m old addr size := by
  intro d hd
  obtain ⟨q, b, hb, rfl⟩ := hold d hd
  have hplace := s.apart h hb
  rw [recordSize] at hplace
  omega

theorem Linked.stored_eq (hkept : ∀ q, ∀ b ∈ chains q, Kept m m' b) {old : Option Nat}
    (hold : Placed chains old) : stored m' old = stored m old := by
  cases old with
  | none => rfl
  | some d =>
    obtain ⟨q, b, hb, rfl⟩ := hold d rfl
    exact (hkept q b hb).stored_eq

theorem Spot.record_spec {r : Bool × Memory} (s : Spot l m chains p pre post addr (realSizeOf newSize))
    (h : Linked l m chains) (hr : Spot.Ready l m m' p pre post addr) (hsame : ∀ a, addr + 8 ≤ a → m' a = m a)
    (hold : Placed chains f.data) (hs : Sized (stored m f.data) offset bytes newSize partly)
    (hlt : realSizeOf newSize < 4294967296) (hhead : HeaderWithin rs m fid addr newSize)
    (hrun : r = writeRecord rs m' f.data fid addr (last (l.endp p) pre) bytes offset newSize partly) :
    Spot.Ready l m r.2 p pre post addr ∧ recordSize r.2 addr ≤ realSizeOf newSize ∧
      ((writeHeader rs m fid addr newSize).1 = true →
        lengthSize r.2 (addr + 10) = lengthSizeOf newSize ∧ fileSize r.2 (addr + 10) = newSize) ∧
      (r.1 = true →
        Published r.2 fid addr (last (l.endp p) pre) (written (stored m f.data) offset bytes partly)) := by
  have hreal : realSizeOf newSize = 10 + lengthSizeOf newSize + newSize := rfl
  have hhigh := s.high
  have hle := (h.split s.split).1.last_le
  have hend := l.endp_lt p
  have hkept : ∀ q, ∀ b ∈ chains q, Kept m m' b := fun q b hb => s.kept h hr.beside hb
  have hstored : stored m' f.data = stored m f.data := Linked.stored_eq hkept hold
  have hs' : Sized (stored m' f.data) offset bytes newSize partly := by
    rw [hstored]
    exact hs
  have hold' : OldApart m' f.data addr (realSizeOf newSize) := by
    intro d hd
    have hplace := s.old_apart h hold d hd
    obtain ⟨q, b, hb, rfl⟩ := hold d hd
    rw [(hkept q b hb).length_eq.1, (hkept q b hb).length_eq.2]
    exact hplace
  have hhead' : HeaderWithin rs m' fid addr newSize := by
    have hfree : Kept (writeHeader rs m fid addr newSize).2 (writeHeader rs m' fid addr newSize).2 addr := by
      intro a ha _
      exact writeHeader_congr rs fid addr newSize (hsame a ha)
    rw [HeaderWithin, hfree.recordSize_eq]
    exact hhead
  obtain ⟨hout, hsize, hfield, hpub⟩ := writeRecord_spec hs' hold' (by omega) hhigh (by omega) hhead'
  rw [← hrun] at hout hsize hfield hpub
  rw [hstored] at hpub
  rw [writeHeader_fst rs m m'] at hfield
  refine ⟨⟨?_, ?_, ?_, ?_⟩, hsize, hfield, hpub⟩
  · intro a ha hn
    rw [hout a (by omega)]
    exact hr.beside a ha hn
  · refine (readU32_congr ?_).trans hr.next
    intro a ha ha'
    exact hout a (by omega)
  · refine (readU32_congr ?_).trans hr.prev
    intro a ha ha'
    exact hout a (by omega)
  · intro n hn
    have hroom := s.free.head_lt hn
    refine (readU32_congr ?_).trans (hr.back n hn)
    intro a ha ha'
    exact hout a (by omega)

theorem Spot.take_back {rs : ClearReplies} {size : Nat} (s : Spot l m chains p pre post addr size)
    (h : Linked l m chains) (hr : Spot.Ready l m m' p pre post addr) (hsize : recordSize m' addr ≤ size)
    (hrs : rs.Safe) :
    Linked l (clearFile rs m' (addr + 10)).2 chains ∧
      (∀ q, ∀ b ∈ chains q, Kept m (clearFile rs m' (addr + 10)).2 b) ∧
      ∀ i < fileSize m' (addr + 10),
        (clearFile rs m' (addr + 10)).2 (addr + 10 + lengthSize m' (addr + 10) + i) = 0 := by
  obtain ⟨_, hpost⟩ := h.split s.split
  have hhigh := s.high
  have hpos := l.startp_pos p
  have hplace : addr + recordSize m' addr ≤ readU32 m' (addr + 4) := by
    rw [hr.prev]
    omega
  have hroom : readU32 m' addr = 0 ∨ readU32 m' addr + 8 ≤ addr := by
    rw [hr.next]
    exact s.first_lt
  obtain ⟨_, hcleared⟩ := clearFile_spec hrs m' addr hplace hroom
  rw [hr.prev, hr.next] at hcleared
  generalize (clearFile rs m' (addr + 10)).2 = m'' at *
  have hbeside : Beside m m'' addr (last (l.endp p) pre) post := by
    apply hr.beside.trans
    intro a ha hn
    exact hcleared.apart a (by omega) (by omega) (first_apart hn)
  refine ⟨?_, fun q b hb => s.kept h hbeside hb, hcleared.zero⟩
  refine h.restore s.split hbeside s.free s.low s.le hcleared.next ?_
  intro n hn
  have hword := hcleared.back ((first_pos hpost hpos).mpr ⟨n, hn⟩)
  rw [first_eq hn] at hword
  exact hword

/-- What a file is after a write to a new record at `addr`, in the pool `p`. -/
structure Rewritten (l : Layout) (m m' : Memory) (chains : Bool → List Nat) (old : Option Nat) (fid : Fid)
    (bytes : Bytes) (p : Bool) (addr : Nat) : Prop where
  linked : ∃ chains', Linked l m' chains' ∧
    ∀ q c, c ∈ chains' q ↔ (c ∈ chains q ∧ old ≠ some (c + 10)) ∨ q = p ∧ c = addr
  fresh : ∀ q, addr ∉ chains q
  kept : ∀ q, ∀ c ∈ chains q, old ≠ some (c + 10) → Kept m m' c
  fid : readU16 m' (addr + 8) = fid.toNat
  size : recordSize m' addr = realSizeOf bytes.length
  bytes : stored m' (some (addr + 10)) = bytes
  zero : ∀ d, old = some d → ∀ i < fileSize m d, m' (d + lengthSize m d + i) = 0

theorem Spot.published {bytes : Bytes} (s : Spot l m chains p pre post addr (realSizeOf bytes.length))
    (h : Linked l m chains) (hr : Spot.Ready l m m' p pre post addr)
    (hpub : Published m' fid addr (last (l.endp p) pre) bytes) :
    Rewritten l m m' chains none fid bytes p addr := by
  have hhigh := s.high
  have hsize := hpub.size
  obtain ⟨chains', hlinked, hmem⟩ := h.insert s.split hr.beside s.free s.low (by omega) hpub.next hr.prev hr.next
    hr.back
  refine ⟨⟨chains', hlinked, ?_⟩, ?_, ?_, hpub.fid, hsize, hpub.bytes, ?_⟩
  · intro q c
    rw [hmem q c]
    simp
  · intro q
    refine s.fresh h ?_
    rw [realSizeOf]
    omega
  · intro q c hc _
    exact s.kept h hr.beside hc
  · intro d hd
    cases hd

theorem Rewritten.replace {rs : ClearReplies} {bytes : Bytes} (hw : Rewritten l m m' chains none fid bytes p addr)
    (hrs : rs.Safe) {q : Bool} (hb : b ∈ chains q) :
    (clearFile rs m' (b + 10)).1 = true ∧
      Rewritten l m (clearFile rs m' (b + 10)).2 chains (some (b + 10)) fid bytes p addr := by
  obtain ⟨chains1, hlinked, hmem⟩ := hw.linked
  have hb1 : b ∈ chains1 q := (hmem q b).mpr (.inl ⟨hb, by simp⟩)
  have hne : addr ≠ b := by
    intro heq
    subst heq
    exact hw.fresh q hb
  obtain ⟨hok, ⟨chains2, hlinked2, hmem2⟩, hkept, hzero⟩ := clearFile_linked hrs hlinked hb1
  have haddr : Kept m' (clearFile rs m' (b + 10)).2 addr := hkept p addr ((hmem p addr).mpr (.inr ⟨rfl, rfl⟩)) hne
  have hold : Kept m m' b := hw.kept q b hb (by simp)
  refine ⟨hok, ⟨chains2, hlinked2, ?_⟩, hw.fresh, ?_, ?_, ?_, ?_, ?_⟩
  · intro q c
    rw [hmem2 q c, hmem q c]
    have hcb : some (b + 10) ≠ some (c + 10) ↔ c ≠ b := by
      simp only [ne_eq, Option.some.injEq, Nat.add_right_cancel_iff]
      exact not_congr eq_comm
    rw [hcb]
    constructor
    · rintro ⟨⟨hc, _⟩ | hc, hcne⟩
      · exact .inl ⟨hc, hcne⟩
      · exact .inr hc
    · rintro (⟨hc, hcne⟩ | hc)
      · exact ⟨.inl ⟨hc, by simp⟩, hcne⟩
      · refine ⟨.inr hc, ?_⟩
        rw [hc.2]
        exact hne
  · intro q c hc hcb
    have hcne : c ≠ b := by
      intro heq
      exact hcb (by rw [heq])
    exact (hw.kept q c hc (by simp)).trans (hkept q c ((hmem q c).mpr (.inl ⟨hc, by simp⟩)) hcne)
  · rw [haddr.fid_eq, hw.fid]
  · rw [haddr.recordSize_eq, hw.size]
  · rw [haddr.stored_eq, hw.bytes]
  · intro d hd i hi
    obtain rfl : b + 10 = d := Option.some.inj hd
    have hcell := hzero i
    rw [hold.length_eq.1, hold.length_eq.2] at hcell
    exact hcell hi

theorem writeAnew_none {m1 : Memory} (ha : allocateFreeAddr l rs.link m newSize f.persistent = (none, m1)) :
    writeAnew l rs f fid m bytes offset newSize partly = (false, f, m1) := by
  rw [writeAnew, ha]

theorem writeAnew_back {m1 : Memory} {r : Bool × Memory}
    (ha : allocateFreeAddr l rs.link m newSize f.persistent = (some (addr, base), m1))
    (hr : r = writeRecord rs m1 f.data fid addr base bytes offset newSize partly) (hfail : r.1 = false) :
    writeAnew l rs f fid m bytes offset newSize partly =
      (false, f, (clearFile rs.clearNew r.2 (addr + 10)).2) := by
  rw [hr] at hfail
  simp only [writeAnew, ha, hfail, if_true, hr]

theorem writeAnew_fresh {m1 : Memory} {r : Bool × Memory}
    (ha : allocateFreeAddr l rs.link m newSize f.persistent = (some (addr, base), m1))
    (hr : r = writeRecord rs m1 f.data fid addr base bytes offset newSize partly) (hok : r.1 = true)
    (hf : f.data = none) :
    writeAnew l rs f fid m bytes offset newSize partly = (true, ⟨some (addr + 10), f.persistent⟩, r.2) := by
  rw [hr, hf] at hok
  simp only [writeAnew, ha, hf, hok, Bool.true_eq_false, if_false, hr]

theorem writeAnew_replace {m1 : Memory} {r c : Bool × Memory} {d : Nat}
    (ha : allocateFreeAddr l rs.link m newSize f.persistent = (some (addr, base), m1))
    (hr : r = writeRecord rs m1 f.data fid addr base bytes offset newSize partly) (hok : r.1 = true)
    (hf : f.data = some d) (hc : c = clearFile rs.clearOld r.2 d) (hclear : c.1 = true)
    (hcommit : flashSectorSize < realSizeOf newSize → rs.commitOld = true) :
    writeAnew l rs f fid m bytes offset newSize partly = (true, ⟨some (addr + 10), f.persistent⟩, c.2) := by
  have hdone : ¬ (flashSectorSize < realSizeOf newSize ∧ rs.commitOld = false) := by
    rintro ⟨hlarge, hlate⟩
    rw [hcommit hlarge] at hlate
    cases hlate
  rw [hc] at hclear
  rw [hr, hf] at hok hclear
  simp only [writeAnew, ha, hf, hok, hclear, Bool.true_eq_false, if_false, hdone, hr, hc]

/-- The new record was linked and its header written, so its payload lies at `a`. -/
def CopiedAt (l : Layout) (rs : WriteReplies) (f : File) (fid : Fid) (m : Memory) (newSize a : Nat) : Prop :=
  ∃ addr base, place l m newSize f.persistent = some (addr, base) ∧
    (linkNew rs.link m addr (readU32 m base) base).1 = true ∧ (writeHeader rs m fid addr newSize).1 = true ∧
    addr + 10 + lengthSizeOf newSize ≤ a ∧ a < base

theorem writeAnew_spec {r : Bool × File × Memory} (h : Linked l m chains) (hold : Placed chains f.data)
    (hs : Sized (stored m f.data) offset bytes newSize partly)
    (hsafe : ∀ addr base, place l m newSize f.persistent = some (addr, base) →
      AnewSafe rs f fid m newSize addr base)
    (hr : r = writeAnew l rs f fid m bytes offset newSize partly) :
    (r.1 = true ∧ ∃ addr, r.2.1 = ⟨some (addr + 10), f.persistent⟩ ∧
      place l m newSize f.persistent = some (addr, addr + realSizeOf newSize) ∧
      Rewritten l m r.2.2 chains f.data fid (written (stored m f.data) offset bytes partly) f.persistent addr) ∨
    (r.1 = false ∧ r.2.1 = f ∧ Linked l r.2.2 chains ∧ (∀ q, ∀ b ∈ chains q, Kept m r.2.2 b) ∧
      ∀ a, CopiedAt l rs f fid m newSize a → r.2.2 a = 0) := by
  have hreal : realSizeOf newSize = 10 + lengthSizeOf newSize + newSize := rfl
  cases hplace : place l m newSize f.persistent with
  | none =>
    rw [writeAnew_none (allocateFreeAddr_none hplace)] at hr
    subst hr
    refine .inr ⟨rfl, rfl, h, fun q b _ => Kept.refl m b, ?_⟩
    rintro a ⟨addr, base, hsome, _⟩
    rw [hplace] at hsome
    cases hsome
  | some at' =>
    obtain ⟨addr, base⟩ := at'
    have hsafe := hsafe addr base hplace
    have halloc := allocateFreeAddr_some rs.link hplace
    obtain ⟨hlt, pre, post, rfl, s⟩ := place_spot h hplace
    have hhigh := s.high
    have hnext := s.next h
    by_cases hlink : (linkNew rs.link m addr (readU32 m (last (l.endp f.persistent) pre))
        (last (l.endp f.persistent) pre)).1 = true
    · have hready := s.link_ready h (by omega) hlink
      have hsame : ∀ a, addr + 8 ≤ a → (linkNew rs.link m addr (readU32 m (last (l.endp f.persistent) pre))
          (last (l.endp f.persistent) pre)).2 a = m a := by
        intro a ha
        have hfirst := s.first_lt
        apply linkNew_apart
        · exact .inr ha
        · rw [hnext]
          omega
      rw [if_pos hlink] at halloc
      generalize (linkNew rs.link m addr (readU32 m (last (l.endp f.persistent) pre))
          (last (l.endp f.persistent) pre)).2 = m1 at *
      obtain ⟨hready2, hsize, hfield, hpub⟩ := s.record_spec h hready hsame hold hs hlt hsafe.header rfl
      generalize hrec : writeRecord rs m1 f.data fid addr (last (l.endp f.persistent) pre) bytes offset newSize
        partly = r1 at *
      by_cases hok : r1.1 = true
      · -- the record is published, and the one that the file had is cleared
        left
        have hlen := hs.written_length
        have hw : Rewritten l m r1.2 chains none fid (written (stored m f.data) offset bytes partly)
            f.persistent addr := by
          apply Spot.published _ h hready2 (hpub hok)
          rw [hlen]
          exact s
        cases hdata : f.data with
        | none =>
          rw [writeAnew_fresh halloc hrec.symm hok hdata] at hr
          subst hr
          rw [hdata] at hw
          exact ⟨rfl, addr, rfl, by rw [hhigh], hw⟩
        | some d =>
          obtain ⟨q, b, hb, rfl⟩ := hold d hdata
          have hne : f.data ≠ none := by
            rw [hdata]
            exact Option.some_ne_none _
          obtain ⟨hclear, hw2⟩ := hw.replace (hsafe.clearOld hne) hb
          rw [writeAnew_replace halloc hrec.symm hok hdata rfl hclear (hsafe.commitOld hne)] at hr
          subst hr
          rw [hdata] at hw2
          exact ⟨rfl, addr, rfl, by rw [hhigh], hw2⟩
      · -- the record is taken back
        right
        have hfail : r1.1 = false := by simpa using hok
        obtain ⟨hlinked, hkept, hzero⟩ := s.take_back h hready2 hsize hsafe.clearNew
        rw [writeAnew_back halloc hrec.symm hfail] at hr
        subst hr
        refine ⟨rfl, rfl, hlinked, hkept, ?_⟩
        rintro a ⟨addr', base', hsome, _, hhead, hlow, hupp⟩
        obtain ⟨rfl, rfl⟩ := Prod.mk.inj (Option.some.inj (hplace.symm.trans hsome))
        obtain ⟨hls, hfs⟩ := hfield hhead
        have hcell := hzero (a - (addr + 10 + lengthSizeOf newSize))
        rw [hls, hfs, Nat.add_sub_cancel' hlow] at hcell
        exact hcell (by omega)
    · -- the record was not linked
      right
      have hfail : (linkNew rs.link m addr (readU32 m (last (l.endp f.persistent) pre))
          (last (l.endp f.persistent) pre)).1 = false := by simpa using hlink
      rw [if_neg hlink] at halloc
      rw [writeAnew_none halloc] at hr
      subst hr
      have hback := hsafe.nextPrev
      rw [hnext] at hback
      refine ⟨rfl, rfl, s.link_failed h (by omega) hback hfail, ?_, ?_⟩
      · intro q b hb
        exact s.kept h (s.link_beside h (by omega) rs.link) hb
      · rintro a ⟨addr', base', hsome, hlinked, _⟩
        obtain ⟨rfl, rfl⟩ := Prod.mk.inj (Option.some.inj (hplace.symm.trans hsome))
        exact absurd hlinked hlink

/-! The write over the record that is there. -/

/-- The new length, unless only a part of the file is written. -/
def lengthInPlaceOf (rs : WriteReplies) (m : Memory) (data len : Nat) (partly : Bool) : Bool × Memory :=
  if partly then (true, m)
  else if readU16 m data = extendedLength then program m (data + 2) (u32Bytes len) rs.lengthInPlace
  else program m data (u16Bytes len) rs.lengthInPlace

theorem writeInPlace_eq (rs : WriteReplies) (m : Memory) (data : Nat) (bytes : Bytes) (offset : Nat)
    (partly : Bool) :
    writeInPlace rs m data bytes offset partly =
      andThen (andThen (lengthInPlaceOf rs m data bytes.length partly) fun m' =>
        if bytes = [] then (true, m') else program m' (data + lengthSize m data + offset) bytes rs.dataInPlace)
        fun m' => (decide (fileSize m data ≤ flashSectorSize) || rs.commitInPlace, m') := rfl

/-- When the record is large enough for a write. -/
structure Fits (m : Memory) (d : Nat) (bytes : Bytes) (offset : Nat) (partly : Bool) : Prop where
  room : offset + bytes.length ≤ fileSize m d
  whole : partly = false → offset = 0 ∧ (readU16 m d = extendedLength ∨ bytes.length < extendedLength)

variable {d len : Nat} {a : Nat}

theorem lengthInPlaceOf_apart (h : a < d ∨ d + lengthSize m d ≤ a) :
    (lengthInPlaceOf rs m d len partly).2 a = m a := by
  cases partly with
  | true => rfl
  | false =>
    rw [lengthInPlaceOf, if_neg Bool.false_ne_true]
    rcases lengthSize_cases m d with ⟨hext, hsix, _⟩ | ⟨hext, htwo, _⟩
    · rw [if_pos hext]
      apply program_apart
      rw [u32Bytes_length]
      omega
    · rw [if_neg hext]
      apply program_apart
      rw [u16Bytes_length]
      omega

/-- The new length stands in the field that was there. -/
theorem lengthInPlaceOf_ok (hf : Fits m d bytes offset partly)
    (hok : (lengthInPlaceOf rs m d bytes.length partly).1 = true) :
    lengthSize (lengthInPlaceOf rs m d bytes.length partly).2 d = lengthSize m d ∧
      fileSize (lengthInPlaceOf rs m d bytes.length partly).2 d =
        if partly then fileSize m d else bytes.length := by
  cases partly with
  | true => exact ⟨rfl, rfl⟩
  | false =>
    obtain ⟨_, hkind⟩ := hf.whole rfl
    have hroom := hf.room
    rw [lengthInPlaceOf, if_neg Bool.false_ne_true] at hok ⊢
    rw [if_neg Bool.false_ne_true]
    rcases lengthSize_cases m d with ⟨hext, hsix, hfile⟩ | ⟨hext, htwo, hfile⟩
    · rw [if_pos hext] at hok ⊢
      have hlt := readU32_lt m (d + 2)
      have hmark : readU16 (blit m (d + 2) (u32Bytes bytes.length)) d = extendedLength := by
        refine (readU16_congr ?_).trans hext
        intro x hx hx'
        exact ByteBuffer.blit_before (by omega)
      have hlong : readU32 (blit m (d + 2) (u32Bytes bytes.length)) (d + 2) = bytes.length :=
        readU32_blit m (d + 2) (by omega)
      rw [program_ok hok]
      simp only [lengthSize, fileSize, hmark, hlong, hext, if_true, and_self]
    · rw [if_neg hext] at hok ⊢
      have hshort : bytes.length < extendedLength := by
        rcases hkind with hkind | hkind
        · exact absurd hkind hext
        · exact hkind
      have hne : ¬ bytes.length = extendedLength := by omega
      simp only [extendedLength] at hshort
      have hword : readU16 (blit m d (u16Bytes bytes.length)) d = bytes.length := readU16_blit m d (by omega)
      rw [program_ok hok]
      simp only [lengthSize, fileSize, hword, hne, hext, if_false, and_self]

/-- The length that is left does not reach beyond the record. -/
def LengthWithin (rs : WriteReplies) (m : Memory) (d len : Nat) (partly : Bool) : Prop :=
  lengthSize (lengthInPlaceOf rs m d len partly).2 d + fileSize (lengthInPlaceOf rs m d len partly).2 d ≤
    lengthSize m d + fileSize m d

theorem writeInPlace_frame {r : Bool × Memory} (hf : Fits m d bytes offset partly)
    (hr : r = writeInPlace rs m d bytes offset partly) :
    (∀ a, a < d ∨ d + lengthSize m d + fileSize m d ≤ a → r.2 a = m a) ∧
      lengthSize r.2 d = lengthSize (lengthInPlaceOf rs m d bytes.length partly).2 d ∧
      fileSize r.2 d = fileSize (lengthInPlaceOf rs m d bytes.length partly).2 d := by
  have hroom := hf.room
  rw [writeInPlace_eq] at hr
  by_cases hok : (lengthInPlaceOf rs m d bytes.length partly).1 = true
  · obtain ⟨hlen, _⟩ := lengthInPlaceOf_ok hf hok
    have hdata : ∀ a, a < d + lengthSize m d ∨ d + lengthSize m d + fileSize m d ≤ a →
        r.2 a = (lengthInPlaceOf rs m d bytes.length partly).2 a := by
      intro a ha
      rw [hr, andThen_second hok]
      apply andThen_apart
      · exact programData_apart _ _ _ _ (by omega)
      · rfl
    refine ⟨?_, ?_⟩
    · intro a ha
      rw [hdata a (by omega), lengthInPlaceOf_apart (by omega)]
    · apply length_congr
      intro a ha ha'
      apply hdata
      omega
  · have hfail : (lengthInPlaceOf rs m d bytes.length partly).1 = false := by simpa using hok
    rw [andThen_failed _ hfail, andThen_failed _ hfail] at hr
    rw [hr]
    refine ⟨?_, rfl, rfl⟩
    intro a ha
    apply lengthInPlaceOf_apart
    omega

theorem writeInPlace_ok {r : Bool × Memory} (hf : Fits m d bytes offset partly)
    (hr : r = writeInPlace rs m d bytes offset partly) (hdone : r.1 = true) :
    stored r.2 (some d) = written (stored m (some d)) offset bytes partly := by
  have hroom := hf.room
  obtain ⟨_, hls, hfs⟩ := writeInPlace_frame hf hr
  rw [hr, writeInPlace_eq] at hdone
  obtain ⟨hdata, heq⟩ := andThen_ok hdone
  obtain ⟨hlength, heq2⟩ := andThen_ok hdata
  rw [writeInPlace_eq, heq, heq2] at hr
  rw [heq2] at hdata
  obtain ⟨hlen, hfile⟩ := lengthInPlaceOf_ok hf hlength
  have hbefore : ∀ a, d + lengthSize m d ≤ a →
      (lengthInPlaceOf rs m d bytes.length partly).2 a = m a := fun a ha => lengthInPlaceOf_apart (.inr ha)
  rw [hlen] at hls
  rw [hfile] at hfs
  generalize (lengthInPlaceOf rs m d bytes.length partly).2 = m1 at *
  have hmem : r.2 = (if bytes = [] then (true, m1)
      else program m1 (d + lengthSize m d + offset) bytes rs.dataInPlace).2 := by rw [hr]
  have hin : window r.2 (d + lengthSize m d + offset) bytes.length = bytes := by
    rw [hmem]
    exact programData_ok hdata
  have hout : ∀ a, d + lengthSize m d ≤ a →
      a < d + lengthSize m d + offset ∨ d + lengthSize m d + offset + bytes.length ≤ a → r.2 a = m a := by
    intro a ha ha'
    rw [hmem, programData_apart _ _ _ _ ha', hbefore a ha]
  rw [stored, hls, hfs]
  cases partly with
  | false =>
    obtain ⟨rfl, _⟩ := hf.whole rfl
    exact hin
  | true =>
    -- before, in and behind the new bytes
    have hwhole : fileSize m d = offset + (bytes.length + (fileSize m d - (offset + bytes.length))) := by omega
    have hfront : window r.2 (d + lengthSize m d) offset = (stored m (some d)).take offset := by
      rw [stored, ByteBuffer.window_take m _ (by omega)]
      apply ByteBuffer.window_congr
      intro i hi
      exact hout _ (by omega) (by omega)
    have hbehind : window r.2 (d + lengthSize m d + (offset + bytes.length))
        (fileSize m d - (offset + bytes.length)) = (stored m (some d)).drop (offset + bytes.length) := by
      rw [stored, ByteBuffer.window_drop m _ hroom]
      apply ByteBuffer.window_congr
      intro i hi
      exact hout _ (by omega) (by omega)
    rw [if_pos rfl, hwhole, ByteBuffer.window_add, ByteBuffer.window_add, hfront, hin,
      Nat.add_assoc (d + lengthSize m d), hbehind]
    simp only [written, splice, if_true, List.append_assoc]

theorem writeInPlace_linked {r : Bool × Memory} (h : Linked l m chains) {q : Bool} (hb : b ∈ chains q)
    (hf : Fits m (b + 10) bytes offset partly) (hw : LengthWithin rs m (b + 10) bytes.length partly)
    (hr : r = writeInPlace rs m (b + 10) bytes offset partly) :
    Linked l r.2 chains ∧ (∀ q, ∀ c ∈ chains q, c ≠ b → Kept m r.2 c) ∧
      readU16 r.2 (b + 8) = readU16 m (b + 8) := by
  obtain ⟨hout, hls, hfs⟩ := writeInPlace_frame hf hr
  have hsize : recordSize m b = 10 + lengthSize m (b + 10) + fileSize m (b + 10) := rfl
  have hout' : ∀ a, a < b + 10 ∨ b + recordSize m b ≤ a → r.2 a = m a := by
    intro a ha
    exact hout a (by omega)
  have hgrow : recordSize r.2 b ≤ recordSize m b := by
    rw [LengthWithin] at hw
    rw [recordSize, hls, hfs]
    omega
  obtain ⟨hlinked, hkept⟩ := h.shrink hb hout' hgrow
  refine ⟨hlinked, hkept, ?_⟩
  apply readU16_congr
  intro a ha ha'
  exact hout' a (by omega)

/-- A write in place that fails and has written nothing that changes the file. -/
structure Unwritten (rs : WriteReplies) (m : Memory) (d : Nat) (bytes : Bytes) (partly : Bool) : Prop where
  length : lengthSize (lengthInPlaceOf rs m d bytes.length partly).2 d = lengthSize m d ∧
    fileSize (lengthInPlaceOf rs m d bytes.length partly).2 d = fileSize m d
  data : (lengthInPlaceOf rs m d bytes.length partly).1 = true → bytes ≠ [] ∧ rs.dataInPlace = some 0

theorem writeInPlace_unwritten {r : Bool × Memory} (hf : Fits m d bytes offset partly)
    (hu : Unwritten rs m d bytes partly) (hr : r = writeInPlace rs m d bytes offset partly) :
    r.1 = false ∧ stored r.2 (some d) = stored m (some d) := by
  obtain ⟨_, hls, hfs⟩ := writeInPlace_frame hf hr
  have hmem : r.1 = false ∧ r.2 = (lengthInPlaceOf rs m d bytes.length partly).2 := by
    rw [hr, writeInPlace_eq]
    by_cases hok : (lengthInPlaceOf rs m d bytes.length partly).1 = true
    · obtain ⟨hne, hzero⟩ := hu.data hok
      rw [andThen_second hok, if_neg hne, hzero]
      exact ⟨rfl, program_untouched _ _ _⟩
    · have hfail : (lengthInPlaceOf rs m d bytes.length partly).1 = false := by simpa using hok
      rw [andThen_failed _ hfail, andThen_failed _ hfail]
      exact ⟨hfail, rfl⟩
  refine ⟨hmem.1, ?_⟩
  rw [stored, hls, hfs, hu.length.1, hu.length.2]
  apply ByteBuffer.window_congr
  intro i _
  rw [hmem.2]
  exact lengthInPlaceOf_apart (by omega)

end Memory

end KeyWallet.FlashFile
