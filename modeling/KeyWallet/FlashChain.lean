import KeyWallet.FlashRecords

/-! The records of one pool as a list: each points to the next one and back to the one before it, and
they lie one below the other. What a write to the free bytes of the pool leaves of the list. -/
namespace KeyWallet.FlashFile

open ByteBuffer (blit window)

/-! Memories that agree on a stretch. -/

/-- `m'` is `m` on the addresses from `lo` on and below `hi`. -/
def Same (m m' : Memory) (lo hi : Nat) : Prop := ∀ a, lo ≤ a → a < hi → m' a = m a

theorem readU16_congr {m m' : Memory} {a : Nat} (h : Same m m' a (a + 2)) : readU16 m' a = readU16 m a := by
  have h0 : m' a = m a := h a (by omega) (by omega)
  have h1 : m' (a + 1) = m (a + 1) := h (a + 1) (by omega) (by omega)
  rw [readU16, readU16, h0, h1]

theorem readU32_congr {m m' : Memory} {a : Nat} (h : Same m m' a (a + 4)) : readU32 m' a = readU32 m a := by
  have hlow : readU16 m' a = readU16 m a := by
    apply readU16_congr
    intro x hx hx'
    exact h x hx (by omega)
  have hhigh : readU16 m' (a + 2) = readU16 m (a + 2) := by
    apply readU16_congr
    intro x hx hx'
    exact h x (by omega) (by omega)
  rw [readU32, readU32, hlow, hhigh]

theorem readU16_lt (m : Memory) (a : Nat) : readU16 m a < 65536 := by
  have h0 := (m a).isLt
  have h1 := (m (a + 1)).isLt
  rw [readU16]
  omega

theorem readU32_lt (m : Memory) (a : Nat) : readU32 m a < 4294967296 := by
  have h0 := readU16_lt m a
  have h1 := readU16_lt m (a + 2)
  rw [readU32]
  omega

@[simp] theorem u16Bytes_length (v : Nat) : (u16Bytes v).length = 2 := rfl

@[simp] theorem u32Bytes_length (v : Nat) : (u32Bytes v).length = 4 := rfl

theorem blit_at (m : Memory) (a i : Nat) {xs : Bytes} {x : Byte} (h : xs[i]? = some x) :
    blit m a xs (a + i) = x := by
  have hge : ¬ a + i < a := by omega
  simp [blit, hge, h]

theorem readU16_blit (m : Memory) (a : Nat) {v : Nat} (hv : v < 65536) :
    readU16 (blit m a (u16Bytes v)) a = v := by
  have h0 : blit m a (u16Bytes v) a = BitVec.ofNat 8 v := blit_at m a 0 rfl
  have h1 : blit m a (u16Bytes v) (a + 1) = BitVec.ofNat 8 (v / 256) := blit_at m a 1 rfl
  rw [readU16, h0, h1, BitVec.toNat_ofNat, BitVec.toNat_ofNat]
  omega

theorem readU32_blit (m : Memory) (a : Nat) {v : Nat} (hv : v < 4294967296) :
    readU32 (blit m a (u32Bytes v)) a = v := by
  have h0 : blit m a (u32Bytes v) a = BitVec.ofNat 8 v := blit_at m a 0 rfl
  have h1 : blit m a (u32Bytes v) (a + 1) = BitVec.ofNat 8 (v / 256) := blit_at m a 1 rfl
  have h2 : blit m a (u32Bytes v) (a + 2) = BitVec.ofNat 8 (v / 65536) := blit_at m a 2 rfl
  have h3 : blit m a (u32Bytes v) (a + 2 + 1) = BitVec.ofNat 8 (v / 65536 / 256) := blit_at m a 3 rfl
  rw [readU32, readU16, readU16, h0, h1, h2, h3]
  simp only [BitVec.toNat_ofNat]
  omega

/-! One record, and what keeps it. -/

theorem lengthSize_cases (m : Memory) (d : Nat) :
    readU16 m d = extendedLength ∧ lengthSize m d = 6 ∧ fileSize m d = readU32 m (d + 2) ∨
      readU16 m d ≠ extendedLength ∧ lengthSize m d = 2 ∧ fileSize m d = readU16 m d := by
  by_cases h : readU16 m d = extendedLength
  · left
    simp [lengthSize, fileSize, h]
  · right
    simp [lengthSize, fileSize, h]

/-- A length field that stays is read as before. -/
theorem length_congr {m m' : Memory} {d : Nat} (h : Same m m' d (d + lengthSize m d)) :
    lengthSize m' d = lengthSize m d ∧ fileSize m' d = fileSize m d := by
  have hshort : readU16 m' d = readU16 m d := by
    apply readU16_congr
    intro a ha ha'
    rcases lengthSize_cases m d with hl | hl
    · exact h a ha (by omega)
    · exact h a ha (by omega)
  -- the long length is there only when the short one is the mark
  rcases lengthSize_cases m d with ⟨_, hsix, _⟩ | ⟨hext, _, _⟩
  · have hlong : readU32 m' (d + 2) = readU32 m (d + 2) := by
      apply readU32_congr
      intro a ha ha'
      exact h a (by omega) (by omega)
    simp only [lengthSize, fileSize, hshort, hlong, and_self]
  · simp only [lengthSize, fileSize, hshort, hext, if_false, and_self]

theorem twelve_le_recordSize (m : Memory) (b : Nat) : 12 ≤ recordSize m b := by
  rw [recordSize]
  rcases lengthSize_cases m (b + 10) with h | h
  · omega
  · omega

/-- Behind its pointers the record at `b` is the same in `m'`. -/
def Kept (m m' : Memory) (b : Nat) : Prop := Same m m' (b + 8) (b + recordSize m b)

variable {m m' m'' : Memory} {b : Nat}

theorem Kept.refl (m : Memory) (b : Nat) : Kept m m b := fun _ _ _ => rfl

theorem Kept.fid_eq (h : Kept m m' b) : readU16 m' (b + 8) = readU16 m (b + 8) := by
  have hsize := twelve_le_recordSize m b
  apply readU16_congr
  intro a ha ha'
  exact h a ha (by omega)

theorem Kept.length_eq (h : Kept m m' b) :
    lengthSize m' (b + 10) = lengthSize m (b + 10) ∧ fileSize m' (b + 10) = fileSize m (b + 10) := by
  apply length_congr
  intro a ha ha'
  refine h a (by omega) ?_
  rw [recordSize]
  omega

theorem Kept.recordSize_eq (h : Kept m m' b) : recordSize m' b = recordSize m b := by
  rw [recordSize, recordSize, h.length_eq.1, h.length_eq.2]

theorem Kept.trans (h : Kept m m' b) (h' : Kept m' m'' b) : Kept m m'' b := by
  intro a ha ha'
  have hsize := h.recordSize_eq
  exact (h' a ha (by omega)).trans (h a ha ha')

theorem Kept.stored_eq (h : Kept m m' b) : stored m' (some (b + 10)) = stored m (some (b + 10)) := by
  rw [stored, stored, h.length_eq.1, h.length_eq.2]
  apply ByteBuffer.window_congr
  intro i hi
  refine h _ (by omega) ?_
  rw [recordSize]
  omega

/-! The list of the records. -/

/-- The record at `b` hangs below `base`: the record before it, or the head of the pool. -/
structure Node (m : Memory) (lo base b : Nat) : Prop where
  low : lo ≤ b
  high : b + recordSize m b ≤ base
  back : readU32 m (b + 4) = base

/-- The records `bs` hang below `base`, and the last of them points to `tail`. -/
def Seg (m : Memory) (lo : Nat) : Nat → List Nat → Nat → Prop
  | base, [], tail => readU32 m base = tail
  | base, b :: bs, tail => readU32 m base = b ∧ Node m lo base b ∧ Seg m lo b bs tail

/-- The records of a pool. -/
abbrev Chain (m : Memory) (lo base : Nat) (bs : List Nat) : Prop := Seg m lo base bs 0

/-- The end of a list whose first record points back to `base`. -/
def Below (m : Memory) (lo base : Nat) : List Nat → Prop
  | [] => True
  | b :: bs => Node m lo base b ∧ Chain m lo b bs

def last : Nat → List Nat → Nat
  | base, [] => base
  | _, b :: bs => last b bs

/-- The pointer to a list of records. -/
def first (bs : List Nat) : Nat := bs.headD 0

theorem chain_iff {lo base : Nat} (bs : List Nat) :
    Chain m lo base bs ↔ readU32 m base = first bs ∧ Below m lo base bs := by
  cases bs with
  | nil => simp [Chain, Seg, Below, first]
  | cons b bs => simp [Chain, Seg, Below, first]

theorem chain_append {lo base : Nat} (pre post : List Nat) :
    Chain m lo base (pre ++ post) ↔ Seg m lo base pre (first post) ∧ Below m lo (last base pre) post := by
  induction pre generalizing base with
  | nil => exact chain_iff post
  | cons b pre ih =>
    have ih := @ih b
    simp only [Chain] at ih
    simp only [Chain, List.cons_append, Seg, last, ih, and_assoc]

section Bounds

variable {lo base t : Nat} {bs pre post : List Nat}

theorem Seg.last_le (h : Seg m lo base bs t) : last base bs ≤ base := by
  induction bs generalizing base with
  | nil => exact Nat.le_refl base
  | cons b bs ih =>
    have hrest := ih h.2.2
    have hhigh := h.2.1.high
    simp only [last]
    omega

theorem Seg.last_low (h : Seg m lo base bs t) (hlo : lo ≤ base) : lo ≤ last base bs := by
  induction bs generalizing base with
  | nil => exact hlo
  | cons b bs ih => exact ih h.2.2 h.2.1.low

theorem Seg.tail (h : Seg m lo base bs t) : readU32 m (last base bs) = t := by
  induction bs generalizing base with
  | nil => exact h
  | cons b bs ih => exact ih h.2.2

theorem Seg.mem (h : Seg m lo base bs t) (hb : b ∈ bs) :
    lo ≤ b ∧ b + recordSize m b ≤ base ∧ last base bs ≤ b := by
  induction bs generalizing base with
  | nil => cases hb
  | cons c bs ih =>
    obtain ⟨_, hnode, hrest⟩ := h
    have hlast := hrest.last_le
    have hlow := hnode.low
    have hhigh := hnode.high
    rcases List.mem_cons.mp hb with rfl | hb
    · exact ⟨hlow, hhigh, hlast⟩
    · obtain ⟨h1, h2, h3⟩ := ih hrest hb
      refine ⟨h1, ?_, h3⟩
      omega

theorem Below.mem (h : Below m lo base bs) (hb : b ∈ bs) :
    lo ≤ b ∧ b + recordSize m b ≤ base ∧ ∀ n, bs.head? = some n → b = n ∨ b + recordSize m b ≤ n := by
  cases bs with
  | nil => cases hb
  | cons c bs =>
    have hlow := h.1.low
    have hhigh := h.1.high
    rcases List.mem_cons.mp hb with rfl | hb
    · refine ⟨hlow, hhigh, ?_⟩
      intro n hn
      left
      simpa using hn
    · obtain ⟨h1, h2, _⟩ := h.2.mem hb
      refine ⟨h1, by omega, ?_⟩
      intro n hn
      right
      have hcn : c = n := by simpa using hn
      omega

theorem Below.head (h : Below m lo base bs) {n : Nat} (hn : bs.head? = some n) :
    lo ≤ n ∧ n + recordSize m n ≤ base ∧ readU32 m (n + 4) = base := by
  cases bs with
  | nil => simp at hn
  | cons c bs =>
    obtain rfl : c = n := by simpa using hn
    exact ⟨h.1.low, h.1.high, h.1.back⟩

theorem Seg.sorted (h : Seg m lo base bs t) : bs.Pairwise (fun b c => c + recordSize m c ≤ b) := by
  induction bs generalizing base with
  | nil => exact List.Pairwise.nil
  | cons b bs ih =>
    rw [List.pairwise_cons]
    refine ⟨?_, ih h.2.2⟩
    intro c hc
    exact (h.2.2.mem hc).2.1

theorem Seg.nodup (h : Seg m lo base bs t) : bs.Nodup := by
  refine h.sorted.imp ?_
  intro b c hbc heq
  have hsize := twelve_le_recordSize m c
  omega

theorem first_pos (h : Below m lo base bs) (hlo : 0 < lo) : first bs ≠ 0 ↔ ∃ n, bs.head? = some n := by
  cases bs with
  | nil => simp [first]
  | cons b bs =>
    have hlow := h.1.low
    simp only [first, List.headD_cons, List.head?_cons, Option.some.injEq, exists_eq', iff_true]
    omega

theorem first_eq {n : Nat} (hn : bs.head? = some n) : first bs = n := by
  cases bs with
  | nil => simp at hn
  | cons b bs => simpa [first] using hn

end Bounds

/-! What changes below the record at `p` and in the pointer back of the next record. -/

/-- Only the bytes from `addr` up to the pointer at `p`, and the pointer back of the first of `post`. -/
def Beside (m m' : Memory) (addr p : Nat) (post : List Nat) : Prop :=
  ∀ a, a < addr ∨ p + 4 ≤ a → (∀ n, post.head? = some n → a < n + 4 ∨ n + 8 ≤ a) → m' a = m a

/-- The bytes from `addr` on are not those of a record of `post`. -/
def Free (m : Memory) (addr : Nat) (post : List Nat) : Prop :=
  ∀ n, post.head? = some n → n + recordSize m n ≤ addr

section Keep

variable {lo e t addr p : Nat} {pre post : List Nat}

theorem Beside.trans (h : Beside m m' addr p post) (h' : Beside m' m'' addr p post) :
    Beside m m'' addr p post := by
  intro a ha hn
  exact (h' a ha hn).trans (h a ha hn)

theorem Free.head_lt (h : Free m addr post) {n : Nat} (hn : post.head? = some n) : n + 12 ≤ addr := by
  have hfree := h n hn
  have hsize := twelve_le_recordSize m n
  omega

theorem Beside.above (h : Beside m m' addr p post) (hfree : Free m addr post) (hp : addr ≤ p) {a : Nat}
    (ha : p + 4 ≤ a) : m' a = m a := by
  apply h a (.inr ha)
  intro n hn
  have := hfree.head_lt hn
  omega

theorem Node.kept {base base' : Nat} (h : Node m lo base b) (hk : Kept m m' b)
    (hback : readU32 m' (b + 4) = base') (hbase : b + recordSize m b ≤ base') : Node m' lo base' b := by
  refine ⟨h.low, ?_, hback⟩
  rw [hk.recordSize_eq]
  exact hbase

theorem Seg.same {base t' : Nat} {bs : List Nat} (h : Seg m lo base bs t)
    (hsame : ∀ a, last base bs + 4 ≤ a → a < base + 4 → m' a = m a) (ht : readU32 m' (last base bs) = t') :
    Seg m' lo base bs t' := by
  -- on the list: the record keeps its pointers, and the word at `base` is one of them or the head
  induction bs generalizing base with
  | nil => exact ht
  | cons b bs ih =>
    obtain ⟨hnext, hnode, hrest⟩ := h
    have hlast := hrest.last_le
    have hhigh := hnode.high
    have hsize := twelve_le_recordSize m b
    simp only [last] at hsame ht
    refine ⟨?_, ?_, ?_⟩
    · rw [← hnext]
      apply readU32_congr
      intro a ha ha'
      exact hsame a (by omega) ha'
    · apply hnode.kept
      · intro a ha ha'
        exact hsame a (by omega) (by omega)
      · rw [← hnode.back]
        apply readU32_congr
        intro a ha ha'
        exact hsame a (by omega) (by omega)
      · exact hhigh
    · apply ih hrest
      · intro a ha ha'
        exact hsame a ha (by omega)
      · exact ht

theorem Chain.same {base : Nat} {bs : List Nat} (h : Chain m lo base bs) (hsame : Same m m' lo (base + 4))
    (hlo : lo ≤ base) : Chain m' lo base bs := by
  have hlow := Seg.last_low h hlo
  have hhigh := Seg.last_le h
  apply Seg.same h
  · intro a ha ha'
    exact hsame a (by omega) ha'
  · rw [← Seg.tail h]
    apply readU32_congr
    intro a ha ha'
    exact hsame a (by omega) (by omega)

theorem Seg.beside {t' : Nat} (h : Seg m lo e pre t) (hm : Beside m m' addr (last e pre) post)
    (hfree : Free m addr post) (hp : addr ≤ last e pre) (ht : readU32 m' (last e pre) = t') :
    Seg m' lo e pre t' := by
  apply h.same
  · intro a ha _
    exact hm.above hfree hp ha
  · exact ht

theorem Seg.beside_kept (h : Seg m lo e pre t) (hm : Beside m m' addr (last e pre) post)
    (hfree : Free m addr post) (hp : addr ≤ last e pre) (hb : b ∈ pre) : Kept m m' b := by
  intro a ha _
  have hlast := (h.mem hb).2.2
  exact hm.above hfree hp (by omega)

theorem Below.beside_kept {q : Nat} (h : Below m lo q post) (hm : Beside m m' addr p post)
    (hfree : Free m addr post) (hb : b ∈ post) : Kept m m' b := by
  intro a ha ha'
  obtain ⟨_, _, hnext⟩ := h.mem hb
  obtain ⟨n, hn⟩ : ∃ n, post.head? = some n := by
    cases post with
    | nil => cases hb
    | cons n post => exact ⟨n, rfl⟩
  have hroom := hfree n hn
  have hsize := twelve_le_recordSize m n
  have hplace := hnext n hn
  apply hm a
  · rcases hplace with rfl | hplace
    · omega
    · omega
  · intro n' hn'
    obtain rfl : n = n' := Option.some.inj (hn.symm.trans hn')
    rcases hplace with rfl | hplace
    · omega
    · omega

theorem Below.beside {q q' : Nat} (h : Below m lo q post) (hm : Beside m m' addr p post)
    (hfree : Free m addr post)
    (hback : ∀ n, post.head? = some n → readU32 m' (n + 4) = q' ∧ n + recordSize m n ≤ q') :
    Below m' lo q' post := by
  have hkept : ∀ b ∈ post, Kept m m' b := fun b hb => h.beside_kept hm hfree hb
  cases post with
  | nil => trivial
  | cons n post =>
    obtain ⟨hnode, hrest⟩ := h
    obtain ⟨hq, hroom⟩ := hback n rfl
    have hsize := twelve_le_recordSize m n
    have hfree' : n + recordSize m n ≤ addr := hfree n rfl
    refine ⟨hnode.kept (hkept n List.mem_cons_self) hq hroom, ?_⟩
    -- everything below the first record is as it was
    have hlow : ∀ a, a < n + 4 → m' a = m a := by
      intro a ha
      apply hm a (by omega)
      intro n' hn'
      obtain rfl : n = n' := by simpa using hn'
      exact .inl ha
    apply Chain.same hrest
    · intro a _ ha
      exact hlow a ha
    · exact hnode.low

theorem Chain.rejoin {q : Nat} (hpre : Seg m lo e pre t) (hpost : Below m lo q post)
    (hm : Beside m m' addr (last e pre) post) (hfree : Free m addr post) (hp : addr ≤ last e pre)
    (hnext : readU32 m' (last e pre) = first post)
    (hback : ∀ n, post.head? = some n → readU32 m' (n + 4) = last e pre) : Chain m' lo e (pre ++ post) := by
  rw [chain_append]
  refine ⟨hpre.beside hm hfree hp hnext, hpost.beside hm hfree ?_⟩
  intro n hn
  have hroom := hfree n hn
  exact ⟨hback n hn, by omega⟩

theorem Chain.insert {q : Nat} (hpre : Seg m lo e pre t) (hpost : Below m lo q post)
    (hm : Beside m m' addr (last e pre) post) (hfree : Free m addr post) (hp : addr ≤ last e pre)
    (hnext : readU32 m' (last e pre) = addr) (hnode : Node m' lo (last e pre) addr)
    (hpost' : readU32 m' addr = first post) (hback : ∀ n, post.head? = some n → readU32 m' (n + 4) = addr) :
    Chain m' lo e (pre ++ addr :: post) := by
  rw [chain_append]
  refine ⟨hpre.beside hm hfree hp hnext, hnode, (chain_iff post).mpr ⟨hpost', hpost.beside hm hfree ?_⟩⟩
  intro n hn
  exact ⟨hback n hn, hfree n hn⟩

end Keep

end KeyWallet.FlashFile
