import KeyWallet.FlashChain

/-! What each piece of flash_write_data_to_file_internal and of flash_clear_file does to the memory: the
bytes outside its own stretch stay, and where its calls succeed the stretch holds what was meant. -/
namespace KeyWallet.FlashFile

open ByteBuffer (blit window)

variable {m m' : Memory} {a addr : Nat}

/-! flash_program_block. -/

theorem program_apart (m : Memory) (addr : Nat) (data : Bytes) (r : Reply)
    (h : a < addr ∨ addr + data.length ≤ a) : (program m addr data r).2 a = m a := by
  cases r with
  | none =>
    rcases h with h | h
    · exact ByteBuffer.blit_before h
    · exact ByteBuffer.blit_behind h
  | some k =>
    have hlen : (data.take k).length ≤ data.length := by
      rw [List.length_take]
      exact Nat.min_le_right _ _
    rcases h with h | h
    · exact ByteBuffer.blit_before h
    · exact ByteBuffer.blit_behind (by omega)

theorem program_untouched (m : Memory) (addr : Nat) (data : Bytes) : (program m addr data (some 0)).2 = m := by
  funext a
  have hlen : (data.take 0).length = 0 := by simp
  rcases Nat.lt_or_ge a addr with h | h
  · exact ByteBuffer.blit_before h
  · exact ByteBuffer.blit_behind (by omega)

theorem program_ok {data : Bytes} {r : Reply} (h : (program m addr data r).1 = true) :
    (program m addr data r).2 = blit m addr data := by
  cases r with
  | none => rfl
  | some k => cases h

theorem program_congr (addr : Nat) (data : Bytes) (r : Reply) (h : m' a = m a) :
    (program m' addr data r).2 a = (program m addr data r).2 a := by
  cases r with
  | none => simp only [program, blit, h]
  | some k => simp only [program, blit, h]

theorem program_fst (m m' : Memory) (addr : Nat) (data : Bytes) (r : Reply) :
    (program m' addr data r).1 = (program m addr data r).1 := by
  cases r with
  | none => rfl
  | some k => rfl

theorem andThen_ok {r : Bool × Memory} {f : Memory → Bool × Memory} (h : (andThen r f).1 = true) :
    r.1 = true ∧ andThen r f = f r.2 := by
  by_cases hr : r.1 = true
  · refine ⟨hr, ?_⟩
    simp only [andThen, hr, if_true]
  · rw [andThen, if_neg hr] at h
    exact absurd h hr

theorem andThen_second {r : Bool × Memory} {f : Memory → Bool × Memory} (h : r.1 = true) :
    andThen r f = f r.2 := if_pos h

theorem andThen_failed {r : Bool × Memory} (f : Memory → Bool × Memory) (h : r.1 = false) : andThen r f = r := by
  have hne : ¬ r.1 = true := by simp [h]
  exact if_neg hne

theorem andThen_apart {r : Bool × Memory} {f : Memory → Bool × Memory} (hr : r.2 a = m a)
    (hf : (f r.2).2 a = r.2 a) : (andThen r f).2 a = m a := by
  by_cases h : r.1 = true
  · rw [andThen, if_pos h, hf, hr]
  · rw [andThen, if_neg h, hr]

/-! The loops. -/

theorem zeroRange_none {rs : Nat → Reply} (hrs : ∀ i, rs i = none) (fuel i addr len : Nat) (m : Memory)
    (hfuel : len ≤ fuel) :
    (zeroRange rs fuel i addr len m).1 = true ∧
      ∀ a, (zeroRange rs fuel i addr len m).2 a = if addr ≤ a ∧ a < addr + len then 0 else m a := by
  -- on the rounds: each one makes the zeroed stretch longer by its chunk
  induction fuel generalizing i addr len m with
  | zero =>
    refine ⟨rfl, ?_⟩
    intro a
    have hnone : ¬ (addr ≤ a ∧ a < addr + len) := by omega
    rw [if_neg hnone]
    rfl
  | succ fuel ih =>
    by_cases hlen : len = 0
    · rw [zeroRange, if_pos hlen]
      refine ⟨rfl, ?_⟩
      intro a
      have hnone : ¬ (addr ≤ a ∧ a < addr + len) := by omega
      rw [if_neg hnone]
    · rw [zeroRange, if_neg hlen, hrs i]
      simp only [program, andThen, if_true]
      obtain ⟨hok, hrest⟩ := ih (i + 1) (addr + min 256 len) (len - min 256 len)
        (blit m addr (List.replicate (min 256 len) 0)) (by omega)
      refine ⟨hok, ?_⟩
      intro a
      rw [hrest a]
      have hchunk : (List.replicate (min 256 len) (0 : Byte)).length = min 256 len := List.length_replicate
      by_cases hlow : a < addr
      · have h1 : ¬ (addr + min 256 len ≤ a ∧ a < addr + min 256 len + (len - min 256 len)) := by omega
        have h2 : ¬ (addr ≤ a ∧ a < addr + len) := by omega
        rw [if_neg h1, if_neg h2, ByteBuffer.blit_before hlow]
      · by_cases hnow : a < addr + min 256 len
        · have h1 : ¬ (addr + min 256 len ≤ a ∧ a < addr + min 256 len + (len - min 256 len)) := by omega
          have h2 : addr ≤ a ∧ a < addr + len := by omega
          obtain ⟨j, rfl⟩ : ∃ j, a = addr + j := ⟨a - addr, by omega⟩
          rw [if_neg h1, if_pos h2]
          apply blit_at
          rw [List.getElem?_replicate, if_pos (by omega)]
        · rw [ByteBuffer.blit_behind (by omega)]
          by_cases hlater : a < addr + len
          · rw [if_pos (by omega), if_pos (by omega)]
          · rw [if_neg (by omega), if_neg (by omega)]

theorem copyRange_apart {rs : Nat → Reply} (fuel i source destination len : Nat) (m : Memory)
    (h : a < destination ∨ destination + len ≤ a) :
    (copyRange rs fuel i source destination len m).2 a = m a := by
  induction fuel generalizing i source destination len m with
  | zero => rfl
  | succ fuel ih =>
    by_cases hlen : len = 0
    · rw [copyRange, if_pos hlen]
    · rw [copyRange, if_neg hlen]
      apply andThen_apart
      · apply program_apart
        rw [ByteBuffer.window_length]
        omega
      · apply ih
        omega

theorem copyRange_ok {rs : Nat → Reply} (fuel i source destination len : Nat) (m : Memory)
    (hfuel : len ≤ fuel) (hok : (copyRange rs fuel i source destination len m).1 = true)
    (hapart : source + len ≤ destination ∨ destination + len ≤ source) :
    window (copyRange rs fuel i source destination len m).2 destination len = window m source len := by
  -- on the rounds: the chunk of this one is not touched by the later ones
  induction fuel generalizing i source destination len m with
  | zero =>
    obtain rfl : len = 0 := by omega
    rfl
  | succ fuel ih =>
    by_cases hlen : len = 0
    · subst hlen
      rfl
    · rw [copyRange, if_neg hlen] at hok ⊢
      obtain ⟨hnow, heq⟩ := andThen_ok hok
      rw [heq] at hok ⊢
      have hlater := ih (i + 1) (source + min 256 len) (destination + min 256 len) (len - min 256 len) _
        (by omega) hok (by omega)
      have hwhole : len = min 256 len + (len - min 256 len) := by omega
      rw [program_ok hnow] at hlater ⊢
      rw [hwhole, ByteBuffer.window_add, ByteBuffer.window_add, ← hwhole, hlater]
      congr 1
      · have hfront := ByteBuffer.window_blit m destination (window m source (min 256 len))
        rw [ByteBuffer.window_length] at hfront
        rw [← hfront]
        apply ByteBuffer.window_congr
        intro j hj
        rw [hfront]
        exact copyRange_apart fuel _ _ _ _ _ (by omega)
      · apply ByteBuffer.window_blit_apart
        rw [ByteBuffer.window_length]
        omega

/-! flash_clear_file. -/

/-- The calls whose failure flash_clear_file does not make up for. -/
structure ClearReplies.Safe (rs : ClearReplies) : Prop where
  unlink : rs.unlink = none
  zero : ∀ i, rs.zero i = none
  back : rs.back = none

/-- What the clearing of the record at `b` does, when it hangs below `p` and points to `n`. -/
structure Cleared (m m' : Memory) (b p n : Nat) : Prop where
  apart : ∀ a, a < b ∨ b + recordSize m b ≤ a → a < p ∨ p + 4 ≤ a → n = 0 ∨ a < n + 4 ∨ n + 8 ≤ a → m' a = m a
  next : readU32 m' p = n
  back : n ≠ 0 → readU32 m' (n + 4) = p
  zero : ∀ i < fileSize m (b + 10), m' (b + 10 + lengthSize m (b + 10) + i) = 0

theorem clearFile_spec {rs : ClearReplies} (hrs : rs.Safe) (m : Memory) (b : Nat)
    (hplace : b + recordSize m b ≤ readU32 m (b + 4)) (hnext : readU32 m b = 0 ∨ readU32 m b + 8 ≤ b) :
    (clearFile rs m (b + 10)).1 = true ∧
      Cleared m (clearFile rs m (b + 10)).2 b (readU32 m (b + 4)) (readU32 m b) := by
  have hp := readU32_lt m (b + 4)
  have hn := readU32_lt m b
  have hsize : recordSize m b = 10 + lengthSize m (b + 10) + fileSize m (b + 10) := rfl
  have htwo : 2 ≤ lengthSize m (b + 10) := by
    rcases lengthSize_cases m (b + 10) with h | h
    · omega
    · omega
  generalize hpdef : readU32 m (b + 4) = p at *
  generalize hndef : readU32 m b = n at *
  let m1 := (program m p (u32Bytes n) rs.unlink).2
  let m2 := (program m1 (b + 10) (u16Bytes 0) rs.length).2
  let m3 := (zeroRange rs.zero (fileSize m (b + 10)) 0 (b + 10 + lengthSize m (b + 10)) (fileSize m (b + 10)) m2).2
  let m4 := if 0 < n then (program m3 (n + 4) (u32Bytes p) rs.back).2 else m3
  let m5 := (program m4 b (u32Bytes 0) rs.next).2
  let m6 := (program m5 (b + 4) (u32Bytes 0) rs.prev).2
  obtain ⟨hzero, hm3⟩ := zeroRange_none hrs.zero (fileSize m (b + 10)) 0 (b + 10 + lengthSize m (b + 10))
    (fileSize m (b + 10)) m2 (Nat.le_refl _)
  have hrun : clearFile rs m (b + 10) = (true, m6) := by
    simp only [clearFile, Nat.add_sub_cancel, hpdef, hndef]
    exact if_pos hzero
  have hm1 : m1 = blit m p (u32Bytes n) := by
    simp only [m1, hrs.unlink, program]
  -- what each call leaves
  have h1 : ∀ a, a < p ∨ p + 4 ≤ a → m1 a = m a := by
    intro a ha
    exact program_apart m p (u32Bytes n) rs.unlink ha
  have h2 : ∀ a, a < b + 10 ∨ b + 10 + 2 ≤ a → m2 a = m1 a := by
    intro a ha
    exact program_apart m1 (b + 10) (u16Bytes 0) rs.length ha
  have h3 : ∀ a, a < b + 10 + lengthSize m (b + 10) ∨ b + recordSize m b ≤ a → m3 a = m2 a := by
    intro a ha
    refine (hm3 a).trans (if_neg ?_)
    omega
  have h4 : ∀ a, n = 0 ∨ a < n + 4 ∨ n + 8 ≤ a → m4 a = m3 a := by
    intro a ha
    by_cases hpos : 0 < n
    · have hm4 : m4 = (program m3 (n + 4) (u32Bytes p) rs.back).2 := if_pos hpos
      rw [hm4]
      apply program_apart
      rw [u32Bytes_length]
      omega
    · have hm4 : m4 = m3 := if_neg hpos
      rw [hm4]
  have h5 : ∀ a, a < b ∨ b + 4 ≤ a → m5 a = m4 a := by
    intro a ha
    exact program_apart m4 b (u32Bytes 0) rs.next ha
  have h6 : ∀ a, a < b + 4 ∨ b + 8 ≤ a → m6 a = m5 a := by
    intro a ha
    exact program_apart m5 (b + 4) (u32Bytes 0) rs.prev ha
  suffices hcleared : Cleared m m6 b p n by
    rw [hrun]
    exact ⟨rfl, hcleared⟩
  refine ⟨?_, ?_, ?_, ?_⟩
  · intro a hrecord hpointer hback
    have e6 := h6 a (by omega)
    have e5 := h5 a (by omega)
    have e3 := h3 a (by omega)
    have e2 := h2 a (by omega)
    rw [e6, e5, h4 a hback, e3, e2, h1 a hpointer]
  · have hword : readU32 m1 p = n := by
      rw [hm1]
      exact readU32_blit m p hn
    rw [← hword]
    apply readU32_congr
    intro a ha ha'
    have e6 := h6 a (by omega)
    have e5 := h5 a (by omega)
    have e4 := h4 a (by omega)
    have e3 := h3 a (by omega)
    have e2 := h2 a (by omega)
    rw [e6, e5, e4, e3, e2]
  · intro hne
    have hm4 : m4 = blit m3 (n + 4) (u32Bytes p) := by
      have hif : m4 = (program m3 (n + 4) (u32Bytes p) rs.back).2 := if_pos (Nat.pos_of_ne_zero hne)
      rw [hif, hrs.back]
      rfl
    have hword : readU32 m4 (n + 4) = p := by
      rw [hm4]
      exact readU32_blit m3 (n + 4) hp
    rw [← hword]
    apply readU32_congr
    intro a ha ha'
    have e6 := h6 a (by omega)
    have e5 := h5 a (by omega)
    rw [e6, e5]
  · intro i hi
    have e6 := h6 (b + 10 + lengthSize m (b + 10) + i) (by omega)
    have e5 := h5 (b + 10 + lengthSize m (b + 10) + i) (by omega)
    have e4 := h4 (b + 10 + lengthSize m (b + 10) + i) (by omega)
    rw [e6, e5, e4]
    refine (hm3 _).trans (if_pos ?_)
    omega

/-! allocate_free_addr. -/

theorem linkNew_apart (rs : LinkReplies) (m : Memory) (addr next base : Nat) (h : a < addr ∨ addr + 8 ≤ a)
    (hnext : next = 0 ∨ a < next + 4 ∨ next + 8 ≤ a) : (linkNew rs m addr next base).2 a = m a := by
  apply andThen_apart
  · apply andThen_apart
    · apply program_apart
      rw [u32Bytes_length]
      omega
    · apply program_apart
      rw [u32Bytes_length]
      omega
  · by_cases hn : next ≠ 0
    · rw [if_pos hn]
      apply program_apart
      rw [u32Bytes_length]
      omega
    · rw [if_neg hn]

theorem linkNew_ok {rs : LinkReplies} {m : Memory} {addr next base : Nat} (hnext : next = 0 ∨ next + 8 ≤ addr)
    (hlt : next < 4294967296) (haddr : addr < 4294967296) (hbase : base < 4294967296)
    (hok : (linkNew rs m addr next base).1 = true) :
    readU32 (linkNew rs m addr next base).2 addr = next ∧
      readU32 (linkNew rs m addr next base).2 (addr + 4) = base ∧
      (next ≠ 0 → readU32 (linkNew rs m addr next base).2 (next + 4) = addr) := by
  obtain ⟨hfront, heq⟩ := andThen_ok hok
  obtain ⟨hfirst, hsecond⟩ := andThen_ok hfront
  have hm2 : (andThen (program m addr (u32Bytes next) rs.next) fun m =>
      program m (addr + 4) (u32Bytes base) rs.prev).2 =
        blit (blit m addr (u32Bytes next)) (addr + 4) (u32Bytes base) := by
    rw [hsecond] at hfront ⊢
    rw [program_ok hfront, program_ok hfirst]
  rw [hm2] at heq
  have hlink : linkNew rs m addr next base = _ := heq
  rw [hlink] at hok ⊢
  clear heq hlink hfront hfirst hsecond hm2
  generalize hm : blit (blit m addr (u32Bytes next)) (addr + 4) (u32Bytes base) = m2 at *
  have hn : readU32 m2 addr = next := by
    rw [← readU32_blit m addr hlt, ← hm]
    apply readU32_congr
    intro x hx hx'
    exact ByteBuffer.blit_before (by omega)
  have hb : readU32 m2 (addr + 4) = base := by
    rw [← hm]
    exact readU32_blit _ (addr + 4) hbase
  by_cases hne : next ≠ 0
  · rw [if_pos hne] at hok ⊢
    have hm3 := program_ok hok
    refine ⟨?_, ?_, ?_⟩
    · rw [← hn]
      apply readU32_congr
      intro x hx hx'
      apply program_apart
      rw [u32Bytes_length]
      omega
    · rw [← hb]
      apply readU32_congr
      intro x hx hx'
      apply program_apart
      rw [u32Bytes_length]
      omega
    · intro _
      rw [hm3]
      exact readU32_blit m2 (next + 4) haddr
  · rw [if_neg hne]
    exact ⟨hn, hb, fun h => absurd h hne⟩

theorem linkNew_failed {rs : LinkReplies} {m : Memory} {addr next base : Nat}
    (hback : next = 0 ∨ rs.nextPrev = none ∨ rs.nextPrev = some 0)
    (hfail : (linkNew rs m addr next base).1 = false) (h : a < addr ∨ addr + 8 ≤ a) :
    (linkNew rs m addr next base).2 a = m a := by
  let front := andThen (program m addr (u32Bytes next) rs.next) fun m =>
    program m (addr + 4) (u32Bytes base) rs.prev
  have hfront : front.2 a = m a := by
    apply andThen_apart
    · apply program_apart
      rw [u32Bytes_length]
      omega
    · apply program_apart
      rw [u32Bytes_length]
      omega
  by_cases hok : front.1 = true
  · have heq : linkNew rs m addr next base =
        if next ≠ 0 then program front.2 (next + 4) (u32Bytes addr) rs.nextPrev else (true, front.2) := if_pos hok
    rw [heq] at hfail ⊢
    by_cases hne : next ≠ 0
    · rw [if_pos hne] at hfail ⊢
      rcases hback with hback | hback | hback
      · exact absurd hback hne
      · rw [hback] at hfail
        cases hfail
      · rw [hback, program_untouched, hfront]
    · rw [if_neg hne] at hfail
      cases hfail
  · have heq : linkNew rs m addr next base = front := if_neg hok
    rw [heq, hfront]

/-! flash_write_data_to_file_internal. -/

theorem writeFileLength_apart (short long : Reply) (m : Memory) (data len : Nat)
    (h : a < data ∨ data + lengthSizeOf len ≤ a) : (writeFileLength short long m data len).2 a = m a := by
  by_cases hlen : extendedLength ≤ len
  · rw [lengthSizeOf, if_pos hlen] at h
    rw [writeFileLength, if_pos hlen]
    apply andThen_apart
    · apply program_apart
      rw [u16Bytes_length]
      omega
    · apply program_apart
      rw [u32Bytes_length]
      omega
  · rw [lengthSizeOf, if_neg hlen] at h
    rw [writeFileLength, if_neg hlen]
    apply program_apart
    rw [u16Bytes_length]
    omega

theorem writeFileLength_ok {short long : Reply} {m : Memory} {data len : Nat} (hlt : len < 4294967296)
    (hok : (writeFileLength short long m data len).1 = true) :
    lengthSize (writeFileLength short long m data len).2 data = lengthSizeOf len ∧
      fileSize (writeFileLength short long m data len).2 data = len := by
  by_cases hlen : extendedLength ≤ len
  · rw [writeFileLength, if_pos hlen] at hok ⊢
    obtain ⟨hshort, heq⟩ := andThen_ok hok
    rw [heq] at hok ⊢
    rw [program_ok hok, program_ok hshort]
    have hmark : readU16 (blit (blit m data (u16Bytes extendedLength)) (data + 2) (u32Bytes len)) data =
        extendedLength := by
      have hword : readU16 (blit m data (u16Bytes extendedLength)) data = extendedLength :=
        readU16_blit m data (by decide)
      rw [← hword]
      apply readU16_congr
      intro x hx hx'
      rw [hword]
      exact ByteBuffer.blit_before (by omega)
    simp only [lengthSize, fileSize, hmark, if_true, lengthSizeOf, hlen, true_and]
    exact readU32_blit _ (data + 2) hlt
  · rw [writeFileLength, if_neg hlen] at hok ⊢
    have hsmall : len < 65535 := by
      simp only [extendedLength] at hlen
      omega
    rw [program_ok hok]
    have hword : readU16 (blit m data (u16Bytes len)) data = len := readU16_blit m data (by omega)
    have hne : ¬ len = extendedLength := by
      simp only [extendedLength]
      omega
    simp only [lengthSize, fileSize, hword, hne, if_false, lengthSizeOf, hlen, and_self]

theorem writeHeader_apart (rs : WriteReplies) (m : Memory) (fid : Fid) (addr newSize : Nat)
    (h : a < addr + 8 ∨ addr + 10 + lengthSizeOf newSize ≤ a) : (writeHeader rs m fid addr newSize).2 a = m a := by
  apply andThen_apart
  · apply program_apart
    rw [u16Bytes_length]
    omega
  · apply writeFileLength_apart
    omega

theorem two_le_lengthSizeOf (size : Nat) : 2 ≤ lengthSizeOf size := by
  rw [lengthSizeOf]
  split
  · omega
  · omega

theorem writeHeader_ok {rs : WriteReplies} {m : Memory} {fid : Fid} {addr newSize : Nat}
    (hlt : newSize < 4294967296) (hok : (writeHeader rs m fid addr newSize).1 = true) :
    readU16 (writeHeader rs m fid addr newSize).2 (addr + 8) = fid.toNat ∧
      lengthSize (writeHeader rs m fid addr newSize).2 (addr + 10) = lengthSizeOf newSize ∧
      fileSize (writeHeader rs m fid addr newSize).2 (addr + 10) = newSize := by
  obtain ⟨hfid, heq⟩ := andThen_ok hok
  rw [writeHeader] at hok ⊢
  rw [heq] at hok ⊢
  refine ⟨?_, writeFileLength_ok hlt hok⟩
  have hword : readU16 (program m (addr + 8) (u16Bytes fid.toNat) rs.fid).2 (addr + 8) = fid.toNat := by
    rw [program_ok hfid]
    exact readU16_blit m (addr + 8) fid.isLt
  refine (readU16_congr ?_).trans hword
  intro x hx hx'
  apply writeFileLength_apart
  omega

theorem andThen_congr {r r' : Bool × Memory} {f : Memory → Bool × Memory} (hfst : r'.1 = r.1)
    (hr : r'.2 a = r.2 a) (hf : (f r'.2).2 a = (f r.2).2 a) : (andThen r' f).2 a = (andThen r f).2 a := by
  by_cases h : r.1 = true
  · rw [andThen, andThen, if_pos h, if_pos (hfst.trans h), hf]
  · rw [andThen, andThen, if_neg h, if_neg (by rwa [hfst]), hr]

theorem writeHeader_congr (rs : WriteReplies) (fid : Fid) (addr newSize : Nat) (h : m' a = m a) :
    (writeHeader rs m' fid addr newSize).2 a = (writeHeader rs m fid addr newSize).2 a := by
  apply andThen_congr
  · exact program_fst m m' _ _ _
  · exact program_congr _ _ _ h
  · rw [writeFileLength, writeFileLength]
    split
    · apply andThen_congr
      · exact program_fst _ _ _ _ _
      · exact program_congr _ _ _ (program_congr _ _ _ h)
      · exact program_congr _ _ _ (program_congr _ _ _ (program_congr _ _ _ h))
    · exact program_congr _ _ _ (program_congr _ _ _ h)

theorem andThen_fst {r r' : Bool × Memory} {f : Memory → Bool × Memory} (hfst : r'.1 = r.1)
    (hf : (f r'.2).1 = (f r.2).1) : (andThen r' f).1 = (andThen r f).1 := by
  by_cases h : r.1 = true
  · rw [andThen, andThen, if_pos h, if_pos (hfst.trans h), hf]
  · rw [andThen, andThen, if_neg h, if_neg (by rwa [hfst]), hfst]

theorem writeHeader_fst (rs : WriteReplies) (m m' : Memory) (fid : Fid) (addr newSize : Nat) :
    (writeHeader rs m' fid addr newSize).1 = (writeHeader rs m fid addr newSize).1 := by
  apply andThen_fst
  · exact program_fst m m' _ _ _
  · rw [writeFileLength, writeFileLength]
    split
    · apply andThen_fst
      · exact program_fst _ _ _ _ _
      · exact program_fst _ _ _ _ _
    · exact program_fst _ _ _ _ _

theorem programData_apart (m : Memory) (addr : Nat) (bytes : Bytes) (r : Reply)
    (h : a < addr ∨ addr + bytes.length ≤ a) :
    (if bytes = [] then (true, m) else program m addr bytes r).2 a = m a := by
  split
  · rfl
  · exact program_apart m addr bytes r h

theorem programData_ok {m : Memory} {addr : Nat} {bytes : Bytes} {r : Reply}
    (hok : (if bytes = [] then (true, m) else program m addr bytes r).1 = true) :
    window (if bytes = [] then (true, m) else program m addr bytes r).2 addr bytes.length = bytes := by
  by_cases hb : bytes = []
  · subst hb
    rfl
  · rw [if_neg hb] at hok ⊢
    rw [program_ok hok]
    exact ByteBuffer.window_blit m addr bytes

/-! The new payload. -/

/-- The old bytes with `bytes` in their place from `offset` on. -/
def splice (old : Bytes) (offset : Nat) (bytes : Bytes) : Bytes :=
  old.take offset ++ bytes ++ old.drop (offset + bytes.length)

/-- What the file is to hold after the write. -/
def written (old : Bytes) (offset : Nat) (bytes : Bytes) (partly : Bool) : Bytes :=
  if partly then splice old offset bytes else bytes

/-- The sizes of a write: where it begins, and how long the file is after it. -/
structure Sized (old : Bytes) (offset : Nat) (bytes : Bytes) (newSize : Nat) (partly : Bool) : Prop where
  part : partly = true → offset ≤ old.length ∧ newSize = max old.length (offset + bytes.length)
  whole : partly = false → offset = 0 ∧ newSize = bytes.length

theorem Sized.written_length {old bytes : Bytes} {offset newSize : Nat} {partly : Bool}
    (h : Sized old offset bytes newSize partly) : (written old offset bytes partly).length = newSize := by
  cases partly with
  | false => exact (h.whole rfl).2.symm
  | true =>
    obtain ⟨hoff, hnew⟩ := h.part rfl
    simp only [written, splice, if_true, List.length_append, List.length_take, List.length_drop]
    omega

theorem Sized.end_le {old bytes : Bytes} {offset newSize : Nat} {partly : Bool}
    (h : Sized old offset bytes newSize partly) : offset + bytes.length ≤ newSize := by
  cases partly with
  | false =>
    obtain ⟨h0, hnew⟩ := h.whole rfl
    omega
  | true =>
    obtain ⟨_, hnew⟩ := h.part rfl
    omega

theorem stored_some_length (m : Memory) (d : Nat) : (stored m (some d)).length = fileSize m d :=
  ByteBuffer.window_length

/-- The old file lies outside the new payload. -/
def OldApart (m : Memory) (old : Option Nat) (payload newSize : Nat) : Prop :=
  ∀ d, old = some d → d + lengthSize m d + fileSize m d ≤ payload ∨ payload + newSize ≤ d

section Payload

variable {rs : WriteReplies} {old : Option Nat} {bytes : Bytes} {payload offset newSize : Nat} {partly : Bool}

theorem OldApart.same (h : OldApart m old payload newSize)
    (hm : ∀ a, a < payload ∨ payload + newSize ≤ a → m' a = m a) {d : Nat} (hd : old = some d) :
    lengthSize m' d = lengthSize m d ∧ fileSize m' d = fileSize m d ∧
      ∀ i < fileSize m d, m' (d + lengthSize m d + i) = m (d + lengthSize m d + i) := by
  have hplace := h d hd
  have hsizes : lengthSize m' d = lengthSize m d ∧ fileSize m' d = fileSize m d := by
    apply length_congr
    intro a ha ha'
    apply hm
    omega
  refine ⟨hsizes.1, hsizes.2, ?_⟩
  intro i hi
  apply hm
  omega

/-- The bytes in front of the new ones. -/
def copyFrontOf (rs : WriteReplies) (m : Memory) (old : Option Nat) (payload offset : Nat) (partly : Bool) :
    Bool × Memory :=
  match old with
  | none => (true, m)
  | some data =>
    if partly then copyRange rs.copyFront offset 0 (data + lengthSize m data) payload offset m else (true, m)

/-- The bytes behind the new ones, which end at `stop`. -/
def copyBehindOf (rs : WriteReplies) (m : Memory) (old : Option Nat) (payload stop : Nat) (partly : Bool) :
    Bool × Memory :=
  match old with
  | none => (true, m)
  | some data =>
    if partly && decide (stop < fileSize m data) then
      copyRange rs.copyBehind (fileSize m data) 0 (data + lengthSize m data + stop) (payload + stop)
        (fileSize m data - stop) m
    else (true, m)

theorem writePayload_eq :
    writePayload rs m old payload bytes offset partly =
      andThen (andThen (copyFrontOf rs m old payload offset partly) fun m =>
        if bytes = [] then (true, m) else program m (payload + offset) bytes rs.data) fun m =>
          copyBehindOf rs m old payload (offset + bytes.length) partly := by
  cases old with
  | none => rfl
  | some data => rfl

theorem copyFrontOf_apart (h : a < payload ∨ payload + offset ≤ a) :
    (copyFrontOf rs m old payload offset partly).2 a = m a := by
  cases old with
  | none => rfl
  | some d =>
    cases partly with
    | false => rfl
    | true => exact copyRange_apart offset 0 _ payload offset m h

theorem copyBehindOf_apart {stop : Nat} (hsize : ∀ d, old = some d → partly = true → fileSize m d ≤ newSize)
    (h : a < payload + stop ∨ payload + newSize ≤ a) :
    (copyBehindOf rs m old payload stop partly).2 a = m a := by
  cases old with
  | none => rfl
  | some d =>
    simp only [copyBehindOf]
    split
    case isTrue hif =>
      rw [Bool.and_eq_true, decide_eq_true_eq] at hif
      have hle := hsize d rfl hif.1
      apply copyRange_apart
      omega
    case isFalse => rfl

theorem writePayload_apart (hs : Sized (stored m old) offset bytes newSize partly)
    (hold : OldApart m old payload newSize) (h : a < payload ∨ payload + newSize ≤ a) :
    (writePayload rs m old payload bytes offset partly).2 a = m a := by
  have hend := hs.end_le
  rw [writePayload_eq]
  have hfront : ∀ x, x < payload ∨ payload + newSize ≤ x →
      (copyFrontOf rs m old payload offset partly).2 x = m x := by
    intro x hx
    exact copyFrontOf_apart (by omega)
  have hdata : ∀ x, x < payload ∨ payload + newSize ≤ x →
      (andThen (copyFrontOf rs m old payload offset partly) fun m =>
        if bytes = [] then (true, m) else program m (payload + offset) bytes rs.data).2 x = m x := by
    intro x hx
    apply andThen_apart (hfront x hx)
    exact programData_apart _ _ _ _ (by omega)
  apply andThen_apart (hdata a h)
  have hbehind : ∀ d, old = some d → partly = true → fileSize (andThen (copyFrontOf rs m old payload offset partly)
      fun m => if bytes = [] then (true, m) else program m (payload + offset) bytes rs.data).2 d ≤ newSize := by
    intro d hd hp
    obtain ⟨_, hsize, _⟩ := hold.same hdata hd
    obtain ⟨_, hnew⟩ := hs.part hp
    rw [hd, stored_some_length] at hnew
    omega
  exact copyBehindOf_apart hbehind (by omega)

theorem OldApart.stored_eq (h : OldApart m old payload newSize)
    (hm : ∀ a, a < payload ∨ payload + newSize ≤ a → m' a = m a) : stored m' old = stored m old := by
  cases old with
  | none => rfl
  | some d =>
    obtain ⟨hlen, hsize, hbytes⟩ := h.same hm rfl
    rw [stored, stored, hlen, hsize]
    exact ByteBuffer.window_congr hbytes

theorem copyFrontOf_ok (hold : OldApart m old payload newSize) (hoff : offset ≤ (stored m old).length)
    (hnew : offset ≤ newSize) (hok : (copyFrontOf rs m old payload offset true).1 = true) :
    window (copyFrontOf rs m old payload offset true).2 payload offset = (stored m old).take offset := by
  cases old with
  | none =>
    obtain rfl : offset = 0 := by simpa [stored] using hoff
    rfl
  | some d =>
    rw [stored_some_length] at hoff
    have hplace := hold d rfl
    have hcopy : window (copyFrontOf rs m (some d) payload offset true).2 payload offset =
        window m (d + lengthSize m d) offset :=
      copyRange_ok offset 0 _ payload offset m (Nat.le_refl _) hok (by omega)
    rw [hcopy, stored, ByteBuffer.window_take m _ hoff]

theorem copyBehindOf_ok {stop : Nat} (hold : OldApart m old payload newSize)
    (hnew : (stored m old).length ≤ newSize) (hok : (copyBehindOf rs m old payload stop true).1 = true) :
    window (copyBehindOf rs m old payload stop true).2 (payload + stop) ((stored m old).length - stop) =
      (stored m old).drop stop := by
  cases old with
  | none => simp [stored]
  | some d =>
    have hplace := hold d rfl
    rw [stored_some_length] at hnew ⊢
    by_cases hstop : stop < fileSize m d
    · have heq : copyBehindOf rs m (some d) payload stop true =
          copyRange rs.copyBehind (fileSize m d) 0 (d + lengthSize m d + stop) (payload + stop)
            (fileSize m d - stop) m := by
        simp only [copyBehindOf, hstop, decide_true, Bool.and_self, if_true]
      rw [heq] at hok ⊢
      rw [copyRange_ok _ 0 _ _ _ m (by omega) hok (by omega), stored,
        ByteBuffer.window_drop m _ (by omega)]
    · have hnone : fileSize m d - stop = 0 := by omega
      have hlen : (stored m (some d)).length ≤ stop := by
        rw [stored_some_length]
        omega
      rw [hnone, List.drop_of_length_le hlen, ByteBuffer.window_zero]

theorem writePayload_ok (hs : Sized (stored m old) offset bytes newSize partly)
    (hold : OldApart m old payload newSize)
    (hok : (writePayload rs m old payload bytes offset partly).1 = true) :
    window (writePayload rs m old payload bytes offset partly).2 payload newSize =
      written (stored m old) offset bytes partly := by
  have hend := hs.end_le
  rw [writePayload_eq] at hok ⊢
  obtain ⟨hok2, heq3⟩ := andThen_ok hok
  obtain ⟨hok1, heq2⟩ := andThen_ok hok2
  rw [heq3, heq2]
  rw [heq3, heq2] at hok
  rw [heq2] at hok2
  clear heq3 heq2
  generalize hm1 : (copyFrontOf rs m old payload offset partly).2 = m1 at *
  generalize hm2 : (if bytes = [] then (true, m1) else program m1 (payload + offset) bytes rs.data).2 = m2 at *
  generalize hm3 : (copyBehindOf rs m2 old payload (offset + bytes.length) partly).2 = m3 at *
  have h2 : window m2 (payload + offset) bytes.length = bytes := by
    rw [← hm2]
    exact programData_ok hok2
  cases partly with
  | false =>
    obtain ⟨rfl, rfl⟩ := hs.whole rfl
    have h3 : m3 = m2 := by
      rw [← hm3]
      cases old with
      | none => rfl
      | some d => rfl
    rw [h3]
    exact h2
  | true =>
    obtain ⟨hoff, hnew⟩ := hs.part rfl
    have hout1 : ∀ x, x < payload ∨ payload + offset ≤ x → m1 x = m x := by
      intro x hx
      rw [← hm1]
      exact copyFrontOf_apart hx
    have hout2 : ∀ x, x < payload + offset ∨ payload + offset + bytes.length ≤ x → m2 x = m1 x := by
      intro x hx
      rw [← hm2]
      exact programData_apart m1 _ bytes _ hx
    have hsame : ∀ x, x < payload ∨ payload + newSize ≤ x → m2 x = m x := by
      intro x hx
      rw [hout2 x (by omega), hout1 x (by omega)]
    have hstored : stored m2 old = stored m old := hold.stored_eq hsame
    have hold2 : OldApart m2 old payload newSize := by
      intro d hd
      obtain ⟨hlen, hsize, _⟩ := hold.same hsame hd
      rw [hlen, hsize]
      exact hold d hd
    have hout3 : ∀ x, x < payload + (offset + bytes.length) → m3 x = m2 x := by
      intro x hx
      rw [← hm3]
      apply copyBehindOf_apart _ (.inl hx)
      · exact (stored m2 old).length
      · intro d hd _
        have hlen : (stored m2 old).length = fileSize m2 d := by rw [hd, stored_some_length]
        omega
    -- the three stretches of the new payload: before, in and behind the new bytes
    have hbefore : window m3 payload offset = (stored m old).take offset := by
      have hcopy := copyFrontOf_ok hold hoff (by omega) hok1
      rw [hm1] at hcopy
      rw [← hcopy]
      apply ByteBuffer.window_congr
      intro i hi
      rw [hout3 _ (by omega), hout2 _ (by omega)]
    have hin : window m3 (payload + offset) bytes.length = bytes := by
      refine (ByteBuffer.window_congr ?_).trans h2
      intro i hi
      exact hout3 _ (by omega)
    have hbehind : window m3 (payload + (offset + bytes.length))
        ((stored m old).length - (offset + bytes.length)) = (stored m old).drop (offset + bytes.length) := by
      have hcopy := copyBehindOf_ok hold2 (by rw [hstored]; omega) hok
      rw [hm3, hstored] at hcopy
      exact hcopy
    have hwhole : newSize = offset + (bytes.length + ((stored m old).length - (offset + bytes.length))) := by
      omega
    rw [hwhole, ByteBuffer.window_add, ByteBuffer.window_add, hbefore, hin, Nat.add_assoc payload, hbehind]
    simp only [written, splice, if_true, List.append_assoc]

/-! The new record. -/

/-- The length that the header leaves in the free bytes does not reach beyond them. -/
def HeaderWithin (rs : WriteReplies) (m : Memory) (fid : Fid) (addr newSize : Nat) : Prop :=
  recordSize (writeHeader rs m fid addr newSize).2 addr ≤ realSizeOf newSize

/-- The record at `addr` is the one of the file `fid` with these bytes, and `base` points to it. -/
structure Published (m : Memory) (fid : Fid) (addr base : Nat) (bytes : Bytes) : Prop where
  next : readU32 m base = addr
  fid : readU16 m (addr + 8) = fid.toNat
  size : recordSize m addr = realSizeOf bytes.length
  bytes : stored m (some (addr + 10)) = bytes

variable {fid : Fid} {addr base : Nat}

theorem OldApart.header (hold : OldApart m old addr (realSizeOf newSize)) (rs : WriteReplies) (fid : Fid) :
    stored (writeHeader rs m fid addr newSize).2 old = stored m old ∧
      OldApart (writeHeader rs m fid addr newSize).2 old (addr + 10 + lengthSizeOf newSize) newSize := by
  have hreal : realSizeOf newSize = 10 + lengthSizeOf newSize + newSize := rfl
  have hsame : ∀ a, a < addr ∨ addr + realSizeOf newSize ≤ a → (writeHeader rs m fid addr newSize).2 a = m a := by
    intro a ha
    apply writeHeader_apart
    omega
  refine ⟨hold.stored_eq hsame, ?_⟩
  intro d hd
  obtain ⟨hlen, hsize, _⟩ := hold.same hsame hd
  have hplace := hold d hd
  omega

theorem writeRecord_before {r : Bool × Memory} (hs : Sized (stored m old) offset bytes newSize partly)
    (hold : OldApart m old addr (realSizeOf newSize)) (hlt : newSize < 4294967296)
    (hwithin : HeaderWithin rs m fid addr newSize)
    (hr : r = andThen (writeHeader rs m fid addr newSize) fun m =>
      writePayload rs m old (addr + 10 + lengthSizeOf newSize) bytes offset partly) :
    (∀ a, a < addr + 8 ∨ addr + realSizeOf newSize ≤ a → r.2 a = m a) ∧
      recordSize r.2 addr ≤ realSizeOf newSize ∧
      ((writeHeader rs m fid addr newSize).1 = true →
        lengthSize r.2 (addr + 10) = lengthSizeOf newSize ∧ fileSize r.2 (addr + 10) = newSize) ∧
      (r.1 = true → readU16 r.2 (addr + 8) = fid.toNat ∧ recordSize r.2 addr = realSizeOf newSize ∧
        stored r.2 (some (addr + 10)) = written (stored m old) offset bytes partly) := by
  have hreal : realSizeOf newSize = 10 + lengthSizeOf newSize + newSize := rfl
  have htwo := two_le_lengthSizeOf newSize
  obtain ⟨hstored, hold1⟩ := hold.header rs fid
  have hs1 : Sized (stored (writeHeader rs m fid addr newSize).2 old) offset bytes newSize partly := by
    rw [hstored]
    exact hs
  have hhead : ∀ a, a < addr + 8 ∨ addr + realSizeOf newSize ≤ a → (writeHeader rs m fid addr newSize).2 a = m a := by
    intro a ha
    apply writeHeader_apart
    omega
  by_cases hok : (writeHeader rs m fid addr newSize).1 = true
  · obtain ⟨hfid, hlen, hsize⟩ := writeHeader_ok hlt hok
    have hrun : r = writePayload rs (writeHeader rs m fid addr newSize).2 old (addr + 10 + lengthSizeOf newSize)
        bytes offset partly := by
      rw [hr, andThen, if_pos hok]
    have hpay : ∀ a, a < addr + 10 + lengthSizeOf newSize ∨ addr + realSizeOf newSize ≤ a →
        r.2 a = (writeHeader rs m fid addr newSize).2 a := by
      intro a ha
      rw [hrun]
      apply writePayload_apart hs1 hold1
      omega
    have hfield : lengthSize r.2 (addr + 10) = lengthSizeOf newSize ∧ fileSize r.2 (addr + 10) = newSize := by
      obtain ⟨h1, h2⟩ : lengthSize r.2 (addr + 10) = lengthSize (writeHeader rs m fid addr newSize).2 (addr + 10) ∧
          fileSize r.2 (addr + 10) = fileSize (writeHeader rs m fid addr newSize).2 (addr + 10) := by
        apply length_congr
        intro a ha ha'
        apply hpay
        omega
      exact ⟨h1.trans hlen, h2.trans hsize⟩
    have hrec : recordSize r.2 addr = realSizeOf newSize := by
      rw [recordSize, hfield.1, hfield.2]
      exact hreal.symm
    refine ⟨?_, by omega, fun _ => hfield, ?_⟩
    · intro a ha
      rw [hpay a (by omega), hhead a ha]
    · intro hdone
      refine ⟨?_, hrec, ?_⟩
      · refine (readU16_congr ?_).trans hfid
        intro a ha ha'
        apply hpay
        omega
      · have hwindow := writePayload_ok hs1 hold1 (by rwa [hrun] at hdone)
        rw [← hrun, hstored] at hwindow
        rw [stored, hfield.1, hfield.2, hwindow]
  · have hok' : (writeHeader rs m fid addr newSize).1 = false := by simpa using hok
    have hrun : r = writeHeader rs m fid addr newSize := by
      rw [hr, andThen_failed _ hok']
    rw [hrun]
    exact ⟨hhead, hwithin, fun h => absurd h hok, fun h => absurd h hok⟩

theorem writeRecord_spec (hs : Sized (stored m old) offset bytes newSize partly)
    (hold : OldApart m old addr (realSizeOf newSize)) (hlt : newSize < 4294967296)
    (hbase : addr + realSizeOf newSize = base) (haddr : addr < 4294967296)
    (hwithin : HeaderWithin rs m fid addr newSize) :
    (∀ a, a < addr + 8 ∨ base + 4 ≤ a →
        (writeRecord rs m old fid addr base bytes offset newSize partly).2 a = m a) ∧
      recordSize (writeRecord rs m old fid addr base bytes offset newSize partly).2 addr ≤ realSizeOf newSize ∧
      ((writeHeader rs m fid addr newSize).1 = true →
        lengthSize (writeRecord rs m old fid addr base bytes offset newSize partly).2 (addr + 10) =
            lengthSizeOf newSize ∧
          fileSize (writeRecord rs m old fid addr base bytes offset newSize partly).2 (addr + 10) = newSize) ∧
      ((writeRecord rs m old fid addr base bytes offset newSize partly).1 = true →
        Published (writeRecord rs m old fid addr base bytes offset newSize partly).2 fid addr base
          (written (stored m old) offset bytes partly)) := by
  let r2 := andThen (writeHeader rs m fid addr newSize) fun m =>
    writePayload rs m old (addr + 10 + lengthSizeOf newSize) bytes offset partly
  let r3 := andThen r2 fun m =>
    (decide (base / flashSectorSize = addr / flashSectorSize) || rs.commitRecord, m)
  have hreal : realSizeOf newSize = 10 + lengthSizeOf newSize + newSize := rfl
  obtain ⟨hout, hsize, hfield, hdone⟩ := writeRecord_before hs hold hlt hwithin (r := r2) rfl
  have h3 : r3.2 = r2.2 := by
    by_cases hok : r2.1 = true
    · simp only [r3, andThen, if_pos hok]
    · simp only [r3, andThen, if_neg hok]
  have hrun : writeRecord rs m old fid addr base bytes offset newSize partly =
      andThen r3 fun m => program m base (u32Bytes addr) rs.publish := rfl
  rw [hrun]
  generalize hr4 : (andThen r3 fun m => program m base (u32Bytes addr) rs.publish) = r4
  have hpub : ∀ a, a < base ∨ base + 4 ≤ a → r4.2 a = r2.2 a := by
    intro a ha
    rw [← hr4, ← h3]
    apply andThen_apart rfl
    apply program_apart
    rw [u32Bytes_length]
    exact ha
  -- the pointer at `base` is behind the record
  have hkept : Kept r2.2 r4.2 addr := by
    intro a ha ha'
    exact hpub a (by omega)
  refine ⟨?_, ?_, ?_, ?_⟩
  · intro a ha
    rw [hpub a (by omega), hout a (by omega)]
  · rw [hkept.recordSize_eq]
    exact hsize
  · intro hok
    rw [hkept.length_eq.1, hkept.length_eq.2]
    exact hfield hok
  · intro hok
    rw [← hr4] at hok
    obtain ⟨hok3, heq⟩ := andThen_ok hok
    obtain ⟨hok2, _⟩ := andThen_ok hok3
    obtain ⟨hfid, hrec, hbytes⟩ := hdone hok2
    rw [heq] at hok
    refine ⟨?_, ?_, ?_, ?_⟩
    · rw [← hr4, heq, program_ok hok]
      exact readU32_blit r3.2 base haddr
    · rw [hkept.fid_eq, hfid]
    · rw [hkept.recordSize_eq, hrec, hs.written_length]
    · rw [hkept.stored_eq, hbytes]

end Payload

end KeyWallet.FlashFile
