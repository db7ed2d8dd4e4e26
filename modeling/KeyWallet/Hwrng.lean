import KeyWallet.RingBuffer

/-! The pool of random bytes of hwrng.c and random.c. The words of the platform's generator and the clock are
inputs. -/
namespace KeyWallet.Hwrng

open ByteBuffer RingBuffer

abbrev Byte := BitVec 8
abbrev Bytes := List Byte

/-- hwrng_buf. -/
structure Buf where
  buf : Nat → Byte
  head : Nat
  tail : Nat
  size : Nat
  count : Nat

namespace Buf

variable (rb : Buf)

/-- hwrng_buf_init. -/
def init (buf : Nat → Byte) (size : Nat) : Buf := { buf, head := 0, tail := 0, size, count := 0 }

/-- hwrng_buf_add. -/
def add (data : Bytes) : Buf × Nat :=
  let room := rb.size - rb.count
  let n := if data.length < room then data.length else room
  let first := if rb.size - rb.tail < n then rb.size - rb.tail else n
  let buf := if first ≠ 0 then blit rb.buf rb.tail (data.take first) else rb.buf
  let tail := if first ≠ 0 then if rb.size ≤ rb.tail + first then 0 else rb.tail + first else rb.tail
  let second := n - first
  ({ rb with
      buf := if first < n then blit buf tail ((data.drop first).take second) else buf
      tail := if first < n then tail + second else tail
      count := rb.count + n }, n)

/-- hwrng_buf_del. -/
def del (len : Nat) : Buf × Bytes :=
  let n := if len < rb.count then len else rb.count
  let first := if rb.size - rb.head < n then rb.size - rb.head else n
  let data := if first ≠ 0 then window rb.buf rb.head first else []
  let head := if first ≠ 0 then if rb.size ≤ rb.head + first then 0 else rb.head + first else rb.head
  let second := n - first
  ({ rb with
      head := if first < n then head + second else head
      count := rb.count - n },
    if first < n then data ++ window rb.buf head second else data)

/-- hwrng_buf_space and hwrng_buf_full. -/
def space : Nat := rb.size - rb.count

def full : Bool := rb.count = rb.size

structure Valid : Prop where
  head_lt : rb.head < rb.size
  count_le : rb.count ≤ rb.size
  tail_eq : rb.tail = (rb.head + rb.count) % rb.size

/-- The bytes that wait, the oldest one first. -/
def contents : Bytes := cells rb.size rb.buf rb.head rb.count

variable {rb : Buf}

theorem Valid.tail_lt (h : rb.Valid) : rb.tail < rb.size := by
  rw [h.tail_eq]
  exact Nat.mod_lt _ (Nat.zero_lt_of_lt h.head_lt)

theorem init_valid (buf : Nat → Byte) {size : Nat} (h : 0 < size) : (init buf size).Valid :=
  ⟨h, Nat.zero_le _, (Nat.zero_mod size).symm⟩

@[simp] theorem contents_length : rb.contents.length = rb.count := cells_length

/-- Both pieces of a move. -/
theorem moved_eq {size at' n : Nat} (hat : at' < size) :
    (let first := if size - at' < n then size - at' else n
      let here := if first ≠ 0 then if size ≤ at' + first then 0 else at' + first else at'
      if first < n then here + (n - first) else here) = advance size at' n := by
  dsimp only
  unfold advance
  split_ifs <;> omega

/-- The two copies are one round the end. -/
theorem add_eq (h : rb.Valid) (data : Bytes) :
    rb.add data = ({ rb with
      buf := store rb.size rb.buf rb.tail (data.take (min data.length rb.space))
      tail := advance rb.size rb.tail (min data.length rb.space)
      count := rb.count + min data.length rb.space }, min data.length rb.space) := by
  have htail := h.tail_lt
  have hcount := h.count_le
  have hn : (if data.length < rb.size - rb.count then data.length else rb.size - rb.count) =
      min data.length rb.space := by
    unfold space
    split_ifs <;> omega
  have hle : min data.length rb.space ≤ rb.size := by
    unfold space
    omega
  have hmoved := moved_eq (n := min data.length rb.space) htail
  unfold add
  dsimp only at hmoved ⊢
  rw [hn, hmoved]
  generalize hk : min data.length rb.space = k at *
  have hlen : (data.take k).length = k := by
    rw [List.length_take]
    omega
  congr 2
  unfold store
  by_cases hin : rb.size - rb.tail < k
  · -- over the end
    have hfirst : rb.size - rb.tail ≠ 0 := by omega
    have hwrap : rb.size ≤ rb.tail + (rb.size - rb.tail) := by omega
    rw [if_pos hin, if_pos hin, if_pos hfirst, if_pos hfirst, if_pos hwrap, List.take_take,
      Nat.min_eq_left (Nat.le_of_lt hin), List.drop_take]
  · have hdrop : (data.take k).drop (rb.size - rb.tail) = [] := List.drop_of_length_le (by omega)
    have htake : (data.take k).take (rb.size - rb.tail) = data.take k := List.take_of_length_le (by omega)
    rw [if_neg hin, if_neg (Nat.lt_irrefl k), hdrop, htake]
    have hnil (m : Nat → Byte) : blit m 0 [] = m := by
      funext a
      exact blit_behind (Nat.zero_le a)
    rw [hnil]
    by_cases hk0 : k = 0
    · rw [if_neg (not_not.mpr hk0), hk0, List.take_zero]
      funext a
      by_cases ha : a < rb.tail
      · exact (blit_before ha).symm
      · exact (blit_behind (Nat.le_of_not_lt ha)).symm
    · rw [if_pos hk0]

theorem del_eq (h : rb.Valid) (len : Nat) :
    rb.del len = ({ rb with
      head := advance rb.size rb.head (min len rb.count)
      count := rb.count - min len rb.count }, load rb.size rb.buf rb.head (min len rb.count)) := by
  have hhead := h.head_lt
  have hcount := h.count_le
  have hn : (if len < rb.count then len else rb.count) = min len rb.count := by
    split_ifs <;> omega
  have hle : min len rb.count ≤ rb.size := by omega
  have hmoved := moved_eq (n := min len rb.count) hhead
  unfold del
  dsimp only at hmoved ⊢
  rw [hn, hmoved]
  generalize min len rb.count = k at *
  congr 1
  unfold load
  by_cases hin : rb.size - rb.head < k
  · have hfirst : rb.size - rb.head ≠ 0 := by omega
    have hwrap : rb.size ≤ rb.head + (rb.size - rb.head) := by omega
    rw [if_pos hin, if_pos hin, if_pos hfirst, if_pos hfirst, if_pos hwrap, Nat.min_eq_right (Nat.le_of_lt hin)]
  · rw [if_neg hin, if_neg (Nat.lt_irrefl k), Nat.min_eq_left (Nat.le_of_not_lt hin), Nat.sub_self, window_zero,
      List.append_nil]
    by_cases hk0 : k = 0
    · rw [if_neg (not_not.mpr hk0), hk0]
      rfl
    · rw [if_pos hk0]

theorem Valid.add (h : rb.Valid) (data : Bytes) : (rb.add data).1.Valid := by
  have hle : min data.length rb.space ≤ rb.size := by
    unfold space
    omega
  have hcount := h.count_le
  rw [add_eq h]
  refine ⟨h.head_lt, ?_, ?_⟩
  · show rb.count + min data.length rb.space ≤ rb.size
    unfold space
    omega
  · show advance rb.size rb.tail (min data.length rb.space) = (rb.head + (rb.count + min data.length rb.space)) % rb.size
    rw [advance_eq h.tail_lt hle, h.tail_eq, Nat.mod_add_mod, Nat.add_assoc]

/-- What fits is put behind the others. -/
theorem contents_add (h : rb.Valid) (data : Bytes) :
    (rb.add data).1.contents = rb.contents ++ data.take rb.space := by
  have hlen : (data.take (min data.length rb.space)).length = min data.length rb.space := by
    rw [List.length_take]
    omega
  have hcount := h.count_le
  have hroom : rb.count + (data.take (min data.length rb.space)).length ≤ rb.size := by
    rw [hlen]
    unfold space
    omega
  have hcells := cells_store (m := rb.buf) h.head_lt hroom
  rw [← h.tail_eq, hlen] at hcells
  have htake : data.take (min data.length rb.space) = data.take rb.space := by
    rw [Nat.min_comm]
    exact List.take_eq_take_min.symm
  rw [add_eq h]
  unfold contents
  dsimp only
  rw [hcells, htake]

theorem Valid.del (h : rb.Valid) (len : Nat) : (rb.del len).1.Valid := by
  have hcount := h.count_le
  have hle : min len rb.count ≤ rb.size := by omega
  rw [del_eq h]
  refine ⟨advance_lt h.head_lt hle, Nat.le_trans (Nat.sub_le _ _) hcount, ?_⟩
  show rb.tail = (advance rb.size rb.head (min len rb.count) + (rb.count - min len rb.count)) % rb.size
  have hsum : rb.head + min len rb.count + (rb.count - min len rb.count) = rb.head + rb.count := by omega
  rw [advance_eq h.head_lt hle, Nat.mod_add_mod, hsum, h.tail_eq]

/-- The oldest bytes are handed out and the others stay. -/
theorem contents_del (h : rb.Valid) (len : Nat) :
    (rb.del len).2 = rb.contents.take len ∧ (rb.del len).1.contents = rb.contents.drop len := by
  have hcount := h.count_le
  have hle : min len rb.count ≤ rb.size := by omega
  have hall : rb.contents.take len = rb.contents.take (min len rb.count) := by
    rw [← @contents_length rb]
    exact List.take_eq_take_min
  have hrest : rb.contents.drop len = rb.contents.drop (min len rb.count) := by
    rw [← @contents_length rb]
    exact List.drop_eq_drop_min
  rw [del_eq h, hall, hrest]
  unfold contents
  dsimp only
  constructor
  · rw [load_eq h.head_lt hle, cells_take _ _ _ (Nat.min_le_right _ _)]
  · rw [advance_eq h.head_lt hle, cells_drop _ _ _ (Nat.min_le_right _ _)]

end Buf

end KeyWallet.Hwrng
