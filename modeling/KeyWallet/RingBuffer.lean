import Mathlib.Data.Nat.ModEq
import KeyWallet.ByteBuffer

/-! A queue in a buffer whose end is joined to its beginning. Stretches that go over the end are copied in two
pieces. Nothing here names a particular buffer. -/
namespace RingBuffer

open ByteBuffer

variable {α : Type*} {m : Nat → α} {size head at' n : Nat} {xs : List α}

/-- The `n` entries from `head` on. -/
def cells (size : Nat) (m : Nat → α) (head n : Nat) : List α := (List.range n).map fun i => m ((head + i) % size)

/-- The address `n` entries behind `at'`. -/
def advance (size at' n : Nat) : Nat := if at' + n < size then at' + n else at' + n - size

/-- The buffer after `xs` was copied to `at'`, first up to the end and then from the beginning on. -/
def store (size : Nat) (m : Nat → α) (at' : Nat) (xs : List α) : Nat → α :=
  blit (blit m at' (xs.take (size - at'))) 0 (xs.drop (size - at'))

/-- The `n` entries from `at'` on, first up to the end and then from the beginning on. -/
def load (size : Nat) (m : Nat → α) (at' n : Nat) : List α :=
  window m at' (min n (size - at')) ++ window m 0 (n - min n (size - at'))

@[simp] theorem cells_length : (cells size m head n).length = n := by
  unfold cells
  rw [List.length_map, List.length_range]

@[simp] theorem cells_zero : cells size m head 0 = [] := rfl

theorem cells_getElem {i : Nat} (h : i < (cells size m head n).length) :
    (cells size m head n)[i] = m ((head + i) % size) := by
  simp [cells]

theorem cells_congr {m' : Nat → α} (h : ∀ i < n, m ((head + i) % size) = m' ((head + i) % size)) :
    cells size m head n = cells size m' head n := by
  apply List.map_congr_left
  intro i hi
  exact h i (List.mem_range.mp hi)

theorem cells_add (size : Nat) (m : Nat → α) (head a b : Nat) :
    cells size m head (a + b) = cells size m head a ++ cells size m ((head + a) % size) b := by
  unfold cells
  rw [List.range_add, List.map_append, List.map_map]
  congr 1
  apply List.map_congr_left
  intro i _
  show m ((head + (a + i)) % size) = m (((head + a) % size + i) % size)
  rw [Nat.mod_add_mod, Nat.add_assoc]

theorem cells_take (size : Nat) (m : Nat → α) (head : Nat) {k n : Nat} (h : k ≤ n) :
    (cells size m head n).take k = cells size m head k := by
  obtain ⟨rest, rfl⟩ := Nat.le.dest h
  rw [cells_add]
  exact List.take_left' cells_length

theorem cells_drop (size : Nat) (m : Nat → α) (head : Nat) {k n : Nat} (h : k ≤ n) :
    (cells size m head n).drop k = cells size m ((head + k) % size) (n - k) := by
  obtain ⟨rest, rfl⟩ := Nat.le.dest h
  rw [cells_add, Nat.add_sub_cancel_left]
  exact List.drop_left' cells_length

theorem advance_eq (hat : at' < size) (hn : n ≤ size) : advance size at' n = (at' + n) % size := by
  unfold advance
  by_cases hin : at' + n < size
  · rw [if_pos hin, Nat.mod_eq_of_lt hin]
  · rw [if_neg hin, Nat.mod_eq_sub_mod (Nat.le_of_not_lt hin), Nat.mod_eq_of_lt (by omega)]

theorem advance_lt (hat : at' < size) (hn : n ≤ size) : advance size at' n < size := by
  rw [advance_eq hat hn]
  exact Nat.mod_lt _ (Nat.zero_lt_of_lt hat)

/-- Entries that do not go over the end. -/
theorem cells_window (h : at' + n ≤ size) : cells size m at' n = window m at' n := by
  apply List.map_congr_left
  intro i hi
  rw [Nat.mod_eq_of_lt (by have := List.mem_range.mp hi; omega)]

/-- The two pieces are the entries. -/
theorem load_eq (hat : at' < size) (hn : n ≤ size) : load size m at' n = cells size m at' n := by
  unfold load
  by_cases hin : n ≤ size - at'
  · rw [Nat.min_eq_left hin, Nat.sub_self, window_zero, List.append_nil, cells_window (by omega)]
  · have hsplit : n = size - at' + (n - (size - at')) := by omega
    have hfirst : cells size m at' (size - at') = window m at' (size - at') := cells_window (by omega)
    have hrest : cells size m 0 (n - (size - at')) = window m 0 (n - (size - at')) := cells_window (by omega)
    have hend : at' + (size - at') = size := by omega
    rw [Nat.min_eq_right (by omega), ← hfirst, ← hrest]
    conv_rhs => rw [hsplit, cells_add, hend, Nat.mod_self]

/-- What was copied lies at the addresses that follow each other round the end. -/
theorem store_at (hat : at' < size) (hn : xs.length ≤ size) {i : Nat} (hi : i < xs.length) :
    store size m at' xs ((at' + i) % size) = xs[i] := by
  unfold store
  by_cases hin : i < size - at'
  · have hlow : (at' + i) % size = at' + i := Nat.mod_eq_of_lt (by omega)
    have htake : i < (xs.take (size - at')).length := by
      rw [List.length_take]
      omega
    have hdrop : 0 + (xs.drop (size - at')).length ≤ at' + i := by
      rw [List.length_drop]
      omega
    rw [hlow, blit_behind hdrop, blit_inside htake, List.getElem_take]
  · obtain ⟨j, rfl⟩ := Nat.le.dest (Nat.le_of_not_lt hin)
    have hwrap : (at' + (size - at' + j)) % size = 0 + j := by
      have hsum : at' + (size - at' + j) = size + j := by omega
      rw [hsum, Nat.add_mod_left, Nat.mod_eq_of_lt (by omega), Nat.zero_add]
    have hdrop : j < (xs.drop (size - at')).length := by
      rw [List.length_drop]
      omega
    rw [hwrap, blit_inside hdrop, List.getElem_drop]

/-- Nothing else is changed, and nothing outside the buffer. -/
theorem store_apart (hat : at' < size) (hn : xs.length ≤ size) {a : Nat}
    (h : ∀ i, i < xs.length → (at' + i) % size ≠ a) : store size m at' xs a = m a := by
  have hrest : 0 + (xs.drop (size - at')).length ≤ a := by
    by_contra hin
    have hlen := List.length_drop (i := size - at') (l := xs)
    apply h (size - at' + a) (by omega)
    have hsum : at' + (size - at' + a) = size + a := by omega
    rw [hsum, Nat.add_mod_left, Nat.mod_eq_of_lt (by omega)]
  unfold store
  rw [blit_behind hrest]
  by_cases hbefore : a < at'
  · exact blit_before hbefore
  · obtain ⟨i, rfl⟩ := Nat.le.dest (Nat.le_of_not_lt hbefore)
    apply blit_behind
    by_contra hin
    have hlen := List.length_take (i := size - at') (l := xs)
    exact h i (by omega) (Nat.mod_eq_of_lt (by omega))

/-- Entries that are copied behind the others make the queue longer. -/
theorem cells_store (hhead : head < size) (hroom : n + xs.length ≤ size) :
    cells size (store size m ((head + n) % size) xs) head (n + xs.length) = cells size m head n ++ xs := by
  have hat : (head + n) % size < size := Nat.mod_lt _ (Nat.zero_lt_of_lt hhead)
  rw [cells_add]
  congr 1
  · apply cells_congr
    intro i hi
    apply store_apart hat (by omega)
    intro j hj hsame
    rw [Nat.mod_add_mod, Nat.add_assoc] at hsame
    have heq : n + j = i := Nat.ModEq.eq_of_lt_of_lt (Nat.ModEq.add_left_cancel' head hsame) (by omega) (by omega)
    omega
  · apply List.ext_getElem cells_length
    intro _ hi hi'
    rw [cells_getElem hi, store_at hat (by omega) hi']

end RingBuffer
