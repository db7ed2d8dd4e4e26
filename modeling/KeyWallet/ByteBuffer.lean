import Mathlib.Data.List.Basic

/-! A buffer as a function from addresses: copying a list into it and reading a stretch of it
back. Nothing here names a particular buffer. -/
namespace ByteBuffer

variable {α : Type*} {m m' : Nat → α} {addr n : Nat} {xs : List α}

/-- The buffer after `xs` was copied to `addr`. -/
def blit (m : Nat → α) (addr : Nat) (xs : List α) : Nat → α := fun a =>
  if a < addr then m a else (xs[a - addr]?).getD (m a)

/-- The `n` entries from `addr` on. -/
def window (m : Nat → α) (addr n : Nat) : List α := (List.range n).map fun i => m (addr + i)

@[simp] theorem window_length : (window m addr n).length = n := by
  simp [window]

@[simp] theorem window_zero : window m addr 0 = [] := rfl

@[simp] theorem window_getElem {i : Nat} (h : i < (window m addr n).length) :
    (window m addr n)[i] = m (addr + i) := by
  simp [window]

theorem window_congr (h : ∀ i < n, m (addr + i) = m' (addr + i)) :
    window m addr n = window m' addr n := by
  apply List.map_congr_left
  intro i hi
  exact h i (List.mem_range.mp hi)

theorem window_add (m : Nat → α) (addr a b : Nat) :
    window m addr (a + b) = window m addr a ++ window m (addr + a) b := by
  simp [window, List.range_add, Nat.add_assoc]

theorem window_take (m : Nat → α) (addr : Nat) {k n : Nat} (h : k ≤ n) :
    (window m addr n).take k = window m addr k := by
  obtain ⟨rest, rfl⟩ := Nat.le.dest h
  rw [window_add]
  exact List.take_left' window_length

theorem window_take_comm (m : Nat → α) (addr a b : Nat) :
    (window m addr a).take b = (window m addr b).take a := by
  rcases Nat.le_total a b with h | h
  · rw [window_take m addr h, List.take_of_length_le (by rwa [window_length])]
  · rw [window_take m addr h, List.take_of_length_le (by rwa [window_length])]

theorem window_drop (m : Nat → α) (addr : Nat) {k n : Nat} (h : k ≤ n) :
    (window m addr n).drop k = window m (addr + k) (n - k) := by
  obtain ⟨rest, rfl⟩ := Nat.le.dest h
  rw [window_add, Nat.add_sub_cancel_left]
  exact List.drop_left' window_length

theorem window_succ (m : Nat → α) (addr n : Nat) :
    window m addr (n + 1) = m addr :: window m (addr + 1) n := by
  rw [Nat.add_comm n 1, window_add]
  rfl

theorem blit_before {a : Nat} (h : a < addr) : blit m addr xs a = m a := by
  simp [blit, h]

theorem blit_behind {a : Nat} (h : addr + xs.length ≤ a) : blit m addr xs a = m a := by
  have hout : xs[a - addr]? = none := List.getElem?_eq_none (by omega)
  simp [blit, hout]

theorem blit_inside {i : Nat} (h : i < xs.length) : blit m addr xs (addr + i) = xs[i] := by
  have hge : ¬ addr + i < addr := by omega
  simp [blit, h, hge]

/-- What was copied is read back. -/
theorem window_blit (m : Nat → α) (addr : Nat) (xs : List α) :
    window (blit m addr xs) addr xs.length = xs := by
  apply List.ext_getElem window_length
  intro i _ hi
  rw [window_getElem, blit_inside hi]

/-- A copy leaves the stretches beside it as they are. -/
theorem window_blit_apart (xs : List α) {at' : Nat} (h : at' + n ≤ addr ∨ addr + xs.length ≤ at') :
    window (blit m addr xs) at' n = window m at' n := by
  apply window_congr
  intro i hi
  rcases h with h | h
  · exact blit_before (by omega)
  · exact blit_behind (by omega)

/-- Copying behind a stretch makes it longer. -/
theorem window_blit_append (m : Nat → α) (addr n : Nat) (xs : List α) :
    window (blit m (addr + n) xs) addr (n + xs.length) = window m addr n ++ xs := by
  rw [window_add, window_blit, window_blit_apart xs (.inl (Nat.le_refl _))]

end ByteBuffer
