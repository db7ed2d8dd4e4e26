import Mathlib.Data.List.Basic

/-! HKDF over any keyed hash, as RFC 5869 has it. The hash may fail, and then so does what is built on it.
Nothing here names a particular hash or program. -/
namespace Hkdf

abbrev Bytes := List (BitVec 8)

/-- A keyed hash with results of `size` bytes. -/
structure Mac (size : Nat) where
  run : (key message : Bytes) → Option Bytes
  length : ∀ key message t, run key message = some t → t.length = size

section Functions

variable {size : Nat} (h : Mac size)

/-- HKDF-Extract. Without a salt there are `size` zeros. -/
def extract (salt ikm : Bytes) : Option Bytes :=
  h.run (if salt = [] then List.replicate size 0 else salt) ikm

/-- T(i). -/
def block (prk info : Bytes) : Nat → Option Bytes
  | 0 => some []
  | i + 1 => (block prk info i).bind fun t => h.run prk (t ++ info ++ [BitVec.ofNat 8 (i + 1)])

/-- T(1), T(2), .., T(n), one behind the other. -/
def blocks (prk info : Bytes) : Nat → Option Bytes
  | 0 => some []
  | n + 1 => (blocks prk info n).bind fun ts => (block h prk info (n + 1)).map (ts ++ ·)

/-- How many blocks `len` bytes take. -/
def count (size len : Nat) : Nat := (len + size - 1) / size

/-- HKDF-Expand. -/
def expand (prk info : Bytes) (len : Nat) : Option Bytes :=
  (blocks h prk info (count size len)).map (·.take len)

end Functions

section Blocks

variable {size : Nat} {h : Mac size} {prk info : Bytes}

theorem block_length {i : Nat} {t : Bytes} (hb : block h prk info (i + 1) = some t) : t.length = size := by
  obtain ⟨u, -, hrun⟩ := Option.bind_eq_some_iff.mp hb
  exact h.length _ _ _ hrun

theorem blocks_succ {n : Nat} {ts : Bytes} (hts : blocks h prk info n = some ts) :
    blocks h prk info (n + 1) = (block h prk info (n + 1)).map (ts ++ ·) := by
  have hdef : blocks h prk info (n + 1) =
      (blocks h prk info n).bind fun ts => (block h prk info (n + 1)).map (ts ++ ·) := rfl
  rw [hdef, hts]
  rfl

theorem blocks_length {n : Nat} {ts : Bytes} (hts : blocks h prk info n = some ts) : ts.length = n * size := by
  induction n generalizing ts with
  | zero =>
    obtain rfl := Option.some.inj hts
    rw [Nat.zero_mul]
    rfl
  | succ n ih =>
    obtain ⟨us, hus, hmap⟩ := Option.bind_eq_some_iff.mp hts
    obtain ⟨t, ht, rfl⟩ := Option.map_eq_some_iff.mp hmap
    rw [List.length_append, ih hus, block_length ht, Nat.add_mul, Nat.one_mul]

theorem blocks_none {n m : Nat} (hnone : blocks h prk info n = none) (hle : n ≤ m) : blocks h prk info m = none := by
  induction m with
  | zero =>
    obtain rfl : n = 0 := Nat.le_zero.mp hle
    exact hnone
  | succ m ih =>
    rcases Nat.lt_or_ge m n with hlt | hge
    · obtain rfl : n = m + 1 := by omega
      exact hnone
    · have hm := ih hge
      have hdef : blocks h prk info (m + 1) =
          (blocks h prk info m).bind fun ts => (block h prk info (m + 1)).map (ts ++ ·) := rfl
      rw [hdef, hm]
      rfl

theorem lt_count_iff (hsize : 0 < size) {n len : Nat} : n < count size len ↔ n * size < len := by
  have hle : n + 1 ≤ count size len ↔ (n + 1) * size ≤ len + size - 1 := Nat.le_div_iff_mul_le hsize
  have hsucc : (n + 1) * size = n * size + size := Nat.succ_mul n size
  constructor
  · intro hlt
    have hmul := hle.mp hlt
    omega
  · intro hlt
    apply hle.mpr
    omega

theorem count_mul (hsize : 0 < size) (len : Nat) : len ≤ count size len * size := by
  apply Nat.not_lt.mp
  intro hlt
  exact Nat.lt_irrefl _ ((lt_count_iff hsize).mpr hlt)

theorem count_le (hsize : 0 < size) {n len : Nat} (hle : len ≤ n * size) : count size len ≤ n := by
  apply Nat.not_lt.mp
  intro hmore
  have hbeyond := (lt_count_iff hsize).mp hmore
  omega

theorem expand_length (hsize : 0 < size) {len : Nat} {okm : Bytes} (hokm : expand h prk info len = some okm) :
    okm.length = len := by
  obtain ⟨ts, hts, rfl⟩ := Option.map_eq_some_iff.mp hokm
  rw [List.length_take, blocks_length hts]
  exact Nat.min_eq_left (count_mul hsize len)

end Blocks

end Hkdf
