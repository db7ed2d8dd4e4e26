import Mathlib.Tactic.Common
import Mathlib.Data.List.Forall2
import Mathlib.Data.List.Induction
import Mathlib.Algebra.Order.Ring.Nat

/-! Numbers as bytes, most significant byte first, and records of such numbers with fixed widths.
Reading and writing are inverse to each other in both directions. -/
namespace ByteCodec

/-- The `n` low bytes of a number, most significant first. -/
def put : (n v : Nat) → List UInt8
  | 0, _ => []
  | n + 1, v => put n (v / 256) ++ [UInt8.ofNat v]

/-- The number that the bytes stand for. -/
def get (bs : List UInt8) : Nat := bs.foldl (fun v b => v * 256 + b.toNat) 0

@[simp] theorem put_length (n v : Nat) : (put n v).length = n := by
  induction n generalizing v with
  | zero => rfl
  | succ n ih => rw [put, List.length_append, ih, List.length_singleton]

theorem get_append (bs : List UInt8) (b : UInt8) : get (bs ++ [b]) = get bs * 256 + b.toNat := by
  rw [get, List.foldl_append]
  rfl

theorem get_put (n v : Nat) : get (put n v) = v % 256 ^ n := by
  induction n generalizing v with
  | zero => rw [pow_zero, Nat.mod_one]; rfl
  | succ n ih =>
    have hbyte : (UInt8.ofNat v).toNat = v % 256 := UInt8.toNat_ofNat'
    rw [put, get_append, ih, hbyte, pow_succ', Nat.mod_mul]
    omega

theorem get_put_of_lt {n v : Nat} (h : v < 256 ^ n) : get (put n v) = v := by
  rw [get_put, Nat.mod_eq_of_lt h]

theorem get_lt (bs : List UInt8) : get bs < 256 ^ bs.length := by
  induction bs using List.reverseRecOn with
  | nil => exact Nat.one_pos
  | append_singleton bs b ih =>
    have hb := b.toNat_lt
    rw [get_append, List.length_append, List.length_singleton, pow_succ]
    omega

theorem put_get (bs : List UInt8) : put bs.length (get bs) = bs := by
  induction bs using List.reverseRecOn with
  | nil => rfl
  | append_singleton bs b ih =>
    have hb := b.toNat_lt
    have hdiv : (get bs * 256 + b.toNat) / 256 = get bs := by omega
    have hbyte : UInt8.ofNat (get bs * 256 + b.toNat) = b := by
      apply UInt8.toNat_inj.mp
      rw [UInt8.toNat_ofNat']
      omega
    rw [List.length_append, List.length_singleton, put, get_append, hdiv, ih, hbyte]

/-! Records. -/

/-- The fields one after the other. -/
def encode : (widths values : List Nat) → List UInt8
  | w :: ws, v :: vs => put w v ++ encode ws vs
  | _, _ => []

/-- The fields of a record at the start of the bytes. -/
def decode : (widths : List Nat) → List UInt8 → List Nat
  | [], _ => []
  | w :: ws, bs => get (bs.take w) :: decode ws (bs.drop w)

/-- Each value fits its field. -/
def Fits (widths values : List Nat) : Prop := List.Forall₂ (fun w v => v < 256 ^ w) widths values

theorem encode_length {ws vs : List Nat} (h : ws.length = vs.length) :
    (encode ws vs).length = ws.sum := by
  induction ws generalizing vs with
  | nil => rfl
  | cons w ws ih =>
    cases vs with
    | nil => exact absurd h (by simp)
    | cons v vs =>
      rw [encode, List.length_append, put_length, ih (by simpa using h), List.sum_cons]

theorem decode_encode {ws vs : List Nat} (h : Fits ws vs) (rest : List UInt8) :
    decode ws (encode ws vs ++ rest) = vs := by
  induction h with
  | nil => rfl
  | @cons w v ws vs hv _ ih =>
    have hlen := put_length w v
    rw [decode, encode, List.append_assoc, List.take_left' hlen, List.drop_left' hlen, ih,
      get_put_of_lt hv]

theorem encode_decode (ws : List Nat) {bs : List UInt8} (h : bs.length = ws.sum) :
    encode ws (decode ws bs) = bs := by
  induction ws generalizing bs with
  | nil =>
    rw [List.length_eq_zero_iff.mp h]
    rfl
  | cons w ws ih =>
    rw [List.sum_cons] at h
    have htake : (bs.take w).length = w := by
      rw [List.length_take]
      omega
    have hdrop : (bs.drop w).length = ws.sum := by
      rw [List.length_drop]
      omega
    have hput := put_get (bs.take w)
    rw [htake] at hput
    rw [decode, encode, hput, ih hdrop, List.take_append_drop]

theorem decode_append (ws : List Nat) {bs : List UInt8} (h : bs.length = ws.sum)
    (rest : List UInt8) : decode ws (bs ++ rest) = decode ws bs := by
  induction ws generalizing bs with
  | nil => rfl
  | cons w ws ih =>
    rw [List.sum_cons] at h
    have hw : w ≤ bs.length := by omega
    have hdrop : (bs.drop w).length = ws.sum := by
      rw [List.length_drop]
      omega
    rw [decode, decode, List.take_append_of_le_length hw, List.drop_append_of_le_length hw, ih hdrop]

theorem decode_fits (ws : List Nat) {bs : List UInt8} (h : ws.sum ≤ bs.length) :
    Fits ws (decode ws bs) := by
  induction ws generalizing bs with
  | nil => exact .nil
  | cons w ws ih =>
    rw [List.sum_cons] at h
    have htake : (bs.take w).length = w := by
      rw [List.length_take]
      omega
    have hlt := get_lt (bs.take w)
    rw [htake] at hlt
    refine .cons hlt (ih ?_)
    rw [List.length_drop]
    omega

end ByteCodec
