import Mathlib.Data.List.Basic

/-! Messages in parts. A part carries the key of its message, and the last one asks for the whole. Nothing here
names a particular protocol. -/
namespace Chaining

variable {κ α : Type*} [DecidableEq κ]

/-- What becomes of a part. -/
inductive Verdict (α : Type*)
  | taken
  | mismatch
  | tooLong
  | whole (message : List α)

/-- The message that is open, and what becomes of it with another part. A whole message has less than `limit`
entries, unless it is a single part. -/
def step (limit : Nat) (opened : Option (κ × List α)) (last : Bool) (key : κ) (part : List α) :
    Option (κ × List α) × Verdict α :=
  match opened with
  | none =>
    if last then (none, .whole part)
    else if limit ≤ part.length then (none, .tooLong)
    else (some (key, part), .taken)
  | some (key', parts) =>
    if key ≠ key' then (none, .mismatch)
    else if limit ≤ parts.length + part.length then (none, .tooLong)
    else if last then (none, .whole (parts ++ part))
    else (some (key', parts ++ part), .taken)

variable {limit : Nat} {key : κ}

theorem step_first {part : List α} (h : part.length < limit) :
    step limit none false key part = (some (key, part), .taken) := by
  unfold step
  dsimp only
  rw [if_neg Bool.false_ne_true, if_neg (by omega)]

theorem step_first_long {part : List α} (h : limit ≤ part.length) : step limit none false key part = (none, .tooLong) := by
  unfold step
  dsimp only
  rw [if_neg Bool.false_ne_true, if_pos h]

theorem step_single (part : List α) : step limit none true key part = (none, .whole part) := by
  unfold step
  dsimp only
  rw [if_pos rfl]

/-- A part that fits is put behind the others. -/
theorem step_further {parts part : List α} (h : parts.length + part.length < limit) :
    step limit (some (key, parts)) false key part = (some (key, parts ++ part), .taken) := by
  unfold step
  dsimp only
  rw [if_neg (fun hne => hne rfl), if_neg (by omega), if_neg Bool.false_ne_true]

/-- The last part gives the whole message. -/
theorem step_last {parts part : List α} (h : parts.length + part.length < limit) :
    step limit (some (key, parts)) true key part = (none, .whole (parts ++ part)) := by
  unfold step
  dsimp only
  rw [if_neg (fun hne => hne rfl), if_neg (by omega), if_pos rfl]

theorem step_mismatch {key' : κ} (last : Bool) (parts part : List α) (h : key ≠ key') :
    step limit (some (key', parts)) last key part = (none, .mismatch) := by
  unfold step
  dsimp only
  rw [if_pos h]

theorem step_tooLong (last : Bool) {parts part : List α} (h : limit ≤ parts.length + part.length) :
    step limit (some (key, parts)) last key part = (none, .tooLong) := by
  unfold step
  dsimp only
  rw [if_neg (fun hne => hne rfl), if_pos h]

end Chaining
