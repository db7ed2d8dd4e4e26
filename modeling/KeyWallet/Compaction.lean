import Mathlib.Data.List.Nodup
import Mathlib.Data.List.ReduceOption

/-! An array that is filtered in place: an entry that is not kept is emptied, one that is kept is copied down to the
next free position, and its old position is left as it is. -/
namespace Compaction

variable {α : Type*} (keep : α → Bool)

/-- The array, how many entries were kept so far, and those that were emptied. -/
structure State (α : Type*) where
  cells : List (Option α)
  count : Nat
  dropped : List α

/-- The loop body at position `i`. -/
def step (s : State α) (i : Nat) : State α :=
  match s.cells[i]? with
  | some (some x) =>
    if keep x then { s with cells := s.cells.set s.count (some x), count := s.count + 1 }
    else { s with cells := s.cells.set i none, dropped := s.dropped ++ [x] }
  | _ => s

/-- The loop over an array that is full. -/
def compact (l : List α) : State α := (List.range l.length).foldl (step keep) ⟨l.map some, 0, []⟩

/-- What the loop leaves at the old position. -/
def leftover (x : α) : Option α := if keep x then some x else none

theorem step_kept (kept : List α) (between : List (Option α)) (x : α) (rest : List (Option α)) (dropped : List α)
    (hx : keep x = true) :
    step keep ⟨kept.map some ++ between ++ some x :: rest, kept.length, dropped⟩ (kept.length + between.length) =
      ⟨(kept ++ [x]).map some ++ (between ++ [some x]).tail ++ rest, kept.length + 1, dropped⟩ := by
  have hat : (kept.map some ++ between ++ some x :: rest)[kept.length + between.length]? = some (some x) := by
    rw [List.getElem?_append_right (by simp)]
    simp
  unfold step
  dsimp only
  rw [hat]
  dsimp only
  rw [if_pos hx]
  congr 1
  cases between with
  | nil => simp
  | cons m ms => simp

theorem step_dropped (kept : List α) (between : List (Option α)) (x : α) (rest : List (Option α)) (dropped : List α)
    (hx : keep x = false) :
    step keep ⟨kept.map some ++ between ++ some x :: rest, kept.length, dropped⟩ (kept.length + between.length) =
      ⟨kept.map some ++ (between ++ [none]) ++ rest, kept.length, dropped ++ [x]⟩ := by
  have hat : (kept.map some ++ between ++ some x :: rest)[kept.length + between.length]? = some (some x) := by
    rw [List.getElem?_append_right (by simp)]
    simp
  unfold step
  dsimp only
  rw [hat]
  dsimp only
  rw [hx, if_neg Bool.false_ne_true]
  congr 1
  simp

theorem compact_upto (l : List α) (k : Nat) (hk : k ≤ l.length) :
    (List.range k).foldl (step keep) ⟨l.map some, 0, []⟩ =
      ⟨((l.take k).filter keep).map some ++ ((l.take k).map (leftover keep)).drop ((l.take k).filter keep).length ++
          (l.drop k).map some,
        ((l.take k).filter keep).length, (l.take k).filter fun x => !keep x⟩ := by
  induction k with
  | zero => simp
  | succ k ih =>
    have hlt : k < l.length := hk
    rw [List.range_succ, List.foldl_append, ih (Nat.le_of_lt hlt), List.foldl_cons, List.foldl_nil]
    have htake : l.take (k + 1) = l.take k ++ [l[k]] := List.take_succ_eq_append_getElem hlt
    have hdrop : (l.drop k).map some = some l[k] :: (l.drop (k + 1)).map some := by
      rw [List.drop_eq_getElem_cons hlt, List.map_cons]
    have hcount : ((l.take k).filter keep).length ≤ k := by
      have hle := List.length_filter_le keep (l.take k)
      rw [List.length_take] at hle
      omega
    have hposition : k = ((l.take k).filter keep).length +
        (((l.take k).map (leftover keep)).drop ((l.take k).filter keep).length).length := by
      rw [List.length_drop, List.length_map, List.length_take]
      omega
    rw [hdrop, htake]
    cases hx : keep l[k] with
    | true =>
      have hstep := step_kept keep ((l.take k).filter keep)
        (((l.take k).map (leftover keep)).drop ((l.take k).filter keep).length) l[k] ((l.drop (k + 1)).map some)
        ((l.take k).filter fun x => !keep x) hx
      rw [← hposition] at hstep
      rw [hstep]
      have hleft : leftover keep l[k] = some l[k] := if_pos hx
      simp only [List.filter_append, List.filter_cons, hx, List.filter_nil, if_true, List.map_append, List.map_cons,
        List.map_nil, List.length_append, List.length_singleton, hleft, Bool.not_true, Bool.false_eq_true, if_false,
        List.append_nil]
      have htail : ((((l.take k).map (leftover keep)).drop ((l.take k).filter keep).length) ++ [some l[k]]).tail =
          ((l.take k).map (leftover keep) ++ [some l[k]]).drop (((l.take k).filter keep).length + 1) := by
        rw [← List.drop_append_of_le_length (by rw [List.length_map, List.length_take]; omega), List.tail_drop]
      rw [htail]
    | false =>
      have hstep := step_dropped keep ((l.take k).filter keep)
        (((l.take k).map (leftover keep)).drop ((l.take k).filter keep).length) l[k] ((l.drop (k + 1)).map some)
        ((l.take k).filter fun x => !keep x) hx
      rw [← hposition] at hstep
      rw [hstep]
      have hleft : leftover keep l[k] = none := if_neg (by rw [hx]; exact Bool.false_ne_true)
      simp only [List.filter_append, List.filter_cons, hx, List.filter_nil, if_true, List.map_append, List.map_cons,
        List.map_nil, hleft, Bool.not_false, Bool.false_eq_true, if_false, List.append_nil]
      rw [List.drop_append_of_le_length (by rw [List.length_map, List.length_take]; omega)]

theorem compact_eq (l : List α) : compact keep l =
    ⟨(l.filter keep).map some ++ (l.map (leftover keep)).drop (l.filter keep).length, (l.filter keep).length,
      l.filter fun x => !keep x⟩ := by
  have h := compact_upto keep l l.length (Nat.le_refl _)
  rw [List.take_length, List.drop_length, List.map_nil, List.append_nil] at h
  exact h

theorem reduceOption_map_some (l : List α) : (l.map some).reduceOption = l := by
  unfold List.reduceOption
  rw [List.filterMap_map]
  exact List.filterMap_some

theorem reduceOption_leftover (l : List α) : (l.map (leftover keep)).reduceOption = l.filter keep := by
  induction l with
  | nil => rfl
  | cons x xs ih =>
    rw [List.map_cons, List.filter_cons]
    unfold leftover
    split_ifs with hx
    · rw [List.reduceOption_cons_of_some]
      exact congrArg _ ih
    · rw [List.reduceOption_cons_of_none]
      exact ih

theorem compact_live (l : List α) : (compact keep l).cells.reduceOption =
    l.filter keep ++ (l.drop (l.filter keep).length).filter keep := by
  rw [compact_eq]
  dsimp only
  rw [List.reduceOption_append, ← List.map_drop, reduceOption_leftover]
  congr 1
  exact reduceOption_map_some _

/-! When no entry stands in the array twice. -/

/-- No entry that is not kept comes before one that is. -/
def KeptFirst (l : List α) : Prop := l.Pairwise fun x y => keep y = true → keep x = true

theorem drop_filter_nil_iff (l : List α) : (l.drop (l.filter keep).length).filter keep = [] ↔ KeptFirst keep l := by
  unfold KeptFirst
  induction l with
  | nil => simp
  | cons x xs ih =>
    rw [List.pairwise_cons]
    cases hx : keep x with
    | true =>
      rw [List.filter_cons, if_pos hx, List.length_cons, List.drop_succ_cons, ih]
      exact ⟨fun h => ⟨fun _ _ _ => rfl, h⟩, fun h => h.2⟩
    | false =>
      have hnot : ¬ keep x = true := by
        rw [hx]
        exact Bool.false_ne_true
      rw [List.filter_cons, if_neg hnot]
      constructor
      · intro h
        -- fewer entries were skipped than are kept, unless none is
        have hnone : (xs.filter keep).length = 0 := by
          by_contra hpos
          obtain ⟨n, hn⟩ := Nat.exists_eq_succ_of_ne_zero hpos
          rw [hn, Nat.succ_eq_add_one, List.drop_succ_cons] at h
          have hsplit : (xs.take n ++ xs.drop n).filter keep = (xs.take n).filter keep ++ (xs.drop n).filter keep :=
            List.filter_append _ _
          rw [List.take_append_drop, h, List.append_nil] at hsplit
          have hlength := congrArg List.length hsplit
          have hle := List.length_filter_le keep (xs.take n)
          rw [List.length_take] at hle
          omega
        have hkept (y : α) (hy : y ∈ xs) : ¬ keep y = true :=
          List.filter_eq_nil_iff.mp (List.length_eq_zero_iff.mp hnone) y hy
        refine ⟨fun y hy hyes => (hkept y hy hyes).elim, ?_⟩
        exact List.pairwise_of_forall_mem_list fun y hy z hz hyes => (hkept z hz hyes).elim
      · intro h
        have hnone : xs.filter keep = [] := by
          rw [List.filter_eq_nil_iff]
          intro y hy hyes
          exact Bool.false_ne_true (h.1 y hy hyes)
        rw [hnone, List.length_nil, List.drop_zero, List.filter_cons, if_neg hnot]
        exact hnone

theorem compact_nodup_iff {β : Type*} (f : α → β) (l : List α) (h : (l.map f).Nodup) :
    ((compact keep l).cells.reduceOption.map f).Nodup ↔ KeptFirst keep l := by
  rw [compact_live, ← drop_filter_nil_iff]
  constructor
  · intro hnodup
    rw [List.map_append] at hnodup
    by_contra hne
    obtain ⟨x, hx⟩ := List.exists_mem_of_ne_nil _ hne
    obtain ⟨hmem, hkeep⟩ := List.mem_filter.mp hx
    have hfirst : x ∈ l.filter keep := List.mem_filter.mpr ⟨List.mem_of_mem_drop hmem, hkeep⟩
    exact (List.nodup_append.mp hnodup).2.2 _ (List.mem_map_of_mem hfirst) _ (List.mem_map_of_mem hx) rfl
  · intro hnil
    rw [hnil, List.append_nil]
    exact h.sublist (List.filter_sublist.map f)

end Compaction
