import Mathlib.Data.List.Pairwise
import Mathlib.Data.List.Perm.Basic
import Mathlib.Order.Lattice

/-! Sorting in place by exchanges: for each position, every later entry is compared with the one that
stands there, and the two change places when the later one belongs first. -/
namespace ExchangeSort

variable {α β : Type*} [LinearOrder β] (key : α → β)

/-- The inner loop: what stands at the position in the end, and the entries behind it. -/
def pass (x : α) : List α → α × List α
  | [] => (x, [])
  | y :: ys =>
    if key x < key y then ((pass y ys).1, x :: (pass y ys).2) else ((pass x ys).1, y :: (pass x ys).2)

/-- The outer loop over the first `n` positions. -/
def positions : Nat → List α → List α
  | 0, l => l
  | _ + 1, [] => []
  | n + 1, x :: xs => (pass key x xs).1 :: positions n (pass key x xs).2

/-- The largest keys come first. -/
def sort (l : List α) : List α := positions key l.length l

theorem pass_perm (x : α) (l : List α) :
    ((pass key x l).1 :: (pass key x l).2).Perm (x :: l) := by
  induction l generalizing x with
  | nil => exact .refl _
  | cons y ys ih =>
    rw [pass]
    split_ifs
    · calc
        ((pass key y ys).1 :: x :: (pass key y ys).2).Perm
            (x :: (pass key y ys).1 :: (pass key y ys).2) := .swap _ _ _
        (x :: (pass key y ys).1 :: (pass key y ys).2).Perm (x :: y :: ys) := (ih y).cons x
    · calc
        ((pass key x ys).1 :: y :: (pass key x ys).2).Perm
            (y :: (pass key x ys).1 :: (pass key x ys).2) := .swap _ _ _
        (y :: (pass key x ys).1 :: (pass key x ys).2).Perm (y :: x :: ys) := (ih x).cons y
        (y :: x :: ys).Perm (x :: y :: ys) := .swap _ _ _

theorem pass_length (x : α) (l : List α) : (pass key x l).2.length = l.length := by
  have h := (pass_perm key x l).length_eq
  rw [List.length_cons, List.length_cons] at h
  exact Nat.succ.inj h

theorem le_pass (x : α) (l : List α) :
    key x ≤ key (pass key x l).1 ∧ ∀ y ∈ l, key y ≤ key (pass key x l).1 := by
  induction l generalizing x with
  | nil => exact ⟨le_refl _, fun y hy => by cases hy⟩
  | cons y ys ih =>
    rw [pass]
    split_ifs with hlt
    · obtain ⟨hy, hys⟩ := ih y
      refine ⟨hlt.le.trans hy, fun z hz => ?_⟩
      rcases List.mem_cons.mp hz with rfl | hz
      · exact hy
      · exact hys z hz
    · obtain ⟨hx, hys⟩ := ih x
      refine ⟨hx, fun z hz => ?_⟩
      rcases List.mem_cons.mp hz with rfl | hz
      · exact (not_lt.mp hlt).trans hx
      · exact hys z hz

theorem positions_perm (n : Nat) (l : List α) : (positions key n l).Perm l := by
  induction n generalizing l with
  | zero => exact .refl _
  | succ n ih =>
    cases l with
    | nil => exact .refl _
    | cons x xs =>
      calc
        (positions key (n + 1) (x :: xs)).Perm ((pass key x xs).1 :: (pass key x xs).2) :=
          (ih _).cons _
        ((pass key x xs).1 :: (pass key x xs).2).Perm (x :: xs) := pass_perm key x xs

theorem sort_perm (l : List α) : (sort key l).Perm l := positions_perm key l.length l

theorem positions_sorted (n : Nat) (l : List α) (h : l.length ≤ n) :
    (positions key n l).Pairwise fun a b => key b ≤ key a := by
  induction n generalizing l with
  | zero =>
    rw [List.length_eq_zero_iff.mp (Nat.le_zero.mp h)]
    exact .nil
  | succ n ih =>
    cases l with
    | nil => exact .nil
    | cons x xs =>
      refine List.pairwise_cons.mpr ⟨?_, ih _ ?_⟩
      · intro y hy
        -- whatever comes later was there before the pass
        have hmem : y ∈ x :: xs := (pass_perm key x xs).subset
          (List.mem_cons_of_mem _ ((positions_perm key n _).subset hy))
        rcases List.mem_cons.mp hmem with rfl | hmem
        · exact (le_pass key y xs).1
        · exact (le_pass key x xs).2 y hmem
      · rw [pass_length]
        exact Nat.le_of_succ_le_succ h

theorem sort_sorted (l : List α) : (sort key l).Pairwise fun a b => key b ≤ key a :=
  positions_sorted key l.length l (Nat.le_refl _)

/-- The sort by the key is one by the age too, the largest first, exactly when no entry of smaller age has a larger key
and those with one key come out by their age. -/
theorem sort_pairwise_iff {γ : Type*} [LinearOrder γ] (age : α → γ) (l : List α) :
    (sort key l).Pairwise (fun a b => age b ≤ age a) ↔
      (∀ a ∈ l, ∀ b ∈ l, age b < age a → key b ≤ key a) ∧
        (sort key l).Pairwise fun a b => key a = key b → age b ≤ age a := by
  have hsorted := sort_sorted key l
  have hmem : ∀ a, a ∈ sort key l ↔ a ∈ l := fun a => (sort_perm key l).mem_iff
  constructor
  · intro h
    have hkeys : (sort key l).Pairwise fun a b => age b < age a → key b ≤ key a := by
      refine hsorted.imp ?_
      intro a b hkey _
      exact hkey
    have hback : (sort key l).Pairwise (flip fun a b => age b < age a → key b ≤ key a) := by
      refine h.imp ?_
      intro a b hage hlt
      exact absurd hage (not_le.mpr hlt)
    have hties : (sort key l).Pairwise fun a b => key a = key b → age b ≤ age a := by
      refine h.imp ?_
      intro a b hage _
      exact hage
    have hself : ∀ a ∈ sort key l, age a < age a → key a ≤ key a := fun a _ _ => le_refl _
    have hall := hkeys.forall_of_forall_of_flip hself hback
    exact ⟨fun a ha b hb => hall ((hmem a).mpr ha) ((hmem b).mpr hb), hties⟩
  · rintro ⟨hkeys, hties⟩
    refine (hsorted.and hties).imp_of_mem ?_
    intro a b ha hb h
    obtain ⟨hkey, htie⟩ := h
    by_contra hage
    have hback : key a ≤ key b := hkeys b ((hmem b).mp hb) a ((hmem a).mp ha) (not_le.mp hage)
    exact hage (htie (le_antisymm hback hkey))

@[simp] theorem sort_length (l : List α) : (sort key l).length = l.length :=
  (sort_perm key l).length_eq

/-! What comes to the front. -/

/-- The first of the entries with the largest key, when `x` comes before `l`. -/
def best (x : α) (l : List α) : α := l.foldl (fun b y => if key b < key y then y else b) x

/-- The same for a list, if it is not empty. -/
def first : List α → Option α
  | [] => none
  | x :: xs => some (best key x xs)

theorem pass_fst (x : α) (l : List α) : (pass key x l).1 = best key x l := by
  induction l generalizing x with
  | nil => rfl
  | cons y ys ih =>
    rw [pass, best, List.foldl_cons]
    split_ifs
    · exact ih y
    · exact ih x

theorem sort_head? (l : List α) : (sort key l).head? = first key l := by
  cases l with
  | nil => rfl
  | cons x xs =>
    have hhead : (sort key (x :: xs)).head? = some (pass key x xs).1 := rfl
    rw [hhead, pass_fst]
    rfl

theorem best_map {γ : Type*} (f : γ → α) (x : γ) (l : List γ) :
    best key (f x) (l.map f) = f (best (fun c => key (f c)) x l) := by
  induction l generalizing x with
  | nil => rfl
  | cons y ys ih =>
    unfold best at ih
    rw [List.map_cons, best, best, List.foldl_cons, List.foldl_cons]
    split_ifs
    · exact ih y
    · exact ih x

theorem first_map {γ : Type*} (f : γ → α) (l : List γ) :
    first key (l.map f) = (first (fun c => key (f c)) l).map f := by
  cases l with
  | nil => rfl
  | cons x xs => exact congrArg some (best_map key f x xs)

theorem pass_map {γ : Type*} (f : γ → α) (x : γ) (l : List γ) :
    pass key (f x) (l.map f) = (f (pass (fun c => key (f c)) x l).1, (pass (fun c => key (f c)) x l).2.map f) := by
  induction l generalizing x with
  | nil => rfl
  | cons y ys ih =>
    rw [List.map_cons, pass, pass]
    split_ifs
    · rw [ih y, List.map_cons]
    · rw [ih x, List.map_cons]

theorem positions_map {γ : Type*} (f : γ → α) (n : Nat) (l : List γ) :
    positions key n (l.map f) = (positions (fun c => key (f c)) n l).map f := by
  induction n generalizing l with
  | zero => rfl
  | succ n ih =>
    cases l with
    | nil => rfl
    | cons x xs => rw [List.map_cons, positions, positions, pass_map, ih, List.map_cons]

theorem sort_map {γ : Type*} (f : γ → α) (l : List γ) :
    sort key (l.map f) = (sort (fun c => key (f c)) l).map f := by
  unfold sort
  rw [List.length_map, positions_map]

theorem first_mem {l : List α} {x : α} (h : first key l = some x) : x ∈ l := by
  rw [← sort_head?] at h
  exact (sort_perm key l).subset (List.mem_of_head? h)

end ExchangeSort
