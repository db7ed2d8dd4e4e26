import Mathlib.Data.Fintype.EquivFin
import Mathlib.Data.Nat.Prime.Basic
import Mathlib.Data.Int.ModEq

/-! Open addressing with deletion marks: every key has an order in which the slots are tried, a search
ends at the first slot that was never used, and a new key goes to the first slot that is free. -/
namespace OpenAddressing

inductive Cell (K : Type)
  | empty
  | deleted
  | live (k : K)
  deriving DecidableEq, Repr

theorem Cell.live_ne_empty {K : Type} (k : K) : Cell.live k ≠ .empty := by
  intro h
  cases h

theorem Cell.deleted_ne_empty {K : Type} : (Cell.deleted : Cell K) ≠ .empty := by
  intro h
  cases h

theorem Cell.deleted_ne_live {K : Type} (k : K) : Cell.deleted ≠ .live k := by
  intro h
  cases h

variable {I K : Type} [DecidableEq K]

/-- The slot of a key, along the slots that are tried. -/
def search (t : I → Cell K) (k : K) : List I → Option I
  | [] => none
  | i :: is =>
    match t i with
    | .empty => none
    | .deleted => search t k is
    | .live k' => if k' = k then some i else search t k is

/-- The slot for a new key: the first deleted one before the first empty one, or else that one. -/
def place (t : I → Cell K) : Option I → List I → Option I
  | mark, [] => mark
  | mark, i :: is =>
    match t i with
    | .empty => mark.or (some i)
    | .deleted => place t (mark.or (some i)) is
    | .live _ => place t mark is

section Walk

variable {t : I → Cell K} {k : K} {i : I}

theorem search_eq_some_iff (l : List I) :
    search t k l = some i ↔ ∃ l₁ l₂, l = l₁ ++ i :: l₂ ∧ t i = .live k ∧
      ∀ j ∈ l₁, t j ≠ .empty ∧ t j ≠ .live k := by
  induction l with
  | nil =>
    constructor
    · intro h
      cases h
    · rintro ⟨l₁, l₂, hl, -⟩
      exact absurd hl.symm (List.append_ne_nil_of_right_ne_nil _ (List.cons_ne_nil _ _))
  | cons j js ih =>
    -- what stands first decides, unless the search goes on
    have hstep : t j ≠ .empty → t j ≠ .live k → (search t k js = some i ↔
        ∃ l₁ l₂, j :: js = l₁ ++ i :: l₂ ∧ t i = .live k ∧ ∀ j ∈ l₁, t j ≠ .empty ∧ t j ≠ .live k) := by
      intro hempty hlive
      rw [ih]
      constructor
      · rintro ⟨l₁, l₂, rfl, hi, hall⟩
        refine ⟨j :: l₁, l₂, rfl, hi, ?_⟩
        intro x hx
        rcases List.mem_cons.mp hx with rfl | hx
        · exact ⟨hempty, hlive⟩
        · exact hall x hx
      · rintro ⟨l₁, l₂, hl, hi, hall⟩
        cases l₁ with
        | nil =>
          obtain ⟨rfl, -⟩ := List.cons.inj hl
          exact absurd hi hlive
        | cons x l₁ =>
          obtain ⟨rfl, hjs⟩ := List.cons.inj hl
          exact ⟨l₁, l₂, hjs, hi, fun y hy => hall y (List.mem_cons_of_mem _ hy)⟩
    unfold search
    cases hj : t j with
    | empty =>
      constructor
      · intro h
        cases h
      · rintro ⟨l₁, l₂, hl, hi, hall⟩
        cases l₁ with
        | nil =>
          obtain ⟨rfl, -⟩ := List.cons.inj hl
          rw [hj] at hi
          cases hi
        | cons x l₁ =>
          obtain ⟨rfl, -⟩ := List.cons.inj hl
          exact absurd hj (hall j List.mem_cons_self).1
    | deleted =>
      apply hstep
      · rw [hj]
        exact Cell.deleted_ne_empty
      · rw [hj]
        exact Cell.deleted_ne_live k
    | live k' =>
      dsimp only
      by_cases hk : k' = k
      · rw [if_pos hk, Option.some.injEq]
        rw [hk] at hj
        constructor
        · rintro rfl
          refine ⟨[], js, rfl, hj, ?_⟩
          intro x hx
          cases hx
        · rintro ⟨l₁, l₂, hl, -, hall⟩
          cases l₁ with
          | nil => exact (List.cons.inj hl).1
          | cons x l₁ =>
            obtain ⟨rfl, -⟩ := List.cons.inj hl
            exact absurd hj (hall j List.mem_cons_self).2
      · rw [if_neg hk]
        apply hstep
        · rw [hj]
          exact Cell.live_ne_empty k'
        · rw [hj]
          intro h
          exact hk (Cell.live.inj h)

omit [DecidableEq K] in
theorem place_marked (i : I) (l : List I) : place t (some i) l = some i := by
  induction l with
  | nil => rfl
  | cons j js ih =>
    unfold place
    cases t j with
    | empty => rfl
    | deleted => exact ih
    | live k' => exact ih

omit [DecidableEq K] in
/-- The new slot is free, and no slot before it was never used. -/
theorem place_some {l : List I} (h : place t none l = some i) :
    ∃ l₁ l₂, l = l₁ ++ i :: l₂ ∧ (t i = .empty ∨ t i = .deleted) ∧ ∀ j ∈ l₁, t j ≠ .empty := by
  induction l with
  | nil => cases h
  | cons j js ih =>
    have hnone : ∀ x ∈ ([] : List I), t x ≠ .empty := fun x hx => absurd hx List.not_mem_nil
    unfold place at h
    cases hj : t j with
    | empty =>
      rw [hj] at h
      obtain rfl := Option.some.inj h
      exact ⟨[], js, rfl, .inl hj, hnone⟩
    | deleted =>
      rw [hj] at h
      have hmarked : place t (some j) js = some i := h
      rw [place_marked] at hmarked
      obtain rfl := Option.some.inj hmarked
      exact ⟨[], js, rfl, .inr hj, hnone⟩
    | live k' =>
      rw [hj] at h
      obtain ⟨l₁, l₂, rfl, hi, hall⟩ := ih h
      refine ⟨j :: l₁, l₂, rfl, hi, ?_⟩
      intro x hx
      rcases List.mem_cons.mp hx with rfl | hx
      · rw [hj]
        exact Cell.live_ne_empty k'
      · exact hall x hx

omit [DecidableEq K] in
theorem exists_place {l : List I} (hi : i ∈ l) (hfree : ∀ k, t i ≠ .live k) :
    ∃ j, place t none l = some j := by
  induction l with
  | nil => cases hi
  | cons j js ih =>
    unfold place
    cases hj : t j with
    | empty => exact ⟨j, rfl⟩
    | deleted => exact ⟨j, place_marked j js⟩
    | live k' =>
      rcases List.mem_cons.mp hi with rfl | hi
      · exact absurd hj (hfree k')
      · exact ih hi

end Walk

/-- Every key in the table is found where it is. -/
def Indexed (order : K → List I) (t : I → Cell K) : Prop :=
  ∀ i k, t i = .live k → search t k (order k) = some i

section Index

variable {order : K → List I} {t : I → Cell K} {k : K} {i : I}

theorem Indexed.search_iff (h : Indexed order t) : search t k (order k) = some i ↔ t i = .live k := by
  refine ⟨?_, h i k⟩
  intro hs
  obtain ⟨-, -, -, hi, -⟩ := (search_eq_some_iff _).mp hs
  exact hi

theorem Indexed.unique (h : Indexed order t) {j : I} (hi : t i = .live k) (hj : t j = .live k) : i = j :=
  Option.some.inj ((h i k hi).symm.trans (h j k hj))

theorem indexed_empty (order : K → List I) : Indexed order fun _ => .empty := by
  intro i k h
  cases h

variable [DecidableEq I]

theorem Indexed.insert (h : Indexed order t) (habsent : search t k (order k) = none)
    (hplace : place t none (order k) = some i) : Indexed order (Function.update t i (.live k)) := by
  obtain ⟨l₁, l₂, horder, hfree, hbefore⟩ := place_some hplace
  -- the key is nowhere
  have hnowhere : ∀ j, t j ≠ .live k := by
    intro j hj
    rw [h j k hj] at habsent
    cases habsent
  intro j k' hj
  by_cases hji : j = i
  · subst hji
    rw [Function.update_self, Cell.live.injEq] at hj
    subst hj
    rw [search_eq_some_iff]
    by_cases hfirst : j ∈ l₁
    · -- the first visit of the slot is the one that counts
      obtain ⟨l₃, l₄, hl₁, hnot⟩ := List.eq_append_cons_of_mem hfirst
      refine ⟨l₃, l₄ ++ j :: l₂, ?_, Function.update_self .., ?_⟩
      · rw [horder, hl₁]
        simp only [List.append_assoc, List.cons_append]
      · intro x hx
        have hxj : x ≠ j := fun he => hnot (he ▸ hx)
        rw [Function.update_of_ne hxj]
        refine ⟨hbefore x ?_, hnowhere x⟩
        rw [hl₁]
        exact List.mem_append_left _ hx
    · refine ⟨l₁, l₂, horder, Function.update_self .., ?_⟩
      intro x hx
      have hxj : x ≠ j := fun he => hfirst (he ▸ hx)
      rw [Function.update_of_ne hxj]
      exact ⟨hbefore x hx, hnowhere x⟩
  · rw [Function.update_of_ne hji] at hj
    have hne : k ≠ k' := by
      rintro rfl
      exact hnowhere j hj
    obtain ⟨l₃, l₄, horder', hj', hall⟩ := (search_eq_some_iff _).mp (h j k' hj)
    rw [search_eq_some_iff]
    refine ⟨l₃, l₄, horder', ?_, ?_⟩
    · rw [Function.update_of_ne hji]
      exact hj'
    · intro x hx
      by_cases hxi : x = i
      · rw [hxi, Function.update_self]
        exact ⟨Cell.live_ne_empty k, fun he => hne (Cell.live.inj he)⟩
      · rw [Function.update_of_ne hxi]
        exact hall x hx

theorem Indexed.delete (h : Indexed order t) (hi : t i = .live k) :
    Indexed order (Function.update t i .deleted) := by
  intro j k' hj
  have hji : j ≠ i := by
    rintro rfl
    rw [Function.update_self] at hj
    cases hj
  rw [Function.update_of_ne hji] at hj
  obtain ⟨l₃, l₄, horder, hj', hall⟩ := (search_eq_some_iff _).mp (h j k' hj)
  rw [search_eq_some_iff]
  refine ⟨l₃, l₄, horder, ?_, ?_⟩
  · rw [Function.update_of_ne hji]
    exact hj'
  · intro x hx
    by_cases hxi : x = i
    · rw [hxi, Function.update_self]
      exact ⟨Cell.deleted_ne_empty, Cell.deleted_ne_live k'⟩
    · rw [Function.update_of_ne hxi]
      exact hall x hx

end Index

/-! Double hashing: from a start, always by the same step. -/

/-- The slots that are tried. -/
def probes (n step : Nat) : Nat → Nat → List Nat
  | _, 0 => []
  | slot, fuel + 1 => slot :: probes n step ((slot + step) % n) fuel

theorem probes_eq (n step slot fuel : Nat) (h : slot < n) :
    probes n step slot fuel = (List.range fuel).map fun i => (slot + i * step) % n := by
  induction fuel generalizing slot with
  | zero => rfl
  | succ fuel ih =>
    rw [probes, ih _ (Nat.mod_lt _ (Nat.zero_lt_of_lt h)), List.range_succ_eq_map, List.map_cons,
      List.map_map]
    congr 1
    · rw [Nat.zero_mul, Nat.add_zero, Nat.mod_eq_of_lt h]
    · apply List.map_congr_left
      intro i _
      show ((slot + step) % n + i * step) % n = (slot + (i + 1) * step) % n
      rw [Nat.mod_add_mod, Nat.succ_mul]
      congr 1
      omega

theorem mem_probes {n : Nat} (hn : n.Prime) {step slot : Nat} (hstep : 0 < step) (hlt : step < n)
    (hslot : slot < n) {i : Nat} (hi : i < n) : i ∈ probes n step slot n := by
  rw [probes_eq n step slot n hslot, List.mem_map]
  have hcop : n.Coprime step := by
    rw [Nat.Prime.coprime_iff_not_dvd hn]
    intro hdvd
    exact absurd (Nat.le_of_dvd hstep hdvd) (Nat.not_le_of_lt hlt)
  have hinj : Function.Injective fun k : Fin n => (⟨(slot + k * step) % n, Nat.mod_lt _ hn.pos⟩ : Fin n) := by
    intro a b hab
    have hmod : slot + a * step ≡ slot + b * step [MOD n] := congrArg Fin.val hab
    have hmul : (a : Nat) * step ≡ b * step [MOD n] := Nat.ModEq.add_left_cancel' slot hmod
    have hval : (a : Nat) ≡ b [MOD n] := Nat.ModEq.cancel_right_of_coprime hcop hmul
    exact Fin.ext (Nat.ModEq.eq_of_lt_of_lt hval a.isLt b.isLt)
  -- as many probes as slots, and no two alike
  obtain ⟨k, hk⟩ := Finite.injective_iff_surjective.mp hinj ⟨i, hi⟩
  exact ⟨k, List.mem_range.mpr k.isLt, congrArg Fin.val hk⟩

end OpenAddressing
