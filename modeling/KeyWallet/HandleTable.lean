import Mathlib.Data.Fintype.Option
import Mathlib.Data.Finset.Card
import Mathlib.Tactic.Common

/-! A table of open handles: a fixed number of places, and tokens from a counter that wraps. Nothing
here names a particular store. -/
namespace HandleTable

/-- `n` places, each free or with a token and what it stands for. Zero is no token, and no token is
given out twice at a time. -/
structure Table (E : Type) (n : Nat) where
  places : Fin n → Option (Nat × E)
  next : Nat
  valid : ∀ i p, places i = some p → p.1 ≠ 0
  distinct : ∀ i j p q, places i = some p → places j = some q → p.1 = q.1 → i = j

variable {E : Type} {n : Nat}

/-- Tokens are 32 bits wide. -/
def tokenBound : Nat := 2 ^ 32

def empty (E : Type) (n : Nat) : Table E n where
  places := fun _ => none
  next := 1
  valid := fun _ _ h => nomatch h
  distinct := fun _ _ _ _ h => nomatch h

/-- The place of a token. -/
def place (t : Table E n) (token : Nat) : Option (Fin n) :=
  if token = 0 then none
  else (List.finRange n).find? fun i => ((t.places i).map Prod.fst) == some token

/-- What a token stands for. -/
def lookup (t : Table E n) (token : Nat) : Option E :=
  (place t token).bind fun i => (t.places i).map Prod.snd

/-- What is in the table. -/
def entries (t : Table E n) : List (Nat × E) := (List.finRange n).filterMap t.places

/-- The first value of the counter, from its present one on, that is a token not in use. The loop
of the allocation has at most as many rounds as there are places, and one more for zero. -/
def allocate (t : Table E n) : Option (Nat × Nat) :=
  ((List.range (n + 1)).find? fun k =>
    (t.next + k) % tokenBound != 0 && (place t ((t.next + k) % tokenBound)).isNone).map
    fun k => ((t.next + k) % tokenBound, (t.next + k + 1) % tokenBound)

theorem place_some {t : Table E n} {token : Nat} {i : Fin n} (h : place t token = some i) :
    ∃ e, t.places i = some (token, e) := by
  unfold place at h
  split at h
  · cases h
  · have hfound := List.find?_some h
    rw [beq_iff_eq, Option.map_eq_some_iff] at hfound
    obtain ⟨⟨token', e⟩, hi, rfl⟩ := hfound
    exact ⟨e, hi⟩

theorem place_eq {t : Table E n} {token : Nat} {i : Fin n} {e : E}
    (h : t.places i = some (token, e)) : place t token = some i := by
  have hne : token ≠ 0 := t.valid i _ h
  cases hp : place t token with
  | some j =>
    obtain ⟨e', hj⟩ := place_some hp
    rw [t.distinct i j _ _ h hj rfl]
  | none =>
    rw [place, if_neg hne, List.find?_eq_none] at hp
    have := hp i (List.mem_finRange i)
    rw [h] at this
    simp at this

theorem lookup_eq_some {t : Table E n} {token : Nat} {e : E} :
    lookup t token = some e ↔ ∃ i, t.places i = some (token, e) := by
  unfold lookup
  constructor
  · intro h
    rw [Option.bind_eq_some_iff] at h
    obtain ⟨i, hp, hi⟩ := h
    obtain ⟨e', he'⟩ := place_some hp
    rw [he', Option.map_some, Option.some.injEq] at hi
    exact ⟨i, hi ▸ he'⟩
  · rintro ⟨i, hi⟩
    rw [place_eq hi, Option.bind_some, hi, Option.map_some]

theorem mem_entries {t : Table E n} {token : Nat} {e : E} (h : lookup t token = some e) :
    (token, e) ∈ entries t := by
  obtain ⟨i, hi⟩ := lookup_eq_some.mp h
  exact List.mem_filterMap.mpr ⟨i, List.mem_finRange i, hi⟩

theorem lookup_none_of_place {t : Table E n} {token : Nat} (h : place t token = none) :
    lookup t token = none := by
  rw [lookup, h, Option.bind_none]

theorem allocate_some {t : Table E n} {token next : Nat} (h : allocate t = some (token, next)) :
    token ≠ 0 ∧ place t token = none := by
  unfold allocate at h
  rw [Option.map_eq_some_iff] at h
  obtain ⟨k, hk, heq⟩ := h
  have hfound := List.find?_some hk
  rw [Bool.and_eq_true, bne_iff_ne, Option.isNone_iff_eq_none] at hfound
  obtain ⟨rfl, -⟩ := Prod.mk.inj heq
  exact hfound

/-- The first free place. -/
def free (t : Table E n) : Option (Fin n) := (List.finRange n).find? fun i => (t.places i).isNone

theorem free_some {t : Table E n} {i : Fin n} (h : free t = some i) : t.places i = none := by
  have := List.find?_some h
  exact Option.isNone_iff_eq_none.mp this

/-- An entry with a token of its own in a free place. -/
def insertAt (t : Table E n) (i : Fin n) (token next : Nat) (e : E) (htoken : token ≠ 0)
    (hnew : place t token = none) : Table E n where
  places := Function.update t.places i (some (token, e))
  next := next
  valid := by
    intro j p hj
    by_cases hji : j = i
    · subst hji
      rw [Function.update_self, Option.some.injEq] at hj
      rw [← hj]
      exact htoken
    · rw [Function.update_of_ne hji] at hj
      exact t.valid j p hj
  distinct := by
    have hfresh : ∀ j p, t.places j = some p → p.1 ≠ token := by
      rintro j ⟨_, e'⟩ hj rfl
      rw [place_eq hj] at hnew
      cases hnew
    intro j k p q hj hk hpq
    by_cases hji : j = i <;> by_cases hki : k = i
    · rw [hji, hki]
    · subst hji
      rw [Function.update_self, Option.some.injEq] at hj
      rw [Function.update_of_ne hki] at hk
      subst hj
      exact absurd hpq.symm (hfresh k q hk)
    · subst hki
      rw [Function.update_self, Option.some.injEq] at hk
      rw [Function.update_of_ne hji] at hj
      subst hk
      exact absurd hpq (hfresh j p hj)
    · rw [Function.update_of_ne hji] at hj
      rw [Function.update_of_ne hki] at hk
      exact t.distinct j k p q hj hk hpq

/-- A new entry, and its token. There is none when the table is full. -/
def insert (t : Table E n) (e : E) : Option (Nat × Table E n) :=
  match free t with
  | none => none
  | some i =>
    match h : allocate t with
    | none => none
    | some (token, next) =>
      some (token, insertAt t i token next e (allocate_some h).1 (allocate_some h).2)

/-- The place of the token is free again. -/
def remove (t : Table E n) (token : Nat) : Option (Table E n) :=
  match place t token with
  | none => none
  | some i => some {
      places := Function.update t.places i none
      next := t.next
      valid := by
        intro j p hj
        by_cases hji : j = i
        · rw [hji, Function.update_self] at hj
          cases hj
        · rw [Function.update_of_ne hji] at hj
          exact t.valid j p hj
      distinct := by
        intro j k p q hj hk hpq
        have hji : j ≠ i := by
          rintro rfl
          rw [Function.update_self] at hj
          cases hj
        have hki : k ≠ i := by
          rintro rfl
          rw [Function.update_self] at hk
          cases hk
        rw [Function.update_of_ne hji] at hj
        rw [Function.update_of_ne hki] at hk
        exact t.distinct j k p q hj hk hpq }

/-- The new entry is found by its token, which stood for nothing, and the others as before. -/
theorem lookup_insert {t t' : Table E n} {e : E} {token : Nat} (h : insert t e = some (token, t')) :
    lookup t token = none ∧ ∀ k, lookup t' k = if k = token then some e else lookup t k := by
  unfold insert at h
  cases hfree : free t with
  | none => simp [hfree] at h
  | some i =>
    have hplace := free_some hfree
    simp only [hfree] at h
    split at h
    · cases h
    · next token' next halloc =>
      rw [Option.some.injEq, Prod.mk.injEq] at h
      obtain ⟨rfl, rfl⟩ := h
      obtain ⟨hne, hnone⟩ := allocate_some halloc
      refine ⟨lookup_none_of_place hnone, ?_⟩
      intro k
      apply Option.ext
      intro e'
      rw [lookup_eq_some]
      split_ifs with hk
      · subst hk
        rw [Option.some.injEq]
        constructor
        · rintro ⟨j, hj⟩
          by_cases hji : j = i
          · subst hji
            simp only [insertAt, Function.update_self, Option.some.injEq, Prod.mk.injEq] at hj
            exact hj.2
          · simp only [insertAt, Function.update_of_ne hji] at hj
            rw [place_eq hj] at hnone
            cases hnone
        · rintro rfl
          exact ⟨i, by simp only [insertAt, Function.update_self]⟩
      · rw [lookup_eq_some]
        constructor
        · rintro ⟨j, hj⟩
          by_cases hji : j = i
          · subst hji
            simp only [insertAt, Function.update_self, Option.some.injEq, Prod.mk.injEq] at hj
            exact absurd hj.1.symm hk
          · simp only [insertAt, Function.update_of_ne hji] at hj
            exact ⟨j, hj⟩
        · rintro ⟨j, hj⟩
          have hji : j ≠ i := by
            rintro rfl
            rw [hplace] at hj
            cases hj
          exact ⟨j, by simp only [insertAt, Function.update_of_ne hji, hj]⟩

theorem lookup_remove {t t' : Table E n} {token : Nat} (h : remove t token = some t') (k : Nat) :
    lookup t' k = if k = token then none else lookup t k := by
  unfold remove at h
  cases hp : place t token with
  | none => simp [hp] at h
  | some i =>
    obtain ⟨e, hi⟩ := place_some hp
    simp only [hp, Option.some.injEq] at h
    subst h
    apply Option.ext
    intro e'
    rw [lookup_eq_some]
    constructor
    · rintro ⟨j, hj⟩
      have hji : j ≠ i := by
        rintro rfl
        simp only [Function.update_self] at hj
        cases hj
      simp only [Function.update_of_ne hji] at hj
      have hk : k ≠ token := by
        rintro rfl
        exact hji (t.distinct j i _ _ hj hi rfl)
      rw [if_neg hk, lookup_eq_some]
      exact ⟨j, hj⟩
    · intro hk
      split_ifs at hk with heq
      obtain ⟨j, hj⟩ := lookup_eq_some.mp hk
      have hji : j ≠ i := by
        rintro rfl
        rw [hi, Option.some.injEq, Prod.mk.injEq] at hj
        exact heq hj.1.symm
      exact ⟨j, by simp only [Function.update_of_ne hji, hj]⟩

theorem lookup_empty (k : Nat) : lookup (empty E n) k = none := by
  apply Option.ext
  intro e
  rw [lookup_eq_some]
  constructor
  · rintro ⟨i, hi⟩
    cases hi
  · intro h
    cases h

end HandleTable
