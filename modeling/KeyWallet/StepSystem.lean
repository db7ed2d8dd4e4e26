import Mathlib.Data.List.Induction
import Mathlib.Logic.Relation

/-! Runs of a deterministic step function over a list of inputs, and the rules that carry an
invariant or a simulation from one step to a whole run. Nothing here names a particular system. -/
namespace StepSystem

variable {S I A : Type*}

/-- The state reached from `s` by the inputs `is`, taken in order. -/
def run (step : S → I → S) (s : S) (is : List I) : S :=
  is.foldl step s

@[simp] theorem run_nil (step : S → I → S) (s : S) : run step s [] = s := rfl

@[simp] theorem run_cons (step : S → I → S) (s : S) (i : I) (is : List I) :
    run step s (i :: is) = run step (step s i) is := rfl

theorem run_append (step : S → I → S) (s : S) (is js : List I) :
    run step s (is ++ js) = run step (run step s is) js :=
  List.foldl_append

/-- Every step of the run meets `ok`, which is read in the state before that step. -/
def Along (step : S → I → S) (ok : S → I → Prop) : S → List I → Prop
  | _, [] => True
  | s, i :: is => ok s i ∧ Along step ok (step s i) is

instance Along.decidable (step : S → I → S) (ok : S → I → Prop)
    [∀ s i, Decidable (ok s i)] : ∀ s is, Decidable (Along step ok s is)
  | _, [] => .isTrue trivial
  | s, i :: is =>
    have := Along.decidable step ok (step s i) is
    inferInstanceAs (Decidable (ok s i ∧ Along step ok (step s i) is))

theorem along_append (step : S → I → S) (ok : S → I → Prop) (s : S) (is js : List I) :
    Along step ok s (is ++ js) ↔ Along step ok s is ∧ Along step ok (run step s is) js := by
  induction is generalizing s with
  | nil => simp [Along]
  | cons i is ih => simp only [List.cons_append, Along, ih, run_cons, and_assoc]

theorem along_true (step : S → I → S) (s : S) (is : List I) :
    Along step (fun _ _ => True) s is := by
  induction is generalizing s with
  | nil => trivial
  | cons i is ih => exact ⟨trivial, ih _⟩

/-- An invariant kept by every step that meets `ok` holds at the end of every run whose steps
all meet `ok`. -/
theorem run_invariant {step : S → I → S} {ok : S → I → Prop} {P : S → Prop}
    (hstep : ∀ s i, ok s i → P s → P (step s i)) (s : S) (is : List I)
    (hok : Along step ok s is) (hs : P s) : P (run step s is) := by
  induction is generalizing s with
  | nil => exact hs
  | cons i is ih => exact ih _ hok.2 (hstep s i hok.1 hs)

/-- Where every step that meets `ok` keeps `P` and has the property `law`, every run whose steps all
meet `ok` has the property at each of its steps. -/
theorem along_law {step : S → I → S} {ok law : S → I → Prop} {P : S → Prop}
    (hstep : ∀ s i, ok s i → P s → P (step s i) ∧ law s i) (s : S) (is : List I)
    (hok : Along step ok s is) (hs : P s) : Along step law s is := by
  induction is generalizing s with
  | nil => trivial
  | cons i is ih =>
    obtain ⟨hnext, hlaw⟩ := hstep s i hok.1 hs
    exact ⟨hlaw, ih _ hok.2 hnext⟩

/-- Where a step has the property exactly when it meets `ok`, and every step that has it keeps `P`, the same holds of
runs. -/
theorem along_iff {step : S → I → S} {ok law : S → I → Prop} {P : S → Prop} {is : List I}
    (hstep : ∀ s, ∀ i ∈ is, P s → (law s i ↔ ok s i)) (hkeeps : ∀ s, ∀ i ∈ is, P s → law s i → P (step s i))
    (s : S) (hs : P s) : Along step law s is ↔ Along step ok s is := by
  induction is generalizing s with
  | nil => exact Iff.rfl
  | cons i is ih =>
    have hrest (s : S) (hs : P s) : Along step law s is ↔ Along step ok s is :=
      ih (fun s j hj => hstep s j (List.mem_cons_of_mem i hj)) (fun s j hj => hkeeps s j (List.mem_cons_of_mem i hj)) s hs
    have hhere := hstep s i List.mem_cons_self hs
    have hnext := hkeeps s i List.mem_cons_self hs
    constructor
    · intro h
      exact ⟨hhere.mp h.1, (hrest _ (hnext h.1)).mp h.2⟩
    · intro h
      exact ⟨hhere.mpr h.1, (hrest _ (hnext (hhere.mpr h.1))).mpr h.2⟩

theorem exists_entry (step : S → I → S) (P : S → Prop) (s : S) (is : List I) (hs : ¬ P s)
    (h : P (run step s is)) :
    ∃ pre i mid, is = pre ++ i :: mid ∧ ¬ P (run step s pre) ∧
      ∀ m, m <+: mid → P (run step s (pre ++ i :: m)) := by
  -- on the length of the run: the last step entered `P`, or the run before it already holds it
  induction is using List.reverseRecOn with
  | nil => exact absurd h hs
  | append_singleton is i ih =>
    by_cases hlast : P (run step s is)
    · obtain ⟨pre, j, mid, rfl, hpre, hmid⟩ := ih hlast
      refine ⟨pre, j, mid ++ [i], by simp, hpre, ?_⟩
      intro m hm
      rcases List.prefix_concat_iff.mp hm with rfl | hm
      · simpa using h
      · exact hmid m hm
    · refine ⟨is, i, [], rfl, hlast, ?_⟩
      intro m hm
      rw [List.prefix_nil.mp hm]
      exact h

/-- An invariant of the abstract relation is kept along any number of abstract steps. -/
theorem reach_invariant {R : A → A → Prop} {P : A → Prop}
    (hR : ∀ a b, R a b → P a → P b) {a b : A} (h : Relation.ReflTransGen R a b)
    (ha : P a) : P b := by
  induction h with
  | refl => exact ha
  | tail _ hbc ih => exact hR _ _ hbc ih

end StepSystem
