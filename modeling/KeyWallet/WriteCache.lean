import KeyWallet.CrashProgram
import Mathlib.Data.List.Sublists

/-! A second reading of the same programs: the cache hands its writes on in any order, so a power
loss leaves what the last completed commit made durable together with any of the whole-file writes
since then. -/
namespace CrashProgram

/-- The view of the running code, what the last commit made durable, and the writes since. -/
structure Cache (K V S : Type) where
  view : K → V
  flash : K → V
  pending : List (K × V)
  vars : S

variable {K V S E ε α β : Type}

/-- The files after these writes. -/
def settle [DecidableEq K] (ws : List (K × V)) (files : K → V) : K → V :=
  ws.foldl (fun d w => Function.update d w.1 w.2) files

namespace Cache

@[simps] def write [DecidableEq K] (m : Cache K V S) (k : K) (v : V) : Cache K V S :=
  { m with view := Function.update m.view k v, pending := m.pending ++ [(k, v)] }

@[simps] def sync (m : Cache K V S) : Cache K V S := { m with flash := m.view, pending := [] }

@[simps] def setVars (m : Cache K V S) (s : S) : Cache K V S := { m with vars := s }

/-- Power comes back with these files. -/
@[simps] def boot (files : K → V) (s : S) : Cache K V S := ⟨files, files, [], s⟩

/-- The file is damaged: from now on it holds this. -/
@[simps] def overwrite [DecidableEq K] (m : Cache K V S) (k : K) (v : V) : Cache K V S :=
  { m with
    view := Function.update m.view k v
    flash := Function.update m.flash k v
    pending := m.pending.filter fun w => w.1 ≠ k }

/-- What a power loss may leave. -/
def Survives [DecidableEq K] (m : Cache K V S) (files : K → V) : Prop :=
  ∃ ws : List (K × V), ws.Sublist m.pending ∧ files = settle ws m.flash

/-- The contents that a file has, or may have after a power loss. -/
def Possible (m : Cache K V S) (k : K) (v : V) : Prop :=
  m.view k = v ∨ m.flash k = v ∨ (k, v) ∈ m.pending

/-- Nothing has been written to the file since it became durable. -/
def Fixed (m : Cache K V S) (k : K) : Prop := ∀ v, m.Possible k v → v = m.view k

section Files

variable {m : Cache K V S} {k j : K} {v x : V} {files : K → V}

theorem possible_view (m : Cache K V S) (k : K) : m.Possible k (m.view k) := .inl rfl

theorem Possible.of_sync (h : m.sync.Possible j x) : x = m.view j := by
  rcases h with h | h | h
  · exact h.symm
  · exact h.symm
  · exact absurd h List.not_mem_nil

theorem Possible.of_boot {s : S} (h : (boot files s).Possible j x) : x = files j := by
  rcases h with h | h | h
  · exact h.symm
  · exact h.symm
  · exact absurd h List.not_mem_nil

theorem fixed_sync (m : Cache K V S) (k : K) : m.sync.Fixed k := fun _ hx => hx.of_sync

theorem fixed_boot (files : K → V) (s : S) (k : K) : (boot files s).Fixed k := fun _ hx => hx.of_boot

variable [DecidableEq K]

theorem settle_cases (ws : List (K × V)) (files : K → V) (k : K) :
    settle ws files k = files k ∨ (k, settle ws files k) ∈ ws := by
  induction ws generalizing files with
  | nil => exact .inl rfl
  | cons w ws ih =>
    rcases ih (Function.update files w.1 w.2) with h | h
    · by_cases hk : k = w.1
      · right
        have hv : settle (w :: ws) files k = w.2 := by
          rw [hk] at h ⊢
          exact h.trans (Function.update_self _ _ _)
        rw [hv, hk]
        exact List.mem_cons_self
      · exact .inl (h.trans (Function.update_of_ne hk _ _))
    · exact .inr (List.mem_cons_of_mem _ h)

theorem Survives.possible (h : m.Survives files) (k : K) : m.Possible k (files k) := by
  obtain ⟨ws, hsub, rfl⟩ := h
  rcases settle_cases ws m.flash k with h | h
  · exact .inr (.inl h.symm)
  · exact .inr (.inr (hsub.subset h))

theorem survives_flash (m : Cache K V S) : m.Survives m.flash := ⟨[], List.nil_sublist _, rfl⟩

theorem Possible.of_write (h : (m.write k v).Possible j x) :
    m.Possible j x ∨ (j = k ∧ x = v) := by
  rcases h with h | h | h
  · by_cases hj : j = k
    · subst hj
      exact .inr ⟨rfl, h.symm.trans (Function.update_self _ _ _)⟩
    · exact .inl (.inl ((Function.update_of_ne hj _ _).symm.trans h))
  · exact .inl (.inr (.inl h))
  · rcases List.mem_append.mp h with h | h
    · exact .inl (.inr (.inr h))
    · obtain ⟨rfl, rfl⟩ := Prod.mk.inj (List.mem_singleton.mp h)
      exact .inr ⟨rfl, rfl⟩

theorem Possible.of_write_ne (h : (m.write k v).Possible j x) (hne : j ≠ k) : m.Possible j x :=
  h.of_write.resolve_right fun he => hne he.1

theorem Possible.of_overwrite (h : (m.overwrite k v).Possible j x) :
    (j = k ∧ x = v) ∨ (j ≠ k ∧ m.Possible j x) := by
  by_cases hj : j = k
  · subst hj
    refine .inl ⟨rfl, ?_⟩
    rcases h with h | h | h
    · exact h.symm.trans (Function.update_self _ _ _)
    · exact h.symm.trans (Function.update_self _ _ _)
    · exact absurd rfl (of_decide_eq_true (List.mem_filter.mp h).2)
  · refine .inr ⟨hj, ?_⟩
    rcases h with h | h | h
    · exact .inl ((Function.update_of_ne hj _ _).symm.trans h)
    · exact .inr (.inl ((Function.update_of_ne hj _ _).symm.trans h))
    · exact .inr (.inr (List.mem_filter.mp h).1)

theorem Fixed.overwrite (h : m.Fixed j) (hne : j ≠ k) (v : V) : (m.overwrite k v).Fixed j := by
  intro x hx
  rcases hx.of_overwrite with ⟨he, -⟩ | ⟨-, hx⟩
  · exact absurd he hne
  · exact (h x hx).trans (Function.update_of_ne hne _ _).symm

theorem fixed_overwrite (m : Cache K V S) (k : K) (v : V) : (m.overwrite k v).Fixed k := by
  intro x hx
  rcases hx.of_overwrite with ⟨-, rfl⟩ | ⟨hne, -⟩
  · exact (Function.update_self k x m.view).symm
  · exact absurd rfl hne

theorem Fixed.write (h : m.Fixed j) (hne : j ≠ k) (v : V) : (m.write k v).Fixed j := by
  intro x hx
  rw [h x (hx.of_write_ne hne)]
  exact (Function.update_of_ne hne _ _).symm

end Files

end Cache

open Prog

/-- The run with these replies; when they run out, the rest succeeds. A commit that is refused has
not completed: what it made durable is among what may survive. -/
def perform [DecidableEq K] : Prog K V S E ε α → Cache K V S → List Reply → Outcome ε α × Cache K V S
  | done a, m, _ => (.done a, m)
  | fail e, m, _ => (.fail e, m)
  | look next, m, rs => perform (next m.vars m.view) m rs
  | vars f next, m, rs => perform next (m.setVars (f m.vars)) rs
  | emit _ next, m, rs => perform next m rs
  | put k v next, m, [] => perform (next true) (m.write k v) []
  | put k v next, m, .ok :: rs => perform (next true) (m.write k v) rs
  | put k v next, m, .refused happened :: rs =>
    perform (next false) (if happened then m.write k v else m) rs
  | put _ _ _, m, .powerLoss :: _ => (.lost, m)
  | write k v next, m, [] => perform next (m.write k v) []
  | write k v next, m, .ok :: rs => perform next (m.write k v) rs
  | write k v next, m, .refused happened :: rs =>
    perform next (if happened then m.write k v else m) rs
  | write _ _ _, m, .powerLoss :: _ => (.lost, m)
  | commit next, m, [] => perform (next true) m.sync []
  | commit next, m, .ok :: rs => perform (next true) m.sync rs
  | commit next, m, .refused _ :: rs => perform (next false) m rs
  | commit _, m, .powerLoss :: _ => (.lost, m)

/-- Whatever the storage replies, a run that ends does so with `Q`, an error exit with `R`, and a
power loss finds `C`. -/
def always [DecidableEq K] : Prog K V S E ε α → (α → Cache K V S → Prop) →
    (ε → Cache K V S → Prop) → (Cache K V S → Prop) → Cache K V S → Prop
  | done a, Q, _, _, m => Q a m
  | fail e, _, R, _, m => R e m
  | look next, Q, R, C, m => always (next m.vars m.view) Q R C m
  | vars g next, Q, R, C, m => always next Q R C (m.setVars (g m.vars))
  | emit _ next, Q, R, C, m => always next Q R C m
  | put k v next, Q, R, C, m => C m ∧ always (next true) Q R C (m.write k v) ∧
      always (next false) Q R C m ∧ always (next false) Q R C (m.write k v)
  | write k v next, Q, R, C, m => C m ∧ always next Q R C (m.write k v) ∧ always next Q R C m
  | commit next, Q, R, C, m => C m ∧ always (next true) Q R C m.sync ∧ always (next false) Q R C m

section Rules

variable [DecidableEq K] {Q Q' : α → Cache K V S → Prop} {R R' : ε → Cache K V S → Prop}
  {C C' : Cache K V S → Prop} {m : Cache K V S}

@[simp] theorem always_bind (p : Prog K V S E ε α) (g : α → Prog K V S E ε β)
    {Q : β → Cache K V S → Prop} :
    always (p.bind g) Q R C m ↔ always p (fun a n => always (g a) Q R C n) R C m := by
  induction p generalizing m with
  | done a => rfl
  | fail e => rfl
  | look next ih => exact ih _ _
  | vars u next ih => exact ih
  | emit e next ih => exact ih
  | put k v next ih => simp only [Prog.bind, always, ih]
  | write k v next ih => simp only [Prog.bind, always, ih]
  | commit next ih => simp only [Prog.bind, always, ih]

theorem always_mono {p : Prog K V S E ε α} (h : always p Q R C m) (hQ : ∀ a n, Q a n → Q' a n)
    (hR : ∀ e n, R e n → R' e n) (hC : ∀ n, C n → C' n) : always p Q' R' C' m := by
  induction p generalizing m with
  | done a => exact hQ _ _ h
  | fail e => exact hR _ _ h
  | look next ih => exact ih _ _ h
  | vars u next ih => exact ih h
  | emit e next ih => exact ih h
  | put k v next ih => exact ⟨hC _ h.1, ih _ h.2.1, ih _ h.2.2.1, ih _ h.2.2.2⟩
  | write k v next ih => exact ⟨hC _ h.1, ih h.2.1, ih h.2.2⟩
  | commit next ih => exact ⟨hC _ h.1, ih _ h.2.1, ih _ h.2.2⟩

@[simp] theorem always_done (a : α) :
    always (done a : Prog K V S E ε α) Q R C m ↔ Q a m := Iff.rfl

@[simp] theorem always_fail (e : ε) :
    always (fail e : Prog K V S E ε α) Q R C m ↔ R e m := Iff.rfl

@[simp] theorem always_consult (g : S → (K → V) → α) :
    always (consult g : Prog K V S E ε α) Q R C m ↔ Q (g m.vars m.view) m := Iff.rfl

@[simp] theorem always_liftCheck_ok (a : α) :
    always (liftCheck (.ok a) : Prog K V S E ε α) Q R C m ↔ Q a m := Iff.rfl

@[simp] theorem always_liftCheck_error (e : ε) :
    always (liftCheck (.error e) : Prog K V S E ε α) Q R C m ↔ R e m := Iff.rfl

@[simp] theorem always_putFile {Q : Bool → Cache K V S → Prop} (k : K) (v : V) :
    always (putFile k v : Prog K V S E ε Bool) Q R C m ↔
      C m ∧ Q true (m.write k v) ∧ Q false m ∧ Q false (m.write k v) := Iff.rfl

@[simp] theorem always_commitSync {Q : Bool → Cache K V S → Prop} :
    always (commitSync : Prog K V S E ε Bool) Q R C m ↔ C m ∧ Q true m.sync ∧ Q false m := Iff.rfl

/-- What the rules establish holds of every run. -/
theorem always_sound {p : Prog K V S E ε α} (h : always p Q R C m) (rs : List Reply) :
    match perform p m rs with
    | (.done a, n) => Q a n
    | (.fail e, n) => R e n
    | (.lost, n) => C n := by
  induction p generalizing m rs with
  | done a => exact h
  | fail e => exact h
  | look next ih => exact ih _ _ h rs
  | vars u next ih => exact ih h rs
  | emit e next ih => exact ih h rs
  | put k v next ih =>
    match rs with
    | [] => exact ih true h.2.1 []
    | .ok :: rs => exact ih true h.2.1 rs
    | .refused true :: rs => exact ih false h.2.2.2 rs
    | .refused false :: rs => exact ih false h.2.2.1 rs
    | .powerLoss :: _ => exact h.1
  | write k v next ih =>
    match rs with
    | [] => exact ih h.2.1 []
    | .ok :: rs => exact ih h.2.1 rs
    | .refused true :: rs => exact ih h.2.1 rs
    | .refused false :: rs => exact ih h.2.2 rs
    | .powerLoss :: _ => exact h.1
  | commit next ih =>
    match rs with
    | [] => exact ih true h.2.1 []
    | .ok :: rs => exact ih true h.2.1 rs
    | .refused _ :: rs => exact ih false h.2.2 rs
    | .powerLoss :: _ => exact h.1

theorem perform_ne_lost {p : Prog K V S E ε α} {rs : List Reply} (h : .powerLoss ∉ rs) :
    (perform p m rs).1 ≠ .lost := by
  induction p generalizing m rs with
  | done a => exact fun hl => nomatch hl
  | fail e => exact fun hl => nomatch hl
  | look next ih => exact ih _ _ h
  | vars u next ih => exact ih h
  | emit e next ih => exact ih h
  | put k v next ih =>
    match rs with
    | [] => exact ih true h
    | .ok :: rs => exact ih true (List.not_mem_of_not_mem_cons h)
    | .refused _ :: rs => exact ih false (List.not_mem_of_not_mem_cons h)
    | .powerLoss :: _ => exact absurd List.mem_cons_self h
  | write k v next ih =>
    match rs with
    | [] => exact ih h
    | .ok :: rs => exact ih (List.not_mem_of_not_mem_cons h)
    | .refused _ :: rs => exact ih (List.not_mem_of_not_mem_cons h)
    | .powerLoss :: _ => exact absurd List.mem_cons_self h
  | commit next ih =>
    match rs with
    | [] => exact ih true h
    | .ok :: rs => exact ih true (List.not_mem_of_not_mem_cons h)
    | .refused _ :: rs => exact ih false (List.not_mem_of_not_mem_cons h)
    | .powerLoss :: _ => exact absurd List.mem_cons_self h

theorem perform_bind_fail {p : Prog K V S E ε α} {g : α → Prog K V S E ε β} {rs : List Reply} {e : ε}
    {n : Cache K V S} (h : perform p m rs = (.fail e, n)) : perform (p.bind g) m rs = (.fail e, n) := by
  induction p generalizing m rs with
  | done a => exact absurd (congrArg Prod.fst h) (by simp [perform])
  | fail e' =>
    have he := Prod.mk.inj h
    rw [← Outcome.fail.inj he.1, ← he.2]
    rfl
  | look next ih => exact ih _ _ h
  | vars u next ih => exact ih h
  | emit e next ih => exact ih h
  | put k v next ih =>
    match rs with
    | [] => exact ih true h
    | .ok :: rs => exact ih true h
    | .refused _ :: rs => exact ih false h
    | .powerLoss :: _ => exact absurd (congrArg Prod.fst h) (by simp [perform])
  | write k v next ih =>
    match rs with
    | [] => exact ih h
    | .ok :: rs => exact ih h
    | .refused _ :: rs => exact ih h
    | .powerLoss :: _ => exact absurd (congrArg Prod.fst h) (by simp [perform])
  | commit next ih =>
    match rs with
    | [] => exact ih true h
    | .ok :: rs => exact ih true h
    | .refused _ :: rs => exact ih false h
    | .powerLoss :: _ => exact absurd (congrArg Prod.fst h) (by simp [perform])

end Rules

end CrashProgram
