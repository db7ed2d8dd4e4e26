import Mathlib.Logic.Function.Basic
import Mathlib.Data.List.Basic
import Mathlib.Tactic.Tauto

/-! Programs over files that are written through a cache: what the running code reads back is the
view, what a power loss leaves is the flash. Every storage operation may be refused, and the power
may go at any of them. The rules here reason about all replies of the storage at once. -/
namespace CrashProgram

/-- A program over files `K → V`, variables `S`, observable events `E` and errors `ε`. -/
inductive Prog (K V S E ε α : Type) : Type
  | done (a : α)
  | fail (e : ε)
  | look (next : S → (K → V) → Prog K V S E ε α)
  | vars (f : S → S) (next : Prog K V S E ε α)
  | emit (e : E) (next : Prog K V S E ε α)
  -- the code looks at the result of this write
  | put (k : K) (v : V) (next : Bool → Prog K V S E ε α)
  -- the code ignores the result of this write
  | write (k : K) (v : V) (next : Prog K V S E ε α)
  | commit (next : Bool → Prog K V S E ε α)

/-- The log pairs an event with what was durable when it happened; `dropped` lists the files of
the writes that were refused without the code noticing. -/
structure Machine (K V S E : Type) where
  view : K → V
  flash : K → V
  vars : S
  log : List (E × (K → V))
  dropped : List K

/-- What the storage does with one operation. A refused write or commit may still have happened, but not in part;
how a write is cut at a sector is a matter of the flash modules. -/
inductive Reply
  | ok
  | refused (happened : Bool)
  | powerLoss
  deriving DecidableEq, Repr

inductive Outcome (ε α : Type)
  | done (a : α)
  | fail (e : ε)
  | lost
  deriving DecidableEq, Repr

variable {K V S E ε α β : Type}

namespace Prog

def bind : Prog K V S E ε α → (α → Prog K V S E ε β) → Prog K V S E ε β
  | done a, f => f a
  | fail e, _ => fail e
  | look next, f => look fun s v => (next s v).bind f
  | vars g next, f => vars g (next.bind f)
  | emit e next, f => emit e (next.bind f)
  | put k v next, f => put k v fun b => (next b).bind f
  | write k v next, f => write k v (next.bind f)
  | commit next, f => commit fun b => (next b).bind f

instance : Monad (Prog K V S E ε) where
  pure := done
  bind := bind

end Prog

open Prog

@[simp] theorem pure_eq (a : α) : (pure a : Prog K V S E ε α) = done a := rfl

@[simp] theorem bind_eq (p : Prog K V S E ε α) (f : α → Prog K V S E ε β) :
    (p >>= f) = p.bind f := rfl

theorem Prog.bind_assoc {γ : Type} (p : Prog K V S E ε α) (f : α → Prog K V S E ε β)
    (g : β → Prog K V S E ε γ) : (p.bind f).bind g = p.bind fun a => (f a).bind g := by
  induction p with
  | done a => rfl
  | fail e => rfl
  | look next ih => simp only [Prog.bind, ih]
  | vars u next ih => simp only [Prog.bind, ih]
  | emit e next ih => simp only [Prog.bind, ih]
  | put k v next ih => simp only [Prog.bind, ih]
  | write k v next ih => simp only [Prog.bind, ih]
  | commit next ih => simp only [Prog.bind, ih]

def consult (f : S → (K → V) → α) : Prog K V S E ε α := look fun s v => done (f s v)

def setting (f : S → S) : Prog K V S E ε Unit := vars f (done ())

def event (e : E) : Prog K V S E ε Unit := emit e (done ())

def putFile (k : K) (v : V) : Prog K V S E ε Bool := put k v done

def writeFile (k : K) (v : V) : Prog K V S E ε Unit := write k v (done ())

def commitSync : Prog K V S E ε Bool := commit done

/-- A commit that is only requested: the code goes on whether or not it has happened. -/
def commitLater : Prog K V S E ε Unit := commit fun _ => done ()

/-- The result of a check that has no effect. -/
def liftCheck : Except ε α → Prog K V S E ε α
  | .ok a => done a
  | .error e => fail e

namespace Machine

@[simps] def write [DecidableEq K] (m : Machine K V S E) (k : K) (v : V) : Machine K V S E :=
  { m with view := Function.update m.view k v }

@[simps] def drop (m : Machine K V S E) (k : K) : Machine K V S E :=
  { m with dropped := k :: m.dropped }

@[simps] def sync (m : Machine K V S E) : Machine K V S E := { m with flash := m.view }

@[simps] def setVars (m : Machine K V S E) (s : S) : Machine K V S E := { m with vars := s }

@[simps] def record (m : Machine K V S E) (e : E) : Machine K V S E :=
  { m with log := m.log ++ [(e, m.flash)] }

/-- Power comes back: the view is what the flash held, the variables are `s`. -/
@[simps] def reboot (m : Machine K V S E) (s : S) : Machine K V S E :=
  { m with view := m.flash, vars := s }

end Machine

/-- The replies of the storage are used up one for each operation; when they run out, the rest
succeeds. -/
def exec [DecidableEq K] : Prog K V S E ε α → Machine K V S E → List Reply →
    Outcome ε α × Machine K V S E × List Reply
  | done a, m, rs => (.done a, m, rs)
  | fail e, m, rs => (.fail e, m, rs)
  | look next, m, rs => exec (next m.vars m.view) m rs
  | vars f next, m, rs => exec next (m.setVars (f m.vars)) rs
  | emit e next, m, rs => exec next (m.record e) rs
  | put k v next, m, [] => exec (next true) (m.write k v) []
  | put k v next, m, .ok :: rs => exec (next true) (m.write k v) rs
  | put k v next, m, .refused happened :: rs =>
    exec (next false) (if happened then m.write k v else m) rs
  | put _ _ _, m, .powerLoss :: rs => (.lost, m, rs)
  | write k v next, m, [] => exec next (m.write k v) []
  | write k v next, m, .ok :: rs => exec next (m.write k v) rs
  | write k v next, m, .refused happened :: rs =>
    exec next (if happened then m.write k v else m.drop k) rs
  | write _ _ _, m, .powerLoss :: rs => (.lost, m, rs)
  | commit next, m, [] => exec (next true) m.sync []
  | commit next, m, .ok :: rs => exec (next true) m.sync rs
  | commit next, m, .refused happened :: rs => exec (next false) (if happened then m.sync else m) rs
  | commit _, m, .powerLoss :: rs => (.lost, m, rs)

/-- Which refusals a statement reckons with: those the code notices, and those it does not. A power
loss is always reckoned with. -/
structure Faults where
  noticed : Prop
  silent : Prop

/-- The storage does what it is asked. -/
def Faults.none : Faults := ⟨False, False⟩

/-- Every refusal is noticed. -/
def Faults.honest : Faults := ⟨True, False⟩

/-- Anything goes. -/
def Faults.all : Faults := ⟨True, True⟩

/-- Whatever the storage replies, a run that ends does so with `Q`, an error exit with `R`, and a
power loss finds `C`. -/
def wp [DecidableEq K] (f : Faults) : Prog K V S E ε α → (α → Machine K V S E → Prop) →
    (ε → Machine K V S E → Prop) → (Machine K V S E → Prop) → Machine K V S E → Prop
  | done a, Q, _, _, m => Q a m
  | fail e, _, R, _, m => R e m
  | look next, Q, R, C, m => wp f (next m.vars m.view) Q R C m
  | vars g next, Q, R, C, m => wp f next Q R C (m.setVars (g m.vars))
  | emit e next, Q, R, C, m => wp f next Q R C (m.record e)
  | put k v next, Q, R, C, m => C m ∧ wp f (next true) Q R C (m.write k v) ∧
      (f.noticed → wp f (next false) Q R C m ∧ wp f (next false) Q R C (m.write k v))
  | write k v next, Q, R, C, m => C m ∧ wp f next Q R C (m.write k v) ∧
      (f.silent → wp f next Q R C (m.drop k))
  | commit next, Q, R, C, m => C m ∧ wp f (next true) Q R C m.sync ∧
      (f.noticed → wp f (next false) Q R C m ∧ wp f (next false) Q R C m.sync)

section Rules

variable [DecidableEq K] {f : Faults} {Q Q' : α → Machine K V S E → Prop}
  {R R' : ε → Machine K V S E → Prop} {C C' : Machine K V S E → Prop}

@[simp] theorem wp_bind (p : Prog K V S E ε α) (g : α → Prog K V S E ε β)
    {Q : β → Machine K V S E → Prop} (m : Machine K V S E) :
    wp f (p.bind g) Q R C m ↔ wp f p (fun a m' => wp f (g a) Q R C m') R C m := by
  induction p generalizing m with
  | done a => rfl
  | fail e => rfl
  | look next ih => exact ih _ _ _
  | vars g next ih => exact ih _
  | emit e next ih => exact ih _
  | put k v next ih => simp only [Prog.bind, wp, ih]
  | write k v next ih => simp only [Prog.bind, wp, ih]
  | commit next ih => simp only [Prog.bind, wp, ih]

theorem wp_mono {p : Prog K V S E ε α} {m : Machine K V S E} (h : wp f p Q R C m)
    (hQ : ∀ a m', Q a m' → Q' a m') (hR : ∀ e m', R e m' → R' e m') (hC : ∀ m', C m' → C' m') :
    wp f p Q' R' C' m := by
  induction p generalizing m with
  | done a => exact hQ _ _ h
  | fail e => exact hR _ _ h
  | look next ih => exact ih _ _ h
  | vars g next ih => exact ih h
  | emit e next ih => exact ih h
  | put k v next ih =>
    exact ⟨hC _ h.1, ih _ h.2.1, fun hf => ⟨ih _ (h.2.2 hf).1, ih _ (h.2.2 hf).2⟩⟩
  | write k v next ih => exact ⟨hC _ h.1, ih h.2.1, fun hf => ih (h.2.2 hf)⟩
  | commit next ih =>
    exact ⟨hC _ h.1, ih _ h.2.1, fun hf => ⟨ih _ (h.2.2 hf).1, ih _ (h.2.2 hf).2⟩⟩

theorem wp_trivial (p : Prog K V S E ε α) (m : Machine K V S E) :
    wp f p (fun _ _ => True) (fun _ _ => True) (fun _ => True) m := by
  induction p generalizing m with
  | done a => exact trivial
  | fail e => exact trivial
  | look next ih => exact ih _ _ m
  | vars g next ih => exact ih _
  | emit e next ih => exact ih _
  | put k v next ih => exact ⟨trivial, ih _ _, fun _ => ⟨ih _ _, ih _ _⟩⟩
  | write k v next ih => exact ⟨trivial, ih _, fun _ => ih _⟩
  | commit next ih => exact ⟨trivial, ih _ _, fun _ => ⟨ih _ _, ih _ _⟩⟩

theorem wp_and {p : Prog K V S E ε α} {m : Machine K V S E} (h : wp f p Q R C m)
    (h' : wp f p Q' R' C' m) : wp f p (fun a n => Q a n ∧ Q' a n) (fun e n => R e n ∧ R' e n)
      (fun n => C n ∧ C' n) m := by
  induction p generalizing m with
  | done a => exact ⟨h, h'⟩
  | fail e => exact ⟨h, h'⟩
  | look next ih => exact ih _ _ h h'
  | vars g next ih => exact ih h h'
  | emit e next ih => exact ih h h'
  | put k v next ih =>
    exact ⟨⟨h.1, h'.1⟩, ih _ h.2.1 h'.2.1, fun hf =>
      ⟨ih _ (h.2.2 hf).1 (h'.2.2 hf).1, ih _ (h.2.2 hf).2 (h'.2.2 hf).2⟩⟩
  | write k v next ih =>
    exact ⟨⟨h.1, h'.1⟩, ih h.2.1 h'.2.1, fun hf => ih (h.2.2 hf) (h'.2.2 hf)⟩
  | commit next ih =>
    exact ⟨⟨h.1, h'.1⟩, ih _ h.2.1 h'.2.1, fun hf =>
      ⟨ih _ (h.2.2 hf).1 (h'.2.2 hf).1, ih _ (h.2.2 hf).2 (h'.2.2 hf).2⟩⟩

/-- The verdict on one execution. -/
def Ends (Q : α → Machine K V S E → Prop) (R : ε → Machine K V S E → Prop)
    (C : Machine K V S E → Prop) (r : Outcome ε α × Machine K V S E × List Reply) : Prop :=
  match r.1 with
  | .done a => Q a r.2.1
  | .fail e => R e r.2.1
  | .lost => C r.2.1

theorem exec_dropped (p : Prog K V S E ε α) (m : Machine K V S E) (rs : List Reply) :
    m.dropped.length ≤ (exec p m rs).2.1.dropped.length := by
  induction p generalizing m rs with
  | done a => exact Nat.le_refl _
  | fail e => exact Nat.le_refl _
  | look next ih => exact ih _ _ m rs
  | vars g next ih => exact ih (m.setVars (g m.vars)) rs
  | emit e next ih => exact ih (m.record e) rs
  | put k v next ih =>
    match rs with
    | [] => exact ih true (m.write k v) []
    | .ok :: rs => exact ih true (m.write k v) rs
    | .refused true :: rs => exact ih false (m.write k v) rs
    | .refused false :: rs => exact ih false m rs
    | .powerLoss :: _ => exact Nat.le_refl _
  | write k v next ih =>
    match rs with
    | [] => exact ih (m.write k v) []
    | .ok :: rs => exact ih (m.write k v) rs
    | .refused true :: rs => exact ih (m.write k v) rs
    | .refused false :: rs => exact Nat.le_trans (Nat.le_succ _) (ih (m.drop k) rs)
    | .powerLoss :: _ => exact Nat.le_refl _
  | commit next ih =>
    match rs with
    | [] => exact ih true m.sync []
    | .ok :: rs => exact ih true m.sync rs
    | .refused true :: rs => exact ih false m.sync rs
    | .refused false :: rs => exact ih false m rs
    | .powerLoss :: _ => exact Nat.le_refl _

/-- While the power stays on, a program ends. -/
theorem exec_ne_lost (p : Prog K V S E ε α) (m : Machine K V S E) {rs : List Reply}
    (h : .powerLoss ∉ rs) : (exec p m rs).1 ≠ .lost := by
  have htail : ∀ {r : Reply} {rs : List Reply}, .powerLoss ∉ r :: rs → .powerLoss ∉ rs :=
    fun h hm => h (List.mem_cons_of_mem _ hm)
  induction p generalizing m rs with
  | done a => exact nofun
  | fail e => exact nofun
  | look next ih => exact ih _ _ m h
  | vars g next ih => exact ih (m.setVars (g m.vars)) h
  | emit e next ih => exact ih (m.record e) h
  | put k v next ih =>
    match rs with
    | [] => exact ih true (m.write k v) h
    | .ok :: rs => exact ih true (m.write k v) (htail h)
    | .refused true :: rs => exact ih false (m.write k v) (htail h)
    | .refused false :: rs => exact ih false m (htail h)
    | .powerLoss :: _ => exact absurd List.mem_cons_self h
  | write k v next ih =>
    match rs with
    | [] => exact ih (m.write k v) h
    | .ok :: rs => exact ih (m.write k v) (htail h)
    | .refused true :: rs => exact ih (m.write k v) (htail h)
    | .refused false :: rs => exact ih (m.drop k) (htail h)
    | .powerLoss :: _ => exact absurd List.mem_cons_self h
  | commit next ih =>
    match rs with
    | [] => exact ih true m.sync h
    | .ok :: rs => exact ih true m.sync (htail h)
    | .refused true :: rs => exact ih false m.sync (htail h)
    | .refused false :: rs => exact ih false m (htail h)
    | .powerLoss :: _ => exact absurd List.mem_cons_self h

theorem wp_sound {p : Prog K V S E ε α} {m : Machine K V S E} (h : wp f p Q R C m)
    (hn : f.noticed) (rs : List Reply)
    (hs : f.silent ∨ (exec p m rs).2.1.dropped = m.dropped) : Ends Q R C (exec p m rs) := by
  induction p generalizing m rs with
  | done a => exact h
  | fail e => exact h
  | look next ih => exact ih _ _ h rs hs
  | vars g next ih => exact ih h rs hs
  | emit e next ih => exact ih h rs hs
  | put k v next ih =>
    match rs with
    | [] => exact ih true h.2.1 [] hs
    | .ok :: rs => exact ih true h.2.1 rs hs
    | .refused true :: rs => exact ih false (h.2.2 hn).2 rs hs
    | .refused false :: rs => exact ih false (h.2.2 hn).1 rs hs
    | .powerLoss :: _ => exact h.1
  | write k v next ih =>
    match rs with
    | [] => exact ih h.2.1 [] hs
    | .ok :: rs => exact ih h.2.1 rs hs
    | .refused true :: rs => exact ih h.2.1 rs hs
    | .refused false :: rs =>
      rcases hs with hs | hs
      · exact ih (h.2.2 hs) rs (.inl hs)
      · -- the list of refusals has grown for good
        have hlen := exec_dropped next (m.drop k) rs
        have heq : (exec next (m.drop k) rs).2.1.dropped = m.dropped := hs
        rw [heq] at hlen
        exact absurd hlen (by simp)
    | .powerLoss :: _ => exact h.1
  | commit next ih =>
    match rs with
    | [] => exact ih true h.2.1 [] hs
    | .ok :: rs => exact ih true h.2.1 rs hs
    | .refused true :: rs => exact ih false (h.2.2 hn).2 rs hs
    | .refused false :: rs => exact ih false (h.2.2 hn).1 rs hs
    | .powerLoss :: _ => exact h.1

theorem wp_sound_obliging {p : Prog K V S E ε α} {m : Machine K V S E} (h : wp f p Q R C m)
    {rs : List Reply} (hrs : ∀ happened, .refused happened ∉ rs) : Ends Q R C (exec p m rs) := by
  have htail : ∀ {r : Reply} {rs : List Reply}, (∀ happened, .refused happened ∉ r :: rs) →
      ∀ happened, .refused happened ∉ rs :=
    fun h happened hm => h happened (List.mem_cons_of_mem _ hm)
  induction p generalizing m rs with
  | done a => exact h
  | fail e => exact h
  | look next ih => exact ih _ _ h hrs
  | vars g next ih => exact ih h hrs
  | emit e next ih => exact ih h hrs
  | put k v next ih =>
    cases rs with
    | nil => exact ih true h.2.1 hrs
    | cons r rs =>
      cases r with
      | ok => exact ih true h.2.1 (htail hrs)
      | refused happened => exact absurd List.mem_cons_self (hrs happened)
      | powerLoss => exact h.1
  | write k v next ih =>
    cases rs with
    | nil => exact ih h.2.1 hrs
    | cons r rs =>
      cases r with
      | ok => exact ih h.2.1 (htail hrs)
      | refused happened => exact absurd List.mem_cons_self (hrs happened)
      | powerLoss => exact h.1
  | commit next ih =>
    cases rs with
    | nil => exact ih true h.2.1 hrs
    | cons r rs =>
      cases r with
      | ok => exact ih true h.2.1 (htail hrs)
      | refused happened => exact absurd List.mem_cons_self (hrs happened)
      | powerLoss => exact h.1

/-- A statement may leave refusals out where there is none. -/
theorem ends_of_faults {p : Prog K V S E ε α} {m : Machine K V S E} {rs : List Reply}
    (h : ∀ f : Faults, ((∀ happened, .refused happened ∉ rs) → ¬ f.noticed) → wp f p Q R C m) :
    Ends Q R C (exec p m rs) := by
  by_cases hrs : ∀ happened, Reply.refused happened ∉ rs
  · exact wp_sound_obliging (h .none fun _ hfalse => hfalse) hrs
  · exact wp_sound (h .all fun ho => absurd ho hrs) trivial rs (.inl trivial)

omit [DecidableEq K] in
theorem Ends.done {r : Outcome ε α × Machine K V S E × List Reply} {a : α} (h : Ends Q R C r)
    (hr : r.1 = .done a) : Q a r.2.1 := by
  unfold Ends at h
  rw [hr] at h
  exact h

omit [DecidableEq K] in
theorem Ends.machine {I : Machine K V S E → Prop} {r : Outcome ε α × Machine K V S E × List Reply}
    (h : Ends (fun _ => I) (fun _ => I) I r) : I r.2.1 := by
  unfold Ends at h
  split at h <;> exact h

/-- Some execution without an unnoticed refusal leaves a flash that meets `C`. -/
def MayLeave (p : Prog K V S E ε α) (C : (K → V) → Prop) (m : Machine K V S E) : Prop :=
  ∃ rs, C (exec p m rs).2.1.flash ∧ (exec p m rs).2.1.dropped = m.dropped

/-- The power may go before the program does anything. -/
theorem mayLeave_now {p : Prog K V S E ε α} {C : (K → V) → Prop} {m : Machine K V S E}
    (h : C m.flash) : MayLeave p C m := by
  suffices hp : (exec p m [.powerLoss]).2.1.flash = m.flash ∧
      (exec p m [.powerLoss]).2.1.dropped = m.dropped by
    exact ⟨[.powerLoss], hp.1 ▸ h, hp.2⟩
  clear h
  induction p generalizing m with
  | done a => exact ⟨rfl, rfl⟩
  | fail e => exact ⟨rfl, rfl⟩
  | look next ih => exact ih _ _
  | vars u next ih => exact ih (m := m.setVars (u m.vars))
  | emit e next ih => exact ih (m := m.record e)
  | put k v next ih => exact ⟨rfl, rfl⟩
  | write k v next ih => exact ⟨rfl, rfl⟩
  | commit next ih => exact ⟨rfl, rfl⟩

/-- The first part may run undisturbed and the power go later. -/
theorem mayLeave_bind {p : Prog K V S E ε α} {g : α → Prog K V S E ε β} {C : (K → V) → Prop}
    {m : Machine K V S E}
    (h : wp Faults.none p (fun a m' => MayLeave (g a) C m') (fun _ _ => False) (fun _ => True) m) :
    MayLeave (p.bind g) C m := by
  induction p generalizing m with
  | done a => exact h
  | fail e => exact h.elim
  | look next ih => exact ih _ _ h
  | vars u next ih => exact ih (m := m.setVars (u m.vars)) h
  | emit e next ih => exact ih (m := m.record e) h
  | put k v next ih =>
    obtain ⟨rs, hC, hd⟩ := ih true (m := m.write k v) h.2.1
    exact ⟨.ok :: rs, hC, hd⟩
  | write k v next ih =>
    obtain ⟨rs, hC, hd⟩ := ih (m := m.write k v) h.2.1
    exact ⟨.ok :: rs, hC, hd⟩
  | commit next ih =>
    obtain ⟨rs, hC, hd⟩ := ih true (m := m.sync) h.2.1
    exact ⟨.ok :: rs, hC, hd⟩

/-- Some execution ends so. -/
def MayEnd (p : Prog K V S E ε α) (P : Outcome ε α → Machine K V S E → Prop)
    (m : Machine K V S E) : Prop :=
  ∃ rs, P (exec p m rs).1 (exec p m rs).2.1

theorem mayEnd_bind {p : Prog K V S E ε α} {g : α → Prog K V S E ε β}
    {P : Outcome ε β → Machine K V S E → Prop} {m : Machine K V S E}
    (h : wp Faults.none p (fun a m' => MayEnd (g a) P m') (fun _ _ => False) (fun _ => True) m) :
    MayEnd (p.bind g) P m := by
  induction p generalizing m with
  | done a => exact h
  | fail e => exact h.elim
  | look next ih => exact ih _ _ h
  | vars u next ih => exact ih (m := m.setVars (u m.vars)) h
  | emit e next ih => exact ih (m := m.record e) h
  | put k v next ih =>
    obtain ⟨rs, hP⟩ := ih true (m := m.write k v) h.2.1
    exact ⟨.ok :: rs, hP⟩
  | write k v next ih =>
    obtain ⟨rs, hP⟩ := ih (m := m.write k v) h.2.1
    exact ⟨.ok :: rs, hP⟩
  | commit next ih =>
    obtain ⟨rs, hP⟩ := ih true (m := m.sync) h.2.1
    exact ⟨.ok :: rs, hP⟩

theorem mayEnd_commit {g : Bool → Prog K V S E ε α} {P : Outcome ε α → Machine K V S E → Prop}
    {m : Machine K V S E} (h : MayEnd (g false) P m) : MayEnd (commitSync.bind g) P m := by
  obtain ⟨rs, hP⟩ := h
  exact ⟨.refused false :: rs, hP⟩

theorem mayLeave_first {p : Prog K V S E ε α} {g : α → Prog K V S E ε β} {C : (K → V) → Prop}
    {m : Machine K V S E} (h : MayLeave p C m) : MayLeave (p.bind g) C m := by
  obtain ⟨rs, hC, hd⟩ := h
  -- the replies are kept up to the end of the first part; then the power goes
  suffices hs : ∀ n, (exec p m rs).2.1.dropped = n →
      ∃ rs', C (exec (p.bind g) m rs').2.1.flash ∧ (exec (p.bind g) m rs').2.1.dropped = n by
    exact hs _ hd
  clear hd
  intro n hn
  induction p generalizing m rs with
  | done a =>
    obtain ⟨rs', h1, h2⟩ := mayLeave_now (p := g a) hC
    exact ⟨rs', h1, h2.trans hn⟩
  | fail e => exact ⟨rs, hC, hn⟩
  | look next ih => exact ih _ _ rs hC hn
  | vars u next ih => exact ih rs hC hn
  | emit e next ih => exact ih rs hC hn
  | put k v next ih =>
    match rs with
    | [] =>
      obtain ⟨rs', h1, h2⟩ := ih true [] hC hn
      exact ⟨.ok :: rs', h1, h2⟩
    | .ok :: rs =>
      obtain ⟨rs', h1, h2⟩ := ih true rs hC hn
      exact ⟨.ok :: rs', h1, h2⟩
    | .refused happened :: rs =>
      obtain ⟨rs', h1, h2⟩ := ih false rs hC hn
      exact ⟨.refused happened :: rs', h1, h2⟩
    | .powerLoss :: rs => exact ⟨.powerLoss :: rs, hC, hn⟩
  | write k v next ih =>
    match rs with
    | [] =>
      obtain ⟨rs', h1, h2⟩ := ih [] hC hn
      exact ⟨.ok :: rs', h1, h2⟩
    | .ok :: rs =>
      obtain ⟨rs', h1, h2⟩ := ih rs hC hn
      exact ⟨.ok :: rs', h1, h2⟩
    | .refused happened :: rs =>
      obtain ⟨rs', h1, h2⟩ := ih rs hC hn
      exact ⟨.refused happened :: rs', h1, h2⟩
    | .powerLoss :: rs => exact ⟨.powerLoss :: rs, hC, hn⟩
  | commit next ih =>
    match rs with
    | [] =>
      obtain ⟨rs', h1, h2⟩ := ih true [] hC hn
      exact ⟨.ok :: rs', h1, h2⟩
    | .ok :: rs =>
      obtain ⟨rs', h1, h2⟩ := ih true rs hC hn
      exact ⟨.ok :: rs', h1, h2⟩
    | .refused happened :: rs =>
      obtain ⟨rs', h1, h2⟩ := ih false rs hC hn
      exact ⟨.refused happened :: rs', h1, h2⟩
    | .powerLoss :: rs => exact ⟨.powerLoss :: rs, hC, hn⟩

/-- What comes after a run that has ended. -/
def continueWith (g : α → Machine K V S E → List Reply → Outcome ε β × Machine K V S E × List Reply) :
    Outcome ε α × Machine K V S E × List Reply → Outcome ε β × Machine K V S E × List Reply
  | (.done a, m, rs) => g a m rs
  | (.fail e, m, rs) => (.fail e, m, rs)
  | (.lost, m, rs) => (.lost, m, rs)

theorem exec_bind (p : Prog K V S E ε α) (g : α → Prog K V S E ε β) (m : Machine K V S E) (rs : List Reply) :
    exec (p.bind g) m rs = continueWith (fun a => exec (g a)) (exec p m rs) := by
  induction p generalizing m rs with
  | done b => rfl
  | fail e => rfl
  | look next ih => exact ih _ _ m rs
  | vars f next ih => exact ih _ rs
  | emit e next ih => exact ih _ rs
  | put k v next ih =>
    cases rs with
    | nil => exact ih true _ _
    | cons r rs =>
      cases r with
      | ok => exact ih true _ _
      | refused happened => exact ih false _ _
      | powerLoss => rfl
  | write k v next ih =>
    cases rs with
    | nil => exact ih _ _
    | cons r rs =>
      cases r with
      | ok => exact ih _ _
      | refused happened => exact ih _ _
      | powerLoss => rfl
  | commit next ih =>
    cases rs with
    | nil => exact ih true _ _
    | cons r rs =>
      cases r with
      | ok => exact ih true _ _
      | refused happened => exact ih false _ _
      | powerLoss => rfl

theorem exec_bind_done {p : Prog K V S E ε α} {g : α → Prog K V S E ε β} {m m' : Machine K V S E} {rs rs' : List Reply}
    {a : α} (h : exec p m rs = (.done a, m', rs')) : exec (p.bind g) m rs = exec (g a) m' rs' := by
  rw [exec_bind, h]
  rfl

theorem exec_bind_fail {p : Prog K V S E ε α} {g : α → Prog K V S E ε β} {m m' : Machine K V S E} {rs rs' : List Reply}
    {e : ε} (h : exec p m rs = (.fail e, m', rs')) : exec (p.bind g) m rs = (.fail e, m', rs') := by
  rw [exec_bind, h]
  rfl

theorem exec_bind_lost {p : Prog K V S E ε α} {g : α → Prog K V S E ε β} {m : Machine K V S E} {rs : List Reply}
    (h : (exec p m rs).1 = .lost) : (exec (p.bind g) m rs).1 = .lost := by
  rw [exec_bind]
  rcases hp : exec p m rs with ⟨r, m', rs'⟩
  rw [hp] at h
  dsimp only at h
  rw [h]
  rfl

end Rules

/-- The program writes only what `W` allows, changes the variables only along `U`, and is silent. -/
def Confined (W : K → V → Prop) (U : S → S → Prop) : Prog K V S E ε α → Prop
  | done _ => True
  | fail _ => True
  | look next => ∀ s v, Confined W U (next s v)
  | vars f next => (∀ s, U s (f s)) ∧ Confined W U next
  | emit _ _ => False
  | put k v next => W k v ∧ ∀ b, Confined W U (next b)
  | write k v next => W k v ∧ Confined W U next
  | commit next => ∀ b, Confined W U (next b)

theorem Confined.bind {W : K → V → Prop} {U : S → S → Prop} {p : Prog K V S E ε α}
    {g : α → Prog K V S E ε β} (hp : Confined W U p) (hg : ∀ a, Confined W U (g a)) :
    Confined W U (p.bind g) := by
  induction p with
  | done a => exact hg a
  | fail e => exact trivial
  | look next ih => exact fun s v => ih s v (hp s v)
  | vars g next ih => exact ⟨hp.1, ih hp.2⟩
  | emit e next ih => exact hp.elim
  | put k v next ih => exact ⟨hp.1, fun b => ih b (hp.2 b)⟩
  | write k v next ih => exact ⟨hp.1, ih hp.2⟩
  | commit next ih => exact fun b => ih b (hp b)

/-- Every result of the program is in `P`. -/
def Yields (P : α → Prop) : Prog K V S E ε α → Prop
  | done a => P a
  | fail _ => True
  | look next => ∀ s v, Yields P (next s v)
  | vars _ next => Yields P next
  | emit _ next => Yields P next
  | put _ _ next => ∀ b, Yields P (next b)
  | write _ _ next => Yields P next
  | commit next => ∀ b, Yields P (next b)

theorem Yields.bind {P : β → Prop} (p : Prog K V S E ε α) {g : α → Prog K V S E ε β}
    (hg : ∀ a, Yields P (g a)) : Yields P (p.bind g) := by
  induction p with
  | done a => exact hg a
  | fail e => exact trivial
  | look next ih => exact fun s v => ih s v
  | vars g next ih => exact ih
  | emit e next ih => exact ih
  | put k v next ih => exact fun b => ih b
  | write k v next ih => exact ih
  | commit next ih => exact fun b => ih b

theorem wp_yields [DecidableEq K] {f : Faults} {P : α → Prop} {Q : α → Machine K V S E → Prop}
    {R : ε → Machine K V S E → Prop} {C : Machine K V S E → Prop} {p : Prog K V S E ε α}
    (hy : Yields P p) {m : Machine K V S E} (h : wp f p Q R C m) :
    wp f p (fun a n => P a ∧ Q a n) R C m := by
  induction p generalizing m with
  | done a => exact ⟨hy, h⟩
  | fail e => exact h
  | look next ih => exact ih _ _ (hy _ _) h
  | vars g next ih => exact ih hy h
  | emit e next ih => exact ih hy h
  | put k v next ih =>
    exact ⟨h.1, ih _ (hy _) h.2.1, fun hf => ⟨ih _ (hy _) (h.2.2 hf).1, ih _ (hy _) (h.2.2 hf).2⟩⟩
  | write k v next ih => exact ⟨h.1, ih hy h.2.1, fun hf => ih hy (h.2.2 hf)⟩
  | commit next ih =>
    exact ⟨h.1, ih _ (hy _) h.2.1, fun hf => ⟨ih _ (hy _) (h.2.2 hf).1, ih _ (hy _) (h.2.2 hf).2⟩⟩

theorem Confined.bind_yields {W : K → V → Prop} {U : S → S → Prop} {P : α → Prop}
    {p : Prog K V S E ε α} {g : α → Prog K V S E ε β} (hp : Confined W U p) (hy : Yields P p)
    (hg : ∀ a, P a → Confined W U (g a)) : Confined W U (p.bind g) := by
  induction p with
  | done a => exact hg a hy
  | fail e => exact trivial
  | look next ih => exact fun s v => ih s v (hp s v) (hy s v)
  | vars g next ih => exact ⟨hp.1, ih hp.2 hy⟩
  | emit e next ih => exact hp.elim
  | put k v next ih => exact ⟨hp.1, fun b => ih b (hp.2 b) (hy b)⟩
  | write k v next ih => exact ⟨hp.1, ih hp.2 hy⟩
  | commit next ih => exact fun b => ih b (hp b) (hy b)

theorem Confined.mono {W W' : K → V → Prop} {U U' : S → S → Prop} {p : Prog K V S E ε α}
    (h : Confined W U p) (hW : ∀ k v, W k v → W' k v) (hU : ∀ s t, U s t → U' s t) :
    Confined W' U' p := by
  induction p with
  | done a => exact trivial
  | fail e => exact trivial
  | look next ih => exact fun s v => ih s v (h s v)
  | vars g next ih => exact ⟨fun s => hU _ _ (h.1 s), ih h.2⟩
  | emit e next ih => exact h.elim
  | put k v next ih => exact ⟨hW _ _ h.1, fun b => ih b (h.2 b)⟩
  | write k v next ih => exact ⟨hW _ _ h.1, ih h.2⟩
  | commit next ih => exact fun b => ih b (h b)

/-- What depends only on what a confined program leaves alone is kept by it, at every point. -/
theorem wp_confined [DecidableEq K] {f : Faults} {W : K → V → Prop} {U : S → S → Prop}
    {I : Machine K V S E → Prop} (hwrite : ∀ m k v, W k v → I m → I (m.write k v))
    (hdrop : ∀ m k, I m → I (m.drop k)) (hsync : ∀ m, I m → I m.sync)
    (hvars : ∀ m s, U m.vars s → I m → I (m.setVars s)) {p : Prog K V S E ε α}
    (hp : Confined W U p) {m : Machine K V S E} (hm : I m) :
    wp f p (fun _ => I) (fun _ => I) I m := by
  induction p generalizing m with
  | done a => exact hm
  | fail e => exact hm
  | look next ih => exact ih _ _ (hp _ _) hm
  | vars g next ih => exact ih hp.2 (hvars m _ (hp.1 _) hm)
  | emit e next ih => exact hp.elim
  | put k v next ih =>
    have hw := hwrite m k v hp.1 hm
    exact ⟨hm, ih true (hp.2 true) hw, fun _ => ⟨ih false (hp.2 false) hm, ih false (hp.2 false) hw⟩⟩
  | write k v next ih =>
    exact ⟨hm, ih hp.2 (hwrite m k v hp.1 hm), fun _ => ih hp.2 (hdrop m k hm)⟩
  | commit next ih =>
    have hs := hsync m hm
    exact ⟨hm, ih true (hp true) hs, fun _ => ⟨ih false (hp false) hm, ih false (hp false) hs⟩⟩

/-- Every file that the program writes is in `P`. -/
def Touches (P : K → Prop) : Prog K V S E ε α → Prop
  | done _ => True
  | fail _ => True
  | look next => ∀ s v, Touches P (next s v)
  | vars _ next => Touches P next
  | emit _ next => Touches P next
  | put k _ next => P k ∧ ∀ b, Touches P (next b)
  | write k _ next => P k ∧ Touches P next
  | commit next => ∀ b, Touches P (next b)

theorem Touches.bind {P : K → Prop} {p : Prog K V S E ε α} {g : α → Prog K V S E ε β}
    (hp : Touches P p) (hg : ∀ a, Touches P (g a)) : Touches P (p.bind g) := by
  induction p with
  | done a => exact hg a
  | fail e => exact trivial
  | look next ih => exact fun s v => ih s v (hp s v)
  | vars g next ih => exact ih hp
  | emit e next ih => exact ih hp
  | put k v next ih => exact ⟨hp.1, fun b => ih b (hp.2 b)⟩
  | write k v next ih => exact ⟨hp.1, ih hp.2⟩
  | commit next ih => exact fun b => ih b (hp b)

theorem Confined.touches {P : K → Prop} {W : K → V → Prop} {U : S → S → Prop}
    {p : Prog K V S E ε α} (hp : Confined W U p) (hW : ∀ k v, W k v → P k) : Touches P p := by
  induction p with
  | done a => exact trivial
  | fail e => exact trivial
  | look next ih => exact fun s v => ih s v (hp s v)
  | vars g next ih => exact ih hp.2
  | emit e next ih => exact hp.elim
  | put k v next ih => exact ⟨hW k v hp.1, fun b => ih b (hp.2 b)⟩
  | write k v next ih => exact ⟨hW k v hp.1, ih hp.2⟩
  | commit next ih => exact fun b => ih b (hp b)

/-- What only such writes could change is kept, at every point. -/
theorem wp_touches [DecidableEq K] {f : Faults} {P : K → Prop} {I : Machine K V S E → Prop}
    (hwrite : ∀ m k v, P k → I m → I (m.write k v)) (hdrop : ∀ m k, I m → I (m.drop k))
    (hsync : ∀ m, I m → I m.sync) (hvars : ∀ m s, I m → I (m.setVars s))
    (hrecord : ∀ m e, I m → I (m.record e)) {p : Prog K V S E ε α} (hp : Touches P p)
    {m : Machine K V S E} (hm : I m) : wp f p (fun _ => I) (fun _ => I) I m := by
  induction p generalizing m with
  | done a => exact hm
  | fail e => exact hm
  | look next ih => exact ih _ _ (hp _ _) hm
  | vars g next ih => exact ih hp (hvars m _ hm)
  | emit e next ih => exact ih hp (hrecord m e hm)
  | put k v next ih =>
    have hw := hwrite m k v hp.1 hm
    exact ⟨hm, ih true (hp.2 true) hw, fun _ => ⟨ih false (hp.2 false) hm, ih false (hp.2 false) hw⟩⟩
  | write k v next ih =>
    exact ⟨hm, ih hp.2 (hwrite m k v hp.1 hm), fun _ => ih hp.2 (hdrop m k hm)⟩
  | commit next ih =>
    have hs := hsync m hm
    exact ⟨hm, ih true (hp true) hs, fun _ => ⟨ih false (hp false) hm, ih false (hp false) hs⟩⟩

theorem Touches.frame [DecidableEq K] {P : K → Prop} {p : Prog K V S E ε α} (hp : Touches P p)
    {k : K} (hk : ¬ P k) (m : Machine K V S E) (rs : List Reply) :
    (exec p m rs).2.1.view k = m.view k ∧
      ((exec p m rs).2.1.flash k = m.flash k ∨ (exec p m rs).2.1.flash k = m.view k) := by
  have hkeep := wp_touches (f := Faults.all) (m := m)
    (I := fun n => n.view k = m.view k ∧ (n.flash k = m.flash k ∨ n.flash k = m.view k))
    (fun n j v hj hn => ?_) (fun n j hn => hn) (fun n hn => ⟨hn.1, .inr hn.1⟩) (fun n s hn => hn)
    (fun n e hn => hn) hp ⟨rfl, .inl rfl⟩
  · exact (wp_sound hkeep trivial rs (.inl trivial)).machine
  · have hne : k ≠ j := fun he => hk (he ▸ hj)
    exact ⟨(Function.update_of_ne hne _ _).trans hn.1, hn.2⟩

/-- The program has no error exit. -/
def Total : Prog K V S E ε α → Prop
  | done _ => True
  | fail _ => False
  | look next => ∀ s v, Total (next s v)
  | vars _ next => Total next
  | emit _ next => Total next
  | put _ _ next => ∀ b, Total (next b)
  | write _ _ next => Total next
  | commit next => ∀ b, Total (next b)

theorem Total.bind {p : Prog K V S E ε α} {g : α → Prog K V S E ε β} (hp : Total p)
    (hg : ∀ a, Total (g a)) : Total (p.bind g) := by
  induction p with
  | done a => exact hg a
  | fail e => exact hp.elim
  | look next ih => exact fun s v => ih s v (hp s v)
  | vars g next ih => exact ih hp
  | emit e next ih => exact ih hp
  | put k v next ih => exact fun b => ih b (hp b)
  | write k v next ih => exact ih hp
  | commit next ih => exact fun b => ih b (hp b)

theorem wp_total [DecidableEq K] {f : Faults} {Q : α → Machine K V S E → Prop}
    {R R' : ε → Machine K V S E → Prop} {C : Machine K V S E → Prop} {p : Prog K V S E ε α}
    {m : Machine K V S E} (hp : Total p) (h : wp f p Q R C m) : wp f p Q R' C m := by
  induction p generalizing m with
  | done a => exact h
  | fail e => exact hp.elim
  | look next ih => exact ih _ _ (hp _ _) h
  | vars g next ih => exact ih hp h
  | emit e next ih => exact ih hp h
  | put k v next ih =>
    exact ⟨h.1, ih _ (hp _) h.2.1, fun hf => ⟨ih _ (hp _) (h.2.2 hf).1, ih _ (hp _) (h.2.2 hf).2⟩⟩
  | write k v next ih => exact ⟨h.1, ih hp h.2.1, fun hf => ih hp (h.2.2 hf)⟩
  | commit next ih =>
    exact ⟨h.1, ih _ (hp _) h.2.1, fun hf => ⟨ih _ (hp _) (h.2.2 hf).1, ih _ (hp _) (h.2.2 hf).2⟩⟩

theorem wp_of_total [DecidableEq K] {f : Faults} {p : Prog K V S E ε α} (hp : Total p)
    (m : Machine K V S E) : wp f p (fun _ _ => True) (fun _ _ => False) (fun _ => True) m := by
  induction p generalizing m with
  | done a => exact trivial
  | fail e => exact hp
  | look next ih => exact ih _ _ (hp _ _) m
  | vars g next ih => exact ih hp _
  | emit e next ih => exact ih hp _
  | put k v next ih => exact ⟨trivial, ih _ (hp _) _, fun _ => ⟨ih _ (hp _) _, ih _ (hp _) _⟩⟩
  | write k v next ih => exact ⟨trivial, ih hp _, fun _ => ih hp _⟩
  | commit next ih => exact ⟨trivial, ih _ (hp _) _, fun _ => ⟨ih _ (hp _) _, ih _ (hp _) _⟩⟩

/-! What the verdict says of the single operations. -/
section Operations

variable [DecidableEq K] {f : Faults} {R : ε → Machine K V S E → Prop}
  {C : Machine K V S E → Prop} {m : Machine K V S E}

@[simp] theorem wp_done {Q : α → Machine K V S E → Prop} (a : α) :
    wp f (done a) Q R C m ↔ Q a m := Iff.rfl

@[simp] theorem wp_fail {Q : α → Machine K V S E → Prop} (e : ε) :
    wp f (fail e) Q R C m ↔ R e m := Iff.rfl

@[simp] theorem wp_liftCheck {Q : α → Machine K V S E → Prop} (a : α) :
    wp f (liftCheck (.ok a)) Q R C m ↔ Q a m := Iff.rfl

@[simp] theorem wp_consult {Q : α → Machine K V S E → Prop} (g : S → (K → V) → α) :
    wp f (consult g) Q R C m ↔ Q (g m.vars m.view) m := Iff.rfl

@[simp] theorem wp_setting {Q : Unit → Machine K V S E → Prop} (g : S → S) :
    wp f (setting g) Q R C m ↔ Q () (m.setVars (g m.vars)) := Iff.rfl

@[simp] theorem wp_event {Q : Unit → Machine K V S E → Prop} (e : E) :
    wp f (event e) Q R C m ↔ Q () (m.record e) := Iff.rfl

@[simp] theorem wp_putFile {Q : Bool → Machine K V S E → Prop} (k : K) (v : V) :
    wp f (putFile k v) Q R C m ↔
      C m ∧ Q true (m.write k v) ∧ (f.noticed → Q false m ∧ Q false (m.write k v)) := Iff.rfl

@[simp] theorem wp_writeFile {Q : Unit → Machine K V S E → Prop} (k : K) (v : V) :
    wp f (writeFile k v) Q R C m ↔
      C m ∧ Q () (m.write k v) ∧ (f.silent → Q () (m.drop k)) := Iff.rfl

@[simp] theorem wp_commitSync {Q : Bool → Machine K V S E → Prop} :
    wp f commitSync Q R C m ↔
      C m ∧ Q true m.sync ∧ (f.noticed → Q false m ∧ Q false m.sync) := Iff.rfl

@[simp] theorem wp_commitLater {Q : Unit → Machine K V S E → Prop} :
    wp f commitLater Q R C m ↔ C m ∧ Q () m.sync ∧ (f.noticed → Q () m) := by
  unfold commitLater
  simp only [wp]
  tauto

end Operations

/-! Replies that are known in part: a script says what the first operations may be answered, and
behind its end anything goes. -/
section Scripts

abbrev Script := List (Reply → Prop)

def Script.permits : Script → Reply → Prop
  | [], _ => True
  | p :: _, r => p r

/-- The replies keep to the script. -/
def Script.Follows : Script → List Reply → Prop
  | [], _ => True
  | p :: ps, [] => p .ok ∧ Follows ps []
  | p :: ps, r :: rs => p r ∧ Follows ps rs

/-- As `wp`, for replies that keep to a script; what is left of it goes on to `Q`. -/
def wps [DecidableEq K] : Prog K V S E ε α → (α → Script → Machine K V S E → Prop) →
    (ε → Machine K V S E → Prop) → Script → Machine K V S E → Prop
  | done a, Q, _, ps, m => Q a ps m
  | fail e, _, R, _, m => R e m
  | look next, Q, R, ps, m => wps (next m.vars m.view) Q R ps m
  | vars g next, Q, R, ps, m => wps next Q R ps (m.setVars (g m.vars))
  | emit e next, Q, R, ps, m => wps next Q R ps (m.record e)
  | put k v next, Q, R, ps, m =>
      (ps.permits .ok → wps (next true) Q R ps.tail (m.write k v)) ∧
      (ps.permits (.refused false) → wps (next false) Q R ps.tail m) ∧
      (ps.permits (.refused true) → wps (next false) Q R ps.tail (m.write k v))
  | write k v next, Q, R, ps, m =>
      (ps.permits .ok ∨ ps.permits (.refused true) → wps next Q R ps.tail (m.write k v)) ∧
      (ps.permits (.refused false) → wps next Q R ps.tail (m.drop k))
  | commit next, Q, R, ps, m =>
      (ps.permits .ok → wps (next true) Q R ps.tail m.sync) ∧
      (ps.permits (.refused false) → wps (next false) Q R ps.tail m) ∧
      (ps.permits (.refused true) → wps (next false) Q R ps.tail m.sync)

variable [DecidableEq K] {Q Q' : α → Script → Machine K V S E → Prop}
  {R R' : ε → Machine K V S E → Prop}

theorem wps_bind (p : Prog K V S E ε α) (g : α → Prog K V S E ε β)
    {Q : β → Script → Machine K V S E → Prop} (ps : Script) (m : Machine K V S E) :
    wps (p.bind g) Q R ps m ↔ wps p (fun a ps' m' => wps (g a) Q R ps' m') R ps m := by
  induction p generalizing ps m with
  | done a => rfl
  | fail e => rfl
  | look next ih => exact ih _ _ ps m
  | vars g next ih => exact ih ps _
  | emit e next ih => exact ih ps _
  | put k v next ih => simp only [Prog.bind, wps, ih]
  | write k v next ih => simp only [Prog.bind, wps, ih]
  | commit next ih => simp only [Prog.bind, wps, ih]

theorem wps_mono {p : Prog K V S E ε α} {ps : Script} {m : Machine K V S E} (h : wps p Q R ps m)
    (hQ : ∀ a ps' m', Q a ps' m' → Q' a ps' m') (hR : ∀ e m', R e m' → R' e m') :
    wps p Q' R' ps m := by
  induction p generalizing ps m with
  | done a => exact hQ _ _ _ h
  | fail e => exact hR _ _ h
  | look next ih => exact ih _ _ h
  | vars g next ih => exact ih h
  | emit e next ih => exact ih h
  | put k v next ih =>
    exact ⟨fun hr => ih _ (h.1 hr), fun hr => ih _ (h.2.1 hr), fun hr => ih _ (h.2.2 hr)⟩
  | write k v next ih => exact ⟨fun hr => ih (h.1 hr), fun hr => ih (h.2 hr)⟩
  | commit next ih =>
    exact ⟨fun hr => ih _ (h.1 hr), fun hr => ih _ (h.2.1 hr), fun hr => ih _ (h.2.2 hr)⟩

theorem wps_of_total {p : Prog K V S E ε α} (hp : Total p) (ps : Script) (m : Machine K V S E) :
    wps p (fun _ _ _ => True) R ps m := by
  induction p generalizing ps m with
  | done a => exact trivial
  | fail e => exact hp.elim
  | look next ih => exact ih _ _ (hp _ _) ps m
  | vars g next ih => exact ih hp ps _
  | emit e next ih => exact ih hp ps _
  | put k v next ih =>
    exact ⟨fun _ => ih _ (hp _) _ _, fun _ => ih _ (hp _) _ _, fun _ => ih _ (hp _) _ _⟩
  | write k v next ih => exact ⟨fun _ => ih hp _ _, fun _ => ih hp _ _⟩
  | commit next ih =>
    exact ⟨fun _ => ih _ (hp _) _ _, fun _ => ih _ (hp _) _ _, fun _ => ih _ (hp _) _ _⟩

theorem Script.Follows.head {ps : Script} {r : Reply} {rs : List Reply} (h : ps.Follows (r :: rs)) :
    ps.permits r ∧ Script.Follows ps.tail rs := by
  cases ps with
  | nil => exact ⟨trivial, trivial⟩
  | cons p ps => exact h

theorem Script.Follows.rest {ps : Script} (h : ps.Follows []) : ps.permits .ok ∧ Script.Follows ps.tail [] := by
  cases ps with
  | nil => exact ⟨trivial, trivial⟩
  | cons p ps => exact h

theorem wps_sound {p : Prog K V S E ε α} {ps : Script} {m : Machine K V S E} (h : wps p Q R ps m)
    {rs : List Reply} (hrs : ps.Follows rs) :
    Ends (fun a n => ∃ ps', Q a ps' n) R (fun _ => True) (exec p m rs) := by
  induction p generalizing ps m rs with
  | done a => exact ⟨ps, h⟩
  | fail e => exact h
  | look next ih => exact ih _ _ h hrs
  | vars g next ih => exact ih h hrs
  | emit e next ih => exact ih h hrs
  | put k v next ih =>
    cases rs with
    | nil => exact ih true (h.1 hrs.rest.1) hrs.rest.2
    | cons r rs =>
      obtain ⟨hr, hrest⟩ := hrs.head
      cases r with
      | ok => exact ih true (h.1 hr) hrest
      | refused happened =>
        cases happened with
        | false => exact ih false (h.2.1 hr) hrest
        | true => exact ih false (h.2.2 hr) hrest
      | powerLoss => exact trivial
  | write k v next ih =>
    cases rs with
    | nil => exact ih (h.1 (.inl hrs.rest.1)) hrs.rest.2
    | cons r rs =>
      obtain ⟨hr, hrest⟩ := hrs.head
      cases r with
      | ok => exact ih (h.1 (.inl hr)) hrest
      | refused happened =>
        cases happened with
        | false => exact ih (h.2 hr) hrest
        | true => exact ih (h.1 (.inr hr)) hrest
      | powerLoss => exact trivial
  | commit next ih =>
    cases rs with
    | nil => exact ih true (h.1 hrs.rest.1) hrs.rest.2
    | cons r rs =>
      obtain ⟨hr, hrest⟩ := hrs.head
      cases r with
      | ok => exact ih true (h.1 hr) hrest
      | refused happened =>
        cases happened with
        | false => exact ih false (h.2.1 hr) hrest
        | true => exact ih false (h.2.2 hr) hrest
      | powerLoss => exact trivial

end Scripts

/-! Executions without any disturbance: what remains of the rules above. -/
section Calm

variable [DecidableEq K] {R R' : ε → Machine K V S E → Prop} {m : Machine K V S E}

/-- The undisturbed execution ends with `Q`, or with an error and `R`. -/
def calm (p : Prog K V S E ε α) (Q : α → Machine K V S E → Prop)
    (R : ε → Machine K V S E → Prop) (m : Machine K V S E) : Prop :=
  Ends Q R (fun _ => False) (exec p m [])

variable {Q Q' : α → Machine K V S E → Prop}

@[simp] theorem calm_bind (p : Prog K V S E ε α) (g : α → Prog K V S E ε β)
    {Q : β → Machine K V S E → Prop} (m : Machine K V S E) :
    calm (p.bind g) Q R m ↔ calm p (fun a m' => calm (g a) Q R m') R m := by
  induction p generalizing m with
  | done a => rfl
  | fail e => rfl
  | look next ih => exact ih _ _ m
  | vars u next ih => exact ih (m.setVars (u m.vars))
  | emit e next ih => exact ih (m.record e)
  | put k v next ih => exact ih true (m.write k v)
  | write k v next ih => exact ih (m.write k v)
  | commit next ih => exact ih true m.sync

theorem calm_mono {p : Prog K V S E ε α} (h : calm p Q R m) (hQ : ∀ a m', Q a m' → Q' a m')
    (hR : ∀ e m', R e m' → R' e m') : calm p Q' R' m := by
  unfold calm Ends at *
  split at h
  · next a ha => simpa only [ha] using hQ _ _ h
  · next e he => simpa only [he] using hR _ _ h
  · exact h.elim

@[simp] theorem calm_done (a : α) : calm (done a) Q R m ↔ Q a m := Iff.rfl

@[simp] theorem calm_fail (e : ε) : calm (fail e) Q R m ↔ R e m := Iff.rfl

@[simp] theorem calm_liftCheck (a : α) : calm (liftCheck (.ok a)) Q R m ↔ Q a m := Iff.rfl

@[simp] theorem calm_consult (g : S → (K → V) → α) :
    calm (consult g) Q R m ↔ Q (g m.vars m.view) m := Iff.rfl

@[simp] theorem calm_setting {Q : Unit → Machine K V S E → Prop} (g : S → S) :
    calm (setting g) Q R m ↔ Q () (m.setVars (g m.vars)) := Iff.rfl

@[simp] theorem calm_event {Q : Unit → Machine K V S E → Prop} (e : E) :
    calm (event e) Q R m ↔ Q () (m.record e) := Iff.rfl

@[simp] theorem calm_putFile {Q : Bool → Machine K V S E → Prop} (k : K) (v : V) :
    calm (putFile k v) Q R m ↔ Q true (m.write k v) := Iff.rfl

@[simp] theorem calm_writeFile {Q : Unit → Machine K V S E → Prop} (k : K) (v : V) :
    calm (writeFile k v) Q R m ↔ Q () (m.write k v) := Iff.rfl

@[simp] theorem calm_commitSync {Q : Bool → Machine K V S E → Prop} :
    calm commitSync Q R m ↔ Q true m.sync := Iff.rfl

@[simp] theorem calm_commitLater {Q : Unit → Machine K V S E → Prop} :
    calm commitLater Q R m ↔ Q () m.sync := Iff.rfl

theorem calm_ok {Q : Unit → Machine K V S E → Prop} {p : Prog K V S E ε Unit}
    (h : calm p Q (fun _ _ => False) m) : (exec p m []).1 = .done () ∧ Q () (exec p m []).2.1 := by
  unfold calm Ends at h
  split at h
  · next ha => exact ⟨ha, h⟩
  · exact h.elim
  · exact h.elim

theorem calm_not_done {p : Prog K V S E ε α} (h : calm p (fun _ _ => False) R m) {a : α} :
    (exec p m []).1 ≠ .done a := by
  intro ha
  unfold calm Ends at h
  rw [ha] at h
  exact h

/-- The undisturbed execution is among those of any statement. -/
theorem calm_of_wp {f : Faults} {C : Machine K V S E → Prop} {p : Prog K V S E ε α}
    (h : wp f p Q R C m) : calm p Q R m := by
  induction p generalizing m with
  | done a => exact h
  | fail e => exact h
  | look next ih => exact ih _ _ h
  | vars u next ih => exact ih (m := m.setVars (u m.vars)) h
  | emit e next ih => exact ih (m := m.record e) h
  | put k v next ih => exact ih true (m := m.write k v) h.2.1
  | write k v next ih => exact ih (m := m.write k v) h.2.1
  | commit next ih => exact ih true (m := m.sync) h.2.1

theorem calm_confined {W : K → V → Prop} {U : S → S → Prop} {I : Machine K V S E → Prop}
    (hwrite : ∀ m k v, W k v → I m → I (m.write k v)) (hsync : ∀ m, I m → I m.sync)
    (hvars : ∀ m s, U m.vars s → I m → I (m.setVars s)) {p : Prog K V S E ε α}
    (hp : Confined W U p) (hm : I m) : calm p (fun _ => I) (fun _ => I) m := by
  induction p generalizing m with
  | done a => exact hm
  | fail e => exact hm
  | look next ih => exact ih _ _ (hp _ _) hm
  | vars u next ih => exact ih hp.2 (hvars m _ (hp.1 _) hm)
  | emit e next ih => exact hp.elim
  | put k v next ih => exact ih true (hp.2 true) (hwrite m k v hp.1 hm)
  | write k v next ih => exact ih hp.2 (hwrite m k v hp.1 hm)
  | commit next ih => exact ih true (hp true) (hsync m hm)

theorem calm_frame {P : K → Prop} {p : Prog K V S E ε α} (h : calm p Q R m) (hp : Touches P p) :
    calm p (fun a n => Q a n ∧ ∀ k, ¬ P k → n.view k = m.view k) R m := by
  unfold calm Ends at *
  split at h
  · exact ⟨h, fun k hk => (hp.frame hk m []).1⟩
  · exact h
  · exact h.elim

end Calm

end CrashProgram
