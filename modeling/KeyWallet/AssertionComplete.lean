import KeyWallet.AssertionOwners

/-! When a getAssertion without allowList and the getNextAssertion calls behind it tell every usable credential of the
RP, the newest first. The device does not know which one is the newest: what it records is the time since it was
started. -/
namespace KeyWallet

namespace Cred

namespace Assert

section Statement

variable (made : Data → Nat) (e : Setting) (req : Request)

/-- `made` says when the credential with this id was created. -/
def NewestFirst (creds : List Credential) : Prop :=
  creds.Pairwise fun x y => made (responseId e y true) ≤ made (responseId e x true)

/-- The call answers with the first of these credentials and with their number, the calls behind it with the others,
and then there are no more. -/
structure Tells (order : List Credential) : Prop where
  number : ∃ body, (getAssertion e req).result = .ok body ∧ body.numberOfCredentials = some order.length
  first : ∀ cred, order.head? = some cred →
    AnswersWith req false order.length e cred (getAssertion e req).result
  rest : ∀ es, es.length + 1 = order.length → Continues e.cid e.now es →
    (∀ e' ∈ es, ∀ cred ∈ order, Signs e' req cred) →
    List.Forall₂ (fun p r => AnswersWith req true order.length p.1 p.2 r) (es.zip order.tail)
        (answers (getAssertion e req).walk es).1 ∧
      ∀ e', (getNextAssertion e' (answers (getAssertion e req).walk es).2).result = .error .notAllowed

/-- Each usable credential is told once, the newest first, and nothing is told on another channel, too late or behind
another command. No memory is freed twice on the way. -/
structure WalkComplete : Prop where
  tells : ∃ order, order.Perm (allUsable e req) ∧ NewestFirst made e order ∧ Tells e req order
  once : ¬ FreesTwice e req
  bounded : ∀ (w : Walk) (e' : Setting), w.channel ≠ e'.cid ∨ w.idle e'.now = true →
    (getNextAssertion e' w).result = .error .notAllowed
  ended : ∀ (w : Walk) (e' e'' : Setting),
    (getNextAssertion e'' (cborParse e' w .otherCommand).2).result = .error .notAllowed

/-- The recorded times follow the creations. -/
structure Recorded (creds : List Credential) : Prop where
  order : ∀ newer ∈ creds, ∀ older ∈ creds,
    made (responseId e older true) < made (responseId e newer true) → older.boardCreation ≤ newer.boardCreation
  -- of those that were recorded at one time, the exchanges leave the newer one in front
  ties : (ExchangeSort.sort (·.boardCreation) creds).Pairwise fun x y =>
    x.boardCreation = y.boardCreation → made (responseId e y true) ≤ made (responseId e x true)

/-- There are several usable credentials, all of them within the first that are loaded, and recorded in the order of
their creation. -/
structure WithinReach : Prop where
  several : 2 ≤ (allUsable e req).length
  early : ∀ cred ∈ (allLoadable e req).drop maxCredentialCountInList, admitted (startFlags req) false cred = false
  recorded : Recorded made e (allUsable e req)

end Statement

section Proof

variable {made : Data → Nat} {e : Setting} {req : Request}

theorem allUsable_split : allUsable e req =
    usable e req ++ ((allLoadable e req).drop maxCredentialCountInList).filter (admitted (startFlags req) false) := by
  unfold allUsable usable loadable
  rw [← List.filter_append, List.take_append_drop]

theorem usable_eq_iff : usable e req = allUsable e req ↔
    ∀ cred ∈ (allLoadable e req).drop maxCredentialCountInList, admitted (startFlags req) false cred = false := by
  rw [allUsable_split, List.self_eq_append_right, List.filter_eq_nil_iff]
  simp only [Bool.not_eq_true]

theorem usable_subset {cred : Credential} (h : cred ∈ usable e req) : cred ∈ allUsable e req := by
  rw [allUsable_split]
  exact List.mem_append_left _ h

theorem newestFirst_iff (creds : List Credential) :
    NewestFirst made e (ExchangeSort.sort (·.boardCreation) creds) ↔ Recorded made e creds := by
  have hiff := ExchangeSort.sort_pairwise_iff (·.boardCreation) (fun cred => made (responseId e cred true)) creds
  constructor
  · intro h
    obtain ⟨horder, hties⟩ := hiff.mp h
    exact ⟨horder, hties⟩
  · intro h
    exact hiff.mpr ⟨h.order, h.ties⟩

/-- The order depends only on the ids. -/
theorem newestFirst_map {creds creds' : List Credential}
    (h : creds.map (responseId e · true) = creds'.map (responseId e · true)) :
    NewestFirst made e creds ↔ NewestFirst made e creds' := by
  have hmap : ∀ creds : List Credential, NewestFirst made e creds ↔
      (creds.map (responseId e · true)).Pairwise fun x y => made y ≤ made x := by
    intro creds
    rw [List.pairwise_map]
    exact Iff.rfl
  rw [hmap, hmap, h]

/-- Calls at the time of the first one. -/
theorem continues_replicate (cid now : BitVec 32) (e : Setting) (hcid : e.cid = cid) (hnow : e.now = now) (n : Nat) :
    Continues cid now (List.replicate n e) := by
  induction n with
  | zero => trivial
  | succ n ih =>
    refine ⟨hcid, ?_, ?_⟩
    · rw [hnow]
      unfold Mgmt.idle
      rw [BitVec.sub_self]
      decide
    · rw [hnow]
      exact ih

/-- The same answers name the same ids. -/
theorem answered_ids {number number' : Nat} {next : Bool} :
    ∀ {creds creds' : List Credential} {results : List (Except Status Body)}, creds.length = creds'.length →
      List.Forall₂ (fun p r => AnswersWith req next number p.1 p.2 r) ((List.replicate creds.length e).zip creds)
        results →
      List.Forall₂ (fun p r => AnswersWith req next number' p.1 p.2 r) ((List.replicate creds.length e).zip creds')
        results →
      creds.map (responseId e · true) = creds'.map (responseId e · true) := by
  intro creds
  induction creds with
  | nil =>
    intro creds' results hlength _ _
    rw [List.length_eq_zero_iff.mp hlength.symm]
  | cons cred creds ih =>
    intro creds' results hlength h h'
    cases creds' with
    | nil => cases hlength
    | cons cred' creds' =>
      rw [List.length_cons, List.replicate_succ, List.zip_cons_cons] at h h'
      cases h with
      | cons hfirst hrest =>
        cases h' with
        | cons hfirst' hrest' =>
          obtain ⟨body, hok, -, hid⟩ := hfirst
          obtain ⟨body', hok', -, hid'⟩ := hfirst'
          have hsame : body = body' := Except.ok.inj (hok.symm.trans hok')
          subst hsame
          have htail := ih (Nat.succ.inj hlength) hrest hrest'
          rw [List.map_cons, List.map_cons, htail, ← hid, ← hid']

theorem getAssertion_number (hlist : req.allowList = []) (hg : Granted e req)
    (hsigns : ∀ cred ∈ allUsable e req, Signs e req cred) {body : Body} {n : Nat}
    (hok : (getAssertion e req).result = .ok body) (hnumber : body.numberOfCredentials = some n) :
    1 < (walkOrder e req).length ∧ n = (walkOrder e req).length := by
  cases horder : walkOrder e req with
  | nil =>
    rw [getAssertion_resident hlist hg, horder] at hok
    cases hok
  | cons first rest =>
    have hanswer := (getAssertion_first hlist hg (fun cred h => hsigns cred (usable_subset h)) horder).1
    obtain ⟨body', hok', hrespond, -⟩ := hanswer
    have hsame : body = body' := Except.ok.inj (hok.symm.trans hok')
    subst hsame
    rw [(respond_fields hrespond).2, totalOf] at hnumber
    rw [← horder]
    by_cases hmany : 1 < (walkOrder e req).length
    · rw [if_pos ⟨hmany, rfl, .inr (by rw [hlist]; exact Nat.zero_le 1)⟩] at hnumber
      exact ⟨hmany, (Option.some.inj hnumber).symm⟩
    · rw [if_neg (fun h => hmany h.1)] at hnumber
      cases hnumber

/-- The walk over the credentials that the call has selected. -/
theorem walk_told (hlist : req.allowList = []) (hg : Granted e req) (hsigns : ∀ cred ∈ usable e req, Signs e req cred)
    (hmany : 1 < (walkOrder e req).length) : Tells e req (walkOrder e req) := by
  obtain ⟨first, rest, horder⟩ := List.exists_cons_of_length_pos (Nat.zero_lt_of_lt hmany)
  obtain ⟨hanswer, hwalk⟩ := getAssertion_first hlist hg hsigns horder
  rw [if_pos hmany] at hwalk
  constructor
  · obtain ⟨body, hok, hrespond, -⟩ := hanswer
    refine ⟨body, hok, ?_⟩
    rw [(respond_fields hrespond).2, totalOf, if_pos ⟨hmany, rfl, .inr (by rw [hlist]; exact Nat.zero_le 1)⟩]
  · intro cred hcred
    rw [horder] at hcred
    cases hcred
    exact hanswer
  · intro es hlength hcont hes
    obtain ⟨hanswers, hend⟩ := answers_walkAt hg.precheck es 1 e.now hmany (by omega) hcont hes
    rw [List.drop_one] at hanswers
    rw [hwalk]
    refine ⟨hanswers, fun e' => ?_⟩
    rw [hend, getNextAssertion_reset]

theorem not_freesTwice (hlist : req.allowList = []) (hg : Granted e req)
    (hsigns : ∀ cred ∈ usable e req, Signs e req cred) (hmany : 1 < (walkOrder e req).length) : ¬ FreesTwice e req := by
  rw [freesTwice_iff]
  rintro ⟨-, l, hlocate, hnot, -⟩
  obtain ⟨first, rest, horder⟩ := List.exists_cons_of_length_pos (Nat.zero_lt_of_lt hmany)
  have hwalk := (getAssertion_first hlist hg hsigns horder).2
  rw [if_pos hmany] at hwalk
  -- the call has begun a walk
  have hcreds : (getAssertion e req).walk.creds ≠ [] := by
    rw [hwalk]
    dsimp only [walkAt, beginWalk]
    rw [List.take_length, horder]
    exact List.cons_ne_nil _ _
  rcases getAssertion_walk_creds hg.checks hlocate with ⟨hnil, -⟩ | ⟨hasserted, -⟩
  · exact hcreds hnil
  · rw [hnot] at hasserted
    cases hasserted

theorem WithinReach.complete (h : WithinReach made e req) (hlist : req.allowList = []) (hg : Granted e req)
    (hsigns : ∀ cred ∈ allUsable e req, Signs e req cred) : WalkComplete made e req := by
  have husable := usable_eq_iff.mpr h.early
  have horder : walkOrder e req = ExchangeSort.sort (·.boardCreation) (allUsable e req) := by
    rw [← husable]
    rfl
  have hmany : 1 < (walkOrder e req).length := by
    rw [horder, ExchangeSort.sort_length]
    exact h.several
  have hsigns' : ∀ cred ∈ usable e req, Signs e req cred := fun cred hcred => hsigns cred (usable_subset hcred)
  constructor
  · refine ⟨walkOrder e req, ?_, ?_, walk_told hlist hg hsigns' hmany⟩
    · rw [horder]
      exact ExchangeSort.sort_perm _ _
    · rw [horder]
      exact (newestFirst_iff _).mpr h.recorded
  · exact not_freesTwice hlist hg hsigns' hmany
  · intro w e' hw
    rw [getNextAssertion_refused (hw.imp_right .inr)]
  · intro w e' e''
    dsimp only [cborParse]
    rw [getNextAssertion_reset]

theorem WalkComplete.withinReach (h : WalkComplete made e req) (hlist : req.allowList = []) (hg : Granted e req)
    (hsigns : ∀ cred ∈ allUsable e req, Signs e req cred) : WithinReach made e req := by
  obtain ⟨order, hperm, hnewest, htells⟩ := h.tells
  obtain ⟨body, hok, hnumber⟩ := htells.number
  obtain ⟨hmany, hlength⟩ := getAssertion_number hlist hg hsigns hok hnumber
  have hsigns' : ∀ cred ∈ usable e req, Signs e req cred := fun cred hcred => hsigns cred (usable_subset hcred)
  -- the number is that of all usable credentials, so none was left out
  have husable : usable e req = allUsable e req := by
    rw [hperm.length_eq, walkOrder_length] at hlength
    refine List.IsPrefix.eq_of_length ?_ hlength.symm
    rw [allUsable_split]
    exact List.prefix_append _ _
  have horder : walkOrder e req = ExchangeSort.sort (·.boardCreation) (allUsable e req) := by
    rw [← husable]
    rfl
  -- and the ids that are told are in the order of the walk
  have htold := walk_told hlist hg hsigns' hmany
  have hids : order.map (responseId e · true) = (walkOrder e req).map (responseId e · true) := by
    obtain ⟨first, rest, hsorted⟩ := List.exists_cons_of_length_pos (Nat.zero_lt_of_lt hmany)
    rw [hsorted] at htold hlength ⊢
    cases order with
    | nil => cases hlength
    | cons first' rest' =>
      have hrest : rest'.length = rest.length := Nat.succ.inj hlength
      have hcont := continues_replicate e.cid e.now e rfl rfl rest.length
      have hsame : ∀ e' ∈ List.replicate rest.length e, ∀ cred ∈ allUsable e req, Signs e' req cred := by
        intro e' he'
        rw [List.eq_of_mem_replicate he']
        exact hsigns
      have hsorted' : ∀ cred ∈ first :: rest, cred ∈ allUsable e req := by
        rw [← hsorted, horder]
        exact fun cred hcred => (ExchangeSort.sort_perm _ _).subset hcred
      have hbehind := (htells.rest (List.replicate rest.length e) (by simp [hrest]) hcont
        fun e' he' cred hcred => hsame e' he' cred (hperm.subset hcred)).1
      have hbehind' := (htold.rest (List.replicate rest.length e) (by simp) hcont
        fun e' he' cred hcred => hsame e' he' cred (hsorted' cred hcred)).1
      obtain ⟨body₁, hok₁, -, hid₁⟩ := htells.first first' rfl
      obtain ⟨body₂, hok₂, -, hid₂⟩ := htold.first first rfl
      have hbody : body₁ = body₂ := Except.ok.inj (hok₁.symm.trans hok₂)
      subst hbody
      rw [← hrest] at hbehind hbehind'
      have htail := answered_ids hrest hbehind hbehind'
      rw [List.map_cons, List.map_cons, htail, ← hid₁, ← hid₂]
  constructor
  · rw [← husable, ← walkOrder_length]
    exact hmany
  · exact usable_eq_iff.mp husable
  · rw [← newestFirst_iff, ← horder]
    exact (newestFirst_map hids).mp hnewest

end Proof

/-! On a device where the record of a credential tells its slot as its time. -/

/-- The credentials were created in the order of the slots. -/
def madeInOrder (id : Data) : Nat := (id.getD 0 0).toNat

/-- The device was restarted before the credential of slot 0 was created. -/
def madeAfterRestart (id : Data) : Nat := 255 - (id.getD 0 0).toNat

theorem recordSetting_all_sign (n : Nat)
    (h : ∀ cred ∈ allUsable (recordSetting n) plainRequest, cred.curve = 1 ∧ cred.privateKey = none) :
    ∀ cred ∈ allUsable (recordSetting n) plainRequest, Signs (recordSetting n) plainRequest cred :=
  fun cred hcred => recordSetting_signs n (h cred hcred).1 (h cred hcred).2

end Assert

end Cred

end KeyWallet
