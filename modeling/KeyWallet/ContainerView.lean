import KeyWallet.ContainerCrash

/-! An update as the running code sees it: what the view holds after the call, whatever the flash
holds. -/
namespace KeyWallet

open CrashProgram

namespace Container

section Update

variable {L : Layout} {id : Nat} {S : Scheme L id} {current : Option (Nat × Manifest)}
  {vals : Values} {ws : List Write} {f : Faults} {m : StoreMachine}

/-- Nothing but manifests and records of the container has changed. -/
def ForeignKept (S : Scheme L id) (before after : Files) : Prop :=
  ∀ k, Foreign L id S.fid k → after k = before k

theorem ForeignKept.write {before after : Files} {k : Nat} {c : Option Content}
    (h : ForeignKept S before after) (hk : ¬ Foreign L id S.fid k) :
    ForeignKept S before (Function.update after k c) := by
  intro j hj
  have hne : j ≠ k := fun he => hk (he ▸ hj)
  rw [Function.update_of_ne hne]
  exact h j hj

theorem manifest_not_foreign {s : Nat} (hs : s < 2) : ¬ Foreign L id S.fid (L.manifestFid id s) :=
  fun h => h.1 s hs rfl

theorem fid_not_foreign {w : Write} {τ : Nat} (hw : Accepted L w) (hτ : τ < 2) :
    ¬ Foreign L id S.fid (fidOf S τ w) :=
  fun h => h.2 w τ hw hτ rfl

theorem foreignKept_of_staged {before after : Files} {τ : Nat} (hws : Writes L ws) (hτ : τ < 2)
    (h : ∀ k, (∀ w ∈ ws, k ≠ fidOf S τ w) → after k = before k) : ForeignKept S before after := by
  intro k hk
  apply h
  intro w hw he
  exact fid_not_foreign (hws.accepted w hw) hτ (he ▸ hk)

theorem Steady.target_new {files : Files} (h : Steady S files current vals) (ws : List Write) :
    files (L.manifestFid id (targetSlotOf current)) ≠
      some (.manifest .primary (nextOf S current ws)) := by
  intro he
  match current, h with
  | none, ⟨habsent, _⟩ =>
    rw [habsent _ (by decide)] at he
    cases he
  | some (σ, c), ⟨_, hs⟩ =>
    rcases hs with hnone | ⟨c', hc', -, hgen⟩
    · rw [show L.manifestFid id (targetSlotOf (some (σ, c))) = L.manifestFid id (1 - σ) from rfl,
        hnone] at he
      cases he
    · -- the manifest in the other slot is older than the current one
      rw [show L.manifestFid id (targetSlotOf (some (σ, c))) = L.manifestFid id (1 - σ) from rfl,
        hc'] at he
      cases he
      exact absurd hgen (Nat.not_lt.mpr (Nat.le_succ _))

/-- After an error the container is as it was, and nothing else has changed, or it is the new one.
Where it is as it was, no manifest has been written. -/
def Undone (S : Scheme L id) (current : Option (Nat × Manifest)) (vals : Values) (ws : List Write)
    (B : Files → Prop) (before after : Files) : Prop :=
  (Steady S after current vals ∧ ForeignKept S before after ∧
    (after (L.manifestFid id (targetSlotOf current)) = none ∨
      after (L.manifestFid id (targetSlotOf current)) =
        before (L.manifestFid id (targetSlotOf current)))) ∨
  (Steady S after (updated S current ws) (putValues vals ws) ∧
    (ForeignKept S before after ∨ B after))

theorem wp_update_view (legacy validated : Bool) (hview : Steady S m.view current vals)
    (hu : Unspent current) (hws : Writes L ws) (hroom : Room S current ws)
    (hapart : Apart S current ws) (hroll : L.rollbackNewRecords = false) {A B : Files → Prop}
    (hactivate : ∀ n : StoreMachine, ForeignKept S m.view n.view →
      wp f (L.activate id) (fun _ n => A n.view) (fun _ n => B n.view) (fun _ => True) n)
    (hretire : ∀ (n : StoreMachine) candidates next, A n.view →
      wp f (L.retire id candidates next (targetSlotOf current)) (fun _ n => A n.view)
        (fun _ _ => True) (fun _ => True) n) :
    wp f (update L id ws legacy validated)
      (fun _ n => Steady S n.view (updated S current ws) (putValues vals ws) ∧ A n.view)
      (fun _ n => Undone S current vals ws B m.view n.view) (fun _ => True) m := by
  have hτ := hview.target
  have hfits : ¬ (ws = [] ∨ manifestMaxObjects < ws.length) := by
    rintro (h | h)
    · exact hws.nonempty h
    · exact absurd hws.count (Nat.not_le.mpr h)
  obtain ⟨candidates, hbase, hcand, hcur⟩ := hview.holds.base legacy validated
  -- an error exit does nothing more
  have hgiveUp : ∀ (ks : List Nat) (e : ObjErr) (n : StoreMachine)
      {Q : Unit → StoreMachine → Prop}, Undone S current vals ws B m.view n.view →
      wp f ((rollback L ks).bind fun _ => Prog.fail e) Q
        (fun _ n => Undone S current vals ws B m.view n.view) (fun _ => True) n := by
    intro ks e n Q hn
    simp only [rollback, hroll, Bool.false_eq_true, if_false, pure_eq, Prog.bind]
    exact hn
  simp only [update, if_neg hfits, bind_eq, wp_bind, wp_consult, hbase, wp_liftCheck,
    hview.nextManifest hu]
  apply wp_writeAll hτ (hview.generations hu) hws hroom
  · exact fun _ _ => trivial
  · simp only [wp_bind, wp_commitSync, Bool.true_eq_false, if_false, if_true]
    set n := (stagedMachine S (targetSlotOf current) (startOf L id current) ws m).sync with hn
    have hnv : n.view = stagedFiles S (targetSlotOf current) (startOf L id current) ws m.view :=
      stagedMachine_view ws
    have hsv : (stagedMachine S (targetSlotOf current) (startOf L id current) ws m).view =
        stagedFiles S (targetSlotOf current) (startOf L id current) ws m.view :=
      stagedMachine_view ws
    have hkept : ForeignKept S m.view
        (stagedFiles S (targetSlotOf current) (startOf L id current) ws m.view) :=
      foreignKept_of_staged hws hτ fun k hk => stagedFiles_other hk
    have hold : Undone S current vals ws B m.view
        (stagedFiles S (targetSlotOf current) (startOf L id current) ws m.view) :=
      .inl ⟨staged_old hview hws hapart, hkept,
        .inr (stagedFiles_other fun w hw => hview.manifest_file hws hw hτ)⟩
    have hman : ¬ Foreign L id S.fid (L.manifestFid id (targetSlotOf current)) :=
      manifest_not_foreign hτ
    have hnew : Steady S (n.write (L.manifestFid id (targetSlotOf current))
        (some (.manifest .primary (nextOf S current ws)))).view
        (updated S current ws) (putValues vals ws) := by
      show Steady S (Function.update n.view _ _) _ _
      rw [hnv]
      exact switched_new hview hu hws hroom
    have hnewKept : ForeignKept S m.view (n.write (L.manifestFid id (targetSlotOf current))
        (some (.manifest .primary (nextOf S current ws)))).view := by
      show ForeignKept S m.view (Function.update n.view _ _)
      rw [hnv]
      exact hkept.write hman
    refine ⟨trivial, ?_, fun hf => ⟨?_, ?_⟩⟩
    · apply wp_writeManifest (hview.nextOf_wf hu hws hroom)
      · exact fun _ _ => trivial
      · -- the manifest is durable: the view and the flash are the same from here
        have hswitched : Switched S (updated S current ws) (putValues vals ws) n.log
            (n.write (L.manifestFid id (targetSlotOf current))
              (some (.manifest .primary (nextOf S current ws)))).sync :=
          ⟨hnew, hnew, rfl⟩
        simp only [wp_bind]
        refine wp_mono (wp_and (wp_activate hswitched) (hactivate _ hnewKept)) ?_ ?_
          (fun _ _ => trivial)
        · rintro _ n' ⟨hn', hA⟩
          have hretired : (candidates (1 - targetSlotOf current)).isSome ∨
              n'.view (L.manifestFid id (1 - targetSlotOf current)) = none := by
            rcases current with _ | ⟨σ, c⟩
            · exact .inr (hn'.1.first_alone rfl)
            · rw [hview.slot_eq, hcur σ c rfl]
              exact .inl rfl
          refine wp_mono (wp_and (wp_retire (R := fun _ _ => False) hn' ?_ hretired)
            (hretire n' candidates (nextOf S current ws) hA)) ?_ ?_ (fun _ _ => trivial)
          · intro s c hs hc o ho
            exact ⟨_, ((hcand s c hs hc).described o ho).recordFid⟩
          · exact fun _ n'' hn'' => ⟨hn''.1.1.1, hn''.2⟩
          · exact fun _ _ hn'' => hn''.1.elim
        · rintro _ n' ⟨⟨-, hn'⟩, hB⟩
          exact .inr ⟨hn'.1, .inr hB⟩
      · intro hf e
        refine ⟨?_, ?_, ?_, ?_⟩
        · exact hgiveUp _ e n (hnv ▸ hold)
        · apply hgiveUp
          show Undone S current vals ws B m.view (Function.update n.view _ _)
          rw [hnv]
          exact .inl ⟨cleared_old hview hws hapart, hkept.write hman,
            .inl (Function.update_self _ _ _)⟩
        · exact hgiveUp _ e _ (.inr ⟨hnew, .inl hnewKept⟩)
        · exact hgiveUp _ e _ (.inr ⟨hnew, .inl hnewKept⟩)
    · rw [← wp_bind]
      exact hgiveUp _ _ _ (hsv ▸ hold)
    · rw [← wp_bind]
      exact hgiveUp _ _ _ (hsv ▸ hold)
  · intro hf e ks n _ hnv _
    apply hgiveUp
    exact .inl ⟨hview.staged hws hapart hnv, foreignKept_of_staged hws hτ hnv,
      .inr (hnv _ fun w hw => hview.manifest_file hws hw hτ)⟩

end Update

end Container

end KeyWallet
