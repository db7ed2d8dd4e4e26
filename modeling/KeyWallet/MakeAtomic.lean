import KeyWallet.MakeCredential
import KeyWallet.CredAccounts

/-! What a makeCredential leaves in the slots, beside what the host is told about it. -/
namespace KeyWallet.Cred

open CrashProgram

namespace Account

open Container (StoreMachine)
open Container.Resident (Call layout)

section Failed

variable {k : Maker} {T : SlotIndex → Option (Tenant k)} {disk : Disk} {req : Request}

theorem storeContainer_unplaced {i j : SlotIndex} (hne : j ≠ i) (m : StoreMachine) (rs : List Reply) :
    ¬ Placed j m.view (exec (storeContainer k i req) m rs).2.1.view := by
  apply not_placed
  intro s _
  right
  apply ((storeContainer_touches k i req).frame _ m rs).1
  exact fun hn => hne (Fin.ext (Container.Resident.Own.unique j.isLt i.isLt
    (Container.Resident.manifest_own j.val s) hn))

/-- A credential_store that fails has changed nothing, or the credential is in its slot, where a
manifest has been written. -/
theorem Lodging.store_failed (h : Lodging k disk.machine.view T) (rs : Powered)
    (hfail : (credentialStore k disk req rs.1).1 = false) :
    ((∀ j, slotAt k (credentialStore k disk req rs.1).2 j = slotAt k disk j) ∧
      ∀ j, ¬ Placed j disk.machine.view (credentialStore k disk req rs.1).2.machine.view) ∨
    ∃ i s, slotAt k (credentialStore k disk req rs.1).2 i = some s ∧
      s.objects.credential = .ok req.credId.1 ∧
      Placed i disk.machine.view (credentialStore k disk req rs.1).2.machine.view := by
  have hidle : ((∀ j, slotAt k disk j = slotAt k disk j) ∧
      ∀ j, ¬ Placed j disk.machine.view disk.machine.view) :=
    ⟨fun _ => rfl, fun _ => not_placed fun _ _ => .inr rfl⟩
  unfold credentialStore at hfail ⊢
  by_cases hkey : req.publicKey.1 = []
  · rw [if_pos hkey]
    exact .inl hidle
  rw [if_neg hkey] at hfail ⊢
  cases hload : k.device.load req.credId.1 req.rpIdHash.1 with
  | none => exact .inl hidle
  | some cred =>
  rw [hload] at hfail
  dsimp only at hfail ⊢
  have hcontainer : (chooseSlot k disk req.now req.rpIdHash.1 (cred.userId.getD []) (List.finRange 256) none).2 =
      true := by
    rcases chooseSlot_cases h.housed req.now req.rpIdHash.1 (cred.userId.getD []) (List.finRange 256) none with
      ⟨i, t, -, -, -, hr⟩ | ⟨-, r, hr, -⟩ <;> rw [hr]
  cases hchoice : chooseSlot k disk req.now req.rpIdHash.1 (cred.userId.getD []) (List.finRange 256) none with
  | mk chosen container =>
  rw [hchoice] at hcontainer hfail
  obtain rfl : container = true := hcontainer
  cases chosen with
  | none => exact .inl hidle
  | some i =>
  dsimp only at hfail ⊢
  have hends := wp_sound ((h.housed i).wp_store hload) trivial rs.1 (.inl trivial)
  unfold Ends at hends
  cases hout : (exec (storeContainer k i req) disk.machine rs.1).1 with
  | done a =>
    rw [hout, decide_eq_true rfl] at hfail
    cases hfail
  | lost => exact absurd hout (exec_ne_lost _ _ rs.2)
  | fail e =>
    rw [hout] at hends
    rcases hends with ⟨hsame, hfree⟩ | ⟨hnew, hplaced⟩
    · refine .inl ⟨fun j => ?_, fun j => ?_⟩
      · by_cases hj : j = i
        · subst hj
          rw [Housed.slotAt_eq (h.housed j), Housed.slotAt_eq (t := T j) hsame]
        · rw [Housed.slotAt_eq (h.housed j), Housed.slotAt_eq (t := T j)
            ((h.housed j).other hj (storeContainer_touches k i req) rs.1)]
      · by_cases hj : j = i
        · rw [hj]
          exact hfree
        · exact storeContainer_unplaced hj _ _
    · refine .inr ⟨i, (req.tenant hload).slot i, ?_, rfl, hplaced⟩
      rw [Housed.slotAt_eq (t := some (req.tenant hload)) hnew]
      rfl

/-- After credential_store has succeeded, the credential is in a slot. -/
theorem Lodging.store_held (h : Lodging k disk.machine.view T) (rs : Powered)
    (hok : (credentialStore k disk req rs.1).1 = true) :
    ∃ i s, slotAt k (credentialStore k disk req rs.1).2 i = some s ∧ s.objects.credential = .ok req.credId.1 := by
  cases hload : k.device.load req.credId.1 req.rpIdHash.1 with
  | none =>
    unfold credentialStore at hok
    rw [hload] at hok
    split_ifs at hok
  | some cred =>
    rcases h.store hload rs with ⟨-, hfailed⟩ | ⟨i, hnew, -⟩
    · exact absurd (hfailed.symm.trans hok) Bool.false_ne_true
    · refine ⟨i, (req.tenant hload).slot i, ?_, rfl⟩
      rw [(hnew.housed i).slotAt_eq, Function.update_self]
      rfl

end Failed

end Account

namespace Make

open Container.Resident (Blob)

/-- What the host is told. -/
inductive Told
  | ok (body : Body)
  | error (status : Status)
  | keepaliveCancel

/-- The end of cbor_thread: a request of CTAPHID_CBOR that finds the flag of a cancel set is told so. The
other transport has no such flag. -/
def told (hid cancelButton : Bool) (o : Outcome) : Told :=
  if hid && cancelButton then .keepaliveCancel
  else
    match o.result with
    | .ok body => .ok body
    | .error status => .error status

section Atomic

variable (hid cancelButton : Bool) (e : Setting) (req : Request)

/-- A request that is not reported as a success leaves every slot as it was. -/
def Keeps : Prop :=
  (∀ body, told hid cancelButton (makeCredential e req) ≠ .ok body) →
    ∀ i, Account.slotAt e.maker (makeCredential e req).disk i = Account.slotAt e.maker e.disk i

/-- A resident credential has been stored when the cancel is found. -/
def StoredAndCancelled : Prop :=
  hid = true ∧ cancelButton = true ∧ req.rk = some true ∧ ∃ credId made, Completes e req credId made

/-- The storage refuses a write or a commit of credential_store when a manifest of the new credential
and the file of its slot are written. -/
def StoredAndRefused : Prop :=
  req.rk = some true ∧ e.counterWritten = true ∧ ∃ credId made, Ready e req credId made ∧
    (stored e req made).1 = false ∧
    ∃ i, Account.Placed i e.disk.machine.view (stored e req made).2.machine.view

/-- The new id is that of no credential that is stored. -/
def Fresh : Prop :=
  ∀ credId, credentialCreate e req = some credId → ∀ i s, Account.slotAt e.maker e.disk i = some s →
    s.objects.credential ≠ .ok credId.1

end Atomic

section Disk

variable {hid cancelButton : Bool} {e : Setting} {req : Request} {T : SlotIndex → Option (Account.Tenant e.maker)}

theorem told_not_ok {o : Outcome} (h : ∀ body, told hid cancelButton o ≠ .ok body) :
    (hid = true ∧ cancelButton = true) ∨ ∃ status, o.result = .error status := by
  by_cases hcancel : (hid && cancelButton) = true
  · exact .inl (Bool.and_eq_true_iff.mp hcancel)
  cases hresult : o.result with
  | error status => exact .inr ⟨status, rfl⟩
  | ok body =>
    refine absurd ?_ (h body)
    unfold told
    rw [if_neg hcancel, hresult]

theorem Ready.made_eq {credId credId' : Container.Resident.Blob} {made made' : Made}
    (h : Ready e req credId made) (h' : Ready e req credId' made') : made' = made := by
  have hid : credId' = credId := Option.some.inj (h'.created.symm.trans h.created)
  subst hid
  exact Except.ok.inj (h'.finished.symm.trans h.finished)

theorem Ready.sameId {credId : Container.Resident.Blob} {made : Made} (h : Ready e req credId made) :
    made.credId = credId := by
  obtain ⟨p, hp⟩ := finish_ok h.finished
  exact hp.sameId

theorem StoredAndCancelled.not_keeps (hlost : StoredAndCancelled hid cancelButton e req)
    (h : Account.Lodging e.maker e.disk.machine.view T) (hpower : .powerLoss ∉ e.replies)
    (hfresh : Fresh e req) : ¬ Keeps hid cancelButton e req := by
  obtain ⟨rfl, rfl, hrk, credId, made, hmade⟩ := hlost
  intro hkeeps
  have hsame := hkeeps fun body hbody => Told.noConfusion hbody
  rw [hmade.toReady.eq_store, store_resident hmade.counted hrk] at hsame
  -- the slot that holds the new id did not hold it before
  obtain ⟨i, s, hslot, hid⟩ := h.store_held ⟨e.replies, hpower⟩ (hmade.kept hrk)
  have hbefore : Account.slotAt e.maker e.disk i = some s := (hsame i).symm.trans hslot
  have hnew : s.objects.credential = .ok credId.1 := by
    rw [hid]
    show Except.ok made.credId.1 = _
    rw [hmade.sameId]
  exact hfresh credId hmade.created i s hbefore hnew

theorem StoredAndRefused.not_keeps (hlost : StoredAndRefused e req)
    (h : Account.Lodging e.maker e.disk.machine.view T) (hpower : .powerLoss ∉ e.replies)
    (hfresh : Fresh e req) : ¬ Keeps hid cancelButton e req := by
  obtain ⟨hrk, hcount, credId, made, hready, hfail, j, hplaced⟩ := hlost
  intro hkeeps
  have hresult : makeCredential e req = ⟨.error .keyStoreFull, (boundPin e req).used,
      (stored e req made).2, e.counter + 1, asksPresence e req⟩ := by
    rw [hready.eq_store, store_resident hcount hrk, hfail]
    rfl
  have hsame := hkeeps fun body hbody => by
    rw [hresult] at hbody
    unfold told at hbody
    split_ifs at hbody
  rw [hresult] at hsame
  rcases h.store_failed ⟨e.replies, hpower⟩ hfail with ⟨-, hfree⟩ | ⟨i, s, hslot, hcred, -⟩
  · exact hfree j hplaced
  · have hbefore : Account.slotAt e.maker e.disk i = some s := (hsame i).symm.trans hslot
    have hnew : s.objects.credential = .ok made.credId.1 := hcred
    rw [hready.sameId] at hnew
    exact hfresh credId hready.created i s hbefore hnew

theorem keeps_of_not_stored (h : Account.Lodging e.maker e.disk.machine.view T)
    (hpower : .powerLoss ∉ e.replies) (hcancelled : ¬ StoredAndCancelled hid cancelButton e req)
    (hrefused : ¬ StoredAndRefused e req) : Keeps hid cancelButton e req := by
  intro hfail i
  rcases @makeCredential_cases e req with ⟨credId, made, hready, hstore⟩ | ⟨_, _, _, herror, -⟩
  · rw [hstore] at hfail ⊢
    cases hcount : e.counterWritten with
    | false => rw [store_uncounted hcount]
    | true =>
    by_cases hrk : req.rk = some true
    · rw [store_resident hcount hrk] at hfail ⊢
      cases hstored : (stored e req made).1 with
      | true =>
        -- a credential that was stored is reported, or the cancel was found
        rcases told_not_ok hfail with ⟨hhid, hcancel⟩ | ⟨status, hstatus⟩
        · exact absurd ⟨hhid, hcancel, hrk, credId, made, hready, hcount, fun _ => hstored⟩ hcancelled
        · rw [if_pos hstored] at hstatus
          cases hstatus
      | false =>
        rcases h.store_failed ⟨e.replies, hpower⟩ hstored with ⟨hsame, -⟩ | ⟨j, -, -, -, hplaced⟩
        · exact hsame i
        · exact absurd ⟨hrk, hcount, credId, made, hready, hstored, j, hplaced⟩ hrefused
    · rw [store_plain hcount hrk]
  · rw [herror]

end Disk

/-- A device with a credential of a user. -/
def storedOps : List Account.Op := [.store (Account.sampleRequest 1 7) ⟨[], by decide⟩]

/-- A request of a resident credential for the same user. -/
def replacingSetting : Setting :=
  plainSetting Account.sampleMaker (Account.run Account.sampleMaker Account.sampleDisk storedOps)
    (Account.sampleRequest 1 9).credId (Account.sampleRequest 1 9).publicKey

def residentRequest : Request := plainRequest (some { rk := some true })

theorem replacingSetting_maker : replacingSetting.maker = Account.sampleMaker := by
  unfold replacingSetting plainSetting
  rfl

theorem replacingSetting_disk :
    replacingSetting.disk = Account.run Account.sampleMaker Account.sampleDisk storedOps := by
  simp only [replacingSetting, plainSetting]

theorem replacing_fresh : Fresh replacingSetting residentRequest := by
  have hnone : ((List.finRange 256).all fun i =>
      (Account.slotAt replacingSetting.maker replacingSetting.disk i).all
        fun s => s.objects.credential.toOption != some [1, 9]) = true := by
    decide +kernel
  intro credId hcreate i s hslot hheld
  have hid : credId = (Account.sampleRequest 1 9).credId := (Option.some.inj hcreate).symm
  have hother := List.all_eq_true.mp hnone i (List.mem_finRange i)
  rw [hslot, Option.all_some, hheld, hid] at hother
  exact absurd hother (by decide)

theorem replacing_completes : ∃ credId made, Completes replacingSetting residentRequest credId made := by
  have hresult : (makeCredential replacingSetting residentRequest).result.toOption.isSome = true := by
    decide +kernel
  cases hres : (makeCredential replacingSetting residentRequest).result with
  | error status =>
    rw [hres] at hresult
    cases hresult
  | ok body =>
    obtain ⟨credId, made, hmade, -⟩ := makeCredential_ok hres
    exact ⟨credId, made, hmade⟩

theorem sampleDisk_empty : Account.Empty Account.sampleDisk.machine.view := fun _ => ⟨rfl, fun _ _ => rfl⟩

/-- The storage refuses the commit behind the new manifest. -/
def refusingSetting : Setting :=
  { replacingSetting with replies := List.replicate 8 .ok ++ [.refused false] }

end Make

end KeyWallet.Cred
