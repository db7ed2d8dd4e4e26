import KeyWallet.OathAccess

/-! What holds of every sequence of OATH commands that follows a SELECT: who may use the
credentials, and what a command that fails leaves of the access code and the PIN. -/
namespace KeyWallet

open StepSystem (run Along)

namespace Oath

section Records

variable {C : Type} (P : Provider C)

/-- The tries that are left. -/
def tries (f : Ef) : BitVec 8 := (f.getD []).getD 0 0

/-- The stored PIN is `pw`. -/
def accepts (f : Ef) (pw : Data) : Bool := f.any fun record => pinMatches P record pw

/-- The command presents the stored PIN. -/
def presents (f : Ef) (a : Apdu) : Bool := (a.field tagPassword).any fun pw => accepts P f pw

theorem presents_iff {f : Ef} {a : Apdu} :
    presents P f a = true ↔ ∃ pw, a.field tagPassword = some pw ∧ accepts P f pw = true := by
  simp only [presents, Option.any_eq_true]

/-- Either nothing has changed or one try has been spent. -/
def Spent (f f' : Ef) : Prop :=
  f' = f ∨ ∃ c t, f = some (c :: t) ∧ c ≠ 0 ∧ f' = some ((c - 1) :: t)

theorem pinMatches_cons (c c' : BitVec 8) (t pw : Data) :
    pinMatches P (c :: t) pw = pinMatches P (c' :: t) pw := by
  simp only [pinMatches, List.length_cons, List.getD_cons_succ, List.drop_succ_cons]

theorem accepts_spent {f f' : Ef} (h : Spent f f') (pw : Data) :
    accepts P f' pw = accepts P f pw := by
  rcases h with rfl | ⟨c, t, rfl, -, rfl⟩
  · rfl
  · exact pinMatches_cons P _ _ t pw

theorem presents_spent {f f' : Ef} (h : Spent f f') (a : Apdu) :
    presents P f' a = presents P f a := by
  unfold presents
  cases a.field tagPassword with
  | none => rfl
  | some pw => exact accepts_spent P h pw

theorem hasData_spent {f f' : Ef} (h : Spent f f') : Ef.hasData f' = Ef.hasData f := by
  rcases h with rfl | ⟨c, t, rfl, -, rfl⟩
  · rfl
  · rfl

theorem tries_spent {f f' : Ef} (h : Spent f f') : tries f' ≤ tries f := by
  rcases h with rfl | ⟨c, t, rfl, hc, rfl⟩
  · exact BitVec.le_refl _
  · change c - 1 ≤ c
    bv_omega

theorem accepts_record (pw newPw : Data) :
    accepts P (some (pinRecordV1 P newPw)) pw = decide (P.verifier newPw = P.verifier pw) := by
  simp [accepts, pinMatches, pinRecordV1, P.verifier_length, otpPinV1Size]

theorem hasData_of_accepts {f : Ef} {pw : Data} (h : accepts P f pw = true) :
    Ef.hasData f = true := by
  cases f with
  | none => exact absurd h (by simp [accepts])
  | some record =>
    cases record with
    | nil => exact absurd h (by simp [accepts, pinMatches, otpPinV1Size, otpPinLegacySize])
    | cons c t => rfl

/-- What oath_check_pin finds and leaves. -/
theorem checkPin_spec (e : Env) (f : Ef) (pw : Data) :
    Spent f (checkPin P e f pw).2 ∧
    ((checkPin P e f pw).1 = .match → accepts P f pw = true ∧ tries f ≠ 0 ∧ e.retry = .ok) := by
  unfold checkPin
  cases f with
  | none => exact ⟨.inl rfl, nofun⟩
  | some record =>
    dsimp only
    by_cases husable : pinUsable (some record) = false
    · rw [if_pos husable]
      exact ⟨.inl rfl, nofun⟩
    rw [if_neg husable]
    by_cases hzero : record.getD 0 0 = 0
    · rw [if_pos hzero]
      exact ⟨.inl rfl, nofun⟩
    rw [if_neg hzero]
    cases record with
    | nil => exact absurd rfl hzero
    | cons c t =>
      have hspent : Spent (some (c :: t)) (some ((c - 1) :: t)) := .inr ⟨c, t, rfl, hzero, rfl⟩
      cases hretry : e.retry with
      | ok =>
        refine ⟨hspent, fun hmatch => ⟨?_, hzero, rfl⟩⟩
        have hfound : pinMatches P ((c - 1) :: t) pw = true := by
          by_contra hne
          have hmismatch : (if pinMatches P ((c - 1) :: t) pw = true then Match.match
              else Match.mismatch) = .match := hmatch
          rw [if_neg hne] at hmismatch
          exact absurd hmismatch nofun
        exact (pinMatches_cons P c (c - 1) t pw).trans hfound
      | failed left =>
        refine ⟨?_, nofun⟩
        cases left with
        | written => exact hspent
        | same => exact .inl rfl
        | emptied => exact .inl rfl
        | gone => exact .inl rfl

end Records

section Steps

variable {C : Type} (P : Provider C)

/-- The host has shown in this command that it may use the credentials. -/
def Shown (s : State C) (a : Apdu) : Prop :=
  (a.ins = .validate ∧ ∃ md key, accessCode P s.code = some (md, key) ∧
    a.field tagResponse = some (P.hmac md key s.challenge)) ∨
  (a.ins = .verifyPin ∧ presents P s.pin a = true) ∨
  a.ins = .reset

/-- The PIN is gone, or is another one, or has tries it had not. -/
def PinWeaker (f f' : Ef) (a : Apdu) : Prop :=
  Ef.hasData f' = false ∨
  (presents P f a = false ∧
    (tries f < tries f' ∨ ∃ pw, accepts P f pw = true ∧ accepts P f' pw = false)) ∨
  (presents P f a = true ∧ presents P f' a = false)

/-- The command has removed or weakened a stored secret. -/
def Weakens (s s' : State C) (a : Apdu) : Prop :=
  (Ef.hasData s.code = true ∧ s'.code ≠ s.code) ∨
  (Ef.hasData s.pin = true ∧ PinWeaker P s.pin s'.pin a)

/-- SET CODE with an empty key, or with no data at all. -/
def removesCode (a : Apdu) : Bool := a.nc = 0 || a.field tagKey = some []

/-- SET CODE with a key and a response that fits it. -/
def storesCode (a : Apdu) : Bool :=
  match a.field tagKey, a.field tagChallenge, a.field tagResponse with
  | some key, some chal, some resp =>
    a.nc ≠ 0 && (1 < key.length && key.length ≤ accessCodeMaxLen) &&
      (mdInfo (key.getD 0 0)).any fun md => resp = P.hmac md (key.drop 1) chal
  | _, _, _ => false

/-- CHANGE PIN with the stored PIN and another one. -/
def changesPin (f : Ef) (a : Apdu) : Bool :=
  tries f ≠ 0 && (a.field tagPassword).any fun pw => accepts P f pw &&
    (a.field tagNewPassword).any fun newPw => P.verifier newPw ≠ P.verifier pw

/-- The step stays clear of the branches that go wrong: a VALIDATE when there is no access code to
validate against, and a storage failure that has already changed a secret. -/
def Clean (s : State C) (i : Apdu × Env) : Prop :=
  match i.1.ins with
  | .validate =>
    (i.1.field tagChallenge).isSome = true → (i.1.field tagResponse).isSome = true →
      Ef.hasData s.code = true ∨ s.validated = true
  | .setCode =>
    s.validated = true →
      (removesCode i.1 = true → Ef.hasData s.code = true →
        i.2.delete = .ok ∨ i.2.delete = .failed .same) ∧
      (storesCode P i.1 = true → Ef.hasData s.pin = true →
        i.2.clear = .failed .same ∨ i.2.clear = .ok ∧ i.2.fileNew = true ∧ i.2.put = .ok) ∧
      (storesCode P i.1 = true → Ef.hasData s.pin = false → Ef.hasData s.code = true →
        i.2.fileNew = true → i.2.put ≠ .failed .written)
  | .changePin => changesPin P s.pin i.1 = true → i.2.retry = .ok → i.2.put ≠ .failed .written
  | _ => True

/-- The flag is raised by those who have shown that they may, and a command that fails weakens
nothing. -/
def Lawful (s : State C) (a : Apdu) (r : Sw × State C) : Prop :=
  (r.2.validated = true → s.validated = true ∨ r.1 = .ok ∧ Shown P s a) ∧
  (r.1.success = false → ¬ Weakens P s r.2 a)

theorem pinWeaker_spent {f f' : Ef} (h : Spent f f') (hdata : Ef.hasData f = true) (a : Apdu) :
    ¬ PinWeaker P f f' a := by
  rintro (hgone | ⟨-, hgrew | ⟨pw, hold, hnew⟩⟩ | ⟨hold, hnew⟩)
  · rw [hasData_spent h, hdata] at hgone
    exact absurd hgone nofun
  · exact absurd (tries_spent h) (BitVec.not_le.mpr hgrew)
  · rw [accepts_spent P h, hold] at hnew
    exact absurd hnew nofun
  · rw [presents_spent P h, hold] at hnew
    exact absurd hnew nofun

theorem pinWeaker_presented {f f' : Ef} {a : Apdu} (hold : presents P f a = true)
    (hnew : presents P f' a = true) : ¬ PinWeaker P f f' a := by
  rintro (hgone | ⟨hnot, -⟩ | ⟨-, hnot⟩)
  · obtain ⟨pw, -, hpw⟩ := (presents_iff P).mp hnew
    rw [hasData_of_accepts P hpw] at hgone
    exact absurd hgone nofun
  · rw [hold] at hnot
    exact absurd hnot nofun
  · rw [hnew] at hnot
    exact absurd hnot nofun

theorem lawful_spent {s : State C} {a : Apdu} {r : Sw × State C}
    (hcode : r.2.code = s.code) (hpin : Spent s.pin r.2.pin)
    (hflag : r.2.validated = true → s.validated = true) : Lawful P s a r := by
  refine ⟨fun h => .inl (hflag h), fun _ => ?_⟩
  rintro (⟨-, hchanged⟩ | ⟨hdata, hweaker⟩)
  · exact hchanged hcode
  · exact pinWeaker_spent P hpin hdata a hweaker

theorem lawful_success {s : State C} {a : Apdu} {r : Sw × State C} (hok : r.1.success = true)
    (hflag : r.2.validated = true → s.validated = true) : Lawful P s a r := by
  refine ⟨fun h => .inl (hflag h), fun hfail => ?_⟩
  rw [hok] at hfail
  exact absurd hfail nofun

theorem lawful_same {s : State C} {a : Apdu} {r : Sw × State C} (hcode : r.2.code = s.code)
    (hpin : r.2.pin = s.pin) (hflag : r.2.validated = s.validated) : Lawful P s a r :=
  lawful_spent P hcode (.inl hpin) (fun h => hflag ▸ h)

theorem work_lawful (s : State C) (a : Apdu) : Lawful P s a (work P a s) :=
  lawful_same P rfl rfl rfl

theorem guarded_lawful (s : State C) (a : Apdu) : Lawful P s a (guarded P a s) := by
  unfold guarded
  split_ifs
  · exact lawful_same P rfl rfl rfl
  · exact work_lawful P s a

theorem guardedByPin_lawful (s : State C) (a : Apdu) : Lawful P s a (guardedByPin P a s) := by
  unfold guardedByPin
  split_ifs
  · exact lawful_same P rfl rfl rfl
  · exact lawful_same P rfl rfl rfl
  · exact work_lawful P s a

theorem sendNext_lawful (s : State C) (a : Apdu) : Lawful P s a (sendNext P a s) := by
  unfold sendNext
  split_ifs
  · exact lawful_same P rfl rfl rfl
  · dsimp only
    apply lawful_same
    all_goals split_ifs <;> rfl

theorem cmdCalculateAll_lawful (s : State C) (a : Apdu) :
    Lawful P s a (cmdCalculateAll P a s) := by
  unfold cmdCalculateAll
  split_ifs
  · exact lawful_same P rfl rfl rfl
  · exact lawful_same P rfl rfl rfl
  · split
    · exact lawful_same P rfl rfl rfl
    · split_ifs
      · exact lawful_same P rfl rfl rfl
      · exact sendNext_lawful P { s with chain := .calculateAll } a

theorem cmdSendRemaining_lawful (s : State C) (a : Apdu) :
    Lawful P s a (cmdSendRemaining P a s) := by
  unfold cmdSendRemaining
  split_ifs
  · exact lawful_same P rfl rfl rfl
  · exact sendNext_lawful P s a

theorem removeCode_lawful {s : State C} {a : Apdu} {e : Env} (hvalid : s.validated = true)
    (hclean : Ef.hasData s.code = true → e.delete = .ok ∨ e.delete = .failed .same) :
    Lawful P s a (removeCode e s) := by
  unfold removeCode
  cases hcode : s.code with
  | none => exact lawful_success P rfl (fun _ => hvalid)
  | some stored =>
    refine ⟨fun _ => .inl hvalid, fun hfail => ?_⟩
    rintro (⟨hdata, hchanged⟩ | ⟨hdata, hweaker⟩)
    · rcases hclean hdata with hdel | hdel
      · simp [hdel, Sw.success] at hfail
      · exact hchanged (by simp [hdel, Storage.clear, hcode])
    · exact pinWeaker_spent P (.inl rfl) hdata a hweaker

theorem storeCode_lawful {s : State C} {a : Apdu} {e : Env} {key : Data}
    (hvalid : s.validated = true)
    (hpin : Ef.hasData s.pin = true →
      e.clear = .failed .same ∨ e.clear = .ok ∧ e.fileNew = true ∧ e.put = .ok)
    (hcode : Ef.hasData s.pin = false → Ef.hasData s.code = true → e.fileNew = true →
      e.put ≠ .failed .written) : Lawful P s a (storeCode P e key s) := by
  refine ⟨fun _ => .inl hvalid, fun hfail => ?_⟩
  unfold storeCode at hfail ⊢
  cases hdata : Ef.hasData s.pin with
  | true =>
    -- the PIN is cleared first, so what follows must not fail
    rcases hpin hdata with hclear | ⟨hclear, hnew, hput⟩
    · simp only [hdata, hclear, Storage.clear]
      rintro (⟨-, hchanged⟩ | ⟨-, hweaker⟩)
      · exact hchanged rfl
      · exact pinWeaker_spent P (.inl rfl) hdata a hweaker
    · simp [hdata, hclear, hnew, hput, Sw.success] at hfail
  | false =>
    rintro (⟨hstored, hchanged⟩ | ⟨hpinData, -⟩)
    · cases hnew : e.fileNew with
      | false => simp [hdata, hnew] at hchanged
      | true =>
        have hput := hcode hdata hstored hnew
        cases hres : e.put with
        | ok => simp [hdata, hnew, hres, Sw.success] at hfail
        | failed left =>
          cases left with
          | written => exact hput hres
          | same => simp [hdata, hnew, hres, Storage.put] at hchanged
          | emptied => simp [hdata, hnew, hres, Storage.put] at hchanged
          | gone => simp [hdata, hnew, hres, Storage.put] at hchanged
    · rw [hdata] at hpinData
      exact absurd hpinData nofun

theorem cmdSetCode_lawful {s : State C} {a : Apdu} {e : Env} (hins : a.ins = .setCode)
    (hclean : Clean P s (a, e)) : Lawful P s a (cmdSetCode P a e s) := by
  simp only [Clean, hins] at hclean
  unfold cmdSetCode
  by_cases hvalid : s.validated = false
  · rw [if_pos hvalid]
    exact lawful_same P rfl rfl rfl
  rw [if_neg hvalid]
  rw [Bool.not_eq_false] at hvalid
  obtain ⟨hremove, hpin, hcode⟩ := hclean hvalid
  by_cases hnc : a.nc = 0
  · rw [if_pos hnc]
    exact removeCode_lawful P hvalid (hremove (by simp [removesCode, hnc]))
  rw [if_neg hnc]
  cases hkey : a.field tagKey with
  | none => exact lawful_same P rfl rfl rfl
  | some key =>
    dsimp only
    by_cases hbad : key.length = 1 ∨ accessCodeMaxLen < key.length
    · rw [if_pos hbad]
      exact lawful_same P rfl rfl rfl
    rw [if_neg hbad]
    by_cases hempty : key.length = 0
    · rw [if_pos hempty]
      have hnil : key = [] := List.length_eq_zero_iff.mp hempty
      exact removeCode_lawful P hvalid (hremove (by simp [removesCode, hkey, hnil]))
    rw [if_neg hempty]
    cases hchal : a.field tagChallenge with
    | none => exact lawful_same P rfl rfl rfl
    | some chal =>
      cases hresp : a.field tagResponse with
      | none => exact lawful_same P rfl rfl rfl
      | some resp =>
        cases hmd : mdInfo (key.getD 0 0) with
        | none => exact lawful_same P rfl rfl rfl
        | some md =>
          dsimp only
          by_cases hne : resp ≠ P.hmac md (key.drop 1) chal
          · rw [if_pos hne]
            exact lawful_same P rfl rfl rfl
          rw [if_neg hne]
          have hlen : 1 < key.length ∧ key.length ≤ accessCodeMaxLen := by omega
          have hstores : storesCode P a = true := by
            simp only [storesCode, hkey, hchal, hresp, hmd, Option.any_some, not_not.mp hne]
            simp [hnc, hlen]
          exact storeCode_lawful P hvalid (hpin hstores) (hcode hstores)

theorem cmdReset_lawful {s : State C} {a : Apdu} {e : Env} (hins : a.ins = .reset) :
    Lawful P s a (cmdReset P a e s) := by
  unfold cmdReset
  split_ifs
  · exact lawful_same P rfl rfl rfl
  · exact lawful_same P rfl rfl rfl
  · exact ⟨fun _ => .inr ⟨rfl, .inr (.inr hins)⟩, nofun⟩

theorem cmdValidate_lawful {s : State C} {a : Apdu} {e : Env} (hins : a.ins = .validate)
    (hclean : Clean P s (a, e)) : Lawful P s a (cmdValidate P a s) := by
  simp only [Clean, hins] at hclean
  unfold cmdValidate
  cases hchal : a.field tagChallenge with
  | none => exact lawful_same P rfl rfl rfl
  | some chal =>
    cases hresp : a.field tagResponse with
    | none => exact lawful_same P rfl rfl rfl
    | some resp =>
      have hguard := hclean (by rw [hchal]; rfl) (by rw [hresp]; rfl)
      dsimp only
      by_cases hdata : Ef.hasData s.code = false
      · -- no code: the flag is raised, which changes nothing when it is up
        rw [if_pos hdata]
        have hvalid : s.validated = true := by
          rcases hguard with hcode | hvalid
          · rw [hdata] at hcode
            exact absurd hcode nofun
          · exact hvalid
        exact lawful_spent P rfl (.inl rfl) (fun _ => hvalid)
      rw [if_neg hdata]
      cases hcode : s.code with
      | none => exact lawful_same P rfl rfl rfl
      | some stored =>
        dsimp only
        cases hkey : decryptKey P stored with
        | none => exact lawful_same P rfl rfl rfl
        | some key =>
          dsimp only
          by_cases hlen : key.length < 2 ∨ accessCodeMaxLen < key.length
          · rw [if_pos hlen]
            exact lawful_same P rfl rfl rfl
          rw [if_neg hlen]
          cases hmd : mdInfo (key.getD 0 0) with
          | none => exact lawful_same P rfl rfl rfl
          | some md =>
            dsimp only
            by_cases hne : resp ≠ P.hmac md (key.drop 1) s.challenge
            · rw [if_pos hne]
              exact lawful_same P rfl rfl rfl
            rw [if_neg hne]
            have haccess : accessCode P s.code = some (md, key.drop 1) := by
              simp only [accessCode, hcode, hkey, if_neg hlen, hmd, Option.map_some]
            have hshown : a.field tagResponse = some (P.hmac md (key.drop 1) s.challenge) := by
              rw [hresp, not_not.mp hne]
            exact ⟨fun _ => .inr ⟨rfl, .inl ⟨hins, md, key.drop 1, haccess, hshown⟩⟩, nofun⟩

theorem cmdSetOtpPin_lawful (s : State C) (a : Apdu) (e : Env) :
    Lawful P s a (cmdSetOtpPin P a e s) := by
  unfold cmdSetOtpPin
  by_cases hvalid : s.validated = false
  · rw [if_pos hvalid]
    exact lawful_same P rfl rfl rfl
  rw [if_neg hvalid]
  by_cases hdata : Ef.hasData s.pin = true
  · rw [if_pos hdata]
    exact lawful_same P rfl rfl rfl
  rw [if_neg hdata]
  cases a.field tagPassword with
  | none => exact lawful_same P rfl rfl rfl
  | some pw =>
    dsimp only
    split_ifs
    · exact lawful_success P rfl id
    · refine ⟨fun h => .inl h, fun _ => ?_⟩
      rintro (⟨-, hchanged⟩ | ⟨hpin, -⟩)
      · exact hchanged rfl
      · exact hdata hpin

theorem rewrite_lawful {s s' : State C} {a : Apdu} {e : Env} {spent : Ef} {pw newPw : Data}
    (hspent : Spent s.pin spent) (hfield : a.field tagPassword = some pw)
    (hmatch : accepts P s.pin pw = true)
    (hclean : P.verifier newPw ≠ P.verifier pw → e.put ≠ .failed .written)
    (hcode : s'.code = s.code) (hpin : s'.pin = e.put.put spent (pinRecordV1 P newPw))
    (hput : e.put ≠ .ok) : ¬ Weakens P s s' a := by
  have hold : presents P s.pin a = true := (presents_iff P).mpr ⟨pw, hfield, hmatch⟩
  rintro (⟨-, hchanged⟩ | ⟨hdata, hweaker⟩)
  · exact hchanged hcode
  rw [hpin] at hweaker
  cases hres : e.put with
  | ok => exact hput hres
  | failed left =>
    rw [hres] at hweaker
    cases left with
    | written =>
      have hsame : P.verifier newPw = P.verifier pw := by
        by_contra hne
        exact hclean hne hres
      have hnew : accepts P (some (pinRecordV1 P newPw)) pw = true := by
        rw [accepts_record, hsame, decide_eq_true rfl]
      exact pinWeaker_presented P hold ((presents_iff P).mpr ⟨pw, hfield, hnew⟩) hweaker
    | same => exact pinWeaker_spent P hspent hdata a hweaker
    | emptied => exact pinWeaker_spent P hspent hdata a hweaker
    | gone => exact pinWeaker_spent P hspent hdata a hweaker

theorem cmdChangeOtpPin_lawful {s : State C} {a : Apdu} {e : Env} (hins : a.ins = .changePin)
    (hclean : Clean P s (a, e)) : Lawful P s a (cmdChangeOtpPin P a e s) := by
  simp only [Clean, hins] at hclean
  unfold cmdChangeOtpPin
  by_cases husable : pinUsable s.pin = false
  · rw [if_pos husable]
    exact lawful_same P rfl rfl rfl
  rw [if_neg husable]
  cases hpw : a.field tagPassword with
  | none => exact lawful_same P rfl rfl rfl
  | some pw =>
    cases hnewPw : a.field tagNewPassword with
    | none => exact lawful_same P rfl rfl rfl
    | some newPw =>
      obtain ⟨hspent, hmatch⟩ := checkPin_spec P e s.pin pw
      dsimp only
      rcases hcheck : checkPin P e s.pin pw with ⟨found, spent⟩
      rw [hcheck] at hspent hmatch
      cases found with
      | storageError => exact lawful_spent P rfl hspent id
      | blocked => exact lawful_spent P rfl hspent id
      | mismatch => exact lawful_spent P rfl hspent id
      | «match» =>
        obtain ⟨haccepts, htries, hretry⟩ := hmatch rfl
        dsimp only
        split_ifs with hput
        · exact lawful_success P rfl id
        · refine ⟨fun h => .inl h, fun _ => ?_⟩
          refine rewrite_lawful P hspent hpw haccepts (fun hne => ?_) rfl rfl hput
          refine hclean ?_ hretry
          simp only [changesPin, hpw, hnewPw, haccepts, Option.any_some, decide_eq_true htries,
            decide_eq_true hne, Bool.and_self]

theorem cmdVerifyOtpPin_lawful {s : State C} {a : Apdu} {e : Env} (hins : a.ins = .verifyPin) :
    Lawful P s a (cmdVerifyOtpPin P a e s) := by
  unfold cmdVerifyOtpPin
  by_cases husable : pinUsable s.pin = false
  · rw [if_pos husable]
    exact lawful_same P rfl rfl rfl
  rw [if_neg husable]
  cases hpw : a.field tagPassword with
  | none => exact lawful_same P rfl rfl rfl
  | some pw =>
    obtain ⟨hspent, hmatch⟩ := checkPin_spec P e s.pin pw
    dsimp only
    rcases hcheck : checkPin P e s.pin pw with ⟨found, spent⟩
    rw [hcheck] at hspent hmatch
    cases found with
    | storageError => exact lawful_spent P rfl hspent id
    | blocked => exact lawful_spent P rfl hspent nofun
    | mismatch => exact lawful_spent P rfl hspent nofun
    | «match» =>
      obtain ⟨haccepts, -, -⟩ := hmatch rfl
      have hpresents : presents P s.pin a = true := (presents_iff P).mpr ⟨pw, hpw, haccepts⟩
      dsimp only
      split_ifs with hput
      · exact ⟨fun _ => .inr ⟨rfl, .inr (.inl ⟨hins, hpresents⟩)⟩, nofun⟩
      · refine ⟨fun h => .inl h, fun _ => ?_⟩
        exact rewrite_lawful P hspent hpw haccepts (fun hne => absurd rfl hne) rfl rfl hput

theorem handle_lawful {s : State C} {a : Apdu} {e : Env} (hclean : Clean P s (a, e)) :
    Lawful P s a (handle P a e s) := by
  unfold handle
  cases hins : a.ins with
  | put => exact guarded_lawful P s a
  | delete => exact guarded_lawful P s a
  | setCode => exact cmdSetCode_lawful P hins hclean
  | reset => exact cmdReset_lawful P hins
  | rename => exact guarded_lawful P s a
  | list => exact sendNext_lawful P { s with chain := .list } a
  | validate => exact cmdValidate_lawful P hins hclean
  | calculate =>
    dsimp only
    split_ifs
    · exact lawful_same P rfl rfl rfl
    · exact guarded_lawful P s a
  | calculateAll => exact cmdCalculateAll_lawful P s a
  | sendRemaining => exact cmdSendRemaining_lawful P s a
  | setPin => exact cmdSetOtpPin_lawful P s a e
  | changePin => exact cmdChangeOtpPin_lawful P hins hclean
  | verifyPin => exact cmdVerifyOtpPin_lawful P hins
  | verifyCode => exact guardedByPin_lawful P s a
  | getCredential => exact guardedByPin_lawful P s a
  | unknown => exact lawful_same P rfl rfl rfl

theorem processApdu_lawful {s : State C} {a : Apdu} {e : Env} (hclean : Clean P s (a, e)) :
    Lawful P s a (processApdu P a e s) := by
  unfold processApdu
  by_cases hcla : a.cla ≠ 0
  · rw [if_pos hcla]
    exact lawful_same P rfl rfl rfl
  rw [if_neg hcla]
  by_cases hsend : a.ins = .sendRemaining
  · rw [if_pos hsend]
    dsimp only
    split_ifs
    · exact lawful_same P rfl rfl rfl
    · exact handle_lawful P hclean
  · rw [if_neg hsend]
    dsimp only
    split_ifs
    · exact lawful_same P rfl rfl rfl
    · exact handle_lawful P (s := { s with chain := .none }) hclean

/-- The commands that may be used only by someone who may use the credentials. -/
def Protected (s : State C) (a : Apdu) : Prop :=
  match a.ins with
  | .reset => False
  | .validate => False
  | .changePin => False
  | .verifyPin => False
  | .unknown => False
  | .sendRemaining => s.chain ≠ .none
  | _ => True

theorem handle_success {s : State C} {a : Apdu} {e : Env} (hprotected : Protected s a)
    (h : (handle P a e s).1.success = true) : s.validated = true := by
  by_contra hvalid
  rw [Bool.not_eq_true] at hvalid
  unfold handle at h
  cases hins : a.ins with
  | reset => simp [Protected, hins] at hprotected
  | validate => simp [Protected, hins] at hprotected
  | changePin => simp [Protected, hins] at hprotected
  | verifyPin => simp [Protected, hins] at hprotected
  | unknown => simp [Protected, hins] at hprotected
  | put => simp [hins, guarded, hvalid, Sw.success] at h
  | delete => simp [hins, guarded, hvalid, Sw.success] at h
  | setCode => simp [hins, cmdSetCode, hvalid, Sw.success] at h
  | rename => simp [hins, guarded, hvalid, Sw.success] at h
  | list => simp [hins, sendNext, hvalid, Sw.success] at h
  | calculate =>
    rw [hins] at h
    dsimp only at h
    split_ifs at h
    · exact absurd h nofun
    · simp [guarded, hvalid, Sw.success] at h
  | calculateAll =>
    rw [hins] at h
    unfold cmdCalculateAll at h
    dsimp only at h
    split_ifs at h
    · exact absurd h nofun
    · exact absurd h nofun
  | sendRemaining =>
    rw [hins] at h
    have hchain : s.chain ≠ .none := by simpa [Protected, hins] using hprotected
    simp [cmdSendRemaining, hchain, sendNext, hvalid, Sw.success] at h
  | setPin => simp [hins, cmdSetOtpPin, hvalid, Sw.success] at h
  | verifyCode => simp [hins, guardedByPin, hvalid, Sw.success] at h
  | getCredential => simp [hins, guardedByPin, hvalid, Sw.success] at h

theorem processApdu_success {s : State C} {a : Apdu} {e : Env} (hprotected : Protected s a)
    (h : (processApdu P a e s).1.success = true) : s.validated = true := by
  unfold processApdu at h
  by_cases hcla : a.cla ≠ 0
  · rw [if_pos hcla] at h
    exact absurd h nofun
  rw [if_neg hcla] at h
  dsimp only at h
  by_cases hcap : e.capable = false
  · rw [if_pos hcap] at h
    exact absurd h nofun
  rw [if_neg hcap] at h
  by_cases hsend : a.ins = .sendRemaining
  · rw [if_pos hsend] at h
    exact handle_success P hprotected h
  · rw [if_neg hsend] at h
    -- the chain is only looked at by the command that goes on with it
    have hkept : Protected { s with chain := .none } a := by
      unfold Protected at hprotected ⊢
      cases hins : a.ins <;> simp_all
    exact handle_success P (s := { s with chain := .none }) hkept h

end Steps

section Runs

variable {C : Type} (P : Provider C)

def step (s : State C) (i : Apdu × Env) : State C := (processApdu P i.1 i.2 s).2

/-- Neither secret is stored. -/
def Unprotected (s : State C) : Prop := s.code = none ∧ Ef.hasData s.pin = false

/-- The command has succeeded and shows that the host may use the credentials. -/
def Grants (s : State C) (i : Apdu × Env) : Prop :=
  (processApdu P i.1 i.2 s).1 = .ok ∧ Shown P s i.1

/-- One of the commands since the SELECT was such a command. -/
def GrantedIn (s : State C) (is : List (Apdu × Env)) : Prop :=
  ∃ earlier i later, is = earlier ++ i :: later ∧ Grants P (run (step P) s earlier) i

theorem migrateSecrets_validated (e : Env) (s : State C) :
    (migrateSecrets P e s).2.validated = s.validated := by
  unfold migrateSecrets
  split_ifs
  · rfl
  · split
    · rfl
    · dsimp only
      split
      · split_ifs <;> rfl
      · rfl

theorem select_validated {e : Env} {s₀ s : State C} (h : select P e s₀ = (true, s))
    (hvalid : s.validated = true) : Unprotected s₀ := by
  unfold select at h
  by_cases hcap : e.capable = false
  · rw [if_pos hcap] at h
    exact absurd h (by simp)
  rw [if_neg hcap] at h
  dsimp only at h
  have hkept := migrateSecrets_validated P e { s₀ with
    chain := .none
    validated := !s₀.code.isSome && !Ef.hasData s₀.pin
    otpPinVerified := false }
  split at h
  · exact absurd h (by simp)
  · rename_i hmig
    rw [hmig] at hkept
    obtain ⟨-, rfl⟩ := Prod.mk.injEq .. ▸ h
    rw [show _ = _ from hkept] at hvalid
    simpa [Unprotected] using hvalid

theorem validated_run {s : State C} (is : List (Apdu × Env)) (hclean : Along (step P) (Clean P) s is)
    (h : (run (step P) s is).validated = true) : s.validated = true ∨ GrantedIn P s is := by
  induction is generalizing s with
  | nil => exact .inl h
  | cons i is ih =>
    rcases ih hclean.2 h with hflag | ⟨earlier, j, later, rfl, hgrant⟩
    · rcases (processApdu_lawful P hclean.1).1 hflag with hbefore | ⟨hok, hshown⟩
      · exact .inl hbefore
      · exact .inr ⟨[], i, is, rfl, hok, hshown⟩
    · exact .inr ⟨i :: earlier, j, later, rfl, hgrant⟩

end Runs

section Samples

/-- Credentials are a counter of the commands that were let through. -/
def sampleProvider : Provider Nat where
  hmac _ key message := key ++ message
  verifier pin := (pin ++ List.replicate 32 0).take 32
  verifier_length pin := by simp
  doubleHash := id
  encrypt := id
  decrypt := some
  body _ _ n := (.ok, n + 1)
  migrate n := (true, n)

def calm : Env where
  clear := .ok
  delete := .ok
  fileNew := true
  put := .ok
  retry := .ok
  purge := true
  fresh := List.replicate challengeLen 7
  capable := true

def command (ins : Ins) (field : Nat → Option Data) : Apdu where
  cla := 0
  ins := ins
  p1 := 0
  p2 := 0
  nc := 1
  field := field

def bothTags : Nat → Option Data
  | 0x74 => some [1]
  | 0x75 => some [2]
  | _ => none

def pinTag : Nat → Option Data
  | 0x80 => some [5]
  | _ => none

/-- A PIN is stored and no access code. -/
def pinOnly : State Nat where
  validated := false
  otpPinVerified := false
  migrationDone := true
  challenge := []
  code := none
  pin := some (pinRecordV1 sampleProvider [5])
  chain := .none
  creds := 0

def selected : State Nat := (select sampleProvider calm pinOnly).2

end Samples

end Oath

end KeyWallet
