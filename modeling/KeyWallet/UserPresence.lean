import KeyWallet.MakeCredential
import KeyWallet.AssertionWalk
import KeyWallet.CredAccounts
import KeyWallet.U2f

/-! Which responses say that the user was present, and whether wait_button_pressed said so in the command
that they come from. -/
namespace KeyWallet.Cred.UserPresence

open Assert (PinState Walk flagUp)

/-- What a getAssertion or a getNextAssertion reads, with a hash of 32 bytes. -/
structure AssertSetting extends Assert.Setting where
  sha256_length : ∀ d, (crypto.sha256 d).length = 32

/-- The token, the walk, and whether wait_button_pressed returned 0 in the getAssertion that the walk comes
from. -/
structure State where
  pin : PinState
  walk : Walk := {}
  opened : Bool := false

/-- A command, or what the others do to the token and to the walk. A setting brings its own token, which is
not used. -/
inductive Input
  | makeCredential (e : Make.Setting) (req : Make.Request)
  | getAssertion (e : AssertSetting) (req : Assert.Request)
  | getNextAssertion (e : AssertSetting)
  | register (d : U2f.Device) (s : U2f.Session) (r : U2f.Request) (draw : Bytes)
  | authenticate (d : U2f.Device) (s : U2f.Session) (r : U2f.Request)
  -- getPinToken, with the token that it issues
  | beginUsingPinUvAuthToken (paut : Mgmt.AuthToken)
  | resetPinUvAuthToken (data : Data)
  | stopUsingPinUvAuthToken
  | clearUserPresentFlag
  | otherCommand

/-- FIDO2_AUT_FLAG_UP is set in authData. -/
def upSet (authData : Data) : Prop := authData.getD 32 0 &&& flagUp ≠ 0

instance (authData : Data) : Decidable (upSet authData) := inferInstanceAs (Decidable (_ ≠ _))

section Asks

variable (e : Assert.Setting) (req : Assert.Request)

/-- A getAssertion comes to step 9. -/
def settles : Bool :=
  (Assert.checks e req).isNone &&
    (Assert.locate e (Assert.rpIdHash e req) (Assert.startSilent req) req.allowList).toOption.isSome

/-- A getAssertion calls check_user_presence: at step 9, or for an empty pinUvAuthParam. -/
def asksPresence : Bool :=
  (settles e req && req.asks && !(req.pinUvAuthParam.isSome && e.pin.presentFlag)) ||
    ((Assert.precheck req).isNone && decide (req.pinUvAuthParam = some []))

end Asks

/-- cmd_authenticate comes to its call of wait_button_pressed. -/
def authenticateAsks (s : U2f.Session) (r : U2f.Request) : Bool :=
  decide (66 ≤ r.nc) && decide (U2f.keyHandleLen ≤ r.keyHandleLen) && !(s.auv || s.locked) &&
    decide (r.p1 = U2f.ctapAuthEnforce)

section Steps

variable (s : State)

/-- The setting with the token as it is. -/
def State.make (e : Make.Setting) : Make.Setting := { e with pin := s.pin }

def State.assert (e : AssertSetting) : Assert.Setting := { e.toSetting with pin := s.pin }

/-- cbor_parse: every command but getNextAssertion resets the walk first. -/
def step : Input → State
  | .makeCredential e req => ⟨(Make.makeCredential (s.make e) req).pin, .reset, false⟩
  | .getAssertion e req =>
    ⟨(Assert.getAssertion (s.assert e) req).pin, (Assert.getAssertion (s.assert e) req).walk,
      asksPresence (s.assert e) req && e.present⟩
  | .getNextAssertion e =>
    ⟨(Assert.getNextAssertion (s.assert e) s.walk).pin, (Assert.getNextAssertion (s.assert e) s.walk).walk,
      s.opened⟩
  | .register _ _ _ _ => s
  | .authenticate _ _ _ => s
  | .beginUsingPinUvAuthToken paut => ⟨⟨paut, true, false, true⟩, .reset, false⟩
  | .resetPinUvAuthToken data => { s with pin.paut.data := data, pin.paut.permissions := 0 }
  | .stopUsingPinUvAuthToken =>
    { s with
      pin.paut.permissions := 0, pin.paut.hasRpId := false, pin.paut.rpIdHash := List.replicate 32 0
      pin.inUse := false, pin.userPresent := false, pin.userVerified := false }
  | .clearUserPresentFlag =>
    { s with pin.userPresent := if s.pin.inUse then false else s.pin.userPresent }
  | .otherCommand => ⟨s.pin, .reset, false⟩

def run (is : List Input) : State := StepSystem.run step s is

/-- A response that says the user was present comes from a command in which wait_button_pressed returned 0;
for getNextAssertion the one that began the walk. -/
def Behind : Input → Prop
  | .makeCredential e req => ∀ body, (Make.makeCredential (s.make e) req).result = .ok body →
      upSet body.authData → (Make.makeCredential (s.make e) req).pressed = true
  | .getAssertion e req => ∀ body, (Assert.getAssertion (s.assert e) req).result = .ok body →
      upSet body.authData → asksPresence (s.assert e) req && e.present
  | .getNextAssertion e => ∀ body, (Assert.getNextAssertion (s.assert e) s.walk).result = .ok body →
      upSet body.authData → s.opened = true
  | .register d session r draw => ∀ reg, U2f.cmdRegister d session r draw = .ok reg →
      r.nc = 64 ∧ session.pressed = true
  | .authenticate d session r => r.p1 = U2f.ctapAuthEnforce → (U2f.cmdAuthenticate d session r).sw = .ok →
      authenticateAsks session r && session.pressed
  | _ => True

/-- A makeCredential without pinUvAuthParam that passes every step. -/
def Unasked : Input → Prop
  | .makeCredential e req => req.pinUvAuthParam = none ∧
      ∃ credId made, Make.Completes (s.make e) req credId made
  | _ => False

end Steps

/-- The token does not say that the user is present, and a walk whose flags say so was opened by somebody. -/
structure Honest (s : State) : Prop where
  absent : s.pin.userPresent = false
  opened : s.walk.counter < s.walk.number → s.walk.flags &&& flagUp ≠ 0 → s.opened = true

/-! Where the flag of a response comes from. -/

theorem up_or_ed : ∀ flags : BitVec 8, (flags ||| Assert.flagEd) &&& flagUp = flags &&& flagUp := by decide

section Assertions

variable {e : Assert.Setting} {req : Assert.Request}

theorem authDataOf_up (hlen : ∀ d, (e.crypto.sha256 d).length = 32) (flags : BitVec 8) (ctr : BitVec 32)
    (ext : Option Assert.ExtOutputs) : upSet (Assert.authDataOf e req flags ctr ext) ↔ flags &&& flagUp ≠ 0 := by
  have hhash : (Assert.rpIdHash e req).length = 32 := hlen _
  have hbyte : (Assert.authDataOf e req flags ctr ext).getD 32 0 =
      if ext.isSome then flags ||| Assert.flagEd else flags := by
    unfold Assert.authDataOf
    simp only [List.append_assoc]
    rw [List.getD_eq_getElem?_getD, List.getElem?_append_right hhash.le, hhash]
    rfl
  unfold upSet
  rw [hbyte]
  cases ext with
  | none => exact Iff.rfl
  | some ext => rw [Option.isSome_some, if_pos rfl, up_or_ed]

theorem respond_up (hlen : ∀ d, (e.crypto.sha256 d).length = 32) {next resident : Bool} {cred : Credential}
    {number : Nat} {flags : BitVec 8} {body : Assert.Body}
    (h : Assert.respond e req next cred resident number flags = .ok body) :
    upSet body.authData ↔ flags &&& flagUp ≠ 0 := by
  unfold Assert.respond at h
  dsimp only at h
  by_cases hfail : (req.largeBlobKey = some true ∧ cred.largeBlobKey = true) ∧
      (if req.largeBlobKey = some true ∧ cred.largeBlobKey = true then
        e.crypto.largeBlobKey (Mgmt.keySeed cred) else none) = none
  · rw [if_pos hfail] at h
    cases h
  rw [if_neg hfail] at h
  cases hext : Assert.extOutputs e req cred flags with
  | error status =>
    rw [hext] at h
    cases h
  | ok ext =>
  rw [hext] at h
  dsimp only at h
  cases hkey : Assert.signingKey e (Assert.rpIdHash e req) cred with
  | none =>
    rw [hkey] at h
    cases h
  | some key =>
  rw [hkey] at h
  dsimp only at h
  cases hsign : Assert.sign e key (Assert.authDataOf e req flags
      (if cred.imported = true then 0 else e.counter) ext ++ req.clientDataHash.getD []) with
  | none =>
    rw [hsign] at h
    cases h
  | some signature =>
    rw [hsign] at h
    rw [← Except.ok.inj h]
    exact authDataOf_up hlen _ _ _

/-- A getAssertion has come to step 9, and the person was there if asked. -/
structure Settled (e : Assert.Setting) (req : Assert.Request) : Prop where
  settles : settles e req = true
  present : Assert.presenceFails e req = false

theorem getAssertion_cases (hlen : ∀ d, (e.crypto.sha256 d).length = 32) :
    ((∃ status, (Assert.getAssertion e req).result = .error status) ∧ (Assert.getAssertion e req).walk = .reset) ∨
      (Settled e req ∧
        (∀ body, (Assert.getAssertion e req).result = .ok body →
          (upSet body.authData ↔ Assert.flagsAfter req &&& flagUp ≠ 0)) ∧
        ((Assert.getAssertion e req).walk = .reset ∨
          (Assert.getAssertion e req).walk.flags = Assert.flagsAfter req)) := by
  unfold Assert.getAssertion
  dsimp only
  cases hchecks : Assert.checks e req with
  | some status => exact .inl ⟨⟨_, rfl⟩, rfl⟩
  | none =>
  dsimp only
  cases hlocate : Assert.locate e (Assert.rpIdHash e req) (Assert.startSilent req) req.allowList with
  | error status => exact .inl ⟨⟨_, rfl⟩, rfl⟩
  | ok l =>
  dsimp only
  cases hpresent : Assert.presenceFails e req with
  | true =>
    rw [if_pos rfl]
    exact .inl ⟨⟨_, rfl⟩, rfl⟩
  | false =>
  have hsettled : Settled e req := by
    refine ⟨?_, hpresent⟩
    unfold settles
    rw [hchecks, hlocate]
    rfl
  rw [if_neg Bool.false_ne_true]
  generalize Assert.numberFound e req l _ = found
  by_cases hnone : found = 0
  · rw [if_pos hnone]
    exact .inl ⟨⟨_, rfl⟩, rfl⟩
  rw [if_neg hnone]
  by_cases hlarge : req.largeBlobKey = some false
  · rw [if_pos hlarge]
    exact .inl ⟨⟨_, rfl⟩, rfl⟩
  rw [if_neg hlarge]
  by_cases hsilent : l.silent = true ∧ l.resident = false
  · -- the answer of a silent check carries the flags as well
    rw [if_pos hsilent]
    refine .inr ⟨hsettled, ?_, .inl rfl⟩
    intro body hbody
    rw [← Except.ok.inj hbody]
    exact authDataOf_up hlen _ _ _
  rw [if_neg hsilent]
  generalize (if l.silent = true then _ else _ : List Credential) = sorted
  cases sorted with
  | nil => exact .inl ⟨⟨_, rfl⟩, rfl⟩
  | cons cred rest =>
    dsimp only
    cases hrespond : Assert.respond e req false cred l.resident (Assert.numberShown req l.resident found)
        (Assert.flagsAfter req) with
    | error status => exact .inl ⟨⟨_, rfl⟩, rfl⟩
    | ok given =>
      refine .inr ⟨hsettled, ?_, ?_⟩
      · intro body hbody
        rw [← Except.ok.inj hbody]
        exact respond_up hlen hrespond
      · dsimp only
        by_cases hmany : 1 < Assert.numberShown req l.resident found
        · rw [if_pos hmany]
          exact .inr rfl
        · rw [if_neg hmany]
          exact .inl rfl

theorem getAssertion_absent (h : e.pin.userPresent = false) :
    (Assert.getAssertion e req).pin.userPresent = false := by
  have hbound : (Assert.boundPin e req).userPresent = false := by
    unfold Assert.boundPin
    by_cases hrp : req.pinUvAuthParam = none ∨ e.pin.paut.hasRpId = true
    · rwa [if_pos hrp]
    · rwa [if_neg hrp]
  have hafter : (Assert.pinAfter e req).userPresent = false := by
    unfold Assert.pinAfter Assert.PinState.used
    split_ifs
    · rfl
    · exact hbound
    · exact hbound
  unfold Assert.getAssertion
  dsimp only
  cases Assert.checks e req with
  | some status =>
    dsimp only
    unfold Assert.checkedPin
    split_ifs
    · exact hbound
    · exact h
  | none =>
  dsimp only
  cases Assert.locate e (Assert.rpIdHash e req) (Assert.startSilent req) req.allowList with
  | error status => exact hbound
  | ok l =>
  dsimp only
  generalize Assert.numberFound e req l _ = found
  generalize (if l.silent = true then _ else _ : List Credential) = sorted
  -- a call without presence leaves the token bound, every other one has used it up
  cases sorted with
  | nil => split_ifs <;> first | exact hbound | exact hafter
  | cons cred rest =>
    dsimp only
    cases Assert.respond e req false cred l.resident (Assert.numberShown req l.resident found)
        (Assert.flagsAfter req) <;> split_ifs <;> first | exact hbound | exact hafter

theorem Settled.asked (h : Settled e req) (habsent : e.pin.userPresent = false)
    (hup : Assert.flagsAfter req &&& flagUp ≠ 0) : (asksPresence e req && e.present) = true := by
  have hasks : req.asks = true := by
    by_contra hno
    apply hup
    unfold Assert.flagsAfter Assert.startFlags
    rw [if_neg hno]
    split_ifs <;> decide
  have hflag : e.pin.presentFlag = false := by
    unfold Assert.PinState.presentFlag
    rw [habsent, Bool.and_false]
  have hpresent := h.present
  unfold Assert.presenceFails at hpresent
  rw [hasks, hflag, Bool.and_false, Bool.not_false, Bool.and_true, Bool.true_and] at hpresent
  unfold asksPresence
  rw [h.settles, hasks, hflag, Bool.and_false, Bool.not_false, Bool.and_true, Bool.and_true, Bool.true_or,
    Bool.true_and]
  rwa [Bool.not_eq_false'] at hpresent

theorem getNextAssertion_ok {w : Walk} {body : Assert.Body} (hlen : ∀ d, (e.crypto.sha256 d).length = 32)
    (h : (Assert.getNextAssertion e w).result = .ok body) :
    w.counter < w.number ∧ (upSet body.authData ↔ w.flags &&& flagUp ≠ 0) := by
  unfold Assert.getNextAssertion at h
  dsimp only at h
  by_cases hchannel : w.channel ≠ e.cid
  · rw [if_pos hchannel] at h
    cases h
  rw [if_neg hchannel] at h
  by_cases hover : w.number ≤ w.counter
  · rw [if_pos hover] at h
    cases h
  rw [if_neg hover] at h
  by_cases hidle : w.idle e.now = true
  · rw [if_pos hidle] at h
    cases h
  rw [if_neg hidle] at h
  refine ⟨not_le.mp hover, ?_⟩
  cases hsaved : w.request with
  | none =>
    rw [hsaved] at h
    cases h
  | some saved =>
  rw [hsaved] at h
  dsimp only at h
  cases hnext : Assert.nextAssertion e w saved with
  | error status =>
    rw [hnext] at h
    cases h
  | ok given =>
    rw [hnext] at h
    have hgiven : given = body := Except.ok.inj h
    subst hgiven
    unfold Assert.nextAssertion at hnext
    cases hpre : Assert.precheck saved with
    | some status =>
      rw [hpre] at hnext
      cases hnext
    | none =>
    rw [hpre] at hnext
    dsimp only at hnext
    cases hcred : w.creds[w.counter]? with
    | none =>
      rw [hcred] at hnext
      cases hnext
    | some cred =>
      rw [hcred] at hnext
      exact respond_up hlen hnext

theorem getNextAssertion_walk (w : Walk) : (Assert.getNextAssertion e w).pin = e.pin ∧
    ((Assert.getNextAssertion e w).walk = .reset ∨
      ((Assert.getNextAssertion e w).walk.flags = w.flags ∧ w.counter < w.number)) := by
  unfold Assert.getNextAssertion
  dsimp only
  by_cases hchannel : w.channel ≠ e.cid
  · rw [if_pos hchannel]
    exact ⟨rfl, .inl rfl⟩
  rw [if_neg hchannel]
  by_cases hover : w.number ≤ w.counter
  · rw [if_pos hover]
    exact ⟨rfl, .inl rfl⟩
  rw [if_neg hover]
  by_cases hidle : w.idle e.now = true
  · rw [if_pos hidle]
    exact ⟨rfl, .inl rfl⟩
  rw [if_neg hidle]
  cases w.request with
  | none => exact ⟨rfl, .inl rfl⟩
  | some saved =>
    dsimp only
    cases Assert.nextAssertion e w saved with
    | error status => exact ⟨rfl, .inl rfl⟩
    | ok body =>
      dsimp only
      by_cases hlast : w.counter + 1 = w.number
      · rw [if_pos hlast]
        exact ⟨rfl, .inl rfl⟩
      · rw [if_neg hlast]
        exact ⟨rfl, .inr ⟨rfl, not_le.mp hover⟩⟩

end Assertions

section Creations

variable {e : Make.Setting} {req : Make.Request}

theorem bound_absent (h : e.pin.userPresent = false) : (Make.boundPin e req).userPresent = false := by
  unfold Make.boundPin
  by_cases hrp : req.pinUvAuthParam = none ∨ e.pin.paut.hasRpId = true
  · rwa [if_pos hrp]
  · rwa [if_neg hrp]

theorem used_absent {pin : PinState} (h : pin.userPresent = false) : pin.used.userPresent = false := by
  unfold Assert.PinState.used
  by_cases huse : pin.inUse = true
  · rw [if_pos huse]
  · rwa [if_neg huse]

theorem makeCredential_absent (h : e.pin.userPresent = false) :
    (Make.makeCredential e req).pin.userPresent = false := by
  have hbound := @bound_absent e req h
  rcases @Make.makeCredential_cases e req with
    ⟨_, _, -, hstore⟩ | ⟨_, pin, _, herror, rfl | rfl | rfl⟩
  · rw [hstore, (Make.store_left _ _ _).2]
    exact used_absent hbound
  · rwa [herror]
  · rwa [herror]
  · rw [herror]
    exact used_absent hbound

theorem finalFlags_up (pin : PinState) : ∀ flags, flags = Make.finalFlags req pin ∨
    flags = Make.finalFlags req pin ||| Assert.flagEd → flags &&& flagUp ≠ 0 := by
  have hfinal : Make.finalFlags req pin &&& flagUp ≠ 0 := by
    unfold Make.finalFlags Make.startFlags
    split_ifs <;> decide
  rintro flags (rfl | rfl)
  · exact hfinal
  · rwa [up_or_ed]

theorem Completes.up {credId : Container.Resident.Blob} {made : Make.Made}
    (h : Make.Completes e req credId made) : upSet made.body.authData :=
  finalFlags_up _ _ (Make.finish_flags h.finished)

end Creations

/-! A step, and a run. -/

section Runs

variable {s : State}

theorem over_of_reset {w : Walk} (h : w = .reset) : ¬ w.counter < w.number := by
  rw [h]
  exact Nat.lt_irrefl 0

theorem step_honest (i : Input) (h : Honest s) : Honest (step s i) := by
  have hreset : ∀ {pin : PinState} {opened : Bool}, pin.userPresent = false →
      Honest ⟨pin, .reset, opened⟩ :=
    fun hpin => ⟨hpin, fun hgoes => absurd hgoes (over_of_reset rfl)⟩
  cases i with
  | makeCredential e req => exact hreset (makeCredential_absent (e := s.make e) h.absent)
  | getAssertion e req =>
    refine ⟨getAssertion_absent (e := s.assert e) h.absent, ?_⟩
    intro hgoes hup
    rcases @getAssertion_cases (s.assert e) req e.sha256_length with
      ⟨-, hwalk⟩ | ⟨hsettled, -, hwalk | hflags⟩
    · exact absurd hgoes (over_of_reset hwalk)
    · exact absurd hgoes (over_of_reset hwalk)
    · exact hsettled.asked h.absent (hflags ▸ hup)
  | getNextAssertion e =>
    obtain ⟨hpin, hwalk⟩ := getNextAssertion_walk (e := s.assert e) s.walk
    refine ⟨(congrArg PinState.userPresent hpin).trans h.absent, ?_⟩
    intro hgoes hup
    rcases hwalk with hover | ⟨hflags, hlt⟩
    · exact absurd hgoes (over_of_reset hover)
    · exact h.opened hlt (hflags ▸ hup)
  | register => exact h
  | authenticate => exact h
  | beginUsingPinUvAuthToken paut => exact hreset rfl
  | resetPinUvAuthToken data => exact ⟨h.absent, h.opened⟩
  | stopUsingPinUvAuthToken => exact ⟨rfl, h.opened⟩
  | clearUserPresentFlag =>
    refine ⟨?_, h.opened⟩
    show (if s.pin.inUse = true then false else s.pin.userPresent) = false
    rw [h.absent, ite_self]
  | otherCommand => exact hreset h.absent

theorem run_honest (is : List Input) (h : Honest s) : Honest (run s is) :=
  StepSystem.run_invariant (fun _ i _ hs => step_honest i hs) s is
    (StepSystem.along_true step s is) h

theorem register_pressed {d : U2f.Device} {session : U2f.Session} {r : U2f.Request} {draw : Bytes}
    {reg : U2f.Registration} (h : U2f.cmdRegister d session r draw = .ok reg) :
    r.nc = 64 ∧ session.pressed = true := by
  unfold U2f.cmdRegister at h
  by_cases hlen : r.nc ≠ 64
  · rw [if_pos hlen] at h
    cases h
  rw [if_neg hlen] at h
  by_cases hpressed : session.pressed = false
  · rw [if_pos hpressed] at h
    cases h
  · exact ⟨not_not.mp hlen, Bool.eq_true_of_not_eq_false hpressed⟩

theorem authenticate_pressed {d : U2f.Device} {session : U2f.Session} {r : U2f.Request}
    (hp1 : r.p1 = U2f.ctapAuthEnforce) (h : (U2f.cmdAuthenticate d session r).sw = .ok) :
    (authenticateAsks session r && session.pressed) = true := by
  unfold U2f.cmdAuthenticate at h
  by_cases hshort : r.nc < 66
  · rw [if_pos hshort] at h
    cases h
  rw [if_neg hshort] at h
  by_cases hhandle : r.keyHandleLen < U2f.keyHandleLen
  · rw [if_pos hhandle] at h
    cases h
  rw [if_neg hhandle, if_neg (fun hno => hno.1 hp1)] at h
  by_cases hlocked : (session.auv || session.locked) = true
  · rw [if_pos hlocked] at h
    cases h
  rw [if_neg hlocked] at h
  by_cases hpressed : r.p1 = U2f.ctapAuthEnforce ∧ session.pressed = false
  · rw [if_pos hpressed] at h
    cases h
  have hyes : session.pressed = true := by
    by_contra hno
    exact hpressed ⟨hp1, Bool.eq_false_of_not_eq_true hno⟩
  unfold authenticateAsks
  rw [decide_eq_true (not_lt.mp hshort), decide_eq_true (not_lt.mp hhandle), Bool.eq_false_of_not_eq_true hlocked,
    decide_eq_true hp1, hyes]
  rfl

theorem step_behind_iff (i : Input) (h : Honest s) : Behind s i ↔ ¬ Unasked s i := by
  cases i with
  | makeCredential e req =>
    constructor
    · rintro hbehind ⟨hparam, credId, made, hmade⟩
      obtain ⟨hresult, hpressed⟩ := hmade.result
      have hyes := hbehind _ hresult (Completes.up hmade)
      rw [hpressed] at hyes
      unfold Make.asksPresence at hyes
      rw [hparam] at hyes
      exact Bool.false_ne_true hyes
    · intro hasked body hbody _
      obtain ⟨credId, made, hmade, -, hpressed⟩ := Make.makeCredential_ok hbody
      have hparam : req.pinUvAuthParam ≠ none := fun hnone => hasked ⟨hnone, credId, made, hmade⟩
      have hflag : (Make.boundPin (s.make e) req).presentFlag = false := by
        unfold Assert.PinState.presentFlag
        rw [bound_absent (e := s.make e) h.absent, Bool.and_false]
      rw [hpressed]
      unfold Make.asksPresence
      rw [hflag, Bool.not_false, Bool.and_true]
      exact Option.isSome_iff_ne_none.mpr hparam
  | getAssertion e req =>
    refine ⟨fun _ hno => hno, fun _ body hbody hup => ?_⟩
    rcases @getAssertion_cases (s.assert e) req e.sha256_length with
      ⟨⟨status, herror⟩, -⟩ | ⟨hsettled, hflags, -⟩
    · cases herror.symm.trans hbody
    · exact hsettled.asked h.absent ((hflags body hbody).mp hup)
  | getNextAssertion e =>
    refine ⟨fun _ hno => hno, fun _ body hbody hup => ?_⟩
    obtain ⟨hgoes, hflags⟩ := getNextAssertion_ok (e := s.assert e) e.sha256_length hbody
    exact h.opened hgoes (hflags.mp hup)
  | register d session r draw => exact ⟨fun _ hno => hno, fun _ reg hreg => register_pressed hreg⟩
  | authenticate d session r => exact ⟨fun _ hno => hno, fun _ hp1 hok => authenticate_pressed hp1 hok⟩
  | beginUsingPinUvAuthToken paut => exact ⟨fun _ hno => hno, fun _ => trivial⟩
  | resetPinUvAuthToken data => exact ⟨fun _ hno => hno, fun _ => trivial⟩
  | stopUsingPinUvAuthToken => exact ⟨fun _ hno => hno, fun _ => trivial⟩
  | clearUserPresentFlag => exact ⟨fun _ hno => hno, fun _ => trivial⟩
  | otherCommand => exact ⟨fun _ hno => hno, fun _ => trivial⟩

/-- The variables at the start: a token that is not in use. -/
def boot (paut : Mgmt.AuthToken) : State := { pin := ⟨paut, false, false, false⟩ }

/-- After any commands, a response that says the user was present has wait_button_pressed behind it, unless it
is that of a makeCredential without pinUvAuthParam. -/
theorem present_behind_iff (paut : Mgmt.AuthToken) (is : List Input) (i : Input) :
    Behind (run (boot paut) is) i ↔ ¬ Unasked (run (boot paut) is) i :=
  step_behind_iff i (run_honest is ⟨rfl, fun hgoes => absurd hgoes (Nat.not_lt_zero 1)⟩)

end Runs

/-- A device without a PIN, at which nobody is. -/
def freshSetting : Make.Setting :=
  Make.plainSetting Account.sampleMaker Account.sampleDisk (Account.sampleRequest 1 7).credId
    (Account.sampleRequest 1 7).publicKey

/-- The credential is created and the flag is set, although nobody was asked. -/
theorem fresh_not_behind :
    ¬ Behind (run (boot ⟨[], 0, false, []⟩) []) (.makeCredential freshSetting (Make.plainRequest none)) := by
  intro hbehind
  have hresult : (Make.makeCredential freshSetting (Make.plainRequest none)).result.toOption.map
      (fun body => decide (upSet body.authData)) = some true := by decide +kernel
  have hpressed : (Make.makeCredential freshSetting (Make.plainRequest none)).pressed = false := by
    decide +kernel
  obtain ⟨body, hbody, hup⟩ := Option.map_eq_some_iff.mp hresult
  have hok : (Make.makeCredential freshSetting (Make.plainRequest none)).result = .ok body := by
    cases hres : (Make.makeCredential freshSetting (Make.plainRequest none)).result with
    | error status =>
      rw [hres] at hbody
      cases hbody
    | ok given =>
      rw [hres] at hbody
      rw [Option.some.inj hbody]
  have hyes := hbehind body hok (of_decide_eq_true hup)
  exact Bool.false_ne_true (hpressed.symm.trans hyes)

end KeyWallet.Cred.UserPresence
