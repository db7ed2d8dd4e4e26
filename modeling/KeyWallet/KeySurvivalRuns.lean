import KeyWallet.KeySurvival
import KeyWallet.PinChangeWindow
import KeyWallet.PinRetryRuns

/-! Runs of the PIN commands, the vendor commands and reboots, and the device key along them. -/
namespace KeyWallet

open CrashProgram StepSystem

section PinCommands

variable {d : Device} {b : Beyond} {lockKey key : Bytes} {m : FidoMachine}

theorem KeyInv.vars (h : KeyInv d lockKey key m) {v : FidoVars} (hv : sameKeyVars m.vars v) :
    KeyInv d lockKey key (m.setVars v) :=
  h.frame ⟨rfl, rfl, hv.1, hv.2.1⟩ (by rw [Machine.setVars_vars, hv.2.2]; exact h.session) (.refl _)

theorem pinMismatch_keeps (h : KeyInv d lockKey key m) {data : Bytes} {k : Nat}
    (hdata : fileBytes (m.view .efPin) = data) (hsized : PinSized data) :
    calm (pinMismatch d (data ++ List.replicate k 0) data.length) (fun _ _ => False)
      (fun _ => KeyInv d lockKey key) m := by
  unfold pinMismatch regenerate
  simp only [bind_eq, calm_bind, calm_setting]
  have hkey : KeyInv d lockKey key (m.setVars { m.vars with hkey := m.vars.hkey + 1 }) :=
    h.vars ⟨rfl, rfl, rfl⟩
  apply calm_mono (keyInv_confined (resetAuthToken_besides ⟨by decide, by decide, by decide⟩) hkey)
    _ (fun _ _ hn => hn.1)
  rintro - n ⟨hn, hsame⟩
  have hbytes : fileBytes (n.view .efPin) = data := by rw [hsame.pin]; exact hdata
  split_ifs
  · exact hn
  · exact hn.vars ⟨rfl, rfl, rfl⟩
  · simp only [calm_bind, calm_setting, calm_readVars]
    split_ifs
    · exact hn.vars ⟨rfl, rfl, rfl⟩
    · -- the third wrong candidate: the marker goes into the retry byte
      have htake : ∀ x, ((data ++ List.replicate k 0).set 0 x).take data.length = data.set 0 x := by
        intro x
        rw [List.set_append_left _ _ hsized.pos]
        exact List.take_left' (by simp)
      have hm : KeyInv d lockKey key
          (n.setVars { n.vars with newPinMismatches := n.vars.newPinMismatches + 1 }) :=
        hn.vars ⟨rfl, rfl, rfl⟩
      have hput := hm.putRetry ((data ++ List.replicate k 0).headD 0 ||| pinRetryPowerCycle)
      simp only [Machine.setVars_view, hbytes] at hput
      rw [calm_bind]
      apply calm_of_wp (f := .none) (C := fun _ => True)
      apply persistPinRetryCounter_wp hsized.pos
      · simp
      · exact ⟨trivial, trivial⟩
      · rw [htake]
        exact hput.sync.vars ⟨rfl, rfl, rfl⟩
      · exact False.elim

theorem judgeCandidate_keeps {protocol len : Nat} {secret hashEnc pinData : Bytes}
    {Q : Bytes → FidoMachine → Prop} (h : KeyInv d lockKey key m) (hbuf : Buffered m pinData len)
    (hsized : PinSized (fileBytes (m.view .efPin)))
    (hQ : ∀ candidate : Bytes, candidate.length = 16 →
      storedVerifies d (fileBytes (m.view .efPin)) candidate →
      Q candidate (m.record (.compared true))) :
    calm (judgeCandidate d b protocol secret hashEnc pinData len) Q
      (fun _ => KeyInv d lockKey key) m := by
  obtain ⟨rfl, rfl⟩ := hbuf
  unfold judgeCandidate
  split
  · exact h
  · next plain hplain =>
    have hlen : (readRaw b.stack (some ⟨plain, []⟩) 0 16).length = 16 := readRaw_length _ _ _ _
    simp only [bind_eq, pure_eq, calm_bind, calm_event]
    split_ifs with hver
    · rw [calm_bind]
      exact calm_mono (pinMismatch_keeps (h.record _) rfl hsized) (fun _ _ hn => hn.elim)
        (fun _ _ hn => hn)
    · rw [Bool.not_eq_false] at hver
      simp only [calm_bind, calm_readVars, hver]
      split_ifs
      · exact h.record _
      · exact hQ _ hlen ((pinVerifies_iff hsized).mp hver)

/-- A key file that the PIN commands cannot take for a tagged one; an old PIN file is upgraded
through another format, so there it does not matter. -/
def KeyFileSafe (files : Files) : Prop := legacyPin files ∨ ¬ rawTagged files

theorem spendAndJudge_keeps (h : KeyInv d lockKey key m) (htag : KeyFileSafe m.view)
    {protocol : Nat} {secret hashEnc : Bytes} {accepted : Bytes → Nat → Bytes → Fido Unit}
    (hacc : ∀ n pinData len candidate, KeyInv d lockKey key n → Buffered n pinData len →
      candidate.length = 16 → storedVerifies d (fileBytes (n.view .efPin)) candidate →
      KeyFileSafe n.view → calm (accepted pinData len candidate)
        (fun _ => KeyInv d lockKey key) (fun _ => KeyInv d lockKey key) n) :
    calm (spendRetry.bind fun spent =>
        (judgeCandidate d b protocol secret hashEnc spent.1 spent.2).bind
          (accepted spent.1 spent.2))
      (fun _ => KeyInv d lockKey key) (fun _ => KeyInv d lockKey key) m := by
  rw [calm_bind]
  apply calm_of_wp (f := .none) (C := fun _ => True)
  apply spendRetry_wp (fun _ _ => h)
  intro hsized _
  refine ⟨⟨trivial, trivial⟩, ?_, False.elim⟩
  have hspent : KeyInv d lockKey key (putEf m .efPin (spentPin m.view)).sync :=
    (h.putRetry _).sync
  have hbytes : fileBytes ((putEf m .efPin (spentPin m.view)).view .efPin) = spentPin m.view :=
    putEf_self m .efPin _
  have hlen : (spentPin m.view).length = (fileBytes (m.view .efPin)).length := List.length_set
  have hsized' : PinSized (fileBytes ((putEf m .efPin (spentPin m.view)).sync.view .efPin)) := by
    rw [Machine.sync_view, hbytes, PinSized, hlen]
    exact hsized
  rw [calm_bind]
  apply judgeCandidate_keeps hspent (spent_buffered m) hsized'
  intro candidate hcand hver
  apply hacc _ _ _ _ (hspent.record _) ⟨(spent_buffered m).eq, (spent_buffered m).len⟩ hcand hver
  -- neither the length of the PIN file nor the key file has changed
  refine htag.imp (fun hl => ?_) (fun hr => ?_)
  · rw [legacyPin, Machine.record_view, Machine.sync_view, hbytes, hlen]
    exact hl
  · rw [rawTagged, Machine.record_view, Machine.sync_view, putEf_of_ne _ _ (by decide)]
    exact hr

theorem getPinToken_keeps (hd : d.Lawful) (hs : d.Sealing) (hlen : key.length = 32)
    (h : KeyInv d lockKey key m) (htag : KeyFileSafe m.view) (withPermissions : Bool)
    (req : PinRequest) :
    calm (getPinToken d b withPermissions req) (fun _ => KeyInv d lockKey key)
      (fun _ => KeyInv d lockKey key) m := by
  unfold getPinToken
  simp only [bind_eq]
  rw [calm_bind, calm_consult, calm_bind]
  cases getPinTokenGuards d withPermissions req m.vars m.view with
  | error e => exact h
  | ok args =>
    rw [calm_liftCheck]
    have hacc : ∀ n pinData len candidate, KeyInv d lockKey key n → Buffered n pinData len →
        candidate.length = 16 → storedVerifies d (fileBytes (n.view .efPin)) candidate →
        KeyFileSafe n.view → calm (tokenAccepted d b withPermissions req pinData len candidate)
          (fun _ => KeyInv d lockKey key) (fun _ => KeyInv d lockKey key) n := by
      intro n pinData len candidate hn hbuf hcand hver htag'
      exact tokenAccepted_keeps hd hs hlen hn hbuf hcand hver htag' withPermissions req
    exact spendAndJudge_keeps h htag hacc

theorem changeAccepted_keeps (hd : d.Lawful) (hs : d.Sealing) (hlen : key.length = 32)
    {pinData candidate : Bytes} {len : Nat} (h : KeyInv d lockKey key m)
    (hbuf : Buffered m pinData len) (hcand : candidate.length = 16)
    (hver : storedVerifies d (fileBytes (m.view .efPin)) candidate) (htag : KeyFileSafe m.view)
    (req : PinRequest) (secret newPinEnc : Bytes) :
    calm (changeAccepted d b req secret newPinEnc pinData len candidate)
      (fun _ => KeyInv d lockKey key) (fun _ => KeyInv d lockKey key) m := by
  unfold changeAccepted
  simp only [bind_eq, calm_bind, calm_consult, calm_flashCommit]
  apply calm_mono (acceptOldPin_keeps hd hs hlen h hbuf hcand hver htag) _ (fun _ _ hk => hk)
  rintro keydev n ⟨hn, hsized⟩
  cases changeNewPin d b req secret newPinEnc n.view with
  | error e => exact hn
  | ok newPin =>
    have hnew : (maxPinRetries :: BitVec.ofNat 8 (pinCodepointLen newPin) :: 1 ::
        d.pinDeriveVerifier (pinHash d newPin)).length = pinDataLen := by
      simp [hd.verifier_length, pinDataLen]
    rw [calm_liftCheck]
    apply calm_mono (rewrapKeydev_keeps hd hs hlen hn keydev (pinHash_length hd newPin) hnew
      (.inr ⟨hnew, rfl⟩)) _ (fun _ _ hk => hk)
    rintro - n' ⟨hn', hview⟩
    apply storeNewPin_keeps hd hn'.sync
    rw [Machine.sync_view, hview]
    exact hsized

theorem changePin_keeps (hd : d.Lawful) (hs : d.Sealing) (hlen : key.length = 32)
    (h : KeyInv d lockKey key m) (htag : KeyFileSafe m.view) (req : PinRequest) :
    calm (changePin d b req) (fun _ => KeyInv d lockKey key) (fun _ => KeyInv d lockKey key) m := by
  unfold changePin
  simp only [bind_eq]
  rw [calm_bind, calm_consult, calm_bind]
  cases changePinGuards d b req m.vars m.view with
  | error e => exact h
  | ok args =>
    rw [calm_liftCheck]
    have hacc : ∀ n pinData len candidate, KeyInv d lockKey key n → Buffered n pinData len →
        candidate.length = 16 → storedVerifies d (fileBytes (n.view .efPin)) candidate →
        KeyFileSafe n.view → calm (changeAccepted d b req args.1 args.2.1 pinData len candidate)
          (fun _ => KeyInv d lockKey key) (fun _ => KeyInv d lockKey key) n := by
      intro n pinData len candidate hn hbuf hcand hver htag'
      exact changeAccepted_keeps hd hs hlen hn hbuf hcand hver htag' req _ _
    exact spendAndJudge_keeps h htag hacc

theorem setPin_keeps (hd : d.Lawful) (h : KeyInv d lockKey key m) (htag : KeyFileSafe m.view)
    (req : PinRequest) :
    calm (setPin d b req) (fun _ => KeyInv d lockKey key) (fun _ => KeyInv d lockKey key) m := by
  unfold setPin
  simp only [bind_eq]
  rw [calm_bind, calm_consult, calm_bind]
  cases hg : setPinGuards d b req m.vars m.view with
  | error e => exact h
  | ok args =>
    have hempty : fileBytes (m.view .efPin) = [] := setPinGuards_ok hg
    have hraw : ¬ rawTagged m.view := by
      refine htag.resolve_left ?_
      rw [legacyPin, hempty]
      decide
    rw [calm_liftCheck]
    unfold setAccepted
    split
    · exact h
    · next padded _ =>
      simp only [bind_eq, calm_bind, calm_consult]
      cases checkNewPin b m.view (newPinPlainLen req.pinUvAuthProtocol args.2.length) padded with
      | error e => exact h
      | ok newPin =>
        unfold setSession
        simp only [calm_liftCheck, calm_filePutData, calm_flashCommit, calm_setting]
        set pinFile : Bytes := maxPinRetries :: BitVec.ofNat 8 (pinCodepointLen newPin) :: 1 ::
          d.pinDeriveVerifier (pinHash d newPin) with hfile
        have hnew : pinFile.length = pinDataLen := by simp [hfile, hd.verifier_length, pinDataLen]
        have hver : storedVerifies d pinFile (pinHash d newPin) := .inr ⟨hnew, rfl⟩
        -- no PIN verifies against an empty file, so the key is not wrapped
        have hkey : KeyFor d lockKey key pinFile m := by
          apply KeyFor.congr h
          intro q _ hq
          rw [hempty] at hq
          exact absurd (storedVerifies_sized hq).pos (by simp)
        have hstored := ((hkey.putPin pinFile).sync).setSession
          (Or.inr ⟨_, pinHash_length hd newPin, .inr rfl⟩)
        have hraw' : ¬ rawTagged (putEf m .efPin pinFile).view := by
          rw [rawTagged, putEf_of_ne _ _ (by decide)]
          exact hraw
        apply calm_mono (checkKeydevEncrypted_keeps hd hstored hraw' (pinHash_length hd newPin)
          hnew hver) _ (fun _ _ hk => hk.elim)
        rintro - n ⟨hn, hview⟩
        have hinv : KeyInv d lockKey key n := by
          apply hn.inv
          rw [hview, Machine.setVars_view, Machine.sync_view, putEf_self]
          exact .refl _
        exact hinv.vars ⟨rfl, rfl, rfl⟩

theorem initializeHkey_besides :
    Confined (fun k _ => Fid.besides k) sameKeyVars (initializeHkey d) := by
  apply readVars_confined.bind
  intro v
  show Confined _ _ (ite _ _ _)
  split_ifs
  · refine Confined.bind (setting_confined fun _ => ⟨rfl, rfl, rfl⟩) fun _ => ?_
    exact resetAuthToken_besides ⟨by decide, by decide, by decide⟩
  · exact pure_confined _

theorem cborClientPin_keeps (hd : d.Lawful) (hs : d.Sealing) (hlen : key.length = 32)
    (h : KeyInv d lockKey key m) (htag : KeyFileSafe m.view) (cmd : PinCommand) :
    calm (cborClientPin d b cmd) (fun _ => KeyInv d lockKey key)
      (fun _ => KeyInv d lockKey key) m := by
  unfold cborClientPin
  simp only [bind_eq, calm_bind]
  apply calm_mono (keyInv_confined initializeHkey_besides h) _ (fun _ _ hn => hn.1)
  rintro - n ⟨hn, hsame⟩
  have htag' : KeyFileSafe n.view := by
    unfold KeyFileSafe legacyPin rawTagged
    rw [hsame.pin, hsame.keyDev]
    exact htag
  split_ifs
  · exact hn
  cases cmd with
  | setPin req => exact setPin_keeps hd hn htag' req
  | changePin req => exact changePin_keeps hd hs hlen hn htag' req
  | getPinToken withPermissions req => exact getPinToken_keeps hd hs hlen hn htag' withPermissions req

end PinCommands

/-! The vendor commands. -/
section Vendor

variable {d : Device} {b : Beyond} {lockKey key : Bytes} {m : FidoMachine}

theorem vendorMse_keeps (h : KeyInv d lockKey key m) (kax kay : Option Bytes) (alg : Int) :
    calm (vendorMse d kax kay alg) (fun _ => KeyInv d lockKey key)
      (fun _ => KeyInv d lockKey key) m := by
  have hmse : Confined (fun k _ => Fid.besides k) sameKeyVars (vendorMse d kax kay alg) := by
    apply readVars_confined.bind
    intro v
    show Confined _ _ (ite _ _ _)
    split_ifs
    · exact (setting_confined fun _ => ⟨rfl, rfl, rfl⟩).bind fun _ => fail_confined _
    · split
      · exact fail_confined _
      · exact fail_confined _
    · split
      · refine Confined.bind (setting_confined fun _ => ⟨rfl, rfl, rfl⟩) fun _ => ?_
        split
        · exact fail_confined _
        · exact setting_confined fun _ => ⟨rfl, rfl, rfl⟩
      · exact fail_confined _
  exact calm_mono (keyInv_confined hmse h) (fun _ _ hn => hn.1) (fun _ _ hn => hn.1)

/-- The key that the secure channel brings. -/
def channelKey (d : Device) (v : FidoVars) (param : Option Bytes) : Option Bytes :=
  match v.mse, param with
  | some channel, some data => if data.length = 32 + 16 then d.mseOpen channel data else none
  | _, _ => none

theorem channelKey_some {v : FidoVars} {param : Option Bytes} {lockKey' : Bytes}
    (h : channelKey d v param = some lockKey') :
    ∃ channel data, v.mse = some channel ∧ param = some data ∧ data.length = 32 + 16 ∧
      d.mseOpen channel data = some lockKey' := by
  unfold channelKey at h
  split at h
  · next channel data hmse =>
    split_ifs at h with hlen
    exact ⟨channel, data, hmse, rfl, hlen, h⟩
  · cases h

theorem mseDecryptCt_calm {Q : Bytes → FidoMachine → Prop} {R : CtapErr → FidoMachine → Prop}
    {param : Option Bytes} (hR : ∀ e, R e m ∧ R e (m.setVars { m.vars with mse := none }))
    (hQ : ∀ lockKey', channelKey d m.vars param = some lockKey' →
      Q lockKey' (m.setVars { m.vars with mse := none })) :
    calm (mseDecryptCt d param) Q R m := by
  unfold mseDecryptCt
  simp only [bind_eq, pure_eq, calm_bind, calm_readVars]
  split
  · exact (hR _).1
  · exact (hR _).1
  · next channel data hmse =>
    split_ifs with hlen
    · exact (hR _).1
    · rw [not_not] at hlen
      have hchannel : channelKey d m.vars (some data) = d.mseOpen channel data := by
        simp only [channelKey, hmse, hlen, if_true]
      rw [calm_bind, calm_setting]
      cases hopen : d.mseOpen channel data with
      | none => exact (hR _).2
      | some key' => exact hQ key' (hchannel.trans hopen)

/-- What EF_KEY_DEV_ENC gives under a lock key. -/
def unlocked (d : Device) (b : Beyond) (lockKey : Bytes) (enc : Option Ef) : Option Bytes :=
  d.chachaDecrypt lockKey (readRaw b.flash enc 0 12) (readRaw b.flash enc 12 32)
    (readRaw b.flash enc (fileGetSize enc - 16) 16)

theorem unlocked_sealed (hs : d.Sealing) (hlen : key.length = 32) {enc : Option Ef} {nonce : Bytes}
    (hnonce : nonce.length = 12) (h : fileBytes enc = nonce ++ d.chachaEncrypt lockKey key nonce)
    (lockKey' : Bytes) :
    unlocked d b lockKey' enc = d.chachaDecrypt lockKey' nonce
      ((d.chachaEncrypt lockKey key nonce).take 32) ((d.chachaEncrypt lockKey key nonce).drop 32) := by
  have h48 : (d.chachaEncrypt lockKey key nonce).length = 48 := by
    rw [hs.chacha_length, hlen]
  have h60 : (fileBytes enc).length = 60 := by rw [h, List.length_append, hnonce, h48]
  have hsize : fileGetSize enc - 16 = 44 := by rw [fileGetSize, h60]
  have htag : (nonce ++ d.chachaEncrypt lockKey key nonce).drop 44 =
      (d.chachaEncrypt lockKey key nonce).drop 32 := by
    rw [List.drop_append, hnonce, List.drop_eq_nil_of_le (by omega), List.nil_append]
  have h16 : ((d.chachaEncrypt lockKey key nonce).drop 32).length = 16 := by
    rw [List.length_drop, h48]
  unfold unlocked
  rw [hsize, readRaw_inside _ _ (by omega), readRaw_inside _ _ (by omega),
    readRaw_inside _ _ (by omega), h, List.drop_zero, List.take_left' hnonce,
    List.drop_left' hnonce, htag, List.take_of_length_le (Nat.le_of_eq h16)]

theorem unlocked_only (hs : d.Sealing) (hlen : key.length = 32) {enc : Option Ef}
    (h : LockSealed d lockKey key (fileBytes enc)) {lockKey' x : Bytes}
    (hx : unlocked d b lockKey' enc = some x) : x = key := by
  obtain ⟨nonce, hnonce, heq⟩ := h
  rw [unlocked_sealed hs hlen hnonce heq] at hx
  exact hs.chacha_authentic _ _ _ _ _ hlen hnonce hx

theorem unlocked_right (hs : d.Sealing) (hlen : key.length = 32) {enc : Option Ef}
    (h : LockSealed d lockKey key (fileBytes enc)) : unlocked d b lockKey enc = some key := by
  obtain ⟨nonce, hnonce, heq⟩ := h
  rw [unlocked_sealed hs hlen hnonce heq]
  exact hs.chacha_inverse _ _ _ hlen hnonce

/-- A wrong unlock key wipes the RAM copy, so there must be none in use. -/
def UnlockSafe (d : Device) (b : Beyond) (param : Option Bytes) (m : FidoMachine) : Prop :=
  m.vars.hasKeydevDec = true → ∀ lockKey', channelKey d m.vars param = some lockKey' →
    fileHasData (m.view .efKeyDevEnc) = true →
    (unlocked d b lockKey' (m.view .efKeyDevEnc)).isSome = true

theorem KeyFor.sealed {pinFile : Bytes} (h : KeyFor d lockKey key pinFile m)
    (hdata : fileHasData (m.view .efKeyDevEnc) = true) :
    LockSealed d lockKey key (fileBytes (m.view .efKeyDevEnc)) := by
  refine h.stored.enc.resolve_left fun hempty => ?_
  rw [fileHasData, fileGetSize, hempty] at hdata
  exact absurd hdata (by decide)

theorem vendorUnlock_keeps (hs : d.Sealing) (hlen : key.length = 32) (h : KeyInv d lockKey key m)
    {param : Option Bytes} (hsafe : UnlockSafe d b param m) :
    calm (vendorUnlock d b param) (fun _ => KeyInv d lockKey key)
      (fun _ => KeyInv d lockKey key) m := by
  unfold vendorUnlock
  simp only [bind_eq, calm_bind]
  apply mseDecryptCt_calm (fun _ => ⟨h, h.vars ⟨rfl, rfl, rfl⟩⟩)
  intro lockKey' hchannel
  rw [calm_readFile]
  split_ifs with hdata
  · exact h.vars ⟨rfl, rfl, rfl⟩
  rw [Bool.not_eq_false] at hdata
  have hclosed : KeyInv d lockKey key (m.setVars { m.vars with mse := none }) :=
    h.vars ⟨rfl, rfl, rfl⟩
  cases hopen : unlocked d b lockKey' (m.view .efKeyDevEnc) with
  | none =>
    -- the copy was not in use
    have hhas : m.vars.hasKeydevDec = false := by
      rw [← Bool.not_eq_true]
      intro hhas
      have hsome := hsafe hhas lockKey' hchannel hdata
      rw [hopen] at hsome
      cases hsome
    unfold unlocked at hopen
    simp only [Machine.setVars_view, hopen, calm_bind, calm_setting]
    refine ⟨hclosed.stored, ?_, hclosed.session⟩
    intro hn
    exact absurd (hhas.symm.trans hn) (by decide)
  | some x =>
    obtain rfl := unlocked_only hs hlen (KeyFor.sealed h hdata) hopen
    unfold unlocked at hopen
    simp only [Machine.setVars_view, hopen, calm_setting]
    exact ⟨hclosed.stored, fun _ => rfl, hclosed.session⟩

/-- AUT_ENABLE gets as far as the encryption. -/
def enables (d : Device) (authorized : Bool) (param : Option Bytes) (m : FidoMachine) : Prop :=
  authorized = true ∧ fileHasData (m.view .efKeyDev) = true ∧
    (channelKey d m.vars param).isSome = true

/-- The buffer of AUT_ENABLE has room for a raw key, and what an unlock brings back is not decrypted
once more. -/
def EnableSafe (d : Device) (authorized : Bool) (param : Option Bytes) (m : FidoMachine) : Prop :=
  enables d authorized param m → fileGetSize (m.view .efKeyDev) = 32 ∧ d.otpKey1 = none

theorem readRaw_exact (past : Nat → Byte) {x : Bytes} {n : Nat} (h : x.length = n) :
    readRaw past (some ⟨x, []⟩) 0 n = x := by
  have hfits : 0 + n ≤ (fileBytes (some ⟨x, []⟩)).length := by
    rw [Nat.zero_add]
    exact Nat.le_of_eq h.symm
  rw [readRaw_inside _ _ hfits, fileBytes, List.drop_zero, List.take_of_length_le (Nat.le_of_eq h)]

theorem emptied_written {ef : Ef} {k : Nat} (h : ef.bytes.length = k + 1) :
    Emptied (fileWritten (fileWritten (some ef) (List.replicate (k + 1) 0)) []) := by
  have hfits : (List.replicate (k + 1) (0 : Byte)).length ≤ ef.bytes.length := by
    rw [List.length_replicate]
    exact Nat.le_of_eq h.symm
  have hfirst : fileWritten (some ef) (List.replicate (k + 1) 0) =
      some ⟨List.replicate (k + 1) 0, (ef.bytes ++ ef.slack).drop (k + 1)⟩ := by
    rw [fileWritten, if_pos hfits, List.length_replicate]
  rw [hfirst]
  exact ⟨List.replicate k 0 ++ (ef.bytes ++ ef.slack).drop (k + 1), rfl⟩

theorem HoldsKey.raw_eq (hd : d.Lawful) {pinFile data : Bytes} (h : HoldsKey d key pinFile data)
    (hlen : data.length = 32) (hotp : d.otpKey1 = none) : data = key := by
  cases h with
  | raw _ hkey => rwa [rawKey, hotp] at hkey
  | tagged hx _ =>
    rw [List.length_cons, hx] at hlen
    exact absurd hlen (by decide)
  | wrapped _ _ _ hx hnonce _ =>
    rw [List.length_cons, hd.sealed_length _ _ _ _ hx hnonce] at hlen
    exact absurd hlen (by decide)

theorem autEnable_keeps (hd : d.Lawful) (hs : d.Sealing) (hlen : key.length = 32)
    (h : KeyInv d lockKey key m) {authorized : Bool} {param : Option Bytes}
    (hsafe : EnableSafe d authorized param m) :
    calm (autEnable d b authorized param)
      (fun _ n => KeyInv d ((channelKey d m.vars param).getD lockKey) key n)
      (fun _ => KeyInv d lockKey key) m := by
  unfold autEnable
  split_ifs with hauth
  · exact h
  simp only [bind_eq, calm_bind, calm_readFile]
  split_ifs with hdata
  · exact h
  rw [Bool.not_eq_false] at hauth hdata
  rw [calm_bind]
  apply mseDecryptCt_calm (fun _ => ⟨h, h.vars ⟨rfl, rfl, rfl⟩⟩)
  intro lockKey' hchannel
  simp only [calm_bind, calm_randomFill, calm_filePutData, calm_flashCommit, hchannel,
    Option.getD_some]
  obtain ⟨h32, hotp⟩ := hsafe ⟨hauth, hdata, by rw [hchannel]; rfl⟩
  -- the file has data, so it holds the key, raw
  obtain ⟨ef, hef⟩ : ∃ ef, m.view .efKeyDev = some ef := by
    cases hv : m.view .efKeyDev with
    | none => rw [hv] at hdata; exact absurd hdata (by decide)
    | some ef => exact ⟨ef, rfl⟩
  have hkey : ef.bytes = key := by
    have hhome : HoldsKey d key (fileBytes (m.view .efPin)) (fileBytes (m.view .efKeyDev)) := by
      refine h.stored.home.resolve_right ?_
      rintro ⟨⟨slack, hempty⟩, -⟩
      rw [hempty] at hdata
      exact absurd hdata Bool.false_ne_true
    rw [hef] at hhome
    exact hhome.raw_eq hd (by rw [hef] at h32; exact h32) hotp
  have hbytes : fileBytes (m.view .efKeyDev) = key := by rw [hef]; exact hkey
  have hn12 : (d.random m.vars.drawn 12).length = 12 := hd.random_length _ _
  simp only [Machine.setVars_vars, hbytes, h32]
  generalize d.random m.vars.drawn 12 = nonce at hn12
  have hsealed : readRaw b.stack (some ⟨nonce ++ d.chachaEncrypt lockKey' key nonce, []⟩) 0 60 =
      nonce ++ d.chachaEncrypt lockKey' key nonce :=
    readRaw_exact _ (by rw [List.length_append, hn12, hs.chacha_length, hlen])
  have hzeros : readRaw b.stack (some ⟨List.replicate 60 0, []⟩) 0 32 = List.replicate 32 0 := by
    rw [readRaw_inside _ _ (by decide)]
    rfl
  rw [hsealed, hzeros]
  refine ⟨⟨.inr ⟨?_, ?_⟩, .inr ⟨nonce, hn12, ?_⟩⟩, h.ram, h.session⟩
  · have hef32 : ef.bytes.length = 31 + 1 := by rw [hkey]; exact hlen
    have hwritten := emptied_written hef32
    rw [← hef] at hwritten
    simpa [Function.update_of_ne] using hwritten
  · simp only [Machine.sync_view, putEf_of_ne _ _ (show Fid.efKeyDevEnc ≠ .efKeyDev by decide),
      putEf_self]
    exact List.ne_nil_of_length_pos (by rw [List.length_append, hn12]; omega)
  · simp only [Machine.sync_view, putEf_of_ne _ _ (show Fid.efKeyDevEnc ≠ .efKeyDev by decide),
      putEf_self]

theorem autDisable_keeps (h : KeyInv d lockKey key m) {authorized : Bool}
    (hsafe : ¬ (authorized = true ∧ fileHasData (m.view .efKeyDevEnc) = true ∧
      m.vars.hasKeydevDec = true)) :
    calm (autDisable authorized) (fun _ => KeyInv d lockKey key)
      (fun _ => KeyInv d lockKey key) m := by
  unfold autDisable
  split_ifs with hauth
  · exact h
  simp only [bind_eq, calm_bind, calm_readFile, calm_readVars]
  split_ifs with hdata hhas
  · exact h
  · exact h
  · rw [Bool.not_eq_false] at hauth hdata hhas
    exact absurd ⟨hauth, hdata, hhas⟩ hsafe

theorem initFido_keeps (h : KeyInv d lockKey key m) (generated : Bytes) :
    calm (initFido d generated) (fun _ => KeyInv d lockKey key)
      (fun _ => KeyInv d lockKey key) m := by
  unfold initFido scanFilesFido
  simp only [bind_eq, calm_bind, calm_setting, calm_readFile]
  have hfiles : ¬ (fileHasData (m.view .efKeyDev) = false ∧
      fileHasData (m.view .efKeyDevEnc) = false) := by
    rintro ⟨hkey, henc⟩
    rcases h.stored.home with hhome | ⟨-, hne⟩
    · rw [fileHasData_of_length hhome.pos] at hkey
      cases hkey
    · exact hne (fileBytes_of_noData (by rw [henc]; decide))
  simp only [Machine.setVars_view, if_neg hfiles]
  have hlocked : KeyInv d lockKey key (m.setVars { m.vars with keydevUnlocked := false }) :=
    h.vars ⟨rfl, rfl, rfl⟩
  exact hlocked.sync.vars ⟨rfl, rfl, rfl⟩

theorem KeyInv.reboot (h : KeyInv d lockKey key m) :
    KeyInv d lockKey key (m.sync.reboot FidoVars.atBoot) :=
  ⟨h.stored, fun hhas => absurd hhas Bool.false_ne_true, .inl rfl⟩

end Vendor

/-- The device along a run, and the key under which the vendor lock was last closed. -/
structure KeyRun where
  machine : FidoMachine
  lockKey : Bytes

inductive KeyInput
  | clientPin (b : Beyond) (cmd : PinCommand)
  -- any command that needs the device key
  | loadKeydev (b : Beyond) (buffer : Bytes)
  | vendorMse (kax kay : Option Bytes) (alg : Int)
  | vendorUnlock (b : Beyond) (param : Option Bytes)
  | autEnable (b : Beyond) (authorized : Bool) (param : Option Bytes)
  | autDisable (authorized : Bool)
  -- CTAPHID_INIT or an applet SELECT
  | initFido (generated : Bytes)
  | reboot (generated : Bytes)

namespace KeyRun

/-- The program runs undisturbed. -/
def perform {α : Type} (s : KeyRun) (p : Fido α) : KeyRun :=
  { s with machine := (exec p s.machine []).2.1 }

def step (d : Device) (s : KeyRun) : KeyInput → KeyRun
  | .clientPin b cmd => s.perform (cborClientPin d b cmd)
  | .loadKeydev b buffer => s.perform (loadKeydev d b buffer)
  | .vendorMse kax kay alg => s.perform (vendorMse d kax kay alg)
  | .vendorUnlock b param => s.perform (vendorUnlock d b param)
  | .autEnable b authorized param =>
    let r := exec (autEnable d b authorized param) s.machine []
    match r.1 with
    | .done _ => ⟨r.2.1, (channelKey d s.machine.vars param).getD s.lockKey⟩
    | _ => { s with machine := r.2.1 }
  | .autDisable authorized => s.perform (autDisable authorized)
  | .initFido generated => s.perform (initFido d generated)
  | .reboot generated =>
    KeyRun.perform { s with machine := s.machine.sync.reboot FidoVars.atBoot } (initFido d generated)

end KeyRun

/-- What load_keydev returns. -/
def loaded (d : Device) (b : Beyond) (buffer : Bytes) (m : FidoMachine) :
    Outcome CtapErr (Option Bytes) :=
  (exec (loadKeydev d b buffer) m []).1

/-- The device key is safe: load_keydev never returns anything else, it returns the key under the
right PIN, and while EF_KEY_DEV is locked away it returns it after an unlock with the right key. -/
structure KeySafe (d : Device) (key : Bytes) (s : KeyRun) : Prop where
  loads : ∀ b buffer, loaded d b buffer s.machine = .done none ∨
    loaded d b buffer s.machine = .done (some key)
  withPin : fileHasData (s.machine.view .efKeyDev) = true → ∀ session,
    RightSession d (fileBytes (s.machine.view .efPin)) session → ∀ b buffer,
    loaded d b buffer (s.machine.setVars { s.machine.vars with sessionPin := session }) =
      .done (some key)
  withLock : fileHasData (s.machine.view .efKeyDev) = false → ∀ b param,
    channelKey d s.machine.vars param = some s.lockKey → ∀ buffer,
    loaded d b buffer (exec (vendorUnlock d b param) s.machine []).2.1 = .done (some key)

/-- The steps that keep the key. -/
def KeyStepSafe (d : Device) (s : KeyRun) : KeyInput → Prop
  | .clientPin _ _ => KeyFileSafe s.machine.view
  | .vendorUnlock b param => UnlockSafe d b param s.machine
  | .autEnable _ authorized param => EnableSafe d authorized param s.machine
  | .autDisable authorized => ¬ (authorized = true ∧
      fileHasData (s.machine.view .efKeyDevEnc) = true ∧ s.machine.vars.hasKeydevDec = true)
  | _ => True

section Runs

variable {d : Device} {key : Bytes} {s : KeyRun}

def KeyRun.Inv (d : Device) (key : Bytes) (s : KeyRun) : Prop := KeyInv d s.lockKey key s.machine

theorem perform_inv {α : Type} {p : Fido α}
    (h : calm p (fun _ => KeyInv d s.lockKey key) (fun _ => KeyInv d s.lockKey key) s.machine) :
    (s.perform p).Inv d key := by
  unfold calm Ends at h
  split at h
  · exact h
  · exact h
  · exact h.elim

theorem keyRun_step (hd : d.Lawful) (hs : d.Sealing) (hlen : key.length = 32)
    (h : s.Inv d key) (i : KeyInput) (hsafe : KeyStepSafe d s i) : (s.step d i).Inv d key := by
  cases i with
  | clientPin b cmd => exact perform_inv (cborClientPin_keeps hd hs hlen h hsafe cmd)
  | loadKeydev b buffer =>
    apply perform_inv
    exact calm_mono (loadKeydev_keeps hd hs h buffer) (fun _ _ hn => KeyStep.inv hn.2)
      (fun _ _ hn => hn.elim)
  | vendorMse kax kay alg => exact perform_inv (vendorMse_keeps h kax kay alg)
  | vendorUnlock b param => exact perform_inv (vendorUnlock_keeps hs hlen h hsafe)
  | autEnable b authorized param =>
    have hrun := autEnable_keeps (b := b) hd hs hlen h hsafe
    unfold calm Ends at hrun
    simp only [KeyRun.step]
    split at hrun
    · next hdone => rwa [hdone]
    · next hfail => rwa [hfail]
    · exact hrun.elim
  | autDisable authorized => exact perform_inv (autDisable_keeps h hsafe)
  | initFido generated => exact perform_inv (initFido_keeps h generated)
  | reboot generated => exact perform_inv (initFido_keeps h.reboot generated)

theorem outcome_of_calm {α : Type} {p : Fido α} {m : FidoMachine} {P : α → Prop}
    (h : calm p (fun r _ => P r) (fun _ _ => False) m) : ∃ r, (exec p m []).1 = .done r ∧ P r := by
  unfold calm Ends at h
  split at h
  · next r hr => exact ⟨r, hr, h⟩
  · exact h.elim
  · exact h.elim

theorem loaded_only (hd : d.Lawful) (hs : d.Sealing) {lockKey pinFile : Bytes} {m : FidoMachine}
    (h : KeyFor d lockKey key pinFile m) (b : Beyond) (buffer : Bytes) :
    loaded d b buffer m = .done none ∨ loaded d b buffer m = .done (some key) := by
  obtain ⟨r, hr, hval⟩ := outcome_of_calm (calm_mono (loadKeydev_keeps hd hs h buffer)
    (fun _ _ hn => hn.1) (fun _ _ hn => hn))
  unfold loaded
  rw [hr]
  rcases hval with rfl | rfl
  · exact .inl rfl
  · exact .inr rfl

theorem loaded_opens {m : FidoMachine} (hram : ramAgrees m.vars key)
    (hplain : keydevPlain d m.vars.sessionPin (fileBytes (m.view .efKeyDev)) = some key)
    (b : Beyond) (buffer : Bytes) : loaded d b buffer m = .done (some key) := by
  suffices hcalm : calm (loadKeydev d b buffer) (fun r _ => r = some key) (fun _ _ => False) m by
    obtain ⟨r, hr, rfl⟩ := outcome_of_calm hcalm
    exact hr
  unfold loadKeydev
  simp only [bind_eq, pure_eq, calm_bind, calm_readVars, calm_readFile, fileGetSize]
  by_cases hhas : m.vars.hasKeydevDec = true
  · simp only [hhas, Bool.true_eq_false, false_and, if_false, if_true, calm_done]
    rw [hram hhas]
  rw [Bool.not_eq_true] at hhas
  simp only [hhas, fileHasData_of_length (keydevPlain_pos hplain), true_and, Bool.true_eq_false,
    Bool.false_eq_true, if_false]
  rcases keydevPlain_cases hplain with ⟨h32, hkey⟩ | ⟨h32, hl, h1, hkey⟩ | ⟨hl, h23, x, hx, hkey⟩
  · rw [if_pos h32, readRaw_inside _ _ (by omega), List.drop_zero,
      List.take_of_length_le (Nat.le_of_eq h32)]
    exact congrArg some hkey
  · have hne : ¬ ((fileBytes (m.view .efKeyDev)).headD 0 = 2 ∨
        (fileBytes (m.view .efKeyDev)).headD 0 = 3) := by
      rw [h1]
      decide
    rw [if_neg h32, if_pos hl, if_neg hne, if_pos h1, readRaw_inside _ _ (by omega)]
    exact congrArg some hkey
  · have hdrop : ((fileBytes (m.view .efKeyDev)).drop 1).length = 60 := by
      rw [List.length_drop, hl]
    rw [if_neg (by omega), if_pos (.inr hl), if_pos h23, readRaw_inside _ _ (by omega),
      List.take_of_length_le (Nat.le_of_eq hdrop)]
    unfold loadWrapped
    simp only [bind_eq, pure_eq, calm_bind, calm_readVars, hx]
    split_ifs
    · exact congrArg some hkey
    · exact congrArg some hkey

theorem loaded_ram {m : FidoMachine} (hhas : m.vars.hasKeydevDec = true)
    (hdec : m.vars.keydevDec = key) (b : Beyond) (buffer : Bytes) :
    loaded d b buffer m = .done (some key) := by
  suffices hcalm : calm (loadKeydev d b buffer) (fun r _ => r = some key) (fun _ _ => False) m by
    obtain ⟨r, hr, rfl⟩ := outcome_of_calm hcalm
    exact hr
  unfold loadKeydev
  simp only [bind_eq, pure_eq, calm_bind, calm_readVars, calm_readFile, hhas, Bool.true_eq_false,
    false_and, if_false, if_true, calm_done, hdec]

theorem keySafe_of_inv (hd : d.Lawful) (hs : d.Sealing) (hlen : key.length = 32)
    (h : s.Inv d key) : KeySafe d key s := by
  refine ⟨loaded_only hd hs h, ?_, ?_⟩
  · intro hdata session hright b buffer
    apply loaded_opens
    · exact h.ram
    refine HoldsKey.opens hd (h.stored.home.resolve_right ?_) hright
    rintro ⟨⟨slack, hempty⟩, -⟩
    rw [hempty] at hdata
    exact absurd hdata Bool.false_ne_true
  · intro hnodata b param hchannel buffer
    -- the file is empty, so the key is under the lock
    have henc : fileBytes (s.machine.view .efKeyDevEnc) ≠ [] := by
      rcases h.stored.home with hhome | ⟨-, hne⟩
      · rw [fileHasData_of_length hhome.pos] at hnodata
        cases hnodata
      · exact hne
    have hdata : fileHasData (s.machine.view .efKeyDevEnc) = true :=
      fileHasData_of_length (List.length_pos_iff.mpr henc)
    have hopen := unlocked_right (b := b) hs hlen (KeyFor.sealed h hdata)
    obtain ⟨channel, data, hmse, hparam, h48, hkey⟩ := channelKey_some hchannel
    have hrun : calm (vendorUnlock d b param)
        (fun _ n => n.vars.hasKeydevDec = true ∧ n.vars.keydevDec = key) (fun _ _ => False)
        s.machine := by
      unfold vendorUnlock mseDecryptCt
      unfold unlocked at hopen
      simp only [bind_eq, pure_eq, calm_bind, calm_readVars, hmse, hparam, h48, ne_eq, not_true,
        if_false, calm_setting, hkey, calm_done, calm_readFile, Machine.setVars_view, hdata,
        Bool.true_eq_false, hopen]
      exact ⟨rfl, rfl⟩
    obtain ⟨hhas, hdec⟩ : (exec (vendorUnlock d b param) s.machine []).2.1.vars.hasKeydevDec = true ∧
        (exec (vendorUnlock d b param) s.machine []).2.1.vars.keydevDec = key := by
      unfold calm Ends at hrun
      split at hrun
      · exact hrun
      · exact hrun.elim
      · exact hrun.elim
    exact loaded_ram hhas hdec b buffer

/-- The device comes up with the key in its files. -/
structure KeyRun.Provisioned (d : Device) (key : Bytes) (s : KeyRun) : Prop where
  vars : s.machine.vars = FidoVars.atBoot
  stored : KeyStored d s.lockKey key (fileBytes (s.machine.view .efPin)) s.machine.view

/-- In every run from a provisioned device whose steps keep away from the ways to lose it, the
device key is safe at every step. -/
theorem keySafe_along (hd : d.Lawful) (hs : d.Sealing) (hlen : key.length = 32)
    (h : s.Provisioned d key) (inputs : List KeyInput)
    (hsafe : Along (KeyRun.step d) (KeyStepSafe d) s inputs) :
    KeySafe d key s ∧ Along (KeyRun.step d) (fun t i => KeySafe d key (t.step d i)) s inputs := by
  have hinv : s.Inv d key := by
    refine ⟨h.stored, ?_, ?_⟩
    · rw [h.vars]
      exact fun hhas => absurd hhas Bool.false_ne_true
    · rw [h.vars]
      exact .inl rfl
  refine ⟨keySafe_of_inv hd hs hlen hinv, along_law ?_ s inputs hsafe hinv⟩
  intro t i hi ht
  have hnext : (t.step d i).Inv d key := keyRun_step hd hs hlen ht i hi
  exact ⟨hnext, keySafe_of_inv hd hs hlen hnext⟩

end Runs

theorem plainSession {session : Bytes} (h : SessionKey plainDevice session) :
    ∃ pin : Bytes, pin.length = 16 ∧ session = pin ++ pin := by
  rcases h with rfl | ⟨pin, hpin, rfl | rfl⟩
  · exact ⟨List.replicate 16 0, by decide, by decide⟩
  · exact ⟨pin, hpin, padded_self (by simp [hpin])⟩
  · exact ⟨pin, hpin, padded_self (by simp [hpin])⟩

theorem plainDevice_sealing : plainDevice.Sealing where
  wrongSession version session session' msg nonce hs hs' hne hm hn := by
    obtain ⟨p, hp, rfl⟩ := plainSession hs
    obtain ⟨q, hq, rfl⟩ := plainSession hs'
    have hpq : p ≠ q := fun heq => hne (by rw [heq])
    have htag : ∀ r : Bytes, r.length = 16 → padded 16 (r ++ r) = r := by
      intro r hr
      rw [padded, List.append_assoc, List.take_left' hr]
    have h44 : (nonce ++ msg).length = 44 := by simp [hm, hn]
    have hdrop : (nonce ++ msg ++ p).drop 44 = p := by rw [← h44, List.drop_left]
    simp only [plainDevice, htag p hp, htag q hq, hdrop, hpq, if_false]
  chacha_length key msg nonce := by simp [plainDevice, padded_length]
  chacha_inverse key msg nonce hm _ := by
    simp only [plainDevice]
    rw [List.take_left' hm, List.drop_left' hm, if_pos rfl]
  chacha_authentic key key' msg nonce x hm _ h := by
    simp only [plainDevice] at h
    rw [List.take_left' hm] at h
    split_ifs at h
    exact (Option.some.inj h).symm

/-- A device at boot, without a PIN, over this key file. -/
def keyExample (keyFile : Bytes) : KeyRun :=
  let files : Files := fun
    | .efKeyDev => some ⟨keyFile, []⟩
    | _ => none
  ⟨⟨files, files, FidoVars.atBoot, [], []⟩, []⟩

def quiet : Beyond := ⟨fun _ => 0, fun _ => 0, fun _ => 0⟩

def setExample (pin : Bytes) : KeyInput := .clientPin quiet (.setPin (plainChange [] pin))

def channelExample : KeyInput := .vendorMse (some []) (some []) (-25)

/-- The parameter that brings this lock key through the channel. -/
def paramExample (x : Byte) : Option Bytes := some (List.replicate 48 x)

theorem keyExample_raw {keyFile : Bytes} (h : keyFile.length = 32) :
    (keyExample keyFile).Provisioned plainDevice keyFile :=
  ⟨rfl, .inl (.raw h rfl), .inl rfl⟩

/-- A raw key gets a PIN, is locked and unlocked, moves to another PIN and survives a reboot. -/
theorem keySafe_locked_and_moved :
    KeySafe plainDevice (List.replicate 32 0x2a) (keyExample (List.replicate 32 0x2a)) ∧
    Along (KeyRun.step plainDevice)
      (fun t i => KeySafe plainDevice (List.replicate 32 0x2a) (t.step plainDevice i))
      (keyExample (List.replicate 32 0x2a))
      [setExample [0x31, 0x32, 0x33, 0x34], channelExample,
        .autEnable quiet true (paramExample 5), .reboot [], channelExample,
        .vendorUnlock quiet (paramExample 5),
        .clientPin quiet (.changePin (plainChange [0x31, 0x32, 0x33, 0x34] [0x35, 0x36, 0x37, 0x38])),
        .reboot [], .loadKeydev quiet []] := by
  apply keySafe_along plainDevice_lawful plainDevice_sealing (by decide)
    (keyExample_raw (by decide))
  refine ⟨.inr ?_, trivial, fun _ => by decide +kernel, trivial, trivial, ?_, .inr ?_, trivial,
    trivial, trivial⟩
  · unfold rawTagged
    decide +kernel
  · exact fun hhas => absurd hhas (by decide +kernel)
  · unfold rawTagged
    decide +kernel

/-- Four ways to lose the key: AUT_ENABLE over a wrapped key stores what no lock key opens;
AUT_DISABLE leaves a wiped RAM copy in use; a wrong unlock key after a right one does the same; and
setPIN takes a raw key that begins with 0x01 for a tagged one. -/
theorem keySafe_broken :
    (plainDevice.Lawful ∧ plainDevice.Sealing) ∧
    ((keyExample (1 :: List.replicate 32 0x2a)).Provisioned plainDevice (List.replicate 32 0x2a) ∧
      ¬ Along (KeyRun.step plainDevice)
        (fun t i => KeySafe plainDevice (List.replicate 32 0x2a) (t.step plainDevice i))
        (keyExample (1 :: List.replicate 32 0x2a))
        [setExample [0x31, 0x32, 0x33, 0x34], channelExample,
          .autEnable quiet true (paramExample 5), channelExample]) ∧
    ((keyExample (List.replicate 32 0x2a)).Provisioned plainDevice (List.replicate 32 0x2a) ∧
      ¬ Along (KeyRun.step plainDevice)
        (fun t i => KeySafe plainDevice (List.replicate 32 0x2a) (t.step plainDevice i))
        (keyExample (List.replicate 32 0x2a))
        [setExample [0x31, 0x32, 0x33, 0x34], channelExample,
          .autEnable quiet true (paramExample 5), channelExample,
          .vendorUnlock quiet (paramExample 5), .autDisable true] ∧
      ¬ Along (KeyRun.step plainDevice)
        (fun t i => KeySafe plainDevice (List.replicate 32 0x2a) (t.step plainDevice i))
        (keyExample (List.replicate 32 0x2a))
        [setExample [0x31, 0x32, 0x33, 0x34], channelExample,
          .autEnable quiet true (paramExample 5), channelExample,
          .vendorUnlock quiet (paramExample 5), channelExample,
          .vendorUnlock quiet (paramExample 6)]) ∧
    ((keyExample (1 :: List.replicate 31 0x2a)).Provisioned plainDevice
        (1 :: List.replicate 31 0x2a) ∧
      ¬ Along (KeyRun.step plainDevice)
        (fun t i => KeySafe plainDevice (1 :: List.replicate 31 0x2a) (t.step plainDevice i))
        (keyExample (1 :: List.replicate 31 0x2a)) [setExample [0x31, 0x32, 0x33, 0x34]]) := by
  refine ⟨⟨plainDevice_lawful, plainDevice_sealing⟩, ⟨⟨rfl, .inl (.tagged (by decide) rfl), .inl rfl⟩,
    ?_⟩, ⟨keyExample_raw (by decide), ?_, ?_⟩, keyExample_raw (by decide), ?_⟩
  · rintro ⟨-, -, -, h, -⟩
    exact absurd (h.withLock (by decide +kernel) quiet (paramExample 5) (by decide +kernel) [])
      (by decide +kernel)
  · rintro ⟨-, -, -, -, -, h, -⟩
    exact absurd (h.loads quiet []) (by decide +kernel)
  · rintro ⟨-, -, -, -, -, -, h, -⟩
    exact absurd (h.loads quiet []) (by decide +kernel)
  · rintro ⟨h, -⟩
    exact absurd (h.loads quiet []) (by decide +kernel)

end KeyWallet
