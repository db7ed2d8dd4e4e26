import KeyWallet.PinChange

/-! The points of changePIN at which the key is lost, and from them the exact condition under which
the command is crash-consistent. -/
namespace KeyWallet

open CrashProgram

variable {d : Device} {b : Beyond} {pin key : Bytes} {m : FidoMachine}

/-- The hash of the new PIN in the request, if there is one. -/
def requestPin (d : Device) (req : PinRequest) (v : FidoVars) : Option Bytes :=
  match sharedSecret d v req, req.newPinEnc with
  | .ok secret, some newPinEnc =>
    (d.decrypt req.pinUvAuthProtocol secret newPinEnc).map fun padded => pinHash d (pinBytes padded)
  | _, _ => none

/-- The old PIN or the new one opens the key. -/
def Survives (d : Device) (req : PinRequest) (pin key : Bytes) (v : FidoVars) (files : Files) :
    Prop :=
  ∃ q, (q = pin ∨ requestPin d req v = some q) ∧ Opens d files q key

/-- However changePIN ends, with whatever the storage replies, one of the two PINs opens the key
after a reboot: from the flash as it is, and after an exit also from what is still to be drained
into it. -/
def CrashConsistent (d : Device) (req : PinRequest) (pin key : Bytes) (m : FidoMachine) : Prop :=
  ∀ b rs, (exec (changePin d b req) m rs).2.1.dropped = m.dropped →
    Survives d req pin key m.vars (exec (changePin d b req) m rs).2.1.flash ∧
    ((exec (changePin d b req) m rs).1 ≠ .lost →
      Survives d req pin key m.vars (exec (changePin d b req) m rs).2.1.view)

theorem crashConsistent_of_safe (hd : d.Lawful) (hpin : pin.length = 16) (req : PinRequest)
    (h : Secured d pin key m) (hsafe : ChangeSafe d req pin key m) :
    CrashConsistent d req pin key m := by
  intro b rs hdropped
  have hwp : wp Faults.honest (changePin d b req) (fun _ => Secured d pin key)
      (fun _ => Secured d pin key) (Secured d pin key) m :=
    changePin_secured id hd hpin req h hsafe
  have hends := wp_sound hwp trivial rs (.inr hdropped)
  have hsec : Secured d pin key (exec (changePin d b req) m rs).2.1 := by
    unfold Ends at hends
    split at hends <;> exact hends
  exact ⟨⟨pin, .inl rfl, hsec.flash⟩, fun _ => ⟨pin, .inl rfl, hsec.view⟩⟩

/-! The undisturbed run, up to the points at which it can be stopped. -/
section Calm

theorem mayLeave_accepted (hd : d.Lawful) (hpin : pin.length = 16) {req : PinRequest}
    {secret newPinEnc pinHashEnc plain : Bytes} (h : Opens d m.view pin key)
    (hguards : changePinGuards d b req m.vars m.view = .ok (secret, newPinEnc, pinHashEnc))
    (hplain : d.decrypt req.pinUvAuthProtocol secret pinHashEnc = some plain)
    (hver : storedVerifies d (fileBytes (m.view .efPin)) (readRaw b.stack (some ⟨plain, []⟩) 0 16))
    {C : Files → Prop}
    (hrest : MayLeave (changeAccepted d b req secret newPinEnc (spentBuffer m.view)
        (fileGetSize (m.view .efPin)) pin) C
      ((putEf m .efPin (spentPin m.view)).sync.record (.compared true))) :
    MayLeave (changePin d b req) C m := by
  obtain ⟨hcount, hlock, -, -⟩ := changePinGuards_ok hguards
  have hlen16 : (readRaw b.stack (some ⟨plain, []⟩) 0 16).length = 16 := readRaw_length _ _ _ _
  have hcand := storedVerifies_unique hd hlen16 hpin hver h.verifies
  have hsized := storedVerifies_sized h.verifies
  unfold changePin
  apply mayLeave_bind
  simp only [wp_consult, hguards]
  apply mayLeave_bind
  simp only [wp_liftCheck]
  apply mayLeave_bind
  apply spendRetry_wp (fun hb => absurd hb (by tauto))
  intro _ _
  refine ⟨⟨trivial, trivial⟩, ?_, False.elim⟩
  apply mayLeave_bind
  -- the comparison succeeds
  have hlen : (spentPin m.view).length = fileGetSize (m.view .efPin) := by
    simp [spentPin, fileGetSize]
  have hsized1 : PinSized (spentPin m.view) := by
    rw [PinSized, hlen]
    exact hsized
  have hv : pinVerifies d (spentBuffer m.view) (fileGetSize (m.view .efPin)) pin = true := by
    rw [← hlen]
    apply (pinVerifies_iff hsized1).mpr
    exact (storedVerifies_set _ _ _).mpr h.verifies
  unfold judgeCandidate
  simp only [hplain, hcand, hv, Bool.true_eq_false, if_false, bind_eq, pure_eq, wp_bind, wp_event,
    wp_readVars]
  rw [if_neg (by simp [hlock])]
  exact hrest

theorem loadKeydev_ram {f : Faults} {Q : Option Bytes → FidoMachine → Prop}
    {R : CtapErr → FidoMachine → Prop} {C : FidoMachine → Prop} (buffer : Bytes)
    (h : m.vars.hasKeydevDec = true) (hQ : Q (some m.vars.keydevDec) m) :
    wp f (loadKeydev d b buffer) Q R C m := by
  unfold loadKeydev
  simp only [bind_eq, pure_eq, wp_bind, wp_readVars, wp_readFile, h, Bool.true_eq_false, false_and,
    if_false, if_true, wp_done]
  exact hQ

theorem mayLeave_f1 (hd : d.Lawful) {other : Bytes} (hlen : other.length = 32)
    (hne : other ≠ key) {α : Type} {rest : Unit → Fido α} {req : PinRequest} {v : FidoVars} :
    MayLeave ((encryptKeydevF1 d other).bind rest)
      (fun files => ¬ Survives d req pin key v files) m := by
  unfold encryptKeydevF1
  apply mayLeave_bind
  simp only [bind_eq, wp_bind, wp_filePutData, wp_flashCommit]
  refine ⟨trivial, ⟨trivial, ?_, False.elim⟩, False.elim⟩
  apply mayLeave_now
  rintro ⟨q, -, -, hkey⟩
  simp only [Machine.sync_flash] at hkey
  rw [putEf_self, keydevPlain_f1 (by rw [hd.kbaseEncrypt_length, hlen]),
    hd.kbase_inverse other hlen] at hkey
  exact hne (Option.some.inj hkey)

/-- What check_keydev_encrypted leaves when it sees a tag. -/
theorem checkKeydevEncrypted_seals (token : Bytes)
    (h : readRaw b.flash (m.view .efKeyDev) 0 1 = [1]) :
    wp Faults.none (checkKeydevEncrypted d b token)
      (fun _ n => n.flash = n.view ∧ n.view .efPin = m.view .efPin ∧
        fileBytes (n.view .efKeyDev) = 3 :: d.encryptWithAad 2 token
          (readRaw b.flash (m.view .efKeyDev) 1 32) (d.random m.vars.drawn 12))
      (fun _ _ => False) (fun _ => True) m := by
  unfold checkKeydevEncrypted encryptWithAad randomFill
  simp only [bind_eq, pure_eq, wp_bind, wp_readFile, h, if_true, wp_readVars, wp_setting, wp_done,
    wp_filePutData, wp_flashCommit]
  refine ⟨trivial, ⟨trivial, ⟨rfl, ?_, ?_⟩, False.elim⟩, False.elim⟩
  · rw [Machine.setVars_view, Machine.sync_view, putEf_of_ne _ _ (by decide)]
    rfl
  · rw [Machine.setVars_view, Machine.sync_view, putEf_self]

theorem rewrapKeydev_moves (hd : d.Lawful) {m' : FidoMachine} (h : Settled d pin key m m')
    (hram : ramAgrees m.vars key) (keydev hash : Bytes) :
    wp Faults.none (rewrapKeydev d b keydev hash)
      (fun _ n => n.flash .efPin = m'.view .efPin ∧ ∃ x draw, x.length = 32 ∧
        fileBytes (n.flash .efKeyDev) =
          3 :: d.encryptWithAad 2 (d.pinDeriveSession hash) x (d.random draw 12))
      (fun _ _ => False) (fun _ => True) m' := by
  have hk : key.length = 32 := keydevPlain_length hd h.secured.view.decrypts
  have hram' : m'.vars.hasKeydevDec = true → m'.vars.keydevDec = key := by
    rw [h.keeps.has, h.keeps.dec]
    exact hram
  unfold rewrapKeydev setSession
  simp only [bind_eq, wp_bind]
  have hsess : m'.vars.sessionPin = pinSession d (fileBytes (m'.view .efPin)) pin := by
    rw [pinSession_new h.sized, h.session]
  apply wp_mono (loadKeydev_secured id hd h.secured hsess hram' keydev) _ (fun _ _ hn => hn)
    (fun _ _ => trivial)
  rintro r n ⟨rfl, hn⟩
  simp only [wp_bind, wp_setting]
  apply wp_mono (encryptKeydevF1_secured id hd hn.secured) _ (fun _ _ hn => hn) (fun _ _ => trivial)
  rintro - n1 ⟨hn1, hbytes⟩
  have hlen : (fileBytes (n1.view .efKeyDev)).length = 33 := by
    rw [hbytes, List.length_cons, hd.kbaseEncrypt_length, hk]
  have hfirst : readRaw b.flash (n1.view .efKeyDev) 0 1 = [1] := by
    rw [readRaw_first _ (by omega), hbytes]
    rfl
  apply wp_mono (checkKeydevEncrypted_seals (d.pinDeriveSession hash)
    (m := n1.setVars { n1.vars with sessionPin := d.pinDeriveSession hash }) hfirst) _
    (fun _ _ hn => hn) (fun _ _ => trivial)
  rintro - n2 ⟨hflash, hpin2, hkey2⟩
  refine ⟨?_, _, _, ?_, hflash ▸ hkey2⟩
  · rw [hflash, hpin2, Machine.setVars_view, hn1.pin, hn.pin]
  · rw [readRaw_inside _ _ (by rw [Machine.setVars_view]; omega), List.length_take,
      List.length_drop, Machine.setVars_view]
    omega

theorem readRaw_behind {past : Nat → Byte} {data : Bytes} (h : data.length = 32) :
    readRaw past (some ⟨data, []⟩) 1 32 = data.drop 1 ++ [past 0] := by
  apply List.ext_getElem
  · simp [readRaw, h]
  · intro j hj _
    have hj : j < 32 := by simpa [readRaw] using hj
    simp only [readRaw, List.append_nil, List.getElem_map, List.getElem_range,
      List.getElem_append, List.length_drop, h]
    split_ifs with hlt
    · rw [List.getElem_drop, List.getD_eq_getElem?_getD, List.getElem?_eq_getElem (by omega),
        Option.getD_some]
    · have hj31 : j = 31 := by omega
      subst hj31
      simp [h]

theorem acceptOldPin_seals {pinData : Bytes} {len : Nat} (hpd : pinData.length = pinDataLen)
    (hlen : len = pinDataLen) (hver : d.pinDeriveVerifier pin = pinData.drop 3)
    (h : readRaw b.flash (m.view .efKeyDev) 0 1 = [1]) :
    wp Faults.none (acceptOldPin d b pinData len pin)
      (fun _ n => storedVerifies d (fileBytes (n.flash .efPin)) pin ∧
        (fileBytes (n.flash .efPin)).length = pinDataLen ∧ ∃ draw,
        fileBytes (n.flash .efKeyDev) = 3 :: d.encryptWithAad 2 (d.pinDeriveSession pin)
          (readRaw b.flash (m.view .efKeyDev) 1 32) (d.random draw 12))
      (fun _ _ => False) (fun _ => True) m := by
  have hne : ¬ pinDataLen = pinLegacyDataLen := by decide
  unfold acceptOldPin upgradeLegacy storeOldPin setSession
  simp only [hlen, hne, if_false, bind_eq, pure_eq, wp_bind, wp_done, wp_setting, wp_filePutData,
    wp_flashCommit]
  refine ⟨trivial, ⟨trivial, ?_, False.elim⟩, False.elim⟩
  set n := (putEf (m.setVars { m.vars with sessionPin := d.pinDeriveSession pin }) .efPin
    (pinData.set 0 maxPinRetries)).sync with hn
  have hkey : n.view .efKeyDev = m.view .efKeyDev := by
    rw [hn, Machine.sync_view, putEf_of_ne _ _ (by decide)]
    rfl
  have hpin : fileBytes (n.view .efPin) = pinData.set 0 maxPinRetries := by
    rw [hn, Machine.sync_view, putEf_self]
  apply wp_mono (checkKeydevEncrypted_seals (m := n) _ (by rw [hkey, h])) _ (fun _ _ hn => hn)
    (fun _ hn => hn)
  rintro - n' ⟨hflash, hpin', hkey'⟩
  have hsize : (pinData.set 0 maxPinRetries).length = pinDataLen := by rw [List.length_set, hpd]
  have hfp : fileBytes (n'.flash .efPin) = pinData.set 0 maxPinRetries := by
    rw [hflash, hpin', hpin]
  refine ⟨?_, ?_, n.vars.drawn, ?_⟩
  · rw [Machine.setVars_flash, hfp]
    refine .inr ⟨hsize, ?_⟩
    rw [hver, List.drop_set, if_pos (by decide)]
  · rw [Machine.setVars_flash, hfp, hsize]
  · rw [Machine.setVars_flash, hflash, hkey', hkey]

end Calm

/-- The state before the call: a PIN of 16 hash bytes is stored and opens the key. The RAM copy has
its 32 bytes, and a raw key file was written anew, as it is when the vendor lock is lifted. -/
structure StoredPin (d : Device) (pin key : Bytes) (m : FidoMachine) : Prop where
  secured : Secured d pin key m
  pin_length : pin.length = 16
  ram_length : m.vars.keydevDec.length = 32
  raw_fresh : (fileBytes (m.view .efKeyDev)).length = 32 →
    m.view .efKeyDev = some ⟨fileBytes (m.view .efKeyDev), []⟩

theorem requestPin_length (hd : d.Lawful) {req : PinRequest} {v : FidoVars} {q : Bytes}
    (h : requestPin d req v = some q) : q.length = 16 := by
  unfold requestPin at h
  split at h
  · obtain ⟨padded, -, rfl⟩ := Option.map_eq_some_iff.mp h
    exact pinHash_length hd _
  · cases h

theorem requestPin_of_accepted {req : PinRequest} {newPin : Bytes}
    (h : newPinAccepted d b req m newPin) : requestPin d req m.vars = some (pinHash d newPin) := by
  obtain ⟨secret, newPinEnc, pinHashEnc, hguards, hnew⟩ := h
  obtain ⟨-, -, henc, hsecret⟩ := changePinGuards_ok hguards
  unfold changeNewPin at hnew
  split at hnew
  · cases hnew
  · next padded hpadded =>
    have hpin : pinBytes padded = newPin := by
      cases hmin : minpinReadLength (m.view .efMinPinLen) with
      | none =>
        simp only [checkNewPin, hmin] at hnew
        split_ifs at hnew
      | some minPin =>
        simp only [checkNewPin, hmin] at hnew
        split_ifs at hnew
        exact Except.ok.inj hnew
    simp only [requestPin, hsecret, henc, hpadded, Option.map_some, hpin]

theorem survivor_eq (hd : d.Lawful) (hpin : pin.length = 16) {req : PinRequest} {v : FidoVars}
    {q data : Bytes} (hq : q = pin ∨ requestPin d req v = some q)
    (hpinv : storedVerifies d data pin) (hqv : storedVerifies d data q) : q = pin := by
  rcases hq with rfl | hq
  · rfl
  · exact storedVerifies_unique hd (requestPin_length hd hq) hpin hqv hpinv

section Exact

variable {req : PinRequest} {newPin : Bytes}

theorem legacy_ram_of_consistent (hd : d.Lawful) (hs : StoredPin d pin key m)
    (hc : CrashConsistent d req pin key m) (hacc : oldPinAccepted d b req m)
    (hleg : legacyPin m.view) : ramAgrees m.vars key := by
  intro hhas
  by_contra hne
  obtain ⟨secret, newPinEnc, pinHashEnc, plain, hguards, hplain, hver⟩ := hacc
  -- the RAM copy is written to the key file, and then the power goes
  have hmay : MayLeave (changePin d b req)
      (fun files => ¬ Survives d req pin key m.vars files) m := by
    apply mayLeave_accepted hd hs.pin_length hs.secured.view hguards hplain hver
    unfold changeAccepted acceptOldPin upgradeLegacy
    have hlen : fileGetSize (m.view .efPin) = pinLegacyDataLen := hleg
    simp only [hlen, if_true, bind_eq]
    apply mayLeave_first
    apply mayLeave_first
    apply mayLeave_bind
    simp only [setSession, wp_setting]
    apply mayLeave_bind
    refine loadKeydev_ram _ hhas ?_
    exact mayLeave_f1 hd hs.ram_length hne
  obtain ⟨rs, hlost, hdropped⟩ := hmay
  exact hlost (hc b rs hdropped).1

theorem mayLeave_tagged (hd : d.Lawful) (hs : StoredPin d pin key m)
    (hacc : oldPinAccepted d b req m) (hleg : ¬ legacyPin m.view) (hraw : rawTagged m.view) :
    MayLeave (changePin d b req) (fun files => Survives d req pin key m.vars files →
      d.kbaseDecrypt ((fileBytes (m.view .efKeyDev)).drop 1 ++ [b.flash 0]) = key) m := by
  obtain ⟨h32, h1⟩ := hraw
  have hnew : (fileBytes (m.view .efPin)).length = pinDataLen :=
    (storedVerifies_sized hs.secured.view.verifies).resolve_left hleg
  obtain ⟨secret, newPinEnc, pinHashEnc, plain, hguards, hplain, hver⟩ := hacc
  apply mayLeave_accepted hd hs.pin_length hs.secured.view hguards hplain hver
  unfold changeAccepted
  apply mayLeave_bind
  have hsize : fileGetSize (m.view .efPin) = pinDataLen := hnew
  have hbuf : spentBuffer m.view = spentPin m.view := by
    rw [spentBuffer, hsize, Nat.sub_self, List.replicate_zero, List.append_nil]
  have hpd : (spentPin m.view).length = pinDataLen := by rw [spentPin, List.length_set, hnew]
  have hdrop : d.pinDeriveVerifier pin = (spentPin m.view).drop 3 := by
    rw [spentPin, List.drop_set, if_pos (by decide)]
    rcases hs.secured.view.verifies with ⟨hl, -⟩ | ⟨-, hv⟩
    · exact absurd hl hleg
    · exact hv
  have hfresh := hs.raw_fresh h32
  have hkey1 : ((putEf m .efPin (spentPin m.view)).sync.record (.compared true)).view .efKeyDev =
      some ⟨fileBytes (m.view .efKeyDev), []⟩ := by
    have hne : (putEf m .efPin (spentPin m.view)).view .efKeyDev = m.view .efKeyDev :=
      putEf_of_ne m _ (by decide)
    exact hne.trans hfresh
  have hfirst : readRaw b.flash (((putEf m .efPin (spentPin m.view)).sync.record
      (.compared true)).view .efKeyDev) 0 1 = [1] := by
    rw [hkey1, readRaw_first _ (by show 0 < (fileBytes (m.view .efKeyDev)).length; omega)]
    exact congrArg (fun x => [x]) h1
  rw [hbuf]
  apply wp_mono (acceptOldPin_seals hpd hsize hdrop hfirst) _ (fun _ _ hn => hn) (fun _ hn => hn)
  rintro _ n ⟨hpinv, hlen, draw, hkeyn⟩
  apply mayLeave_now
  rintro ⟨q, hq, hqv, hqk⟩
  obtain rfl := survivor_eq hd hs.pin_length hq hpinv hqv
  rw [hkey1, readRaw_behind h32] at hkeyn
  rw [hkeyn, pinSession_new hlen, keydevPlain_f3 hd (by simp [h32]) (hd.random_length _ _)] at hqk
  exact Option.some.inj hqk

theorem untagged_of_consistent (hd : d.Lawful) (hs : StoredPin d pin key m)
    (hc : CrashConsistent d req pin key m) (hacc : oldPinAccepted d b req m)
    (hleg : ¬ legacyPin m.view) : ¬ rawTagged m.view := by
  intro hraw
  -- whatever byte follows the file, the sealed key would have to be the right one
  have hbyte : ∀ x : Byte,
      d.kbaseDecrypt ((fileBytes (m.view .efKeyDev)).drop 1 ++ [x]) = key := by
    intro x
    have hacc' : oldPinAccepted d { b with flash := fun _ => x } req m := hacc
    obtain ⟨rs, hkey, hdropped⟩ := mayLeave_tagged hd hs hacc' hleg hraw
    exact hkey (hc _ rs hdropped).1
  have h01 := hd.kbaseDecrypt_inj _ _ ((hbyte 0).trans (hbyte 1).symm)
  simp at h01

theorem mayLeave_rewrap (hd : d.Lawful) (hs : StoredPin d pin key m)
    (hacc : oldPinAccepted d b req m) (hnew : newPinAccepted d b req m newPin)
    (hlegacy : legacyPin m.view → ramAgrees m.vars key)
    (htag : legacyPin m.view ∨ ¬ rawTagged m.view) {C : Files → Prop}
    (hrest : ∀ n keydev, Settled d pin key m n →
      MayLeave ((rewrapKeydev d b keydev (pinHash d newPin)).bind fun _ =>
        flashCommit.bind fun _ => storeNewPin d newPin) C n) :
    MayLeave (changePin d b req) C m := by
  obtain ⟨secret, newPinEnc, pinHashEnc, plain, hguards, hplain, hver⟩ := hacc
  obtain ⟨secret', newPinEnc', pinHashEnc', hguards', hnewPin⟩ := hnew
  rw [hguards] at hguards'
  obtain ⟨rfl, rfl, rfl⟩ := (by simpa using hguards' :
    secret = secret' ∧ newPinEnc = newPinEnc' ∧ pinHashEnc = pinHashEnc')
  apply mayLeave_accepted hd hs.pin_length hs.secured.view hguards hplain hver
  unfold changeAccepted
  apply mayLeave_bind
  apply wp_mono (acceptOldPin_compared id hd hs.secured hlegacy htag) _ (fun _ _ hn => hn)
    (fun _ _ => trivial)
  intro keydev n hn
  apply mayLeave_bind
  rw [wp_consult, changeNewPin_congr hn.keeps, hnewPin]
  apply mayLeave_bind
  exact hrest n keydev hn

theorem ram_of_consistent (hd : d.Lawful) (hs : StoredPin d pin key m)
    (hc : CrashConsistent d req pin key m) (hacc : oldPinAccepted d b req m)
    (hnew : newPinAccepted d b req m newPin) (hlegacy : legacyPin m.view → ramAgrees m.vars key)
    (htag : legacyPin m.view ∨ ¬ rawTagged m.view) : ramAgrees m.vars key := by
  intro hhas
  by_contra hne
  have hmay : MayLeave (changePin d b req)
      (fun files => ¬ Survives d req pin key m.vars files) m := by
    apply mayLeave_rewrap hd hs hacc hnew hlegacy htag
    intro n keydev hn
    apply mayLeave_first
    unfold rewrapKeydev
    apply mayLeave_bind
    refine loadKeydev_ram _ (hn.keeps.has.trans hhas) ?_
    rw [hn.keeps.dec]
    exact mayLeave_f1 hd hs.ram_length hne
  obtain ⟨rs, hlost, hdropped⟩ := hmay
  exact hlost (hc b rs hdropped).1

theorem same_of_consistent (hd : d.Lawful) (hs : StoredPin d pin key m)
    (hc : CrashConsistent d req pin key m) (hacc : oldPinAccepted d b req m)
    (hnew : newPinAccepted d b req m newPin) (hram : ramAgrees m.vars key)
    (htag : legacyPin m.view ∨ ¬ rawTagged m.view) : pinHash d newPin = pin := by
  by_contra hne
  have hmay : MayLeave (changePin d b req)
      (fun files => ¬ Survives d req pin key m.vars files) m := by
    apply mayLeave_rewrap hd hs hacc hnew (fun _ => hram) htag
    intro n keydev hn
    apply mayLeave_bind
    apply wp_mono (rewrapKeydev_moves hd hn hram keydev (pinHash d newPin)) _ (fun _ _ hn => hn)
      (fun _ hn => hn)
    rintro - n' ⟨hpin', x, draw, hx, hkey'⟩
    -- the key is sealed under the new PIN, the file still asks for the old one
    apply mayLeave_now
    rintro ⟨q, hq, hqv, hqk⟩
    rw [hpin'] at hqv hqk
    obtain rfl := survivor_eq hd hs.pin_length hq hn.secured.view.verifies hqv
    rw [pinSession_new hn.sized, hkey', keydevPlain_f3_other hd hx (hd.random_length _ _)
      (pinHash_length hd newPin) hs.pin_length hne] at hqk
    cases hqk
  obtain ⟨rs, hlost, hdropped⟩ := hmay
  exact hlost (hc b rs hdropped).1

end Exact

/-- changePIN is crash-consistent with the device key for exactly the requests that are turned away
before they touch the key, or whose new PIN is the old one. -/
theorem changePin_consistent_iff (hd : d.Lawful) (req : PinRequest) (hs : StoredPin d pin key m) :
    CrashConsistent d req pin key m ↔ ChangeSafe d req pin key m := by
  refine ⟨fun hc b hacc => ?_, crashConsistent_of_safe hd hs.pin_length req hs.secured⟩
  have hlegacy := legacy_ram_of_consistent hd hs hc hacc
  have htag : legacyPin m.view ∨ ¬ rawTagged m.view := by
    by_cases hleg : legacyPin m.view
    · exact .inl hleg
    · exact .inr (untagged_of_consistent hd hs hc hacc hleg)
  refine ⟨hlegacy, htag, fun newPin hnew => ?_⟩
  have hram := ram_of_consistent hd hs hc hacc hnew hlegacy htag
  exact ⟨hram, same_of_consistent hd hs hc hacc hnew hram htag⟩

/-- A device at rest with these two files. -/
def restingMachine (pinFile keyFile : Bytes) : FidoMachine :=
  let files : Files := fun
    | .efPin => some ⟨pinFile, []⟩
    | .efKeyDev => some ⟨keyFile, []⟩
    | _ => none
  { view := files, flash := files, vars := { FidoVars.atBoot with hkey := 1 }, log := [],
    dropped := [] }

/-- A protocol 1 request, as the plain device reads it. -/
def plainChange (old new : Bytes) : PinRequest where
  pinUvAuthProtocol := 1
  kax := some []
  kay := some []
  alg := -25
  pinUvAuthParam := some (List.replicate 16 0)
  newPinEnc := some (padded 64 new)
  pinHashEnc := some (padded 16 old)
  permissions := 0
  rpId := none

/-- PIN "1234" over the key 0x2a.., in format 0x01. -/
def storedExample : FidoMachine :=
  restingMachine
    (8 :: 4 :: 1 :: plainDevice.pinDeriveVerifier (padded 16 [0x31, 0x32, 0x33, 0x34]))
    (1 :: List.replicate 32 0x2a)

theorem storedExample_stored :
    StoredPin plainDevice (padded 16 [0x31, 0x32, 0x33, 0x34]) (List.replicate 32 0x2a)
      storedExample where
  secured := by
    have h : Opens plainDevice storedExample.view (padded 16 [0x31, 0x32, 0x33, 0x34])
        (List.replicate 32 0x2a) := ⟨.inr ⟨by decide, by decide⟩, by decide +kernel⟩
    exact ⟨h, h⟩
  pin_length := by decide
  ram_length := by decide
  raw_fresh := by decide

/-- Changing "1234" to "1234" is safe. -/
theorem changePin_same_pin :
    CrashConsistent plainDevice (plainChange [0x31, 0x32, 0x33, 0x34] [0x31, 0x32, 0x33, 0x34])
      (padded 16 [0x31, 0x32, 0x33, 0x34]) (List.replicate 32 0x2a) storedExample := by
  refine (changePin_consistent_iff plainDevice_lawful _ storedExample_stored).mpr ?_
  intro b _
  have hleg : ¬ legacyPin storedExample.view := by
    unfold legacyPin
    decide
  have hraw : ¬ rawTagged storedExample.view := by
    unfold rawTagged
    decide
  have hram : ramAgrees storedExample.vars (List.replicate 32 0x2a) := by
    intro h
    exact absurd h (by decide)
  refine ⟨fun _ => hram, .inr hraw, fun newPin hnew => ⟨hram, ?_⟩⟩
  have hreq := requestPin_of_accepted hnew
  have hval : requestPin plainDevice
      (plainChange [0x31, 0x32, 0x33, 0x34] [0x31, 0x32, 0x33, 0x34]) storedExample.vars =
      some (padded 16 [0x31, 0x32, 0x33, 0x34]) := by decide +kernel
  exact Option.some.inj (hreq.symm.trans hval)

/-- "1234" to "5678", and the power goes at the commit after the rewrap: the verifier is that of
"1234", the key is sealed under "5678". -/
theorem changePin_loses_key :
    StoredPin plainDevice (padded 16 [0x31, 0x32, 0x33, 0x34]) (List.replicate 32 0x2a)
      storedExample ∧
    ¬ CrashConsistent plainDevice (plainChange [0x31, 0x32, 0x33, 0x34] [0x35, 0x36, 0x37, 0x38])
      (padded 16 [0x31, 0x32, 0x33, 0x34]) (List.replicate 32 0x2a) storedExample := by
  refine ⟨storedExample_stored, fun hc => ?_⟩
  have h := (hc ⟨fun _ => 0, fun _ => 0, fun _ => 0⟩ (List.replicate 10 .ok ++ [.powerLoss])
    (by decide +kernel)).1
  obtain ⟨q, hq, hqv, hqk⟩ := h
  rcases hq with rfl | hq
  · exact absurd hqk (by decide +kernel)
  · have hval : requestPin plainDevice
        (plainChange [0x31, 0x32, 0x33, 0x34] [0x35, 0x36, 0x37, 0x38]) storedExample.vars =
        some (padded 16 [0x35, 0x36, 0x37, 0x38]) := by decide +kernel
    obtain rfl := Option.some.inj (hval.symm.trans hq)
    exact absurd hqv (by decide +kernel)

end KeyWallet
