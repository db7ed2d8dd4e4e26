import KeyWallet.KeyVendor
import KeyWallet.PinChange

/-! The device key through its storage formats: what the files must hold for the key to be there,
and that the PIN commands, the loading of the key and the vendor commands keep it. -/
namespace KeyWallet

open CrashProgram

/-- The sessions the device can be in: none yet, or that of some PIN. -/
def SessionKey (d : Device) (session : Bytes) : Prop :=
  session = List.replicate 32 0 ∨
    ∃ pin : Bytes, pin.length = 16 ∧ (session = d.hashMulti pin ∨ session = d.pinDeriveSession pin)

/-- What is assumed of the authenticated ciphers: under another session of the device nothing opens,
and what opens under a lock key is what was sealed. -/
structure Device.Sealing (d : Device) : Prop where
  wrongSession : ∀ version session session' msg nonce, SessionKey d session →
    SessionKey d session' → session ≠ session' → msg.length = 32 → nonce.length = 12 →
    d.decryptWithAad version session' (d.encryptWithAad version session msg nonce) = none
  chacha_length : ∀ key msg nonce, (d.chachaEncrypt key msg nonce).length = msg.length + 16
  chacha_inverse : ∀ key msg nonce, msg.length = 32 → nonce.length = 12 →
    d.chachaDecrypt key nonce ((d.chachaEncrypt key msg nonce).take 32)
      ((d.chachaEncrypt key msg nonce).drop 32) = some msg
  chacha_authentic : ∀ key key' msg nonce x, msg.length = 32 → nonce.length = 12 →
    d.chachaDecrypt key' nonce ((d.chachaEncrypt key msg nonce).take 32)
      ((d.chachaEncrypt key msg nonce).drop 32) = some x → x = msg

/-- The formats in which EF_KEY_DEV holds the key: raw, tagged, or wrapped under the PIN that the
PIN file accepts. -/
inductive HoldsKey (d : Device) (key pinFile : Bytes) : Bytes → Prop
  | raw {data : Bytes} (hlen : data.length = 32) (hkey : rawKey d data = key) :
    HoldsKey d key pinFile data
  | tagged {x : Bytes} (hlen : x.length = 32) (hkey : d.kbaseDecrypt x = key) :
    HoldsKey d key pinFile (1 :: x)
  | wrapped {pin x nonce : Bytes} {format : Byte} (hpin : pin.length = 16)
    (hverifies : storedVerifies d pinFile pin) (hformat : format = 2 ∨ format = 3)
    (hlen : x.length = 32) (hnonce : nonce.length = 12) (hkey : d.kbaseDecrypt x = key) :
    HoldsKey d key pinFile
      (format :: d.encryptWithAad (if format = 3 then 2 else 1) (pinSession d pinFile pin) x nonce)

/-- EF_KEY_DEV after the vendor lock: empty, over zeros. -/
def Emptied (ef : Option Ef) : Prop := ∃ slack, ef = some ⟨[], 0 :: slack⟩

/-- EF_KEY_DEV_ENC holds the key under the lock key. -/
def LockSealed (d : Device) (lockKey key data : Bytes) : Prop :=
  ∃ nonce, nonce.length = 12 ∧ data = nonce ++ d.chachaEncrypt lockKey key nonce

/-- The files hold the key, where `pinFile` is the content of EF_PIN that counts. -/
structure KeyStored (d : Device) (lockKey key pinFile : Bytes) (files : Files) : Prop where
  home : HoldsKey d key pinFile (fileBytes (files .efKeyDev)) ∨
    Emptied (files .efKeyDev) ∧ fileBytes (files .efKeyDevEnc) ≠ []
  enc : fileBytes (files .efKeyDevEnc) = [] ∨
    LockSealed d lockKey key (fileBytes (files .efKeyDevEnc))

/-- The device has the key: in its files, in the RAM copy if that is in use, and in no session but
its own. -/
structure KeyFor (d : Device) (lockKey key pinFile : Bytes) (m : FidoMachine) : Prop where
  stored : KeyStored d lockKey key pinFile m.view
  ram : ramAgrees m.vars key
  session : SessionKey d m.vars.sessionPin

/-- Between two commands the PIN file that counts is the one there is. -/
def KeyInv (d : Device) (lockKey key : Bytes) (m : FidoMachine) : Prop :=
  KeyFor d lockKey key (fileBytes (m.view .efPin)) m

section Formats

variable {d : Device} {lockKey key pinFile pinFile' : Bytes} {m n : FidoMachine}

theorem sessionKey_pinSession {pin : Bytes} (h : pin.length = 16) (data : Bytes) :
    SessionKey d (pinSession d data pin) := by
  refine .inr ⟨pin, h, ?_⟩
  unfold pinSession
  split_ifs
  · exact .inl rfl
  · exact .inr rfl

/-- What the PIN file must keep for a wrapped key: its PIN, and that PIN's session. -/
def SamePins (d : Device) (pinFile pinFile' : Bytes) : Prop :=
  ∀ pin : Bytes, pin.length = 16 → storedVerifies d pinFile pin →
    storedVerifies d pinFile' pin ∧ pinSession d pinFile' pin = pinSession d pinFile pin

theorem SamePins.refl (pinFile : Bytes) : SamePins d pinFile pinFile := fun _ _ h => ⟨h, rfl⟩

theorem SamePins.retry (pinFile : Bytes) (x : Byte) : SamePins d pinFile (pinFile.set 0 x) :=
  fun _ _ h => ⟨(storedVerifies_set _ _ _).mpr h, pinSession_set _ _ _⟩

theorem SamePins.of_new (hd : d.Lawful) {pin : Bytes} (hpin : pin.length = 16)
    (hlen : pinFile.length = pinDataLen) (h : storedVerifies d pinFile pin)
    (hlen' : pinFile'.length = pinDataLen) (h' : storedVerifies d pinFile' pin) :
    SamePins d pinFile pinFile' := by
  intro q hq hv
  obtain rfl := storedVerifies_unique hd hq hpin hv h
  exact ⟨h', by rw [pinSession_new hlen, pinSession_new hlen']⟩

theorem HoldsKey.congr {data : Bytes} (h : HoldsKey d key pinFile data)
    (hs : SamePins d pinFile pinFile') : HoldsKey d key pinFile' data := by
  cases h with
  | raw hlen hkey => exact .raw hlen hkey
  | tagged hlen hkey => exact .tagged hlen hkey
  | wrapped hpin hverifies hformat hlen hnonce hkey =>
    obtain ⟨hv, hsession⟩ := hs _ hpin hverifies
    rw [← hsession]
    exact .wrapped hpin hv hformat hlen hnonce hkey

theorem HoldsKey.pos {data : Bytes} (h : HoldsKey d key pinFile data) :
    0 < data.length := by
  cases h with
  | raw hlen hkey => omega
  | tagged hlen hkey => exact Nat.succ_pos _
  | wrapped hpin hverifies hformat hlen hnonce hkey => exact Nat.succ_pos _

theorem keydevPlain_wrapped {session payload : Bytes} {format : Byte}
    (hformat : format = 2 ∨ format = 3) (h60 : payload.length = 60) :
    keydevPlain d session (format :: payload) =
      (d.decryptWithAad (if format = 3 then 2 else 1) session payload).map d.kbaseDecrypt := by
  rcases hformat with rfl | rfl <;> simp [keydevPlain, h60]

/-- The session of the right PIN; without a PIN, any. -/
def RightSession (d : Device) (pinFile session : Bytes) : Prop :=
  pinFile = [] ∨ ∃ pin : Bytes, pin.length = 16 ∧ storedVerifies d pinFile pin ∧
    session = pinSession d pinFile pin

theorem HoldsKey.opens (hd : d.Lawful) {data session : Bytes} (h : HoldsKey d key pinFile data)
    (hr : RightSession d pinFile session) : keydevPlain d session data = some key := by
  cases h with
  | raw hlen hkey => rw [keydevPlain, if_pos hlen, hkey]
  | tagged hlen hkey => rw [keydevPlain_f1 hlen, hkey]
  | @wrapped pin x nonce format hpin hverifies hformat hlen hnonce hkey =>
    have hsession : session = pinSession d pinFile pin := by
      rcases hr with rfl | ⟨q, hq, hv, rfl⟩
      · exact absurd (storedVerifies_sized hverifies).pos (by simp)
      · rw [storedVerifies_unique hd hq hpin hv hverifies]
    have h60 := hd.sealed_length (if format = 3 then 2 else 1) (pinSession d pinFile pin) x nonce
      hlen hnonce
    rw [keydevPlain_wrapped hformat h60]
    rw [hsession, hd.unsealed _ _ _ _ hlen hnonce, Option.map_some, hkey]

end Formats

section Frames

variable {d : Device} {lockKey key pinFile pinFile' : Bytes} {m n : FidoMachine}

theorem KeyFor.congr (h : KeyFor d lockKey key pinFile m) (hs : SamePins d pinFile pinFile') :
    KeyFor d lockKey key pinFile' m :=
  ⟨⟨h.stored.home.imp_left fun hk => hk.congr hs, h.stored.enc⟩, h.ram, h.session⟩

/-- What the key needs of the machine. -/
structure KeyFrame (m n : FidoMachine) : Prop where
  keyDev : n.view .efKeyDev = m.view .efKeyDev
  keyDevEnc : n.view .efKeyDevEnc = m.view .efKeyDevEnc
  has : n.vars.hasKeydevDec = m.vars.hasKeydevDec
  dec : n.vars.keydevDec = m.vars.keydevDec

theorem KeyFrame.refl (m : FidoMachine) : KeyFrame m m := ⟨rfl, rfl, rfl, rfl⟩

theorem KeyFor.frame (h : KeyFor d lockKey key pinFile m) (hf : KeyFrame m n)
    (hsession : SessionKey d n.vars.sessionPin) : KeyFor d lockKey key pinFile n := by
  refine ⟨⟨?_, ?_⟩, ?_, hsession⟩
  · rw [hf.keyDev, hf.keyDevEnc]
    exact h.stored.home
  · rw [hf.keyDevEnc]
    exact h.stored.enc
  · intro hn
    rw [hf.dec]
    exact h.ram (hf.has.symm.trans hn)

theorem KeyFor.sync (h : KeyFor d lockKey key pinFile m) : KeyFor d lockKey key pinFile m.sync :=
  h.frame ⟨rfl, rfl, rfl, rfl⟩ h.session

theorem KeyFor.record (h : KeyFor d lockKey key pinFile m) (e : PinEvent) :
    KeyFor d lockKey key pinFile (m.record e) :=
  h.frame ⟨rfl, rfl, rfl, rfl⟩ h.session

theorem KeyFor.putPin (h : KeyFor d lockKey key pinFile m) (data : Bytes) :
    KeyFor d lockKey key pinFile (putEf m .efPin data) :=
  h.frame ⟨putEf_of_ne _ _ (by decide), putEf_of_ne _ _ (by decide), rfl, rfl⟩ h.session

theorem KeyFor.setSession (h : KeyFor d lockKey key pinFile m) {session : Bytes}
    (hs : SessionKey d session) :
    KeyFor d lockKey key pinFile (m.setVars { m.vars with sessionPin := session }) :=
  h.frame ⟨rfl, rfl, rfl, rfl⟩ hs

theorem KeyFor.putKey (h : KeyFor d lockKey key pinFile m) {data : Bytes}
    (hdata : HoldsKey d key pinFile' data) :
    KeyFor d lockKey key pinFile' (putEf m .efKeyDev data) := by
  refine ⟨⟨.inl ?_, ?_⟩, h.ram, h.session⟩
  · rw [putEf_self]
    exact hdata
  · rw [putEf_of_ne _ _ (by decide)]
    exact h.stored.enc

/-- The PIN file and the key file are not touched, nor is what is in RAM of the key. -/
def Fid.besides (k : Fid) : Prop := k ≠ .efPin ∧ k ≠ .efKeyDev ∧ k ≠ .efKeyDevEnc

def sameKeyVars (v v' : FidoVars) : Prop :=
  v'.hasKeydevDec = v.hasKeydevDec ∧ v'.keydevDec = v.keydevDec ∧ v'.sessionPin = v.sessionPin

/-- What a program leaves that stays away from all of it. -/
structure KeyUntouched (m n : FidoMachine) : Prop extends KeyFrame m n where
  session : n.vars.sessionPin = m.vars.sessionPin
  pin : n.view .efPin = m.view .efPin

theorem untouched_confined {α : Type} {p : Fido α}
    (hp : Confined (fun k _ => Fid.besides k) sameKeyVars p) (m : FidoMachine) :
    calm p (fun _ => KeyUntouched m) (fun _ => KeyUntouched m) m := by
  refine calm_confined ?_ ?_ ?_ hp ⟨.refl m, rfl, rfl⟩
  · rintro n k v ⟨h1, h2, h3⟩ hn
    refine ⟨⟨?_, ?_, hn.has, hn.dec⟩, hn.session, ?_⟩
    · rw [Machine.write_view, Function.update_of_ne h2.symm, hn.keyDev]
    · rw [Machine.write_view, Function.update_of_ne h3.symm, hn.keyDevEnc]
    · rw [Machine.write_view, Function.update_of_ne h1.symm, hn.pin]
  · exact fun n hn => ⟨⟨hn.keyDev, hn.keyDevEnc, hn.has, hn.dec⟩, hn.session, hn.pin⟩
  · rintro n v ⟨h1, h2, h3⟩ hn
    exact ⟨⟨hn.keyDev, hn.keyDevEnc, h1.trans hn.has, h2.trans hn.dec⟩, h3.trans hn.session, hn.pin⟩

theorem KeyFor.untouched (h : KeyFor d lockKey key pinFile m) (hu : KeyUntouched m n) :
    KeyFor d lockKey key pinFile n := by
  apply h.frame hu.toKeyFrame
  rw [hu.session]
  exact h.session

theorem resetAuthToken_besides {fid : Fid} (h : fid.besides) :
    Confined (fun k _ => Fid.besides k) sameKeyVars (resetAuthToken d fid) :=
  resetAuthToken_confined (fun _ => h) (fun _ => ⟨rfl, rfl, rfl⟩) (fun _ => ⟨rfl, rfl, rfl⟩)

theorem finishNewPin_besides :
    Confined (fun k _ => Fid.besides k) sameKeyVars (finishNewPin d) :=
  finishNewPin_confined (fun _ => ⟨by decide, by decide, by decide⟩)
    (fun _ => ⟨by decide, by decide, by decide⟩) (fun _ => ⟨by decide, by decide, by decide⟩)
    (fun _ => ⟨rfl, rfl, rfl⟩) (fun _ _ => ⟨rfl, rfl, rfl⟩) fun _ => ⟨rfl, rfl, rfl⟩

end Frames

/-! The functions that convert the key. -/
section Conversions

variable {d : Device} {b : Beyond} {lockKey key pinFile : Bytes} {m : FidoMachine}

/-- A key file holds the key for the whole of a step that leaves the PIN file alone. -/
def KeyStep (d : Device) (lockKey key pinFile : Bytes) (m n : FidoMachine) : Prop :=
  KeyFor d lockKey key pinFile n ∧ n.view .efPin = m.view .efPin

theorem putKeyDev_pin (m : FidoMachine) (data : Bytes) :
    (putEf m .efKeyDev data).view .efPin = m.view .efPin :=
  putEf_of_ne m data (by decide)

theorem wrapped_session (hd : d.Lawful) (hs : d.Sealing) {version : Nat} {session session' x nonce y : Bytes}
    (hsession : SessionKey d session) (hsession' : SessionKey d session') (hx : x.length = 32)
    (hn : nonce.length = 12)
    (hopen : d.decryptWithAad version session' (d.encryptWithAad version session x nonce) = some y) :
    session' = session ∧ y = x := by
  by_cases heq : session = session'
  · rw [← heq, hd.unsealed _ _ _ _ hx hn] at hopen
    exact ⟨heq.symm, (Option.some.inj hopen).symm⟩
  · rw [hs.wrongSession _ _ _ _ _ hsession hsession' heq hx hn] at hopen
    cases hopen

/-- load_keydev fails or finds the key, and leaves it in the files. -/
theorem loadKeydev_keeps (hd : d.Lawful) (hs : d.Sealing) (h : KeyFor d lockKey key pinFile m)
    (buffer : Bytes) :
    calm (loadKeydev d b buffer)
      (fun r n => (r = none ∨ r = some key) ∧ KeyStep d lockKey key pinFile m n)
      (fun _ _ => False) m := by
  have hself : KeyStep d lockKey key pinFile m m := ⟨h, rfl⟩
  unfold loadKeydev
  simp only [bind_eq, pure_eq, calm_bind, calm_readVars, calm_readFile, fileGetSize]
  by_cases hhas : m.vars.hasKeydevDec = true
  · simp only [hhas, Bool.true_eq_false, false_and, if_false, if_true, calm_done]
    exact ⟨.inr (by rw [h.ram hhas]), hself⟩
  rw [Bool.not_eq_true] at hhas
  rcases h.stored.home with hkey | ⟨⟨slack, hempty⟩, -⟩
  · -- the file holds the key, in one of its formats
    have hdata := fileHasData_of_length hkey.pos
    simp only [hhas, hdata, true_and, Bool.true_eq_false, Bool.false_eq_true, if_false]
    generalize hbytes : fileBytes (m.view .efKeyDev) = data at hkey
    cases hkey with
    | raw hlen hkey =>
      rw [if_pos hlen, readRaw_inside _ _ (by rw [hbytes]; omega), hbytes, List.drop_zero,
        List.take_of_length_le (Nat.le_of_eq hlen)]
      exact ⟨.inr (congrArg some hkey), hself⟩
    | @tagged x hlen hkey =>
      have h33 : (1 :: x).length = 33 := by rw [List.length_cons, hlen]
      have hne : ¬ ((1 :: x).headD 0 = 2 ∨ (1 :: x).headD 0 = 3) := by
        rw [List.headD_cons]
        decide
      rw [if_neg (by omega), if_pos (.inl h33), if_neg hne, if_pos (by rfl),
        readRaw_inside _ _ (by rw [hbytes]; omega), hbytes, List.drop_one, List.tail_cons,
        List.take_of_length_le (Nat.le_of_eq hlen)]
      exact ⟨.inr (congrArg some hkey), hself⟩
    | @wrapped pin x nonce format hpin hverifies hformat hlen hnonce hkey =>
      have h60 := hd.sealed_length (if format = 3 then 2 else 1) (pinSession d pinFile pin) x nonce
        hlen hnonce
      have h61 : (format :: d.encryptWithAad (if format = 3 then 2 else 1)
          (pinSession d pinFile pin) x nonce).length = 61 := by rw [List.length_cons, h60]
      rw [if_neg (by omega), if_pos (.inr h61), if_pos (by exact hformat),
        readRaw_inside _ _ (by rw [hbytes]; omega), hbytes, List.drop_one, List.tail_cons,
        List.take_of_length_le (Nat.le_of_eq h60), List.headD_cons]
      unfold loadWrapped
      simp only [bind_eq, pure_eq, calm_bind, calm_readVars]
      cases hopen : d.decryptWithAad (if format = 3 then 2 else 1) m.vars.sessionPin
          (d.encryptWithAad (if format = 3 then 2 else 1) (pinSession d pinFile pin) x nonce) with
      | none => exact ⟨.inl rfl, hself⟩
      | some y =>
        -- so the session is the right one, and the rewrap is under it
        obtain ⟨hsession, rfl⟩ := wrapped_session hd hs (sessionKey_pinSession hpin _) h.session
          hlen hnonce hopen
        have hval : some (d.kbaseDecrypt y) = some key := congrArg some hkey
        dsimp only
        split_ifs with h2
        · simp only [calm_bind, calm_encryptWithAad, calm_filePutData, calm_flashCommit,
            calm_setting, calm_done]
          have hdrawn : KeyFor d lockKey key pinFile
              (m.setVars { m.vars with drawn := m.vars.drawn + 1 }) :=
            h.frame ⟨rfl, rfl, rfl, rfl⟩ h.session
          have hput := hdrawn.putKey (HoldsKey.wrapped hpin hverifies (.inr rfl) hlen
            (hd.random_length m.vars.drawn 12) hkey)
          rw [← hsession] at hput
          refine ⟨.inr hval, hput.frame ⟨rfl, rfl, rfl, rfl⟩ h.session, ?_⟩
          simp [Function.update_of_ne]
        · exact ⟨.inr hval, h.frame ⟨rfl, rfl, rfl, rfl⟩ h.session, rfl⟩
  · have hdata : fileHasData (m.view .efKeyDev) = false := by rw [hempty]; rfl
    rw [if_pos ⟨hhas, hdata⟩]
    exact ⟨.inl rfl, hself⟩

theorem encryptKeydevF1_keeps (hd : d.Lawful) (hlen : key.length = 32)
    (h : KeyFor d lockKey key pinFile m) (pinFile' : Bytes) :
    calm (encryptKeydevF1 d key)
      (fun _ n => KeyStep d lockKey key pinFile' m n ∧ ¬ rawTagged n.view) (fun _ _ => False) m := by
  unfold encryptKeydevF1
  simp only [bind_eq, calm_bind, calm_filePutData, calm_flashCommit]
  have hput : KeyFor d lockKey key pinFile' (putEf m .efKeyDev (1 :: d.kbaseEncrypt key)) :=
    h.putKey (.tagged (by rw [hd.kbaseEncrypt_length, hlen]) (hd.kbase_inverse key hlen))
  refine ⟨⟨hput.sync, putKeyDev_pin m (1 :: d.kbaseEncrypt key)⟩, ?_⟩
  exact not_rawTagged_f1 hd hlen (putEf_self m .efKeyDev _)

theorem checkKeydevEncrypted_keeps (hd : d.Lawful) (h : KeyFor d lockKey key pinFile m)
    (htag : ¬ rawTagged m.view) {pin : Bytes} (hpin : pin.length = 16)
    (hlen : pinFile.length = pinDataLen) (hverifies : storedVerifies d pinFile pin) :
    calm (checkKeydevEncrypted d b (d.pinDeriveSession pin))
      (fun _ n => KeyStep d lockKey key pinFile m n) (fun _ _ => False) m := by
  have hself : KeyStep d lockKey key pinFile m m := ⟨h, rfl⟩
  unfold checkKeydevEncrypted
  simp only [bind_eq, pure_eq, calm_bind, calm_readFile]
  split_ifs with h1
  · rcases h.stored.home with hkey | ⟨⟨slack, hempty⟩, -⟩
    · rw [readRaw_first b.flash hkey.pos] at h1
      have hhead : (fileBytes (m.view .efKeyDev)).headD 0 = 1 := List.head_eq_of_cons_eq h1
      generalize hbytes : fileBytes (m.view .efKeyDev) = data at hkey hhead
      cases hkey with
      | raw hlen hkey => exact absurd ⟨by rw [hbytes]; exact hlen, by rw [hbytes]; exact hhead⟩ htag
      | @tagged x hx hkey =>
        have hread : readRaw b.flash (m.view .efKeyDev) 1 32 = x := by
          have hfits : 1 + 32 = (fileBytes (m.view .efKeyDev)).length := by
            rw [hbytes, List.length_cons, hx]
          rw [readRaw_inside _ _ (Nat.le_of_eq hfits), hbytes, List.drop_one, List.tail_cons,
            List.take_of_length_le (Nat.le_of_eq hx)]
        simp only [calm_bind, calm_encryptWithAad, calm_filePutData, calm_flashCommit,
          calm_setting, hread]
        have hdrawn : KeyFor d lockKey key pinFile
            (m.setVars { m.vars with drawn := m.vars.drawn + 1 }) :=
          h.frame ⟨rfl, rfl, rfl, rfl⟩ h.session
        have hput := hdrawn.putKey (HoldsKey.wrapped hpin hverifies (.inr rfl) hx
          (hd.random_length m.vars.drawn 12) hkey)
        rw [pinSession_new hlen] at hput
        refine ⟨hput.frame ⟨rfl, rfl, rfl, rfl⟩ h.session, ?_⟩
        simp [Function.update_of_ne]
      | @wrapped q x nonce format hq hv hformat hx hnonce hkey =>
        rw [List.headD_cons] at hhead
        rw [hhead] at hformat
        exact absurd hformat (by decide)
    · -- behind the end of the emptied file there are zeros
      rw [hempty] at h1
      exact absurd h1 (by simp [readRaw])
  · exact hself

end Conversions

/-! The PIN commands. -/
section Commands

variable {d : Device} {b : Beyond} {lockKey key : Bytes} {m n : FidoMachine}

theorem KeyFor.inv {pinFile : Bytes} (h : KeyFor d lockKey key pinFile n)
    (hs : SamePins d pinFile (fileBytes (n.view .efPin))) : KeyInv d lockKey key n :=
  h.congr hs

theorem KeyStep.inv (h : KeyStep d lockKey key (fileBytes (m.view .efPin)) m n) :
    KeyInv d lockKey key n := by
  apply h.1.inv
  rw [h.2]
  exact .refl _

theorem KeyInv.frame (h : KeyInv d lockKey key m) (hf : KeyFrame m n)
    (hsession : SessionKey d n.vars.sessionPin)
    (hpin : SamePins d (fileBytes (m.view .efPin)) (fileBytes (n.view .efPin))) :
    KeyInv d lockKey key n :=
  (KeyFor.frame h hf hsession).inv hpin

theorem KeyInv.sync (h : KeyInv d lockKey key m) : KeyInv d lockKey key m.sync := KeyFor.sync h

theorem KeyInv.record (h : KeyInv d lockKey key m) (e : PinEvent) :
    KeyInv d lockKey key (m.record e) :=
  KeyFor.record h e

theorem KeyInv.putRetry (h : KeyInv d lockKey key m) (x : Byte) :
    KeyInv d lockKey key (putEf m .efPin ((fileBytes (m.view .efPin)).set 0 x)) := by
  apply (KeyFor.putPin h _).inv
  rw [putEf_self]
  exact .retry _ x

theorem KeyInv.untouched (h : KeyInv d lockKey key m) (hu : KeyUntouched m n) :
    KeyInv d lockKey key n := by
  apply (KeyFor.untouched h hu).inv
  rw [hu.pin]
  exact .refl _

theorem keyInv_confined {α : Type} {p : Fido α}
    (hp : Confined (fun k _ => Fid.besides k) sameKeyVars p) (h : KeyInv d lockKey key m) :
    calm p (fun _ n => KeyInv d lockKey key n ∧ KeyUntouched m n)
      (fun _ n => KeyInv d lockKey key n ∧ KeyUntouched m n) m :=
  calm_mono (untouched_confined hp m) (fun _ _ hn => ⟨h.untouched hn, hn⟩)
    (fun _ _ hn => ⟨h.untouched hn, hn⟩)

theorem upgradeLegacy_keeps (hd : d.Lawful) (hs : d.Sealing) (hlen : key.length = 32)
    {pinData keydev pin : Bytes} {len : Nat} (h : KeyInv d lockKey key m)
    (hbuf : Buffered m pinData len) (hpin : pin.length = 16)
    (hverifies : storedVerifies d (fileBytes (m.view .efPin)) pin)
    (htag : legacyPin m.view ∨ ¬ rawTagged m.view) :
    calm (upgradeLegacy d b pinData len pin keydev)
      (fun r n => (r.1.length = pinDataLen ∧ storedVerifies d r.1 pin) ∧
        KeyFor d lockKey key r.1 n ∧ ¬ rawTagged n.view)
      (fun _ => KeyInv d lockKey key) m := by
  have hsized : PinSized (fileBytes (m.view .efPin)) := storedVerifies_sized hverifies
  have hpd : pinData.length = pinDataLen := by
    have hle := hsized.le
    rw [hbuf.eq, List.length_append, List.length_replicate, hbuf.len]
    omega
  unfold upgradeLegacy
  split_ifs with hl
  · unfold setSession
    simp only [bind_eq, pure_eq, calm_bind, calm_setting]
    have h1 : KeyFor d lockKey key (fileBytes (m.view .efPin))
        (m.setVars { m.vars with sessionPin := d.hashMulti pin }) :=
      KeyFor.setSession h (.inr ⟨pin, hpin, .inl rfl⟩)
    apply calm_mono (loadKeydev_keeps hd hs h1 keydev) _ (fun _ _ hn => hn.elim)
    rintro r n ⟨hr, hstep⟩
    rcases hr with rfl | rfl
    · exact KeyStep.inv hstep
    · have h2 : 2 ≤ pinData.length := by rw [hpd]; decide
      have hnew : (pinDataFor d pinData pin).length = pinDataLen := pinDataFor_length hd h2
      have hver : storedVerifies d (pinDataFor d pinData pin) pin := by
        refine .inr ⟨hnew, ?_⟩
        have hdrop : ((pinDataFor d pinData pin).set 0 ((pinDataFor d pinData pin).headD 0)).drop 3 =
            d.pinDeriveVerifier pin := pinDataFor_drop h2 _
        rw [List.drop_set, if_pos (by decide)] at hdrop
        exact hdrop.symm
      simp only [calm_bind]
      apply calm_mono (encryptKeydevF1_keeps hd hlen hstep.1 (pinDataFor d pinData pin)) _
        (fun _ _ hn => hn.elim)
      rintro - n' ⟨hstep', htag'⟩
      exact ⟨⟨hnew, hver⟩, hstep'.1, htag'⟩
  · -- a file in the new format is its own upgrade
    have hleg : ¬ legacyPin m.view := fun hleg => hl (hbuf.len.trans hleg)
    have hnew : (fileBytes (m.view .efPin)).length = pinDataLen := hsized.resolve_left hleg
    have hdata : pinData = fileBytes (m.view .efPin) := by
      rw [hbuf.eq, hbuf.len, hnew, Nat.sub_self, List.replicate_zero, List.append_nil]
    rw [pure_eq, calm_done, hdata]
    exact ⟨⟨hnew, hverifies⟩, h, htag.resolve_left hleg⟩

theorem KeyFor.putVerified {pinFile : Bytes} (h : KeyFor d lockKey key pinFile m) (x : Byte) :
    KeyInv d lockKey key (putEf m .efPin (pinFile.set 0 x)) := by
  apply (h.putPin _).inv
  rw [putEf_self]
  exact .retry _ x

theorem acceptTokenPin_keeps (hd : d.Lawful) (hs : d.Sealing) (hlen : key.length = 32)
    {pinData pin : Bytes} {len : Nat} (h : KeyInv d lockKey key m) (hbuf : Buffered m pinData len)
    (hpin : pin.length = 16) (hverifies : storedVerifies d (fileBytes (m.view .efPin)) pin)
    (htag : legacyPin m.view ∨ ¬ rawTagged m.view) :
    calm (acceptTokenPin d b pinData len pin) (fun _ => KeyInv d lockKey key)
      (fun _ => KeyInv d lockKey key) m := by
  unfold acceptTokenPin setSession
  simp only [bind_eq, calm_bind, calm_setting, calm_filePutData, calm_flashCommit]
  apply calm_mono (upgradeLegacy_keeps hd hs hlen h hbuf hpin hverifies htag) _ (fun _ _ hn => hn)
  rintro ⟨pinData', keydev⟩ n ⟨⟨hnew, hver⟩, hkey, htag'⟩
  have hsession : KeyFor d lockKey key pinData'
      (n.setVars { n.vars with sessionPin := d.pinDeriveSession pin }) :=
    hkey.setSession (.inr ⟨pin, hpin, .inr rfl⟩)
  apply calm_mono (checkKeydevEncrypted_keeps hd hsession htag' hpin hnew hver) _
    (fun _ _ hn => hn.elim)
  rintro - n' ⟨hn', -⟩
  have hcleared : KeyFor d lockKey key pinData'
      (n'.setVars { n'.vars with newPinMismatches := 0 }) :=
    hn'.frame ⟨rfl, rfl, rfl, rfl⟩ hn'.session
  exact (hcleared.putVerified _).sync

theorem tokenAccepted_keeps (hd : d.Lawful) (hs : d.Sealing) (hlen : key.length = 32)
    {pinData pin : Bytes} {len : Nat} (h : KeyInv d lockKey key m) (hbuf : Buffered m pinData len)
    (hpin : pin.length = 16) (hverifies : storedVerifies d (fileBytes (m.view .efPin)) pin)
    (htag : legacyPin m.view ∨ ¬ rawTagged m.view) (withPermissions : Bool) (req : PinRequest) :
    calm (tokenAccepted d b withPermissions req pinData len pin) (fun _ => KeyInv d lockKey key)
      (fun _ => KeyInv d lockKey key) m := by
  unfold tokenAccepted
  simp only [bind_eq, calm_bind, calm_readFile]
  apply calm_mono (acceptTokenPin_keeps hd hs hlen h hbuf hpin hverifies htag) _ (fun _ _ hn => hn)
  rintro - n hn
  -- what is left draws a token and clears the lock
  have hrest : Confined (fun k _ => Fid.besides k) sameKeyVars
      (setting fun v => { v with needsPowerCycle := false } : Fido Unit) :=
    setting_confined fun _ => ⟨rfl, rfl, rfl⟩
  split_ifs
  · exact hn
  · exact hn
  · have hissue : Confined (fun k _ => Fid.besides k) sameKeyVars
        (issueToken d withPermissions req) :=
      issueToken_confined (fun _ => ⟨by decide, by decide, by decide⟩) (fun _ => ⟨rfl, rfl, rfl⟩)
        (fun _ => ⟨rfl, rfl, rfl⟩) (fun _ _ => ⟨rfl, rfl, rfl⟩) (fun _ _ => ⟨rfl, rfl, rfl⟩)
        withPermissions req
    exact calm_mono (keyInv_confined (hissue.bind fun _ => hrest) hn) (fun _ _ hn => hn.1)
      (fun _ _ hn => hn.1)

theorem acceptOldPin_keeps (hd : d.Lawful) (hs : d.Sealing) (hlen : key.length = 32)
    {pinData pin : Bytes} {len : Nat} (h : KeyInv d lockKey key m) (hbuf : Buffered m pinData len)
    (hpin : pin.length = 16) (hverifies : storedVerifies d (fileBytes (m.view .efPin)) pin)
    (htag : legacyPin m.view ∨ ¬ rawTagged m.view) :
    calm (acceptOldPin d b pinData len pin)
      (fun _ n => KeyInv d lockKey key n ∧ (fileBytes (n.view .efPin)).length = pinDataLen)
      (fun _ => KeyInv d lockKey key) m := by
  unfold acceptOldPin storeOldPin setSession
  simp only [bind_eq, pure_eq, calm_bind, calm_setting, calm_filePutData, calm_flashCommit,
    calm_done]
  apply calm_mono (upgradeLegacy_keeps hd hs hlen h hbuf hpin hverifies htag) _ (fun _ _ hn => hn)
  rintro ⟨pinData', keydev⟩ n ⟨⟨hnew, hver⟩, hkey, htag'⟩
  -- here the PIN file is written first and the key wrapped after it
  have hsession : KeyFor d lockKey key pinData'
      (n.setVars { n.vars with sessionPin := d.pinDeriveSession pin }) :=
    hkey.setSession (.inr ⟨pin, hpin, .inr rfl⟩)
  have hstored : KeyFor d lockKey key pinData' (putEf
      (n.setVars { n.vars with sessionPin := d.pinDeriveSession pin }) .efPin
      (pinData'.set 0 maxPinRetries)).sync := (hsession.putPin _).sync
  have hraw : ¬ rawTagged (putEf (n.setVars { n.vars with sessionPin := d.pinDeriveSession pin })
      .efPin (pinData'.set 0 maxPinRetries)).sync.view := by
    unfold rawTagged
    rw [Machine.sync_view, putEf_of_ne _ _ (by decide)]
    exact htag'
  apply calm_mono (checkKeydevEncrypted_keeps hd hstored hraw hpin hnew hver) _
    (fun _ _ hn => hn.elim)
  rintro - n' ⟨hn', hview⟩
  have hbytes : fileBytes (n'.view .efPin) = pinData'.set 0 maxPinRetries := by
    rw [hview, Machine.sync_view, putEf_self]
  refine ⟨?_, ?_⟩
  · have hinv : KeyInv d lockKey key n' := by
      apply hn'.inv
      rw [hbytes]
      exact .retry _ _
    exact hinv.frame ⟨rfl, rfl, rfl, rfl⟩ hn'.session (.refl _)
  · rw [Machine.setVars_view, hbytes, List.length_set, hnew]

theorem rewrapKeydev_keeps (hd : d.Lawful) (hs : d.Sealing) (hlen : key.length = 32)
    (h : KeyInv d lockKey key m) (keydev : Bytes) {hash pinFile : Bytes} (hhash : hash.length = 16)
    (hnew : pinFile.length = pinDataLen) (hver : storedVerifies d pinFile hash) :
    calm (rewrapKeydev d b keydev hash)
      (fun _ n => KeyFor d lockKey key pinFile n ∧ n.view .efPin = m.view .efPin)
      (fun _ => KeyInv d lockKey key) m := by
  unfold rewrapKeydev setSession
  simp only [bind_eq, calm_bind]
  apply calm_mono (loadKeydev_keeps hd hs h keydev) _ (fun _ _ hn => hn.elim)
  rintro r n ⟨hr, hstep⟩
  rcases hr with rfl | rfl
  · exact KeyStep.inv hstep
  simp only [calm_bind, calm_setting]
  apply calm_mono (encryptKeydevF1_keeps hd hlen hstep.1 pinFile) _ (fun _ _ hn => hn.elim)
  rintro - n1 ⟨⟨hn1, hview1⟩, htag⟩
  have hsession : KeyFor d lockKey key pinFile
      (n1.setVars { n1.vars with sessionPin := d.pinDeriveSession hash }) :=
    hn1.setSession (.inr ⟨hash, hhash, .inr rfl⟩)
  apply calm_mono (checkKeydevEncrypted_keeps hd hsession htag hhash hnew hver) _
    (fun _ _ hn => hn.elim)
  rintro - n2 ⟨hn2, hview2⟩
  exact ⟨hn2, hview2.trans (hview1.trans hstep.2)⟩

theorem storeNewPin_keeps (hd : d.Lawful) {newPin : Bytes}
    (h : KeyFor d lockKey key (maxPinRetries :: BitVec.ofNat 8 (pinCodepointLen newPin) :: 1 ::
      d.pinDeriveVerifier (pinHash d newPin)) m)
    (hsized : (fileBytes (m.view .efPin)).length = pinDataLen) :
    calm (storeNewPin d newPin) (fun _ => KeyInv d lockKey key)
      (fun _ => KeyInv d lockKey key) m := by
  have hhash : (pinHash d newPin).length = 16 := pinHash_length hd newPin
  have hnew : (maxPinRetries :: BitVec.ofNat 8 (pinCodepointLen newPin) :: 1 ::
      d.pinDeriveVerifier (pinHash d newPin)).length = pinDataLen := by
    simp [hd.verifier_length, pinDataLen]
  unfold storeNewPin
  simp only [bind_eq, calm_bind, calm_readFile]
  split_ifs with hsame
  · -- refused because the verifier is already the stored one
    apply h.inv
    apply SamePins.of_new hd hhash hnew (.inr ⟨hnew, rfl⟩) hsized
    refine .inr ⟨hsized, ?_⟩
    have heq := hsame.2.2
    have hdrop : ((fileBytes (m.view .efPin)).drop 3).length = 32 := by
      rw [List.length_drop, hsized]
      decide
    rw [List.take_of_length_le (Nat.le_of_eq hdrop)] at heq
    rw [← heq]
    exact (List.take_of_length_le (Nat.le_of_eq (hd.verifier_length _))).symm
  · simp only [calm_bind, calm_filePutData]
    have hput : KeyInv d lockKey key (putEf m .efPin (maxPinRetries ::
        BitVec.ofNat 8 (pinCodepointLen newPin) :: 1 :: d.pinDeriveVerifier (pinHash d newPin))) :=
      h.putVerified maxPinRetries
    exact calm_mono (keyInv_confined finishNewPin_besides hput) (fun _ _ hn => hn.1)
      (fun _ _ hn => hn.1)

end Commands

end KeyWallet
