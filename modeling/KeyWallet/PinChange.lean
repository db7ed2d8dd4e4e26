import KeyWallet.PinStorage

/-! changePIN and the device key: at which points of the command a power loss still leaves a PIN
that opens the key, and at which it does not. -/
namespace KeyWallet

open CrashProgram

variable {f : Faults} {d : Device} {b : Beyond} {pin key : Bytes} {m : FidoMachine}

/-- The old PIN opens the key, in what the code sees and in what a power loss leaves. -/
structure Secured (d : Device) (pin key : Bytes) (m : FidoMachine) : Prop where
  view : Opens d m.view pin key
  flash : Opens d m.flash pin key

theorem Opens.congr {files files' : Files} (h : Opens d files pin key)
    (hp : fileBytes (files' .efPin) = fileBytes (files .efPin))
    (hk : fileBytes (files' .efKeyDev) = fileBytes (files .efKeyDev)) :
    Opens d files' pin key := by
  obtain ⟨h1, h2⟩ := h
  refine ⟨?_, ?_⟩
  · rwa [hp]
  · rwa [hp, hk]

theorem Secured.sync (h : Secured d pin key m) : Secured d pin key m.sync := ⟨h.view, h.view⟩

theorem Secured.drop (h : Secured d pin key m) (k : Fid) : Secured d pin key (m.drop k) :=
  ⟨h.view, h.flash⟩

theorem Secured.setVars (h : Secured d pin key m) (v : FidoVars) :
    Secured d pin key (m.setVars v) :=
  ⟨h.view, h.flash⟩

theorem Secured.record (h : Secured d pin key m) (e : PinEvent) : Secured d pin key (m.record e) :=
  ⟨h.view, h.flash⟩

/-- A file that is neither the PIN file nor the key file. -/
def Fid.aside (k : Fid) : Prop := k ≠ .efPin ∧ k ≠ .efKeyDev

theorem Secured.write (h : Secured d pin key m) {k : Fid} (hk : k.aside) (v : Option Ef) :
    Secured d pin key (m.write k v) := by
  refine ⟨h.view.congr ?_ ?_, h.flash⟩
  · rw [Machine.write_view, Function.update_of_ne hk.1.symm]
  · rw [Machine.write_view, Function.update_of_ne hk.2.symm]

theorem Secured.putRetry (h : Secured d pin key m) (x : Byte) :
    Secured d pin key (putEf m .efPin ((fileBytes (m.view .efPin)).set 0 x)) := by
  obtain ⟨hv, hk⟩ := h.view
  have hkey : (putEf m .efPin ((fileBytes (m.view .efPin)).set 0 x)).view .efKeyDev =
      m.view .efKeyDev := putEf_of_ne _ _ (by decide)
  refine ⟨⟨?_, ?_⟩, h.flash⟩
  · rw [putEf_self]
    exact (storedVerifies_set _ _ _).mpr hv
  · rw [putEf_self, pinSession_set, hkey]
    exact hk

theorem Secured.putKey (h : Secured d pin key m) {data : Bytes}
    (hdata : keydevPlain d (pinSession d (fileBytes (m.view .efPin)) pin) data = some key) :
    Secured d pin key (putEf m .efKeyDev data) := by
  have hpin : (putEf m .efKeyDev data).view .efPin = m.view .efPin := putEf_of_ne _ _ (by decide)
  refine ⟨⟨?_, ?_⟩, h.flash⟩
  · rw [hpin]
    exact h.view.verifies
  · rw [hpin, putEf_self]
    exact hdata

theorem secured_confined {α : Type} {p : Fido α}
    (hp : Confined (fun k _ => Fid.aside k) (fun _ _ => True) p) (h : Secured d pin key m) :
    wp f p (fun _ n => Secured d pin key n ∧ n.view .efPin = m.view .efPin)
      (fun _ => Secured d pin key) (Secured d pin key) m := by
  let I : FidoMachine → Prop := fun n => Secured d pin key n ∧ n.view .efPin = m.view .efPin
  have hwrite : ∀ n k v, Fid.aside k → I n → I (n.write k v) := by
    intro n k v hk hn
    refine ⟨hn.1.write hk v, ?_⟩
    rw [Machine.write_view, Function.update_of_ne hk.1.symm, hn.2]
  have hI : wp f p (fun _ => I) (fun _ => I) I m :=
    wp_confined hwrite (fun _ k hn => ⟨hn.1.drop k, hn.2⟩) (fun _ hn => ⟨hn.1.sync, hn.2⟩)
      (fun _ v _ hn => ⟨hn.1.setVars v, hn.2⟩) hp ⟨h, rfl⟩
  exact wp_mono hI (fun _ _ hn => hn) (fun _ _ hn => hn.1) (fun _ hn => hn.1)

theorem resetAuthToken_aside {fid : Fid} (h : fid.aside) :
    Confined (fun k _ => Fid.aside k) (fun _ _ => True) (resetAuthToken d fid) :=
  resetAuthToken_confined (fun _ => h) (fun _ => trivial) (fun _ => trivial)

/-- What the rest of the command goes on reading. -/
structure Keeps (m m' : FidoMachine) : Prop where
  has : m'.vars.hasKeydevDec = m.vars.hasKeydevDec
  dec : m'.vars.keydevDec = m.vars.keydevDec
  minpin : m'.view .efMinPinLen = m.view .efMinPinLen
  policy : m'.view .efPinComplexityPolicy = m.view .efPinComplexityPolicy

theorem Keeps.refl (m : FidoMachine) : Keeps m m := ⟨rfl, rfl, rfl, rfl⟩

theorem Keeps.trans {m m' m'' : FidoMachine} (h : Keeps m m') (h' : Keeps m' m'') :
    Keeps m m'' :=
  ⟨h'.has.trans h.has, h'.dec.trans h.dec, h'.minpin.trans h.minpin, h'.policy.trans h.policy⟩

theorem Keeps.putEf (m : FidoMachine) {k : Fid} (hk : k = .efPin ∨ k = .efKeyDev) (data : Bytes) :
    Keeps m (putEf m k data) := by
  refine ⟨rfl, rfl, ?_, ?_⟩ <;> apply putEf_of_ne <;> rcases hk with rfl | rfl <;> decide

theorem pinMismatch_secured {data : Bytes} {n : Nat} (h : Secured d pin key m)
    (hdata : fileBytes (m.view .efPin) = data) (hsize : PinSized data) :
    wp f (pinMismatch d (data ++ List.replicate n 0) data.length) (fun _ _ => False)
      (fun _ => Secured d pin key) (Secured d pin key) m := by
  unfold pinMismatch regenerate
  simp only [bind_eq, wp_bind, wp_setting]
  apply wp_mono (secured_confined (resetAuthToken_aside ⟨by decide, by decide⟩)
    (h.setVars _)) _ (fun _ _ hn => hn) (fun _ hn => hn)
  rintro - n' ⟨hn, hview⟩
  have hbytes : fileBytes (n'.view .efPin) = data := by rw [hview]; exact hdata
  split_ifs
  · exact hn
  · exact hn.setVars _
  · simp only [wp_bind, wp_setting, wp_readVars]
    split_ifs
    · exact hn.setVars _
    · -- the third wrong candidate: the marker goes into the retry byte
      have htake : ∀ x, ((data ++ List.replicate n 0).set 0 x).take data.length = data.set 0 x := by
        intro x
        rw [List.set_append_left _ _ hsize.pos]
        exact List.take_left' (by simp)
      have hm := hn.setVars { n'.vars with newPinMismatches := n'.vars.newPinMismatches + 1 }
      have hput := hm.putRetry ((data ++ List.replicate n 0).headD 0 ||| pinRetryPowerCycle)
      simp only [Machine.setVars_view, hbytes] at hput
      rw [wp_bind]
      apply persistPinRetryCounter_wp hsize.pos
      · simp
      · rw [htake]
        exact ⟨hm, hput⟩
      · rw [htake]
        exact hput.sync.setVars _
      · rw [htake]
        exact fun _ => ⟨hm, hput, hput.sync⟩

theorem judgeCandidate_secured (hd : d.Lawful) (hpin : pin.length = 16) {pinData : Bytes}
    {len protocol : Nat} {secret hashEnc : Bytes} {Q : Bytes → FidoMachine → Prop}
    (h : Secured d pin key m) (hbuf : Buffered m pinData len)
    (hQ : ∀ plain, d.decrypt protocol secret hashEnc = some plain →
      readRaw b.stack (some ⟨plain, []⟩) 0 16 = pin → Q pin (m.record (.compared true))) :
    wp f (judgeCandidate d b protocol secret hashEnc pinData len) Q (fun _ => Secured d pin key)
      (Secured d pin key) m := by
  have hsize := storedVerifies_sized h.view.verifies
  obtain ⟨rfl, rfl⟩ := hbuf
  unfold judgeCandidate
  split
  · exact h
  · next plain hplain =>
    have hlen : (readRaw b.stack (some ⟨plain, []⟩) 0 16).length = 16 := readRaw_length _ _ _ _
    simp only [bind_eq, pure_eq, wp_bind, wp_event]
    split_ifs with hver
    · rw [wp_bind]
      exact wp_mono (pinMismatch_secured (h.record _) rfl hsize) (fun _ _ hn => hn.elim)
        (fun _ _ hn => hn) (fun _ hn => hn)
    · rw [Bool.not_eq_false] at hver
      have heq : readRaw b.stack (some ⟨plain, []⟩) 0 16 = pin :=
        storedVerifies_unique hd hlen hpin ((pinVerifies_iff hsize).mp hver) h.view.verifies
      simp only [wp_bind, wp_readVars]
      split_ifs
      · exact h.record _
      · rw [hver, heq]
        exact hQ plain hplain heq

/-- What a step on the key file leaves for the next one. -/
structure After (d : Device) (pin key : Bytes) (m n : FidoMachine) : Prop where
  secured : Secured d pin key n
  keeps : Keeps m n
  pin : n.view .efPin = m.view .efPin
  session : n.vars.sessionPin = m.vars.sessionPin

theorem fileHasData_of_length {f : Option Ef} (h : 0 < (fileBytes f).length) :
    fileHasData f = true :=
  decide_eq_true h

theorem Secured.putSealed (hd : d.Lawful) (h : Secured d pin key m) {x session : Bytes}
    (hsession : session = pinSession d (fileBytes (m.view .efPin)) pin) (hx : x.length = 32)
    (hkey : d.kbaseDecrypt x = key) (draw : Nat) :
    Secured d pin key
      (putEf m .efKeyDev (3 :: d.encryptWithAad 2 session x (d.random draw 12))) := by
  apply h.putKey
  rw [← hsession, keydevPlain_f3 hd hx (hd.random_length draw 12), hkey]

theorem After.putKeyDev {m' : FidoMachine} (h : After d pin key m m') {data : Bytes}
    (hs : Secured d pin key (putEf m' .efKeyDev data)) :
    After d pin key m (putEf m' .efKeyDev data) := by
  refine ⟨hs, h.keeps.trans (Keeps.putEf m' (.inr rfl) data), ?_, h.session⟩
  rw [putEf_of_ne _ _ (by decide), h.pin]

theorem After.sync {m' : FidoMachine} (h : After d pin key m m') : After d pin key m m'.sync :=
  ⟨h.secured.sync, h.keeps.trans ⟨rfl, rfl, rfl, rfl⟩, h.pin, h.session⟩

theorem After.unlocked {m' : FidoMachine} (h : After d pin key m m') :
    After d pin key m (m'.setVars { m'.vars with keydevUnlocked := true }) :=
  ⟨h.secured.setVars _, h.keeps.trans ⟨rfl, rfl, rfl, rfl⟩, h.pin, h.session⟩

theorem After.drawn (h : Secured d pin key m) :
    After d pin key m (m.setVars { m.vars with drawn := m.vars.drawn + 1 }) :=
  ⟨h.setVars _, ⟨rfl, rfl, rfl, rfl⟩, rfl, rfl⟩

theorem loadWrapped_secured (hf : ¬ f.silent) (hd : d.Lawful) {x : Bytes} {format : Byte}
    (h : Secured d pin key m)
    (hsession : m.vars.sessionPin = pinSession d (fileBytes (m.view .efPin)) pin)
    (hx : x.length = 32) (hkey : d.kbaseDecrypt x = key) {payload : Bytes}
    (hopen : d.decryptWithAad (if format = 3 then 2 else 1) m.vars.sessionPin payload = some x) :
    wp f (loadWrapped d payload format) (fun r n => r = some key ∧ After d pin key m n)
      (fun _ _ => False) (Secured d pin key) m := by
  have hval : some (d.kbaseDecrypt x) = some key := congrArg some hkey
  unfold loadWrapped encryptWithAad randomFill
  simp only [bind_eq, pure_eq, wp_bind, wp_readVars, hopen]
  split_ifs with h2
  · simp only [wp_bind, wp_readVars, wp_setting, wp_done, wp_filePutData, wp_flashCommit]
    have hdrawn := After.drawn h
    have hput := hdrawn.putKeyDev
      (hdrawn.secured.putSealed hd hsession hx hkey m.vars.drawn)
    exact ⟨hdrawn.secured, ⟨hput.secured, ⟨hval, hput.sync.unlocked⟩,
      fun _ => ⟨hval, hput.unlocked⟩⟩, fun hs => absurd hs hf⟩
  · exact ⟨hval, After.unlocked ⟨h, Keeps.refl m, rfl, rfl⟩⟩

/-- load_keydev finds the key. -/
theorem loadKeydev_secured (hf : ¬ f.silent) (hd : d.Lawful) (h : Secured d pin key m)
    (hsession : m.vars.sessionPin = pinSession d (fileBytes (m.view .efPin)) pin)
    (hram : m.vars.hasKeydevDec = true → m.vars.keydevDec = key) (buffer : Bytes) :
    wp f (loadKeydev d b buffer) (fun r n => r = some key ∧ After d pin key m n)
      (fun _ _ => False) (Secured d pin key) m := by
  have hplain := h.view.decrypts
  rw [← hsession] at hplain
  have hself : After d pin key m m := ⟨h, Keeps.refl m, rfl, rfl⟩
  unfold loadKeydev
  simp only [bind_eq, pure_eq, wp_bind, wp_readVars, wp_readFile, fileGetSize]
  by_cases hhas : m.vars.hasKeydevDec = true
  · simp only [hhas, Bool.true_eq_false, false_and, if_false, if_true, wp_done]
    exact ⟨by rw [hram hhas], hself⟩
  rw [Bool.not_eq_true] at hhas
  have hpos := keydevPlain_pos hplain
  simp only [hhas, fileHasData_of_length hpos, true_and, Bool.true_eq_false, Bool.false_eq_true,
    if_false]
  -- the cases of the code are those of the format
  rcases keydevPlain_cases hplain with ⟨h32, hkey⟩ | ⟨h32, hl, h1, hkey⟩ | ⟨hl, h23, x, hx, hkey⟩
  · rw [if_pos h32, readRaw_inside _ _ (by omega), List.drop_zero,
      List.take_of_length_le (Nat.le_of_eq h32)]
    exact ⟨congrArg some hkey, hself⟩
  · have hne : ¬ ((fileBytes (m.view .efKeyDev)).headD 0 = 2 ∨
        (fileBytes (m.view .efKeyDev)).headD 0 = 3) := by
      rw [h1]
      decide
    rw [if_neg h32, if_pos hl, if_neg hne, if_pos h1, readRaw_inside _ _ (by omega)]
    exact ⟨congrArg some hkey, hself⟩
  · have hdrop : ((fileBytes (m.view .efKeyDev)).drop 1).length = 60 := by
      rw [List.length_drop, hl]
    rw [if_neg (by omega), if_pos (.inr hl), if_pos h23, readRaw_inside _ _ (by omega),
      List.take_of_length_le (Nat.le_of_eq hdrop)]
    exact loadWrapped_secured hf hd h hsession (hd.unsealed_length _ _ _ _ hdrop hx) hkey hx

theorem encryptKeydevF1_secured (hf : ¬ f.silent) (hd : d.Lawful) (h : Secured d pin key m) :
    wp f (encryptKeydevF1 d key)
      (fun _ n => After d pin key m n ∧
        fileBytes (n.view .efKeyDev) = 1 :: d.kbaseEncrypt key)
      (fun _ _ => False) (Secured d pin key) m := by
  have hlen : key.length = 32 := keydevPlain_length hd h.view.decrypts
  have hput : After d pin key m (putEf m .efKeyDev (1 :: d.kbaseEncrypt key)) := by
    apply After.putKeyDev ⟨h, Keeps.refl m, rfl, rfl⟩
    apply h.putKey
    rw [keydevPlain_f1 (by rw [hd.kbaseEncrypt_length, hlen]), hd.kbase_inverse key hlen]
  unfold encryptKeydevF1
  simp only [bind_eq, wp_bind, wp_filePutData, wp_flashCommit]
  exact ⟨h, ⟨hput.secured, ⟨hput.sync, putEf_self m .efKeyDev _⟩,
    fun _ => ⟨hput, putEf_self m .efKeyDev _⟩⟩, fun hs => absurd hs hf⟩

/-- A raw key whose first byte looks like a format tag. -/
def rawTagged (files : Files) : Prop :=
  (fileBytes (files .efKeyDev)).length = 32 ∧ (fileBytes (files .efKeyDev)).headD 0 = 1

theorem readRaw_first (past : Nat → Byte) {f : Option Ef} (h : 0 < (fileBytes f).length) :
    readRaw past f 0 1 = [(fileBytes f).headD 0] := by
  rw [readRaw_inside _ _ h, List.drop_zero]
  cases hx : fileBytes f with
  | nil => rw [hx] at h; exact absurd h (by simp)
  | cons x xs => rfl

theorem checkKeydevEncrypted_secured (hf : ¬ f.silent) (hd : d.Lawful) (h : Secured d pin key m)
    (htag : ¬ rawTagged m.view) :
    wp f (checkKeydevEncrypted d b (pinSession d (fileBytes (m.view .efPin)) pin))
      (fun _ n => After d pin key m n) (fun _ _ => False) (Secured d pin key) m := by
  have hself : After d pin key m m := ⟨h, Keeps.refl m, rfl, rfl⟩
  unfold checkKeydevEncrypted encryptWithAad randomFill
  simp only [bind_eq, pure_eq, wp_bind, wp_readFile,
    readRaw_first b.flash (keydevPlain_pos h.view.decrypts)]
  split_ifs with h1
  · have h1 : (fileBytes (m.view .efKeyDev)).headD 0 = 1 := by simpa using h1
    -- only the tagged format is left
    obtain ⟨hl, hkey⟩ : 33 ≤ (fileBytes (m.view .efKeyDev)).length ∧
        d.kbaseDecrypt (((fileBytes (m.view .efKeyDev)).drop 1).take 32) = key := by
      rcases keydevPlain_cases h.view.decrypts with ⟨h32, -⟩ | ⟨-, hl, -, hkey⟩ | ⟨-, h23, -⟩
      · exact absurd ⟨h32, h1⟩ htag
      · exact ⟨by omega, hkey⟩
      · rw [h1] at h23
        exact absurd h23 (by decide)
    have hx : (((fileBytes (m.view .efKeyDev)).drop 1).take 32).length = 32 := by
      rw [List.length_take, List.length_drop]
      omega
    simp only [wp_bind, wp_readVars, wp_setting, wp_done, wp_filePutData, wp_flashCommit,
      readRaw_inside b.flash (m.view .efKeyDev) (show 1 + 32 ≤ _ from hl)]
    have hdrawn := After.drawn h
    have hput := hdrawn.putKeyDev (hdrawn.secured.putSealed hd rfl hx hkey m.vars.drawn)
    exact ⟨hdrawn.secured, ⟨hput.secured, hput.sync.unlocked, fun _ => hput.unlocked⟩,
      fun hs => absurd hs hf⟩
  · exact hself

/-- The state in which the new PIN is looked at: everything is in the new format, under the old
PIN. -/
structure Settled (d : Device) (pin key : Bytes) (m n : FidoMachine) : Prop where
  secured : Secured d pin key n
  keeps : Keeps m n
  session : n.vars.sessionPin = d.pinDeriveSession pin
  sized : (fileBytes (n.view .efPin)).length = pinDataLen

theorem Settled.sync {m' : FidoMachine} (h : Settled d pin key m m') :
    Settled d pin key m m'.sync :=
  ⟨h.secured.sync, h.keeps.trans ⟨rfl, rfl, rfl, rfl⟩, h.session, h.sized⟩

theorem pinSession_new {data : Bytes} (h : data.length = pinDataLen) :
    pinSession d data pin = d.pinDeriveSession pin := by
  have hne : pinDataLen ≠ pinLegacyDataLen := by decide
  simp only [pinSession, h, hne, if_false]

theorem pinSession_legacy {data : Bytes} (h : data.length = pinLegacyDataLen) :
    pinSession d data pin = d.hashMulti pin := by
  simp only [pinSession, h, if_true]

theorem Secured.putPin (h : Secured d pin key m) {data : Bytes} (hlen : data.length = pinDataLen)
    (hver : d.pinDeriveVerifier pin = data.drop 3)
    (hkey : keydevPlain d (d.pinDeriveSession pin) (fileBytes (m.view .efKeyDev)) = some key) :
    Secured d pin key (putEf m .efPin data) := by
  refine ⟨⟨?_, ?_⟩, h.flash⟩
  · rw [putEf_self]
    exact .inr ⟨hlen, hver⟩
  · rw [putEf_self, pinSession_new hlen, putEf_of_ne _ _ (by decide)]
    exact hkey

theorem storeOldPin_secured (hf : ¬ f.silent) (hd : d.Lawful) {pinData : Bytes} (h : Secured d pin key m)
    (hlen : pinData.length = pinDataLen)
    (hput : ∀ v, Secured d pin key (putEf (m.setVars v) .efPin (pinData.set 0 maxPinRetries)))
    (htag : ¬ rawTagged m.view) :
    wp f (storeOldPin d b pinData pin) (fun _ n => Settled d pin key m n) (fun _ _ => False)
      (Secured d pin key) m := by
  unfold storeOldPin setSession
  simp only [bind_eq, wp_bind, wp_setting, wp_filePutData, wp_flashCommit]
  set m1 := m.setVars { m.vars with sessionPin := d.pinDeriveSession pin } with hm1
  set m2 := putEf m1 .efPin (pinData.set 0 maxPinRetries) with hm2
  have h2 : Secured d pin key m2 := hput _
  have hbytes : fileBytes (m2.view .efPin) = pinData.set 0 maxPinRetries := putEf_self _ _ _
  have hsize : (fileBytes (m2.view .efPin)).length = pinDataLen := by
    rw [hbytes, List.length_set, hlen]
  have hkey : m2.view .efKeyDev = m.view .efKeyDev := putEf_of_ne _ _ (by decide)
  have hkeeps : Keeps m m2 := by
    refine Keeps.trans ?_ (Keeps.putEf m1 (.inl rfl) _)
    exact ⟨rfl, rfl, rfl, rfl⟩
  -- committed or not, the code sees the same files
  have hcheck : ∀ n, Secured d pin key n → n.view = m2.view → n.vars = m2.vars →
      wp f (checkKeydevEncrypted d b (d.pinDeriveSession pin))
        (fun _ n' => Settled d pin key m
          (n'.setVars { n'.vars with newPinMismatches := 0 }))
        (fun _ _ => False) (Secured d pin key) n := by
    intro n hn hview hvars
    have hs := checkKeydevEncrypted_secured (b := b) hf hd hn (by rwa [rawTagged, hview, hkey])
    rw [hview, pinSession_new hsize] at hs
    apply wp_mono hs _ (fun _ _ h => h) (fun _ h => h)
    intro _ n' hn'
    refine ⟨hn'.secured.setVars _, ?_, ?_, ?_⟩
    · have hk := hn'.keeps
      refine hkeeps.trans ⟨?_, ?_, ?_, ?_⟩
      · rw [← hvars]; exact hk.has
      · rw [← hvars]; exact hk.dec
      · rw [← hview]; exact hk.minpin
      · rw [← hview]; exact hk.policy
    · have hsess := hn'.session
      rw [hvars] at hsess
      exact hsess
    · have hp := hn'.pin
      rw [hview] at hp
      rw [Machine.setVars_view, hp]
      exact hsize
  exact ⟨h.setVars _, ⟨h2, hcheck _ h2.sync rfl rfl, fun _ => hcheck _ h2 rfl rfl⟩,
    fun hs => absurd hs hf⟩

theorem not_rawTagged_f1 (hd : d.Lawful) {files : Files} (hk : key.length = 32)
    (h : fileBytes (files .efKeyDev) = 1 :: d.kbaseEncrypt key) : ¬ rawTagged files := by
  rintro ⟨hl, -⟩
  rw [h, List.length_cons, hd.kbaseEncrypt_length, hk] at hl
  exact absurd hl (by decide)

theorem pinDataFor_length (hd : d.Lawful) {pinData : Bytes} (h : 2 ≤ pinData.length) :
    (pinDataFor d pinData pin).length = pinDataLen := by
  simp [pinDataFor, hd.verifier_length, pinDataLen, Nat.min_eq_left h]

theorem pinDataFor_drop {pinData : Bytes} (h : 2 ≤ pinData.length) (x : Byte) :
    ((pinDataFor d pinData pin).set 0 x).drop 3 = d.pinDeriveVerifier pin := by
  have htake : (pinData.take 2 ++ [1]).length = 3 := by simp [Nat.min_eq_left h]
  rw [List.drop_set, if_pos (by decide), pinDataFor, ← htake]
  exact List.drop_left

/-- The RAM copy of the key, if the code would use it, is the key. -/
def ramAgrees (v : FidoVars) (key : Bytes) : Prop := v.hasKeydevDec = true → v.keydevDec = key

/-- A PIN file of the old length. -/
def legacyPin (files : Files) : Prop := (fileBytes (files .efPin)).length = pinLegacyDataLen

theorem acceptOldPin_secured (hf : ¬ f.silent) (hd : d.Lawful) {pinData : Bytes} {len : Nat}
    (h : Secured d pin key m) (hbuf : Buffered m pinData len)
    (hlegacy : legacyPin m.view → ramAgrees m.vars key)
    (htag : legacyPin m.view ∨ ¬ rawTagged m.view) :
    wp f (acceptOldPin d b pinData len pin)
      (fun _ n => Settled d pin key m n) (fun _ _ => False) (Secured d pin key) m := by
  have hsized : PinSized (fileBytes (m.view .efPin)) := storedVerifies_sized h.view.verifies
  have hpd : pinData.length = pinDataLen := by
    have hle := hsized.le
    rw [hbuf.eq, List.length_append, List.length_replicate, hbuf.len]
    omega
  unfold acceptOldPin upgradeLegacy
  simp only [bind_eq, pure_eq, wp_bind]
  by_cases hleg : legacyPin m.view
  · have hlen : len = pinLegacyDataLen := hbuf.len.trans hleg
    unfold setSession
    simp only [hlen, if_true, wp_bind, wp_setting]
    set m1 := m.setVars { m.vars with sessionPin := d.hashMulti pin } with hm1
    have h1 : Secured d pin key m1 := h.setVars _
    have hload := loadKeydev_secured (b := b) hf hd h1 (pinSession_legacy hleg).symm (hlegacy hleg)
      (List.replicate 32 0)
    apply wp_mono hload _ (fun _ _ hn => hn) (fun _ hn => hn)
    rintro r n ⟨rfl, hn⟩
    simp only [wp_bind]
    apply wp_mono (encryptKeydevF1_secured hf hd hn.secured) _ (fun _ _ hn => hn) (fun _ hn => hn)
    rintro - n' ⟨hn', hbytes⟩
    -- now the key file opens under any PIN, so the PIN file can change its format
    have hxlen : (d.kbaseEncrypt key).length = 32 := by
      rw [hd.kbaseEncrypt_length, keydevPlain_length hd h.view.decrypts]
    have hplain : keydevPlain d (d.pinDeriveSession pin) (fileBytes (n'.view .efKeyDev)) =
        some key := by
      rw [hbytes, keydevPlain_f1 hxlen, hd.kbase_inverse _ (keydevPlain_length hd h.view.decrypts)]
    have h2 : 2 ≤ pinData.length := by rw [hpd]; decide
    simp only [wp_done]
    have hput : ∀ v, Secured d pin key (putEf (n'.setVars v) .efPin
        ((pinDataFor d pinData pin).set 0 maxPinRetries)) := by
      intro v
      apply (hn'.secured.setVars v).putPin _ (pinDataFor_drop h2 _).symm hplain
      rw [List.length_set, pinDataFor_length hd h2]
    have hstore := storeOldPin_secured (b := b) hf hd hn'.secured (pinDataFor_length hd h2) hput
      (not_rawTagged_f1 hd (keydevPlain_length hd h.view.decrypts) hbytes)
    apply wp_mono hstore _ (fun _ _ hn => hn) (fun _ hn => hn)
    intro _ n'' hn''
    have hk1 : Keeps m m1 := ⟨rfl, rfl, rfl, rfl⟩
    exact ⟨hn''.secured, ((hk1.trans hn.keeps).trans hn'.keeps).trans hn''.keeps, hn''.session,
      hn''.sized⟩
  · have hnew : (fileBytes (m.view .efPin)).length = pinDataLen := hsized.resolve_left hleg
    have hlen : ¬ len = pinLegacyDataLen := fun hl => hleg (hbuf.len.symm.trans hl)
    have hdata : pinData = fileBytes (m.view .efPin) := by
      rw [hbuf.eq, hbuf.len, hnew, Nat.sub_self, List.replicate_zero, List.append_nil]
    simp only [hlen, if_false, wp_done]
    have hstore := storeOldPin_secured (b := b) hf hd h hpd
      (fun v => by rw [hdata]; exact (h.setVars v).putRetry _) (htag.resolve_left hleg)
    exact wp_mono hstore (fun _ _ hn => hn) (fun _ _ hn => hn) (fun _ hn => hn)

theorem rewrapKeydev_secured (hf : ¬ f.silent) (hd : d.Lawful) {m' : FidoMachine} (h : Settled d pin key m m')
    (hram : ramAgrees m.vars key) (keydev : Bytes) :
    wp f (rewrapKeydev d b keydev pin) (fun _ n => Settled d pin key m n) (fun _ _ => False)
      (Secured d pin key) m' := by
  have hk : key.length = 32 := keydevPlain_length hd h.secured.view.decrypts
  have hram' : m'.vars.hasKeydevDec = true → m'.vars.keydevDec = key := by
    rw [h.keeps.has, h.keeps.dec]
    exact hram
  unfold rewrapKeydev setSession
  simp only [bind_eq, wp_bind]
  have hsess : m'.vars.sessionPin = pinSession d (fileBytes (m'.view .efPin)) pin := by
    rw [pinSession_new h.sized, h.session]
  apply wp_mono (loadKeydev_secured hf hd h.secured hsess hram' keydev) _ (fun _ _ hn => hn)
    (fun _ hn => hn)
  rintro r n ⟨rfl, hn⟩
  simp only [wp_bind, wp_setting]
  apply wp_mono (encryptKeydevF1_secured hf hd hn.secured) _ (fun _ _ hn => hn) (fun _ hn => hn)
  rintro - n1 ⟨hn1, hbytes⟩
  have hsized : (fileBytes (n1.view .efPin)).length = pinDataLen := by
    rw [hn1.pin, hn.pin]
    exact h.sized
  have hcheck := checkKeydevEncrypted_secured (b := b) hf hd
    (hn1.secured.setVars { n1.vars with sessionPin := d.pinDeriveSession pin })
    (not_rawTagged_f1 hd hk hbytes)
  rw [Machine.setVars_view, pinSession_new hsized] at hcheck
  apply wp_mono hcheck _ (fun _ _ hn => hn) (fun _ hn => hn)
  intro _ n3 hn3
  refine ⟨hn3.secured, ?_, hn3.session, ?_⟩
  · refine ((h.keeps.trans hn.keeps).trans hn1.keeps).trans (Keeps.trans ?_ hn3.keeps)
    exact ⟨rfl, rfl, rfl, rfl⟩
  · rw [hn3.pin]
    exact hsized

theorem finishNewPin_aside :
    Confined (fun k _ => Fid.aside k) (fun _ _ => True) (finishNewPin d) :=
  finishNewPin_confined (fun _ => ⟨by decide, by decide⟩) (fun _ => ⟨by decide, by decide⟩)
    (fun _ => ⟨by decide, by decide⟩) (fun _ => trivial) (fun _ _ => trivial) fun _ => trivial

theorem storeNewPin_secured (hf : ¬ f.silent) (hd : d.Lawful) {m' : FidoMachine} (h : Settled d pin key m m')
    {newPin : Bytes} (hsame : pinHash d newPin = pin) :
    wp f (storeNewPin d newPin) (fun _ => Secured d pin key) (fun _ => Secured d pin key)
      (Secured d pin key) m' := by
  have hkey := h.secured.view.decrypts
  rw [pinSession_new h.sized] at hkey
  unfold storeNewPin
  simp only [bind_eq, wp_bind, wp_readFile, hsame]
  split_ifs
  · exact h.secured
  · simp only [wp_bind, wp_filePutData]
    have hput : Secured d pin key (putEf m' .efPin (maxPinRetries ::
        BitVec.ofNat 8 (pinCodepointLen newPin) :: 1 :: d.pinDeriveVerifier pin)) := by
      apply h.secured.putPin _ rfl hkey
      simp [hd.verifier_length, pinDataLen]
    refine ⟨h.secured, ?_, fun hs => absurd hs hf⟩
    exact wp_mono (secured_confined finishNewPin_aside hput) (fun _ _ hn => hn.1)
      (fun _ _ hn => hn) (fun _ hn => hn)

/-- The request is accepted as far as the old PIN goes: every check before the comparison passes,
and the candidate is the stored PIN. -/
def oldPinAccepted (d : Device) (b : Beyond) (req : PinRequest) (m : FidoMachine) : Prop :=
  ∃ secret newPinEnc pinHashEnc plain,
    changePinGuards d b req m.vars m.view = .ok (secret, newPinEnc, pinHashEnc) ∧
    d.decrypt req.pinUvAuthProtocol secret pinHashEnc = some plain ∧
    storedVerifies d (fileBytes (m.view .efPin)) (readRaw b.stack (some ⟨plain, []⟩) 0 16)

/-- The request's new PIN passes the checks on new PINs. -/
def newPinAccepted (d : Device) (b : Beyond) (req : PinRequest) (m : FidoMachine)
    (newPin : Bytes) : Prop :=
  ∃ secret newPinEnc pinHashEnc,
    changePinGuards d b req m.vars m.view = .ok (secret, newPinEnc, pinHashEnc) ∧
    changeNewPin d b req secret newPinEnc m.view = .ok newPin

/-- When changePIN is safe for the key: nothing is asked of a request that is turned away. A PIN
file of the old length needs an honest RAM copy, one of the new length a key file that is not taken
for a tagged one; and the rewrap is safe only when the new PIN is the old one. -/
def ChangeSafe (d : Device) (req : PinRequest) (pin key : Bytes) (m : FidoMachine) : Prop :=
  ∀ b, oldPinAccepted d b req m →
    (legacyPin m.view → ramAgrees m.vars key) ∧ (legacyPin m.view ∨ ¬ rawTagged m.view) ∧
    ∀ newPin, newPinAccepted d b req m newPin → ramAgrees m.vars key ∧ pinHash d newPin = pin

theorem acceptOldPin_compared (hf : ¬ f.silent) (hd : d.Lawful) (h : Secured d pin key m)
    (hlegacy : legacyPin m.view → ramAgrees m.vars key)
    (htag : legacyPin m.view ∨ ¬ rawTagged m.view) :
    wp f (acceptOldPin d b (spentBuffer m.view) (fileGetSize (m.view .efPin)) pin)
      (fun _ n => Settled d pin key m n) (fun _ _ => False) (Secured d pin key)
      ((putEf m .efPin (spentPin m.view)).sync.record (.compared true)) := by
  have hspent : Secured d pin key (putEf m .efPin (spentPin m.view)) := h.putRetry _
  have hbuf := spent_buffered m
  set m1 := (putEf m .efPin (spentPin m.view)).sync with hm1
  have hkeydev : (putEf m .efPin (spentPin m.view)).view .efKeyDev = m.view .efKeyDev :=
    putEf_of_ne m _ (by decide)
  have hleg : legacyPin m1.view ↔ legacyPin m.view := by
    rw [legacyPin, ← hbuf.len]
    rfl
  have hraw : rawTagged m1.view ↔ rawTagged m.view := by
    rw [rawTagged, rawTagged, ← hkeydev]
    rfl
  have haccept := acceptOldPin_secured (b := b) hf hd (hspent.sync.record (.compared true))
    ⟨hbuf.eq, hbuf.len⟩ (fun hl => hlegacy (hleg.mp hl))
    (htag.imp hleg.mpr fun hr hr' => hr (hraw.mp hr'))
  apply wp_mono haccept _ (fun _ _ hn => hn) (fun _ hn => hn)
  intro _ n hn
  have hkeeps : Keeps m (m1.record (.compared true)) := by
    refine (Keeps.putEf m (.inl rfl) (spentPin m.view)).trans ?_
    exact ⟨rfl, rfl, rfl, rfl⟩
  exact ⟨hn.secured, hkeeps.trans hn.keeps, hn.session, hn.sized⟩

theorem changeNewPin_congr {req : PinRequest} {secret newPinEnc : Bytes} {n : FidoMachine}
    (h : Keeps m n) : changeNewPin d b req secret newPinEnc n.view =
      changeNewPin d b req secret newPinEnc m.view := by
  simp only [changeNewPin, checkNewPin, h.minpin, h.policy]

theorem changePin_secured (hf : ¬ f.silent) (hd : d.Lawful) (hpin : pin.length = 16)
    (req : PinRequest) (h : Secured d pin key m) (hsafe : ChangeSafe d req pin key m) :
    wp f (changePin d b req) (fun _ => Secured d pin key) (fun _ => Secured d pin key)
      (Secured d pin key) m := by
  unfold changePin
  simp only [bind_eq, wp_bind, wp_consult]
  cases hguards : changePinGuards d b req m.vars m.view with
  | error e => exact h
  | ok args =>
    obtain ⟨secret, newPinEnc, pinHashEnc⟩ := args
    simp only [wp_liftCheck]
    have hspent : Secured d pin key (putEf m .efPin (spentPin m.view)) := h.putRetry _
    apply spendRetry_wp (fun _ _ => h)
    intro _ _
    refine ⟨⟨h, hspent⟩, ?_, fun _ => ⟨h, hspent, hspent.sync⟩⟩
    apply judgeCandidate_secured hd hpin hspent.sync (spent_buffered m)
    intro plain hplain hcand
    have hacc : oldPinAccepted d b req m :=
      ⟨secret, newPinEnc, pinHashEnc, plain, hguards, hplain, hcand ▸ h.view.verifies⟩
    obtain ⟨hlegacy, htag, hnew⟩ := hsafe b hacc
    unfold changeAccepted
    simp only [bind_eq, wp_bind, wp_consult]
    apply wp_mono (acceptOldPin_compared hf hd h hlegacy htag) _ (fun _ _ hn => hn.elim)
      (fun _ hn => hn)
    intro keydev n hn
    rw [changeNewPin_congr hn.keeps]
    cases hnewPin : changeNewPin d b req secret newPinEnc m.view with
    | error e => exact hn.secured
    | ok newPin =>
      obtain ⟨hram, hsame⟩ := hnew newPin ⟨secret, newPinEnc, pinHashEnc, hguards, hnewPin⟩
      simp only [wp_liftCheck]
      rw [hsame]
      apply wp_mono (rewrapKeydev_secured hf hd hn hram keydev) _ (fun _ _ hn => hn.elim)
        (fun _ hn => hn)
      intro _ n' hn'
      rw [wp_flashCommit]
      exact ⟨hn'.secured, storeNewPin_secured hf hd hn'.sync hsame,
        fun _ => storeNewPin_secured hf hd hn' hsame⟩

end KeyWallet
