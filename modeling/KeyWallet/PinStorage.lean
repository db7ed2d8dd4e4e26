import KeyWallet.KeyFormats

/-! What the storage steps of the clientPIN subcommands do to the files, said once for all replies
of the storage. -/
namespace KeyWallet

open CrashProgram

/-- The machine after file_put_data has gone through. -/
@[simps!] def putEf (m : FidoMachine) (k : Fid) (data : Bytes) : FidoMachine :=
  m.write k (fileWritten (m.view k) data)

theorem putEf_self (m : FidoMachine) (k : Fid) (data : Bytes) :
    fileBytes ((putEf m k data).view k) = data := by
  simp

theorem putEf_of_ne (m : FidoMachine) {k k' : Fid} (data : Bytes) (h : k' ≠ k) :
    (putEf m k data).view k' = m.view k' := by
  simp [Function.update_of_ne h]

/-! The operations of the files and the variables. -/
section Operations

variable {f : Faults} {R : CtapErr → FidoMachine → Prop} {C : FidoMachine → Prop}
  {m : FidoMachine}

@[simp] theorem wp_readFile {Q : Option Ef → FidoMachine → Prop} (k : Fid) :
    wp f (readFile k) Q R C m ↔ Q (m.view k) m := Iff.rfl

@[simp] theorem wp_readVars {Q : FidoVars → FidoMachine → Prop} :
    wp f readVars Q R C m ↔ Q m.vars m := Iff.rfl

@[simp] theorem wp_filePutChecked {Q : Bool → FidoMachine → Prop} (k : Fid) (data : Bytes) :
    wp f (filePutChecked k data) Q R C m ↔
      C m ∧ Q true (putEf m k data) ∧ (f.noticed → Q false m ∧ Q false (putEf m k data)) := Iff.rfl

@[simp] theorem wp_filePutData {Q : Unit → FidoMachine → Prop} (k : Fid) (data : Bytes) :
    wp f (filePutData k data) Q R C m ↔
      C m ∧ Q () (putEf m k data) ∧ (f.silent → Q () (m.drop k)) := Iff.rfl

@[simp] theorem wp_flashCommit {Q : Unit → FidoMachine → Prop} :
    wp f flashCommit Q R C m ↔ C m ∧ Q () m.sync ∧ (f.noticed → Q () m) := wp_commitLater

@[simp] theorem wp_flashCommitSync {Q : Bool → FidoMachine → Prop} :
    wp f flashCommitSync Q R C m ↔
      C m ∧ Q true m.sync ∧ (f.noticed → Q false m ∧ Q false m.sync) := Iff.rfl

end Operations

/-! The same when nothing disturbs the storage. -/
section CalmOperations

variable {R : CtapErr → FidoMachine → Prop} {m : FidoMachine}

@[simp] theorem calm_readFile {Q : Option Ef → FidoMachine → Prop} (k : Fid) :
    calm (readFile k) Q R m ↔ Q (m.view k) m := Iff.rfl

@[simp] theorem calm_readVars {Q : FidoVars → FidoMachine → Prop} :
    calm readVars Q R m ↔ Q m.vars m := Iff.rfl

@[simp] theorem calm_filePutData {Q : Unit → FidoMachine → Prop} (k : Fid) (data : Bytes) :
    calm (filePutData k data) Q R m ↔ Q () (putEf m k data) := Iff.rfl

@[simp] theorem calm_flashCommit {Q : Unit → FidoMachine → Prop} :
    calm flashCommit Q R m ↔ Q () m.sync := Iff.rfl

@[simp] theorem calm_randomFill {d : Device} {Q : Bytes → FidoMachine → Prop} (len : Nat) :
    calm (randomFill d len) Q R m ↔
      Q (d.random m.vars.drawn len) (m.setVars { m.vars with drawn := m.vars.drawn + 1 }) := Iff.rfl

@[simp] theorem calm_encryptWithAad {d : Device} {Q : Bytes → FidoMachine → Prop}
    (key msg : Bytes) (version : Nat) :
    calm (encryptWithAad d key msg version) Q R m ↔
      Q (d.encryptWithAad version key msg (d.random m.vars.drawn 12))
        (m.setVars { m.vars with drawn := m.vars.drawn + 1 }) := Iff.rfl

end CalmOperations

theorem headD_take {xs : Bytes} {n : Nat} (hn : 0 < n) : (xs.take n).headD 0 = xs.headD 0 := by
  cases xs with
  | nil => simp
  | cons x xs =>
    obtain ⟨k, rfl⟩ : ∃ k, n = k + 1 := ⟨n - 1, by omega⟩
    rfl

section Steps

variable {f : Faults} {R : CtapErr → FidoMachine → Prop} {C : FidoMachine → Prop}
  {m : FidoMachine}

theorem persistPinRetryCounter_wp {Q : Bool → FidoMachine → Prop} {pinData : Bytes} {len : Nat}
    (h0 : 0 < len) (hlen : len ≤ pinData.length)
    (hC : C m ∧ C (putEf m .efPin (pinData.take len)))
    (hstored : Q true (putEf m .efPin (pinData.take len)).sync)
    (hrefused : f.noticed → Q false m ∧ Q false (putEf m .efPin (pinData.take len)) ∧
      Q false (putEf m .efPin (pinData.take len)).sync) :
    wp f (persistPinRetryCounter pinData len) Q R C m := by
  have hread : fileBytes ((putEf m .efPin (pinData.take len)).view .efPin) = pinData.take len :=
    putEf_self m _ _
  have hsize : fileGetSize ((putEf m .efPin (pinData.take len)).view .efPin) = len := by
    rw [fileGetSize, hread, List.length_take, Nat.min_eq_left hlen]
  unfold persistPinRetryCounter
  simp only [bind_eq, pure_eq, wp_bind, wp_filePutChecked, if_true, wp_done]
  refine ⟨hC.1, ?_, fun hf => ⟨(hrefused hf).1, (hrefused hf).2.1⟩⟩
  -- the write went through; what is left is the commit and the read back
  simp only [Bool.true_eq_false, if_false, wp_bind, wp_flashCommitSync, wp_readFile,
    Machine.sync_view, hsize, ne_eq, not_true, or_false, if_true, wp_done, hread, headD_take h0,
    decide_true]
  exact ⟨hC.2, hstored, fun hf => (hrefused hf).2⟩

/-- EF_PIN with one retry less. -/
def spentPin (files : Files) : Bytes :=
  (fileBytes (files .efPin)).set 0 (retryDecremented ((fileBytes (files .efPin)).headD 0))

/-- The buffer that load_pin_data fills and the decrement changes. -/
def spentBuffer (files : Files) : Bytes :=
  spentPin files ++ List.replicate (pinDataLen - fileGetSize (files .efPin)) 0

/-- A retry is spent durably, or the command ends. -/
theorem spendRetry_wp {Q : Bytes × Nat → FidoMachine → Prop}
    (hbad : ¬ PinSized (fileBytes (m.view .efPin)) ∨
      retryCount ((fileBytes (m.view .efPin)).headD 0) = 0 → ∀ e, R e m)
    (hspend : PinSized (fileBytes (m.view .efPin)) →
      retryCount ((fileBytes (m.view .efPin)).headD 0) ≠ 0 →
      (C m ∧ C (putEf m .efPin (spentPin m.view))) ∧
      Q (spentBuffer m.view, fileGetSize (m.view .efPin)) (putEf m .efPin (spentPin m.view)).sync ∧
      (f.noticed → R .processing m ∧ R .processing (putEf m .efPin (spentPin m.view)) ∧
        R .processing (putEf m .efPin (spentPin m.view)).sync)) :
    wp f spendRetry Q R C m := by
  unfold spendRetry
  simp only [bind_eq, pure_eq, wp_bind, wp_readFile]
  by_cases hlen : PinSized (fileBytes (m.view .efPin))
  · -- the buffer is the file and a zero behind a short one
    have hne : fileBytes (m.view .efPin) ≠ [] := List.ne_nil_of_length_pos hlen.pos
    have hhead : (fileBytes (m.view .efPin) ++
        List.replicate (pinDataLen - fileGetSize (m.view .efPin)) 0).headD 0 =
        (fileBytes (m.view .efPin)).headD 0 := by
      cases hx : fileBytes (m.view .efPin) with
      | nil => exact absurd hx hne
      | cons x xs => rfl
    have hset : (fileBytes (m.view .efPin) ++
        List.replicate (pinDataLen - fileGetSize (m.view .efPin)) 0).set 0
          (retryDecremented ((fileBytes (m.view .efPin)).headD 0)) = spentBuffer m.view := by
      rw [List.set_append_left _ _ hlen.pos]
      rfl
    have htake : (spentBuffer m.view).take (fileGetSize (m.view .efPin)) = spentPin m.view := by
      apply List.take_left'
      simp [spentPin, fileGetSize]
    rw [loadPinData_eq hlen]
    simp only [hhead, hset]
    split_ifs with hcount
    · exact hbad (.inr hcount) _
    · obtain ⟨hC, hspent, hrefused⟩ := hspend hlen hcount
      rw [wp_bind]
      apply persistPinRetryCounter_wp (show 0 < fileGetSize (m.view .efPin) from hlen.pos)
      · simp [spentBuffer, spentPin, fileGetSize]
      · rwa [htake]
      · simp only [htake, Bool.true_eq_false, if_false, wp_done]
        exact hspent
      · simp only [htake, if_true, wp_fail]
        exact hrefused
  · have hnone : loadPinData (m.view .efPin) = none := if_neg hlen
    rw [hnone]
    exact hbad (.inl hlen) _

end Steps
/-- The buffer of the code holds the PIN file. -/
structure Buffered (m : FidoMachine) (pinData : Bytes) (len : Nat) : Prop where
  eq : pinData = fileBytes (m.view .efPin) ++ List.replicate (pinDataLen - len) 0
  len : len = (fileBytes (m.view .efPin)).length

/-- EF_PIN after the retry has been spent, as the code holds it in its buffer. -/
theorem spent_buffered (m : FidoMachine) :
    Buffered (putEf m .efPin (spentPin m.view)).sync (spentBuffer m.view)
      (fileGetSize (m.view .efPin)) := by
  have hbytes : fileBytes ((putEf m .efPin (spentPin m.view)).sync.view .efPin) = spentPin m.view :=
    putEf_self m .efPin _
  refine ⟨?_, ?_⟩
  · rw [hbytes]
    rfl
  · rw [hbytes, spentPin, List.length_set]
    rfl

theorem changePinGuards_ok {d : Device} {b : Beyond} {req : PinRequest} {v : FidoVars} {files : Files}
    {args : Bytes × Bytes × Bytes} (h : changePinGuards d b req v files = .ok args) :
    retryCount ((fileBytes (files .efPin)).headD 0) ≠ 0 ∧ v.needsPowerCycle = false ∧
      req.newPinEnc = some args.2.1 ∧ sharedSecret d v req = .ok args.1 := by
  unfold changePinGuards at h
  split at h
  · next newPinEnc param pinHashEnc _ _ hnew _ _ =>
    obtain ⟨-, h⟩ := guard_ok h
    obtain ⟨-, h⟩ := guard_ok h
    obtain ⟨h3, h⟩ := guard_ok h
    obtain ⟨h4, h⟩ := guard_ok h
    obtain ⟨-, h⟩ := guard_ok h
    obtain ⟨-, h⟩ := guard_ok h
    cases hs : sharedSecret d v req with
    | error e => rw [hs] at h; cases h
    | ok secret =>
      rw [hs] at h
      dsimp only [bind, Except.bind] at h
      obtain ⟨-, h⟩ := guard_ok h
      cases h
      exact ⟨h3, Bool.not_eq_true _ ▸ h4, hnew, rfl⟩
  · cases h

section Confinement

variable {d : Device} {W : Fid → Option Ef → Prop} {U : FidoVars → FidoVars → Prop}

theorem pure_confined {α : Type} (a : α) : Confined W U (pure a : Fido α) := trivial

theorem fail_confined {α : Type} (e : CtapErr) : Confined W U (Prog.fail e : Fido α) := trivial

theorem readVars_confined : Confined W U readVars := fun _ _ => trivial

theorem readFile_confined (k : Fid) : Confined W U (readFile k) := fun _ _ => trivial

theorem flashCommit_confined : Confined W U flashCommit := fun _ => trivial

theorem filePutData_confined {k : Fid} {data : Bytes} (h : ∀ old, W k (fileWritten old data)) :
    Confined W U (filePutData k data) :=
  fun _ _ => ⟨h _, trivial⟩

theorem flashCommitSync_confined : Confined W U flashCommitSync := fun _ => trivial

theorem filePutChecked_confined {k : Fid} {data : Bytes} (h : ∀ old, W k (fileWritten old data)) :
    Confined W U (filePutChecked k data) :=
  fun _ _ => ⟨h _, fun _ => trivial⟩

theorem persistPinRetryCounter_confined {pinData : Bytes} {len : Nat}
    (h : ∀ old, W .efPin (fileWritten old (pinData.take len))) :
    Confined W U (persistPinRetryCounter pinData len) := by
  apply (filePutChecked_confined h).bind
  intro put
  show Confined W U (ite _ _ _)
  split_ifs
  · exact pure_confined _
  · apply flashCommitSync_confined.bind
    intro committed
    apply (readFile_confined .efPin).bind
    intro ef
    show Confined W U (ite _ _ _)
    split_ifs
    · exact pure_confined _
    · exact pure_confined _

theorem setting_confined {g : FidoVars → FidoVars} (h : ∀ v, U v (g v)) :
    Confined W U (setting g : Fido Unit) :=
  ⟨h, trivial⟩

theorem randomFill_confined (hU : ∀ v : FidoVars, U v { v with drawn := v.drawn + 1 })
    (len : Nat) : Confined W U (randomFill d len) :=
  fun _ _ => ⟨hU, trivial⟩

/-- What the functions around the device key do: they write its file, draw nonces, and set the
variables that go with the key. -/
structure KeyOps (W : Fid → Option Ef → Prop) (U : FidoVars → FidoVars → Prop) : Prop where
  keyFile : ∀ v, W .efKeyDev v
  drawn : ∀ v, U v { v with drawn := v.drawn + 1 }
  unlocked : ∀ v, U v { v with keydevUnlocked := true }
  session : ∀ v key, U v { v with sessionPin := key }

section KeyFile

variable {b : Beyond} (h : KeyOps W U)
include h

theorem sealKeydev_confined (key msg : Bytes) {α : Type} {rest : Unit → Fido α}
    (hrest : ∀ x, Confined W U (rest x)) :
    Confined W U ((encryptWithAad d key msg 2).bind fun sealed =>
      (filePutData .efKeyDev (3 :: sealed)).bind fun _ => flashCommit.bind rest) := by
  have hdraw : Confined W U (encryptWithAad d key msg 2) :=
    (randomFill_confined h.drawn 12).bind fun _ => pure_confined _
  apply hdraw.bind
  intro sealed
  apply (filePutData_confined fun _ => h.keyFile _).bind
  intro _
  exact flashCommit_confined.bind hrest

theorem loadWrapped_confined (payload : Bytes) (format : Byte) :
    Confined W U (loadWrapped d payload format) := by
  apply readVars_confined.bind
  intro v
  cases d.decryptWithAad (if format = 3 then 2 else 1) v.sessionPin payload with
  | none => exact pure_confined _
  | some key =>
    have hend := (setting_confined (W := W) h.unlocked).bind fun _ =>
      pure_confined (some (d.kbaseDecrypt key))
    show Confined W U (ite _ _ _)
    split_ifs
    · exact sealKeydev_confined h _ _ fun _ => hend
    · exact hend

theorem loadKeydev_confined (buffer : Bytes) : Confined W U (loadKeydev d b buffer) := by
  apply readVars_confined.bind
  intro v
  apply (readFile_confined .efKeyDev).bind
  intro ef
  dsimp only
  split_ifs
  · exact pure_confined _
  · exact pure_confined _
  · exact pure_confined _
  · exact loadWrapped_confined h _ _
  · exact pure_confined _
  · exact pure_confined _
  · exact pure_confined _

theorem encryptKeydevF1_confined (key : Bytes) : Confined W U (encryptKeydevF1 d key) := by
  apply (filePutData_confined fun _ => h.keyFile _).bind
  exact fun _ => flashCommit_confined

theorem checkKeydevEncrypted_confined (token : Bytes) :
    Confined W U (checkKeydevEncrypted d b token) := by
  apply (readFile_confined .efKeyDev).bind
  intro ef
  show Confined W U (ite _ _ _)
  split_ifs
  · exact sealKeydev_confined h _ _ fun _ => setting_confined h.unlocked
  · exact pure_confined _

theorem setSession_confined (key : Bytes) : Confined W U (setSession key) :=
  setting_confined fun v => h.session v key

theorem upgradeLegacy_confined (pinData : Bytes) (len : Nat) (candidate keydev : Bytes) :
    Confined W U (upgradeLegacy d b pinData len candidate keydev) := by
  unfold upgradeLegacy
  split_ifs
  · apply (setSession_confined h _).bind
    intro _
    apply (loadKeydev_confined h _).bind
    intro loaded
    cases loaded with
    | none => exact fail_confined _
    | some key => exact (encryptKeydevF1_confined h key).bind fun _ => pure_confined _
  · exact pure_confined _

theorem rewrapKeydev_confined (keydev hash : Bytes) :
    Confined W U (rewrapKeydev d b keydev hash) := by
  apply (loadKeydev_confined h _).bind
  intro loaded
  cases loaded with
  | none => exact fail_confined _
  | some key =>
    apply (encryptKeydevF1_confined h key).bind
    intro _
    apply (setSession_confined h _).bind
    exact fun _ => checkKeydevEncrypted_confined h _

end KeyFile

theorem resetAuthToken_confined {fid : Fid} (hW : ∀ v, W fid v)
    (hU : ∀ v : FidoVars, U v { v with drawn := v.drawn + 1 }) (hT : ∀ v, U v (withdrawn fid v)) :
    Confined W U (resetAuthToken d fid) := by
  apply (randomFill_confined hU 32).bind
  intro t
  apply (filePutData_confined fun _ => hW _).bind
  intro _
  exact flashCommit_confined.bind fun _ => setting_confined hT

/-- Of the variables the issue of a token changes the count of the draws and the permissions. -/
theorem issueToken_confined (hW : ∀ v, W .efAuthToken v)
    (hU : ∀ v : FidoVars, U v { v with drawn := v.drawn + 1 })
    (hT : ∀ v, U v (withdrawn .efAuthToken v))
    (hP : ∀ (v : FidoVars) (p : Byte), U v { v with permissions := p })
    (hQ : ∀ (v : FidoVars) (p : Byte), U v { v with persistentPermissions := p })
    (withPermissions : Bool) (req : PinRequest) :
    Confined W U (issueToken d withPermissions req) := by
  unfold issueToken
  split_ifs
  · exact (resetAuthToken_confined hW hU hT).bind fun _ => setting_confined fun v => hP v _
  · exact setting_confined fun v => hQ v _

theorem resetAuthToken_total (fid : Fid) : Total (resetAuthToken d fid) :=
  fun _ _ _ _ _ => trivial

/-- What follows the write of a new PIN touches the minimum-PIN record and the two tokens. -/
theorem finishNewPin_confined (hmin : ∀ v, W .efMinPinLen v) (htoken : ∀ v, W .efAuthToken v)
    (hptoken : ∀ v, W .efPAuthToken v) (hdrawn : ∀ v : FidoVars, U v { v with drawn := v.drawn + 1 })
    (hreset : ∀ fid v, U v (withdrawn fid v))
    (hlock : ∀ v : FidoVars, U v { v with needsPowerCycle := false }) :
    Confined W U (finishNewPin d) := by
  unfold finishNewPin clearForceChange
  refine Confined.bind ?_ fun _ => ?_
  · apply (readFile_confined .efMinPinLen).bind
    intro ef
    show Confined W U (ite _ _ _)
    split_ifs
    · exact filePutData_confined fun _ => hmin _
    · exact pure_confined _
  · apply flashCommit_confined.bind
    intro _
    apply (resetAuthToken_confined htoken hdrawn (hreset _)).bind
    intro _
    apply (resetAuthToken_confined hptoken hdrawn (hreset _)).bind
    exact fun _ => setting_confined hlock

end Confinement

end KeyWallet
