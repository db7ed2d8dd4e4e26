import Mathlib.Data.List.TakeWhile
import KeyWallet.PinStorage
import KeyWallet.StepSystem

/-! The minimum PIN length: setMinPINLength of cbor_config.c beside the clientPIN subcommands, and
what holds of the stored lengths and of the forced-change flag along every run of them. -/
namespace KeyWallet

open CrashProgram StepSystem

def maxPinLength : Nat := 63

/-- An authenticatorConfig request with subcommand 0x03, as it was parsed; `rawSubpara` are the
bytes of its parameters. -/
structure MinPinRequest where
  newMinPinLength : Nat
  minPinLengthRPIDs : List Bytes
  forceChangePin : Option Bool
  pinPolicy : Option Bool
  rawSubpara : Bytes
  pinUvAuthProtocol : Option Nat
  pinUvAuthParam : Option Bytes
  deriving DecidableEq, Repr

/-- The checks that every subcommand of cbor_config makes. -/
def configGuards (d : Device) (b : Beyond) (subcommand : Byte) (rawSubpara : Bytes)
    (protocol : Option Nat) (param : Option Bytes) (v : FidoVars) (files : Files) :
    Except CtapErr Unit :=
  if protocol.any (fun p => p ≠ 1 ∧ p ≠ 2) then .error .invalidParameter
  else
    match param, protocol with
    | none, _ => .error .puatRequired
    | some _, none => .error .missingParameter
    | some param, some protocol =>
      if param.length ≠ (if protocol = 1 then 16 else 32) then .error .pinAuthInvalid
      else if verifyMac d b protocol (readRaw b.flash (files .efAuthToken) 0 32)
          (List.replicate 32 0xff ++ [0x0d, subcommand] ++ rawSubpara) param = false then
        .error .pinAuthInvalid
      else if v.permissions &&& BitVec.ofNat 8 permissionAcfg = 0 then .error .pinAuthInvalid
      else .ok ()

/-- The checks of setMinPINLength. On success the new minimum, and forceChangePin as it is by then:
a PIN that has become too short forces a change. -/
def minPinChecks (req : MinPinRequest) (files : Files) : Except CtapErr (Nat × Option Bool) :=
  match minpinReadLength (files .efMinPinLen) with
  | none => .error .processing
  | some current =>
    if req.newMinPinLength ≠ 0 ∧ maxPinLength < req.newMinPinLength then .error .pinPolicyViolation
    else if req.newMinPinLength ≠ 0 ∧ req.newMinPinLength < current then .error .pinPolicyViolation
    else
      let newMin := if req.newMinPinLength = 0 then current else req.newMinPinLength
      if req.forceChangePin = some true ∧ fileHasData (files .efPin) = false then .error .pinNotSet
      else if fileHasData (files .efPin) ∧ fileGetSize (files .efPin) < 2 then .error .processing
      else if fileHasData (files .efPin) ∧ ((fileBytes (files .efPin)).getD 1 0).toNat < newMin then
        .ok (newMin, some true)
      else .ok (newMin, req.forceChangePin)

/-- The record of EF_MINPINLEN: the length, the flag and the hashes of the RP IDs. -/
def minPinRecord (d : Device) (newMin : Nat) (force : Option Bool) (rpIds : List Bytes) : Bytes :=
  BitVec.ofNat 8 newMin :: (if force = some true then 1 else 0) :: rpIds.flatMap d.sha256

/-- A forceChangePin that is present resets the tokens, also when it is false. -/
def withdrawTokens (d : Device) (force : Option Bool) : Fido Unit :=
  if force.isSome then do
    resetAuthToken d .efPAuthToken
    resetAuthToken d .efAuthToken
  else pure ()

/-- A pinPolicy that is true leaves a policy without bits. -/
def resetPinPolicy (req : MinPinRequest) : Fido Unit :=
  if req.pinPolicy = some true then filePutData .efPinComplexityPolicy [0, 0] else pure ()

/-- setMinPINLength behind its checks. -/
def storeMinPin (d : Device) (req : MinPinRequest) (newMin : Nat) (force : Option Bool) :
    Fido Unit := do
  withdrawTokens d force
  filePutData .efMinPinLen (minPinRecord d newMin force req.minPinLengthRPIDs)
  resetPinPolicy req
  flashCommit

def setMinPinLength (d : Device) (b : Beyond) (req : MinPinRequest) : Fido Unit := do
  let authorized ← consult (configGuards d b 0x03 req.rawSubpara req.pinUvAuthProtocol
    req.pinUvAuthParam)
  liftCheck authorized
  let checked ← consult fun _ files => minPinChecks req files
  let (newMin, force) ← liftCheck checked
  storeMinPin d req newMin force

/-- What the law is about: the minimum-PIN record, and the length of the PIN when one is set. -/
structure PinFacts where
  minpin : Option Ef
  pinLen : Option Byte
  deriving DecidableEq, Repr

/-- The length in the header of a PIN file; both formats have it in the same place. -/
def pinMark (ef : Option Ef) : Option Byte :=
  if fileHasData ef then some ((fileBytes ef).getD 1 0) else none

def pinFacts (files : Files) : PinFacts := ⟨files .efMinPinLen, pinMark (files .efPin)⟩

namespace PinFacts

/-- The stored minimum. -/
def minLen (a : PinFacts) : Nat := (minpinReadLength a.minpin).getD 0

/-- The force-change flag is 1. -/
def Forced (a : PinFacts) : Prop := minpinRecordHasHeader a.minpin = true ∧ (fileBytes a.minpin).getD 1 0 = 1

instance (a : PinFacts) : Decidable a.Forced := inferInstanceAs (Decidable (_ ∧ _))

/-- A PIN that is set is long enough, or its change is forced. -/
def Enforced (a : PinFacts) : Prop := ∀ len, a.pinLen = some len → a.minLen ≤ len.toNat ∨ a.Forced

end PinFacts

/-- The law holds, or the storage has refused a write of the PIN file whose result the code does not
look at. -/
def Held (n : FidoMachine) (a : PinFacts) : Prop := .efPin ∈ n.dropped ∨ a.Enforced

/-- The PIN record that setPIN and changePIN write. -/
def newPinRecord (d : Device) (pin : Bytes) : Bytes :=
  maxPinRetries :: BitVec.ofNat 8 (pinCodepointLen pin) :: 1 :: d.pinDeriveVerifier (pinHash d pin)

/-- The PIN file has gone from one PIN to another. -/
def ChangesPin (d : Device) (before after : Files) : Prop :=
  ∃ candidate newPin, storedVerifies d (fileBytes (before .efPin)) candidate ∧
    fileBytes (after .efPin) = newPinRecord d newPin ∧ pinHash d newPin ≠ candidate

/-- A flag that is gone was cleared by a command that may do so (`may`), with a change of the
PIN. -/
def FlagKept (may : Prop) (d : Device) (m n : FidoMachine) (files : Files) : Prop :=
  (pinFacts m.view).Forced →
    (pinFacts files).Forced ∨ may ∧ (ChangesPin d m.view files ∨ .efPin ∈ n.dropped)

/-- From `m` a command has come to `n`, where the code sees the facts `now`. -/
structure Kept (may : Prop) (d : Device) (m : FidoMachine) (now : PinFacts) (n : FidoMachine) :
    Prop where
  view : pinFacts n.view = now
  held : Held n now
  heldFlash : Held n (pinFacts n.flash)
  rises : (pinFacts m.view).minLen ≤ now.minLen
  risesFlash : (pinFacts m.flash).minLen ≤ (pinFacts n.flash).minLen
  floor : (pinFacts n.flash).minLen ≤ now.minLen
  locked : now.Forced → n.vars.permissions &&& BitVec.ofNat 8 permissionAcfg = 0
  flag : FlagKept may d m n n.view
  flagFlash : (pinFacts m.flash).Forced → FlagKept may d m n n.flash

/-- What holds between two commands. While a change is forced, no token may be used for
authenticatorConfig. -/
structure MinPinInv (m : FidoMachine) : Prop where
  held : Held m (pinFacts m.view)
  heldFlash : Held m (pinFacts m.flash)
  floor : (pinFacts m.flash).minLen ≤ (pinFacts m.view).minLen
  locked : (pinFacts m.view).Forced → m.vars.permissions &&& BitVec.ofNat 8 permissionAcfg = 0

section Keeping

variable {f : Faults} {may : Prop} {d : Device} {m n : FidoMachine} {now next : PinFacts}

theorem no_permission : (0 : Byte) &&& BitVec.ofNat 8 permissionAcfg = 0 := by decide

theorem MinPinInv.kept (h : MinPinInv m) : Kept may d m (pinFacts m.view) m where
  view := rfl
  held := h.held
  heldFlash := h.heldFlash
  rises := Nat.le_refl _
  risesFlash := Nat.le_refl _
  floor := h.floor
  locked := h.locked
  flag := fun hforced => .inl hforced
  flagFlash := fun hforced _ => .inl hforced

theorem Kept.inv (h : Kept may d m now n) : MinPinInv n := by
  obtain ⟨rfl, held, heldFlash, -, -, floor, locked, -, -⟩ := h
  exact ⟨held, heldFlash, floor, locked⟩

theorem Kept.reboot (h : Kept may d m now n) : MinPinInv (n.reboot FidoVars.atBoot) where
  held := h.heldFlash
  heldFlash := h.heldFlash
  floor := Nat.le_refl _
  locked := fun _ => no_permission

theorem Kept.sync (h : Kept may d m now n) : Kept may d m now n.sync := by
  have hflash : pinFacts n.sync.flash = now := h.view
  refine ⟨h.view, h.held, ?_, h.rises, ?_, ?_, h.locked, h.flag, fun _ => h.flag⟩
  · rw [hflash]
    exact h.held
  · rw [hflash]
    exact Nat.le_trans h.risesFlash h.floor
  · exact Nat.le_of_eq (congrArg PinFacts.minLen hflash)

theorem FlagKept.drop {files : Files} (h : FlagKept may d m n files) (k : Fid) :
    FlagKept may d m (n.drop k) files := by
  intro hforced
  exact (h hforced).imp_right fun hc => ⟨hc.1, hc.2.imp_right (List.mem_cons_of_mem k)⟩

theorem Kept.drop (h : Kept may d m now n) (k : Fid) : Kept may d m now (n.drop k) where
  view := h.view
  held := h.held.imp_left (List.mem_cons_of_mem k)
  heldFlash := h.heldFlash.imp_left (List.mem_cons_of_mem k)
  rises := h.rises
  risesFlash := h.risesFlash
  floor := h.floor
  locked := h.locked
  flag := h.flag.drop k
  flagFlash := fun hforced => (h.flagFlash hforced).drop k

theorem Kept.record (h : Kept may d m now n) (e : PinEvent) : Kept may d m now (n.record e) :=
  ⟨h.view, h.held, h.heldFlash, h.rises, h.risesFlash, h.floor, h.locked, h.flag, h.flagFlash⟩

theorem Kept.setVars (h : Kept may d m now n) {v : FidoVars}
    (hv : now.Forced → v.permissions &&& BitVec.ofNat 8 permissionAcfg = 0) :
    Kept may d m now (n.setVars v) :=
  ⟨h.view, h.held, h.heldFlash, h.rises, h.risesFlash, h.floor, hv, h.flag, h.flagFlash⟩

theorem Kept.write (h : Kept may d m now n) {k : Fid} {v : Option Ef}
    (hview : pinFacts (n.write k v).view = next) (hheld : Held n next)
    (hrises : now.minLen ≤ next.minLen)
    (hlocked : next.Forced → n.vars.permissions &&& BitVec.ofNat 8 permissionAcfg = 0)
    (hflag : FlagKept may d m n (n.write k v).view) : Kept may d m next (n.write k v) where
  view := hview
  held := hheld
  heldFlash := h.heldFlash
  rises := Nat.le_trans h.rises hrises
  risesFlash := h.risesFlash
  floor := Nat.le_trans h.floor hrises
  locked := hlocked
  flag := hflag
  flagFlash := h.flagFlash

/-- Writes that leave the facts alone. The PIN file is written only while they are still those of
the start. -/
def quietWrite (m : FidoMachine) (now : PinFacts) (k : Fid) (v : Option Ef) : Prop :=
  k ≠ .efMinPinLen ∧ (k = .efPin → pinMark v = now.pinLen ∧ now = pinFacts m.view)

/-- While a change is forced, permissions are only lost. -/
def quietVars (now : PinFacts) (v v' : FidoVars) : Prop :=
  now.Forced → v'.permissions = v.permissions ∨ v'.permissions = 0

theorem pinFacts_write {k : Fid} {v : Option Ef} (hview : pinFacts n.view = now)
    (hk : quietWrite m now k v) : pinFacts (n.write k v).view = now := by
  subst hview
  have hmin : (n.write k v).view .efMinPinLen = n.view .efMinPinLen := by
    rw [Machine.write_view, Function.update_of_ne (Ne.symm hk.1)]
  have hpin : pinMark ((n.write k v).view .efPin) = pinMark (n.view .efPin) := by
    by_cases h : k = .efPin
    · rw [Machine.write_view, h, Function.update_self]
      exact (hk.2 h).1
    · rw [Machine.write_view, Function.update_of_ne (Ne.symm h)]
  rw [pinFacts, pinFacts, hmin, hpin]

theorem Kept.quiet (h : Kept may d m now n) {k : Fid} {v : Option Ef} (hk : quietWrite m now k v) :
    Kept may d m now (n.write k v) := by
  have hview := pinFacts_write h.view hk
  apply h.write hview h.held (Nat.le_refl _) h.locked
  intro hforced
  by_cases hpin : k = .efPin
  · left
    rw [hview, (hk.2 hpin).2]
    exact hforced
  · -- the PIN file is as it was
    have hfile : (n.write k v).view .efPin = n.view .efPin := by
      rw [Machine.write_view, Function.update_of_ne (Ne.symm hpin)]
    have hflag := h.flag hforced
    unfold ChangesPin at *
    rwa [hview, ← h.view, hfile]

theorem kept_confined {α : Type} {p : Fido α} (hp : Confined (quietWrite m now) (quietVars now) p)
    (h : Kept may d m now n) :
    wp f p (fun _ => Kept may d m now) (fun _ => Kept may d m now) (Kept may d m now) n := by
  refine wp_confined (fun _ _ _ hk hn => hn.quiet hk) (fun _ k hn => hn.drop k)
    (fun _ hn => hn.sync) ?_ hp h
  intro n v hv hn
  apply hn.setVars
  intro hforced
  rcases hv hforced with hp | hp
  · rw [hp]
    exact hn.locked hforced
  · rw [hp]
    exact no_permission

end Keeping

/-! The parts of the commands that leave the facts alone. -/
section Quiet

variable {d : Device} {b : Beyond} {m : FidoMachine} {now : PinFacts}

/-- The buffer has the length of the stored PIN in its header, as the commands find it. -/
structure Marked (m : FidoMachine) (now : PinFacts) (data : Bytes) : Prop where
  sized : 2 ≤ data.length
  mark : now.pinLen = some (data.getD 1 0)
  start : now = pinFacts m.view

theorem Marked.set (h : Marked m now data) (x : Byte) : Marked m now (data.set 0 x) := by
  refine ⟨by rw [List.length_set]; exact h.sized, ?_, h.start⟩
  rw [h.mark, List.getD_eq_getElem?_getD, List.getD_eq_getElem?_getD, List.getElem?_set_ne (by decide)]

theorem Marked.take (h : Marked m now data) {len : Nat} (hlen : 2 ≤ len) :
    Marked m now (data.take len) := by
  have hsized := h.sized
  refine ⟨by rw [List.length_take]; omega, ?_, h.start⟩
  rw [h.mark, List.getD_eq_getElem?_getD, List.getD_eq_getElem?_getD, List.getElem?_take,
    if_pos (by omega)]

theorem Marked.pinDataFor (h : Marked m now data) (candidate : Bytes) :
    Marked m now (pinDataFor d data candidate) := by
  have hsized := h.sized
  refine ⟨?_, ?_, h.start⟩
  · simp only [KeyWallet.pinDataFor, List.length_append, List.length_take, List.length_singleton]
    omega
  · rw [h.mark]
    rcases data with _ | ⟨x, _ | ⟨y, rest⟩⟩
    · exact absurd hsized (by decide)
    · simp at hsized
    · rfl

theorem Marked.quiet (h : Marked m now data) (old : Option Ef) :
    quietWrite m now .efPin (fileWritten old data) := by
  refine ⟨by decide, fun _ => ⟨?_, h.start⟩⟩
  have hsized := h.sized
  have hdata : fileHasData (fileWritten old data) = true := by
    simp only [fileHasData, fileGetSize, fileBytes_written, decide_eq_true_eq]
    omega
  rw [pinMark, if_pos hdata, fileBytes_written, h.mark]

theorem quietWrite_of_ne {k : Fid} (hmin : k ≠ .efMinPinLen) (hpin : k ≠ .efPin) (v : Option Ef) :
    quietWrite m now k v :=
  ⟨hmin, fun h => absurd h hpin⟩

theorem withdrawn_quiet (fid : Fid) (v : FidoVars) : quietVars now v (withdrawn fid v) := by
  intro _
  unfold withdrawn
  dsimp only
  split_ifs
  · exact .inl rfl
  · exact .inr rfl

theorem keyOps_quiet : KeyOps (quietWrite m now) (quietVars now) where
  keyFile := quietWrite_of_ne (by decide) (by decide)
  drawn := fun _ _ => .inl rfl
  unlocked := fun _ _ => .inl rfl
  session := fun _ _ _ => .inl rfl

theorem resetAuthToken_quiet {fid : Fid} (hmin : fid ≠ .efMinPinLen) (hpin : fid ≠ .efPin) :
    Confined (quietWrite m now) (quietVars now) (resetAuthToken d fid) :=
  resetAuthToken_confined (quietWrite_of_ne hmin hpin) (fun _ _ => .inl rfl) (withdrawn_quiet fid)

theorem initializeHkey_quiet : Confined (quietWrite m now) (quietVars now) (initializeHkey d) := by
  apply readVars_confined.bind
  intro v
  show Confined _ _ (ite _ _ _)
  split_ifs
  · refine Confined.bind (setting_confined fun _ _ => .inl rfl) fun _ => ?_
    exact resetAuthToken_quiet (by decide) (by decide)
  · exact pure_confined _

theorem pinMismatch_quiet (h : Marked m now data) {len : Nat} (hlen : 2 ≤ len) :
    Confined (quietWrite m now) (quietVars now) (pinMismatch d data len) := by
  refine Confined.bind (setting_confined fun _ _ => .inl rfl) fun _ => ?_
  apply (resetAuthToken_quiet (by decide) (by decide)).bind
  intro _
  show Confined _ _ (ite _ _ _)
  split_ifs
  · exact fail_confined _
  · exact Confined.bind (setting_confined fun _ _ => .inl rfl) fun _ => fail_confined _
  · refine Confined.bind (setting_confined fun _ _ => .inl rfl) fun _ => ?_
    apply readVars_confined.bind
    intro v
    show Confined _ _ (ite _ _ _)
    split_ifs
    · exact fail_confined _
    · apply (persistPinRetryCounter_confined ((h.set _).take hlen).quiet).bind
      intro stored
      show Confined _ _ (ite _ _ _)
      split_ifs
      · exact fail_confined _
      · exact Confined.bind (setting_confined fun _ _ => .inl rfl) fun _ => fail_confined _

theorem upgradeLegacy_yields (h : Marked m now data) (len : Nat) (candidate keydev : Bytes) :
    Yields (fun r => Marked m now r.1) (upgradeLegacy d b data len candidate keydev) := by
  unfold upgradeLegacy
  split_ifs
  · apply Yields.bind
    intro _
    apply Yields.bind
    intro loaded
    cases loaded with
    | none => exact trivial
    | some key => exact Yields.bind _ fun _ => h.pinDataFor candidate
  · exact h

theorem putPin_quiet (h : Marked m now data) :
    Confined (quietWrite m now) (quietVars now) (filePutData .efPin (data.set 0 maxPinRetries)) :=
  filePutData_confined (h.set _).quiet

theorem acceptTokenPin_quiet (h : Marked m now data) (len : Nat) (candidate : Bytes) :
    Confined (quietWrite m now) (quietVars now) (acceptTokenPin d b data len candidate) := by
  apply (upgradeLegacy_confined keyOps_quiet _ _ _ _).bind_yields (upgradeLegacy_yields h _ _ _)
  rintro ⟨data', keydev⟩ h'
  apply (setSession_confined keyOps_quiet _).bind
  intro _
  apply (checkKeydevEncrypted_confined keyOps_quiet _).bind
  intro _
  apply (setting_confined fun _ _ => .inl rfl).bind
  intro _
  exact (putPin_quiet h').bind fun _ => flashCommit_confined

end Quiet

section Commands

variable {f : Faults} {may : Prop} {d : Device} {b : Beyond} {m n : FidoMachine} {now : PinFacts}

theorem marked_spent (hsized : PinSized (fileBytes (m.view .efPin))) :
    Marked m (pinFacts m.view) (spentBuffer m.view) := by
  have hpos := hsized.pos
  have hlen : 2 ≤ (fileBytes (m.view .efPin)).length := by
    rcases hsized with h | h <;> rw [h] <;> decide
  have hdata : fileHasData (m.view .efPin) = true := decide_eq_true hpos
  have hfile : Marked m (pinFacts m.view) (fileBytes (m.view .efPin)) := by
    refine ⟨hlen, ?_, rfl⟩
    rw [pinFacts, pinMark, if_pos hdata]
  have hspent : Marked m (pinFacts m.view) (spentPin m.view) := hfile.set _
  refine ⟨?_, ?_, rfl⟩
  · rw [spentBuffer, List.length_append]
    exact Nat.le_trans hspent.sized (Nat.le_add_right _ _)
  · rw [hspent.mark, spentBuffer, List.getD_eq_getElem?_getD, List.getD_eq_getElem?_getD,
      List.getElem?_append_left hspent.sized]

theorem pinMismatch_yields (data : Bytes) (len : Nat) :
    Yields (fun _ => False) (pinMismatch d data len) := by
  apply Yields.bind
  intro _
  apply Yields.bind
  intro _
  show Yields _ (ite _ _ _)
  split_ifs
  · exact trivial
  · exact Yields.bind _ fun _ => trivial
  · apply Yields.bind
    intro _
    apply Yields.bind
    intro v
    show Yields _ (ite _ _ _)
    split_ifs
    · exact trivial
    · apply Yields.bind
      intro stored
      show Yields _ (ite _ _ _)
      split_ifs
      · exact trivial
      · exact Yields.bind _ fun _ => trivial

theorem judgeCandidate_kept {protocol len : Nat} {secret hashEnc data : Bytes}
    {Q : Bytes → FidoMachine → Prop} (h : Kept may d m now n) (hmark : Marked m now data)
    (hlen : 2 ≤ len)
    (hQ : ∀ candidate n', Kept may d m now n' → pinVerifies d data len candidate = true →
      Q candidate n') :
    wp f (judgeCandidate d b protocol secret hashEnc data len) Q (fun _ => Kept may d m now)
      (Kept may d m now) n := by
  unfold judgeCandidate
  split
  · exact h
  · simp only [bind_eq, pure_eq, wp_bind, wp_event]
    split_ifs with hver
    · rw [wp_bind]
      have hmiss := kept_confined (f := f) (pinMismatch_quiet (d := d) hmark hlen)
        (h.record (.compared false))
      rw [hver]
      exact wp_mono (wp_yields (pinMismatch_yields data len) hmiss) (fun _ _ hn => hn.1.elim)
        (fun _ _ hn => hn) (fun _ hn => hn)
    · rw [Bool.not_eq_false] at hver
      simp only [wp_bind, wp_readVars, hver]
      split_ifs
      · exact h.record _
      · exact hQ _ _ (h.record _) hver

theorem spendAndJudge_kept {protocol : Nat} {secret hashEnc : Bytes}
    (rest : Bytes → Nat → Bytes → Fido Unit) {Q : Unit → FidoMachine → Prop}
    {R : CtapErr → FidoMachine → Prop} {C : FidoMachine → Prop}
    (h : MinPinInv m) (hR : ∀ e n, Kept may d m (pinFacts m.view) n → R e n)
    (hC : ∀ n, Kept may d m (pinFacts m.view) n → C n)
    (hrest : ∀ candidate n, Marked m (pinFacts m.view) (spentBuffer m.view) →
      PinSized (fileBytes (m.view .efPin)) → Kept may d m (pinFacts m.view) n →
      pinVerifies d (spentBuffer m.view) (fileGetSize (m.view .efPin)) candidate = true →
      wp f (rest (spentBuffer m.view) (fileGetSize (m.view .efPin)) candidate) Q R C n) :
    wp f (spendRetry.bind fun spent =>
      (judgeCandidate d b protocol secret hashEnc spent.1 spent.2).bind fun candidate =>
        rest spent.1 spent.2 candidate) Q R C m := by
  rw [wp_bind]
  have hkept : Kept may d m (pinFacts m.view) m := h.kept
  apply spendRetry_wp
  · exact fun _ e => hR e m hkept
  · intro hsized _
    have hmark := marked_spent hsized
    have hlen : 2 ≤ fileGetSize (m.view .efPin) := by
      rcases hsized with hl | hl <;> rw [fileGetSize, hl] <;> decide
    have hput : Kept may d m (pinFacts m.view) (putEf m .efPin (spentPin m.view)) := by
      apply hkept.quiet
      have htake : (spentBuffer m.view).take (fileGetSize (m.view .efPin)) = spentPin m.view := by
        apply List.take_left'
        simp [spentPin, fileGetSize]
      rw [← htake]
      exact (hmark.take hlen).quiet _
    refine ⟨⟨hC _ hkept, hC _ hput⟩, ?_, fun _ => ⟨hR _ _ hkept, hR _ _ hput, hR _ _ hput.sync⟩⟩
    rw [wp_bind]
    refine wp_mono (judgeCandidate_kept hput.sync hmark hlen ?_) (fun _ _ hn => hn)
      (fun e n hn => hR e n hn) (fun n hn => hC n hn)
    intro candidate n' hn hver
    exact hrest candidate n' hmark hsized hn hver

theorem PinFacts.Forced.pending {a : PinFacts} (h : a.Forced) :
    minpinForceChangePending a.minpin = true := by
  obtain ⟨minpin, pinLen⟩ := a
  cases minpin with
  | none => exact absurd h.1 Bool.false_ne_true
  | some ef =>
    have hflag : (ef.bytes[1]?).getD 0 = 1 := by
      rw [← List.getD_eq_getElem?_getD]
      exact h.2
    cases hx : ef.bytes[1]? with
    | none =>
      rw [hx] at hflag
      exact absurd hflag (by decide)
    | some x =>
      rw [hx] at hflag
      simp only [minpinForceChangePending, hx, decide_eq_true_eq]
      rw [show x = 1 from hflag]
      decide

theorem tokenAccepted_kept {data candidate : Bytes} {len : Nat} (withPermissions : Bool)
    (req : PinRequest) (h : Kept may d m (pinFacts m.view) n)
    (hmark : Marked m (pinFacts m.view) data) :
    wp f (tokenAccepted d b withPermissions req data len candidate)
      (fun _ n' => Kept may d m (pinFacts m.view) n' ∧
        minpinForceChangePending (m.view .efMinPinLen) = false)
      (fun _ => Kept may d m (pinFacts m.view)) (Kept may d m (pinFacts m.view)) n := by
  unfold tokenAccepted
  simp only [bind_eq, wp_bind, wp_readFile]
  refine wp_mono (kept_confined (acceptTokenPin_quiet hmark len candidate) h) ?_ (fun _ _ hn => hn)
    (fun _ hn => hn)
  intro _ n' hn
  have hmin : n'.view .efMinPinLen = m.view .efMinPinLen := congrArg PinFacts.minpin hn.view
  rw [hmin]
  split_ifs with hpending
  · exact hn
  · exact hn
  · rw [Bool.not_eq_true] at hpending
    -- nothing is forced, so the permissions of the new token are free
    have hfree : ¬ (pinFacts m.view).Forced := by
      intro hforced
      have hp := hforced.pending
      rw [show (pinFacts m.view).minpin = m.view .efMinPinLen from rfl, hpending] at hp
      cases hp
    have hissue : Confined (quietWrite m (pinFacts m.view)) (quietVars (pinFacts m.view))
        (issueToken d withPermissions req) :=
      issueToken_confined (quietWrite_of_ne (by decide) (by decide)) (fun _ h => absurd h hfree)
        (fun _ h => absurd h hfree) (fun _ _ h => absurd h hfree) (fun _ _ h => absurd h hfree)
        withPermissions req
    rw [wp_bind]
    refine wp_mono (kept_confined hissue hn) ?_ (fun _ _ hn => hn) (fun _ hn => hn)
    intro _ n'' hn'
    exact ⟨hn'.setVars fun h => absurd h hfree, hpending⟩

theorem getPinToken_kept (h : MinPinInv m) (withPermissions : Bool) (req : PinRequest) :
    wp f (getPinToken d b withPermissions req)
      (fun _ n => Kept may d m (pinFacts m.view) n ∧
        minpinForceChangePending (m.view .efMinPinLen) = false)
      (fun _ => Kept may d m (pinFacts m.view)) (Kept may d m (pinFacts m.view)) m := by
  unfold getPinToken
  simp only [bind_eq]
  rw [wp_bind, wp_consult]
  cases getPinTokenGuards d withPermissions req m.vars m.view with
  | error e => exact h.kept
  | ok args =>
    rw [wp_bind, wp_liftCheck]
    exact spendAndJudge_kept
      (fun data len candidate => tokenAccepted d b withPermissions req data len candidate) h
      (fun _ _ hn => hn) (fun _ hn => hn)
      (fun candidate n hmark _ hn _ => tokenAccepted_kept withPermissions req hn hmark)

/-- A command has come to `n` from `m`, with whatever facts. -/
def KeptSome (may : Prop) (d : Device) (m n : FidoMachine) : Prop := ∃ now, Kept may d m now n

theorem checkNewPin_length {files : Files} {plainLen : Nat} {padded pin : Bytes}
    (h : checkNewPin b files plainLen padded = .ok pin) :
    ∃ minPin, minpinReadLength (files .efMinPinLen) = some minPin ∧ minPin ≤ pinCodepointLen pin ∧
      pinCodepointLen pin < 256 := by
  unfold checkNewPin at h
  split at h
  · cases h
  next hpad =>
  cases hmin : minpinReadLength (files .efMinPinLen) with
  | none => rw [hmin] at h; cases h
  | some minPin =>
    rw [hmin] at h
    dsimp only at h
    split_ifs at h with hshort
    cases h
    refine ⟨minPin, rfl, by omega, ?_⟩
    have hcount : pinCodepointLen (pinBytes padded) ≤ (pinBytes padded).length :=
      List.length_filter_le _ _
    -- byte 63 is zero, so the text ends before it
    have hbytes : (pinBytes padded).length ≤ 63 := by
      by_contra hlong
      have hlt : 63 < (pinBytes padded).length := by omega
      have hmem : (pinBytes padded)[63] ∈ padded.takeWhile (· ≠ 0) := List.getElem_mem hlt
      have hne : (pinBytes padded)[63] ≠ 0 := by simpa using List.mem_takeWhile_imp hmem
      have heq : padded.getD 63 0 = (pinBytes padded)[63] := by
        have hprefix : pinBytes padded <+: padded := List.takeWhile_prefix _
        rw [List.getD_eq_getElem?_getD, List.prefix_iff_getElem?.mp hprefix 63 hlt]
        rfl
      exact hpad (.inr (heq ▸ hne))
    omega

theorem pinMark_record (old : Option Ef) (pin : Bytes) :
    pinMark (fileWritten old (newPinRecord d pin)) = some (BitVec.ofNat 8 (pinCodepointLen pin)) := by
  have hdata : fileHasData (fileWritten old (newPinRecord d pin)) = true := by
    simp [fileHasData, fileGetSize, newPinRecord]
  rw [pinMark, if_pos hdata, fileBytes_written]
  rfl

theorem Kept.newPin (h : Kept may d m now n) {pin : Bytes} {minPin : Nat}
    (hmin : minpinReadLength now.minpin = some minPin) (hlen : minPin ≤ pinCodepointLen pin)
    (hlt : pinCodepointLen pin < 256) (hflag : now.Forced ∨ ¬ (pinFacts m.view).Forced) :
    Kept may d m ⟨now.minpin, some (BitVec.ofNat 8 (pinCodepointLen pin))⟩
      (putEf n .efPin (newPinRecord d pin)) := by
  have hview : pinFacts (putEf n .efPin (newPinRecord d pin)).view =
      ⟨now.minpin, some (BitVec.ofNat 8 (pinCodepointLen pin))⟩ := by
    have hfile : (putEf n .efPin (newPinRecord d pin)).view .efMinPinLen = n.view .efMinPinLen :=
      putEf_of_ne n _ (by decide)
    have hpin : (putEf n .efPin (newPinRecord d pin)).view .efPin =
        fileWritten (n.view .efPin) (newPinRecord d pin) := by
      rw [putEf_view, Function.update_self]
    rw [pinFacts, hfile, hpin, pinMark_record, ← h.view]
    rfl
  apply h.write hview _ (Nat.le_refl _) h.locked
  · intro hforced
    left
    show (pinFacts (putEf n .efPin (newPinRecord d pin)).view).Forced
    rw [hview]
    exact hflag.resolve_right fun hn => hn hforced
  · right
    intro len hlen'
    left
    rw [← Option.some.inj hlen', BitVec.toNat_ofNat, Nat.mod_eq_of_lt hlt]
    rw [PinFacts.minLen, hmin]
    exact hlen

theorem checkKeydevEncrypted_total (token : Bytes) :
    CrashProgram.Total (checkKeydevEncrypted d b token) := by
  intro _ files
  show CrashProgram.Total (ite _ _ _)
  split_ifs
  · exact fun _ _ _ _ _ => trivial
  · exact trivial

theorem kept_total {α : Type} {p : Fido α} {R : CtapErr → FidoMachine → Prop}
    (hp : Confined (quietWrite m now) (quietVars now) p) (ht : CrashProgram.Total p)
    (h : Kept may d m now n) :
    wp f p (fun _ => KeptSome may d m) R (KeptSome may d m) n := by
  apply wp_total ht
  exact wp_mono (kept_confined hp h) (fun _ _ hn => ⟨now, hn⟩) (fun _ _ hn => hn)
    (fun _ hn => ⟨now, hn⟩)

theorem setAccepted_kept (h : MinPinInv m) (req : PinRequest) (secret newPinEnc : Bytes) :
    wp f (setAccepted d b req secret newPinEnc) (fun _ => KeptSome may d m)
      (fun _ => Kept may d m (pinFacts m.view)) (KeptSome may d m) m := by
  unfold setAccepted
  split
  · exact h.kept
  · next padded _ =>
    simp only [bind_eq]
    rw [wp_bind, wp_consult]
    cases hc : checkNewPin b m.view (newPinPlainLen req.pinUvAuthProtocol newPinEnc.length) padded with
    | error e => exact h.kept
    | ok pin =>
      rw [wp_bind, wp_liftCheck, wp_bind, wp_filePutData]
      obtain ⟨minPin, hmin, hlen, hlt⟩ := checkNewPin_length hc
      -- behind the write the commit and the key file are left, and no error
      have hquiet : ∀ now, Confined (quietWrite m now) (quietVars now)
          (flashCommit.bind fun _ => (setSession (d.pinDeriveSession (pinHash d pin))).bind fun _ =>
            (checkKeydevEncrypted d b (d.pinDeriveSession (pinHash d pin))).bind fun _ =>
            setting fun v => { v with newPinMismatches := 0, needsPowerCycle := false }) := by
        intro now
        apply flashCommit_confined.bind
        intro _
        apply (setSession_confined keyOps_quiet _).bind
        intro _
        apply (checkKeydevEncrypted_confined keyOps_quiet _).bind
        exact fun _ => setting_confined fun _ _ => .inl rfl
      have htotal : CrashProgram.Total
          (flashCommit.bind fun _ => (setSession (d.pinDeriveSession (pinHash d pin))).bind fun _ =>
            (checkKeydevEncrypted d b (d.pinDeriveSession (pinHash d pin))).bind fun _ =>
            setting fun v => { v with newPinMismatches := 0, needsPowerCycle := false }) := by
        intro _
        exact (checkKeydevEncrypted_total _).bind fun _ => trivial
      have hstart : Kept may d m (pinFacts m.view) m := h.kept
      refine ⟨⟨_, hstart⟩, ?_, fun _ => ?_⟩
      · apply kept_total (hquiet _) htotal (hstart.newPin hmin hlen hlt _)
        by_cases hforced : (pinFacts m.view).Forced
        · exact .inl hforced
        · exact .inr hforced
      · exact kept_total (hquiet _) htotal (hstart.drop .efPin)

theorem setPin_kept (h : MinPinInv m) (req : PinRequest) :
    wp f (setPin d b req) (fun _ => KeptSome may d m) (fun _ => Kept may d m (pinFacts m.view))
      (KeptSome may d m) m := by
  unfold setPin
  simp only [bind_eq, wp_bind, wp_consult]
  cases setPinGuards d b req m.vars m.view with
  | error e => exact h.kept
  | ok args =>
    rw [wp_liftCheck]
    exact setAccepted_kept h req args.1 args.2

/-- The PIN file has, in the new format, the verifier of the candidate, unless the storage refused
a write of it. -/
def HasVerifier (d : Device) (n : FidoMachine) (candidate : Bytes) : Prop :=
  ((fileBytes (n.view .efPin)).drop 3).take 32 = (d.pinDeriveVerifier candidate).take 32 ∨
    .efPin ∈ n.dropped

theorem hasVerifier_confined {α : Type} {p : Fido α} {candidate : Bytes}
    (hp : Confined (fun k _ => k ≠ .efPin) (fun _ _ => True) p) (h : HasVerifier d n candidate) :
    wp f p (fun _ n => HasVerifier d n candidate) (fun _ n => HasVerifier d n candidate)
      (fun n => HasVerifier d n candidate) n := by
  refine wp_confined ?_ ?_ (fun _ hn => hn) (fun _ _ _ hn => hn) hp h
  · intro n k v hk hn
    rcases hn with hn | hn
    · left
      rwa [Machine.write_view, Function.update_of_ne (Ne.symm hk)]
    · exact .inr hn
  · exact fun n k hn => hn.imp_right (List.mem_cons_of_mem k)

theorem keyOps_besidesPin : KeyOps (fun k _ => k ≠ .efPin) (fun _ _ => True) where
  keyFile := fun _ => by decide
  drawn := fun _ => trivial
  unlocked := fun _ => trivial
  session := fun _ _ => trivial

theorem kept_hasVerifier {α : Type} {p : Fido α} {candidate : Bytes}
    (hp : Confined (quietWrite m now) (quietVars now) p)
    (hp' : Confined (fun k _ => k ≠ .efPin) (fun _ _ => True) p)
    (h : Kept may d m now n) (hv : HasVerifier d n candidate) :
    wp f p (fun _ n' => Kept may d m now n' ∧ HasVerifier d n' candidate)
      (fun _ => Kept may d m now) (Kept may d m now) n :=
  wp_mono (wp_and (kept_confined hp h) (hasVerifier_confined hp' hv)) (fun _ _ hn => hn)
    (fun _ _ hn => hn.1) (fun _ hn => hn.1)

theorem acceptOldPin_kept {data candidate : Bytes} {len : Nat}
    (h : Kept may d m (pinFacts m.view) n) (hmark : Marked m (pinFacts m.view) data)
    (hver : pinVerifies d data len candidate = true) :
    wp f (acceptOldPin d b data len candidate)
      (fun _ n' => Kept may d m (pinFacts m.view) n' ∧ HasVerifier d n' candidate)
      (fun _ => Kept may d m (pinFacts m.view)) (Kept may d m (pinFacts m.view)) n := by
  unfold acceptOldPin
  simp only [bind_eq, pure_eq, wp_bind, wp_done]
  have hyield : Yields (fun r => Marked m (pinFacts m.view) r.1 ∧
      (r.1.drop 3).take 32 = (d.pinDeriveVerifier candidate).take 32)
      (upgradeLegacy d b data len candidate (List.replicate 32 0)) := by
    unfold upgradeLegacy
    split_ifs with hlegacy
    · apply Yields.bind
      intro _
      apply Yields.bind
      intro loaded
      cases loaded with
      | none => exact trivial
      | some key =>
        refine Yields.bind _ fun _ => ⟨hmark.pinDataFor candidate, ?_⟩
        have hthree : (data.take 2 ++ [1]).length = 3 := by
          rw [List.length_append, List.length_take, Nat.min_eq_left hmark.sized]
          rfl
        show ((data.take 2 ++ [1] ++ d.pinDeriveVerifier candidate).drop 3).take 32 = _
        rw [← hthree, List.drop_left]
    · refine ⟨hmark, ?_⟩
      rw [pinVerifies, if_neg hlegacy, decide_eq_true_eq] at hver
      rw [hver, List.take_take, Nat.min_self]
  refine wp_mono (wp_yields hyield (kept_confined (upgradeLegacy_confined keyOps_quiet _ _ _ _) h)) ?_
    (fun _ _ hn => hn) (fun _ hn => hn)
  rintro ⟨data', keydev⟩ n' ⟨⟨hmark', hver'⟩, hn⟩
  unfold storeOldPin
  simp only [bind_eq]
  rw [wp_bind, setSession, wp_setting, wp_bind, wp_filePutData]
  have hn := hn.setVars (v := { n'.vars with sessionPin := d.pinDeriveSession candidate }) hn.locked
  -- behind the write the key is wrapped
  have hrest : ∀ n1, Kept may d m (pinFacts m.view) n1 → HasVerifier d n1 candidate →
      wp f (flashCommit.bind fun _ =>
        (checkKeydevEncrypted d b (d.pinDeriveSession candidate)).bind fun _ =>
        setting fun v => { v with newPinMismatches := 0 })
        (fun _ n' => Kept may d m (pinFacts m.view) n' ∧ HasVerifier d n' candidate)
        (fun _ => Kept may d m (pinFacts m.view)) (Kept may d m (pinFacts m.view)) n1 := by
    intro n1 h1 hv
    refine kept_hasVerifier ?_ ?_ h1 hv
    · apply flashCommit_confined.bind
      intro _
      exact (checkKeydevEncrypted_confined keyOps_quiet _).bind fun _ =>
        setting_confined fun _ _ => .inl rfl
    · apply flashCommit_confined.bind
      intro _
      exact (checkKeydevEncrypted_confined keyOps_besidesPin _).bind fun _ =>
        setting_confined fun _ => trivial
  refine ⟨hn, hrest _ (hn.quiet ((hmark'.set _).quiet _)) (.inl ?_), fun _ =>
    hrest _ (hn.drop .efPin) (.inr List.mem_cons_self)⟩
  rw [putEf_self, List.drop_set_of_lt (by decide)]
  exact hver'

theorem minpinReadLength_written (old : Option Ef) (data : Bytes) :
    minpinReadLength (fileWritten old data) = data.head?.map BitVec.toNat := by
  unfold fileWritten
  cases old with
  | none => rfl
  | some ef =>
    dsimp only
    split_ifs
    · rfl
    · rfl

theorem pinFacts_putMinPin (hview : pinFacts n.view = now) (data : Bytes) :
    pinFacts (putEf n .efMinPinLen data).view =
      ⟨fileWritten (n.view .efMinPinLen) data, now.pinLen⟩ := by
  have hfile : (putEf n .efMinPinLen data).view .efMinPinLen =
      fileWritten (n.view .efMinPinLen) data := by
    rw [putEf_view, Function.update_self]
  have hpin : (putEf n .efMinPinLen data).view .efPin = n.view .efPin := putEf_of_ne n _ (by decide)
  rw [pinFacts, hfile, hpin, ← hview]
  rfl

theorem Kept.clear (h : Kept may d m now n) (hmay : may) (hforced : now.Forced)
    (hchanged : ChangesPin d m.view n.view ∨ .efPin ∈ n.dropped)
    (hlong : .efPin ∈ n.dropped ∨ ∀ len, now.pinLen = some len → now.minLen ≤ len.toNat) :
    KeptSome may d m (putEf n .efMinPinLen ((fileBytes (n.view .efMinPinLen)).set 1 0)) := by
  have hview := pinFacts_putMinPin h.view ((fileBytes (n.view .efMinPinLen)).set 1 0)
  obtain ⟨ef, x, y, rest, hfile, hbytes⟩ : ∃ ef x y rest, n.view .efMinPinLen = some ef ∧
      ef.bytes = x :: y :: rest := by
    have hheader : minpinRecordHasHeader (n.view .efMinPinLen) = true := by
      have hmin : now.minpin = n.view .efMinPinLen := congrArg PinFacts.minpin h.view.symm
      rw [← hmin]
      exact hforced.1
    cases hfile : n.view .efMinPinLen with
    | none =>
      rw [hfile] at hheader
      cases hheader
    | some ef =>
      rw [hfile] at hheader
      have hsize : 2 ≤ ef.bytes.length := by
        simp only [minpinRecordHasHeader, Bool.and_eq_true, decide_eq_true_eq] at hheader
        exact hheader.2
      rcases hb : ef.bytes with _ | ⟨x, _ | ⟨y, rest⟩⟩
      · rw [hb] at hsize
        exact absurd hsize (by decide)
      · rw [hb] at hsize
        simp at hsize
      · exact ⟨ef, x, y, rest, rfl, hb⟩
  -- the length stands before the flag
  have hsame : now.minLen = PinFacts.minLen ⟨fileWritten (n.view .efMinPinLen)
      ((fileBytes (n.view .efMinPinLen)).set 1 0), now.pinLen⟩ := by
    rw [PinFacts.minLen, PinFacts.minLen, minpinReadLength_written, ← h.view]
    show (minpinReadLength (n.view .efMinPinLen)).getD 0 = _
    rw [hfile, minpinReadLength, fileBytes, hbytes]
    rfl
  refine ⟨_, h.write hview ?_ (Nat.le_of_eq hsame) ?_ ?_⟩
  · refine hlong.imp_right fun hlen len hl => .inl ?_
    rw [← hsame]
    exact hlen len hl
  · rintro ⟨-, hflag⟩
    rw [fileBytes_written, hfile, fileBytes, hbytes] at hflag
    exact absurd (show (0 : Byte) = 1 from hflag) (by decide)
  · intro _
    right
    refine ⟨hmay, hchanged.imp_left ?_⟩
    intro hc
    have hpin : (putEf n .efMinPinLen ((fileBytes (n.view .efMinPinLen)).set 1 0)).view .efPin =
        n.view .efPin := putEf_of_ne n _ (by decide)
    unfold ChangesPin at *
    show ∃ candidate newPin, _ ∧ fileBytes ((putEf n .efMinPinLen _).view .efPin) = _ ∧ _
    rwa [hpin]

theorem resetTokens_kept {R : CtapErr → FidoMachine → Prop} (h : KeptSome may d m n) :
    wp f (flashCommit.bind fun _ => (resetAuthToken d .efAuthToken).bind fun _ =>
      (resetAuthToken d .efPAuthToken).bind fun _ =>
      setting fun v => { v with needsPowerCycle := false }) (fun _ => KeptSome may d m) R
      (KeptSome may d m) n := by
  obtain ⟨now, hn⟩ := h
  refine kept_total ?_ ?_ hn
  · apply flashCommit_confined.bind
    intro _
    apply (resetAuthToken_quiet (by decide) (by decide)).bind
    intro _
    apply (resetAuthToken_quiet (by decide) (by decide)).bind
    exact fun _ => setting_confined fun _ _ => .inl rfl
  · intro _
    apply (resetAuthToken_total _).bind
    intro _
    exact (resetAuthToken_total _).bind fun _ => trivial

theorem finishNewPin_kept {R : CtapErr → FidoMachine → Prop} (h : Kept may d m now n) (hmay : may)
    (hchanged : now.Forced → ChangesPin d m.view n.view ∨ .efPin ∈ n.dropped)
    (hlong : .efPin ∈ n.dropped ∨ ∀ len, now.pinLen = some len → now.minLen ≤ len.toNat) :
    wp f (finishNewPin d) (fun _ => KeptSome may d m) R (KeptSome may d m) n := by
  unfold finishNewPin clearForceChange
  simp only [bind_eq]
  rw [wp_bind, wp_bind, wp_readFile]
  have hforced : (minpinRecordHasHeader (n.view .efMinPinLen) = true ∧
      (fileBytes (n.view .efMinPinLen)).getD 1 0 = 1) ↔ now.Forced := by
    rw [← h.view]
    exact Iff.rfl
  split_ifs with hcond
  · rw [wp_filePutData]
    have hf := hforced.mp hcond
    exact ⟨⟨now, h⟩, resetTokens_kept (h.clear hmay hf (hchanged hf) hlong),
      fun _ => resetTokens_kept ⟨now, h.drop _⟩⟩
  · exact resetTokens_kept ⟨now, h⟩

theorem storeNewPin_kept {candidate pin : Bytes} {minPin : Nat}
    (h : Kept may d m (pinFacts m.view) n) (hmay : may) (hv : HasVerifier d n candidate)
    (hstored : storedVerifies d (fileBytes (m.view .efPin)) candidate)
    (hmin : minpinReadLength (pinFacts m.view).minpin = some minPin)
    (hlen : minPin ≤ pinCodepointLen pin) (hlt : pinCodepointLen pin < 256) :
    wp f (storeNewPin d pin) (fun _ => KeptSome may d m) (fun _ => Kept may d m (pinFacts m.view))
      (KeptSome may d m) n := by
  unfold storeNewPin
  simp only [bind_eq]
  rw [wp_bind, wp_readFile, wp_bind, wp_readFile]
  split_ifs with hsame
  · exact h
  · rw [wp_bind, wp_filePutData]
    refine ⟨⟨_, h⟩, ?_, fun _ => ?_⟩
    · have hnew := h.newPin hmin hlen hlt (by tauto)
      refine finishNewPin_kept hnew hmay ?_ (.inr ?_)
      · intro hforced
        rcases hv with hv | hv
        · left
          refine ⟨candidate, pin, hstored, putEf_self n .efPin _, ?_⟩
          -- the same PIN would have the same verifier
          intro heq
          apply hsame
          have hfile : n.view .efMinPinLen = (pinFacts m.view).minpin :=
            congrArg PinFacts.minpin h.view
          rw [hfile]
          refine ⟨hforced.1, hforced.2, ?_⟩
          rw [hv, ← heq]
          rfl
        · exact .inr hv
      · intro len hl
        rw [← Option.some.inj hl, BitVec.toNat_ofNat, Nat.mod_eq_of_lt hlt, PinFacts.minLen, hmin]
        exact hlen
    · exact finishNewPin_kept (h.drop .efPin) hmay (fun _ => .inr List.mem_cons_self)
        (.inl List.mem_cons_self)

theorem changeAccepted_kept {data candidate secret newPinEnc : Bytes} {len : Nat} (req : PinRequest)
    (h : Kept may d m (pinFacts m.view) n) (hmay : may) (hmark : Marked m (pinFacts m.view) data)
    (hver : pinVerifies d data len candidate = true)
    (hstored : storedVerifies d (fileBytes (m.view .efPin)) candidate) :
    wp f (changeAccepted d b req secret newPinEnc data len candidate) (fun _ => KeptSome may d m)
      (fun _ => Kept may d m (pinFacts m.view)) (KeptSome may d m) n := by
  unfold changeAccepted
  simp only [bind_eq]
  rw [wp_bind]
  refine wp_mono (acceptOldPin_kept h hmark hver) ?_ (fun _ _ hn => hn) (fun _ hn => ⟨_, hn⟩)
  rintro keydev n1 ⟨h1, hv1⟩
  rw [wp_bind, wp_consult]
  cases hc : changeNewPin d b req secret newPinEnc n1.view with
  | error e => exact h1
  | ok pin =>
    obtain ⟨padded, hcheck⟩ : ∃ padded, checkNewPin b n1.view
        (newPinPlainLen req.pinUvAuthProtocol newPinEnc.length) padded = .ok pin := by
      unfold changeNewPin at hc
      split at hc
      · cases hc
      · exact ⟨_, hc⟩
    obtain ⟨minPin, hmin, hlen, hlt⟩ := checkNewPin_length hcheck
    rw [wp_bind, wp_liftCheck, wp_bind]
    refine wp_mono (kept_hasVerifier (rewrapKeydev_confined keyOps_quiet _ _)
      (rewrapKeydev_confined keyOps_besidesPin _ _) h1 hv1) ?_ (fun _ _ hn => hn)
      (fun _ hn => ⟨_, hn⟩)
    rintro - n2 ⟨h2, hv2⟩
    have hmin' : minpinReadLength (pinFacts m.view).minpin = some minPin := by
      rw [← h1.view]
      exact hmin
    rw [wp_bind, wp_flashCommit]
    exact ⟨⟨_, h2⟩, storeNewPin_kept h2.sync hmay hv2 hstored hmin' hlen hlt,
      fun _ => storeNewPin_kept h2 hmay hv2 hstored hmin' hlen hlt⟩

theorem changePin_kept (h : MinPinInv m) (hmay : may) (req : PinRequest) :
    wp f (changePin d b req) (fun _ => KeptSome may d m) (fun _ => Kept may d m (pinFacts m.view))
      (KeptSome may d m) m := by
  unfold changePin
  simp only [bind_eq]
  rw [wp_bind, wp_consult]
  cases changePinGuards d b req m.vars m.view with
  | error e => exact h.kept
  | ok args =>
    rw [wp_bind, wp_liftCheck]
    apply spendAndJudge_kept
      (fun data len candidate => changeAccepted d b req args.1 args.2.1 data len candidate) h
      (fun _ _ hn => hn) (fun _ hn => ⟨_, hn⟩)
    intro candidate n hmark hsized hn hver
    -- the buffer is the PIN file but for the retry byte
    have hstored : storedVerifies d (fileBytes (m.view .efPin)) candidate := by
      have hspent : PinSized (spentPin m.view) := by
        rwa [PinSized, spentPin, List.length_set]
      have hlen : fileGetSize (m.view .efPin) = (spentPin m.view).length := by
        rw [spentPin, List.length_set]
        rfl
      rw [spentBuffer, hlen] at hver
      exact (storedVerifies_set _ _ _).mp ((pinVerifies_iff hspent).mp hver)
    exact changeAccepted_kept req hn hmay hmark hver hstored

/-- Only changePIN may clear the flag. -/
def PinCommand.changes : PinCommand → Prop
  | .changePin _ => True
  | _ => False

/-- A request that comes back with a token. -/
def PinCommand.token : PinCommand → Prop
  | .getPinToken _ _ => True
  | _ => False

theorem Kept.trans {n0 : FidoMachine} (h : Kept False d m (pinFacts m.view) n0)
    (hpin : n0.view .efPin = m.view .efPin) (h' : Kept may d n0 now n) : Kept may d m now n := by
  have hforced : (pinFacts m.view).Forced → (pinFacts n0.view).Forced := by
    intro hf
    rwa [h.view]
  have hchange : ∀ files, FlagKept may d n0 n files → FlagKept may d m n files := by
    intro files hfiles hf
    have hc := hfiles (hforced hf)
    unfold ChangesPin at *
    rwa [hpin] at hc
  refine ⟨h'.view, h'.held, h'.heldFlash, ?_, Nat.le_trans h.risesFlash h'.risesFlash, h'.floor,
    h'.locked, hchange _ h'.flag, ?_⟩
  · rw [← h.view]
    exact h'.rises
  · intro hflash hf
    have hn0 : (pinFacts n0.flash).Forced := (h.flagFlash hflash hf).resolve_right fun hc => hc.1
    exact hchange _ (h'.flagFlash hn0) hf

theorem KeptSome.trans {n0 : FidoMachine} (h : Kept False d m (pinFacts m.view) n0)
    (hpin : n0.view .efPin = m.view .efPin) (h' : KeptSome may d n0 n) : KeptSome may d m n := by
  obtain ⟨now, hn⟩ := h'
  exact ⟨now, h.trans hpin hn⟩

theorem initializeHkey_kept (h : MinPinInv m) :
    wp f (initializeHkey d)
      (fun _ n => Kept False d m (pinFacts m.view) n ∧ n.view .efPin = m.view .efPin)
      (fun _ n => Kept False d m (pinFacts m.view) n) (Kept False d m (pinFacts m.view)) m := by
  have hpin : wp f (initializeHkey d) (fun _ n => n.view .efPin = m.view .efPin)
      (fun _ n => n.view .efPin = m.view .efPin) (fun n => n.view .efPin = m.view .efPin) m := by
    refine wp_confined (W := fun k _ => k ≠ .efPin) (U := fun _ _ => True) ?_ (fun _ _ hn => hn)
      (fun _ hn => hn) (fun _ _ _ hn => hn) ?_ rfl
    · intro n k v hk hn
      rwa [Machine.write_view, Function.update_of_ne (Ne.symm hk)]
    · apply readVars_confined.bind
      intro v
      show Confined _ _ (ite _ _ _)
      split_ifs
      · refine Confined.bind (setting_confined fun _ => trivial) fun _ => ?_
        exact resetAuthToken_confined (fun _ => by decide) (fun _ => trivial) (fun _ => trivial)
      · exact pure_confined _
  exact wp_mono (wp_and (kept_confined initializeHkey_quiet h.kept) hpin) (fun _ _ hn => hn)
    (fun _ _ hn => hn.1) (fun _ hn => hn.1)

theorem cborClientPin_kept (h : MinPinInv m) (cmd : PinCommand) :
    wp f (cborClientPin d b cmd)
      (fun _ n => KeptSome cmd.changes d m n ∧
        (cmd.token → minpinForceChangePending (m.view .efMinPinLen) = false))
      (fun _ => KeptSome cmd.changes d m) (KeptSome cmd.changes d m) m := by
  have hweak : ∀ n, Kept False d m (pinFacts m.view) n → KeptSome cmd.changes d m n := by
    intro n hn
    refine ⟨_, ⟨hn.view, hn.held, hn.heldFlash, hn.rises, hn.risesFlash, hn.floor, hn.locked, ?_, ?_⟩⟩
    · exact fun hf => .inl ((hn.flag hf).resolve_right fun hc => hc.1)
    · exact fun hflash hf => .inl ((hn.flagFlash hflash hf).resolve_right fun hc => hc.1)
  unfold cborClientPin
  simp only [bind_eq]
  rw [wp_bind]
  refine wp_mono (initializeHkey_kept h) ?_ (fun _ n hn => hweak n hn) (fun n hn => hweak n hn)
  rintro - n0 ⟨h0, hpin⟩
  have hmin : n0.view .efMinPinLen = m.view .efMinPinLen := congrArg PinFacts.minpin h0.view
  split_ifs
  · exact hweak n0 h0
  cases cmd with
  | setPin req =>
    exact wp_mono (setPin_kept h0.inv req) (fun _ _ hn => ⟨hn.trans h0 hpin, fun ht => ht.elim⟩)
      (fun _ n hn => KeptSome.trans h0 hpin ⟨_, hn⟩) (fun _ hn => hn.trans h0 hpin)
  | changePin req =>
    exact wp_mono (changePin_kept h0.inv trivial req)
      (fun _ _ hn => ⟨hn.trans h0 hpin, fun ht => ht.elim⟩)
      (fun _ n hn => KeptSome.trans h0 hpin ⟨_, hn⟩) (fun _ hn => hn.trans h0 hpin)
  | getPinToken withPermissions req =>
    refine wp_mono (getPinToken_kept h0.inv withPermissions req) ?_
      (fun _ n hn => KeptSome.trans h0 hpin ⟨_, hn⟩) (fun n hn => KeptSome.trans h0 hpin ⟨_, hn⟩)
    rintro - n ⟨hn, hp⟩
    exact ⟨KeptSome.trans h0 hpin ⟨_, hn⟩, fun _ => hmin ▸ hp⟩

theorem configGuards_ok {subcommand : Byte} {rawSubpara : Bytes} {protocol : Option Nat}
    {param : Option Bytes} {v : FidoVars} {files : Files}
    (h : configGuards d b subcommand rawSubpara protocol param v files = .ok ()) :
    v.permissions &&& BitVec.ofNat 8 permissionAcfg ≠ 0 := by
  unfold configGuards at h
  split at h
  · cases h
  · split at h
    · cases h
    · cases h
    · split_ifs at h <;> assumption

theorem minPinChecks_ok {req : MinPinRequest} {files : Files} {newMin : Nat} {force : Option Bool}
    (h : minPinChecks req files = .ok (newMin, force)) :
    (pinFacts files).minLen ≤ newMin ∧ newMin < 256 ∧
      ∀ len, (pinFacts files).pinLen = some len → len.toNat < newMin → force = some true := by
  unfold minPinChecks at h
  cases hcur : minpinReadLength (files .efMinPinLen) with
  | none => rw [hcur] at h; cases h
  | some current =>
    have hmin : (pinFacts files).minLen = current := by
      rw [PinFacts.minLen, pinFacts, hcur]
      rfl
    have hbyte : current < 256 := by
      unfold minpinReadLength at hcur
      split at hcur
      · cases hcur
        decide
      · obtain ⟨x, -, hx⟩ := Option.map_eq_some_iff.mp hcur
        rw [← hx]
        exact x.isLt
    rw [hcur] at h
    dsimp only at h
    split at h
    · cases h
    next hmax =>
    split at h
    · cases h
    next hless =>
    obtain ⟨chosen, hchosen⟩ : ∃ chosen,
      (if req.newMinPinLength = 0 then current else req.newMinPinLength) = chosen := ⟨_, rfl⟩
    have hbound : current ≤ chosen ∧ chosen < 256 := by
      have hfits : maxPinLength = 63 := rfl
      split_ifs at hchosen <;> omega
    rw [hchosen] at h
    split_ifs at h with hnone hbad hshort
    · cases h
      exact ⟨hmin ▸ hbound.1, hbound.2, fun _ _ _ => rfl⟩
    · cases h
      refine ⟨hmin ▸ hbound.1, hbound.2, ?_⟩
      -- a PIN that is set is long enough here
      intro len hlen hlt
      have hmark : pinMark (files .efPin) = some len := hlen
      unfold pinMark at hmark
      split at hmark
      · next hset =>
        rw [← Option.some.inj hmark] at hlt
        exact absurd ⟨hset, hlt⟩ hshort
      · cases hmark

theorem resetAuthToken_permissions :
    wp f (resetAuthToken d .efAuthToken) (fun _ n => n.vars.permissions = 0) (fun _ _ => True)
      (fun _ => True) n :=
  ⟨trivial, ⟨trivial, rfl, fun _ => ⟨rfl, rfl⟩⟩, fun _ => ⟨trivial, rfl, fun _ => ⟨rfl, rfl⟩⟩⟩

theorem minPinRecord_forced {newMin : Nat} {force : Option Bool} {rpIds : List Bytes}
    {old : Option Ef} {pinLen : Option Byte} :
    PinFacts.Forced ⟨fileWritten old (minPinRecord d newMin force rpIds), pinLen⟩ ↔
      force = some true := by
  have hheader : minpinRecordHasHeader (fileWritten old (minPinRecord d newMin force rpIds)) = true := by
    simp [minpinRecordHasHeader, fileHasData, fileGetSize, minPinRecord]
  unfold PinFacts.Forced
  simp only [hheader, fileBytes_written, true_and]
  show (if force = some true then (1 : Byte) else 0) = 1 ↔ _
  split_ifs with h
  · exact ⟨fun _ => h, fun _ => rfl⟩
  · exact ⟨fun hz => absurd hz (by decide), fun hf => absurd hf h⟩

theorem Kept.minPin (h : Kept may d m now n) {newMin : Nat} {force : Option Bool}
    (rpIds : List Bytes) (hrises : now.minLen ≤ newMin) (hbyte : newMin < 256)
    (hshort : ∀ len, now.pinLen = some len → len.toNat < newMin → force = some true)
    (hreset : force.isSome → n.vars.permissions = 0) (hfree : ¬ (pinFacts m.view).Forced) :
    KeptSome may d m (putEf n .efMinPinLen (minPinRecord d newMin force rpIds)) := by
  have hview := pinFacts_putMinPin h.view (minPinRecord d newMin force rpIds)
  have hmin : PinFacts.minLen ⟨fileWritten (n.view .efMinPinLen) (minPinRecord d newMin force rpIds),
      now.pinLen⟩ = newMin := by
    rw [PinFacts.minLen, minpinReadLength_written]
    show (BitVec.ofNat 8 newMin).toNat = newMin
    rw [BitVec.toNat_ofNat, Nat.mod_eq_of_lt hbyte]
  refine ⟨_, h.write hview ?_ (Nat.le_trans hrises (Nat.le_of_eq hmin.symm)) ?_
    fun hf => absurd hf hfree⟩
  · right
    intro len hlen
    rw [hmin, minPinRecord_forced]
    by_cases hlt : len.toNat < newMin
    · exact .inr (hshort len hlen hlt)
    · exact .inl (Nat.le_of_not_lt hlt)
  · intro hforced
    rw [hreset (by rw [minPinRecord_forced.mp hforced]; rfl)]
    exact no_permission

theorem withdrawTokens_kept {R : CtapErr → FidoMachine → Prop} (force : Option Bool)
    (h : Kept may d m now n) :
    wp f (withdrawTokens d force)
      (fun _ n' => Kept may d m now n' ∧ (force.isSome → n'.vars.permissions = 0)) R
      (Kept may d m now) n := by
  unfold withdrawTokens
  split_ifs with hforce
  · refine wp_total (R := fun _ => Kept may d m now)
      ((resetAuthToken_total _).bind fun _ => resetAuthToken_total _) ?_
    simp only [bind_eq]
    rw [wp_bind]
    refine wp_mono (kept_confined (resetAuthToken_quiet (by decide) (by decide)) h) ?_
      (fun _ _ hn => hn) (fun _ hn => hn)
    intro _ n1 h1
    exact wp_mono (wp_and (kept_confined (resetAuthToken_quiet (by decide) (by decide)) h1)
      resetAuthToken_permissions) (fun _ _ hn => ⟨hn.1, fun _ => hn.2⟩) (fun _ _ hn => hn.1)
      (fun _ hn => hn.1)
  · exact ⟨h, fun hf => absurd hf hforce⟩

theorem storeMinPin_kept {R : CtapErr → FidoMachine → Prop} (h : MinPinInv m)
    (hfree : ¬ (pinFacts m.view).Forced) (req : MinPinRequest) {newMin : Nat} {force : Option Bool}
    (hcheck : minPinChecks req m.view = .ok (newMin, force)) :
    wp f (storeMinPin d req newMin force) (fun _ => KeptSome False d m) R (KeptSome False d m) m := by
  obtain ⟨hrises, hbyte, hshort⟩ := minPinChecks_ok hcheck
  -- the policy file and the commit leave the facts alone
  have hend : ∀ n, KeptSome False d m n → wp f ((resetPinPolicy req).bind fun _ => flashCommit)
      (fun _ => KeptSome False d m) R (KeptSome False d m) n := by
    rintro n ⟨now, hn⟩
    unfold resetPinPolicy
    split_ifs
    · refine kept_total ?_ (fun _ _ _ => trivial) hn
      have hpolicy : ∀ old, quietWrite m now .efPinComplexityPolicy (fileWritten old [0, 0]) :=
        fun old => quietWrite_of_ne (by decide) (by decide) _
      exact (filePutData_confined hpolicy).bind fun _ => flashCommit_confined
    · exact kept_total flashCommit_confined (fun _ => trivial) hn
  unfold storeMinPin
  simp only [bind_eq]
  rw [wp_bind]
  refine wp_mono (withdrawTokens_kept force h.kept) ?_ (fun _ _ hn => hn) (fun _ hn => ⟨_, hn⟩)
  rintro - n ⟨hn, hreset⟩
  rw [wp_bind, wp_filePutData]
  exact ⟨⟨_, hn⟩, hend _ (hn.minPin req.minPinLengthRPIDs hrises hbyte hshort hreset hfree),
    fun _ => hend _ ⟨_, hn.drop _⟩⟩

theorem setMinPinLength_kept (h : MinPinInv m) (req : MinPinRequest) :
    wp f (setMinPinLength d b req) (fun _ => KeptSome False d m)
      (fun _ => KeptSome False d m) (KeptSome False d m) m := by
  have hstart : Kept False d m (pinFacts m.view) m := h.kept
  unfold setMinPinLength
  simp only [bind_eq]
  rw [wp_bind, wp_consult]
  cases hauth : configGuards d b 3 req.rawSubpara req.pinUvAuthProtocol req.pinUvAuthParam
      m.vars m.view with
  | error e => exact ⟨_, hstart⟩
  | ok _ =>
    have hfree : ¬ (pinFacts m.view).Forced := fun hf => configGuards_ok hauth (h.locked hf)
    rw [wp_bind, wp_liftCheck, wp_bind, wp_consult]
    cases hcheck : minPinChecks req m.view with
    | error e => exact ⟨_, hstart⟩
    | ok r =>
      rw [wp_bind, wp_liftCheck]
      exact storeMinPin_kept h hfree req hcheck

end Commands

/-- What may happen, without a reset of the authenticator. -/
inductive MinPinInput
  | clientPin (b : Beyond) (cmd : PinCommand) (replies : List Reply)
  | setMinPinLength (b : Beyond) (req : MinPinRequest) (replies : List Reply)
  -- the flash queue is drained in the background
  | drain
  | powerCycle

namespace MinPinInput

/-- How a request ends, and in which state. -/
def outcome (d : Device) (m : FidoMachine) : MinPinInput → Outcome CtapErr Unit × FidoMachine
  | .clientPin b cmd replies =>
    ((exec (cborClientPin d b cmd) m replies).1, (exec (cborClientPin d b cmd) m replies).2.1)
  | .setMinPinLength b req replies =>
    ((exec (KeyWallet.setMinPinLength d b req) m replies).1,
      (exec (KeyWallet.setMinPinLength d b req) m replies).2.1)
  | .drain => (.done (), m.sync)
  | .powerCycle => (.lost, m)

/-- A power loss ends in a restart. -/
def step (d : Device) (m : FidoMachine) (i : MinPinInput) : FidoMachine :=
  match (i.outcome d m).1 with
  | .lost => (i.outcome d m).2.reboot FidoVars.atBoot
  | _ => (i.outcome d m).2

/-- The input asks for a change of the PIN. -/
def changes : MinPinInput → Prop
  | .clientPin _ cmd _ => cmd.changes
  | _ => False

/-- The input asks for a token, of any kind. -/
def token : MinPinInput → Prop
  | .clientPin _ cmd _ => cmd.token
  | _ => False

end MinPinInput

/-- The law at one step of a run. -/
structure MinPinLaw (d : Device) (m : FidoMachine) (i : MinPinInput) : Prop where
  /-- The durable minimum never decreases; the one that the code reads does not either, but for a
  power loss before it was durable. -/
  rises : (pinFacts m.flash).minLen ≤ (pinFacts (i.step d m).flash).minLen ∧
    ((i.outcome d m).1 ≠ .lost → (pinFacts m.view).minLen ≤ (pinFacts (i.step d m).view).minLen)
  /-- A PIN that is set is long enough or its change is forced, in what the code reads and in what is
  durable. -/
  enforced : Held (i.step d m) (pinFacts (i.step d m).view) ∧
    Held (i.step d m) (pinFacts (i.step d m).flash)
  /-- While a change is forced there is no token. -/
  refused : (pinFacts m.view).Forced → i.token → (i.outcome d m).1 ≠ .done ()
  /-- A flag that is gone was cleared by changePIN with another PIN, or it was never durable when
  the power went. -/
  cleared : (pinFacts m.view).Forced → ¬ (pinFacts (i.step d m).view).Forced →
    (i.changes ∧ (ChangesPin d m.view (i.step d m).view ∨ .efPin ∈ (i.step d m).dropped)) ∨
      ((i.outcome d m).1 = .lost ∧ ¬ (pinFacts m.flash).Forced)

section Runs

variable {d : Device} {m : FidoMachine}

theorem law_of_kept {i : MinPinInput} (hlost : (i.outcome d m).1 ≠ .lost)
    (h : KeptSome i.changes d m (i.outcome d m).2)
    (htoken : (pinFacts m.view).Forced → i.token → (i.outcome d m).1 ≠ .done ()) :
    MinPinInv (i.step d m) ∧ MinPinLaw d m i := by
  have hstep : i.step d m = (i.outcome d m).2 := by
    unfold MinPinInput.step
    split
    · next hl => exact absurd hl hlost
    · rfl
  obtain ⟨now, hn⟩ := h
  rw [← hstep] at hn
  refine ⟨hn.inv, ⟨⟨hn.risesFlash, fun _ => ?_⟩, ⟨?_, hn.heldFlash⟩, htoken, ?_⟩⟩
  · rw [hn.view]
    exact hn.rises
  · rw [hn.view]
    exact hn.held
  · intro hforced hgone
    exact .inl ((hn.flag hforced).resolve_left hgone)

theorem law_of_lost {i : MinPinInput} (hlost : (i.outcome d m).1 = .lost)
    (h : KeptSome i.changes d m (i.outcome d m).2) :
    MinPinInv (i.step d m) ∧ MinPinLaw d m i := by
  have hstep : i.step d m = (i.outcome d m).2.reboot FidoVars.atBoot := by
    unfold MinPinInput.step
    rw [hlost]
  obtain ⟨now, hn⟩ := h
  have hdropped : (i.step d m).dropped = (i.outcome d m).2.dropped := by rw [hstep]; rfl
  have hview : (i.step d m).view = (i.outcome d m).2.flash := by rw [hstep]; rfl
  have hflash : (i.step d m).flash = (i.outcome d m).2.flash := by rw [hstep]; rfl
  refine ⟨hstep ▸ hn.reboot, ⟨⟨?_, fun hl => absurd hlost hl⟩, ⟨?_, ?_⟩, ?_, ?_⟩⟩
  · rw [hflash]
    exact hn.risesFlash
  · rw [hview, Held, hdropped]
    exact hn.heldFlash
  · rw [hflash, Held, hdropped]
    exact hn.heldFlash
  · intro _ _ hdone
    rw [hlost] at hdone
    cases hdone
  · intro hforced hgone
    by_cases hdurable : (pinFacts m.flash).Forced
    · left
      rw [hview] at hgone ⊢
      rw [hdropped]
      exact (hn.flagFlash hdurable hforced).resolve_left hgone
    · exact .inr ⟨hlost, hdurable⟩

theorem minPin_step (h : MinPinInv m) (i : MinPinInput) :
    MinPinInv (i.step d m) ∧ MinPinLaw d m i := by
  cases i with
  | clientPin b cmd replies =>
    have hends := wp_sound (cborClientPin_kept (f := Faults.all) (d := d) (b := b) h cmd) trivial
      replies (.inl trivial)
    unfold Ends at hends
    cases hout : (exec (cborClientPin d b cmd) m replies).1 with
    | done a =>
      rw [hout] at hends
      apply law_of_kept
      · show (exec (cborClientPin d b cmd) m replies).1 ≠ .lost
        rw [hout]
        rintro ⟨⟩
      · exact hends.1
      · intro hforced ht
        have hp := hends.2 ht
        rw [show m.view .efMinPinLen = (pinFacts m.view).minpin from rfl, hforced.pending] at hp
        cases hp
    | fail e =>
      rw [hout] at hends
      apply law_of_kept
      · show (exec (cborClientPin d b cmd) m replies).1 ≠ .lost
        rw [hout]
        rintro ⟨⟩
      · exact hends
      · intro _ _
        show (exec (cborClientPin d b cmd) m replies).1 ≠ .done ()
        rw [hout]
        rintro ⟨⟩
    | lost =>
      rw [hout] at hends
      exact law_of_lost hout hends
  | setMinPinLength b req replies =>
    have hends := wp_sound (setMinPinLength_kept (f := Faults.all) (d := d) (b := b) h req) trivial
      replies (.inl trivial)
    unfold Ends at hends
    cases hout : (exec (setMinPinLength d b req) m replies).1 with
    | done a =>
      rw [hout] at hends
      apply law_of_kept
      · show (exec (setMinPinLength d b req) m replies).1 ≠ .lost
        rw [hout]
        rintro ⟨⟩
      · exact hends
      · exact fun _ ht => ht.elim
    | fail e =>
      rw [hout] at hends
      apply law_of_kept
      · show (exec (setMinPinLength d b req) m replies).1 ≠ .lost
        rw [hout]
        rintro ⟨⟩
      · exact hends
      · exact fun _ ht => ht.elim
    | lost =>
      rw [hout] at hends
      exact law_of_lost hout hends
  | drain =>
    apply law_of_kept
    · rintro ⟨⟩
    · have hkept : Kept False d m (pinFacts m.view) m := h.kept
      exact ⟨_, hkept.sync⟩
    · exact fun _ ht => ht.elim
  | powerCycle => exact law_of_lost rfl ⟨_, h.kept⟩

/-- The device comes up with files that respect the minimum. -/
structure MinPinFresh (m : FidoMachine) : Prop where
  stored : m.view = m.flash
  vars : m.vars = FidoVars.atBoot
  enforced : (pinFacts m.flash).Enforced

/-- Along every run of clientPIN and setMinPINLength requests, with refused writes, delayed commits
and power losses anywhere, each step keeps the law. -/
theorem minimum_pin_length_enforced (h : MinPinFresh m) (inputs : List MinPinInput) :
    Along (MinPinInput.step d) (MinPinLaw d) m inputs := by
  have hstart : MinPinInv m := by
    refine ⟨.inr ?_, .inr h.enforced, ?_, fun _ => ?_⟩
    · rw [h.stored]
      exact h.enforced
    · rw [h.stored]
    · rw [h.vars]
      exact no_permission
  have hstep : ∀ (s : FidoMachine) (i : MinPinInput), True → MinPinInv s →
      MinPinInv (i.step d s) ∧ MinPinLaw d s i := fun _ i _ hs => minPin_step hs i
  exact along_law hstep m inputs (along_true _ m inputs) hstart

end Runs

/-- A device whose PIN of four characters has become too short for the minimum of six. -/
def shortPinExample : FidoMachine :=
  let files : Files := fun
    | .efPin =>
      some ⟨8 :: 4 :: 1 :: plainDevice.pinDeriveVerifier (padded 16 [0x31, 0x32, 0x33, 0x34]), []⟩
    | .efMinPinLen => some ⟨[6, 1], []⟩
    | _ => none
  { view := files, flash := files, vars := FidoVars.atBoot, log := [], dropped := [] }

/-- No token with the right PIN, no minimum below six, and a restart changes nothing. -/
theorem minimum_pin_length_short_pin :
    (pinFacts shortPinExample.view).Forced ∧
    Along (MinPinInput.step plainDevice) (MinPinLaw plainDevice) shortPinExample
      [.clientPin ⟨fun _ => 0, fun _ => 0, fun _ => 0⟩
        (.getPinToken false ⟨1, some [], some [], -25, none, none,
          some (padded 16 [0x31, 0x32, 0x33, 0x34]), 0, none⟩) [],
        .setMinPinLength ⟨fun _ => 0, fun _ => 0, fun _ => 0⟩ ⟨4, [], none, none, [], none, none⟩ [],
        .powerCycle] := by
  have hfresh : MinPinFresh shortPinExample := by
    refine ⟨rfl, rfl, ?_⟩
    intro len hlen
    exact .inr (by decide)
  exact ⟨by decide, minimum_pin_length_enforced hfresh _⟩

end KeyWallet
