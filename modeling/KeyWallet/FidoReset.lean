import KeyWallet.Tlv
import KeyWallet.KeyFormats
import KeyWallet.ResidentContainer
import KeyWallet.VaultContainer

/-! authenticatorReset, cbor_reset.c: which files it clears, and what init_fido puts in their place.
The files go by their numbers, as several applications and the file system itself share them. -/
namespace KeyWallet.Reset

/-- What the files hold; no file and a file without data are the same. -/
abbrev Files := Nat → Bytes

def efKeyDev : Nat := 0xcc00
def efKeyDevEnc : Nat := 0xcc01
def efEeDev : Nat := 0xce00
def efEeDevEa : Nat := 0xce01
def efVaultKey : Nat := 0xce03
def efVaultLabel : Nat := 0xce04
def efCounter : Nat := 0xc000
def efOpts : Nat := 0xc001
def efPin : Nat := 0x1080
def efPinAdmin : Nat := 0x1084
def efAuthToken : Nat := 0x1090
def efPAuthToken : Nat := 0x1091
def efMinPinLen : Nat := 0x1100
def efLargeBlob : Nat := 0x1101
def efPinComplexityPolicy : Nat := 0x1102
def efDevState : Nat := 0x1103
def efOtpPin : Nat := 0x10a0
def efMeta : Nat := 0xe010
def efPhy : Nat := 0xe020

/-- The files of the FIDO application among file_entries. -/
def fidoEntries : List Nat :=
  [efKeyDev, efKeyDevEnc, efEeDev, efEeDevEa, efVaultKey, efVaultLabel, efCounter, efPin, efAuthToken,
    efPAuthToken, efMinPinLen, efPinComplexityPolicy, efDevState, efOpts, efLargeBlob, efPinAdmin]

def fileEntries : List Nat :=
  [0x3f00, efKeyDev, efKeyDevEnc, efEeDev, efEeDevEa, efVaultKey, efVaultLabel, efCounter, efPin,
    efAuthToken, efPAuthToken, efMinPinLen, efPinComplexityPolicy, efDevState, efOpts, efLargeBlob,
    efOtpPin, efPinAdmin]

/-- fido_reset_should_clear. -/
def shouldClear (fid : Nat) : Bool :=
  let pre := fid / 256
  fidoEntries.contains fid || (decide (0xc4 ≤ pre) && decide (pre ≤ 0xc9)) || decide (pre = 0xcf) ||
    (decide (0xd0 ≤ pre) && decide (pre ≤ 0xdc)) || (decide (0xe0 ≤ pre) && decide (pre ≤ 0xe3))

/-! The metadata of the files: entries with the number of a file and its data. -/

/-- The number of the file at the front of an entry. -/
def entryFid (value : Bytes) : Nat := (value.getD 0 0).toNat * 256 + (value.getD 1 0).toNat

/-- This item is the entry of the file. -/
def isEntry (fid : Nat) (i : Tlv.Item × Bytes) : Bool :=
  decide (2 ≤ i.1.value.length) && decide (entryFid i.1.value = fid)

def metaFind (fid : Nat) (data : Bytes) : Option Bytes :=
  ((Tlv.items data).find? (isEntry fid)).map fun i => i.1.value.drop 2

/-- What meta_delete_internal makes of the metadata, if there is an entry. -/
def metaRemoved (fid : Nat) (data : Bytes) : Option Bytes :=
  ((Tlv.items data).find? (isEntry fid)).map fun (item, behind) =>
    let p := data.length - behind.length
    data.take (p - item.value.length - Tlv.formatLen item.value.length - 1) ++ data.drop p

/-! The state. -/

/-- The files, and the table of those that are not in file_entries. EF_PHY is in neither. -/
structure Storage where
  files : Files
  dynamic : List Nat
  known : ∀ fid, files fid ≠ [] → fid ∈ fileEntries ∨ fid ∈ dynamic ∨ fid = efPhy
  phy : efPhy ∉ dynamic

/-- The variables; `paut` and `ppaut` are what the two token pointers point to. -/
structure Vars where
  hasKeydevDec : Bool
  keydevDec : Bytes
  keydevUnlocked : Bool
  sessionPin : Bytes
  needsPowerCycle : Bool
  paut : Bytes
  ppaut : Bytes
  otpScanned : Bool
  deriving DecidableEq, Repr

/-- What the flash and the random numbers give in one scan_files_fido. -/
structure Scan where
  generated : Option Bytes
  -- x509_create_cert for a device key
  certificate : Bytes → Option Bytes
  token : Bytes
  persistentToken : Bytes
  devState : Bytes
  puts : Nat → Bool := fun _ => true
  generated_length : ∀ k, generated = some k → k.length = 32
  certificate_ne : ∀ k c, certificate k = some c → c ≠ []
  token_length : token.length = 32
  persistentToken_length : persistentToken.length = 32

scoped instance buttonNeZero : @NeZero Nat Zero.ofOfNat0 3 := @NeZero.mk Nat Zero.ofOfNat0 3 (Nat.succ_ne_zero 2)

/-- What the button and the flash give in one reset, and the options of the build. -/
structure Env where
  -- within ten seconds of the start, where that is asked for
  inTime : Bool := true
  button : Fin 3 := 0
  clears : Nat → Bool := fun _ => true
  metaPuts : Nat → Bool := fun _ => true
  scan : Scan
  -- of the second scan_files_fido, in init_otp
  again : Scan
  defaultPuts : Nat → Bool := fun _ => true
  defaultMcuvNotRequired : Bool := false
  defaultPinPolicy : Bool := false

/-! Clearing. -/

/-- The loop over file_entries. -/
def clearEntries (env : Env) : List Nat → Files → Option Files
  | [], f => some f
  | fid :: rest, f =>
    if shouldClear fid then
      if f fid = [] ∨ env.clears fid then clearEntries env rest (Function.update f fid []) else none
    else clearEntries env rest f

/-- meta_delete_internal, and whether it ended well. -/
def metaDelete (env : Env) (fid : Nat) (f : Files) : Files × Bool :=
  match metaRemoved fid (f efMeta) with
  | none => (f, true)
  | some rest => if env.metaPuts fid then (Function.update f efMeta rest, true) else (f, false)

/-- file_for_each_dynamic with fido_reset_dynamic_file; the flag is metadata_failed. -/
def resetDynamic (env : Env) : List Nat → Files × Bool → Option (Files × Bool)
  | [], r => some r
  | fid :: rest, (f, failed) =>
    if f fid ≠ [] ∧ shouldClear fid then
      let (f, ok) := metaDelete env fid f
      if env.clears fid then resetDynamic env rest (Function.update f fid [], failed || !ok) else none
    else resetDynamic env rest (f, failed)

/-- fido_reset_storage. -/
def resetStorage (env : Env) (s : Storage) : Option Files := do
  let f ← clearEntries env fileEntries s.files
  let (f, failed) ← resetDynamic env s.dynamic (f, false)
  if failed then none else some f

/-! Starting again. -/

/-- load_keydev, for the formats that a key file can have. -/
def loadKey (d : Device) (v : Vars) (f : Files) : Option Bytes :=
  if v.hasKeydevDec then some v.keydevDec
  else if f efKeyDev = [] then none
  else keydevPlain d v.sessionPin (f efKeyDev)

/-- file_put_data, whose result nobody looks at. -/
def put (puts : Nat → Bool) (fid : Nat) (data : Bytes) (f : Files) : Files :=
  if puts fid then Function.update f fid data else f

/-- A file that is filled when it is empty. -/
def fill (puts : Nat → Bool) (fid : Nat) (data : Bytes) (f : Files) : Files :=
  if f fid = [] then put puts fid data f else f

def emptyLargeBlob : Bytes :=
  [0x80, 0x76, 0xbe, 0x8b, 0x52, 0x8d, 0x00, 0x75, 0xf7, 0xaa, 0xe9, 0x8d, 0x6f, 0xa5, 0x7a, 0x6d, 0x3c]

/-- scan_files_fido behind the certificate. -/
def scanRest (sc : Scan) (f : Files) (v : Vars) : Files × Vars :=
  let f := fill sc.puts efCounter [0, 0, 0, 0] f
  let f := fill sc.puts efAuthToken sc.token f
  let v := { v with paut := f efAuthToken }
  let f := fill sc.puts efPAuthToken sc.persistentToken f
  let v := { v with ppaut := f efPAuthToken }
  let f := fill sc.puts efLargeBlob emptyLargeBlob f
  (fill sc.puts efDevState sc.devState f, v)

/-- The certificate of scan_files_fido, and the rest. -/
def scanCertificate (sc : Scan) (d : Device) (f : Files) (v : Vars) : Files × Vars :=
  if f efEeDev = [] then
    match loadKey d v f with
    | none => (f, v)
    | some key =>
      match sc.certificate key with
      | none => (f, v)
      | some certificate => scanRest sc (put sc.puts efEeDev certificate f) v
  else scanRest sc f v

/-- scan_files_fido. -/
def scanFiles (sc : Scan) (d : Device) (f : Files) (v : Vars) : Files × Vars :=
  if f efKeyDev = [] ∧ f efKeyDevEnc = [] then
    match sc.generated with
    | none => (f, v)
    | some key => scanCertificate sc d (put sc.puts efKeyDev (1 :: d.kbaseEncrypt key) f) v
  else scanCertificate sc d f v

/-- The slots of the OTP application and its container. -/
def OtpFile (fid : Nat) : Prop := 0xb6 ≤ fid / 256 ∧ fid / 256 ≤ 0xb9 ∨ fid / 256 = 0xbb

/-- What init_otp does to the slots when they were not scanned yet; their key is the device's. Of it only matters
here which files it reads and writes. -/
structure OtpInit where
  run : Files → Files
  frame : ∀ f fid, ¬ OtpFile fid → run f fid = f fid
  own : ∀ f g, (∀ fid, OtpFile fid → f fid = g fid) → ∀ fid, OtpFile fid → run f fid = run g fid

/-- init_fido. There is no file of a relying party left that credential_migrate_rp_secure could
change; init_otp scans the files once more before it turns to the slots. -/
def initFido (env : Env) (d : Device) (otp : OtpInit) (f : Files) (v : Vars) : Files × Vars :=
  let (f, v) := scanFiles env.scan d f { v with keydevUnlocked := false }
  if v.otpScanned then (f, { v with needsPowerCycle := false })
  else
    let (f, v) := scanFiles env.again d f v
    (otp.run f, { v with needsPowerCycle := false })

def optMcuvNotRequired : Byte := 0x08

/-- What the options of a build add. -/
def defaults (env : Env) (f : Files) : Files :=
  let f := if env.defaultMcuvNotRequired then
      put env.defaultPuts efOpts [(f efOpts).headD 0 ||| optMcuvNotRequired] f
    else f
  if env.defaultPinPolicy then put env.defaultPuts efPinComplexityPolicy [0, 0] f else f

inductive Err
  | notAllowed
  | userActionTimeout
  | operationDenied
  | processing
  deriving DecidableEq, Repr

/-- cbor_reset. The tokens point into files that have been filled with zeros. -/
def cborReset (env : Env) (d : Device) (otp : OtpInit) (s : Storage) (v : Vars) :
    Except Err (Files × Vars) :=
  if env.inTime = false then .error .notAllowed
  else if env.button = 1 then .error .userActionTimeout
  else if env.button = 2 then .error .operationDenied
  else
    match resetStorage env s with
    | none => .error .processing
    | some f =>
      let (f, v) := initFido env d otp f { v with
        paut := List.replicate v.paut.length 0
        ppaut := List.replicate v.ppaut.length 0 }
      .ok (defaults env f, v)

/-! What the clearing leaves. -/

section Clearing

variable {env : Env}

theorem clearEntries_files {l : List Nat} {f g : Files} (h : clearEntries env l f = some g)
    (fid : Nat) : g fid = if fid ∈ l ∧ shouldClear fid then [] else f fid := by
  induction l generalizing f with
  | nil =>
    simp only [clearEntries, Option.some.injEq] at h
    simp [h]
  | cons x rest ih =>
    simp only [clearEntries] at h
    by_cases hx : shouldClear x
    · rw [if_pos hx] at h
      by_cases hc : f x = [] ∨ env.clears x = true
      · rw [if_pos hc] at h
        rw [ih h]
        by_cases he : fid = x
        · subst he
          simp [hx]
        · simp [he]
      · rw [if_neg hc] at h
        cases h
    · rw [if_neg hx] at h
      rw [ih h]
      by_cases he : fid = x
      · subst he
        simp [hx]
      · simp [he]

theorem metaRemoved_nil (fid : Nat) : metaRemoved fid [] = none := rfl

theorem metaFind_nil (fid : Nat) : metaFind fid [] = none := rfl

theorem metaDelete_other (x : Nat) (f : Files) {fid : Nat} (h : fid ≠ efMeta) :
    (metaDelete env x f).1 fid = f fid := by
  unfold metaDelete
  split
  · rfl
  · split_ifs
    · exact Function.update_of_ne h _ _
    · rfl

theorem metaDelete_empty (x : Nat) {f : Files} (h : f efMeta = []) :
    (metaDelete env x f).1 efMeta = [] := by
  unfold metaDelete
  rw [h, metaRemoved_nil]
  exact h

theorem resetDynamic_step {x : Nat} {rest : List Nat} {f : Files} {b : Bool} {r : Files × Bool}
    (h : resetDynamic env (x :: rest) (f, b) = some r) :
    (¬ (f x ≠ [] ∧ shouldClear x) ∧ resetDynamic env rest (f, b) = some r) ∨
      (shouldClear x ∧ ∃ b', resetDynamic env rest
        (Function.update (metaDelete env x f).1 x [], b') = some r) := by
  simp only [resetDynamic] at h
  by_cases hx : f x ≠ [] ∧ shouldClear x
  · rw [if_pos hx] at h
    split_ifs at h with hc
    exact .inr ⟨hx.2, _, h⟩
  · rw [if_neg hx] at h
    exact .inl ⟨hx, h⟩

theorem resetDynamic_meta_empty {l : List Nat} {f : Files} {b : Bool} {r : Files × Bool}
    (h : resetDynamic env l (f, b) = some r) (he : f efMeta = []) : r.1 efMeta = [] := by
  induction l generalizing f b with
  | nil =>
    simp only [resetDynamic, Option.some.injEq] at h
    rw [← h]
    exact he
  | cons x rest ih =>
    obtain ⟨-, h⟩ | ⟨-, b', h⟩ := resetDynamic_step h
    · exact ih h he
    · apply ih h
      by_cases hx : efMeta = x
      · rw [hx, Function.update_self]
      · rw [Function.update_of_ne hx]
        exact metaDelete_empty x he

theorem resetDynamic_files {l : List Nat} {f : Files} {b : Bool} {r : Files × Bool}
    (h : resetDynamic env l (f, b) = some r) {fid : Nat} (hm : fid ≠ efMeta) :
    r.1 fid = if fid ∈ l ∧ shouldClear fid then [] else f fid := by
  induction l generalizing f b with
  | nil =>
    simp only [resetDynamic, Option.some.injEq] at h
    simp [← h]
  | cons x rest ih =>
    obtain ⟨hx, h⟩ | ⟨hx, b', h⟩ := resetDynamic_step h
    · rw [ih h]
      by_cases he : fid = x
      · subst he
        by_cases hs : shouldClear fid
        · have h0 : f fid = [] := by
            by_contra h0
            exact hx ⟨h0, hs⟩
          simp [h0]
        · simp [hs]
      · simp [he]
    · rw [ih h]
      by_cases he : fid = x
      · subst he
        simp [hx]
      · simp [he, metaDelete_other x f hm]

theorem resetDynamic_meta {l : List Nat} {f : Files} {b : Bool} {r : Files × Bool}
    (h : resetDynamic env l (f, b) = some r) (hl : efMeta ∈ l) : r.1 efMeta = [] := by
  induction l generalizing f b with
  | nil => cases hl
  | cons x rest ih =>
    obtain ⟨hx, h⟩ | ⟨hx, b', h⟩ := resetDynamic_step h
    · by_cases he : efMeta = x
      · subst he
        apply resetDynamic_meta_empty h
        by_contra h0
        exact hx ⟨h0, by decide⟩
      · exact ih h ((List.mem_cons.mp hl).resolve_left he)
    · by_cases he : efMeta = x
      · subst he
        exact resetDynamic_meta_empty h (Function.update_self ..)
      · exact ih h ((List.mem_cons.mp hl).resolve_left he)

/-- fido_reset_storage clears what fido_reset_should_clear says, the metadata of every application
among it, and nothing else. EF_PHY has such a number too, but no loop meets it. -/
theorem resetStorage_files {s : Storage} {g : Files} (h : resetStorage env s = some g) (fid : Nat) :
    g fid = if shouldClear fid ∧ fid ≠ efPhy then [] else s.files fid := by
  simp only [resetStorage, Option.bind_eq_bind, Option.bind_eq_some_iff] at h
  obtain ⟨f, hf, ⟨g', failed⟩, hg, h⟩ := h
  have hgg : g' = g := by
    by_cases hb : failed
    · simp [hb] at h
    · simpa [hb] using h
  subst hgg
  have hc := clearEntries_files hf fid
  -- a file in neither list has no data before, so none after
  have hknown := s.known fid
  by_cases hm : fid = efMeta
  · subst hm
    have hmeta : g' efMeta = [] := by
      by_cases hl : efMeta ∈ s.dynamic
      · exact resetDynamic_meta hg hl
      · apply resetDynamic_meta_empty hg
        have h0 : s.files efMeta = [] := by
          by_contra h0
          have h1 : efMeta ∉ fileEntries := by decide
          have h2 : efMeta ≠ efPhy := by decide
          have h3 := hknown h0
          tauto
        rw [hc, h0, ite_self]
    rw [hmeta]
    simp [show shouldClear efMeta = true by decide, show efMeta ≠ efPhy by decide]
  · have hd : g' fid = if fid ∈ s.dynamic ∧ shouldClear fid then [] else f fid :=
      resetDynamic_files hg hm
    rw [hd, hc]
    by_cases hp : fid = efPhy
    · subst hp
      have h1 : efPhy ∉ fileEntries := by decide
      simp [h1, s.phy]
    · by_cases hs : shouldClear fid
      · by_cases h0 : s.files fid = []
        · simp [h0]
        · have hin : fid ∈ fileEntries ∨ fid ∈ s.dynamic := by
            have h3 := hknown h0
            tauto
          rcases hin with hin | hin
          · simp [hs, hp, hin]
          · simp [hs, hp, hin]
      · simp [hs]

end Clearing

end KeyWallet.Reset
