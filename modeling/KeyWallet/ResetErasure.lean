import KeyWallet.FidoReset

/-! What a reset leaves of the FIDO application, and of the others. The scan behind the clearing is
followed through what it makes of the key, the certificate and the two tokens. -/
namespace KeyWallet.Reset

/-! The files of the applications. -/

/-- The files of the FIDO application: its entries, the credentials and relying parties, and the
records of the resident containers and of the vault. The record 0xe020 would be EF_PHY. -/
def FidoFile (fid : Nat) : Prop :=
  fid ≠ efPhy ∧ (fid ∈ fidoEntries ∨ fid / 256 = 0xcf ∨ fid / 256 = 0xd0 ∨
    (∃ slot bank, fid = Container.Resident.manifestFid slot bank) ∨
    (∃ slot bank type, Container.Resident.objectTypeValid type = true ∧
      (fid = Container.Resident.recordFid slot bank type ∨
        fid = Container.Resident.recordFidLegacy slot bank type)) ∨
    (∃ bank, fid = Container.Vault.manifestFid bank) ∨
    ∃ bank type tag, Container.Vault.objectTypeValid type = true ∧
      fid = Container.Vault.recordFid bank type tag)

/-- The files of the other applications. -/
def Foreign (fid : Nat) : Prop :=
  (0xb0 ≤ fid / 256 ∧ fid / 256 ≤ 0xb5) ∨ fid / 256 = 0xba ∨ OtpFile fid ∨ fid = efOtpPin ∨
    fid = efPhy

/-- A legacy record of a credential's state in the second bank. -/
def LegacyState (fid : Nat) : Prop := fid / 256 = 0xdd

theorem objectTypeValid_bounds {type : Nat} (h : Container.Resident.objectTypeValid type = true) :
    1 ≤ type ∧ type ≤ 7 := by
  have h' : (decide (1 ≤ type) && decide (type ≤ 7)) = true := h
  simp only [Bool.and_eq_true, decide_eq_true_eq] at h'
  exact h'

theorem recordFidLegacy_prefix (slot bank type : Nat)
    (h : Container.Resident.objectTypeValid type = true) :
    0xd3 ≤ Container.Resident.recordFidLegacy slot bank type / 256 ∧
      Container.Resident.recordFidLegacy slot bank type / 256 ≤ 0xdd := by
  obtain ⟨h1, h7⟩ := objectTypeValid_bounds h
  unfold Container.Resident.recordFidLegacy
  generalize hm : Container.Resident.objectMetadata = m
  split_ifs <;> omega

theorem recordFid_prefix (slot bank type : Nat)
    (h : Container.Resident.objectTypeValid type = true) :
    (0xd0 ≤ Container.Resident.recordFid slot bank type / 256 ∧
      Container.Resident.recordFid slot bank type / 256 ≤ 0xdc) ∨
    (0xe0 ≤ Container.Resident.recordFid slot bank type / 256 ∧
      Container.Resident.recordFid slot bank type / 256 ≤ 0xe3) := by
  obtain ⟨h1, h7⟩ := objectTypeValid_bounds h
  unfold Container.Resident.recordFid
  by_cases hm : type = Container.Resident.objectMetadata
  · rw [if_pos hm]
    split_ifs <;> omega
  rw [if_neg hm]
  by_cases hk : type = Container.Resident.objectPrivateKey
  · rw [if_pos hk]
    split_ifs <;> omega
  rw [if_neg hk]
  by_cases hs : type = Container.Resident.objectState
  · rw [if_pos hs]
    split_ifs <;> omega
  -- what is left are the types up to four
  rw [if_neg hs]
  have h4 : type ≤ 4 := by
    have hm' : type ≠ 5 := hm
    have hk' : type ≠ 6 := hk
    have hs' : type ≠ 7 := hs
    omega
  split_ifs <;> omega

theorem shouldClear_of_group {fid : Nat}
    (h : (0xc4 ≤ fid / 256 ∧ fid / 256 ≤ 0xc9) ∨ fid / 256 = 0xcf ∨
      (0xd0 ≤ fid / 256 ∧ fid / 256 ≤ 0xdc) ∨ (0xe0 ≤ fid / 256 ∧ fid / 256 ≤ 0xe3)) :
    shouldClear fid = true := by
  simp only [shouldClear, Bool.or_eq_true, Bool.and_eq_true, decide_eq_true_eq]
  tauto

theorem FidoFile.cleared {fid : Nat} (h : FidoFile fid) : shouldClear fid = true ∨ LegacyState fid := by
  obtain ⟨-, h | h | h | ⟨slot, bank, rfl⟩ | ⟨slot, bank, type, hv, h⟩ | ⟨bank, rfl⟩ |
    ⟨bank, type, tag, hv, rfl⟩⟩ := h
  · left
    simp only [shouldClear, Bool.or_eq_true, List.contains_iff_mem]
    tauto
  · exact .inl (shouldClear_of_group (.inr (.inl h)))
  · apply Or.inl
    apply shouldClear_of_group
    omega
  · apply Or.inl
    apply shouldClear_of_group
    unfold Container.Resident.manifestFid
    split_ifs <;> omega
  · rcases h with rfl | rfl
    · have hp := recordFid_prefix slot bank type hv
      exact .inl (shouldClear_of_group (by omega))
    · have hp := recordFidLegacy_prefix slot bank type hv
      by_cases hs : Container.Resident.recordFidLegacy slot bank type / 256 = 0xdd
      · exact .inr hs
      · exact .inl (shouldClear_of_group (by omega))
  · apply Or.inl
    apply shouldClear_of_group
    unfold Container.Vault.manifestFid
    split_ifs <;> omega
  · apply Or.inl
    apply shouldClear_of_group
    unfold Container.Vault.recordFid
    split_ifs <;> omega

theorem LegacyState.fido {fid : Nat} (h : LegacyState fid) : FidoFile fid := by
  have h' : fid / 256 = 0xdd := h
  have hp : fid ≠ efPhy := by
    have hphy : efPhy = 0xe020 := rfl
    omega
  have hfid : fid = Container.Resident.recordFidLegacy (fid % 256) 1 7 := by
    show fid = ((215 + 7 - 1) * 256 + fid % 256 % 256) % 65536
    omega
  exact ⟨hp, .inr (.inr (.inr (.inr (.inl ⟨fid % 256, 1, 7, by decide, .inr hfid⟩))))⟩

theorem fidoEntries_prefix {fid : Nat} (h : fid ∈ fidoEntries) :
    (fid / 256 = 0x10 ∨ fid / 256 = 0x11 ∨ 0xc0 ≤ fid / 256) ∧ fid ≠ efOtpPin := by
  have hall : ∀ x ∈ fidoEntries,
      (x / 256 = 0x10 ∨ x / 256 = 0x11 ∨ 0xc0 ≤ x / 256) ∧ x ≠ efOtpPin := by decide
  exact hall fid h

theorem Foreign.not_cleared {fid : Nat} (h : Foreign fid) :
    ¬ (shouldClear fid = true ∧ fid ≠ efPhy) := by
  rintro ⟨hs, hp⟩
  simp only [shouldClear, Bool.or_eq_true, Bool.and_eq_true, decide_eq_true_eq,
    List.contains_iff_mem] at hs
  have hpin : efOtpPin = 0x10a0 := rfl
  -- a number is below 0xc000, or EF_OTP_PIN itself
  have hf : fid = efOtpPin ∨ (0xb0 ≤ fid / 256 ∧ fid / 256 < 0xc0) := by
    rcases h with h | h | h | h | h
    · omega
    · omega
    · rcases h with h | h <;> omega
    · exact .inl h
    · exact absurd h hp
  by_cases he : fid ∈ fidoEntries
  · have hpre := fidoEntries_prefix he
    omega
  · simp only [he, false_or] at hs
    omega

/-! One scan. -/

/-- The key that a scan leaves in EF_KEY_DEV, if it has to make one. -/
def Scan.key (sc : Scan) : Option Bytes := if sc.puts efKeyDev then sc.generated else none

/-- The state between scans: no copy of the key in RAM, `key` in EF_KEY_DEV and no certificate
without it. -/
structure Cells (d : Device) (f : Files) (v : Vars) (key : Option Bytes) : Prop where
  ram : v.hasKeydevDec = false
  enc : f efKeyDevEnc = []
  file : f efKeyDev = key.elim [] fun k => 1 :: d.kbaseEncrypt k
  length : ∀ k, key = some k → k.length = 32
  certificate : f efEeDev ≠ [] → key ≠ none

/-- The scan gets as far as the tokens. -/
def Passes (sc : Scan) (f : Files) (key : Option Bytes) : Prop :=
  ∃ k, key = some k ∧ (f efEeDev ≠ [] ∨ sc.certificate k ≠ none)

/-- What a scan can write where it finds nothing. -/
def Scan.Writes (sc : Scan) (d : Device) (key : Option Bytes) (fid : Nat) (data : Bytes) : Prop :=
  (fid = efKeyDev ∧ ∃ k, key = some k ∧ data = 1 :: d.kbaseEncrypt k) ∨
  (fid = efEeDev ∧ ∃ k, key = some k ∧ sc.certificate k = some data) ∨
  (fid = efCounter ∧ data = [0, 0, 0, 0]) ∨ (fid = efAuthToken ∧ data = sc.token) ∨
  (fid = efPAuthToken ∧ data = sc.persistentToken) ∨ (fid = efLargeBlob ∧ data = emptyLargeBlob) ∨
  (fid = efDevState ∧ data = sc.devState)

/-- The two tokens, by their files. -/
def IsToken (fid : Nat) : Prop := fid = efAuthToken ∨ fid = efPAuthToken

def Scan.tokenFor (sc : Scan) (fid : Nat) : Bytes :=
  if fid = efAuthToken then sc.token else sc.persistentToken

def Vars.pointer (v : Vars) (fid : Nat) : Bytes := if fid = efAuthToken then v.paut else v.ppaut

/-- What one scan does. -/
structure Scanned (sc : Scan) (d : Device) (f : Files) (v : Vars) (key : Option Bytes)
    (f' : Files) (v' : Vars) : Prop where
  cells : Cells d f' v' key
  token : ∀ fid, IsToken fid →
    (f' fid = f fid ∨ (f fid = [] ∧ f' fid = sc.tokenFor fid)) ∧
      (f' fid ≠ [] ↔ f fid ≠ [] ∨ (Passes sc f key ∧ sc.puts fid = true))
  pointer : ∀ fid, IsToken fid → v.pointer fid = f fid ∨ Passes sc f key → v'.pointer fid = f' fid
  certificate : f' efEeDev ≠ [] ↔ f efEeDev ≠ [] ∨ (Passes sc f key ∧ sc.puts efEeDev = true)
  writes : ∀ fid, f' fid = f fid ∨ sc.Writes d key fid (f' fid)
  otpScanned : v'.otpScanned = v.otpScanned

section Scanning

variable {sc : Scan} {d : Device} {f : Files} {v : Vars} {key : Option Bytes}

theorem put_apply (puts : Nat → Bool) (x : Nat) (data : Bytes) (f : Files) (fid : Nat) :
    put puts x data f fid = if fid = x ∧ puts x = true then data else f fid := by
  unfold put
  by_cases hp : puts x = true
  · rw [if_pos hp]
    by_cases hx : fid = x
    · subst hx
      simp [hp]
    · simp [hx]
  · rw [if_neg hp]
    simp [hp]

theorem put_other (puts : Nat → Bool) {x : Nat} (data : Bytes) (f : Files) {fid : Nat} (h : fid ≠ x) :
    put puts x data f fid = f fid := by
  rw [put_apply, if_neg fun hx => h hx.1]

theorem fill_apply (puts : Nat → Bool) (x : Nat) (data : Bytes) (f : Files) (fid : Nat) :
    fill puts x data f fid = if fid = x ∧ f x = [] ∧ puts x = true then data else f fid := by
  unfold fill
  by_cases h0 : f x = []
  · rw [if_pos h0, put_apply]
    simp [h0]
  · rw [if_neg h0]
    simp [h0]

theorem loadKey_cells (hd : d.Lawful) (h : Cells d f v key) : loadKey d v f = key := by
  unfold loadKey
  rw [h.ram, if_neg Bool.false_ne_true, h.file]
  cases key with
  | none => rfl
  | some k =>
    have hk : k.length = 32 := h.length k rfl
    have he : (d.kbaseEncrypt k).length = 32 := by rw [hd.kbaseEncrypt_length, hk]
    have hlen : (1 :: d.kbaseEncrypt k).length = 33 := by rw [List.length_cons, he]
    show (if (1 :: d.kbaseEncrypt k) = [] then none
      else keydevPlain d v.sessionPin (1 :: d.kbaseEncrypt k)) = some k
    rw [if_neg (List.cons_ne_nil _ _)]
    unfold keydevPlain
    rw [hlen, if_neg (by decide), if_pos ⟨.inl rfl, rfl⟩, List.drop_one, List.tail_cons,
      List.take_of_length_le (Nat.le_of_eq he), hd.kbase_inverse k hk]

theorem scanFiles_key (sc : Scan) (h : Cells d f v key) :
    ∃ g, Cells d g v (key.or sc.key) ∧ (∀ fid, fid ≠ efKeyDev → g fid = f fid) ∧
      (key ≠ none → g efKeyDev = f efKeyDev) ∧
      ((key.or sc.key = none ∧ scanFiles sc d f v = (g, v)) ∨
        scanFiles sc d f v = scanCertificate sc d g v) := by
  unfold scanFiles
  cases key with
  | some k =>
    have hne : ¬ (f efKeyDev = [] ∧ f efKeyDevEnc = []) := by
      rw [h.file]
      simp
    rw [if_neg hne]
    exact ⟨f, h, fun _ _ => rfl, fun _ => rfl, .inr rfl⟩
  | none =>
    have hnil : f efKeyDev = [] ∧ f efKeyDevEnc = [] := ⟨h.file, h.enc⟩
    rw [if_pos hnil, Option.none_or]
    cases hg : sc.generated with
    | none =>
      have hkey : sc.key = none := by simp [Scan.key, hg]
      rw [hkey]
      exact ⟨f, h, fun _ _ => rfl, fun _ => rfl, .inl ⟨rfl, rfl⟩⟩
    | some k =>
      by_cases hp : sc.puts efKeyDev = true
      · have hkey : sc.key = some k := by simp [Scan.key, hg, hp]
        rw [hkey]
        refine ⟨put sc.puts efKeyDev (1 :: d.kbaseEncrypt k) f, ⟨h.ram, ?_, ?_, ?_, ?_⟩, ?_, ?_, .inr rfl⟩
        · rw [put_other _ _ _ (by decide)]
          exact h.enc
        · rw [put_apply, if_pos ⟨rfl, hp⟩]
          rfl
        · intro k' hk'
          rw [Option.some.injEq] at hk'
          exact hk' ▸ sc.generated_length k hg
        · intro _
          exact Option.some_ne_none k
        · intro fid hf
          exact put_other _ _ _ hf
        · intro hn
          exact absurd rfl hn
      · have hkey : sc.key = none := by simp [Scan.key, hp]
        have hput : put sc.puts efKeyDev (1 :: d.kbaseEncrypt k) f = f := by
          unfold put
          rw [if_neg hp]
        rw [hkey]
        dsimp only
        rw [hput]
        exact ⟨f, h, fun _ _ => rfl, fun _ => rfl, .inr rfl⟩

theorem scanCertificate_stops (hd : d.Lawful) (h : Cells d f v key) (hp : ¬ Passes sc f key) :
    scanCertificate sc d f v = (f, v) := by
  unfold scanCertificate
  have hee : f efEeDev = [] := by
    by_contra hne
    obtain ⟨k, hk⟩ := Option.ne_none_iff_exists'.mp (h.certificate hne)
    exact hp ⟨k, hk, .inl hne⟩
  rw [if_pos hee, loadKey_cells hd h]
  cases key with
  | none => rfl
  | some k =>
    have hc : sc.certificate k = none := by
      by_contra hne
      exact hp ⟨k, rfl, .inr hne⟩
    dsimp only
    rw [hc]

theorem scanCertificate_passes (hd : d.Lawful) (h : Cells d f v key) (hp : Passes sc f key) :
    ∃ g, Cells d g v key ∧ (∀ fid, fid ≠ efEeDev → g fid = f fid) ∧
      (g efEeDev = f efEeDev ∨ ∃ k, key = some k ∧ sc.certificate k = some (g efEeDev)) ∧
      (g efEeDev ≠ [] ↔ f efEeDev ≠ [] ∨ sc.puts efEeDev = true) ∧
      scanCertificate sc d f v = scanRest sc g v := by
  obtain ⟨k, rfl, hp⟩ := hp
  unfold scanCertificate
  by_cases hee : f efEeDev = []
  · obtain ⟨c, hc⟩ := Option.ne_none_iff_exists'.mp (hp.resolve_left fun hn => hn hee)
    have hcne := sc.certificate_ne k c hc
    refine ⟨put sc.puts efEeDev c f, ⟨h.ram, ?_, ?_, h.length, ?_⟩, ?_, ?_, ?_, ?_⟩
    · rw [put_other _ _ _ (by decide)]
      exact h.enc
    · rw [put_other _ _ _ (by decide)]
      exact h.file
    · intro _
      exact Option.some_ne_none k
    · intro fid hf
      exact put_other _ _ _ hf
    · rw [put_apply]
      by_cases hput : sc.puts efEeDev = true
      · rw [if_pos ⟨rfl, hput⟩]
        exact .inr ⟨k, rfl, hc⟩
      · rw [if_neg fun hx => hput hx.2]
        exact .inl rfl
    · rw [put_apply]
      by_cases hput : sc.puts efEeDev = true
      · simp [hput, hcne]
      · simp [hput]
    · rw [if_pos hee, loadKey_cells hd h]
      dsimp only
      rw [hc]
  · refine ⟨f, h, fun _ _ => rfl, .inl rfl, ?_, if_neg hee⟩
    simp [hee]

theorem scanRest_files (sc : Scan) (f : Files) (v : Vars) (fid : Nat) :
    (scanRest sc f v).1 fid =
      if fid = efCounter ∧ f fid = [] ∧ sc.puts fid = true then [0, 0, 0, 0]
      else if fid = efAuthToken ∧ f fid = [] ∧ sc.puts fid = true then sc.token
      else if fid = efPAuthToken ∧ f fid = [] ∧ sc.puts fid = true then sc.persistentToken
      else if fid = efLargeBlob ∧ f fid = [] ∧ sc.puts fid = true then emptyLargeBlob
      else if fid = efDevState ∧ f fid = [] ∧ sc.puts fid = true then sc.devState
      else f fid := by
  -- at each file all fills but its own are idle
  by_cases h : fid = efCounter ∨ fid = efAuthToken ∨ fid = efPAuthToken ∨ fid = efLargeBlob ∨
    fid = efDevState
  · rcases h with rfl | rfl | rfl | rfl | rfl <;>
      simp [scanRest, fill_apply, efCounter, efAuthToken, efPAuthToken, efLargeBlob, efDevState]
  · simp only [not_or] at h
    simp [scanRest, fill_apply, h]

theorem scanRest_vars (sc : Scan) (f : Files) (v : Vars) :
    (scanRest sc f v).2 = { v with
      paut := (scanRest sc f v).1 efAuthToken
      ppaut := (scanRest sc f v).1 efPAuthToken } := by
  simp [scanRest, fill_apply, efCounter, efAuthToken, efPAuthToken, efLargeBlob, efDevState]

theorem scanRest_other (sc : Scan) (f : Files) (v : Vars) {fid : Nat}
    (h : fid ≠ efCounter ∧ fid ≠ efAuthToken ∧ fid ≠ efPAuthToken ∧ fid ≠ efLargeBlob ∧
      fid ≠ efDevState) : (scanRest sc f v).1 fid = f fid := by
  rw [scanRest_files]
  simp [h]

theorem Scan.tokenFor_ne (sc : Scan) (fid : Nat) : sc.tokenFor fid ≠ [] := by
  intro h
  have hlen : (sc.tokenFor fid).length = 32 := by
    unfold Scan.tokenFor
    split_ifs
    · exact sc.token_length
    · exact sc.persistentToken_length
  rw [h] at hlen
  cases hlen

theorem scanRest_token (sc : Scan) (f : Files) (v : Vars) {fid : Nat} (h : IsToken fid) :
    (scanRest sc f v).1 fid =
      if f fid = [] ∧ sc.puts fid = true then sc.tokenFor fid else f fid := by
  rw [scanRest_files]
  rcases h with rfl | rfl <;>
    simp [Scan.tokenFor, efCounter, efAuthToken, efPAuthToken, efLargeBlob, efDevState]

theorem scanRest_pointer (sc : Scan) (f : Files) (v : Vars) {fid : Nat} (h : IsToken fid) :
    (scanRest sc f v).2.pointer fid = (scanRest sc f v).1 fid := by
  rw [scanRest_vars]
  rcases h with rfl | rfl
  · exact if_pos rfl
  · exact if_neg (by decide)

theorem scanRest_scanned (sc : Scan) (h : Cells d f v key) :
    let r := scanRest sc f v
    Cells d r.1 r.2 key ∧ r.1 efEeDev = f efEeDev ∧ r.2.otpScanned = v.otpScanned ∧
      ∀ fid, r.1 fid = f fid ∨ sc.Writes d key fid (r.1 fid) := by
  have hkd : (scanRest sc f v).1 efKeyDev = f efKeyDev := scanRest_other sc f v (by decide)
  have hke : (scanRest sc f v).1 efKeyDevEnc = f efKeyDevEnc := scanRest_other sc f v (by decide)
  have hee : (scanRest sc f v).1 efEeDev = f efEeDev := scanRest_other sc f v (by decide)
  refine ⟨⟨?_, hke.trans h.enc, hkd.trans h.file, h.length, ?_⟩, hee, ?_, ?_⟩
  · rw [scanRest_vars]
    exact h.ram
  · rw [hee]
    exact h.certificate
  · rw [scanRest_vars]
  · intro fid
    rw [scanRest_files]
    split_ifs with h1 h2 h3 h4 h5
    · exact .inr (.inr (.inr (.inl ⟨h1.1, rfl⟩)))
    · exact .inr (.inr (.inr (.inr (.inl ⟨h2.1, rfl⟩))))
    · exact .inr (.inr (.inr (.inr (.inr (.inl ⟨h3.1, rfl⟩)))))
    · exact .inr (.inr (.inr (.inr (.inr (.inr (.inl ⟨h4.1, rfl⟩))))))
    · exact .inr (.inr (.inr (.inr (.inr (.inr (.inr ⟨h5.1, rfl⟩))))))
    · exact .inl rfl

theorem scanFiles_scanned (sc : Scan) (hd : d.Lawful) (h : Cells d f v key) :
    Scanned sc d f v (key.or sc.key) (scanFiles sc d f v).1 (scanFiles sc d f v).2 := by
  obtain ⟨g, hg, hother, hold, hrun⟩ := scanFiles_key sc h
  -- the key is the only file that differs up to the certificate
  have hgee : g efEeDev = f efEeDev := hother efEeDev (by decide)
  have hgtoken : ∀ fid, IsToken fid → g fid = f fid := by
    intro fid ht
    apply hother
    rcases ht with rfl | rfl <;> decide
  have hgwrites : ∀ fid, g fid = f fid ∨ sc.Writes d (key.or sc.key) fid (g fid) := by
    intro fid
    by_cases hk : fid = efKeyDev
    · subst hk
      cases key with
      | some k => exact .inl (hold (Option.some_ne_none k))
      | none =>
        have hfile := hg.file
        rw [Option.none_or] at hfile ⊢
        cases hsk : sc.key with
        | none =>
          rw [hsk] at hfile
          exact .inl (hfile.trans h.file.symm)
        | some k =>
          rw [hsk] at hfile
          exact .inr (.inl ⟨rfl, k, rfl, hfile⟩)
    · exact .inl (hother fid hk)
  have hpass : Passes sc g (key.or sc.key) ↔ Passes sc f (key.or sc.key) := by
    unfold Passes
    rw [hgee]
  by_cases hp : Passes sc f (key.or sc.key)
  · have hcert : scanFiles sc d f v = scanCertificate sc d g v := by
      rcases hrun with ⟨hn, -⟩ | hrun
      · obtain ⟨k, hk, -⟩ := hp
        rw [hn] at hk
        cases hk
      · exact hrun
    obtain ⟨c, hc, hcother, hcee, hciff, hcrun⟩ := scanCertificate_passes hd hg (hpass.mpr hp)
    rw [hcert, hcrun]
    obtain ⟨hcells, hree, hscanned, hwrites⟩ := scanRest_scanned sc hc
    have hctoken : ∀ fid, IsToken fid → c fid = f fid := by
      intro fid ht
      rw [← hgtoken fid ht]
      apply hcother
      rcases ht with rfl | rfl <;> decide
    refine ⟨hcells, ?_, ?_, ?_, ?_, hscanned⟩
    · intro fid ht
      rw [scanRest_token sc c v ht, hctoken fid ht]
      by_cases h0 : f fid = []
      · by_cases hput : sc.puts fid = true
        · simp [h0, hput, hp, sc.tokenFor_ne fid]
        · simp [h0, hput]
      · simp [h0]
    · intro fid ht _
      exact scanRest_pointer sc c v ht
    · rw [hree, hciff, hgee, and_iff_right hp]
    · intro fid
      rcases hwrites fid with hw | hw
      · rw [hw]
        by_cases he : fid = efEeDev
        · subst he
          rcases hcee with hcee | ⟨k, hk, hcert⟩
          · rw [hcee]
            exact hgwrites efEeDev
          · exact .inr (.inr (.inl ⟨rfl, k, hk, hcert⟩))
        · rw [hcother fid he]
          exact hgwrites fid
      · exact .inr hw
  · have hstop : scanFiles sc d f v = (g, v) := by
      rcases hrun with ⟨-, hrun⟩ | hrun
      · exact hrun
      · rw [hrun]
        exact scanCertificate_stops hd hg fun hx => hp (hpass.mp hx)
    rw [hstop]
    dsimp only
    refine ⟨hg, ?_, ?_, ?_, hgwrites, rfl⟩
    · intro fid ht
      have hsame : f fid ≠ [] ↔ f fid ≠ [] ∨ (Passes sc f (key.or sc.key) ∧ sc.puts fid = true) :=
        (or_iff_left fun hx => hp hx.1).symm
      rw [hgtoken fid ht]
      exact ⟨.inl rfl, hsame⟩
    · intro fid ht hv
      rw [hgtoken fid ht]
      exact hv.resolve_right hp
    · rw [hgee]
      exact (or_iff_left fun hx => hp hx.1).symm

end Scanning

/-! The two scans of a reset. -/

/-- A key that was drawn in this reset. -/
def Env.Drawn (env : Env) (k : Bytes) : Prop :=
  env.scan.generated = some k ∨ env.again.generated = some k

/-- The first scan gets a certificate. -/
def Env.Certified (env : Env) : Prop :=
  ∃ k, env.scan.key = some k ∧ env.scan.certificate k ≠ none

/-- One of the scans gets as far as this token and writes it; there is a second one only when the
slots of the OTP application are not scanned. -/
def TokenWritten (env : Env) (v : Vars) (fid : Nat) : Prop :=
  (env.Certified ∧ env.scan.puts fid = true) ∨
    (v.otpScanned = false ∧
      (∃ k, env.scan.key.or env.again.key = some k ∧
        ((env.Certified ∧ env.scan.puts efEeDev = true) ∨ env.again.certificate k ≠ none)) ∧
      env.again.puts fid = true)

theorem Scan.Writes.mono {sc : Scan} {d : Device} {key key' : Option Bytes} {fid : Nat} {data : Bytes}
    (h : sc.Writes d key fid data) (hk : ∀ k, key = some k → key' = some k) :
    sc.Writes d key' fid data := by
  rcases h with ⟨hf, k, hkey, hdata⟩ | ⟨hf, k, hkey, hc⟩ | h
  · exact .inl ⟨hf, k, hk k hkey, hdata⟩
  · exact .inr (.inl ⟨hf, k, hk k hkey, hc⟩)
  · exact .inr (.inr h)

theorem Scan.key_generated {sc : Scan} {k : Bytes} (h : sc.key = some k) : sc.generated = some k := by
  unfold Scan.key at h
  split_ifs at h
  exact h

/-- What init_fido leaves, before the OTP application turns to its slots. -/
structure Started (env : Env) (d : Device) (f : Files) (v : Vars) (g : Files) (v' : Vars) : Prop where
  key : ∃ key, Cells d g v' key ∧ (∀ k, key = some k → env.Drawn k) ∧
    ∀ fid, g fid = f fid ∨ env.scan.Writes d key fid (g fid) ∨ env.again.Writes d key fid (g fid)
  token : ∀ fid, IsToken fid → (g fid ≠ [] ↔ TokenWritten env v fid)
  fresh : ∀ fid, IsToken fid → g fid ≠ [] →
    (g fid = env.scan.tokenFor fid ∨ g fid = env.again.tokenFor fid) ∧ v'.pointer fid = g fid

section Starting

variable {env : Env} {d : Device} {f : Files} {v : Vars}

theorem passes_iff_certified (hee : f efEeDev = []) :
    Passes env.scan f env.scan.key ↔ env.Certified := by
  unfold Passes Env.Certified
  simp [hee]

theorem started_once (env : Env) (hd : d.Lawful) (h : Cells d f v none) (hee : f efEeDev = [])
    (htoken : ∀ fid, IsToken fid → f fid = []) (hs : v.otpScanned = true) :
    Started env d f v (scanFiles env.scan d f v).1 (scanFiles env.scan d f v).2 := by
  have h1 := scanFiles_scanned env.scan hd h
  rw [Option.none_or] at h1
  refine ⟨⟨_, h1.cells, fun k hk => .inl (Scan.key_generated hk), fun fid => ?_⟩, ?_, ?_⟩
  · rcases h1.writes fid with hw | hw
    · exact .inl hw
    · exact .inr (.inl hw)
  · intro fid ht
    have hfilled := (h1.token fid ht).2
    rw [hfilled, passes_iff_certified hee, htoken fid ht]
    simp [TokenWritten, hs]
  · intro fid ht hne
    obtain ⟨heq, hfilled⟩ := h1.token fid ht
    have h0 := htoken fid ht
    have hp : Passes env.scan f env.scan.key := ((hfilled.mp hne).resolve_left fun hx => hx h0).1
    refine ⟨.inl ?_, h1.pointer fid ht (.inr hp)⟩
    rcases heq with heq | heq
    · exact absurd (heq.trans h0) hne
    · exact heq.2

/-- The slots were not scanned: init_otp scans the files again. -/
theorem started_twice (env : Env) (hd : d.Lawful) (h : Cells d f v none) (hee : f efEeDev = [])
    (htoken : ∀ fid, IsToken fid → f fid = []) (hs : v.otpScanned = false) :
    let r := scanFiles env.scan d f v
    Started env d f v (scanFiles env.again d r.1 r.2).1 (scanFiles env.again d r.1 r.2).2 := by
  intro r
  have h1 := scanFiles_scanned env.scan hd h
  rw [Option.none_or] at h1
  have h2 := scanFiles_scanned env.again hd h1.cells
  have hkeys : ∀ k, env.scan.key = some k → env.scan.key.or env.again.key = some k := by
    intro k hk
    rw [hk]
    rfl
  have hpass : Passes env.again r.1 (env.scan.key.or env.again.key) ↔
      ∃ k, env.scan.key.or env.again.key = some k ∧
        ((env.Certified ∧ env.scan.puts efEeDev = true) ∨ env.again.certificate k ≠ none) := by
    unfold Passes
    rw [h1.certificate, passes_iff_certified hee]
    simp [hee]
  have hfirst : ∀ fid, IsToken fid → (r.1 fid ≠ [] ↔ env.Certified ∧ env.scan.puts fid = true) := by
    intro fid ht
    rw [(h1.token fid ht).2, passes_iff_certified hee, htoken fid ht]
    simp
  refine ⟨⟨_, h2.cells, ?_, fun fid => ?_⟩, ?_, ?_⟩
  · intro k hk
    rcases Option.or_eq_some_iff.mp hk with hk | ⟨-, hk⟩
    · exact .inl (Scan.key_generated hk)
    · exact .inr (Scan.key_generated hk)
  · rcases h2.writes fid with hw | hw
    · rw [hw]
      rcases h1.writes fid with hw1 | hw1
      · exact .inl hw1
      · exact .inr (.inl (hw1.mono hkeys))
    · exact .inr (.inr hw)
  · intro fid ht
    rw [(h2.token fid ht).2, hfirst fid ht, hpass]
    simp [TokenWritten, hs]
  · intro fid ht hne
    obtain ⟨heq1, hfilled1⟩ := h1.token fid ht
    obtain ⟨heq2, hfilled2⟩ := h2.token fid ht
    have h0 := htoken fid ht
    by_cases hr : r.1 fid = []
    · -- the second scan has written it
      have hp := ((hfilled2.mp hne).resolve_left fun hx => hx hr).1
      refine ⟨.inr ?_, h2.pointer fid ht (.inr hp)⟩
      rcases heq2 with heq2 | heq2
      · exact absurd (heq2.trans hr) hne
      · exact heq2.2
    · have hp := ((hfilled1.mp hr).resolve_left fun hx => hx h0).1
      have hptr := h1.pointer fid ht (.inr hp)
      refine ⟨.inl ?_, h2.pointer fid ht (.inl hptr)⟩
      have heq : r.1 fid = env.scan.tokenFor fid := by
        rcases heq1 with heq1 | heq1
        · exact absurd (heq1.trans h0) hr
        · exact heq1.2
      rcases heq2 with heq2 | heq2
      · exact heq2.trans heq
      · exact absurd heq2.1 hr

/-- init_fido on cleared files. -/
theorem initFido_started (env : Env) (otp : OtpInit) (hd : d.Lawful) (h : Cells d f v none)
    (hee : f efEeDev = []) (htoken : ∀ fid, IsToken fid → f fid = []) :
    ∃ g v', Started env d f v g v' ∧
      initFido env d otp f v =
        (if v.otpScanned then g else otp.run g, { v' with needsPowerCycle := false }) := by
  have h' : Cells d f { v with keydevUnlocked := false } none :=
    ⟨h.ram, h.enc, h.file, h.length, h.certificate⟩
  have hscanned := (scanFiles_scanned env.scan hd h').otpScanned
  cases hs : v.otpScanned with
  | true =>
    have hst := started_once env hd h' hee htoken hs
    refine ⟨_, _, ⟨hst.key, hst.token, hst.fresh⟩, ?_⟩
    unfold initFido
    dsimp only
    rw [if_pos (hscanned.trans hs)]
    rfl
  | false =>
    have hst := started_twice env hd h' hee htoken hs
    refine ⟨_, _, ⟨hst.key, hst.token, hst.fresh⟩, ?_⟩
    unfold initFido
    dsimp only
    rw [if_neg (by rw [hscanned, hs]; exact Bool.false_ne_true)]
    rfl

end Starting

/-! The reset. -/

/-- Credential ids and key handles: a device key accepts what was made under it, and nothing that
was made under another. -/
structure Ids where
  made : Bytes → Bytes → Prop
  accepts : Bytes → Bytes → Prop
  made_exists : ∀ k, ∃ id, made k id
  accepts_made : ∀ k id, made k id → accepts k id
  separate : ∀ k k' id, made k id → accepts k' id → k' = k

/-- Written by init_fido, or an option of the build. -/
def Regenerated (env : Env) (d : Device) (fid : Nat) (data : Bytes) : Prop :=
  (∃ key, (∀ k, key = some k → env.Drawn k) ∧
    (env.scan.Writes d key fid data ∨ env.again.Writes d key fid data)) ∨
  (fid = efOpts ∧ data = [optMcuvNotRequired]) ∨ (fid = efPinComplexityPolicy ∧ data = [0, 0])

/-- Nothing of the application from before the reset is left, and everything of the others. -/
structure Erased (env : Env) (d : Device) (ids : Ids) (s : Storage) (f' : Files) (v' : Vars) :
    Prop where
  -- whatever was not made under a key of this reset
  dead : ∀ k id, ids.made k id → ¬ env.Drawn k → ∀ k', loadKey d v' f' = some k' → ¬ ids.accepts k' id
  gone : ∀ fid, FidoFile fid → f' fid = [] ∨ Regenerated env d fid (f' fid)
  retries : f' efPin = [] ∧ v'.needsPowerCycle = false
  tokens : ∀ fid, IsToken fid →
    (f' fid = env.scan.tokenFor fid ∨ f' fid = env.again.tokenFor fid) ∧ v'.pointer fid = f' fid
  kept : ∀ fid, Foreign fid →
    f' fid = s.files fid ∧ metaFind fid (f' efMeta) = metaFind fid (s.files efMeta)

/-- There is no copy of the key in RAM, no legacy record outside the range, no metadata of the other
applications, the OTP application does not touch its slots, and the tokens can be written. -/
structure Clean (env : Env) (otp : OtpInit) (s : Storage) (v : Vars) : Prop where
  ram : v.hasKeydevDec = false
  states : ∀ fid, LegacyState fid → s.files fid = []
  metadata : ∀ fid, Foreign fid → metaFind fid (s.files efMeta) = none
  slots : v.otpScanned = false → ∀ fid, OtpFile fid → otp.run s.files fid = s.files fid
  tokens : ∀ fid, IsToken fid → TokenWritten env v fid

section Erasing

variable {env : Env} {d : Device} {otp : OtpInit} {s : Storage} {v v' : Vars} {f' : Files}

theorem scanFiles_vars (sc : Scan) (f : Files) (v : Vars) :
    ∃ a b, (scanFiles sc d f v).2 = { v with paut := a, ppaut := b } := by
  have hrest : ∀ g, ∃ a b, (scanRest sc g v).2 = { v with paut := a, ppaut := b } := by
    intro g
    exact ⟨_, _, scanRest_vars sc g v⟩
  have hcert : ∀ g, ∃ a b, (scanCertificate sc d g v).2 = { v with paut := a, ppaut := b } := by
    intro g
    unfold scanCertificate
    by_cases hee : g efEeDev = []
    · rw [if_pos hee]
      split
      · exact ⟨v.paut, v.ppaut, rfl⟩
      · split
        · exact ⟨v.paut, v.ppaut, rfl⟩
        · exact hrest _
    · rw [if_neg hee]
      exact hrest g
  unfold scanFiles
  split_ifs
  · split
    · exact ⟨v.paut, v.ppaut, rfl⟩
    · exact hcert _
  · exact hcert f

/-- Nothing in init_fido looks at the copy of the key. -/
theorem initFido_ram (env : Env) (d : Device) (otp : OtpInit) (f : Files) (v : Vars) :
    (initFido env d otp f v).2.hasKeydevDec = v.hasKeydevDec ∧
      (initFido env d otp f v).2.keydevDec = v.keydevDec := by
  obtain ⟨a, b, h1⟩ := scanFiles_vars (d := d) env.scan f { v with keydevUnlocked := false }
  unfold initFido
  dsimp only
  split_ifs
  · rw [h1]
    exact ⟨rfl, rfl⟩
  · obtain ⟨a', b', h2⟩ := scanFiles_vars (d := d) env.again
      (scanFiles env.scan d f { v with keydevUnlocked := false }).1
      (scanFiles env.scan d f { v with keydevUnlocked := false }).2
    rw [h2, h1]
    exact ⟨rfl, rfl⟩

theorem defaults_other (f : Files) {fid : Nat} (h : fid ≠ efOpts ∧ fid ≠ efPinComplexityPolicy) :
    defaults env f fid = f fid := by
  unfold defaults
  split_ifs
  · rw [put_other _ _ _ h.2, put_other _ _ _ h.1]
  · rw [put_other _ _ _ h.2]
  · rw [put_other _ _ _ h.1]
  · rfl

/-- The variables as the reset finds them behind the clearing. -/
def zeroed (v : Vars) : Vars :=
  { v with
    paut := List.replicate v.paut.length 0
    ppaut := List.replicate v.ppaut.length 0 }

theorem cborReset_ok (h : cborReset env d otp s v = .ok (f', v')) :
    ∃ f, resetStorage env s = some f ∧ f' = defaults env (initFido env d otp f (zeroed v)).1 ∧
      v' = (initFido env d otp f (zeroed v)).2 := by
  unfold cborReset at h
  split_ifs at h
  split at h
  · cases h
  · next f hf =>
    have hr := Prod.mk.inj (Except.ok.inj h)
    exact ⟨f, hf, hr.1.symm, hr.2.symm⟩

theorem ram_not_dead (ids : Ids) (hram : v.hasKeydevDec = true) (hnew : ¬ env.Drawn v.keydevDec)
    (h : cborReset env d otp s v = .ok (f', v')) : ¬ Erased env d ids s f' v' := by
  intro he
  obtain ⟨f, -, -, rfl⟩ := cborReset_ok h
  obtain ⟨hhas, hkey⟩ := initFido_ram env d otp f (zeroed v)
  obtain ⟨id, hid⟩ := ids.made_exists v.keydevDec
  apply he.dead v.keydevDec id hid hnew v.keydevDec
  · unfold loadKey
    rw [if_pos (hhas.trans hram), hkey]
    rfl
  · exact ids.accepts_made v.keydevDec id hid

/-- The files that init_fido and the options of a build can write. -/
def regeneratedFiles : List Nat :=
  [efKeyDev, efEeDev, efCounter, efAuthToken, efPAuthToken, efLargeBlob, efDevState, efOpts,
    efPinComplexityPolicy]

theorem Scan.Writes.mem {sc : Scan} {key : Option Bytes} {fid : Nat} {data : Bytes}
    (h : sc.Writes d key fid data) : fid ∈ regeneratedFiles := by
  simp only [regeneratedFiles, List.mem_cons]
  rcases h with h | h | h | h | h | h | h <;> simp only [h.1, true_or, or_true]

theorem Regenerated.mem {fid : Nat} {data : Bytes} (h : Regenerated env d fid data) :
    fid ∈ regeneratedFiles := by
  rcases h with ⟨key, -, h | h⟩ | h | h
  · exact h.mem
  · exact h.mem
  · rw [h.1]
    decide
  · rw [h.1]
    decide

theorem regeneratedFiles_entries {fid : Nat} (h : fid ∈ regeneratedFiles) :
    fid ∈ fidoEntries ∧ fid ≠ efPhy := by
  have hall : ∀ x ∈ regeneratedFiles, x ∈ fidoEntries ∧ x ≠ efPhy := by decide
  exact hall fid h

theorem shouldClear_entry {fid : Nat} (h : fid ∈ fidoEntries) : shouldClear fid = true := by
  simp only [shouldClear, Bool.or_eq_true, List.contains_iff_mem]
  exact .inl (.inl (.inl (.inl h)))

theorem Foreign.not_regenerated {fid : Nat} (h : Foreign fid) : fid ∉ regeneratedFiles := by
  intro hm
  obtain ⟨he, hp⟩ := regeneratedFiles_entries hm
  exact h.not_cleared ⟨shouldClear_entry he, hp⟩

theorem LegacyState.not_cleared {fid : Nat} (h : LegacyState fid) : shouldClear fid = false := by
  have h' : fid / 256 = 0xdd := h
  have he : fid ∉ fidoEntries := by
    intro hm
    have hall : ∀ x ∈ fidoEntries, x / 256 ≠ 0xdd := by decide
    exact hall fid hm h'
  simp [shouldClear, he, h']

theorem LegacyState.not_regenerated {fid : Nat} (h : LegacyState fid) : fid ∉ regeneratedFiles := by
  intro hm
  have hc := shouldClear_entry (regeneratedFiles_entries hm).1
  rw [h.not_cleared] at hc
  cases hc

theorem OtpFile.not_cleared {fid : Nat} (h : OtpFile fid) : shouldClear fid = false := by
  have hf : Foreign fid := .inr (.inr (.inl h))
  have hp : fid ≠ efPhy := by
    have hphy : efPhy = 0xe020 := rfl
    rcases h with h | h <;> omega
  by_contra hc
  exact hf.not_cleared ⟨Bool.eq_true_of_not_eq_false hc, hp⟩

/-- A reset without a copy of the key in RAM: `f` is what the clearing leaves, `g` what init_fido
makes of it. -/
structure Outcome (env : Env) (d : Device) (otp : OtpInit) (s : Storage) (v : Vars) (f' : Files)
    (v' : Vars) (f g : Files) (w : Vars) : Prop where
  cleared : ∀ fid, f fid = if shouldClear fid ∧ fid ≠ efPhy then [] else s.files fid
  started : Started env d f (zeroed v) g w
  files : f' = defaults env (if v.otpScanned then g else otp.run g)
  vars : v' = { w with needsPowerCycle := false }

theorem reset_outcome (hd : d.Lawful) (hram : v.hasKeydevDec = false)
    (h : cborReset env d otp s v = .ok (f', v')) : ∃ f g w, Outcome env d otp s v f' v' f g w := by
  obtain ⟨f, hf, hf', hv'⟩ := cborReset_ok h
  have hfiles := resetStorage_files hf
  have hnil : ∀ fid, shouldClear fid = true → fid ≠ efPhy → f fid = [] := by
    intro fid hc hp
    rw [hfiles fid, if_pos ⟨hc, hp⟩]
  have hcells : Cells d f (zeroed v) none := by
    refine ⟨hram, hnil _ (by decide) (by decide), hnil _ (by decide) (by decide), ?_, ?_⟩
    · intro k hk
      cases hk
    · intro hne
      exact absurd (hnil _ (by decide) (by decide)) hne
  have htoken : ∀ fid, IsToken fid → f fid = [] := by
    intro fid ht
    rcases ht with rfl | rfl
    · exact hnil _ (by decide) (by decide)
    · exact hnil _ (by decide) (by decide)
  obtain ⟨g, w, hst, hinit⟩ := initFido_started env otp hd hcells
    (hnil _ (by decide) (by decide)) htoken
  rw [hinit] at hf' hv'
  exact ⟨f, g, w, hfiles, hst, hf', hv'⟩

section Outcomes

variable {f g : Files} {w : Vars}

theorem Outcome.same (o : Outcome env d otp s v f' v' f g w) {fid : Nat}
    (ho : fid ≠ efOpts ∧ fid ≠ efPinComplexityPolicy) (hotp : ¬ OtpFile fid) : f' fid = g fid := by
  rw [o.files, defaults_other _ ho]
  split_ifs
  · rfl
  · exact otp.frame g fid hotp

theorem Outcome.unwritten (o : Outcome env d otp s v f' v' f g w) {fid : Nat}
    (h : fid ∉ regeneratedFiles) : g fid = f fid := by
  obtain ⟨key, -, -, hw⟩ := o.started.key
  rcases hw fid with hw | hw | hw
  · exact hw
  · exact absurd hw.mem h
  · exact absurd hw.mem h

theorem not_options {fid : Nat} (h : fid ∉ regeneratedFiles) :
    fid ≠ efOpts ∧ fid ≠ efPinComplexityPolicy := by
  constructor
  · rintro rfl
    exact h (by decide)
  · rintro rfl
    exact h (by decide)

theorem not_otpFile {fid : Nat} (h : shouldClear fid = true) : ¬ OtpFile fid := by
  intro ho
  rw [ho.not_cleared] at h
  cases h

theorem Outcome.foreign (o : Outcome env d otp s v f' v' f g w) {fid : Nat} (h : Foreign fid) :
    g fid = s.files fid := by
  rw [o.unwritten h.not_regenerated, o.cleared, if_neg h.not_cleared]

theorem Outcome.unscanned (o : Outcome env d otp s v f' v' f g w) {fid : Nat} (h : OtpFile fid)
    (hs : v.otpScanned = false) : f' fid = otp.run s.files fid := by
  have hf : Foreign fid := .inr (.inr (.inl h))
  rw [o.files, defaults_other _ (not_options hf.not_regenerated), hs, if_neg Bool.false_ne_true]
  apply otp.own g s.files _ fid h
  intro x hx
  exact o.foreign (.inr (.inr (.inl hx)))

theorem Outcome.foreign_kept (o : Outcome env d otp s v f' v' f g w) {fid : Nat} (h : Foreign fid)
    (hs : OtpFile fid → v.otpScanned = true) : f' fid = s.files fid := by
  rw [← o.foreign h]
  by_cases ho : OtpFile fid
  · rw [o.files, defaults_other _ (not_options h.not_regenerated), if_pos (hs ho)]
  · exact o.same (not_options h.not_regenerated) ho

theorem Outcome.no_metadata (o : Outcome env d otp s v f' v' f g w) : f' efMeta = [] := by
  rw [o.same (by decide) (not_otpFile (by decide)), o.unwritten (by decide), o.cleared,
    if_pos ⟨by decide, by decide⟩]

theorem Outcome.legacyState (o : Outcome env d otp s v f' v' f g w) {fid : Nat} (h : LegacyState fid) :
    f' fid = s.files fid := by
  have ho : ¬ OtpFile fid := by
    intro ho
    have h' : fid / 256 = 0xdd := h
    rcases ho with ho | ho <;> omega
  rw [o.same (not_options h.not_regenerated) ho, o.unwritten h.not_regenerated, o.cleared,
    h.not_cleared]
  exact if_neg fun hx => Bool.false_ne_true hx.1

theorem Outcome.token (o : Outcome env d otp s v f' v' f g w) {fid : Nat} (h : IsToken fid) :
    f' fid = g fid ∧ v'.pointer fid = w.pointer fid := by
  constructor
  · rcases h with rfl | rfl
    · exact o.same (by decide) (not_otpFile (by decide))
    · exact o.same (by decide) (not_otpFile (by decide))
  · rw [o.vars]
    rfl

theorem Outcome.key (o : Outcome env d otp s v f' v' f g w) (hd : d.Lawful) {k : Bytes}
    (h : loadKey d v' f' = some k) : env.Drawn k := by
  obtain ⟨key, hc, hdrawn, -⟩ := o.started.key
  have hsame : ∀ fid, fid = efKeyDev ∨ fid = efKeyDevEnc ∨ fid = efEeDev → f' fid = g fid := by
    intro fid hfid
    rcases hfid with rfl | rfl | rfl
    · exact o.same (by decide) (not_otpFile (by decide))
    · exact o.same (by decide) (not_otpFile (by decide))
    · exact o.same (by decide) (not_otpFile (by decide))
  have hc' : Cells d f' v' key := by
    refine ⟨?_, ?_, ?_, hc.length, ?_⟩
    · rw [o.vars]
      exact hc.ram
    · rw [hsame _ (.inr (.inl rfl)), hc.enc]
    · rw [hsame _ (.inl rfl), hc.file]
    · rw [hsame _ (.inr (.inr rfl))]
      exact hc.certificate
  apply hdrawn
  rw [← loadKey_cells hd hc', h]

theorem defaults_opts (env : Env) (f : Files) :
    defaults env f efOpts = f efOpts ∨
      defaults env f efOpts = [(f efOpts).headD 0 ||| optMcuvNotRequired] := by
  have hp : efOpts ≠ efPinComplexityPolicy := by decide
  unfold defaults
  split_ifs
  · rw [put_other _ _ _ hp, put_apply]
    split_ifs
    · exact .inr rfl
    · exact .inl rfl
  · exact .inl (put_other _ _ _ hp)
  · rw [put_apply]
    split_ifs
    · exact .inr rfl
    · exact .inl rfl
  · exact .inl rfl

theorem defaults_policy (env : Env) (f : Files) :
    defaults env f efPinComplexityPolicy = f efPinComplexityPolicy ∨
      defaults env f efPinComplexityPolicy = [0, 0] := by
  have hp : efPinComplexityPolicy ≠ efOpts := by decide
  unfold defaults
  split_ifs
  · rw [put_apply]
    split_ifs
    · exact .inr rfl
    · exact .inl (put_other _ _ _ hp)
  · rw [put_apply]
    split_ifs
    · exact .inr rfl
    · exact .inl rfl
  · exact .inl (put_other _ _ _ hp)
  · exact .inl rfl

theorem Outcome.options (o : Outcome env d otp s v f' v' f g w) {fid : Nat}
    (h : fid = efOpts ∨ fid = efPinComplexityPolicy) :
    (if v.otpScanned then g else otp.run g) fid = [] := by
  have hclear : shouldClear fid = true ∧ fid ≠ efPhy := by
    rcases h with rfl | rfl <;> decide
  have hg : g fid = [] := by
    obtain ⟨key, -, -, hw⟩ := o.started.key
    have hsc : ∀ (sc : Scan) (data : Bytes), ¬ sc.Writes d key fid data := by
      rintro sc data hx
      have hne : fid ≠ efKeyDev ∧ fid ≠ efEeDev ∧ fid ≠ efCounter ∧ fid ≠ efAuthToken ∧
          fid ≠ efPAuthToken ∧ fid ≠ efLargeBlob ∧ fid ≠ efDevState := by
        rcases h with rfl | rfl <;> decide
      rcases hx with hx | hx | hx | hx | hx | hx | hx
      · exact hne.1 hx.1
      · exact hne.2.1 hx.1
      · exact hne.2.2.1 hx.1
      · exact hne.2.2.2.1 hx.1
      · exact hne.2.2.2.2.1 hx.1
      · exact hne.2.2.2.2.2.1 hx.1
      · exact hne.2.2.2.2.2.2 hx.1
    rcases hw fid with hw | hw | hw
    · rw [hw, o.cleared, if_pos hclear]
    · exact absurd hw (hsc _ _)
    · exact absurd hw (hsc _ _)
  split_ifs
  · exact hg
  · rw [otp.frame g fid (not_otpFile hclear.1), hg]

theorem Outcome.cleared_gone (o : Outcome env d otp s v f' v' f g w) {fid : Nat}
    (hc : shouldClear fid = true) (hp : fid ≠ efPhy) :
    f' fid = [] ∨ Regenerated env d fid (f' fid) := by
  by_cases h1 : fid = efOpts
  · subst h1
    have hg := o.options (.inl rfl)
    rw [o.files]
    rcases defaults_opts env (if v.otpScanned then g else otp.run g) with h | h
    · exact .inl (h.trans hg)
    · rw [h, hg]
      exact .inr (.inr (.inl ⟨rfl, rfl⟩))
  by_cases h2 : fid = efPinComplexityPolicy
  · subst h2
    rw [o.files]
    rcases defaults_policy env (if v.otpScanned then g else otp.run g) with h | h
    · exact .inl (h.trans (o.options (.inr rfl)))
    · rw [h]
      exact .inr (.inr (.inr ⟨rfl, rfl⟩))
  rw [o.same ⟨h1, h2⟩ (not_otpFile hc)]
  obtain ⟨key, -, hdrawn, hw⟩ := o.started.key
  rcases hw fid with hw | hw
  · left
    rw [hw, o.cleared, if_pos ⟨hc, hp⟩]
  · exact .inr (.inl ⟨key, hdrawn, hw⟩)

end Outcomes

/-- authenticatorReset erases the state of the application, and that only, exactly when its state is
clean. The key in RAM is taken to be another than the one drawn. -/
theorem reset_erases (env : Env) (d : Device) (otp : OtpInit) (ids : Ids) (s : Storage) (v : Vars)
    (f' : Files) (v' : Vars) (hd : d.Lawful)
    (hnew : v.hasKeydevDec = true → ¬ env.Drawn v.keydevDec)
    (h : cborReset env d otp s v = .ok (f', v')) :
    Erased env d ids s f' v' ↔ Clean env otp s v := by
  constructor
  · intro he
    have hram : v.hasKeydevDec = false := by
      by_contra hr
      have hr' : v.hasKeydevDec = true := Bool.eq_true_of_not_eq_false hr
      exact ram_not_dead ids hr' (hnew hr') h he
    obtain ⟨f, g, w, o⟩ := reset_outcome hd hram h
    refine ⟨hram, ?_, ?_, ?_, ?_⟩
    · intro fid hl
      rw [← o.legacyState hl]
      rcases he.gone fid hl.fido with hg | hg
      · exact hg
      · exact absurd hg.mem hl.not_regenerated
    · intro fid hf
      rw [← (he.kept fid hf).2, o.no_metadata]
      exact metaFind_nil fid
    · intro hs fid ho
      rw [← o.unscanned ho hs]
      exact (he.kept fid (.inr (.inr (.inl ho)))).1
    · intro fid ht
      apply (o.started.token fid ht).mp
      rw [← (o.token ht).1]
      rcases (he.tokens fid ht).1 with heq | heq
      · rw [heq]
        exact env.scan.tokenFor_ne fid
      · rw [heq]
        exact env.again.tokenFor_ne fid
  · intro hc
    obtain ⟨f, g, w, o⟩ := reset_outcome hd hc.ram h
    refine ⟨?_, ?_, ?_, ?_, ?_⟩
    · intro k id hmade hold k' hload hacc
      have heq := ids.separate k k' id hmade hacc
      exact hold (heq ▸ o.key hd hload)
    · intro fid hfid
      rcases hfid.cleared with hs | hs
      · exact o.cleared_gone hs hfid.1
      · left
        rw [o.legacyState hs, hc.states fid hs]
    · constructor
      · have hpin : efPin ∉ regeneratedFiles := by decide
        rw [o.same (by decide) (not_otpFile (by decide)), o.unwritten hpin, o.cleared,
          if_pos ⟨by decide, by decide⟩]
      · rw [o.vars]
    · intro fid ht
      have hne := (o.started.token fid ht).mpr (hc.tokens fid ht)
      rw [(o.token ht).1, (o.token ht).2]
      exact o.started.fresh fid ht hne
    · intro fid hf
      constructor
      · by_cases ho : OtpFile fid ∧ v.otpScanned = false
        · rw [o.unscanned ho.1 ho.2, hc.slots ho.2 fid ho.1]
        · apply o.foreign_kept hf
          intro hotp
          by_contra hs
          exact ho ⟨hotp, Bool.eq_false_of_not_eq_true hs⟩
      · rw [o.no_metadata, hc.metadata fid hf]
        exact metaFind_nil fid

end Erasing

/-! A device with a credential of each kind, and one-time passwords. -/

/-- An id is the key it was made under. -/
def plainIds : Ids where
  made := fun k id => id = k
  accepts := fun k id => id = k
  made_exists := fun k => ⟨k, rfl⟩
  accepts_made := fun _ _ h => h
  separate := fun _ _ _ h h' => h'.symm.trans h

theorem plainScan_generated (k : Bytes) (h : some (List.replicate 32 9) = some k) :
    k.length = 32 := by
  rw [← Option.some.inj h]
  exact List.length_replicate

theorem plainScan_certificate (k c : Bytes) (h : some (0x30 :: k) = some c) : c ≠ [] := by
  rw [← Option.some.inj h]
  exact List.cons_ne_nil _ _

def plainScan : Scan where
  generated := some (List.replicate 32 9)
  certificate := fun k => some (0x30 :: k)
  token := List.replicate 32 1
  persistentToken := List.replicate 32 2
  devState := List.replicate 32 3
  generated_length := plainScan_generated
  certificate_ne := plainScan_certificate
  token_length := rfl
  persistentToken_length := rfl

def plainEnv : Env where
  scan := plainScan
  again := plainScan

def idleOtp : OtpInit where
  run := id
  frame := fun _ _ _ => rfl
  own := fun _ _ h fid hfid => h fid hfid

/-- A device key, a PIN, a credential, a record of a resident container and a slot of each of the
other applications. -/
def usedFiles : Files := fun fid =>
  if fid = efKeyDev then 1 :: List.replicate 32 7
  else if fid = efPin then [8, 4, 1]
  else if fid = 0xcf00 ∨ fid = 0xe001 ∨ fid = 0xba00 ∨ fid = 0xbb00 ∨ fid = efPhy then [5]
  else []

theorem usedFiles_known (fid : Nat) (h : usedFiles fid ≠ []) :
    fid ∈ fileEntries ∨ fid ∈ [0xcf00, 0xe001, 0xba00, 0xbb00] ∨ fid = efPhy := by
  unfold usedFiles at h
  split_ifs at h with h1 h2 h3
  · rw [h1]
    decide
  · rw [h2]
    decide
  · right
    simp only [List.mem_cons, List.not_mem_nil, or_false]
    tauto
  · exact absurd rfl h

theorem usedStorage_phy : efPhy ∉ [0xcf00, 0xe001, 0xba00, 0xbb00] := by decide

def usedStorage : Storage where
  files := usedFiles
  dynamic := [0xcf00, 0xe001, 0xba00, 0xbb00]
  known := usedFiles_known
  phy := usedStorage_phy

def usedVars : Vars where
  hasKeydevDec := false
  keydevDec := List.replicate 32 0
  keydevUnlocked := true
  sessionPin := List.replicate 32 4
  needsPowerCycle := false
  paut := List.replicate 32 5
  ppaut := List.replicate 32 6
  otpScanned := true

theorem used_clean : Clean plainEnv idleOtp usedStorage usedVars := by
  refine ⟨rfl, ?_, ?_, ?_, ?_⟩
  · intro fid hl
    have hl' : fid / 256 = 0xdd := hl
    have hne : fid ≠ efKeyDev ∧ fid ≠ efPin ∧
        ¬ (fid = 0xcf00 ∨ fid = 0xe001 ∨ fid = 0xba00 ∨ fid = 0xbb00 ∨ fid = efPhy) := by
      have h1 : efKeyDev = 0xcc00 := rfl
      have h2 : efPin = 0x1080 := rfl
      have h3 : efPhy = 0xe020 := rfl
      omega
    show usedFiles fid = []
    unfold usedFiles
    rw [if_neg hne.1, if_neg hne.2.1, if_neg hne.2.2]
  · intro fid _
    exact metaFind_nil fid
  · intro hs
    cases hs
  · intro fid _
    exact .inl ⟨⟨List.replicate 32 9, rfl, Option.some_ne_none _⟩, rfl⟩

/-- Here nothing stands in the way. -/
theorem used_erased : ∃ f' v',
    cborReset plainEnv plainDevice idleOtp usedStorage usedVars = .ok (f', v') ∧
      Erased plainEnv plainDevice plainIds usedStorage f' v' := by
  have hrun : ∃ f' v', cborReset plainEnv plainDevice idleOtp usedStorage usedVars = .ok (f', v') :=
    ⟨_, _, rfl⟩
  obtain ⟨f', v', h⟩ := hrun
  have hnew : usedVars.hasKeydevDec = true → ¬ plainEnv.Drawn usedVars.keydevDec := by
    intro hr
    cases hr
  exact ⟨f', v', h, (reset_erases plainEnv plainDevice idleOtp plainIds usedStorage usedVars f' v'
    plainDevice_lawful hnew h).mpr used_clean⟩

/-- The same device after its lock was opened: the copy of the old key stays in RAM. -/
def unlockedVars : Vars := { usedVars with hasKeydevDec := true, keydevDec := List.replicate 32 7 }

/-- The reset succeeds, and the device goes on with the old key. -/
theorem ram_key_survives_reset : ∃ f' v',
    cborReset plainEnv plainDevice idleOtp usedStorage unlockedVars = .ok (f', v') ∧
      loadKey plainDevice v' f' = loadKey plainDevice unlockedVars usedStorage.files ∧
      ¬ Erased plainEnv plainDevice plainIds usedStorage f' v' := by
  have hold : ¬ plainEnv.Drawn unlockedVars.keydevDec := by
    rintro (h | h)
    · exact absurd h (by decide)
    · exact absurd h (by decide)
  have hrun : ∃ f' v',
      cborReset plainEnv plainDevice idleOtp usedStorage unlockedVars = .ok (f', v') ∧
        loadKey plainDevice v' f' = loadKey plainDevice unlockedVars usedStorage.files :=
    ⟨_, _, rfl, rfl⟩
  obtain ⟨f', v', h, hkey⟩ := hrun
  exact ⟨f', v', h, hkey, ram_not_dead plainIds rfl hold h⟩

end KeyWallet.Reset
