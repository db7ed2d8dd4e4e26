import KeyWallet.ClientPin

/-! What the stored files mean: which PIN a PIN file accepts and which key a key file holds under
it. Everything here looks at the bytes of a file only. -/
namespace KeyWallet

open CrashProgram

/-- What is assumed of the primitives: hashes of PINs are injective, ciphers invert, and a key
derived from one PIN does not open what was sealed under that of another. -/
structure Device.Lawful (d : Device) : Prop where
  verifier_length : ∀ p, (d.pinDeriveVerifier p).length = 32
  verifier_inj : ∀ p q : Bytes, p.length = 16 → q.length = 16 →
    d.pinDeriveVerifier p = d.pinDeriveVerifier q → p = q
  doubleHash_inj : ∀ p q : Bytes, p.length = 16 → q.length = 16 →
    d.doubleHashPin p = d.doubleHashPin q → p = q
  sha256_length : ∀ x, (d.sha256 x).length = 32
  random_length : ∀ draw len, (d.random draw len).length = len
  sealed_length : ∀ version key msg nonce, msg.length = 32 → nonce.length = 12 →
    (d.encryptWithAad version key msg nonce).length = 60
  unsealed : ∀ version key msg nonce, msg.length = 32 → nonce.length = 12 →
    d.decryptWithAad version key (d.encryptWithAad version key msg nonce) = some msg
  unsealed_length : ∀ version key data msg, data.length = 60 →
    d.decryptWithAad version key data = some msg → msg.length = 32
  unsealed_only : ∀ version msg nonce (p q : Bytes), msg.length = 32 → nonce.length = 12 →
    p.length = 16 → q.length = 16 → p ≠ q → d.decryptWithAad version (d.pinDeriveSession q)
      (d.encryptWithAad version (d.pinDeriveSession p) msg nonce) = none
  kbase_inverse : ∀ key, key.length = 32 → d.kbaseDecrypt (d.kbaseEncrypt key) = key
  kbaseEncrypt_length : ∀ key, (d.kbaseEncrypt key).length = key.length
  kbaseDecrypt_length : ∀ key, (d.kbaseDecrypt key).length = key.length
  kbaseDecrypt_inj : ∀ x y, d.kbaseDecrypt x = d.kbaseDecrypt y → x = y
  aesDecrypt_length : ∀ otp key, (d.aesDecrypt otp key).length = key.length

section Files

@[simp] theorem fileBytes_written (old : Option Ef) (data : Bytes) :
    fileBytes (fileWritten old data) = data := by
  unfold fileWritten
  split
  · rfl
  · split_ifs <;> rfl

/-- A read that stays inside the file. -/
theorem readRaw_inside (past : Nat → Byte) (f : Option Ef) {i n : Nat}
    (h : i + n ≤ (fileBytes f).length) :
    readRaw past f i n = ((fileBytes f).drop i).take n := by
  match f with
  | none =>
    have hn : n = 0 := by
      have h0 : i + n ≤ 0 := h
      omega
    simp [readRaw, fileBytes, hn]
  | some ef =>
    replace h : i + n ≤ ef.bytes.length := h
    apply List.ext_getElem
    · simp only [readRaw, fileBytes, List.length_map, List.length_range, List.length_take,
        List.length_drop]
      omega
    · intro j hj _
      have hjn : j < n := by simpa [readRaw] using hj
      have hij : i + j < ef.bytes.length := by omega
      simp [readRaw, fileBytes, List.getElem?_append, hij]

theorem readRaw_length (past : Nat → Byte) (ef : Ef) (i n : Nat) :
    (readRaw past (some ef) i n).length = n := by
  simp [readRaw]

end Files

/-- The key in a key file, under the session key of a PIN. -/
def keydevPlain (d : Device) (session data : Bytes) : Option Bytes :=
  if data.length = 32 then some (rawKey d data)
  else if (data.length = 33 ∨ data.length = 61) ∧ data.headD 0 = 1 then
    some (d.kbaseDecrypt ((data.drop 1).take 32))
  else if data.length = 61 ∧ (data.headD 0 = 2 ∨ data.headD 0 = 3) then
    (d.decryptWithAad (if data.headD 0 = 3 then 2 else 1) session (data.drop 1)).map d.kbaseDecrypt
  else none

/-- A PIN file has one of the two lengths. -/
def PinSized (data : Bytes) : Prop := data.length = pinLegacyDataLen ∨ data.length = pinDataLen

theorem PinSized.pos {data : Bytes} (h : PinSized data) : 0 < data.length := by
  rcases h with h | h <;> rw [h] <;> decide

theorem PinSized.le {data : Bytes} (h : PinSized data) : data.length ≤ pinDataLen := by
  rcases h with h | h <;> rw [h] <;> decide

/-- The PIN file accepts this candidate. -/
def storedVerifies (d : Device) (data candidate : Bytes) : Prop :=
  (data.length = pinLegacyDataLen ∧ d.doubleHashPin candidate = data.drop 2) ∨
    (data.length = pinDataLen ∧ d.pinDeriveVerifier candidate = data.drop 3)

instance (d : Device) (data candidate : Bytes) : Decidable (storedVerifies d data candidate) :=
  inferInstanceAs (Decidable (_ ∨ _))

/-- The session key a PIN gives, by the format of the PIN file. -/
def pinSession (d : Device) (data candidate : Bytes) : Bytes :=
  if data.length = pinLegacyDataLen then d.hashMulti candidate else d.pinDeriveSession candidate

/-- This PIN passes the stored verifier and its session key decrypts EF_KEY_DEV to `key`. -/
structure Opens (d : Device) (files : Files) (pin key : Bytes) : Prop where
  verifies : storedVerifies d (fileBytes (files .efPin)) pin
  decrypts : keydevPlain d (pinSession d (fileBytes (files .efPin)) pin)
    (fileBytes (files .efKeyDev)) = some key

section Formats

variable {d : Device}

/-- The three ways a file holds a key. -/
theorem keydevPlain_cases {session data key : Bytes} (h : keydevPlain d session data = some key) :
    (data.length = 32 ∧ rawKey d data = key) ∨
    (data.length ≠ 32 ∧ (data.length = 33 ∨ data.length = 61) ∧ data.headD 0 = 1 ∧
      d.kbaseDecrypt ((data.drop 1).take 32) = key) ∨
    (data.length = 61 ∧ (data.headD 0 = 2 ∨ data.headD 0 = 3) ∧
      ∃ x, d.decryptWithAad (if data.headD 0 = 3 then 2 else 1) session (data.drop 1) = some x ∧
        d.kbaseDecrypt x = key) := by
  unfold keydevPlain at h
  split at h
  · next h32 => exact .inl ⟨h32, Option.some.inj h⟩
  split at h
  · next h32 h1 => exact .inr (.inl ⟨h32, h1.1, h1.2, Option.some.inj h⟩)
  split at h
  · next h2 => exact .inr (.inr ⟨h2.1, h2.2, Option.map_eq_some_iff.mp h⟩)
  · cases h

theorem rawKey_length (hd : d.Lawful) (data : Bytes) : (rawKey d data).length = data.length := by
  unfold rawKey
  split
  · rfl
  · exact hd.aesDecrypt_length _ _

theorem keydevPlain_length (hd : d.Lawful) {session data key : Bytes}
    (h : keydevPlain d session data = some key) : key.length = 32 := by
  rcases keydevPlain_cases h with ⟨h32, rfl⟩ | ⟨-, hl, -, rfl⟩ | ⟨hl, -, x, hx, rfl⟩
  · rw [rawKey_length hd, h32]
  · rw [hd.kbaseDecrypt_length, List.length_take, List.length_drop]
    omega
  · rw [hd.kbaseDecrypt_length]
    apply hd.unsealed_length _ _ _ _ _ hx
    rw [List.length_drop, hl]

theorem keydevPlain_pos {session data key : Bytes} (h : keydevPlain d session data = some key) :
    0 < data.length := by
  cases data with
  | nil => simp [keydevPlain] at h
  | cons x xs => exact Nat.succ_pos _

/-- Format 0x01 needs no PIN. -/
theorem keydevPlain_f1 {session x : Bytes} (hx : x.length = 32) :
    keydevPlain d session (1 :: x) = some (d.kbaseDecrypt x) := by
  have ht : x.take 32 = x := List.take_of_length_le (Nat.le_of_eq hx)
  simp [keydevPlain, hx, ht]

/-- Format 0x03 opens under the session it was sealed with. -/
theorem keydevPlain_f3 (hd : d.Lawful) {session x nonce : Bytes} (hx : x.length = 32)
    (hn : nonce.length = 12) :
    keydevPlain d session (3 :: d.encryptWithAad 2 session x nonce) = some (d.kbaseDecrypt x) := by
  have hl := hd.sealed_length 2 session x nonce hx hn
  simp [keydevPlain, hl, hd.unsealed 2 session x nonce hx hn]

theorem keydevPlain_f3_other (hd : d.Lawful) {p q x nonce : Bytes} (hx : x.length = 32)
    (hn : nonce.length = 12) (hp : p.length = 16) (hq : q.length = 16) (hpq : p ≠ q) :
    keydevPlain d (d.pinDeriveSession q)
      (3 :: d.encryptWithAad 2 (d.pinDeriveSession p) x nonce) = none := by
  have hl := hd.sealed_length 2 (d.pinDeriveSession p) x nonce hx hn
  simp [keydevPlain, hl, hd.unsealed_only 2 x nonce p q hx hn hp hq hpq]

theorem pinHash_length (hd : d.Lawful) (newPin : Bytes) : (pinHash d newPin).length = 16 := by
  rw [pinHash, List.length_take, hd.sha256_length]
  rfl

theorem storedVerifies_unique (hd : d.Lawful) {data p q : Bytes} (hp : p.length = 16)
    (hq : q.length = 16) (h : storedVerifies d data p) (h' : storedVerifies d data q) : p = q := by
  rcases h with ⟨hl, h⟩ | ⟨hl, h⟩ <;> rcases h' with ⟨hl', h'⟩ | ⟨hl', h'⟩
  · exact hd.doubleHash_inj p q hp hq (h.trans h'.symm)
  · rw [hl] at hl'
    exact absurd hl' (by decide)
  · rw [hl] at hl'
    exact absurd hl' (by decide)
  · exact hd.verifier_inj p q hp hq (h.trans h'.symm)

/-- The retry byte does not matter to what a PIN opens. -/
theorem storedVerifies_set (data candidate : Bytes) (b : Byte) :
    storedVerifies d (data.set 0 b) candidate ↔ storedVerifies d data candidate := by
  simp [storedVerifies, List.length_set, List.drop_set]

theorem pinSession_set (data candidate : Bytes) (b : Byte) :
    pinSession d (data.set 0 b) candidate = pinSession d data candidate := by
  simp [pinSession, List.length_set]

theorem storedVerifies_sized {data candidate : Bytes} (h : storedVerifies d data candidate) :
    PinSized data := by
  rcases h with ⟨hl, -⟩ | ⟨hl, -⟩
  · exact .inl hl
  · exact .inr hl

/-- load_pin_data reads a file that accepts some PIN. -/
theorem loadPinData_eq {ef : Option Ef} (h : PinSized (fileBytes ef)) :
    loadPinData ef = some (fileBytes ef ++ List.replicate (pinDataLen - fileGetSize ef) 0,
      fileGetSize ef) := by
  have hs : fileGetSize ef = pinLegacyDataLen ∨ fileGetSize ef = pinDataLen := h
  simp only [loadPinData, if_pos hs]

/-- The comparison of the code is the meaning of the file. -/
theorem pinVerifies_iff {data candidate : Bytes} {n : Nat} (h : PinSized data) :
    pinVerifies d (data ++ List.replicate n 0) data.length candidate = true ↔
      storedVerifies d data candidate := by
  rcases h with h | h
  · have hdrop : ((data ++ List.replicate n 0).drop 2).take 32 = data.drop 2 := by
      rw [List.drop_append_of_le_length (by simp [h, pinLegacyDataLen]),
        List.take_left' (by simp [h, pinLegacyDataLen])]
    have hne : pinLegacyDataLen ≠ pinDataLen := by decide
    simp only [pinVerifies, storedVerifies, h, hdrop, if_true, decide_eq_true_eq, true_and, hne,
      false_and, or_false]
  · have hdrop : ((data ++ List.replicate n 0).drop 3).take 32 = data.drop 3 := by
      rw [List.drop_append_of_le_length (by simp [h, pinDataLen]),
        List.take_left' (by simp [h, pinDataLen])]
    have hne : pinDataLen ≠ pinLegacyDataLen := by decide
    simp only [pinVerifies, storedVerifies, h, hdrop, if_false, decide_eq_true_eq, true_and, hne,
      false_and, false_or]

end Formats

/-- Text padded with zeros to `n` bytes. -/
def padded (n : Nat) (x : Bytes) : Bytes := (x ++ List.replicate n 0).take n

theorem padded_length (n : Nat) (x : Bytes) : (padded n x).length = n := by
  simp [padded]

theorem padded_self {n : Nat} {x : Bytes} (h : x.length = n) : padded n x = x := by
  subst h
  simp [padded]

/-- A device whose ciphers do not hide anything, to run the model on. -/
def plainDevice : Device where
  sha256 := padded 32
  hashMulti := fun p => padded 32 (p ++ p)
  doubleHashPin := fun p => padded 32 (p ++ p)
  pinDeriveVerifier := fun p => padded 32 (p ++ p)
  pinDeriveSession := fun p => padded 32 (p ++ p)
  encryptWithAad := fun _ key msg nonce => nonce ++ msg ++ padded 16 key
  decryptWithAad := fun _ key data =>
    if data.drop 44 = padded 16 key then some ((data.drop 12).take 32) else none
  kbaseEncrypt := id
  kbaseDecrypt := id
  otpKey1 := none
  aesDecrypt := fun _ data => data
  chachaEncrypt := fun key msg _ => msg ++ padded 16 key
  chachaDecrypt := fun key _ ct tag => if tag = padded 16 key then some ct else none
  mseKey := fun _ _ _ => some []
  mseOpen := fun _ data => some (data.take 32)
  ecdh := fun _ _ _ _ => some []
  hmac := fun _ _ => List.replicate 32 0
  decrypt := fun protocol _ data => some (if protocol = 1 then data else data.drop ivSize)
  random := fun _ len => List.replicate len 0

theorem padded_twice_inj {p q : Bytes} (hp : p.length = 16) (hq : q.length = 16)
    (h : padded 32 (p ++ p) = padded 32 (q ++ q)) : p = q := by
  rw [padded_self (by simp [hp]), padded_self (by simp [hq])] at h
  exact (List.append_inj h (hp.trans hq.symm)).1

theorem plainDevice_lawful : plainDevice.Lawful where
  verifier_length p := padded_length _ _
  verifier_inj p q hp hq h := padded_twice_inj hp hq h
  doubleHash_inj p q hp hq h := padded_twice_inj hp hq h
  sha256_length x := padded_length _ _
  random_length draw len := List.length_replicate
  sealed_length version key msg nonce hm hn := by
    simp [plainDevice, hm, hn, padded_length]
  unsealed version key msg nonce hm hn := by
    have h44 : (nonce ++ msg).length = 44 := by simp [hm, hn]
    have hdrop : (nonce ++ msg ++ padded 16 key).drop 44 = padded 16 key := by
      rw [← h44, List.drop_left]
    simp only [plainDevice, hdrop, if_true, Option.some.injEq]
    rw [List.append_assoc, ← hn, List.drop_left, ← hm, List.take_left]
  unsealed_length version key data msg hl h := by
    simp only [plainDevice] at h
    split_ifs at h
    rw [← Option.some.inj h]
    simp [hl]
  unsealed_only version msg nonce p q hm hn hp hq hpq := by
    have h44 : (nonce ++ msg).length = 44 := by simp [hm, hn]
    have htag : ∀ r : Bytes, r.length = 16 → padded 16 (padded 32 (r ++ r)) = r := by
      intro r hr
      rw [padded_self (x := r ++ r) (by simp [hr]), padded, List.append_assoc,
        List.take_left' hr]
    have hdrop : (nonce ++ msg ++ padded 16 (padded 32 (p ++ p))).drop 44 = p := by
      rw [← h44, List.drop_left, htag p hp]
    simp only [plainDevice, hdrop, htag q hq, hpq, if_false]
  kbase_inverse key _ := rfl
  kbaseEncrypt_length key := rfl
  kbaseDecrypt_length key := rfl
  kbaseDecrypt_inj x y h := h
  aesDecrypt_length otp key := rfl

end KeyWallet
