import KeyWallet.CredPayload

/-! The blob of a backup: the layers of vault.c, and how vault_export_blob and vault_import_blob of fido_vault.c
put them around a credential and take them off. Hashes and ciphers are parameters. -/
namespace KeyWallet.Cred.VaultBlob

open Payload (ascii)

/-- VAULT_BLOB_NONCE_BYTES bytes. -/
abbrev Nonce := { b : Data // b.length = 12 }

/-- What is the same on every device. -/
structure Library where
  sha256 : Data → Data
  hkdf : (salt key info : Data) → Data
  -- the AEADs, by their numbers in vault.h: the output and the tag
  encryptAndTag : (algorithm : BitVec 8) → (key nonce aad input : Data) → Data × Data
  authDecrypt : (algorithm : BitVec 8) → (key nonce aad input tag : Data) → Option Data

/-- What the libraries promise. -/
structure Library.Laws (l : Library) : Prop where
  sha256_length : ∀ message, (l.sha256 message).length = 32
  cipher_length : ∀ algorithm key nonce aad input, (l.encryptAndTag algorithm key nonce aad input).1.length = input.length
  tag_length : ∀ algorithm key nonce aad input, (l.encryptAndTag algorithm key nonce aad input).2.length = 16
  decrypt_iff : ∀ algorithm key nonce aad input tag plain,
    l.authDecrypt algorithm key nonce aad input tag = some plain ↔ l.encryptAndTag algorithm key nonce aad plain = (input, tag)

/-! vault.c. -/

/-- PICOKEYS_VAULT_ALGORITHM_CHACHAPOLY, and AESGCM. -/
def chachapoly : BitVec 8 := 1

def aesgcm : BitVec 8 := 2

/-- picokeys_vault_algorithm_valid. -/
def algorithmValid (algorithm : BitVec 8) : Bool := 1 ≤ algorithm.toNat && algorithm.toNat ≤ 4

/-- picokeys_vault_algorithm_layers. -/
def algorithmLayers (algorithm : BitVec 8) : Nat := if 3 ≤ algorithm.toNat then 2 else 1

/-- picokeys_vault_algorithm_layer. -/
def algorithmLayer (algorithm : BitVec 8) (index : Nat) : BitVec 8 :=
  if algorithm = 3 then if index = 0 then chachapoly else aesgcm
  else if algorithm = 4 then if index = 0 then aesgcm else chachapoly
  else algorithm

section Layers

variable (l : Library)

/-- picokeys_vault_hash_kvault. -/
def hashKvault (kvault : Data) : Data := l.sha256 (ascii "PicoKeys Vault ID v1" ++ kvault)

/-- picokeys_vault_layer_key. -/
def layerKey (kvault credentialHash : Data) (algorithm : BitVec 8) (layer : Nat) : Data :=
  l.hkdf (hashKvault l kvault) kvault
    (ascii "PicoKeys Vault enrollment v1" ++ credentialHash ++ [algorithm, BitVec.ofNat 8 layer])

/-- picokeys_vault_encrypt_layer. -/
def encryptLayer (algorithm : BitVec 8) (key nonce aad input : Data) : Option (Data × Data) :=
  if algorithm = chachapoly ∨ algorithm = aesgcm then some (l.encryptAndTag algorithm key nonce aad input) else none

/-- picokeys_vault_decrypt_layer. -/
def decryptLayer (algorithm : BitVec 8) (key nonce aad input tag : Data) : Option Data :=
  if algorithm = chachapoly ∨ algorithm = aesgcm then l.authDecrypt algorithm key nonce aad input tag else none

end Layers

/-! The blob. -/

/-- VAULT_BLOB_HEADER_LEN: the magic, the ids of the vault and of the credential, the serial with its length,
and the algorithm. -/
def headerLen : Nat := 86

def vaultBlobMagic : Data := [0x50, 0x4b, 0x56, 1]

/-- VAULT_PLAIN_MAX. -/
def plainMax : Nat := 1024 + 512 + 256

section Blob

variable (l : Library)

def credentialHashOf (header : Data) : Data := (header.drop 36).take 32

def algorithmOf (header : Data) : BitVec 8 := header.getD 85 0

/-- The key of a layer for the credential that the header names. -/
def blobKey (kvault header : Data) (layer : Nat) : Data :=
  layerKey l kvault (credentialHashOf header) (algorithmOf header) layer

/-- The serial has eight bytes, and the array for it is longer. -/
def exportHeader (kvault requestedId serial : Data) (algorithm : BitVec 8) : Data :=
  vaultBlobMagic ++ hashKvault l kvault ++ l.sha256 requestedId ++ [8] ++
    (serial ++ List.replicate 8 0) ++ [algorithm]

/-- The layers around a plaintext, in vault_export_blob. -/
def sealBlob (kvault header plain : Data) (n0 n1 : Nonce) : Option Data :=
  let algorithm := algorithmOf header
  if algorithmLayers algorithm = 1 then
    (encryptLayer l (algorithmLayer algorithm 0) (blobKey l kvault header 0) n0.1 header plain).map fun sealed =>
      header ++ n0.1 ++ sealed.1 ++ sealed.2
  else
    (encryptLayer l (algorithmLayer algorithm 0) (blobKey l kvault header 0) n0.1 header plain).bind fun first =>
      (encryptLayer l (algorithmLayer algorithm 1) (blobKey l kvault header 1) n1.1 header
        (first.1 ++ first.2)).map fun second => header ++ n0.1 ++ n1.1 ++ second.1 ++ second.2

/-- vault_import_blob up to the plaintext. -/
def openBlob (kvault : Option Data) (blob : Data) : Option Data :=
  if blob.length < headerLen + 12 + 16 then none
  else if blob.take 4 ≠ vaultBlobMagic then none
  else
    let header := blob.take headerLen
    let algorithm := algorithmOf header
    if algorithmValid algorithm = false ∨ 16 < (blob.getD 68 0).toNat then none
    else
      let layers := algorithmLayers algorithm
      let nonceLen := layers * 12
      if blob.length < headerLen + nonceLen + layers * 16 then none
      else
        kvault.bind fun kvault =>
          if hashKvault l kvault ≠ (blob.drop 4).take 32 then none
          else
            let encryptedLen := blob.length - headerLen - nonceLen
            let plainLen := encryptedLen - layers * 16
            let nonce (i : Nat) := (blob.drop (headerLen + i * 12)).take 12
            let body := blob.drop (headerLen + nonceLen)
            let tag := blob.drop (blob.length - 16)
            if plainMax < plainLen then none
            else if layers = 1 then
              decryptLayer l (algorithmLayer algorithm 0) (blobKey l kvault header 0) (nonce 0) header
                (body.take plainLen) tag
            else
              (decryptLayer l (algorithmLayer algorithm 1) (blobKey l kvault header 1) (nonce 1) header
                (body.take (plainLen + 16)) tag).bind fun intermediate =>
                  decryptLayer l (algorithmLayer algorithm 0) (blobKey l kvault header 0) (nonce 0) header
                    (intermediate.take plainLen) ((intermediate.drop plainLen).take 16)

end Blob

/-! What is accepted. -/

/-- The header of a blob of this vault. -/
structure HeaderOk (l : Library) (kvault header : Data) : Prop where
  length : header.length = headerLen
  magic : header.take 4 = vaultBlobMagic
  vault : hashKvault l kvault = (header.drop 4).take 32
  algorithm : algorithmValid (algorithmOf header) = true
  serial : (header.getD 68 0).toNat ≤ 16

section Opening

variable {l : Library} {kvault header plain blob key nonce aad input tag requestedId serial : Data}
  {algorithm : BitVec 8}

theorem decryptLayer_iff (hl : l.Laws) :
    decryptLayer l algorithm key nonce aad input tag = some plain ↔
      encryptLayer l algorithm key nonce aad plain = some (input, tag) := by
  unfold decryptLayer encryptLayer
  split_ifs
  · rw [hl.decrypt_iff, Option.some.injEq]
  · constructor <;> intro h <;> cases h

theorem encryptLayer_lengths (hl : l.Laws)
    (h : encryptLayer l algorithm key nonce aad plain = some (input, tag)) :
    input.length = plain.length ∧ tag.length = 16 := by
  unfold encryptLayer at h
  split_ifs at h
  have hsealed := Option.some.inj h
  constructor
  · rw [← hl.cipher_length algorithm key nonce aad plain, hsealed]
  · rw [← hl.tag_length algorithm key nonce aad plain, hsealed]

/-- The last sixteen bytes of what a layer has made are its tag. -/
theorem layer_body (hl : l.Laws) {body : Data} :
    (16 ≤ body.length ∧ decryptLayer l algorithm key nonce aad (body.take (body.length - 16))
      (body.drop (body.length - 16)) = some plain) ↔
      ∃ sealed, encryptLayer l algorithm key nonce aad plain = some sealed ∧ sealed.1 ++ sealed.2 = body := by
  constructor
  · intro ⟨_, hopen⟩
    exact ⟨_, (decryptLayer_iff hl).mp hopen, List.take_append_drop _ body⟩
  · intro ⟨(c, t), hsealed, hbody⟩
    obtain ⟨-, ht⟩ := encryptLayer_lengths hl hsealed
    have hlen : body.length = c.length + 16 := by
      rw [← hbody, List.length_append, ht]
    refine ⟨by omega, ?_⟩
    have hcut : body.length - 16 = c.length := by omega
    rw [hcut, ← hbody, List.take_left' rfl, List.drop_left' rfl]
    exact (decryptLayer_iff hl).mpr hsealed

/-- vault_import_blob behind the header. -/
def openLayers (l : Library) (kvault header rest : Data) : Option Data :=
  let algorithm := algorithmOf header
  let layers := algorithmLayers algorithm
  if rest.length < layers * 28 then none
  else
    let plainLen := rest.length - layers * 28
    let body := rest.drop (layers * 12)
    if plainMax < plainLen then none
    else if layers = 1 then
      decryptLayer l (algorithmLayer algorithm 0) (blobKey l kvault header 0) (rest.take 12) header
        (body.take (body.length - 16)) (body.drop (body.length - 16))
    else
      (decryptLayer l (algorithmLayer algorithm 1) (blobKey l kvault header 1) ((rest.drop 12).take 12) header
        (body.take (body.length - 16)) (body.drop (body.length - 16))).bind fun intermediate =>
          decryptLayer l (algorithmLayer algorithm 0) (blobKey l kvault header 0) (rest.take 12) header
            (intermediate.take plainLen) ((intermediate.drop plainLen).take 16)

theorem layers_cases (algorithm : BitVec 8) : algorithmLayers algorithm = 1 ∨ algorithmLayers algorithm = 2 := by
  unfold algorithmLayers
  split_ifs
  · exact .inr rfl
  · exact .inl rfl

/-- vault_import_blob takes a blob apart at its header. -/
theorem openBlob_eq (h : HeaderOk l kvault header) (rest : Data) :
    openBlob l (some kvault) (header ++ rest) = openLayers l kvault header rest := by
  have hhead := h.length
  unfold headerLen at hhead
  have hlen : (header ++ rest).length = 86 + rest.length := by
    rw [List.length_append, hhead]
  have htake : (header ++ rest).take headerLen = header := List.take_left' h.length
  have hmagic : (header ++ rest).take 4 = vaultBlobMagic := by
    rw [List.take_append_of_le_length (by omega), h.magic]
  have hserial : (header ++ rest).getD 68 0 = header.getD 68 0 := by
    rw [List.getD_eq_getElem?_getD, List.getElem?_append_left (by omega), List.getD_eq_getElem?_getD]
  have hvault : ((header ++ rest).drop 4).take 32 = (header.drop 4).take 32 := by
    rw [List.drop_append_of_le_length (by omega), List.take_append_of_le_length]
    rw [List.length_drop]
    omega
  have hdrop (n : Nat) : (header ++ rest).drop (headerLen + n) = rest.drop n := by
    rw [← List.drop_drop, List.drop_left' h.length]
  have htag (n : Nat) (hn : n + 16 ≤ rest.length) :
      (header ++ rest).drop ((header ++ rest).length - 16) = (rest.drop n).drop ((rest.drop n).length - 16) := by
    have hat : (header ++ rest).length - 16 = headerLen + (n + ((rest.drop n).length - 16)) := by
      rw [hlen, List.length_drop]
      unfold headerLen
      omega
    rw [hat, hdrop, ← List.drop_drop]
  unfold openBlob openLayers
  dsimp only
  rw [htake, hmagic, hserial, hvault]
  have hno : ¬ (algorithmValid (algorithmOf header) = false ∨ 16 < (header.getD 68 0).toNat) := by
    intro hbad
    cases hbad with
    | inl hbad => exact absurd (hbad.symm.trans h.algorithm) Bool.false_ne_true
    | inr hbad => exact absurd hbad (Nat.not_lt.mpr h.serial)
  rw [if_neg (not_not.mpr rfl), if_neg hno, Option.bind_some, if_neg (not_not.mpr h.vault)]
  -- the two checks of the length ask for no more than the second one
  by_cases hshort : rest.length < algorithmLayers (algorithmOf header) * 28
  · rw [if_pos hshort]
    have hsecond : (header ++ rest).length <
        headerLen + algorithmLayers (algorithmOf header) * 12 + algorithmLayers (algorithmOf header) * 16 := by
      rw [hlen]
      unfold headerLen
      omega
    rw [if_pos hsecond]
    exact ite_self _
  · have hlayers := layers_cases (algorithmOf header)
    have hfirst : ¬ (header ++ rest).length < headerLen + 12 + 16 := by
      rw [hlen]
      unfold headerLen
      omega
    have hsecond : ¬ (header ++ rest).length <
        headerLen + algorithmLayers (algorithmOf header) * 12 + algorithmLayers (algorithmOf header) * 16 := by
      rw [hlen]
      unfold headerLen
      omega
    have hplain : (header ++ rest).length - headerLen - algorithmLayers (algorithmOf header) * 12 -
        algorithmLayers (algorithmOf header) * 16 = rest.length - algorithmLayers (algorithmOf header) * 28 := by
      rw [hlen]
      unfold headerLen
      omega
    rw [if_neg hfirst, if_neg hsecond, if_neg hshort, hplain,
      htag (algorithmLayers (algorithmOf header) * 12) (by omega), hdrop, hdrop, hdrop]
    have hbody : (rest.drop (algorithmLayers (algorithmOf header) * 12)).length =
        rest.length - algorithmLayers (algorithmOf header) * 12 := List.length_drop
    cases hlayers with
    | inl hone =>
      rw [hone] at hbody hshort ⊢
      have hcut : rest.length - 1 * 28 = (rest.drop (1 * 12)).length - 16 := by omega
      rw [if_pos rfl, if_pos rfl, hcut]
      rfl
    | inr htwo =>
      rw [htwo] at hbody hshort ⊢
      have hcut : rest.length - 2 * 28 + 16 = (rest.drop (2 * 12)).length - 16 := by omega
      have htwo' : ¬ (2 : Nat) = 1 := by decide
      rw [if_neg htwo', if_neg htwo', hcut]
      rfl

theorem sealBlob_one (hone : algorithmLayers (algorithmOf header) = 1) (n0 n1 : Nonce) :
    sealBlob l kvault header plain n0 n1 =
      (encryptLayer l (algorithmLayer (algorithmOf header) 0) (blobKey l kvault header 0) n0.1 header plain).map
        fun sealed => header ++ n0.1 ++ sealed.1 ++ sealed.2 := by
  unfold sealBlob
  dsimp only
  rw [hone, if_pos rfl]

theorem sealBlob_two (htwo : algorithmLayers (algorithmOf header) = 2) (n0 n1 : Nonce) :
    sealBlob l kvault header plain n0 n1 =
      (encryptLayer l (algorithmLayer (algorithmOf header) 0) (blobKey l kvault header 0) n0.1 header plain).bind
        fun first => (encryptLayer l (algorithmLayer (algorithmOf header) 1) (blobKey l kvault header 1) n1.1 header
          (first.1 ++ first.2)).map fun second => header ++ n0.1 ++ n1.1 ++ second.1 ++ second.2 := by
  have hno : ¬ (2 : Nat) = 1 := by decide
  unfold sealBlob
  dsimp only
  rw [htwo, if_neg hno]

theorem sealBlob_header {n0 n1 : Nonce} (h : sealBlob l kvault header plain n0 n1 = some blob) :
    ∃ rest, blob = header ++ rest := by
  unfold sealBlob at h
  dsimp only at h
  split_ifs at h
  · obtain ⟨sealed, -, heq⟩ := Option.map_eq_some_iff.mp h
    rw [List.append_assoc, List.append_assoc] at heq
    exact ⟨_, heq.symm⟩
  · obtain ⟨first, -, h⟩ := Option.bind_eq_some_iff.mp h
    obtain ⟨second, -, heq⟩ := Option.map_eq_some_iff.mp h
    rw [List.append_assoc, List.append_assoc, List.append_assoc] at heq
    exact ⟨_, heq.symm⟩

/-- One layer, or one around the other. -/
theorem openLayers_iff (hl : l.Laws) (rest : Data) :
    openLayers l kvault header rest = some plain ↔
      plain.length ≤ plainMax ∧ ∃ n0 n1, sealBlob l kvault header plain n0 n1 = some (header ++ rest) := by
  have htake {n : Nat} (hn : 12 ≤ n) (b : Data) (hb : n ≤ b.length) : (b.take 12).length = 12 := by
    rw [List.length_take]
    omega
  unfold openLayers
  dsimp only
  cases layers_cases (algorithmOf header) with
  | inl hone =>
    rw [hone, if_pos rfl]
    constructor
    · intro hopen
      split_ifs at hopen with hshort hbig
      have hlong : 28 ≤ rest.length := by omega
      have hbody : (rest.drop (1 * 12)).length = rest.length - 12 := List.length_drop
      obtain ⟨sealed, hsealed, heq⟩ := (layer_body hl).mp ⟨by omega, hopen⟩
      obtain ⟨hc, ht⟩ := encryptLayer_lengths hl hsealed
      have hlen : (sealed.1 ++ sealed.2).length = rest.length - 12 := by rw [heq, hbody]
      rw [List.length_append, hc, ht] at hlen
      refine ⟨by omega, ⟨rest.take 12, htake (by omega) rest hlong⟩, ⟨rest.take 12, htake (by omega) rest hlong⟩, ?_⟩
      rw [sealBlob_one hone, hsealed, Option.map_some, List.append_assoc, heq, List.append_assoc]
      exact congrArg (fun tail => some (header ++ tail)) (List.take_append_drop 12 rest)
    · intro ⟨hmax, n0, n1, hblob⟩
      rw [sealBlob_one hone] at hblob
      obtain ⟨sealed, hsealed, heq⟩ := Option.map_eq_some_iff.mp hblob
      rw [List.append_assoc, List.append_assoc] at heq
      have hrest : n0.1 ++ (sealed.1 ++ sealed.2) = rest := List.append_cancel_left heq
      obtain ⟨hc, ht⟩ := encryptLayer_lengths hl hsealed
      have hlen : rest.length = 12 + (plain.length + 16) := by
        rw [← hrest, List.length_append, List.length_append, n0.2, hc, ht]
      have hn0 : rest.take 12 = n0.1 := by rw [← hrest, List.take_left' n0.2]
      have hbody : rest.drop (1 * 12) = sealed.1 ++ sealed.2 := by
        rw [← hrest]
        exact List.drop_left' n0.2
      rw [if_neg (by omega), if_neg (by omega), hn0]
      exact ((layer_body hl).mpr ⟨sealed, hsealed, hbody.symm⟩).2
  | inr htwo =>
    have htwo' : ¬ (2 : Nat) = 1 := by decide
    rw [htwo, if_neg htwo']
    constructor
    · intro hopen
      split_ifs at hopen with hshort hbig
      have hlong : 56 ≤ rest.length := by omega
      have hbody : (rest.drop (2 * 12)).length = rest.length - 24 := List.length_drop
      obtain ⟨inner, houter, hinner⟩ := Option.bind_eq_some_iff.mp hopen
      obtain ⟨outer, hsealed, heq⟩ := (layer_body hl).mp ⟨by omega, houter⟩
      obtain ⟨hc, ht⟩ := encryptLayer_lengths hl hsealed
      have hlen : (outer.1 ++ outer.2).length = rest.length - 24 := by rw [heq, hbody]
      rw [List.length_append, hc, ht] at hlen
      -- the inner layer ends with its tag
      have hcut : rest.length - 2 * 28 = inner.length - 16 := by omega
      have htag : (inner.drop (inner.length - 16)).take 16 = inner.drop (inner.length - 16) := by
        apply List.take_of_length_le
        rw [List.length_drop]
        omega
      rw [hcut, htag] at hinner
      obtain ⟨first, hfirst, hjoin⟩ := (layer_body hl).mp ⟨by omega, hinner⟩
      obtain ⟨hc', ht'⟩ := encryptLayer_lengths hl hfirst
      have hlen' : (first.1 ++ first.2).length = inner.length := by rw [hjoin]
      rw [List.length_append, hc', ht'] at hlen'
      refine ⟨by omega, ⟨rest.take 12, htake (by omega) rest hlong⟩, ⟨(rest.drop 12).take 12, ?_⟩, ?_⟩
      · apply htake (Nat.le_refl 12)
        rw [List.length_drop]
        omega
      have hnonces : rest.take 12 ++ ((rest.drop 12).take 12 ++ rest.drop (2 * 12)) = rest := by
        have hdrop : rest.drop (2 * 12) = (rest.drop 12).drop 12 := by rw [List.drop_drop]
        rw [hdrop, List.take_append_drop, List.take_append_drop]
      rw [sealBlob_two htwo, hfirst, Option.bind_some, hjoin, hsealed, Option.map_some, List.append_assoc, heq, List.append_assoc,
        List.append_assoc, hnonces]
    · intro ⟨hmax, n0, n1, hblob⟩
      rw [sealBlob_two htwo] at hblob
      obtain ⟨first, hfirst, hblob⟩ := Option.bind_eq_some_iff.mp hblob
      obtain ⟨outer, houter, heq⟩ := Option.map_eq_some_iff.mp hblob
      rw [List.append_assoc, List.append_assoc, List.append_assoc] at heq
      have hrest : n0.1 ++ (n1.1 ++ (outer.1 ++ outer.2)) = rest := List.append_cancel_left heq
      obtain ⟨hc, ht⟩ := encryptLayer_lengths hl hfirst
      obtain ⟨hc', ht'⟩ := encryptLayer_lengths hl houter
      rw [List.length_append] at hc'
      have hlen : rest.length = 12 + (12 + (plain.length + 16 + 16)) := by
        rw [← hrest, List.length_append, List.length_append, List.length_append, n0.2, n1.2, hc', ht', hc, ht]
      have hn0 : rest.take 12 = n0.1 := by rw [← hrest, List.take_left' n0.2]
      have hdrop : rest.drop 12 = n1.1 ++ (outer.1 ++ outer.2) := by rw [← hrest, List.drop_left' n0.2]
      have hn1 : (rest.drop 12).take 12 = n1.1 := by rw [hdrop, List.take_left' n1.2]
      have hbody : rest.drop (2 * 12) = outer.1 ++ outer.2 := by
        show rest.drop (12 + 12) = _
        rw [← List.drop_drop, hdrop, List.drop_left' n1.2]
      have hcut : rest.length - 2 * 28 = first.1.length := by omega
      rw [if_neg (by omega), if_neg (by omega), hn0, hn1, ((layer_body hl).mpr ⟨outer, houter, hbody.symm⟩).2,
        Option.bind_some, hcut, List.take_left' rfl, List.drop_left' rfl, List.take_of_length_le (by omega)]
      exact (decryptLayer_iff hl).mpr hfirst

/-- The header that vault_export_blob writes. -/
theorem exportHeader_ok (hl : l.Laws) (hlen : serial.length = 8) (hvalid : algorithmValid algorithm = true) :
    HeaderOk l kvault (exportHeader l kvault requestedId serial algorithm) ∧
      credentialHashOf (exportHeader l kvault requestedId serial algorithm) =
        l.sha256 requestedId ∧
      algorithmOf (exportHeader l kvault requestedId serial algorithm) = algorithm := by
  have hvault : (hashKvault l kvault).length = 32 := hl.sha256_length _
  have hid : (l.sha256 requestedId).length = 32 := hl.sha256_length _
  have hserial : (serial ++ List.replicate 8 (0 : BitVec 8)).length = 16 := by
    rw [List.length_append, hlen, List.length_replicate]
  have hgetD {front rest : Data} {x : BitVec 8} {n : Nat} (hn : front.length = n) :
      (front ++ x :: rest).getD n 0 = x := by
    rw [← hn, List.getD_eq_getElem?_getD, List.getElem?_append_right (Nat.le_refl _), Nat.sub_self]
    rfl
  unfold exportHeader
  generalize hv : hashKvault l kvault = vault at hvault
  generalize l.sha256 requestedId = id at hid
  generalize serial ++ List.replicate 8 (0 : BitVec 8) = serial at hserial
  have h1 : (vaultBlobMagic ++ vault).length = 36 := by
    rw [List.length_append, hvault]
    rfl
  have h2 : (vaultBlobMagic ++ vault ++ id).length = 68 := by rw [List.length_append, h1, hid]
  have h4 : (vaultBlobMagic ++ vault ++ id ++ [8] ++ serial).length = 85 := by
    rw [List.length_append, List.length_append, h2, hserial]
    rfl
  have halgorithm : algorithmOf (vaultBlobMagic ++ vault ++ id ++ [8] ++ serial ++ [algorithm]) =
      algorithm := hgetD h4
  refine ⟨⟨?_, ?_, ?_, ?_, ?_⟩, ?_, halgorithm⟩
  · rw [List.length_append, h4]
    rfl
  · simp only [List.append_assoc]
    exact List.take_left' rfl
  · have hmagic : vaultBlobMagic.length = 4 := rfl
    simp only [List.append_assoc]
    rw [List.drop_left' hmagic, List.take_left' hvault, hv]
  · rw [halgorithm, hvalid]
  · have hat : (vaultBlobMagic ++ vault ++ id ++ [8] ++ serial ++ [algorithm]).getD 68 0 = 8 := by
      rw [List.append_assoc _ [8], List.append_assoc _ ([8] ++ serial)]
      exact hgetD h2
    rw [hat]
    decide
  · unfold credentialHashOf
    rw [List.append_assoc, List.append_assoc, List.append_assoc, List.drop_left' h1, List.take_left' hid]

/-- The blobs that are accepted are those that were made with the key of this vault under such a header, and they
are accepted with the plaintext that is in them. The header of vault_export_blob is one. -/
theorem openBlob_iff (hl : l.Laws) (kvault blob plain : Data) :
    (openBlob l (some kvault) blob = some plain ↔
      ∃ header, HeaderOk l kvault header ∧ plain.length ≤ plainMax ∧
        ∃ n0 n1, sealBlob l kvault header plain n0 n1 = some blob) ∧
    ∀ requestedId serial algorithm, serial.length = 8 → algorithmValid algorithm = true →
      HeaderOk l kvault (exportHeader l kvault requestedId serial algorithm) := by
  refine ⟨?_, fun _ _ _ hlen hvalid => (exportHeader_ok hl hlen hvalid).1⟩
  constructor
  · intro hopen
    have hok : HeaderOk l kvault (blob.take headerLen) := by
      have hparts := hopen
      unfold openBlob at hparts
      dsimp only at hparts
      rw [Option.bind_some] at hparts
      split_ifs at hparts with hshort hmagic hvalid hcut hvault
      all_goals
        have hvalid' := not_or.mp hvalid
        unfold headerLen at hshort
        refine ⟨?_, ?_, ?_, ?_, ?_⟩
        · rw [List.length_take]
          unfold headerLen
          omega
        · rw [List.take_take]
          exact not_not.mp hmagic
        · rw [List.drop_take, List.take_take]
          exact not_not.mp hvault
        · exact Bool.not_eq_false _ ▸ hvalid'.1
        · have hsame : (blob.take headerLen).getD 68 0 = blob.getD 68 0 := by
            rw [List.getD_eq_getElem?_getD, List.getElem?_take_of_lt (by decide), List.getD_eq_getElem?_getD]
          rw [hsame]
          exact Nat.not_lt.mp hvalid'.2
    have hsplit : blob = blob.take headerLen ++ blob.drop headerLen := (List.take_append_drop _ _).symm
    rw [hsplit, openBlob_eq hok] at hopen
    obtain ⟨hmax, n0, n1, hsealed⟩ := (openLayers_iff hl _).mp hopen
    rw [List.take_append_drop] at hsealed
    exact ⟨_, hok, hmax, n0, n1, hsealed⟩
  · intro ⟨header, hok, hmax, n0, n1, hsealed⟩
    obtain ⟨rest, rfl⟩ := sealBlob_header hsealed
    rw [openBlob_eq hok]
    exact (openLayers_iff hl rest).mpr ⟨hmax, n0, n1, hsealed⟩

end Opening

/-! A cipher that leaves the text as it is. -/

def zeros (n : Nat) : Data := List.replicate n 0

def plainLibrary : Library where
  sha256 _ := zeros 32
  hkdf _ _ _ := zeros 32
  encryptAndTag _ _ _ _ input := (input, zeros 16)
  authDecrypt _ _ _ _ input tag := if tag = zeros 16 then some input else none

theorem plainLibrary_laws : plainLibrary.Laws where
  sha256_length _ := rfl
  cipher_length _ _ _ _ _ := rfl
  tag_length _ _ _ _ _ := rfl
  decrypt_iff _ _ _ _ input tag plain := by
    show (if tag = zeros 16 then some input else none) = some plain ↔ (plain, zeros 16) = (input, tag)
    rw [Prod.mk.injEq]
    constructor
    · intro h
      split_ifs at h with htag
      exact ⟨(Option.some.inj h).symm, htag.symm⟩
    · intro ⟨hinput, htag⟩
      rw [if_pos htag.symm, hinput]

/-- One byte in the two layers of algorithm 3. -/
def sampleBlob : Data :=
  vaultBlobMagic ++ zeros 64 ++ [8] ++ zeros 16 ++ [3] ++ zeros 24 ++ [2] ++ zeros 32

theorem openBlob_sampleBlob : ∃ header, HeaderOk plainLibrary [] header ∧ [2].length ≤ plainMax ∧
    ∃ n0 n1, sealBlob plainLibrary [] header [2] n0 n1 = some sampleBlob :=
  (openBlob_iff plainLibrary_laws [] sampleBlob [2]).1.mp (by decide +kernel)

end KeyWallet.Cred.VaultBlob
