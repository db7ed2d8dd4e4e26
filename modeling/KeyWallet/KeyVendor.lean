import KeyWallet.KeyDevice

/-! The vendor commands that lock the device key away and bring it back: the secure channel and the
unlock of cbor_vendor.c, AUT_ENABLE and AUT_DISABLE of cbor_config.c. -/
namespace KeyWallet

open CrashProgram

/-- CTAP_VENDOR_MSE: a key agreement opens the channel; a second one closes it. -/
def vendorMse (d : Device) (kax kay : Option Bytes) (alg : Int) : Fido Unit := do
  let v ← readVars
  if v.mse.isSome then
    setting fun v => { v with mse := none }
    Prog.fail .notAllowed
  else
    match kax, kay with
    | some x, some y =>
      if alg = 0 then
        Prog.fail .missingParameter
      else
        setting fun v => { v with drawn := v.drawn + 1 }
        match d.mseKey v.drawn x y with
        | none => Prog.fail .invalidParameter
        | some channel => setting fun v => { v with mse := some channel }
    | _, _ => Prog.fail .missingParameter

/-- mse_decrypt_ct over a parameter of 32 bytes and a tag; whatever comes out, the channel is
closed. Unlock and AUT_ENABLE begin with the same checks. -/
def mseDecryptCt (d : Device) (param : Option Bytes) : Fido Bytes := do
  let v ← readVars
  match v.mse, param with
  | none, _ => Prog.fail .notAllowed
  | some _, none => Prog.fail .invalidParameter
  | some channel, some data =>
    if data.length ≠ 32 + 16 then
      Prog.fail .invalidParameter
    else
      setting fun v => { v with mse := none }
      match d.mseOpen channel data with
      | none => Prog.fail .invalidParameter
      | some key => pure key

/-- CTAP_VENDOR_UNLOCK: the locked key goes to RAM. A decryption that fails wipes its output. -/
def vendorUnlock (d : Device) (b : Beyond) (param : Option Bytes) : Fido Unit := do
  let lockKey ← mseDecryptCt d param
  let enc ← readFile .efKeyDevEnc
  if fileHasData enc = false then
    Prog.fail .integrityFailure
  else
    match d.chachaDecrypt lockKey (readRaw b.flash enc 0 12) (readRaw b.flash enc 12 32)
        (readRaw b.flash enc (fileGetSize enc - 16) 16) with
    | none =>
      setting fun v => { v with keydevDec := List.replicate 32 0 }
      Prog.fail .invalidParameter
    | some key => setting fun v => { v with keydevDec := key, hasKeydevDec := true }

/-- CTAP_CONFIG_AUT_DISABLE. `authorized` is the outcome of the checks that every authenticatorConfig
request passes first. The flag of the wiped RAM copy stays set. -/
def autDisable (authorized : Bool) : Fido Unit := do
  if authorized = false then
    Prog.fail .pinAuthInvalid
  else
    let enc ← readFile .efKeyDevEnc
    let v ← readVars
    if fileHasData enc = false then
      Prog.fail .notAllowed
    else if v.hasKeydevDec = false then
      Prog.fail .pinAuthInvalid
    else
      filePutData .efKeyDev v.keydevDec
      setting fun v => { v with keydevDec := List.replicate 32 0 }
      filePutData .efKeyDevEnc []
      flashCommit

/-- CTAP_CONFIG_AUT_ENABLE. The buffer has room for a raw key: of a longer file nonce, ciphertext
and tag do not fit into it, and only its 60 bytes are stored. -/
def autEnable (d : Device) (b : Beyond) (authorized : Bool) (param : Option Bytes) : Fido Unit := do
  if authorized = false then
    Prog.fail .pinAuthInvalid
  else
    let ef ← readFile .efKeyDev
    if fileHasData ef = false then
      Prog.fail .notAllowed
    else
      let lockKey ← mseDecryptCt d param
      let nonce ← randomFill d 12
      let sealed := nonce ++ d.chachaEncrypt lockKey (fileBytes ef) nonce
      filePutData .efKeyDevEnc (readRaw b.stack (some ⟨sealed, []⟩) 0 60)
      -- the wiped buffer overwrites the file before it is emptied
      filePutData .efKeyDev (readRaw b.stack (some ⟨List.replicate 60 0, []⟩) 0 (fileGetSize ef))
      filePutData .efKeyDev []
      flashCommit

end KeyWallet
