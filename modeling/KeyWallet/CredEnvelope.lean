import KeyWallet.KeyDevice
import Mathlib.Algebra.Order.Ring.Nat

/-! Credential ids as credential_verify and credential_load take them apart: the lengths that are
subtracted from the length of the id, and what reaches the AEAD. -/
namespace KeyWallet.Envelope

def credProtoLen : Nat := 4
def credIvLen : Nat := 12
def credTagLen : Nat := 16
def credSilentTagLen : Nat := 16
def credCiphertextOffset : Nat := credProtoLen + credIvLen
def credEnvelopeOverhead : Nat := credCiphertextOffset + credTagLen
def credSilentEnvelopeOverhead : Nat := credEnvelopeOverhead + credSilentTagLen

def keyHandleLen : Nat := 64

/-- cred_proto_t. -/
inductive Proto
  | proto21
  | proto22
  | proto25
  deriving DecidableEq, Repr

/-- CRED_PROTO_22_S and CRED_PROTO_25_S. -/
def magic (version : Byte) : Bytes := [0xf1, 0xd0, 0x02, version]

/-- The format as credential_verify takes it: both formats with a silent tag are handled as 25. -/
def detectProto (credId : Bytes) : Proto :=
  if credId.take credProtoLen = magic 0x02 ∨ credId.take credProtoLen = magic 0x05 then .proto25
  else .proto21

/-- A subtraction of two values of type size_t. -/
def sizeSub (a b : Nat) : Nat := (a + 2 ^ 32 - b) % 2 ^ 32

/-- A call of mbedtls_chachapoly_auth_decrypt on the buffer, in place. -/
structure AeadCall where
  length : Nat
  key : Bytes
  iv : Bytes
  rpIdHash : Bytes
  buffer : Bytes
  tagAt : Nat
  cipherAt : Nat
  deriving DecidableEq, Repr

/-- The primitives; an AEAD call gives its result and the buffer it leaves. -/
structure Primitives where
  deriveChachaKey : Bytes → Bytes
  authDecrypt : AeadCall → Int × Bytes
  silentTag : (record rpIdHash : Bytes) → Bytes
  verifyKey : (rpIdHash keyHandle : Bytes) → Int

/-- What a call did: its result, the subtractions of lengths, the calls of the AEAD and the buffer. -/
structure Verdict where
  ret : Int
  subtractions : List (Nat × Nat)
  aead : List AeadCall
  buffer : Bytes
  deriving DecidableEq, Repr

def credentialVerify (p : Primitives) (credId rpIdHash : Bytes) (silent : Bool) : Verdict :=
  let len := credId.length
  if len < credEnvelopeOverhead then ⟨-1, [], [], credId⟩
  else
    let proto := detectProto credId
    let tagged := proto = .proto22 ∨ proto = .proto25
    -- the pointer to the tag is computed from the end, and again for the formats with a silent tag
    let tagBack := if proto = .proto25 then credSilentTagLen + credTagLen else credTagLen
    let tagSubs := (len, credTagLen) :: (if proto = .proto25 then [(len, tagBack)] else [])
    if silent = false then
      let hdrLen := if tagged then credEnvelopeOverhead + credSilentTagLen else credEnvelopeOverhead
      let call : AeadCall :=
        { length := sizeSub len hdrLen
          key := p.deriveChachaKey (credId.take credProtoLen)
          iv := (credId.drop credProtoLen).take credIvLen
          rpIdHash := rpIdHash
          buffer := credId
          tagAt := sizeSub len tagBack
          cipherAt := credCiphertextOffset }
      let out := p.authDecrypt call
      ⟨out.1, tagSubs ++ [(len, hdrLen)], [call], out.2⟩
    else if proto = .proto21 then ⟨-1, tagSubs, [], credId⟩
    else
      let record := credId.take (sizeSub len credSilentTagLen)
      let same := (p.silentTag record rpIdHash).take credSilentTagLen =
        credId.drop (sizeSub len credSilentTagLen)
      ⟨if same then 0 else 1, tagSubs ++ [(len, credSilentTagLen), (len, credSilentTagLen)], [], credId⟩

/-- credential_load: `parse` reads the CBOR map that starts behind the header, of the given length. A
key handle of U2F is taken where the envelope does not open. -/
def credentialLoad {C : Type} (p : Primitives) (parse : (length : Nat) → Bytes → Option C) (u2f : C)
    (credId rpIdHash : Bytes) : Option C × Verdict :=
  let v := credentialVerify p credId rpIdHash false
  if v.ret ≠ 0 then
    if credId.length ≠ keyHandleLen ∨ p.verifyKey rpIdHash credId ≠ 0 then (none, v)
    else (some u2f, v)
  else
    (parse (sizeSub credId.length credEnvelopeOverhead) (v.buffer.drop credCiphertextOffset),
      { v with subtractions := v.subtractions ++ [(credId.length, credEnvelopeOverhead)] })

/-! What the lengths have to be. -/

/-- The bytes of an id around its ciphertext. -/
def overhead (credId : Bytes) : Nat :=
  if detectProto credId = .proto25 then credSilentEnvelopeOverhead else credEnvelopeOverhead

/-- No subtraction goes below zero, and the AEAD gets the length of the ciphertext. -/
structure Sound (credId : Bytes) (v : Verdict) : Prop where
  subtractions : ∀ s ∈ v.subtractions, s.2 ≤ s.1
  ciphertext : ∀ c ∈ v.aead, c.length + overhead credId = credId.length

/-- An id that says a format with a silent tag, but has no room for it. -/
def CutShort (credId : Bytes) : Prop :=
  detectProto credId = .proto25 ∧ credEnvelopeOverhead ≤ credId.length ∧
    credId.length < credSilentEnvelopeOverhead

instance (credId : Bytes) : Decidable (CutShort credId) := inferInstanceAs (Decidable (_ ∧ _ ∧ _))

section Lengths

variable {p : Primitives} {credId rpIdHash : Bytes}

theorem sizeSub_eq {a b : Nat} (ha : a < 2 ^ 32) (hb : b ≤ a) : sizeSub a b = a - b := by
  have hsum : a + 2 ^ 32 - b = (a - b) + 2 ^ 32 := by omega
  unfold sizeSub
  rw [hsum, Nat.add_mod_right, Nat.mod_eq_of_lt (by omega)]

theorem detectProto_cases (credId : Bytes) :
    detectProto credId = .proto25 ∧ overhead credId = 48 ∨
      detectProto credId = .proto21 ∧ overhead credId = 32 := by
  unfold overhead
  by_cases h : detectProto credId = .proto25
  · exact .inl ⟨h, by rw [if_pos h]; rfl⟩
  · refine .inr ⟨?_, by rw [if_neg h]; rfl⟩
    unfold detectProto at h ⊢
    by_cases hmagic : credId.take credProtoLen = magic 0x02 ∨ credId.take credProtoLen = magic 0x05
    · rw [if_pos hmagic] at h
      exact absurd rfl h
    · rw [if_neg hmagic]

theorem credentialVerify_short (silent : Bool) (h : credId.length < credEnvelopeOverhead) :
    credentialVerify p credId rpIdHash silent = ⟨-1, [], [], credId⟩ := by
  unfold credentialVerify
  dsimp only
  rw [if_pos h]

theorem credentialVerify_sound (silent : Bool) (hlen : credId.length < 2 ^ 32)
    (h : overhead credId ≤ credId.length) : Sound credId (credentialVerify p credId rpIdHash silent) := by
  have hover : credEnvelopeOverhead = 32 := rfl
  have htag : credTagLen = 16 := rfl
  have hsilentTag : credSilentTagLen = 16 := rfl
  have hlong : ¬ credId.length < credEnvelopeOverhead := by
    rcases detectProto_cases credId with ⟨-, hov⟩ | ⟨-, hov⟩ <;> omega
  unfold credentialVerify
  dsimp only
  rw [if_neg hlong]
  rcases detectProto_cases credId with ⟨hproto, hov⟩ | ⟨hproto, hov⟩
  · rw [hproto]
    simp only [reduceCtorEq, or_true, if_true, if_false]
    cases silent with
    | false =>
      rw [if_pos rfl]
      constructor
      · intro s hs
        simp only [List.cons_append, List.nil_append, List.mem_cons, List.not_mem_nil, or_false] at hs
        rcases hs with rfl | rfl | rfl <;> dsimp only <;> omega
      · intro c hc
        rw [List.mem_singleton] at hc
        rw [hc]
        dsimp only
        rw [sizeSub_eq hlen (by omega)]
        omega
    | true =>
      rw [if_neg Bool.noConfusion]
      constructor
      · intro s hs
        simp only [List.cons_append, List.nil_append, List.mem_cons, List.not_mem_nil, or_false] at hs
        rcases hs with rfl | rfl | rfl | rfl <;> dsimp only <;> omega
      · intro c hc
        cases hc
  · rw [hproto]
    simp only [reduceCtorEq, or_false, if_true, if_false]
    cases silent with
    | false =>
      rw [if_pos rfl]
      constructor
      · intro s hs
        simp only [List.cons_append, List.nil_append, List.mem_cons, List.not_mem_nil, or_false] at hs
        rcases hs with rfl | rfl <;> dsimp only <;> omega
      · intro c hc
        rw [List.mem_singleton] at hc
        rw [hc]
        dsimp only
        rw [sizeSub_eq hlen (by omega)]
        omega
    | true =>
      rw [if_neg Bool.noConfusion]
      constructor
      · intro s hs
        rw [List.mem_singleton] at hs
        rw [hs]
        dsimp only
        omega
      · intro c hc
        cases hc

theorem credentialVerify_wraps (h : CutShort credId) :
    (credId.length, credSilentEnvelopeOverhead) ∈
      (credentialVerify p credId rpIdHash false).subtractions := by
  obtain ⟨hproto, hlong, -⟩ := h
  unfold credentialVerify
  dsimp only
  rw [if_neg (by omega), if_pos rfl, hproto]
  exact List.mem_append_right _ (List.mem_singleton.mpr rfl)

theorem credentialLoad_sound {C : Type} {parse : Nat → Bytes → Option C} {u2f : C}
    (hlen : credId.length < 2 ^ 32) (h : overhead credId ≤ credId.length) :
    Sound credId (credentialLoad p parse u2f credId rpIdHash).2 := by
  have hv : Sound credId (credentialVerify p credId rpIdHash false) :=
    credentialVerify_sound false hlen h
  have hover : credEnvelopeOverhead = 32 := rfl
  unfold credentialLoad
  dsimp only
  by_cases hret : (credentialVerify p credId rpIdHash false).ret ≠ 0
  · rw [if_pos hret]
    split_ifs
    · exact hv
    · exact hv
  · rw [if_neg hret]
    refine ⟨?_, hv.ciphertext⟩
    intro s hs
    rcases List.mem_append.mp hs with hs | hs
    · exact hv.subtractions s hs
    · rw [List.mem_singleton] at hs
      rw [hs]
      dsimp only
      rcases detectProto_cases credId with ⟨-, hov⟩ | ⟨-, hov⟩ <;> omega

theorem credentialLoad_short {C : Type} {parse : Nat → Bytes → Option C} {u2f : C}
    (h : credId.length < credEnvelopeOverhead) :
    credentialLoad p parse u2f credId rpIdHash = (none, ⟨-1, [], [], credId⟩) := by
  have hover : credEnvelopeOverhead = 32 := rfl
  have hkey : keyHandleLen = 64 := rfl
  unfold credentialLoad
  rw [credentialVerify_short false h]
  dsimp only
  rw [if_pos (by decide), if_pos (.inl (by omega))]

end Lengths

/-- No subtraction wraps, the AEAD gets the ciphertext and too short an id is turned down, in both modes
of credential_verify and in credential_load. -/
structure Guarded {C : Type} (p : Primitives) (parse : Nat → Bytes → Option C) (u2f : C)
    (credId rpIdHash : Bytes) : Prop where
  verify : ∀ silent, Sound credId (credentialVerify p credId rpIdHash silent)
  verify_short : ∀ silent, credId.length < overhead credId →
    (credentialVerify p credId rpIdHash silent).ret ≠ 0
  load : Sound credId (credentialLoad p parse u2f credId rpIdHash).2
  load_short : credId.length < overhead credId →
    (credentialLoad p parse u2f credId rpIdHash).1 = none

/-- That is so exactly for the ids that are not cut short. -/
theorem guarded_iff {C : Type} (p : Primitives) (parse : Nat → Bytes → Option C) (u2f : C)
    (credId rpIdHash : Bytes) (hlen : credId.length < 2 ^ 32) :
    Guarded p parse u2f credId rpIdHash ↔ ¬ CutShort credId := by
  have hover : credEnvelopeOverhead = 32 := rfl
  have hsilent : credSilentEnvelopeOverhead = 48 := rfl
  constructor
  · intro h hcut
    have hle := (h.verify false).subtractions _ (credentialVerify_wraps hcut)
    have hlt := hcut.2.2
    dsimp only at hle
    omega
  · intro hcut
    by_cases hroom : overhead credId ≤ credId.length
    · refine ⟨fun silent => credentialVerify_sound silent hlen hroom, ?_, credentialLoad_sound hlen hroom, ?_⟩
      · exact fun _ hshort => absurd hroom (Nat.not_le_of_lt hshort)
      · exact fun hshort => absurd hroom (Nat.not_le_of_lt hshort)
    · -- too short for its own format, and not cut short: too short for every format
      have hshort : credId.length < credEnvelopeOverhead := by
        by_contra hlong
        rcases detectProto_cases credId with ⟨hproto, hov⟩ | ⟨-, hov⟩
        · exact hcut ⟨hproto, by omega, by omega⟩
        · omega
      have hnone : Sound credId ⟨-1, [], [], credId⟩ := by
        constructor
        · intro s hs
          cases hs
        · intro c hc
          cases hc
      refine ⟨?_, ?_, ?_, ?_⟩
      · intro silent
        rw [credentialVerify_short silent hshort]
        exact hnone
      · intro silent _
        rw [credentialVerify_short silent hshort]
        show (-1 : Int) ≠ 0
        decide
      · rw [credentialLoad_short hshort]
        exact hnone
      · intro _
        rw [credentialLoad_short hshort]

/-- An AEAD that turns everything down. -/
def refusing : Primitives where
  deriveChachaKey := fun _ => List.replicate 32 0
  authDecrypt := fun c => (-1, c.buffer)
  silentTag := fun _ _ => List.replicate 32 0
  verifyKey := fun _ _ => -1

/-- Forty-eight bytes are enough for the format with a silent tag. -/
theorem guarded_empty_ciphertext :
    Guarded refusing (fun _ _ => some ()) () (magic 0x05 ++ List.replicate 44 0) [] :=
  (guarded_iff refusing (fun _ _ => some ()) () _ [] (by decide)).mpr (by decide)

/-- With forty bytes the AEAD is asked for a ciphertext of nearly four gigabytes. -/
theorem short_id_wraps :
    (credentialVerify refusing (magic 0x05 ++ List.replicate 36 0) [] false).aead.map AeadCall.length =
        [4294967288] ∧
      ¬ Guarded refusing (fun _ _ => some ()) () (magic 0x05 ++ List.replicate 36 0) [] := by
  refine ⟨by decide, ?_⟩
  intro h
  have hle := (h.verify false).subtractions (40, 48) (by decide)
  exact absurd hle (by decide)

end KeyWallet.Envelope
