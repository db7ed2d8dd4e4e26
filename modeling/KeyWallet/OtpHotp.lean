import Mathlib.Data.Nat.ModEq
import KeyWallet.OathStore
import KeyWallet.OtpSlots

/-! The HOTP that a press of the button types, otp.c, and the code that a server computes for the same key and
moving factor. HMAC-SHA1 is a parameter. -/
namespace KeyWallet.Otp

open CrashProgram StepSystem
open CrashProgram.Prog (look vars emit put commit done fail)
open Oath.Store (calculateOath)

def oathHotp8 : Byte := 0x02

namespace Slot

/-- Eight digits instead of six. -/
def isHotp8 (s : Slot) : Bool := has s.config.cfgFlags oathHotp8

def digits (s : Slot) : Nat := if s.isHotp8 then 8 else 6

def base (s : Slot) : Nat := if s.isHotp8 then 100000000 else 1000000

end Slot

def putUint64Be (v : BitVec 64) : Bytes := (List.range 8).map fun i => v.extractLsb' (56 - 8 * i) 8

/-- sprintf of a number with so many digits, zeros in front. -/
def decimal : Nat → Nat → Bytes
  | 0, _ => []
  | width + 1, n => decimal width (n / 10) ++ [BitVec.ofNat 8 (48 + n % 10)]

/-- tmp_key: the algorithm, a byte that is not set, and the key of the slot. -/
def tmpKey (unset : Byte) (s : Slot) : Bytes := 0x01 :: unset :: s.config.aesKey

/-- The response that calculate_oath leaves. -/
def responseOf (hmac : Nat → Bytes → Bytes → Bytes) (unset : Byte) (s : Slot) : Option Bytes :=
  (calculateOath hmac true (tmpKey unset s) (putUint64Be s.movingFactor)).map fun code =>
    5 :: (tmpKey unset s).getD 1 0 :: code

/-- The number that is typed: two bytes of the response. -/
def typedNumber (s : Slot) (response : Bytes) : Nat :=
  ((response.getD 2 0).toNat * 256 + (response.getD 3 0).toNat) % s.base

/-- What the press hands to the keyboard. -/
def typedText (hmac : Nat → Bytes → Bytes → Bytes) (unset : Byte) (s : Slot) : Option Bytes :=
  (responseOf hmac unset s).map fun response => decimal s.digits (typedNumber s response)

/-! The code of a server. -/

/-- The dynamic truncation of a digest of 20 bytes: 31 bits from the offset that its last byte gives. -/
def truncated (digest : Bytes) : Nat :=
  let offset := (digest.getD 19 0).toNat % 16
  (digest.getD offset 0).toNat % 128 * 16777216 + (digest.getD (offset + 1) 0).toNat * 65536 +
    (digest.getD (offset + 2) 0).toNat * 256 + (digest.getD (offset + 3) 0).toNat

/-- DT(HMAC-SHA1(K, c)). -/
def codeOf (hmac : Nat → Bytes → Bytes → Bytes) (s : Slot) : Nat :=
  truncated (hmac 1 s.config.aesKey (putUint64Be s.movingFactor))

def serverText (hmac : Nat → Bytes → Bytes → Bytes) (s : Slot) : Bytes := decimal s.digits (codeOf hmac s % s.base)

/-! What the storage does with the store of a press. -/

def happens : Reply → Bool
  | .ok => true
  | .refused happened => happened
  | .powerLoss => false

/-- The new counter is in the flash when the press is over. -/
def sticks (legacy : Bool) (replies : List Reply) : Bool :=
  let second := replies.tail.headD .ok
  happens (replies.headD .ok) &&
    (happens second ||
      -- a container write that could not be committed is committed at the end of the press
      (!legacy && replies.headD .ok == .ok && second == .refused false && happens (replies.tail.tail.headD .ok)))

/-- A press has typed one thing, for the counter of this slot and with these digits. -/
def TypesCode (hmac : Nat → Bytes → Bytes → Bytes) (unset : Byte) (s : Slot) (before after : OtpMachine) : Prop :=
  ∃ flash, after.log = before.log ++ [(.hotp s s.movingFactor, flash)] ∧
    typedText hmac unset s = some (serverText hmac s)

/-- What has been typed since. -/
def typedSince (before after : OtpMachine) : List (Typed × (Unit → Bank)) := after.log.drop before.log.length

/-- The next press does not type a code for the same counter, whether the cache is written back or the power lost
before it. -/
def MovesOn (k : Index) (s : Slot) (m : OtpMachine) : Prop :=
  ∀ between : List Input, (∀ i ∈ between, i = .drain ∨ i = .powerCycle) →
    ∀ reads replies, ∀ e ∈ typedSince (run step m between) (step (run step m between) (.press reads k replies)),
      ∀ s' : Slot, e.1 ≠ .hotp s' s.movingFactor

/-! The digits. -/

theorem decimal_injective (width n n' : Nat) (h : decimal width n = decimal width n') :
    n % 10 ^ width = n' % 10 ^ width := by
  induction width generalizing n n' with
  | zero => rw [Nat.pow_zero, Nat.mod_one, Nat.mod_one]
  | succ width ih =>
    obtain ⟨hinit, hlast⟩ := List.append_inj' h rfl
    have hdigit := congrArg BitVec.toNat (List.singleton_inj.mp hlast)
    simp only [BitVec.toNat_ofNat] at hdigit
    have hmod : n % 10 = n' % 10 := by omega
    rw [Nat.pow_succ', Nat.mod_mul, Nat.mod_mul, ih _ _ hinit, hmod]

theorem base_eq (s : Slot) : s.base = 10 ^ s.digits := by
  unfold Slot.base Slot.digits
  split_ifs <;> rfl

theorem decimal_iff (s : Slot) (n n' : Nat) (hn : n < s.base) (hn' : n' < s.base) :
    decimal s.digits n = decimal s.digits n' ↔ n = n' := by
  constructor
  · intro h
    have hmod := decimal_injective _ _ _ h
    rw [← base_eq, Nat.mod_eq_of_lt hn, Nat.mod_eq_of_lt hn'] at hmod
    exact hmod
  · exact fun h => congrArg _ h

theorem and_mask (b : Byte) : (b &&& 0x7f).toNat = b.toNat % 128 := by
  rw [BitVec.toNat_and]
  exact Nat.and_two_pow_sub_one_eq_mod b.toNat 7

theorem typedText_eq (hmac : Nat → Bytes → Bytes → Bytes) (unset : Byte) (s : Slot) :
    typedText hmac unset s = some (decimal s.digits (codeOf hmac s / 65536 % s.base)) := by
  have hnumber (digest : Bytes) (offset : Nat) (hoffset : offset = (digest.getD 19 0).toNat % 16) :
      (digest.getD offset 0 &&& 0x7f).toNat * 256 + (digest.getD (offset + 1) 0).toNat = truncated digest / 65536 := by
    have h1 := (digest.getD (offset + 1) 0).isLt
    have h2 := (digest.getD (offset + 2) 0).isLt
    have h3 := (digest.getD (offset + 3) 0).isLt
    rw [and_mask]
    simp only [truncated, ← hoffset]
    omega
  have hcode := hnumber (hmac 1 s.config.aesKey (putUint64Be s.movingFactor)) _ rfl
  unfold codeOf
  rw [← hcode]
  rfl

theorem typedText_right_iff (hmac : Nat → Bytes → Bytes → Bytes) (unset : Byte) (s : Slot) :
    typedText hmac unset s = some (serverText hmac s) ↔ s.base ∣ codeOf hmac s - codeOf hmac s / 65536 := by
  have hpos : 0 < s.base := by
    unfold Slot.base
    split_ifs <;> decide
  rw [typedText_eq, serverText, Option.some.injEq,
    decimal_iff s _ _ (Nat.mod_lt _ hpos) (Nat.mod_lt _ hpos)]
  exact Nat.modEq_iff_dvd' (Nat.div_le_self _ _)

/-! The counter. -/

theorem movingFactor_next (s : Slot) (legacy : Bool) :
    (⟨legacy, s.config, some (s.movingFactor + 1)⟩ : Slot).movingFactor ≠ s.movingFactor := by
  intro h
  by_cases hwrap : s.movingFactor + 1 = 0
  · -- the counter behind the last one is the first of the configuration
    have hfirst : (⟨legacy, s.config, some (s.movingFactor + 1)⟩ : Slot).movingFactor =
        BitVec.ofNat 64 ((s.config.uid.getD 4 0).toNat * 256 + (s.config.uid.getD 5 0).toNat) := if_pos hwrap
    have h4 := (s.config.uid.getD 4 0).isLt
    have h5 := (s.config.uid.getD 5 0).isLt
    rw [hfirst] at h
    rw [← h] at hwrap
    have hnat := congrArg BitVec.toNat hwrap
    simp only [BitVec.toNat_add, BitVec.toNat_ofNat, BitVec.ofNat_eq_ofNat] at hnat
    omega
  · have hnext : (⟨legacy, s.config, some (s.movingFactor + 1)⟩ : Slot).movingFactor = s.movingFactor + 1 :=
      if_neg hwrap
    rw [hnext] at h
    have hnat := congrArg BitVec.toNat h
    have hlt := s.movingFactor.isLt
    simp only [BitVec.toNat_add, BitVec.ofNat_eq_ofNat, BitVec.toNat_ofNat] at hnat
    omega

/-! The store of a press. -/

/-- From the store of a slot to the end of the press. -/
def storeAfter (k : Index) (config : Config) (extra : Option (BitVec 64)) : OtpProg Unit := do
  let _ ← slotStore k config extra
  commitLater

/-- The slot is what is read and what is in the flash; nothing has been typed. -/
def Stored (k : Index) (s : Slot) (before n : OtpMachine) : Prop :=
  n.log = before.log ∧ n.view () k = some s ∧ n.flash () k = some s

/-- The flash still holds the slot as it was. -/
def Kept (k : Index) (s : Slot) (before n : OtpMachine) : Prop := n.log = before.log ∧ n.flash () k = some s

theorem storeAfter_outcome (k : Index) (config : Config) (extra : Option (BitVec 64)) (m : OtpMachine) (s : Slot)
    (hview : m.view () k = some s) (hflash : m.flash () k = some s) (legacy : Bool)
    (hlegacy : (m.view ()).isLegacy k = legacy) (replies : List Reply) :
    (sticks legacy replies = true ∧
        Stored k ⟨legacy, config, extra⟩ m (after (exec (storeAfter k config extra) m replies))) ∨
      (sticks legacy replies = false ∧ Kept k s m (after (exec (storeAfter k config extra) m replies))) := by
  -- the machine with the slot written, and what may become of it
  let w := m.write () (Function.update (m.view ()) k (some ⟨legacy, config, extra⟩))
  have hw : w.view () k = some ⟨legacy, config, extra⟩ := by
    have hv : w.view () = Function.update (m.view ()) k (some ⟨legacy, config, extra⟩) := view_write m _
    rw [hv, Function.update_self]
  have hsync : Stored k ⟨legacy, config, extra⟩ m w.sync := ⟨rfl, hw, hw⟩
  have hlost : Kept k s m (m.reboot {}) := ⟨rfl, hflash⟩
  have hlostw : Kept k s m (w.reboot {}) := ⟨rfl, hflash⟩
  have hkept : Kept k s m m := ⟨rfl, hflash⟩
  have hkeptw : Kept k s m w := ⟨rfl, hflash⟩
  have hkeptsync : Kept k s m m.sync := ⟨rfl, hview⟩
  unfold storeAfter slotStore commitLater
  simp only [bind_eq, Prog.bind, exec, hlegacy]
  rcases replies with _ | ⟨first, rest⟩
  · cases legacy <;> exact .inl ⟨rfl, hsync⟩
  · cases first with
    | powerLoss => exact .inr ⟨rfl, hlost⟩
    | refused happened =>
      cases happened with
      | false =>
        rcases rest with _ | ⟨second, rest⟩
        · exact .inr ⟨rfl, hkeptsync⟩
        · rcases second with _ | (_ | _) | _
          · exact .inr ⟨rfl, hkeptsync⟩
          · exact .inr ⟨rfl, hkept⟩
          · exact .inr ⟨rfl, hkeptsync⟩
          · exact .inr ⟨rfl, hlost⟩
      | true =>
        rcases rest with _ | ⟨second, rest⟩
        · exact .inl ⟨rfl, hsync⟩
        · rcases second with _ | (_ | _) | _
          · exact .inl ⟨rfl, hsync⟩
          · refine .inr ⟨?_, hkeptw⟩
            cases legacy <;> rfl
          · exact .inl ⟨rfl, hsync⟩
          · refine .inr ⟨?_, hlostw⟩
            cases legacy <;> rfl
    | ok =>
      cases legacy with
      | true =>
        rcases rest with _ | ⟨second, rest⟩
        · exact .inl ⟨rfl, hsync⟩
        · rcases second with _ | (_ | _) | _
          · exact .inl ⟨rfl, hsync⟩
          · exact .inr ⟨rfl, hkeptw⟩
          · exact .inl ⟨rfl, hsync⟩
          · exact .inr ⟨rfl, hlostw⟩
      | false =>
        rcases rest with _ | ⟨second, rest⟩
        · exact .inl ⟨rfl, hsync⟩
        · rcases second with _ | (_ | _) | _
          · rcases rest with _ | ⟨third, rest⟩
            · exact .inl ⟨rfl, hsync⟩
            · rcases third with _ | (_ | _) | _ <;> exact .inl ⟨rfl, hsync⟩
          · -- the commit at the end of the press makes up for the one of the container
            rcases rest with _ | ⟨third, rest⟩
            · exact .inl ⟨rfl, hsync⟩
            · rcases third with _ | (_ | _) | _
              · exact .inl ⟨rfl, hsync⟩
              · exact .inr ⟨rfl, hkeptw⟩
              · exact .inl ⟨rfl, hsync⟩
              · exact .inr ⟨rfl, hlostw⟩
          · rcases rest with _ | ⟨third, rest⟩
            · exact .inl ⟨rfl, hsync⟩
            · rcases third with _ | (_ | _) | _ <;> exact .inl ⟨rfl, hsync⟩
          · exact .inr ⟨rfl, hlostw⟩

theorem storeAfter_spec (k : Index) (config : Config) (extra : Option (BitVec 64)) (m : OtpMachine) (s : Slot)
    (hview : m.view () k = some s) (hflash : m.flash () k = some s) (replies : List Reply) :
    (sticks s.legacy replies = true ∧
        Stored k ⟨s.legacy, config, extra⟩ m (after (exec (storeAfter k config extra) m replies))) ∨
      (sticks s.legacy replies = false ∧ Kept k s m (after (exec (storeAfter k config extra) m replies))) := by
  have hlegacy : (m.view ()).isLegacy k = s.legacy := by
    unfold Bank.isLegacy
    rw [hview]
    rfl
  exact storeAfter_outcome k config extra m s hview hflash s.legacy hlegacy replies

/-! A HOTP slot is left alone until its press stores it. -/
section Press

variable {k : Index} {s : Slot} {m₀ m n : OtpMachine}

theorem Stored.other (h : Stored k s m₀ m) {j : Index} (hj : j ≠ k) (config : Config) (extra : Option (BitVec 64)) :
    Stored k s m₀ (m.write () (storedBank (m.view ()) j config extra)) := by
  refine ⟨h.1, ?_, h.2.2⟩
  rw [view_write, storedBank_other _ _ _ (Ne.symm hj)]
  exact h.2.1

theorem Stored.sync (h : Stored k s m₀ m) : Stored k s m₀ m.sync := ⟨h.1, h.2.1, h.2.1⟩

theorem Stored.reboot (h : Stored k s m₀ m) : Stored k s m₀ (m.reboot {}) := ⟨h.1, h.2.2, h.2.2⟩

theorem Stored.refl (hview : m.view () k = some s) (hflash : m.flash () k = some s) : Stored k s m m :=
  ⟨rfl, hview, hflash⟩

theorem slotStore_keeps (h : Stored k s m₀ m) {j : Index} (hj : j ≠ k) (config : Config) (extra : Option (BitVec 64)) :
    wp .all (slotStore j config extra) (fun _ => Stored k s m₀) (fun _ _ => False) (Stored k s m₀) m := by
  have hwritten := h.other hj config extra
  refine wp_mono (slotStore_spec config extra) ?_ ?_ ?_
  · intro ok n' hr
    obtain rfl | rfl | rfl := hr.1
    · exact h
    · exact hwritten
    · exact hwritten.sync
  · exact fun _ _ hfalse => hfalse
  · intro n' hr
    obtain rfl | rfl := hr
    · exact h
    · exact hwritten

theorem slotStoreTries_keeps {j : Index} (hj : j ≠ k) (config : Config) (extra : Option (BitVec 64)) (tries : Nat) :
    ∀ {m : OtpMachine}, Stored k s m₀ m →
      wp .all (slotStoreTries j config extra tries) (fun _ => Stored k s m₀) (fun _ _ => False) (Stored k s m₀) m := by
  induction tries with
  | zero => exact fun h => h
  | succ tries ih =>
    intro m h
    unfold slotStoreTries
    rw [wp_bind]
    refine wp_mono (slotStore_keeps h hj config extra) ?_ ?_ ?_
    · intro ok n' hn'
      cases ok with
      | true => exact hn'
      | false => exact ih hn'
    · exact fun _ _ hfalse => hfalse
    · exact fun _ hn => hn

theorem advanceAll_keeps (hhotp : s.isHotp = true) (reads : Reads) (ks : List Index) :
    ∀ {m : OtpMachine}, Stored k s m₀ m →
      wp .all (advanceAll reads ks) (fun _ => Stored k s m₀) (fun _ _ => False) (Stored k s m₀) m := by
  induction ks with
  | nil => exact fun h => h
  | cons j ks ih =>
    intro m h
    unfold advanceAll
    dsimp only [wp]
    cases hj : m.view () j with
    | none => exact ih h
    | some t =>
      dsimp only
      by_cases hadvances : (reads.load j && advances t) = true
      · rw [if_pos hadvances, wp_bind]
        have hother : j ≠ k := by
          intro hjk
          rw [hjk, h.2.1] at hj
          have hst : s = t := Option.some.inj hj
          have hnot : advances s = false := by
            unfold advances Slot.isYubico
            rw [hhotp]
            simp
          rw [← hst, hnot, Bool.and_false] at hadvances
          cases hadvances
        refine wp_mono (slotStoreTries_keeps hother _ _ _ h) ?_ ?_ ?_
        · intro stored n' hn'
          cases stored with
          | true => exact ih hn'
          | false => exact hn'
        · exact fun _ _ hfalse => hfalse
        · exact fun _ hn => hn
      · rw [if_neg hadvances]
        exact ih h

theorem initOtp_keeps (hhotp : s.isHotp = true) (reads : Reads) (h : Stored k s m₀ m) :
    wp .all (initOtp reads) (fun _ => Stored k s m₀) (fun _ _ => False) (Stored k s m₀) m := by
  unfold initOtp
  dsimp only [wp]
  by_cases hscanned : (m.vars.scanned || !reads.migrated) = true
  · rw [if_pos hscanned]
    exact h
  · rw [if_neg hscanned, wp_bind]
    refine wp_mono (advanceAll_keeps hhotp reads _ h) ?_ ?_ ?_
    · intro all n' hn'
      cases all with
      | true => exact ⟨hn', hn'.sync, fun _ => ⟨hn', hn'.sync⟩⟩
      | false => exact hn'
    · exact fun _ _ hfalse => hfalse
    · exact fun _ hn => hn

theorem press_eq (reads : Reads) (rs rs₀ : List Reply) (hinit : exec (initOtp reads) m rs = (.done (), n, rs₀))
    (hview : n.view () k = some s) (hstatus : reads.status k = true) (hload : reads.load k = true)
    (hchal : s.isChalResp = false) (hhotp : s.isHotp = true) :
    step m (.press reads k rs) =
      after (exec (storeAfter k s.config (some (s.movingFactor + 1))) (n.record (.hotp s s.movingFactor)) rs₀) := by
  have hprog : exec (buttonPressed reads k) m rs =
      exec (storeAfter k s.config (some (s.movingFactor + 1))) (n.record (.hotp s s.movingFactor)) rs₀ := by
    unfold buttonPressed
    rw [bind_eq, exec_bind_done hinit]
    simp only [exec, hview, hstatus, hload, hchal, hhotp]
    rfl
  exact congrArg after hprog

theorem slotStore_silent (j : Index) (config : Config) (extra : Option (BitVec 64)) :
    Confined (fun _ _ => True) (fun _ _ => True) (slotStore j config extra) := by
  intro v b
  refine ⟨trivial, ?_⟩
  intro stored
  cases stored with
  | false => exact trivial
  | true =>
    dsimp only
    rw [if_pos rfl]
    split_ifs
    · exact trivial
    · exact fun _ => trivial

/-- Nothing but this has been typed since. -/
def Only (e : Typed) (before n : OtpMachine) : Prop := ∀ x ∈ typedSince before n, x.1 = e

theorem only_stored (e : Typed) (h : Stored k s m n) : Only e m n := by
  intro x hx
  unfold typedSince at hx
  rw [h.1, List.drop_length] at hx
  cases hx

theorem only_record (e : Typed) (h : Stored k s m n) : Only e m (n.record e) := by
  intro x hx
  unfold typedSince at hx
  rw [Machine.record_log, h.1, List.drop_left, List.mem_singleton] at hx
  rw [hx]

theorem press_only (hhotp : s.isHotp = true) (reads : Reads) (h : Stored k s m m) :
    wp .all (buttonPressed reads k) (fun _ => Only (.hotp s s.movingFactor) m)
      (fun _ => Only (.hotp s s.movingFactor) m) (Only (.hotp s s.movingFactor) m) m := by
  unfold buttonPressed
  rw [bind_eq, wp_bind]
  refine wp_mono (initOtp_keeps hhotp reads h) ?_ ?_ ?_
  · intro _ n hn
    dsimp only [wp]
    rw [hn.2.1]
    dsimp only
    by_cases hrefused : (!reads.status k || !reads.load k || s.isChalResp) = true
    · rw [if_pos hrefused]
      exact only_stored _ hn
    · rw [if_neg hrefused, if_pos hhotp]
      have hsilent : Confined (fun _ _ => True) (fun _ _ => True)
          (storeAfter k s.config (some (s.movingFactor + 1))) :=
        (slotStore_silent k s.config _).bind fun _ _ => trivial
      -- behind the event nothing is typed any more
      exact wp_confined (I := Only (.hotp s s.movingFactor) m) (fun _ _ _ _ hi => hi) (fun _ _ hi => hi)
        (fun _ hi => hi) (fun _ _ _ hi => hi) hsilent (only_record _ hn)
  · exact fun _ _ hfalse => hfalse.elim
  · exact fun _ hn => only_stored _ hn

theorem only_after {e : Typed} {r : Outcome Err Unit × OtpMachine × List Reply} (h : Only e m r.2.1) :
    Only e m (after r) := by
  unfold after
  split <;> exact h

theorem step_only (hhotp : s.isHotp = true) (reads : Reads) (rs : List Reply) (h : Stored k s m m) :
    Only (.hotp s s.movingFactor) m (step m (.press reads k rs)) :=
  only_after (wp_sound (press_only hhotp reads h) trivial rs (.inl trivial)).machine

theorem between_keeps (between : List Input) (hbetween : ∀ i ∈ between, i = .drain ∨ i = .powerCycle)
    (h : Stored k s m₀ m) : Stored k s m₀ (run step m between) := by
  induction between generalizing m with
  | nil => exact h
  | cons i between ih =>
    have hrest : ∀ j ∈ between, j = .drain ∨ j = .powerCycle := fun j hj => hbetween j (List.mem_cons_of_mem _ hj)
    obtain rfl | rfl := hbetween i List.mem_cons_self
    · exact ih hrest h.sync
    · exact ih hrest h.reboot

theorem movesOn_of_stored (hhotp : s.isHotp = true)
    (h : Stored k ⟨s.legacy, s.config, some (s.movingFactor + 1)⟩ m₀ m) : MovesOn k s m := by
  intro between hbetween reads replies e he s' hsame
  have hkept := between_keeps between hbetween h
  have hhotp' : (⟨s.legacy, s.config, some (s.movingFactor + 1)⟩ : Slot).isHotp = true := hhotp
  have htyped := step_only hhotp' reads replies (Stored.refl hkept.2.1 hkept.2.2) e he
  rw [hsame] at htyped
  obtain ⟨-, hfactor⟩ := Typed.hotp.inj htyped
  exact movingFactor_next s s.legacy hfactor.symm

theorem calm_press (hchal : s.isChalResp = false) (hhotp : s.isHotp = true) (h : Stored k s m m) :
    ∃ flash, (.hotp s s.movingFactor, flash) ∈ typedSince m (step m (.press {} k [])) := by
  have hcalm : calm (initOtp {}) (fun _ => Stored k s m) (fun _ _ => False) m :=
    calm_of_wp (initOtp_keeps hhotp {} h)
  obtain ⟨hdone, hstart⟩ := calm_ok hcalm
  rcases hrun : exec (initOtp {}) m [] with ⟨r, n, rs₀⟩
  rw [hrun] at hdone hstart
  dsimp only at hdone hstart
  rw [hdone] at hrun
  have hrecorded : (n.record (.hotp s s.movingFactor)).log = m.log ++ [(Typed.hotp s s.movingFactor, n.flash)] := by
    rw [Machine.record_log, hstart.1]
  have hlog : (step m (.press {} k [])).log = m.log ++ [(Typed.hotp s s.movingFactor, n.flash)] := by
    rw [press_eq {} [] rs₀ hrun hstart.2.1 rfl rfl hchal hhotp, ← hrecorded]
    obtain ⟨-, hstored⟩ | ⟨-, hkept⟩ := storeAfter_spec k s.config (some (s.movingFactor + 1))
      (n.record (.hotp s s.movingFactor)) s hstart.2.1 hstart.2.2 rs₀
    · exact hstored.1
    · exact hkept.1
  refine ⟨n.flash, ?_⟩
  unfold typedSince
  rw [hlog, List.drop_left]
  exact List.mem_singleton_self _

theorem not_movesOn_of_kept (m₀ : OtpMachine) (hchal : s.isChalResp = false) (hhotp : s.isHotp = true)
    (h : Kept k s m₀ m) :
    ¬ MovesOn k s m := by
  intro hmoves
  obtain ⟨flash, hmem⟩ := calm_press (m := m.reboot {}) hchal hhotp (Stored.refl h.2 h.2)
  refine hmoves [.powerCycle] ?_ {} [] _ hmem s rfl
  intro i hi
  exact .inr (List.mem_singleton.mp hi)

/-- A press types the code of the server and moves on, exactly where the lower half of the truncated digest changes
no digit and the new counter is stored. -/
theorem hotp_press_iff (hmac : Nat → Bytes → Bytes → Bytes) (unset : Byte) (reads : Reads) (rs rs₀ : List Reply)
    (hview : m.view () k = some s) (hflash : m.flash () k = some s)
    (hinit : exec (initOtp reads) m rs = (.done (), n, rs₀))
    (hstatus : reads.status k = true) (hload : reads.load k = true)
    (hchal : s.isChalResp = false) (hhotp : s.isHotp = true) :
    (TypesCode hmac unset s m (step m (.press reads k rs)) ∧ MovesOn k s (step m (.press reads k rs))) ↔
      s.base ∣ codeOf hmac s - codeOf hmac s / 65536 ∧ sticks s.legacy rs₀ = true := by
  have hstart : Stored k s m n := by
    have hends := wp_sound (initOtp_keeps hhotp reads (Stored.refl hview hflash)) trivial rs (.inl trivial)
    rw [hinit] at hends
    exact hends
  rw [press_eq reads rs rs₀ hinit hstart.2.1 hstatus hload hchal hhotp]
  have hlog : (n.record (.hotp s s.movingFactor)).log = m.log ++ [(Typed.hotp s s.movingFactor, n.flash)] := by
    rw [Machine.record_log, hstart.1]
  have htypes (m' : OtpMachine) (hm' : m'.log = (n.record (.hotp s s.movingFactor)).log) :
      TypesCode hmac unset s m m' ↔ s.base ∣ codeOf hmac s - codeOf hmac s / 65536 := by
    rw [← typedText_right_iff hmac unset s]
    constructor
    · intro h
      obtain ⟨-, -, hright⟩ := h
      exact hright
    · exact fun hright => ⟨n.flash, hm'.trans hlog, hright⟩
  obtain ⟨hsticks, hstored⟩ | ⟨hfails, hkept⟩ := storeAfter_spec k s.config (some (s.movingFactor + 1))
    (n.record (.hotp s s.movingFactor)) s hstart.2.1 hstart.2.2 rs₀
  · rw [htypes _ hstored.1]
    constructor
    · exact fun h => ⟨h.1, hsticks⟩
    · exact fun h => ⟨h.1, movesOn_of_stored hhotp hstored⟩
  · constructor
    · exact fun h => (not_movesOn_of_kept _ hchal hhotp hkept h.2).elim
    · intro h
      rw [hfails] at h
      cases h.2

end Press

/-- A HOTP slot with six digits, configured for the counter 0. -/
def hotpSlot : Slot := ⟨false, ⟨[], [], [49, 50, 51, 52], [], 0, 0, oathHotp, 0, [], []⟩, some 0⟩

def hotpMachine : OtpMachine :=
  { view := fun _ _ => some hotpSlot, flash := fun _ _ => some hotpSlot, vars := {}, log := [], dropped := [] }

/-- A digest whose truncation is 1000015. -/
def wrappedDigest : Bytes := [0x00, 0x0f, 0x42, 0x4f] ++ List.replicate 16 0

/-- The press types 000015, as a server does, and the storage does what it is asked. -/
theorem wrapped_digest_right :
    TypesCode (fun _ _ _ => wrappedDigest) 0 hotpSlot hotpMachine (step hotpMachine (.press {} 1 [])) ∧
      MovesOn 1 hotpSlot (step hotpMachine (.press {} 1 [])) :=
  (hotp_press_iff (fun _ _ _ => wrappedDigest) 0 {} [] [] rfl rfl rfl rfl rfl (by decide) (by decide)).mpr
    ⟨by decide, rfl⟩

example : typedText (fun _ _ _ => wrappedDigest) 0 hotpSlot = some [48, 48, 48, 48, 49, 53] := by decide

/-- A digest whose code is 755224. -/
def vectorDigest : Bytes :=
  [0xcc, 0x93, 0xcf, 0x18, 0x50, 0x8d, 0x94, 0x93, 0x4c, 0x64, 0xb6, 0x5d, 0x8b, 0xa7, 0x66, 0x7f, 0xb7, 0xcd, 0xe4, 0xb0]

/-- The press types 019603, and with a store that fails it types the same once more. -/
theorem vector_typed_wrong :
    ¬ TypesCode (fun _ _ _ => vectorDigest) 0 hotpSlot hotpMachine (step hotpMachine (.press {} 1 [])) ∧
      ¬ MovesOn 1 hotpSlot (step hotpMachine (.press {} 1 [.refused false, .refused false])) := by
  constructor
  · intro h
    obtain ⟨-, -, hdigits⟩ := h
    revert hdigits
    decide
  · exact not_movesOn_of_kept (hotpMachine.record (.hotp hotpSlot 0)) (by decide) (by decide) ⟨rfl, rfl⟩

end KeyWallet.Otp
