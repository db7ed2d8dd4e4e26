import Mathlib.Algebra.Order.Ring.Nat
import KeyWallet.KeyDevice
import KeyWallet.StepSystem
import KeyWallet.CrashProgram

/-! The OTP application of otp.c: its four slots, the commands that change them and the button. A
slot is a file of its own (legacy) or an object of the OTP container; a container write is durable
when it succeeds, a legacy one when the cache is written back. -/
namespace KeyWallet.Otp

open CrashProgram StepSystem
open CrashProgram.Prog (look vars emit put commit done fail)

/-- otp_config_t. -/
structure Config where
  fixedData : Bytes
  uid : Bytes
  aesKey : Bytes
  accCode : Bytes
  fixedSize : Byte
  extFlags : Byte
  tktFlags : Byte
  cfgFlags : Byte
  rfu : Bytes
  crc : Bytes
  deriving DecidableEq, Repr

def fixedDataSize : Nat := 16
def uidSize : Nat := 6
def keySize : Nat := 16
def accCodeSize : Nat := 6
def configSize : Nat := 52

/-- The bytes from `start` on. -/
def slice (data : Bytes) (start len : Nat) : Bytes := (data.drop start).take len

/-- A request read as otp_config_t. -/
def Config.ofBytes (data : Bytes) : Config where
  fixedData := slice data 0 fixedDataSize
  uid := slice data 16 uidSize
  aesKey := slice data 22 keySize
  accCode := slice data 38 accCodeSize
  fixedSize := data.getD 44 0
  extFlags := data.getD 45 0
  tktFlags := data.getD 46 0
  cfgFlags := data.getD 47 0
  rfu := slice data 48 2
  crc := slice data 50 2

def oathHotp : Byte := 0x40
def chalResp : Byte := 0x40
def shortTicket : Byte := 0x02
def staticTicket : Byte := 0x20
def chalYubico : Byte := 0x20
def chalHmac : Byte := 0x22
def chalBtnTrig : Byte := 0x08
def extflagUpdateMask : Byte := 0xff
def tktflagUpdateMask : Byte := 0x3f
def cfgflagUpdateMask : Byte := 0x0c

/-- What a slot holds; `extra` are the eight bytes behind the configuration. -/
structure Slot where
  legacy : Bool
  config : Config
  extra : Option (BitVec 64)
  deriving DecidableEq, Repr

abbrev Index := Fin 4

scoped instance slotsNeZero : NeZero 4 := ⟨Nat.succ_ne_zero 3⟩

abbrev Bank := Index → Option Slot

namespace Slot

/-- A flag is set. -/
def has (flags mask : Byte) : Bool := flags &&& mask ≠ 0

def isChalResp (s : Slot) : Bool := has s.config.cfgFlags chalYubico && has s.config.tktFlags chalResp

def isHotp (s : Slot) : Bool := has s.config.tktFlags oathHotp

def isStatic (s : Slot) : Bool := has s.config.cfgFlags shortTicket || has s.config.cfgFlags staticTicket

/-- The slot types Yubico OTPs. -/
def isYubico (s : Slot) : Bool := !s.isHotp && !s.isStatic

/-- The usage counter: the first two of the extra bytes. -/
def counter (s : Slot) : Nat := (s.extra.getD 0).toNat / 2 ^ 48

/-- put_uint16_be into the extra bytes. -/
def withCounter (s : Slot) (n : Nat) : Slot :=
  { s with extra := some (BitVec.ofNat 64 (n % 65536 * 2 ^ 48 + (s.extra.getD 0).toNat % 2 ^ 48)) }

/-- The moving factor of a HOTP slot. -/
def movingFactor (s : Slot) : BitVec 64 :=
  let imf := s.extra.getD 0
  if imf = 0 then BitVec.ofNat 64 ((s.config.uid.getD 4 0).toNat * 256 + (s.config.uid.getD 5 0).toNat)
  else imf

end Slot

structure Vars where
  scanned : Bool := false
  session : Index → BitVec 8 := fun _ => 0

/-- What comes out at the keyboard: a Yubico OTP with its two counters, or something else. -/
inductive Typed
  | yubico (slot : Slot) (usage : Nat) (session : BitVec 8)
  | hotp (slot : Slot) (factor : BitVec 64)
  | text (config : Config)
  deriving DecidableEq, Repr

/-- The status words, and the results of otp_button_pressed that are not 0. -/
inductive Err
  | wrongLength
  | incorrectP1P2
  | wrongData
  | memoryFailure
  | securityStatusNotSatisfied
  | conditionsNotSatisfied
  | notTyped
  deriving DecidableEq, Repr

abbrev OtpMachine := Machine Unit Bank Vars Typed
abbrev OtpProg := Prog Unit Bank Vars Typed Err

/-- What reading the slots gives in one command: whether otp_migrate_slots ends well, and for which
slots otp_slot_has_data_status and otp_slot_load do. A wait for the button ends with a press or not. -/
structure Reads where
  migrated : Bool := true
  status : Index → Bool := fun _ => true
  load : Index → Bool := fun _ => true
  pressed : Bool := true

/-- Is this slot a file of its own? -/
def Bank.isLegacy (b : Bank) (k : Index) : Bool := (b k).any Slot.legacy

/-- otp_slot_store: a legacy slot stays one, any other goes into the container. -/
def slotStore (k : Index) (config : Config) (extra : Option (BitVec 64)) : OtpProg Bool :=
  look fun _ v =>
    let b := v ()
    let legacy := b.isLegacy k
    put () (Function.update b k (some ⟨legacy, config, extra⟩)) fun stored =>
      if stored then if legacy then done true else commit done
      else done false

/-- otp_slot_delete. -/
def slotDelete (k : Index) : OtpProg Bool :=
  look fun _ v =>
    let b := v ()
    if b k = none then done true
    else
      put () (Function.update b k none) fun deleted =>
        if deleted then if b.isLegacy k then do commitLater; return true else commit done
        else done false

/-- A store that is tried again when it fails. -/
def slotStoreTries (k : Index) (config : Config) (extra : Option (BitVec 64)) : Nat → OtpProg Bool
  | 0 => done false
  | tries + 1 => (slotStore k config extra).bind fun stored =>
      if stored then done true else slotStoreTries k config extra tries

/-- The usage counter of this slot is advanced once after each start. -/
def advances (s : Slot) : Bool :=
  s.extra.isSome && s.isYubico && decide ((s.counter + 1) % 65536 ≤ 0x7fff)

/-- The loop of init_otp; whether it gets to its end. -/
def advanceAll (reads : Reads) : List Index → OtpProg Bool
  | [] => done true
  | k :: rest => look fun _ v =>
      match v () k with
      | none => advanceAll reads rest
      | some s =>
        if reads.load k && advances s then
          (slotStoreTries k s.config (s.withCounter (s.counter + 1)).extra 3).bind fun stored =>
            if stored then advanceAll reads rest else done false
        else advanceAll reads rest

def initOtp (reads : Reads) : OtpProg Unit :=
  look fun s _ =>
    if s.scanned || !reads.migrated then done ()
    else (advanceAll reads [0, 1, 2, 3]).bind fun all =>
      if all then do
        setting fun s => { s with scanned := true }
        commitLater
      else done ()

/-- otp_status, as far as it changes anything. -/
def otpStatus : OtpProg Unit := setting fun s => { s with scanned := true }

/-- The counters of the OTP that a press types, and the usage counter that it has to store. -/
def pressCounters (s : Slot) (session : BitVec 8) : Nat × Option Nat :=
  let usage := if s.counter = 0 then 1 else s.counter
  let wraps := session + 1 = 0
  let next := if wraps then (usage + 1) % 65536 else usage
  (usage, if s.counter = 0 ∨ (wraps ∧ next ≤ 0x7fff) then some next else none)

/-- The Yubico part of otp_button_pressed. -/
def typeYubico (k : Index) (s : Slot) : OtpProg Unit :=
  look fun v _ =>
    let session := v.session k
    let counters := pressCounters s session
    let finish : OtpProg Unit := do
      setting fun v => { v with session := Function.update v.session k (session + 1) }
      event (.yubico s counters.1 session)
    match counters.2 with
    | none => finish
    | some next => (slotStore k s.config (s.withCounter next).extra).bind fun stored =>
        if stored then do
          commitLater
          finish
        else fail .notTyped

/-- otp_button_pressed. -/
def buttonPressed (reads : Reads) (k : Index) : OtpProg Unit := do
  initOtp reads
  look fun _ v =>
    match v () k with
    | none => fail .notTyped
    | some s =>
      if !reads.status k || !reads.load k || s.isChalResp then fail .notTyped
      else if s.isHotp then do
        event (.hotp s s.movingFactor)
        let _ ← slotStore k s.config (some (s.movingFactor + 1))
        commitLater
      else if s.isStatic then event (.text s.config)
      else typeYubico k s

/-! The commands. -/

/-- A command: over CCID, or in a frame of the keyboard interface, which always has 64 bytes. -/
structure Request where
  p1 : Nat
  p2 : Nat
  data : Bytes
  isOtp : Bool
  deriving DecidableEq, Repr

/-- One byte into the checksum. -/
def crcByte (crc : BitVec 16) (b : Byte) : BitVec 16 :=
  (List.range 8).foldl (fun c _ => if c.getLsbD 0 then (c >>> 1) ^^^ 0x8408 else c >>> 1)
    (crc ^^^ b.setWidth 16)

def calculateCrc (data : Bytes) : BitVec 16 := data.foldl crcByte 0xffff

/-- check_crc, with the check of the reserved bytes. -/
def configValid (data : Bytes) : Bool :=
  slice data 48 2 = [0, 0] && calculateCrc (data.take configSize) = 0xf0b8

/-- otp_slot_offset_valid. -/
def slotOffsetValid (p1 p2 : Nat) : Bool :=
  if p1 = 0x01 ∨ p1 = 0x04 ∨ p1 = 0x20 ∨ p1 = 0x30 then decide (p2 ≤ 3) else decide (p2 = 0)

/-- The slot that a command is about: p1 is 0x01 or 0x04 for the first one, with p2 as an offset. -/
def requestSlot (p1 p2 : Nat) : Index :=
  if p1 = 0x01 ∨ p1 = 0x04 then Fin.ofNat 4 p2 else 1

/-- The access code behind the configuration. -/
def Request.accessCode (r : Request) : Bytes := slice r.data configSize accCodeSize

/-- The code of an occupied slot is asked for before the slot is changed. -/
def guarded (reads : Reads) (r : Request) (k : Index) (body : Option Slot → OtpProg Unit) : OtpProg Unit :=
  look fun _ v =>
    if reads.status k = false then fail .memoryFailure
    else
      match v () k with
      | none => body none
      | some s =>
        if r.data.length < configSize + accCodeSize then fail .wrongLength
        else if reads.load k = false then fail .memoryFailure
        else if s.config.accCode ≠ r.accessCode then fail .securityStatusNotSatisfied
        else body (some s)

/-- Behind the check the code of an occupied slot is in the request. -/
theorem guarded_spec {f : Faults} {m : OtpMachine} {reads : Reads} {r : Request} {k : Index}
    {body : Option Slot → OtpProg Unit} {Q : Unit → OtpMachine → Prop} {R : Err → OtpMachine → Prop}
    {C : OtpMachine → Prop} (hfail : ∀ e, R e m)
    (hbody : (∀ s, m.view () k = some s →
        configSize + accCodeSize ≤ r.data.length ∧ s.config.accCode = r.accessCode) →
      wp f (body (m.view () k)) Q R C m) : wp f (guarded reads r k body) Q R C m := by
  unfold guarded
  dsimp only [wp]
  by_cases hstatus : reads.status k = false
  · rw [if_pos hstatus]
    exact hfail _
  rw [if_neg hstatus]
  cases hslot : m.view () k with
  | none =>
    rw [hslot] at hbody
    refine hbody ?_
    intro s hs
    cases hs
  | some s =>
    dsimp only
    split_ifs with hlength hload hcode
    · exact hfail _
    · exact hfail _
    · exact hfail _
    · rw [hslot] at hbody
      refine hbody ?_
      intro t ht
      obtain rfl := Option.some.inj ht
      exact ⟨Nat.le_of_not_lt hlength, not_not.mp hcode⟩

/-- Behind a change that has been stored. -/
def stored (ok : Bool) (after : OtpProg Unit) : OtpProg Unit :=
  if ok then do
    after
    otpStatus
  else fail .memoryFailure

/-- cmd_otp, configure or delete. -/
def cmdConfigure (reads : Reads) (r : Request) : OtpProg Unit :=
  if r.data.length < configSize then fail .wrongLength
  else if slotOffsetValid r.p1 r.p2 = false then fail .incorrectP1P2
  else
    let k := requestSlot r.p1 r.p2
    guarded reads r k fun _ =>
      if (r.data.take configSize).any (· ≠ 0) then
        if configValid r.data = false then fail .wrongData
        else (slotStore k (.ofBytes r.data) (some 0)).bind fun ok => stored ok commitLater
      else (slotDelete k).bind fun ok => stored ok (done ())

/-- What an update makes of a slot. -/
def updated (s : Slot) (c : Config) : Config :=
  { c with
    fixedData := s.config.fixedData
    uid := s.config.uid
    aesKey := s.config.aesKey
    fixedSize := s.config.fixedSize
    extFlags := (s.config.extFlags &&& ~~~extflagUpdateMask) ||| (c.extFlags &&& extflagUpdateMask)
    tktFlags := (s.config.tktFlags &&& ~~~tktflagUpdateMask) ||| (c.tktFlags &&& tktflagUpdateMask)
    cfgFlags :=
      if Slot.has s.config.tktFlags chalResp then s.config.cfgFlags
      else (s.config.cfgFlags &&& ~~~cfgflagUpdateMask) ||| (c.cfgFlags &&& cfgflagUpdateMask) }

/-- cmd_otp, update. -/
def cmdUpdate (reads : Reads) (r : Request) : OtpProg Unit :=
  if r.data.length < configSize then fail .wrongLength
  else if slotOffsetValid r.p1 r.p2 = false then fail .incorrectP1P2
  else if configValid r.data = false then fail .wrongData
  else
    let k := requestSlot r.p1 r.p2
    guarded reads r k fun
      | none => otpStatus
      | some s => (slotStore k (updated s (.ofBytes r.data)) s.extra).bind fun ok => stored ok commitLater

/-- The two slots of a swap and its access code; without a code it is all zero. -/
def swapRequest (r : Request) : Except Err (Nat × Nat × Bytes) :=
  let byte (i : Nat) : Nat := (r.data.getD i 0).toNat
  let code := slice r.data 2 accCodeSize
  if r.isOtp then
    if r.data.length ≠ 64 then .error .wrongLength
    else if (r.data.drop (2 + accCodeSize)).any (· ≠ 0) then .error .wrongData
    else .ok (byte 0, 1 + byte 1, code)
  else if r.data.length = 0 then .ok (0, 1, List.replicate accCodeSize 0)
  else if r.data.length = 2 then .ok (byte 0, 1 + byte 1, List.replicate accCodeSize 0)
  else if r.data.length = 2 + accCodeSize then .ok (byte 0, 1 + byte 1, code)
  else .error .wrongLength

/-- One of the slots of a swap may be moved. -/
def swapCheck (reads : Reads) (code : Bytes) (k : Index) (s : Option Slot) : Option Err :=
  if reads.status k = false then some .memoryFailure
  else
    match s with
    | none => none
    | some s =>
      if reads.load k = false then some .memoryFailure
      else if s.config.accCode ≠ code then some .securityStatusNotSatisfied
      else none

/-- The content of a slot goes to another one, which keeps its kind. -/
def moved (s : Option Slot) (k : Index) : OtpProg Bool :=
  match s with
  | some s => slotStore k s.config s.extra
  | none => slotDelete k

/-- The session counters go with their slots. -/
def swapSessions (i j : Index) : OtpProg Unit :=
  setting fun v => { v with
    session := Function.update (Function.update v.session i (v.session j)) j (v.session i) }

/-- otp_container_swap_slots: both slots in one write. -/
def containerSwap (i j : Index) : OtpProg Bool :=
  look fun _ v =>
    let b := v ()
    put () (Function.update (Function.update b i (b j)) j (b i)) fun ok =>
      if ok then commit done else done false

/-- The slots one after the other, where at least one of them is a legacy slot. -/
def legacySwap (i j : Index) (si sj : Option Slot) : OtpProg Unit :=
  (moved sj i).bind fun first =>
    if first then
      (if si = none ∧ sj = none then done true else moved si j).bind fun second =>
        stored second do
          commitLater
          swapSessions i j
    else fail .memoryFailure

/-- cmd_otp, swap. -/
def cmdSwap (reads : Reads) (r : Request) : OtpProg Unit :=
  match swapRequest r with
  | .error e => fail e
  | .ok (a, b, code) =>
    if 3 < a ∨ 3 < b ∨ a = b then fail .incorrectP1P2
    else
      let i := Fin.ofNat 4 a
      let j := Fin.ofNat 4 b
      look fun _ v =>
        match swapCheck reads code i (v () i) with
        | some e => fail e
        | none =>
          match swapCheck reads code j (v () j) with
          | some e => fail e
          | none =>
            if (v ()).isLegacy i = false ∧ (v ()).isLegacy j = false ∧ ¬ (v () i = none ∧ v () j = none)
            then (containerSwap i j).bind fun ok => stored ok (swapSessions i j)
            else legacySwap i j (v () i) (v () j)

/-- The slot that a challenge is for. -/
def challengedSlot (p1 p2 : Nat) : Index := if p1 = 0x30 ∨ p1 = 0x20 then Fin.ofNat 4 p2 else 1

/-- A challenge for HMAC, or else for the AES key; the response changes nothing. -/
def respondTo (r : Request) (s : Slot) : OtpProg Unit :=
  let hmac : Bool := decide (r.p1 = 0x30 ∨ r.p1 = 0x38)
  if r.data.length < (if hmac then 64 else 6) then fail .wrongLength
  else if Slot.has s.config.cfgFlags (if hmac then chalHmac else chalYubico) = false then fail .wrongData
  else done ()

/-- cmd_otp, calculate. -/
def cmdCalculate (reads : Reads) (r : Request) : OtpProg Unit :=
  if slotOffsetValid r.p1 r.p2 = false then fail .incorrectP1P2
  else if reads.status (challengedSlot r.p1 r.p2) = false then fail .memoryFailure
  else
    look fun _ v =>
      match v () (challengedSlot r.p1 r.p2) with
      | none => done ()
      | some s =>
        if reads.load (challengedSlot r.p1 r.p2) = false then fail .memoryFailure
        else if Slot.has s.config.tktFlags chalResp = false then fail .wrongData
        else if Slot.has s.config.cfgFlags chalBtnTrig then do
          -- the touch is asked for with a status report
          otpStatus
          if reads.pressed then respondTo r s else fail .conditionsNotSatisfied
        else respondTo r s

/-- The command gets to the status report. -/
def asksForTouch (reads : Reads) (r : Request) (b : Bank) : Bool :=
  slotOffsetValid r.p1 r.p2 && reads.status (challengedSlot r.p1 r.p2) && reads.load (challengedSlot r.p1 r.p2) &&
    (b (challengedSlot r.p1 r.p2)).any fun s =>
      Slot.has s.config.tktFlags chalResp && Slot.has s.config.cfgFlags chalBtnTrig

theorem respondTo_spec {f : Faults} {m : OtpMachine} {r : Request} {s : Slot} {Q : Unit → OtpMachine → Prop}
    {R : Err → OtpMachine → Prop} {C : OtpMachine → Prop} (hdone : Q () m) (hfail : ∀ e, R e m) :
    wp f (respondTo r s) Q R C m := by
  unfold respondTo
  dsimp only
  split_ifs
  all_goals first | exact hdone | exact hfail _

/-- The command leaves everything as it was, but for the mark of a status report. -/
theorem cmdCalculate_spec {f : Faults} {m : OtpMachine} {reads : Reads} {r : Request}
    {Q : Unit → OtpMachine → Prop} {R : Err → OtpMachine → Prop} {C : OtpMachine → Prop} (hdone : Q () m)
    (hfail : ∀ e, R e m) (htouch : asksForTouch reads r (m.view ()) = true →
      Q () (m.setVars { m.vars with scanned := true }) ∧
        ∀ e, R e (m.setVars { m.vars with scanned := true })) :
    wp f (cmdCalculate reads r) Q R C m := by
  unfold cmdCalculate
  by_cases hvalid : slotOffsetValid r.p1 r.p2 = false
  · rw [if_pos hvalid]
    exact hfail _
  rw [if_neg hvalid]
  by_cases hstatus : reads.status (challengedSlot r.p1 r.p2) = false
  · rw [if_pos hstatus]
    exact hfail _
  rw [if_neg hstatus]
  dsimp only [wp]
  cases hslot : m.view () (challengedSlot r.p1 r.p2) with
  | none => exact hdone
  | some s =>
    dsimp only
    by_cases hload : reads.load (challengedSlot r.p1 r.p2) = false
    · rw [if_pos hload]
      exact hfail _
    rw [if_neg hload]
    by_cases hchal : Slot.has s.config.tktFlags chalResp = false
    · rw [if_pos hchal]
      exact hfail _
    rw [if_neg hchal]
    by_cases htrig : Slot.has s.config.cfgFlags chalBtnTrig = true
    · rw [if_pos htrig]
      have hasks : asksForTouch reads r (m.view ()) = true := by
        unfold asksForTouch
        rw [hslot, Option.any_some, htrig, Bool.eq_true_of_not_eq_false hvalid,
          Bool.eq_true_of_not_eq_false hstatus, Bool.eq_true_of_not_eq_false hload,
          Bool.eq_true_of_not_eq_false hchal]
        rfl
      obtain ⟨hthen, helse⟩ := htouch hasks
      show wp f (if reads.pressed then respondTo r s else fail .conditionsNotSatisfied) Q R C
        (m.setVars { m.vars with scanned := true })
      split_ifs
      · exact respondTo_spec hthen helse
      · exact helse _
    · rw [if_neg htrig]
      exact respondTo_spec hdone hfail

/-- cmd_otp. The other commands read. -/
def cmdOtp (reads : Reads) (r : Request) : OtpProg Unit :=
  if r.p1 = 0x01 ∨ r.p1 = 0x03 then cmdConfigure reads r
  else if r.p1 = 0x04 ∨ r.p1 = 0x05 then cmdUpdate reads r
  else if r.p1 = 0x06 then cmdSwap reads r
  else if r.p1 = 0x20 ∨ r.p1 = 0x28 ∨ r.p1 = 0x30 ∨ r.p1 = 0x38 then cmdCalculate reads r
  else done ()

/-- One thing that happens: a press, a command, otp_select or a status report, init_otp called from
elsewhere, the cache written back, or a power loss in between. -/
inductive Input
  | press (reads : Reads) (k : Index) (replies : List Reply)
  | command (reads : Reads) (r : Request) (replies : List Reply)
  | status
  | init (reads : Reads) (replies : List Reply)
  | drain
  | powerCycle

def Input.replies : Input → List Reply
  | .press _ _ rs => rs
  | .command _ _ rs => rs
  | .init _ rs => rs
  | _ => []

def Input.prog : Input → OtpProg Unit
  | .press reads k _ => buttonPressed reads k
  | .command reads r _ => cmdOtp reads r
  | .status => otpStatus
  | .init reads _ => initOtp reads
  | _ => done ()

/-- After a power loss the session counters start again. -/
def after (r : Outcome Err Unit × OtpMachine × List Reply) : OtpMachine :=
  match r.1 with
  | .lost => r.2.1.reboot {}
  | _ => r.2.1

def step (m : OtpMachine) : Input → OtpMachine
  | .drain => m.sync
  | .powerCycle => m.reboot {}
  | i => after (exec i.prog m i.replies)

/-! What a store and a deletion can leave. -/

section Storing

variable {f : Faults} {m : OtpMachine} {k : Index}

theorem view_write (m : OtpMachine) (b : Bank) : (m.write () b).view () = b := by
  rw [Machine.write_view, Function.update_self]

/-- The bank with the slot written. -/
def storedBank (b : Bank) (k : Index) (config : Config) (extra : Option (BitVec 64)) : Bank :=
  Function.update b k (some ⟨b.isLegacy k, config, extra⟩)

/-- What becomes of a store: nothing, the new bank in the view, or also in the flash. A container
store that succeeds is in the flash. -/
theorem slotStore_spec (config : Config) (extra : Option (BitVec 64)) :
    wp f (slotStore k config extra)
      (fun ok n => (n = m ∨ n = m.write () (storedBank (m.view ()) k config extra) ∨
          n = (m.write () (storedBank (m.view ()) k config extra)).sync) ∧
        (ok = true → n = m.write () (storedBank (m.view ()) k config extra) ∧
            (m.view ()).isLegacy k = true ∨
          n = (m.write () (storedBank (m.view ()) k config extra)).sync) ∧
        (¬ f.noticed → ok = true))
      (fun _ _ => False)
      (fun n => n = m ∨ n = m.write () (storedBank (m.view ()) k config extra)) m := by
  have hno : ∀ {Q : Prop}, false = true → Q := fun h => absurd h Bool.false_ne_true
  unfold slotStore
  dsimp only [wp]
  refine ⟨.inl rfl, ?_, fun hf => ⟨⟨.inl rfl, hno, fun hn => absurd hf hn⟩,
    ⟨.inr (.inl rfl), hno, fun hn => absurd hf hn⟩⟩⟩
  rw [if_pos rfl]
  cases hlegacy : (m.view ()).isLegacy k with
  | true =>
    unfold storedBank
    rw [hlegacy]
    exact ⟨.inr (.inl rfl), fun _ => .inl ⟨rfl, rfl⟩, fun _ => rfl⟩
  | false =>
    unfold storedBank
    rw [hlegacy]
    exact ⟨.inr rfl, ⟨.inr (.inr rfl), fun _ => .inr rfl, fun _ => rfl⟩, fun hf =>
      ⟨⟨.inr (.inl rfl), hno, fun hn => absurd hf hn⟩, ⟨.inr (.inr rfl), hno, fun hn => absurd hf hn⟩⟩⟩

theorem storedBank_self (b : Bank) (config : Config) (extra : Option (BitVec 64)) :
    storedBank b k config extra k = some ⟨b.isLegacy k, config, extra⟩ := by
  unfold storedBank
  rw [Function.update_self]

theorem storedBank_other (b : Bank) (config : Config) (extra : Option (BitVec 64)) {j : Index}
    (hj : j ≠ k) : storedBank b k config extra j = b j := by
  unfold storedBank
  rw [Function.update_of_ne hj]

theorem slotDelete_spec :
    wp f (slotDelete k)
      (fun _ n => n = m ∨ n = m.write () (Function.update (m.view ()) k none) ∨
        n = (m.write () (Function.update (m.view ()) k none)).sync)
      (fun _ _ => False)
      (fun n => n = m ∨ n = m.write () (Function.update (m.view ()) k none)) m := by
  unfold slotDelete
  dsimp only [wp]
  by_cases hempty : m.view () k = none
  · rw [if_pos hempty]
    exact .inl rfl
  rw [if_neg hempty]
  refine ⟨.inl rfl, ?_, fun _ => ⟨.inl rfl, .inr (.inl rfl)⟩⟩
  dsimp only
  rw [if_pos rfl]
  split_ifs
  · exact ⟨.inr rfl, .inr (.inr rfl), fun _ => ⟨.inr (.inl rfl), .inr (.inr rfl)⟩⟩
  · exact ⟨.inr rfl, .inr (.inr rfl), fun _ => ⟨.inr (.inl rfl), .inr (.inr rfl)⟩⟩

end Storing

end KeyWallet.Otp
