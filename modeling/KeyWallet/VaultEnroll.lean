import KeyWallet.KeyDevice
import KeyWallet.StepSystem
import KeyWallet.CrashProgram

/-! The enrollment of the vault: the hold of the button that opens it, which button_task measures,
and the ceremony between start and finish, vault.c and fido_vault.c. -/
namespace KeyWallet.Enroll

open StepSystem
open CrashProgram (Reply)

def keySize : Nat := 32
def x448Bytes : Nat := 56
def certMax : Nat := 1900
def plainMax : Nat := keySize + 1 + 64
def tagSize : Nat := 16
def minPacketLen : Nat := 2 + x448Bytes + keySize + tagSize
def labelMax : Nat := 64
def windowMs : Nat := 60000
def holdMs : Nat := 10000

inductive Board
  | pico
  | esp32
  deriving DecidableEq, Repr

/-- picok_board_button_read. A held button pulls its line low; the ESP32 board takes a line that is
high for a button that is held. -/
def Board.read (b : Board) (pressed : Bool) : Bool :=
  let level := !pressed
  match b with
  | .pico => !level
  | .esp32 => level

/-- The variables of button_task, all uint32_t. -/
structure Button where
  holdState : Bool := false
  holdStarted : Nat := 0
  lastPoll : Nat := 0
  duration : Nat := 0
  deriving DecidableEq, Repr

/-- The keys and the challenge of a ceremony. -/
structure Ceremony where
  privateKey : Bytes
  publicKey : Bytes
  challenge : Bytes
  deriving DecidableEq, Repr

structure Enrollment where
  active : Option Ceremony := none
  accepted : Bool := false
  deriving DecidableEq, Repr

/-- What really happened to the button; no code reads it. `since` is when its state last changed, or
the last start if that was later. -/
structure Line where
  pressed : Bool
  since : Nat := 0
  -- it was held for `holdMs` since the last start, and that within the window
  proved : Bool := false
  -- a poll has seen a press that began behind the last start, or there was no start yet
  fresh : Bool := true
  deriving DecidableEq, Repr

structure State where
  time : Nat := 0
  button : Button := {}
  enrollment : Enrollment := {}
  line : Line
  kvault : Option Bytes
  label : Bytes
  deriving DecidableEq, Repr

/-- Arithmetic of uint32_t. -/
def wrap : Nat := 4294967296

def minus (a b : Nat) : Nat := (a + wrap - b) % wrap

/-- board_millis. -/
def State.millis (s : State) : Nat := s.time % wrap

/-! The button. -/

/-- Time passes. -/
def State.elapse (s : State) (dt : Nat) : State :=
  { s with
    time := s.time + dt
    line := { s.line with
      proved := s.line.proved ||
        (s.line.pressed && decide (s.line.since + holdMs ≤ s.time + dt) &&
          decide (s.line.since + holdMs < windowMs)) } }

/-- The button goes down or up, or stays. -/
def State.move (s : State) (pressed : Bool) : State :=
  if pressed = s.line.pressed then s
  else { s with line := { s.line with pressed := pressed, since := s.time } }

/-- What button_task finds: is_busy, async_button_wait, and a lock of the other core that it could
not get. -/
structure Poll where
  busy : Bool := false
  waiting : Bool := false
  locked : Bool := false
  deriving DecidableEq, Repr

/-- It is time for a poll. -/
def State.polls (s : State) (p : Poll) : Bool :=
  decide (1000 < s.millis) && decide (10 ≤ minus s.millis s.button.lastPoll) &&
    (p.waiting || !p.busy) && !p.locked

/-- The part of button_task that measures how long the button is held. -/
def measure (current : Bool) (now : Nat) (b : Button) : Button :=
  if current && !b.holdState then { b with holdState := current, holdStarted := now, duration := 0 }
  else if !current && b.holdState then
    { b with
      holdState := current
      duration := if b.holdStarted = 0 then 0 else minus now b.holdStarted
      holdStarted := 0 }
  else if current && b.holdState && decide (b.holdStarted ≠ 0) then
    { b with holdState := current, duration := minus now b.holdStarted }
  else { b with holdState := current }

def buttonTask (board : Board) (p : Poll) (s : State) : State :=
  if s.polls p then
    if p.waiting then { s with button := { s.button with lastPoll := s.millis } }
    else
      let current := board.read s.line.pressed
      { s with
        button := measure current s.millis { s.button with lastPoll := s.millis }
        line := { s.line with fresh := s.line.fresh || (current && !s.button.holdState) } }
  else s

/-! The ceremony. -/

/-- picokeys_vault_enrollment_button_ready. -/
def buttonReady (s : State) : Bool × State :=
  if ¬ s.millis < windowMs ∧ s.enrollment.active = none then
    (false, { s with
      enrollment := { s.enrollment with accepted := false }
      button := { s.button with duration := 0 } })
  else
    let accepted := s.enrollment.accepted || decide (holdMs ≤ s.button.duration)
    (accepted, { s with enrollment := { s.enrollment with accepted := accepted } })

/-- picokeys_vault_enrollment_clear. -/
def clear (s : State) : State := { s with enrollment := {} }

/-- picokeys_vault_enrollment_reset. -/
def reset (s : State) : State :=
  { s with
    enrollment := {}
    button := { s.button with duration := 0 } }

inductive Err
  | pinAuth
  | notAllowed
  | processing
  | integrityFailure
  deriving DecidableEq, Repr

/-- The start command. `generated` is what vault_x448_generate and the random numbers give. -/
def start (authorized : Bool) (generated : Option Ceremony) (s : State) : Except Err Unit × State :=
  if authorized = false then (.error .pinAuth, s)
  else
    let (ready, s) := buttonReady s
    if ready = false then (.error .notAllowed, s)
    else
      let s := clear s
      match generated with
      | none => (.error .processing, reset s)
      | some c => (.ok (), { s with
          enrollment := { s.enrollment with active := some c }
          line := { s.line with since := s.time, proved := false, fresh := false } })

/-- The certificate and the HPKE: which certificates are accepted, with their public key, and what
vault_hpke_auth_decap opens. -/
structure Checks where
  certificate : Bytes → Option Bytes
  decap : (encapsulated : Bytes) → Ceremony → (certificatePublic aad ciphertext : Bytes) → Option Bytes

/-- The parts of a packet. -/
structure Packet where
  certificate : Bytes
  encapsulated : Bytes
  ciphertext : Bytes
  deriving DecidableEq, Repr

def slice (data : Bytes) (start len : Nat) : Bytes := (data.drop start).take len

/-- The lengths of a packet, as picokeys_vault_enrollment_decode checks them. -/
def parse (data : Bytes) : Option Packet :=
  if data.length < minPacketLen then none
  else
    let certificateLen := (data.getD 0 0).toNat * 256 + (data.getD 1 0).toNat
    let encapsulatedOffset := 2 + certificateLen
    let ciphertextOffset := encapsulatedOffset + x448Bytes
    if certificateLen = 0 ∨ certMax < certificateLen ∨ data.length < ciphertextOffset ∨
        data.length < ciphertextOffset + tagSize + keySize then none
    else
      let ciphertextLen := data.length - ciphertextOffset
      if ciphertextLen < keySize + tagSize ∨ plainMax + tagSize < ciphertextLen then none
      else some ⟨slice data 2 certificateLen, slice data encapsulatedOffset x448Bytes,
        data.drop ciphertextOffset⟩

/-- The key and the label in what was encrypted. -/
def parsePlain (plain : Bytes) (len : Nat) : Option (Bytes × Bytes) :=
  let labelLen := (plain.getD keySize 0).toNat
  if len = keySize then some (plain.take keySize, [])
  else if keySize + 1 ≤ len ∧ labelLen ≤ 64 ∧ len = keySize + 1 + labelLen then
    if labelMax < labelLen then none
    else some (plain.take keySize, slice plain (keySize + 1) labelLen)
  else none

/-- picokeys_vault_enrollment_decode, without the reset behind it. -/
def decode (checks : Checks) (active : Option Ceremony) (data : Bytes) : Option (Bytes × Bytes) := do
  let ceremony ← active
  let packet ← parse data
  let certificatePublic ← checks.certificate packet.certificate
  let plain ← checks.decap packet.encapsulated ceremony certificatePublic packet.certificate
    packet.ciphertext
  parsePlain plain (packet.ciphertext.length - tagSize)

/-- A finish command: what vault_pin_auth says, the parameter, and how the rest goes: the file of the
vault key, vault_sdk_init, load_keydev, the two writes and the key read back. -/
structure Finish where
  authorized : Bool := true
  param : Option Bytes
  vaultFile : Bool := true
  sdkInit : Bool := true
  keydev : Bool := true
  storeKey : Reply := .ok
  storeLabel : Reply := .ok
  reloads : Bool := true
  deriving DecidableEq, Repr

/-- The device starts again; the button is as it is. -/
def State.reboot (s : State) (pressed : Bool) : State :=
  { line := { pressed := pressed }, kvault := s.kvault, label := s.label }

/-- The two writes of vault_enrollment_finish and what comes behind them; `none` is a power loss. -/
def storeEnrollment (f : Finish) (key label : Bytes) (s : State) : Option (Except Err Unit) × State :=
  match f.storeKey with
  | .powerLoss => (none, s.reboot s.line.pressed)
  | .refused happened =>
    (some (.error .integrityFailure), if happened then { reset s with kvault := some key } else reset s)
  | .ok =>
    let s := { s with kvault := some key }
    match f.storeLabel with
    | .powerLoss => (none, s.reboot s.line.pressed)
    | .refused happened =>
      (some (.error .integrityFailure), if happened then { reset s with label := label } else reset s)
    | .ok =>
      let s := { s with label := label }
      (some (if f.reloads then .ok () else .error .processing), s)

/-- The finish command. -/
def finish (checks : Checks) (f : Finish) (s : State) : Option (Except Err Unit) × State :=
  if f.authorized = false then (some (.error .pinAuth), s)
  else
    match f.param with
    | none => (some (.error .integrityFailure), s)
    | some data =>
      if f.vaultFile = false then (some (.error .integrityFailure), reset s)
      else
        match decode checks s.enrollment.active data with
        | none => (some (.error .integrityFailure), reset s)
        | some (key, label) =>
          if f.sdkInit = false ∨ f.keydev = false then (some (.error .integrityFailure), reset s)
          else storeEnrollment f key label (reset s)

/-- One thing that happens: time passes and button_task runs, a status, start or finish command, or a
power cycle. -/
inductive Input
  | task (dt : Nat) (pressed : Bool) (poll : Poll)
  | status
  | start (authorized : Bool) (generated : Option Ceremony)
  | finish (f : Finish)
  | reboot (pressed : Bool)
  deriving DecidableEq, Repr

def step (board : Board) (checks : Checks) (s : State) : Input → State
  | .task dt pressed poll => buttonTask board poll ((s.elapse dt).move pressed)
  | .status => (buttonReady s).2
  | .start authorized generated => (start authorized generated s).2
  | .finish f => (finish checks f s).2
  | .reboot pressed => s.reboot pressed

/-! What a step has to keep to. -/

/-- The packet is for this ceremony: its certificate is accepted, and what it carries opens under the
ceremony's keys and challenge. -/
def Authenticates (checks : Checks) (c : Ceremony) (data key : Bytes) : Prop :=
  ∃ packet certificatePublic plain, parse data = some packet ∧
    checks.certificate packet.certificate = some certificatePublic ∧
    checks.decap packet.encapsulated c certificatePublic packet.certificate packet.ciphertext =
      some plain ∧ key = plain.take keySize

structure Lawful (board : Board) (checks : Checks) (s : State) (i : Input) : Prop where
  key : (step board checks s i).kvault ≠ s.kvault → ∃ f data c key, i = .finish f ∧
    f.authorized = true ∧ f.param = some data ∧ s.enrollment.active = some c ∧
    Authenticates checks c data key ∧ (step board checks s i).kvault = some key
  closed : ∀ f, i = .finish f → f.authorized = true →
    (step board checks s i).enrollment.active = none
  untouched : ∀ f, i = .finish f → f.authorized = false → step board checks s i = s
  failed : ∀ f e, i = .finish f → (finish checks f s).1 = some (.error e) →
    (step board checks s i).kvault = s.kvault ∧ (step board checks s i).label = s.label
  held : ∀ authorized generated, i = .start authorized generated →
    (start authorized generated s).1 = .ok () → s.line.proved = true

/-- The poll of this step is one that measures. -/
def State.measures (s : State) (p : Poll) : Bool := s.polls p && !p.waiting

/-- The steps at which the code does what it has to. A release is seen when it happens; a status or
start command comes when the measured time is short or is that of a press behind the last start on a
board that reads its line the right way round, and behind the window only without a ceremony; a
finish has a parameter, its writes are refused only where nothing has happened yet, and the key can
be read back. -/
def Safe (board : Board) (s : State) : Input → Prop
  | .task dt pressed poll => s.time + dt < wrap ∧
      (s.button.holdState = true → s.line.pressed = true → pressed = false →
        ((s.elapse dt).move pressed).measures poll = true)
  | .status => (board = .esp32 ∨ s.line.fresh = false → s.button.duration < holdMs) ∧
      (s.time < windowMs ∨ s.enrollment.active = none)
  | .start _ _ => (board = .esp32 ∨ s.line.fresh = false → s.button.duration < holdMs) ∧
      (s.time < windowMs ∨ s.enrollment.active = none)
  | .finish f => f.authorized = true → (f.param = none → s.enrollment.active = none) ∧
      f.storeKey ≠ .refused true ∧ (∀ happened, f.storeLabel ≠ .refused happened) ∧ f.reloads = true
  | .reboot _ => True

instance (board : Board) (s : State) : ∀ i, Decidable (Safe board s i)
  | .task _ _ _ => inferInstanceAs (Decidable (_ ∧ _))
  | .status => inferInstanceAs (Decidable (_ ∧ _))
  | .start _ _ => inferInstanceAs (Decidable (_ ∧ _))
  | .finish _ => inferInstanceAs (Decidable (_ → _))
  | .reboot _ => .isTrue trivial

/-- What holds between two steps. -/
structure Inv (board : Board) (s : State) : Prop where
  uptime : s.time < wrap
  since : s.line.since ≤ s.time
  accepted : s.enrollment.accepted = true → s.line.proved = true
  -- a hold that is long enough has been noted
  attained : s.line.pressed = true → s.line.since + holdMs ≤ s.time →
    s.line.since + holdMs < windowMs → s.line.proved = true
  measured : board = .pico → s.button.holdState = true → s.line.pressed = true ∧
    1000 < s.button.holdStarted ∧ s.button.holdStarted ≤ s.time ∧
    (s.line.fresh = true → s.line.since ≤ s.button.holdStarted)
  duration : board = .pico → s.line.fresh = true → holdMs ≤ s.button.duration → s.time < windowMs →
    s.line.proved = true

/-! Ceremonies. -/

section Ceremonies

variable {board : Board} {checks : Checks} {s : State}

theorem decode_authenticates {active : Option Ceremony} {data key label : Bytes}
    (h : decode checks active data = some (key, label)) :
    ∃ c, active = some c ∧ Authenticates checks c data key := by
  unfold decode at h
  simp only [Option.bind_eq_bind, Option.bind_eq_some_iff] at h
  obtain ⟨c, hactive, packet, hpacket, certificatePublic, hcertificate, plain, hplain, hparse⟩ := h
  refine ⟨c, hactive, packet, certificatePublic, plain, hpacket, hcertificate, hplain, ?_⟩
  unfold parsePlain at hparse
  dsimp only at hparse
  split_ifs at hparse
  · exact (Prod.mk.inj (Option.some.inj hparse)).1.symm
  · exact (Prod.mk.inj (Option.some.inj hparse)).1.symm

theorem storeEnrollment_cases {f : Finish} {key label : Bytes} (hactive : s.enrollment.active = none) :
    (storeEnrollment f key label s).2.enrollment.active = none ∧
    ((storeEnrollment f key label s).2.kvault = s.kvault ∨
      (storeEnrollment f key label s).2.kvault = some key) := by
  unfold storeEnrollment
  cases f.storeKey with
  | powerLoss => exact ⟨rfl, .inl rfl⟩
  | refused happened =>
    cases happened with
    | false => exact ⟨rfl, .inl rfl⟩
    | true => exact ⟨rfl, .inr rfl⟩
  | ok =>
    cases f.storeLabel with
    | powerLoss => exact ⟨rfl, .inr rfl⟩
    | refused happened =>
      cases happened with
      | false => exact ⟨rfl, .inr rfl⟩
      | true => exact ⟨rfl, .inr rfl⟩
    | ok => exact ⟨hactive, .inr rfl⟩

theorem storeEnrollment_failed {f : Finish} {key label : Bytes} {e : Err}
    (hkey : f.storeKey ≠ .refused true) (hlabel : ∀ happened, f.storeLabel ≠ .refused happened)
    (hreloads : f.reloads = true) (he : (storeEnrollment f key label s).1 = some (.error e)) :
    (storeEnrollment f key label s).2.kvault = s.kvault ∧
      (storeEnrollment f key label s).2.label = s.label := by
  unfold storeEnrollment at he ⊢
  cases hk : f.storeKey with
  | powerLoss => exact ⟨rfl, rfl⟩
  | refused happened =>
    cases happened with
    | false => exact ⟨rfl, rfl⟩
    | true => exact absurd hk hkey
  | ok =>
    rw [hk] at he
    cases hl : f.storeLabel with
    | powerLoss =>
      rw [hl] at he
      cases he
    | refused happened => exact absurd hl (hlabel happened)
    | ok =>
      rw [hl, hreloads] at he
      cases he

theorem finish_cases (checks : Checks) (f : Finish) (s : State) :
    f.authorized = false ∧ finish checks f s = (some (.error .pinAuth), s) ∨
    f.authorized = true ∧ f.param = none ∧ finish checks f s = (some (.error .integrityFailure), s) ∨
    f.authorized = true ∧ finish checks f s = (some (.error .integrityFailure), reset s) ∨
    ∃ data key label, f.authorized = true ∧ f.param = some data ∧
      decode checks s.enrollment.active data = some (key, label) ∧
      finish checks f s = storeEnrollment f key label (reset s) := by
  unfold finish
  cases hauthorized : f.authorized with
  | false => exact .inl ⟨rfl, rfl⟩
  | true =>
    right
    rw [if_neg Bool.noConfusion]
    cases hparam : f.param with
    | none => exact .inl ⟨rfl, rfl, rfl⟩
    | some data =>
      right
      dsimp only
      by_cases hfile : f.vaultFile = false
      · rw [if_pos hfile]
        exact .inl ⟨rfl, rfl⟩
      rw [if_neg hfile]
      cases hdecode : decode checks s.enrollment.active data with
      | none => exact .inl ⟨rfl, rfl⟩
      | some kl =>
        obtain ⟨key, label⟩ := kl
        dsimp only
        by_cases hready : f.sdkInit = false ∨ f.keydev = false
        · rw [if_pos hready]
          exact .inl ⟨rfl, rfl⟩
        · rw [if_neg hready]
          exact .inr ⟨data, key, label, rfl, rfl, hdecode, rfl⟩

theorem finish_closes {f : Finish} (hauthorized : f.authorized = true)
    (hparam : f.param = none → s.enrollment.active = none) :
    (finish checks f s).2.enrollment.active = none := by
  rcases finish_cases checks f s with ⟨hno, -⟩ | ⟨-, hnone, h⟩ | ⟨-, h⟩ | ⟨data, key, label, -, -, -, h⟩
  · rw [hauthorized] at hno
    cases hno
  · rw [h]
    exact hparam hnone
  · rw [h]
    rfl
  · rw [h]
    exact (storeEnrollment_cases rfl).1

theorem finish_untouched {f : Finish} (hno : f.authorized = false) : (finish checks f s).2 = s := by
  unfold finish
  rw [if_pos hno]

theorem finish_key {f : Finish} (hchanged : (finish checks f s).2.kvault ≠ s.kvault) :
    ∃ data c key, f.authorized = true ∧ f.param = some data ∧ s.enrollment.active = some c ∧
      Authenticates checks c data key ∧ (finish checks f s).2.kvault = some key := by
  rcases finish_cases checks f s with ⟨-, h⟩ | ⟨-, -, h⟩ | ⟨-, h⟩ |
    ⟨data, key, label, hauthorized, hparam, hdecode, h⟩
  · rw [h] at hchanged
    exact absurd rfl hchanged
  · rw [h] at hchanged
    exact absurd rfl hchanged
  · rw [h] at hchanged
    exact absurd rfl hchanged
  · rw [h] at hchanged ⊢
    obtain ⟨c, hactive, hauthentic⟩ := decode_authenticates hdecode
    have hkey : (storeEnrollment f key label (reset s)).2.kvault = s.kvault ∨
        (storeEnrollment f key label (reset s)).2.kvault = some key := (storeEnrollment_cases rfl).2
    exact ⟨data, c, key, hauthorized, hparam, hactive, hauthentic, hkey.resolve_left hchanged⟩

theorem finish_failed {f : Finish} {e : Err} (hkey : f.storeKey ≠ .refused true)
    (hlabel : ∀ happened, f.storeLabel ≠ .refused happened) (hreloads : f.reloads = true)
    (he : (finish checks f s).1 = some (.error e)) :
    (finish checks f s).2.kvault = s.kvault ∧ (finish checks f s).2.label = s.label := by
  rcases finish_cases checks f s with ⟨-, h⟩ | ⟨-, -, h⟩ | ⟨-, h⟩ | ⟨data, key, label, -, -, -, h⟩
  · rw [h]
    exact ⟨rfl, rfl⟩
  · rw [h]
    exact ⟨rfl, rfl⟩
  · rw [h]
    exact ⟨rfl, rfl⟩
  · rw [h] at he ⊢
    exact storeEnrollment_failed (s := reset s) hkey hlabel hreloads he

end Ceremonies

/-! The button. -/

section Holding

variable {board : Board} {checks : Checks} {s : State}

theorem millis_eq (h : s.time < wrap) : s.millis = s.time := Nat.mod_eq_of_lt h

theorem minus_eq {a b : Nat} (hle : b ≤ a) (ha : a < wrap) : minus a b = a - b := by
  unfold minus
  unfold wrap at *
  omega

theorem Inv.elapse (h : Inv board s) {dt : Nat} (hdt : s.time + dt < wrap) : Inv board (s.elapse dt) := by
  have hproved : s.line.proved = true → (s.elapse dt).line.proved = true := by
    intro hp
    unfold State.elapse
    dsimp only
    rw [hp, Bool.true_or]
  refine ⟨hdt, Nat.le_trans h.since (Nat.le_add_right _ _), fun ha => hproved (h.accepted ha), ?_, ?_, ?_⟩
  · intro hpressed hlong hwindow
    have hpressed' : s.line.pressed = true := hpressed
    have hlong' : s.line.since + holdMs ≤ s.time + dt := hlong
    have hwindow' : s.line.since + holdMs < windowMs := hwindow
    unfold State.elapse
    dsimp only
    rw [hpressed', decide_eq_true hlong', decide_eq_true hwindow']
    exact Bool.or_true _
  · intro hboard hheld
    obtain ⟨hpressed, hstarted, hle, hfresh⟩ := h.measured hboard hheld
    exact ⟨hpressed, hstarted, Nat.le_trans hle (Nat.le_add_right _ _), hfresh⟩
  · intro hboard hfresh hlong htime
    have htime' : s.time + dt < windowMs := htime
    exact hproved (h.duration hboard hfresh hlong (by omega))

theorem Inv.move (h : Inv board s) {pressed : Bool}
    (hseen : board = .pico → s.button.holdState = true → pressed = true) : Inv board (s.move pressed) := by
  unfold State.move
  by_cases hsame : pressed = s.line.pressed
  · rw [if_pos hsame]
    exact h
  rw [if_neg hsame]
  refine ⟨h.uptime, Nat.le_refl _, h.accepted, ?_, ?_, h.duration⟩
  · intro _ hlong
    have hlong' : s.time + holdMs ≤ s.time := hlong
    unfold holdMs at hlong'
    omega
  · intro hboard hheld
    have hpressed := hseen hboard hheld
    obtain ⟨hold, -⟩ := h.measured hboard hheld
    exact absurd (hpressed.trans hold.symm) hsame

theorem move_pressed (s : State) (pressed : Bool) : (s.move pressed).line.pressed = pressed := by
  unfold State.move
  split_ifs with hsame
  · exact hsame.symm
  · rfl

theorem move_button (s : State) (pressed : Bool) : (s.move pressed).button = s.button := by
  unfold State.move
  split_ifs <;> rfl

theorem move_time (s : State) (pressed : Bool) : (s.move pressed).time = s.time := by
  unfold State.move
  split_ifs <;> rfl

theorem move_same {pressed : Bool} (h : pressed = s.line.pressed) : s.move pressed = s := by
  unfold State.move
  rw [if_pos h]

theorem Inv.long (h : Inv board s) (hboard : board = .pico) (hheld : s.button.holdState = true)
    (hfresh : s.line.fresh = true) (hlong : holdMs ≤ s.time - s.button.holdStarted)
    (hwindow : s.time < windowMs) : s.line.proved = true := by
  obtain ⟨hpressed, -, hle, hsince⟩ := h.measured hboard hheld
  have hbegin := hsince hfresh
  unfold holdMs at hlong
  apply h.attained hpressed
  · unfold holdMs
    omega
  · unfold holdMs
    omega

theorem buttonTask_idle {p : Poll} (h : Inv board s) (hidle : s.measures p = false) :
    Inv board (buttonTask board p s) := by
  unfold buttonTask
  by_cases hpolls : s.polls p = true
  swap
  · rw [if_neg hpolls]
    exact h
  rw [if_pos hpolls]
  have hwaiting : p.waiting = true := by
    unfold State.measures at hidle
    rw [hpolls, Bool.true_and] at hidle
    simpa using hidle
  rw [if_pos hwaiting]
  exact ⟨h.uptime, h.since, h.accepted, h.attained, h.measured, h.duration⟩

theorem buttonTask_measures (board : Board) {p : Poll} (hm : s.measures p = true) :
    1000 < s.millis ∧ buttonTask board p s = { s with
      button := measure (board.read s.line.pressed) s.millis { s.button with lastPoll := s.millis }
      line := { s.line with
        fresh := s.line.fresh || (board.read s.line.pressed && !s.button.holdState) } } := by
  unfold State.measures at hm
  rw [Bool.and_eq_true] at hm
  obtain ⟨hpolls, hwaiting⟩ := hm
  refine ⟨?_, ?_⟩
  · unfold State.polls at hpolls
    simp only [Bool.and_eq_true, decide_eq_true_eq] at hpolls
    exact hpolls.1.1.1
  · unfold buttonTask
    rw [if_pos hpolls, if_neg (by simpa using hwaiting)]

theorem measured_esp32 {b : Button} {fresh : Bool} (h : Inv .esp32 s) :
    Inv .esp32 { s with button := b, line := { s.line with fresh := fresh } } := by
  refine ⟨h.uptime, h.since, h.accepted, h.attained, ?_, ?_⟩
  · intro hboard
    cases hboard
  · intro hboard
    cases hboard

theorem measure_press {b : Button} (now : Nat) (h : b.holdState = false) :
    measure true now b = { b with holdState := true, holdStarted := now, duration := 0 } := by
  unfold measure
  rw [h]
  rfl

theorem measure_rest {b : Button} (now : Nat) (h : b.holdState = false) :
    measure false now b = { b with holdState := false } := by
  unfold measure
  rw [h]
  rfl

theorem measure_release {b : Button} (now : Nat) (h : b.holdState = true) (hstarted : b.holdStarted ≠ 0) :
    measure false now b =
      { b with holdState := false, duration := minus now b.holdStarted, holdStarted := 0 } := by
  unfold measure
  rw [h, if_neg hstarted]
  rfl

theorem measure_hold {b : Button} (now : Nat) (h : b.holdState = true) (hstarted : b.holdStarted ≠ 0) :
    measure true now b = { b with holdState := true, duration := minus now b.holdStarted } := by
  unfold measure
  rw [h, decide_eq_true hstarted]
  rfl

theorem measured_pico {pressed : Bool} {p : Poll} (h : Inv .pico s)
    (hm : (s.move pressed).measures p = true) : Inv .pico (buttonTask .pico p (s.move pressed)) := by
  have hread : Board.read .pico pressed = pressed := Bool.not_not pressed
  obtain ⟨hboot, heq⟩ := buttonTask_measures .pico hm
  have htime : (s.move pressed).millis = s.time := by
    unfold State.millis
    rw [move_time]
    exact Nat.mod_eq_of_lt h.uptime
  rw [htime] at hboot
  rw [heq, htime, move_pressed, move_button, hread]
  cases hheld : s.button.holdState with
  | false =>
    have hmoved : Inv .pico (s.move pressed) := by
      apply h.move
      intro _ htrue
      rw [hheld] at htrue
      cases htrue
    have hsince : (s.move pressed).line.since ≤ s.time := by
      rw [← move_time s pressed]
      exact hmoved.since
    cases pressed with
    | true =>
      -- a press begins
      rw [measure_press _ (by exact hheld)]
      refine ⟨hmoved.uptime, hmoved.since, hmoved.accepted, hmoved.attained, ?_, ?_⟩
      · exact fun _ _ => ⟨move_pressed s true, hboot, Nat.le_of_eq (move_time s true).symm, fun _ => hsince⟩
      · intro _ _ hlong
        have hzero : holdMs ≤ 0 := hlong
        exact absurd hzero (by decide)
    | false =>
      rw [measure_rest _ (by exact hheld)]
      refine ⟨hmoved.uptime, hmoved.since, hmoved.accepted, hmoved.attained, ?_, ?_⟩
      · intro _ htrue
        cases htrue
      · intro hboard hfresh hlong hwindow
        apply hmoved.duration hboard _ _ hwindow
        · simpa using hfresh
        · rw [move_button]
          exact hlong
  | true =>
    obtain ⟨hpressed, hstarted, hle, hsince⟩ := h.measured rfl hheld
    have hne : s.button.holdStarted ≠ 0 := by omega
    have hminus := minus_eq hle h.uptime
    cases pressed with
    | true =>
      -- the button is still held
      rw [measure_hold _ (by exact hheld) (by exact hne), move_same hpressed.symm]
      refine ⟨h.uptime, h.since, h.accepted, h.attained, ?_, ?_⟩
      · intro hboard _
        refine ⟨hpressed, hstarted, hle, ?_⟩
        simpa using hsince
      · intro hboard hfresh hlong hwindow
        have hlong' : holdMs ≤ s.time - s.button.holdStarted := by
          rw [← hminus]
          exact hlong
        exact h.long rfl hheld (by simpa using hfresh) hlong' hwindow
    | false =>
      -- a hold ends in this instant
      rw [measure_release _ (by exact hheld) (by exact hne)]
      have hmoved : s.move false = { s with line := { s.line with pressed := false, since := s.time } } := by
        unfold State.move
        rw [if_neg (by rw [hpressed]; exact Bool.false_ne_true)]
      rw [hmoved]
      refine ⟨h.uptime, Nat.le_refl _, h.accepted, ?_, ?_, ?_⟩
      · intro hfalse
        cases hfalse
      · intro _ hfalse
        cases hfalse
      · intro hboard hfresh hlong hwindow
        have hlong' : holdMs ≤ s.time - s.button.holdStarted := by
          rw [← hminus]
          exact hlong
        exact h.long rfl hheld (by simpa using hfresh) hlong' hwindow

theorem inv_task {dt : Nat} {pressed : Bool} {p : Poll} (h : Inv board s)
    (hsafe : Safe board s (.task dt pressed p)) :
    Inv board (buttonTask board p ((s.elapse dt).move pressed)) := by
  obtain ⟨hdt, hseen⟩ := hsafe
  have helapsed := h.elapse hdt
  cases hm : ((s.elapse dt).move pressed).measures p with
  | true =>
    cases board with
    | pico => exact measured_pico helapsed hm
    | esp32 =>
      have hmoved : Inv .esp32 ((s.elapse dt).move pressed) := by
        apply helapsed.move
        intro hboard
        cases hboard
      rw [(buttonTask_measures .esp32 hm).2]
      exact measured_esp32 hmoved
  | false =>
    refine buttonTask_idle (helapsed.move ?_) hm
    intro hboard hheld
    have hpressed : s.line.pressed = true := (h.measured hboard hheld).1
    -- a release would have been measured
    by_contra hreleased
    have hseen' := hseen hheld hpressed (Bool.eq_false_iff.mpr hreleased)
    rw [hm] at hseen'
    cases hseen'

theorem Inv.ready (h : Inv board s) (hsafe : Safe board s .status) (hready : (buttonReady s).1 = true) :
    s.line.proved = true := by
  obtain ⟨hstale, hactive⟩ := hsafe
  unfold buttonReady at hready
  by_cases hclosed : ¬ s.millis < windowMs ∧ s.enrollment.active = none
  · rw [if_pos hclosed] at hready
    cases hready
  rw [if_neg hclosed, Bool.or_eq_true, decide_eq_true_eq] at hready
  rcases hready with haccepted | hlong
  · exact h.accepted haccepted
  have hwindow : s.time < windowMs := by
    rcases hactive with hwindow | hnone
    · exact hwindow
    · have hopen := not_not.mp fun hno => hclosed ⟨hno, hnone⟩
      rwa [millis_eq h.uptime] at hopen
  have hfresh : ¬ (board = .esp32 ∨ s.line.fresh = false) := by
    intro hcase
    exact absurd hlong (Nat.not_le.mpr (hstale hcase))
  cases board with
  | esp32 => exact absurd (.inl rfl) hfresh
  | pico => exact h.duration rfl (by simpa using hfresh) hlong hwindow

theorem inv_buttonReady (h : Inv board s) (hsafe : Safe board s .status) : Inv board (buttonReady s).2 := by
  have hready := h.ready hsafe
  unfold buttonReady at hready ⊢
  by_cases hclosed : ¬ s.millis < windowMs ∧ s.enrollment.active = none
  · rw [if_pos hclosed]
    refine ⟨h.uptime, h.since, ?_, h.attained, h.measured, ?_⟩
    · intro hfalse
      cases hfalse
    · intro _ _ hlong
      have hzero : holdMs ≤ 0 := hlong
      exact absurd hzero (by decide)
  · rw [if_neg hclosed] at hready ⊢
    exact ⟨h.uptime, h.since, hready, h.attained, h.measured, h.duration⟩

theorem inv_reset (h : Inv board s) : Inv board (reset s) := by
  refine ⟨h.uptime, h.since, ?_, h.attained, h.measured, ?_⟩
  · intro hfalse
    cases hfalse
  · intro _ _ hlong
    have hzero : holdMs ≤ 0 := hlong
    exact absurd hzero (by decide)

theorem inv_stored (h : Inv board s) (kvault : Option Bytes) (label : Bytes) :
    Inv board { s with kvault := kvault, label := label } :=
  ⟨h.uptime, h.since, h.accepted, h.attained, h.measured, h.duration⟩

theorem inv_reboot (s : State) (pressed : Bool) : Inv board (s.reboot pressed) := by
  have huptime : 0 < wrap := by decide
  refine ⟨huptime, Nat.le_refl _, ?_, ?_, ?_, ?_⟩
  · intro hfalse
    cases hfalse
  · intro _ hlong
    have hzero : 0 + holdMs ≤ 0 := hlong
    exact absurd hzero (by decide)
  · intro _ hfalse
    cases hfalse
  · intro _ _ hlong
    have hzero : holdMs ≤ 0 := hlong
    exact absurd hzero (by decide)

theorem start_cases (authorized : Bool) (generated : Option Ceremony) (s : State) :
    (∃ e, start authorized generated s = (.error e, s)) ∨
    start authorized generated s = (.error .notAllowed, (buttonReady s).2) ∨
    (buttonReady s).1 = true ∧ start authorized generated s =
      (.error .processing, reset (clear (buttonReady s).2)) ∨
    ∃ c, (buttonReady s).1 = true ∧ start authorized generated s = (.ok (), { clear (buttonReady s).2 with
      enrollment := { active := some c }
      line := { (buttonReady s).2.line with
        since := (buttonReady s).2.time, proved := false, fresh := false } }) := by
  unfold start
  cases authorized with
  | false => exact .inl ⟨.pinAuth, rfl⟩
  | true =>
    right
    rw [if_neg Bool.noConfusion]
    dsimp only
    cases hready : (buttonReady s).1 with
    | false => exact .inl rfl
    | true =>
      right
      rw [if_neg Bool.noConfusion]
      cases generated with
      | none => exact .inl ⟨rfl, rfl⟩
      | some c => exact .inr ⟨c, rfl, rfl⟩

theorem inv_start {authorized : Bool} {generated : Option Ceremony} (h : Inv board s)
    (hsafe : Safe board s (.start authorized generated)) :
    Inv board (start authorized generated s).2 ∧
      ((start authorized generated s).1 = .ok () → s.line.proved = true) := by
  have hready := inv_buttonReady h hsafe
  rcases start_cases authorized generated s with ⟨e, heq⟩ | heq | ⟨hopen, heq⟩ | ⟨c, hopen, heq⟩
  · rw [heq]
    refine ⟨h, ?_⟩
    intro hok
    cases hok
  · rw [heq]
    refine ⟨hready, ?_⟩
    intro hok
    cases hok
  · rw [heq]
    exact ⟨inv_reset (s := clear _) ⟨hready.uptime, hready.since, Bool.noConfusion, hready.attained,
      hready.measured, hready.duration⟩, fun _ => h.ready hsafe hopen⟩
  · rw [heq]
    refine ⟨⟨hready.uptime, Nat.le_refl _, ?_, ?_, ?_, ?_⟩, fun _ => h.ready hsafe hopen⟩
    · intro hfalse
      cases hfalse
    · intro _ hlong
      have hlong' : (buttonReady s).2.time + holdMs ≤ (buttonReady s).2.time := hlong
      unfold holdMs at hlong'
      omega
    · intro hboard hheld
      obtain ⟨hpressed, hstarted, hle, -⟩ := hready.measured hboard hheld
      refine ⟨hpressed, hstarted, hle, ?_⟩
      intro hfalse
      cases hfalse
    · intro _ hfalse
      cases hfalse

theorem inv_storeEnrollment {f : Finish} {key label : Bytes} (h : Inv board s) :
    Inv board (storeEnrollment f key label s).2 := by
  unfold storeEnrollment
  cases f.storeKey with
  | powerLoss => exact inv_reboot _ _
  | refused happened =>
    cases happened with
    | false => exact inv_reset h
    | true => exact inv_stored (inv_reset h) _ _
  | ok =>
    cases f.storeLabel with
    | powerLoss => exact inv_reboot _ _
    | refused happened =>
      cases happened with
      | false => exact inv_stored (inv_reset h) _ _
      | true => exact inv_stored (inv_reset h) _ _
    | ok => exact inv_stored h _ _

theorem inv_finish {f : Finish} (h : Inv board s) : Inv board (finish checks f s).2 := by
  rcases finish_cases checks f s with ⟨-, heq⟩ | ⟨-, -, heq⟩ | ⟨-, heq⟩ | ⟨data, key, label, -, -, -, heq⟩
  · rw [heq]
    exact h
  · rw [heq]
    exact h
  · rw [heq]
    exact inv_reset h
  · rw [heq]
    exact inv_storeEnrollment (inv_reset h)

end Holding

/-! Whole runs. -/

section Runs

variable {board : Board} {checks : Checks} {s : State}

theorem lawful_of_other {i : Input} (hother : ∀ f, i ≠ .finish f)
    (hkey : (step board checks s i).kvault = s.kvault)
    (hheld : ∀ authorized generated, i = .start authorized generated →
      (start authorized generated s).1 = .ok () → s.line.proved = true) : Lawful board checks s i where
  key hchanged := absurd hkey hchanged
  closed f hf := absurd hf (hother f)
  untouched f hf := absurd hf (hother f)
  failed f _ hf := absurd hf (hother f)
  held := hheld

theorem buttonReady_kvault (s : State) : (buttonReady s).2.kvault = s.kvault := by
  unfold buttonReady
  split_ifs <;> rfl

theorem start_kvault (authorized : Bool) (generated : Option Ceremony) (s : State) :
    (start authorized generated s).2.kvault = s.kvault := by
  have hready := buttonReady_kvault s
  rcases start_cases authorized generated s with ⟨e, heq⟩ | heq | ⟨-, heq⟩ | ⟨c, -, heq⟩
  · rw [heq]
  · rw [heq]
    exact hready
  · rw [heq]
    exact hready
  · rw [heq]
    exact hready

theorem task_kvault (dt : Nat) (pressed : Bool) (p : Poll) :
    (buttonTask board p ((s.elapse dt).move pressed)).kvault = s.kvault := by
  unfold buttonTask State.move
  split_ifs <;> rfl

theorem lawful_finish {f : Finish} (hsafe : Safe board s (.finish f)) :
    Lawful board checks s (.finish f) := by
  refine ⟨?_, ?_, ?_, ?_, ?_⟩
  · intro hchanged
    obtain ⟨data, c, key, hauthorized, hparam, hactive, hauthentic, hkey⟩ := finish_key hchanged
    exact ⟨f, data, c, key, rfl, hauthorized, hparam, hactive, hauthentic, hkey⟩
  · intro g hg hauthorized
    obtain rfl := Input.finish.inj hg
    exact finish_closes hauthorized (hsafe hauthorized).1
  · intro g hg hno
    obtain rfl := Input.finish.inj hg
    exact finish_untouched hno
  · intro g e hg he
    obtain rfl := Input.finish.inj hg
    cases hauthorized : f.authorized with
    | false =>
      have hsame : step board checks s (.finish f) = s := finish_untouched hauthorized
      rw [hsame]
      exact ⟨rfl, rfl⟩
    | true =>
      obtain ⟨-, hkey, hlabel, hreloads⟩ := hsafe hauthorized
      exact finish_failed hkey hlabel hreloads he
  · intro authorized generated hstart
    cases hstart

theorem inv_step (s : State) (i : Input) (hsafe : Safe board s i) (h : Inv board s) :
    Inv board (step board checks s i) ∧ Lawful board checks s i := by
  cases i with
  | task dt pressed p =>
    refine ⟨inv_task h hsafe, lawful_of_other ?_ (task_kvault dt pressed p) ?_⟩
    · intro f hf
      cases hf
    · intro authorized generated hstart
      cases hstart
  | status =>
    refine ⟨inv_buttonReady h hsafe, lawful_of_other ?_ (buttonReady_kvault s) ?_⟩
    · intro f hf
      cases hf
    · intro authorized generated hstart
      cases hstart
  | start authorized generated =>
    obtain ⟨hinv, hheld⟩ := inv_start h hsafe
    refine ⟨hinv, lawful_of_other ?_ (start_kvault authorized generated s) ?_⟩
    · intro f hf
      cases hf
    · intro a g hstart
      obtain ⟨rfl, rfl⟩ := Input.start.inj hstart
      exact hheld
  | finish f => exact ⟨inv_finish h, lawful_finish hsafe⟩
  | reboot pressed =>
    refine ⟨inv_reboot s pressed, lawful_of_other ?_ rfl ?_⟩
    · intro f hf
      cases hf
    · intro authorized generated hstart
      cases hstart

end Runs

/-- A device without a vault. -/
def unenrolled : State where
  line := { pressed := false }
  kvault := none
  label := []

def sampleCeremony : Ceremony := ⟨[1], [2], [3]⟩

/-- One certificate, and one packet that opens under the sample ceremony. -/
def sampleChecks : Checks where
  certificate c := if c = [0x30] then some [4] else none
  decap _ c pub _ _ := if c = sampleCeremony ∧ pub = [4] then some (List.replicate keySize 7) else none

def samplePacket : Bytes :=
  [0, 1, 0x30] ++ List.replicate x448Bytes 0 ++ List.replicate (keySize + tagSize) 0

end KeyWallet.Enroll
