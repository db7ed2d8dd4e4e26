import KeyWallet.StepSystem

/-! The two queues between the USB side and the card thread: usb_send_event, card_start, card_exit and
card_status of usb.c, beside the loops of cbor_thread and apdu_thread and the wait of wait_button_pressed. On
the ESP32 the callbacks that receive run in a task of their own, beside the loop that polls. -/
namespace KeyWallet.Worker

open StepSystem

/-- The events to the card thread. -/
inductive CardEvent
  | cmdAvailable
  | exit
  | buttonTimeout
  | buttonPressed
  | buttonCancelled
  deriving DecidableEq, Repr

/-- The events to the USB side; a thread acknowledges `m` with `m + 1`. -/
inductive UsbEvent
  | ack (m : CardEvent)
  | execFinished
  | pressButton
  deriving DecidableEq, Repr

/-- The events that end wait_button_pressed. -/
def CardEvent.isButton (m : CardEvent) : Bool :=
  decide (m = .buttonPressed ∨ m = .buttonTimeout ∨ m = .buttonCancelled)

/-- The length of both queues. -/
def queueLength : Nat := 64

inductive Kind
  | cbor
  | apdu
  deriving DecidableEq, Repr

inductive Itf
  | hid
  | ccid
  | wcid
  deriving DecidableEq, Repr

/-- Where a thread is. -/
inductive Pc
  -- at queue_remove_blocking, at the head of the loop
  | idle
  | ack (m : CardEvent)
  -- in the command
  | run
  -- in the loop of wait_button_pressed
  | wait
  -- about to add EV_EXEC_FINISHED
  | finish
  | gone
  deriving DecidableEq, Repr

structure Thread where
  kind : Kind
  pc : Pc := .idle
  deriving DecidableEq, Repr

/-- card_locked_itf and card_locked_func. -/
structure Port where
  itf : Itf
  kind : Kind
  deriving DecidableEq, Repr

/-- Where a callback is that sends an event. `next` is the thread that card_start launches behind card_exit. -/
inductive Usb
  | free
  | sending
  | leaving (next : Option Port)
  | awaiting (next : Option Port)
  | drainCard (next : Option Port)
  | drainUsb (next : Option Port)
  deriving DecidableEq, Repr

/-- The threads are the one that was launched last, and those that were launched before it. -/
structure State where
  toCard : List CardEvent := []
  toUsb : List UsbEvent := []
  current : Option Thread := none
  old : List Thread := []
  usb : Usb := .free
  locked : Option Port := none
  -- is_busy
  busy : Bool := false
  -- async_button_wait
  buttonWait : Bool := false
  -- the commands that were sent, that a thread began, and that card_status has seen finished
  sent : Nat := 0
  executed : Nat := 0
  finished : Nat := 0
  deriving DecidableEq, Repr

inductive Input
  -- a packet with a command: card_start, then EV_CMD_AVAILABLE
  | command (p : Port)
  -- CTAPHID_INIT
  | init
  -- the callback goes on in usb_send_event or card_exit
  | proceed
  -- card_status, from the loop
  | poll (itf : Itf)
  -- the end of a presence wait, from the loop
  | button (m : CardEvent)
  -- the current thread goes on; in a command it may ask for presence next
  | thread (asks : Bool)
  | oldThread (n : Nat) (asks : Bool)
  deriving DecidableEq, Repr

/-- A queue with room, for a message that waits for it. -/
def hasRoom {α : Type} (q : List α) : Bool := decide (q.length < queueLength)

/-- queue_try_add. -/
def tryAdd {α : Type} (q : List α) (m : α) : List α := if hasRoom q then q ++ [m] else q

/-- What a thread and the queues are after a step of it, and whether it began a command. -/
structure Moved where
  thread : Thread
  toCard : List CardEvent
  toUsb : List UsbEvent
  began : Bool := false
  deriving DecidableEq, Repr

/-- A step of a thread. apdu_thread does not acknowledge EV_CMD_AVAILABLE. -/
def Thread.step (t : Thread) (asks : Bool) (toCard : List CardEvent) (toUsb : List UsbEvent) : Moved :=
  match t.pc with
  | .idle =>
    match toCard with
    | [] => ⟨t, toCard, toUsb, false⟩
    | m :: rest =>
      if t.kind = .apdu ∧ m = .cmdAvailable then ⟨{ t with pc := .run }, rest, toUsb, true⟩
      else ⟨{ t with pc := .ack m }, rest, toUsb, false⟩
  | .ack m =>
    if hasRoom toUsb then
      if m = .exit then ⟨{ t with pc := .gone }, toCard, toUsb ++ [.ack m], false⟩
      else ⟨{ t with pc := .run }, toCard, toUsb ++ [.ack m], true⟩
    else ⟨t, toCard, toUsb, false⟩
  | .run =>
    if asks then ⟨{ t with pc := .wait }, toCard, tryAdd toUsb .pressButton, false⟩
    else ⟨{ t with pc := .finish }, toCard, toUsb, false⟩
  | .wait =>
    match toCard with
    | [] => ⟨t, toCard, toUsb, false⟩
    | m :: rest => ⟨{ t with pc := if m.isButton then .run else .wait }, rest, toUsb, false⟩
  | .finish =>
    if hasRoom toUsb then ⟨{ t with pc := .idle }, toCard, toUsb ++ [.execFinished], false⟩
    else ⟨t, toCard, toUsb, false⟩
  | .gone => ⟨t, toCard, toUsb, false⟩

/-- multicore_launch_func_core1. On the ESP32 card_exit has cleared `hcore1`, so no thread is taken down. -/
def State.launch (s : State) (p : Port) : State :=
  { s with
    old := s.old ++ s.current.toList, current := some ⟨p.kind, .idle⟩, locked := some p, usb := .sending }

/-- The rest of card_exit, and of card_start behind it. -/
def State.left (s : State) (next : Option Port) : State :=
  match next with
  | none => { s with usb := .free, locked := none }
  | some p => { s with locked := none }.launch p

/-- The callback goes on. -/
def State.proceed (s : State) : State :=
  match s.usb with
  | .free => s
  | .sending =>
    if hasRoom s.toCard then
      { s with toCard := s.toCard ++ [.cmdAvailable], usb := .free, busy := true, sent := s.sent + 1 }
    else s
  | .leaving next =>
    if hasRoom s.toCard then { s with toCard := s.toCard ++ [.exit], usb := .awaiting next } else s
  | .awaiting next =>
    -- any message is taken for the acknowledgement
    match s.toUsb with
    | [] => s
    | _ :: rest => { s with toUsb := rest, usb := .drainCard next }
  | .drainCard next =>
    match s.toCard with
    | [] => { s with usb := .drainUsb next }
    | _ :: rest => { s with toCard := rest }
  | .drainUsb next =>
    match s.toUsb with
    | [] => s.left next
    | _ :: rest => { s with toUsb := rest }

/-- card_status. -/
def State.poll (s : State) (itf : Itf) : State :=
  if (s.locked.map (·.itf)) = some itf ∧ s.busy then
    match s.toUsb with
    | [] => s
    | .execFinished :: rest => { s with toUsb := rest, busy := false, finished := s.finished + 1 }
    | .pressButton :: rest => { s with toUsb := rest, buttonWait := true }
    | .ack _ :: rest => { s with toUsb := rest }
  else s

/-- The loop stands at the mutex while usb_send_event holds it at a full queue. -/
def State.mutexHeld (s : State) : Bool :=
  match s.usb with
  | .sending => !hasRoom s.toCard
  | .leaving _ => !hasRoom s.toCard
  | _ => false

/-- card_start and usb_send_event(EV_CMD_AVAILABLE), which is_busy follows. -/
def State.command (s : State) (p : Port) : State :=
  if s.usb ≠ .free then s
  else if s.locked = some p then { s with busy := true, usb := .sending }
  else if s.locked.isSome then { s with busy := true, usb := .leaving (some p) }
  else { s with busy := true }.launch p

/-- card_exit, from CTAPHID_INIT. -/
def State.exit (s : State) : State :=
  if s.usb ≠ .free ∨ s.locked = none then s else { s with usb := .leaving none }

/-- The end of button_wait_poll. -/
def State.button (s : State) (m : CardEvent) : State :=
  if s.buttonWait ∧ m.isButton then { s with toCard := tryAdd s.toCard m, buttonWait := false } else s

/-- What becomes of a state where its current thread moves. -/
def State.moved (s : State) (m : Moved) : State :=
  { s with
    current := some m.thread, toCard := m.toCard, toUsb := m.toUsb
    executed := if m.began then s.executed + 1 else s.executed }

def State.oldMoved (s : State) (n : Nat) (m : Moved) : State :=
  { s with
    old := s.old.set n m.thread, toCard := m.toCard, toUsb := m.toUsb
    executed := if m.began then s.executed + 1 else s.executed }

def step (s : State) : Input → State
  | .command p => s.command p
  | .init => s.exit
  | .proceed => s.proceed
  | .poll itf => if s.mutexHeld then s else s.poll itf
  | .button m => s.button m
  | .thread asks => s.current.elim s fun t => s.moved (t.step asks s.toCard s.toUsb)
  | .oldThread n asks => (s.old[n]?).elim s fun t => s.oldMoved n (t.step asks s.toCard s.toUsb)

def boot : State := {}

/-- The threads that have not left their loop. -/
def State.alive (s : State) : List Thread :=
  (s.old ++ s.current.toList).filter fun t => decide (t.pc ≠ .gone)

/-- The callback waits in card_start for the acknowledgement of an exit, and it is there. -/
def State.handsOver (s : State) : Bool :=
  match s.usb with
  | .awaiting (some _) => !s.toUsb.isEmpty
  | _ => false

/-- A packet with a command or a CTAPHID_INIT comes when nothing is being executed, and the loop does not poll
between the acknowledgement of an exit in card_start and its removal. -/
def Polite (s : State) : Input → Prop
  | .command _ => s.busy = false
  | .init => s.busy = false
  | .poll _ => s.handsOver = false
  | _ => True

instance Polite.decidable (s : State) : ∀ i, Decidable (Polite s i)
  | .command _ => inferInstanceAs (Decidable (s.busy = false))
  | .init => inferInstanceAs (Decidable (s.busy = false))
  | .poll _ => inferInstanceAs (Decidable (s.handsOver = false))
  | .proceed => .isTrue trivial
  | .button _ => .isTrue trivial
  | .thread _ => .isTrue trivial
  | .oldThread _ _ => .isTrue trivial

/-! What the queues hold in each phase of a command, and of an exit. -/

/-- What may be left of the acknowledgement of a command. -/
def Acked (u : List UsbEvent) : Prop := u = [] ∨ u = [.ack .cmdAvailable]

/-- A command on its way: where its thread is, the queues, the flag of the wait, and how often it was begun. -/
inductive Underway : Pc → List CardEvent → List UsbEvent → Bool → Nat → Prop
  | sent : Underway .idle [.cmdAvailable] [] false 0
  | taken : Underway (.ack .cmdAvailable) [] [] false 0
  | running {u : List UsbEvent} (hu : Acked u) : Underway .run [] u false 1
  | asked {u : List UsbEvent} (hu : Acked u) : Underway .wait [] (u ++ [.pressButton]) false 1
  | shown : Underway .wait [] [] true 1
  | answered {m : CardEvent} (hm : m.isButton = true) : Underway .wait [m] [] false 1
  | finishing {u : List UsbEvent} (hu : Acked u) : Underway .finish [] u false 1
  | done {u : List UsbEvent} (hu : Acked u) : Underway .idle [] (u ++ [.execFinished]) false 1

/-- An exit on its way: where the thread is, and the queues. -/
inductive Exiting : Pc → List CardEvent → List UsbEvent → Prop
  | sent : Exiting .idle [.exit] []
  | taken : Exiting (.ack .exit) [] []
  | acked : Exiting .gone [] [.ack .exit]

/-- Every command that was sent has been executed once, and its end has been seen once. -/
structure Settled (s : State) : Prop where
  buttonWait : s.buttonWait = false
  executed : s.executed = s.sent
  finished : s.finished = s.sent

structure Quiet (s : State) : Prop extends Settled s where
  toCard : s.toCard = []
  toUsb : s.toUsb = []

/-- The thread of the port is at the head of its loop; where no port is locked the last thread has left. -/
def Stands (s : State) : Prop :=
  match s.locked with
  | none => ∀ t ∈ s.current, t.pc = .gone
  | some p => s.current = some ⟨p.kind, .idle⟩

inductive Phase (s : State) : Prop
  | rest (husb : s.usb = .free) (hbusy : s.busy = false) (hquiet : Quiet s) (hstands : Stands s)
  | sending (p : Port) (husb : s.usb = .sending) (hquiet : Quiet s) (hlocked : s.locked = some p)
      (hcurrent : s.current = some ⟨p.kind, .idle⟩)
  | underway (p : Port) (pc : Pc) (n : Nat) (husb : s.usb = .free) (hbusy : s.busy = true)
      (hlocked : s.locked = some p) (hcurrent : s.current = some ⟨p.kind, pc⟩)
      (hunder : Underway pc s.toCard s.toUsb s.buttonWait n) (hsent : s.sent = s.finished + 1)
      (hexecuted : s.executed = s.finished + n)
  | leaving (p : Port) (next : Option Port) (husb : s.usb = .leaving next) (hbusy : s.busy = next.isSome)
      (hquiet : Quiet s) (hlocked : s.locked = some p) (hcurrent : s.current = some ⟨p.kind, .idle⟩)
  | exiting (p : Port) (next : Option Port) (pc : Pc) (husb : s.usb = .awaiting next)
      (hbusy : s.busy = next.isSome) (hsettled : Settled s) (hlocked : s.locked = some p) (hcurrent : s.current = some ⟨p.kind, pc⟩)
      (hexit : Exiting pc s.toCard s.toUsb)
  | draining (p : Port) (next : Option Port) (husb : s.usb = .drainCard next ∨ s.usb = .drainUsb next)
      (hbusy : s.busy = next.isSome) (hquiet : Quiet s) (hlocked : s.locked = some p) (hcurrent : s.current = some ⟨p.kind, .gone⟩)

structure Good (s : State) : Prop where
  old : ∀ t ∈ s.old, t.pc = .gone
  phase : Phase s

section Steps

variable {s : State}

theorem gone_step {t : Thread} (h : t.pc = .gone) (asks : Bool) (c : List CardEvent) (u : List UsbEvent) :
    t.step asks c u = ⟨t, c, u, false⟩ := by
  unfold Thread.step
  rw [h]

theorem step_current {t : Thread} (hcurrent : s.current = some t) (asks : Bool) :
    step s (.thread asks) = s.moved (t.step asks s.toCard s.toUsb) := by
  show s.current.elim s _ = _
  rw [hcurrent]
  rfl

/-- A thread that neither moves nor takes nor sends anything. -/
theorem moved_same {t : Thread} (hcurrent : s.current = some t) : s.moved ⟨t, s.toCard, s.toUsb, false⟩ = s := by
  unfold State.moved
  rw [← hcurrent]
  rfl

/-- A thread that has left does nothing. -/
theorem step_current_gone {t : Thread} (hcurrent : s.current = some t) (h : t.pc = .gone) (asks : Bool) :
    step s (.thread asks) = s := by
  rw [step_current hcurrent, gone_step h, moved_same hcurrent]

theorem step_old_gone (h : ∀ t ∈ s.old, t.pc = .gone) (n : Nat) (asks : Bool) :
    step s (.oldThread n asks) = s := by
  show (s.old[n]?).elim s _ = s
  cases hn : s.old[n]? with
  | none => rfl
  | some t =>
    have hgone := h t (List.mem_of_getElem? hn)
    obtain ⟨hlt, hget⟩ := List.getElem?_eq_some_iff.mp hn
    have hset : s.old.set n t = s.old := by
      rw [← hget]
      exact List.set_getElem_self hlt
    rw [Option.elim_some, gone_step hgone]
    unfold State.oldMoved
    rw [hset]
    rfl

theorem step_busy_callback (h : s.usb ≠ .free) (p : Port) : step s (.command p) = s := if_pos h

theorem step_busy_init (h : s.usb ≠ .free) : step s .init = s := if_pos (.inl h)

/-- Without a presence wait there is no event of a button. -/
theorem step_button_idle (h : s.buttonWait = false) (m : CardEvent) : step s (.button m) = s := by
  apply if_neg
  intro hwait
  exact Bool.false_ne_true (h.symm.trans hwait.1)

/-- Without a message card_status leaves everything as it is. -/
theorem step_poll_nil (h : s.toUsb = []) (itf : Itf) : step s (.poll itf) = s := by
  show (if s.mutexHeld then s else s.poll itf) = s
  unfold State.poll
  rw [h]
  split_ifs <;> rfl

theorem step_poll_idle (h : s.busy = false) (itf : Itf) : step s (.poll itf) = s := by
  show (if s.mutexHeld then s else s.poll itf) = s
  unfold State.poll
  rw [h]
  simp only [Bool.false_eq_true, and_false, if_false, ite_self]

theorem step_poll_free {itf : Itf} (h : s.usb = .free) : step s (.poll itf) = s.poll itf := by
  show (if s.mutexHeld then s else s.poll itf) = s.poll itf
  unfold State.mutexHeld
  rw [h]
  rfl

theorem idle_step {t : Thread} (h : t.pc = .idle) (asks : Bool) (u : List UsbEvent) :
    t.step asks [] u = ⟨t, [], u, false⟩ := by
  unfold Thread.step
  rw [h]

/-- A thread at the head of its loop waits for an event. -/
theorem step_current_idle {t : Thread} (hcurrent : s.current = some t) (h : t.pc = .idle)
    (hcard : s.toCard = []) (asks : Bool) : step s (.thread asks) = s := by
  rw [step_current hcurrent, hcard, idle_step h, ← hcard, moved_same hcurrent]

end Steps

section Phases

variable {s : State}

theorem command_first (husb : s.usb = .free) (hlocked : s.locked = none) (p : Port) :
    s.command p = { s with busy := true }.launch p := by
  unfold State.command
  simp only [husb, hlocked, ne_eq, not_true_eq_false, reduceCtorEq, Option.isSome_none, Bool.false_eq_true, if_false]

theorem command_again {p : Port} (husb : s.usb = .free) (hlocked : s.locked = some p) :
    s.command p = { s with busy := true, usb := .sending } := by
  unfold State.command
  rw [if_neg (not_not_intro husb), if_pos hlocked]

theorem command_other {p q : Port} (husb : s.usb = .free) (hlocked : s.locked = some q) (hne : q ≠ p) :
    s.command p = { s with busy := true, usb := .leaving (some p) } := by
  have hother : s.locked ≠ some p := fun h => hne (Option.some.inj (hlocked.symm.trans h))
  unfold State.command
  rw [if_neg (not_not_intro husb), if_neg hother, if_pos (by rw [hlocked]; rfl)]

theorem Settled.quiet {t : State} (h : Settled s) (hwait : t.buttonWait = s.buttonWait)
    (hexecuted : t.executed = s.executed) (hfinished : t.finished = s.finished) (hsent : t.sent = s.sent)
    (hcard : t.toCard = []) (husb : t.toUsb = []) : Quiet t :=
  ⟨⟨hwait.trans h.buttonWait, (hexecuted.trans h.executed).trans hsent.symm,
    (hfinished.trans h.finished).trans hsent.symm⟩, hcard, husb⟩

theorem Good.rests (h : Good s) (husb : s.usb = .free) (hbusy : s.busy = false) : Quiet s ∧ Stands s := by
  cases h.phase with
  | rest _ _ hquiet hstands => exact ⟨hquiet, hstands⟩
  | underway _ _ _ _ hyes => cases hyes.symm.trans hbusy
  | sending _ hother => cases hother.symm.trans husb
  | leaving _ _ hother => cases hother.symm.trans husb
  | exiting _ _ _ hother => cases hother.symm.trans husb
  | draining _ _ hother => rcases hother with hother | hother <;> cases hother.symm.trans husb

/-- A presence wait is one of the command that is on its way. -/
theorem Good.waits (h : Good s) (hwait : s.buttonWait = true) :
    ∃ p : Port, s.usb = .free ∧ s.busy = true ∧ s.locked = some p ∧ s.current = some ⟨p.kind, .wait⟩ ∧
      s.toCard = [] ∧ s.toUsb = [] ∧ s.sent = s.finished + 1 ∧ s.executed = s.finished + 1 := by
  cases h.phase with
  | rest _ _ hquiet => cases hwait.symm.trans hquiet.buttonWait
  | sending _ _ hquiet => cases hwait.symm.trans hquiet.buttonWait
  | leaving _ _ _ _ hquiet => cases hwait.symm.trans hquiet.buttonWait
  | exiting _ _ _ _ _ hsettled => cases hwait.symm.trans hsettled.buttonWait
  | draining _ _ _ _ hquiet => cases hwait.symm.trans hquiet.buttonWait
  | underway p pc n husb hbusy hlocked hcurrent hunder hsent hexecuted =>
    generalize hcard : s.toCard = c at hunder
    generalize husbq : s.toUsb = u at hunder
    rw [hwait] at hunder
    cases hunder with
    | shown => exact ⟨p, husb, hbusy, hlocked, hcurrent, rfl, rfl, hsent, hexecuted⟩

theorem Good.command (h : Good s) (p : Port) (hbusy : s.busy = false) : Good (step s (.command p)) := by
  by_cases husb : s.usb = .free
  swap
  · rwa [step_busy_callback husb]
  show Good (s.command p)
  obtain ⟨hquiet, hstands⟩ := h.rests husb hbusy
  unfold Stands at hstands
  cases hlocked : s.locked with
  | none =>
    rw [hlocked] at hstands
    rw [command_first husb hlocked]
    refine ⟨?_, .sending p rfl (hquiet.quiet rfl rfl rfl rfl hquiet.toCard hquiet.toUsb) rfl rfl⟩
    intro t ht
    rcases List.mem_append.mp ht with hold | hlast
    · exact h.old t hold
    · exact hstands t (Option.mem_toList.mp hlast)
  | some q =>
    rw [hlocked] at hstands
    by_cases hsame : q = p
    · subst hsame
      rw [command_again husb hlocked]
      exact ⟨h.old, .sending q rfl (hquiet.quiet rfl rfl rfl rfl hquiet.toCard hquiet.toUsb) hlocked hstands⟩
    · rw [command_other husb hlocked hsame]
      exact ⟨h.old, .leaving q (some p) rfl rfl (hquiet.quiet rfl rfl rfl rfl hquiet.toCard hquiet.toUsb) hlocked
        hstands⟩

theorem exit_locked {p : Port} (husb : s.usb = .free) (hlocked : s.locked = some p) :
    s.exit = { s with usb := .leaving none } := by
  apply if_neg
  intro hno
  rcases hno with hno | hno
  · exact hno husb
  · cases hlocked.symm.trans hno

theorem Good.init (h : Good s) (hbusy : s.busy = false) : Good (step s .init) := by
  by_cases husb : s.usb = .free
  swap
  · rwa [step_busy_init husb]
  show Good s.exit
  obtain ⟨hquiet, hstands⟩ := h.rests husb hbusy
  unfold Stands at hstands
  cases hlocked : s.locked with
  | none =>
    have hsame : s.exit = s := if_pos (.inr hlocked)
    rwa [hsame]
  | some q =>
    rw [hlocked] at hstands
    rw [exit_locked husb hlocked]
    exact ⟨h.old, .leaving q none rfl hbusy (hquiet.quiet rfl rfl rfl rfl hquiet.toCard hquiet.toUsb) hlocked
      hstands⟩

/-- card_exit clears the ports, and card_start may launch the next thread. -/
theorem Good.left {p : Port} (h : Good s) (next : Option Port) (hbusy : s.busy = next.isSome)
    (hquiet : Quiet s) (hcurrent : s.current = some ⟨p.kind, .gone⟩) : Good (s.left next) := by
  unfold State.left
  cases next with
  | none =>
    refine ⟨h.old, .rest rfl hbusy (hquiet.quiet rfl rfl rfl rfl hquiet.toCard hquiet.toUsb) ?_⟩
    intro t ht
    have heq : some ⟨p.kind, .gone⟩ = some t := hcurrent.symm.trans ht
    rw [← Option.some.inj heq]
  | some q =>
    refine ⟨?_, .sending q rfl (hquiet.quiet rfl rfl rfl rfl hquiet.toCard hquiet.toUsb)
      rfl rfl⟩
    intro t ht
    rcases List.mem_append.mp ht with hold | hlast
    · exact h.old t hold
    · have heq : some ⟨p.kind, .gone⟩ = some t := hcurrent.symm.trans (Option.mem_toList.mp hlast)
      rw [← Option.some.inj heq]

theorem Good.proceed (h : Good s) : Good (step s .proceed) := by
  show Good s.proceed
  unfold State.proceed
  cases h.phase with
  | rest husb =>
    rw [husb]
    exact h
  | sending p husb hquiet hlocked hcurrent =>
    rw [husb]
    dsimp only
    rw [hquiet.toCard]
    refine ⟨h.old, .underway p .idle 0 rfl rfl hlocked hcurrent ?_ ?_ ?_⟩
    · show Underway .idle _ s.toUsb s.buttonWait 0
      rw [hquiet.toUsb, hquiet.buttonWait]
      exact .sent
    · show s.sent + 1 = s.finished + 1
      rw [hquiet.finished]
    · exact hquiet.executed.trans hquiet.finished.symm
  | underway p pc n husb =>
    rw [husb]
    exact h
  | leaving p next husb hbusy hquiet hlocked hcurrent =>
    rw [husb]
    dsimp only
    rw [hquiet.toCard]
    refine ⟨h.old, .exiting p next .idle rfl hbusy ⟨hquiet.buttonWait, hquiet.executed, hquiet.finished⟩ hlocked
      hcurrent ?_⟩
    show Exiting .idle _ s.toUsb
    rw [hquiet.toUsb]
    exact .sent
  | exiting p next pc husb hbusy hsettled hlocked hcurrent hexit =>
    rw [husb]
    dsimp only
    generalize hcard : s.toCard = c at hexit
    generalize husbq : s.toUsb = u at hexit ⊢
    cases hexit with
    | sent => exact h
    | taken => exact h
    | acked =>
      exact ⟨h.old, .draining p next (.inl rfl) hbusy (hsettled.quiet rfl rfl rfl rfl rfl rfl) hlocked hcurrent⟩
  | draining p next husb hbusy hquiet hlocked hcurrent =>
    rcases husb with husb | husb
    · rw [husb]
      dsimp only
      rw [hquiet.toCard]
      exact ⟨h.old, .draining p next (.inr rfl) hbusy (hquiet.quiet rfl rfl rfl rfl rfl hquiet.toUsb) hlocked
        hcurrent⟩
    · rw [husb]
      dsimp only
      rw [hquiet.toUsb]
      exact h.left next hbusy hquiet hcurrent

theorem Good.poll (h : Good s) (itf : Itf) (hpolite : s.handsOver = false) : Good (step s (.poll itf)) := by
  cases h.phase with
  | rest _ hbusy => rwa [step_poll_idle hbusy]
  | sending _ _ hquiet => rwa [step_poll_nil hquiet.toUsb]
  | leaving _ _ _ _ hquiet => rwa [step_poll_nil hquiet.toUsb]
  | draining _ _ _ _ hquiet => rwa [step_poll_nil hquiet.toUsb]
  | exiting p next pc husb hbusy =>
    -- an acknowledgement that is there is one for CTAPHID_INIT, during which nothing is polled
    cases hnext : next with
    | none =>
      rw [hnext] at hbusy
      rwa [step_poll_idle hbusy]
    | some q =>
      unfold State.handsOver at hpolite
      rw [husb, hnext] at hpolite
      rwa [step_poll_nil (List.isEmpty_iff.mp ((Bool.not_eq_false' _).mp hpolite))]
  | underway p pc n husb hbusy hlocked hcurrent hunder hsent hexecuted =>
    rw [step_poll_free husb]
    unfold State.poll
    by_cases hmine : s.locked.map (·.itf) = some itf ∧ s.busy = true
    swap
    · rwa [if_neg hmine]
    rw [if_pos hmine]
    generalize hcard : s.toCard = c at hunder
    generalize husbq : s.toUsb = u at hunder ⊢
    generalize hwait : s.buttonWait = w at hunder
    cases hunder with
    | sent => exact h
    | taken => exact h
    | shown => exact h
    | answered => exact h
    | running hu =>
      rcases hu with rfl | rfl
      · exact h
      · exact ⟨h.old, .underway p .run 1 husb hbusy hlocked hcurrent (.running (.inl rfl)) hsent hexecuted⟩
    | asked hu =>
      rcases hu with rfl | rfl
      · exact ⟨h.old, .underway p .wait 1 husb hbusy hlocked hcurrent .shown hsent hexecuted⟩
      · exact ⟨h.old, .underway p .wait 1 husb hbusy hlocked hcurrent (.asked (.inl rfl)) hsent hexecuted⟩
    | finishing hu =>
      rcases hu with rfl | rfl
      · exact h
      · exact ⟨h.old, .underway p .finish 1 husb hbusy hlocked hcurrent (.finishing (.inl rfl)) hsent hexecuted⟩
    | done hu =>
      rcases hu with rfl | rfl
      · have hsettled : Quiet { s with toUsb := [], busy := false, finished := s.finished + 1 } :=
          ⟨⟨hwait, hexecuted.trans hsent.symm, hsent.symm⟩, hcard, rfl⟩
        refine ⟨h.old, .rest husb rfl ⟨⟨rfl, hsettled.executed, hsettled.finished⟩, rfl, rfl⟩ ?_⟩
        show Stands { s with toUsb := [], busy := false, finished := s.finished + 1 }
        unfold Stands
        dsimp only
        rw [hlocked]
        exact hcurrent
      · exact ⟨h.old, .underway p .idle 1 husb hbusy hlocked hcurrent (.done (.inl rfl)) hsent hexecuted⟩

theorem Good.button (h : Good s) (m : CardEvent) : Good (step s (.button m)) := by
  cases hwait : s.buttonWait with
  | false => rwa [step_button_idle hwait]
  | true =>
    obtain ⟨p, husb, hbusy, hlocked, hcurrent, hcard, husbq, hsent, hexecuted⟩ := h.waits hwait
    show Good (s.button m)
    unfold State.button
    by_cases hm : m.isButton = true
    swap
    · rwa [if_neg fun hno => hm hno.2]
    rw [if_pos ⟨hwait, hm⟩, hcard]
    refine ⟨h.old, .underway p .wait 1 husb hbusy hlocked hcurrent ?_ hsent hexecuted⟩
    show Underway .wait [m] s.toUsb false 1
    rw [husbq]
    exact .answered hm

theorem Acked.room {u : List UsbEvent} (h : Acked u) : hasRoom u = true := by
  rcases h with rfl | rfl <;> rfl

theorem Good.thread (h : Good s) (asks : Bool) : Good (step s (.thread asks)) := by
  cases h.phase with
  | rest _ _ hquiet hstands =>
    unfold Stands at hstands
    cases hlocked : s.locked with
    | none =>
      rw [hlocked] at hstands
      cases hcurrent : s.current with
      | none =>
        show Good (s.current.elim s _)
        rw [hcurrent]
        exact h
      | some t =>
        rw [step_current_gone hcurrent (hstands t hcurrent)]
        exact h
    | some p =>
      rw [hlocked] at hstands
      rw [step_current_idle hstands rfl hquiet.toCard]
      exact h
  | sending p _ hquiet _ hcurrent =>
    rw [step_current_idle hcurrent rfl hquiet.toCard]
    exact h
  | leaving p _ _ _ hquiet _ hcurrent =>
    rw [step_current_idle hcurrent rfl hquiet.toCard]
    exact h
  | draining p _ _ _ _ _ hcurrent =>
    rw [step_current_gone hcurrent rfl]
    exact h
  | exiting p next pc husb hbusy hsettled hlocked hcurrent hexit =>
    rw [step_current hcurrent]
    have hsame : Settled s := hsettled
    generalize hcard : s.toCard = c at hexit ⊢
    generalize husbq : s.toUsb = u at hexit ⊢
    cases hexit with
    | sent =>
      have hmoved : Thread.step ⟨p.kind, .idle⟩ asks [.exit] [] = ⟨⟨p.kind, .ack .exit⟩, [], [], false⟩ := by
        cases p with
        | mk itf kind => cases kind <;> rfl
      rw [hmoved]
      exact ⟨h.old, .exiting p next (.ack .exit) husb hbusy
        ⟨hsame.buttonWait, hsame.executed, hsame.finished⟩ hlocked rfl .taken⟩
    | taken =>
      exact ⟨h.old, .exiting p next .gone husb hbusy
        ⟨hsame.buttonWait, hsame.executed, hsame.finished⟩ hlocked rfl .acked⟩
    | acked =>
      rw [gone_step rfl]
      exact ⟨h.old, .exiting p next .gone husb hbusy
        ⟨hsame.buttonWait, hsame.executed, hsame.finished⟩ hlocked rfl .acked⟩
  | underway p pc n husb hbusy hlocked hcurrent hunder hsent hexecuted =>
    rw [step_current hcurrent]
    -- what the step makes of each phase of the command
    have hnext : ∃ n', Underway (Thread.step ⟨p.kind, pc⟩ asks s.toCard s.toUsb).thread.pc
        (Thread.step ⟨p.kind, pc⟩ asks s.toCard s.toUsb).toCard
        (Thread.step ⟨p.kind, pc⟩ asks s.toCard s.toUsb).toUsb s.buttonWait n' ∧
        (Thread.step ⟨p.kind, pc⟩ asks s.toCard s.toUsb).thread.kind = p.kind ∧
        n' = if (Thread.step ⟨p.kind, pc⟩ asks s.toCard s.toUsb).began then n + 1 else n := by
      generalize s.toCard = c at hunder ⊢
      generalize s.toUsb = u at hunder ⊢
      generalize s.buttonWait = w at hunder ⊢
      cases hunder with
      | sent =>
        cases p with
        | mk itf kind =>
          cases kind with
          | cbor => exact ⟨0, .taken, rfl, rfl⟩
          | apdu => exact ⟨1, .running (.inl rfl), rfl, rfl⟩
      | taken => exact ⟨1, .running (.inr rfl), rfl, rfl⟩
      | running hu =>
        cases asks with
        | true =>
          have hadd : tryAdd u .pressButton = u ++ [.pressButton] := if_pos hu.room
          refine ⟨1, ?_, rfl, rfl⟩
          show Underway .wait [] (tryAdd u .pressButton) false 1
          rw [hadd]
          exact .asked hu
        | false => exact ⟨1, .finishing hu, rfl, rfl⟩
      | asked hu => exact ⟨1, .asked hu, rfl, rfl⟩
      | shown => exact ⟨1, .shown, rfl, rfl⟩
      | answered hm =>
        refine ⟨1, ?_, rfl, rfl⟩
        show Underway (if _ then Pc.run else Pc.wait) [] [] false 1
        rw [if_pos hm]
        exact .running (.inl rfl)
      | finishing hu =>
        have hstep : Thread.step ⟨p.kind, .finish⟩ asks [] u = ⟨⟨p.kind, .idle⟩, [], u ++ [.execFinished], false⟩ :=
          if_pos hu.room
        rw [hstep]
        exact ⟨1, .done hu, rfl, rfl⟩
      | done hu =>
        rw [idle_step rfl]
        exact ⟨1, .done hu, rfl, rfl⟩
    obtain ⟨n', hunder', hkind, hcount⟩ := hnext
    generalize Thread.step ⟨p.kind, pc⟩ asks s.toCard s.toUsb = moved at hunder' hkind hcount ⊢
    refine ⟨h.old, .underway p _ n' husb hbusy hlocked ?_ hunder' hsent ?_⟩
    · show some moved.thread = some ⟨p.kind, moved.thread.pc⟩
      rw [← hkind]
    · show (if _ then s.executed + 1 else s.executed) = s.finished + n'
      rw [hcount, hexecuted]
      split_ifs <;> rfl

theorem Good.kept (h : Good s) (i : Input) (hi : Polite s i) : Good (step s i) := by
  cases i with
  | command p => exact h.command p hi
  | init => exact h.init hi
  | proceed => exact h.proceed
  | poll itf => exact h.poll itf hi
  | button m => exact h.button m
  | thread asks => exact h.thread asks
  | oldThread n asks =>
    rw [step_old_gone h.old]
    exact h

theorem boot_good : Good boot :=
  ⟨fun _ ht => absurd ht List.not_mem_nil,
    .rest rfl rfl ⟨⟨rfl, rfl, rfl⟩, rfl, rfl⟩ fun _ ht => absurd ht (Option.not_mem_none _)⟩

theorem run_good {is : List Input} (h : Along step Polite boot is) : Good (run step boot is) :=
  run_invariant (fun _ i hi hs => hs.kept i hi) boot is h boot_good

end Phases

/-! What the host and the person can rely on. -/

/-- What the callback and the thread do by themselves. -/
def Own (i : Input) : Prop := i = .proceed ∨ i = .thread false

/-- How far a callback is from its end. -/
def rank (s : State) : Nat :=
  match s.usb with
  | .free => 0
  | .sending => 1
  | .drainUsb _ => 2
  | .drainCard _ => 3
  | .awaiting _ =>
    match s.current with
    | some ⟨_, .idle⟩ => 6
    | some ⟨_, .ack _⟩ => 5
    | _ => 4
  | .leaving _ => 7

structure Handshake (s : State) : Prop where
  -- one thread at most is in its loop, and none behind card_exit, which leaves the queues empty
  alone : s.alive.length ≤ 1
  left : s.locked = none → s.alive = [] ∧ s.toCard = [] ∧ s.toUsb = []
  -- a command was executed once, and its end was seen once
  counted : s.busy = false → s.executed = s.sent ∧ s.finished = s.sent
  -- the callback and the thread bring every exit to its end, without the loop
  ends : ∃ is, (∀ i ∈ is, Own i) ∧ (run step s is).usb = .free
  short : s.toCard.length ≤ 1 ∧ s.toUsb.length ≤ 2

section Handshake

variable {s : State}

theorem Own.polite {i : Input} (h : Own i) : Polite s i := by
  rcases h with rfl | rfl <;> exact trivial

/-- A callback that is not at its end comes nearer to it. -/
theorem Good.descends (h : Good s) (hbusy : s.usb ≠ .free) : ∃ i, Own i ∧ rank (step s i) < rank s := by
  cases h.phase with
  | rest husb => exact absurd husb hbusy
  | underway p pc n husb => exact absurd husb hbusy
  | sending p husb hquiet =>
    refine ⟨.proceed, .inl rfl, ?_⟩
    have hstep : (step s .proceed).usb = .free := by
      show s.proceed.usb = .free
      unfold State.proceed
      rw [husb]
      dsimp only
      rw [hquiet.toCard]
      rfl
    unfold rank
    rw [hstep, husb]
    exact Nat.one_pos
  | leaving p next husb _ hquiet _ hcurrent =>
    refine ⟨.proceed, .inl rfl, ?_⟩
    have hstep : step s .proceed = { s with toCard := [.exit], usb := .awaiting next } := by
      show s.proceed = _
      unfold State.proceed
      rw [husb]
      dsimp only
      rw [hquiet.toCard]
      rfl
    unfold rank
    rw [hstep, husb]
    dsimp only
    rw [hcurrent]
    show 6 < 7
    decide
  | exiting p next pc husb _ _ _ hcurrent hexit =>
    generalize hcard : s.toCard = c at hexit
    generalize husbq : s.toUsb = u at hexit
    cases hexit with
    | sent =>
      refine ⟨.thread false, .inr rfl, ?_⟩
      have hmoved : Thread.step ⟨p.kind, .idle⟩ false [.exit] [] = ⟨⟨p.kind, .ack .exit⟩, [], [], false⟩ := by
        cases p with
        | mk itf kind => cases kind <;> rfl
      rw [step_current hcurrent, hcard, husbq, hmoved]
      unfold rank State.moved
      dsimp only
      rw [husb, hcurrent]
      show 5 < 6
      decide
    | taken =>
      refine ⟨.thread false, .inr rfl, ?_⟩
      have hmoved : Thread.step ⟨p.kind, .ack .exit⟩ false [] [] = ⟨⟨p.kind, .gone⟩, [], [.ack .exit], false⟩ := rfl
      rw [step_current hcurrent, hcard, husbq, hmoved]
      unfold rank State.moved
      dsimp only
      rw [husb, hcurrent]
      show 4 < 5
      decide
    | acked =>
      refine ⟨.proceed, .inl rfl, ?_⟩
      have hstep : (step s .proceed).usb = .drainCard next := by
        show s.proceed.usb = _
        unfold State.proceed
        rw [husb]
        dsimp only
        rw [husbq]
      unfold rank
      rw [hstep, husb]
      dsimp only
      rw [hcurrent]
      show 3 < 4
      decide
  | draining p next husb _ hquiet =>
    refine ⟨.proceed, .inl rfl, ?_⟩
    rcases husb with husb | husb
    · have hstep : (step s .proceed).usb = .drainUsb next := by
        show s.proceed.usb = _
        unfold State.proceed
        rw [husb]
        dsimp only
        rw [hquiet.toCard]
      unfold rank
      rw [hstep, husb]
      exact Nat.lt_succ_self 2
    · have hstep : step s .proceed = s.left next := by
        show s.proceed = _
        unfold State.proceed
        rw [husb]
        dsimp only
        rw [hquiet.toUsb]
      unfold rank
      rw [hstep, husb]
      cases next with
      | none =>
        show 0 < 2
        decide
      | some q =>
        show 1 < 2
        decide

/-- By induction on the rank. -/
theorem Good.ends (h : Good s) : ∃ is, (∀ i ∈ is, Own i) ∧ (run step s is).usb = .free := by
  induction hn : rank s using Nat.strongRecOn generalizing s with
  | _ n ih =>
    by_cases husb : s.usb = .free
    · exact ⟨[], fun _ hi => absurd hi List.not_mem_nil, husb⟩
    obtain ⟨i, hown, hlt⟩ := h.descends husb
    obtain ⟨is, hall, hfree⟩ := ih _ (hn ▸ hlt) (h.kept i hown.polite) rfl
    refine ⟨i :: is, ?_, hfree⟩
    intro j hj
    rcases List.mem_cons.mp hj with rfl | hj
    · exact hown
    · exact hall j hj

theorem alive_eq (h : ∀ t ∈ s.old, t.pc = .gone) :
    s.alive = s.current.toList.filter fun t => decide (t.pc ≠ .gone) := by
  have hgone : s.old.filter (fun t => decide (t.pc ≠ .gone)) = [] := by
    apply List.filter_eq_nil_iff.mpr
    intro t ht
    rw [h t ht]
    decide
  unfold State.alive
  rw [List.filter_append, hgone, List.nil_append]

theorem Good.alone (h : Good s) : s.alive.length ≤ 1 := by
  rw [alive_eq h.old]
  refine Nat.le_trans (List.length_filter_le _ _) ?_
  cases s.current with
  | none => exact Nat.zero_le 1
  | some t => exact Nat.le_refl 1

theorem Acked.length {u : List UsbEvent} (h : Acked u) : u.length ≤ 1 := by
  rcases h with rfl | rfl <;> decide

theorem Good.short (h : Good s) : s.toCard.length ≤ 1 ∧ s.toUsb.length ≤ 2 := by
  have hquiet (hq : Quiet s) : s.toCard.length ≤ 1 ∧ s.toUsb.length ≤ 2 := by
    rw [hq.toCard, hq.toUsb]
    decide
  cases h.phase with
  | rest _ _ hq => exact hquiet hq
  | sending _ _ hq => exact hquiet hq
  | leaving _ _ _ _ hq => exact hquiet hq
  | draining _ _ _ _ hq => exact hquiet hq
  | exiting p next pc _ _ _ _ _ hexit =>
    generalize s.toCard = c at hexit ⊢
    generalize s.toUsb = u at hexit ⊢
    cases hexit <;> decide
  | underway p pc n _ _ _ _ hunder =>
    generalize s.toCard = c at hunder ⊢
    generalize s.toUsb = u at hunder ⊢
    generalize s.buttonWait = w at hunder
    cases hunder with
    | sent => decide
    | taken => decide
    | shown => decide
    | answered => exact ⟨Nat.le_refl 1, Nat.zero_le 2⟩
    | running hu => exact ⟨Nat.zero_le 1, Nat.le_trans hu.length (Nat.le_succ 1)⟩
    | finishing hu => exact ⟨Nat.zero_le 1, Nat.le_trans hu.length (Nat.le_succ 1)⟩
    | asked hu =>
      rw [List.length_append]
      exact ⟨Nat.zero_le 1, Nat.add_le_add_right hu.length 1⟩
    | done hu =>
      rw [List.length_append]
      exact ⟨Nat.zero_le 1, Nat.add_le_add_right hu.length 1⟩

theorem Good.left_behind (h : Good s) (hlocked : s.locked = none) :
    s.alive = [] ∧ s.toCard = [] ∧ s.toUsb = [] := by
  cases h.phase with
  | rest _ _ hquiet hstands =>
    refine ⟨?_, hquiet.toCard, hquiet.toUsb⟩
    unfold Stands at hstands
    rw [hlocked] at hstands
    rw [alive_eq h.old, List.filter_eq_nil_iff]
    intro t ht
    rw [hstands t (Option.mem_toList.mp ht)]
    decide
  | sending _ _ _ hother => cases hlocked.symm.trans hother
  | underway _ _ _ _ _ hother => cases hlocked.symm.trans hother
  | leaving _ _ _ _ _ hother => cases hlocked.symm.trans hother
  | exiting _ _ _ _ _ _ hother => cases hlocked.symm.trans hother
  | draining _ _ _ _ _ hother => cases hlocked.symm.trans hother

theorem Good.counted (h : Good s) (hbusy : s.busy = false) :
    s.executed = s.sent ∧ s.finished = s.sent := by
  cases h.phase with
  | rest _ _ hquiet => exact ⟨hquiet.executed, hquiet.finished⟩
  | sending _ _ hquiet => exact ⟨hquiet.executed, hquiet.finished⟩
  | leaving _ _ _ _ hquiet => exact ⟨hquiet.executed, hquiet.finished⟩
  | exiting _ _ _ _ _ hsettled => exact ⟨hsettled.executed, hsettled.finished⟩
  | draining _ _ _ _ hquiet => exact ⟨hquiet.executed, hquiet.finished⟩
  | underway _ _ _ _ hyes => cases hyes.symm.trans hbusy

end Handshake

/-- As long as commands and CTAPHID_INIT come one at a time, and the loop does not take the acknowledgement of an
exit, the threads and the USB side keep in step. -/
theorem handshake (is : List Input) (h : Along step Polite boot is) : Handshake (run step boot is) :=
  have hgood := run_good h
  ⟨hgood.alone, hgood.left_behind, hgood.counted, hgood.ends, hgood.short⟩

/-- A command of CTAPHID with a press of the button, one over CCID, and a CTAPHID_INIT. -/
def switching : List Input :=
  [.command ⟨.hid, .cbor⟩, .proceed, .thread false, .thread true, .thread true, .poll .hid, .poll .hid,
    .button .buttonPressed, .thread false, .thread false, .thread false, .poll .hid,
    .command ⟨.ccid, .apdu⟩, .proceed, .thread false, .thread false, .proceed, .proceed, .proceed, .proceed,
    .thread false, .thread false, .thread false, .poll .ccid, .init, .proceed, .thread false, .thread false,
    .proceed, .proceed, .proceed]

theorem switching_handshake : Handshake (run step boot switching) := handshake switching (by decide)

/-- The condition is met by a run to the end, in which both commands were executed. -/
example : (run step boot switching).finished = 2 ∧ (run step boot switching).locked = none := by decide

/-! Where the two sides lose each other. -/

/-- A callback waits for an acknowledgement that no thread can send any more. -/
structure Hung (s : State) (next : Option Port) : Prop where
  usb : s.usb = .awaiting next
  toUsb : s.toUsb = []
  old : ∀ t ∈ s.old, t.pc = .gone
  current : ∀ t ∈ s.current, t.pc = .gone

section Losses

variable {s : State}

theorem step_awaiting {next : Option Port} (husb : s.usb = .awaiting next) (hqueue : s.toUsb = []) :
    step s .proceed = s := by
  show s.proceed = s
  unfold State.proceed
  rw [husb]
  dsimp only
  rw [hqueue]

theorem Hung.kept {next : Option Port} (h : Hung s next) (i : Input) : Hung (step s i) next := by
  have hbusy : s.usb ≠ .free := by
    rw [h.usb]
    exact Usb.noConfusion
  cases i with
  | command p => rwa [step_busy_callback hbusy]
  | init => rwa [step_busy_init hbusy]
  | proceed => rwa [step_awaiting h.usb h.toUsb]
  | poll itf => rwa [step_poll_nil h.toUsb]
  | button m =>
    show Hung (s.button m) next
    unfold State.button
    split_ifs
    · exact ⟨h.usb, h.toUsb, h.old, h.current⟩
    · exact h
  | oldThread n asks => rwa [step_old_gone h.old]
  | thread asks =>
    cases hcurrent : s.current with
    | none =>
      show Hung (s.current.elim s _) next
      rw [hcurrent]
      exact h
    | some t => rwa [step_current_gone hcurrent (h.current t hcurrent)]

/-- The one poll that is left out above is fatal: the loop takes the acknowledgement for which card_start waits,
and the callback never returns. -/
theorem stolen_ack_hangs (is : List Input) (h : Along step Polite boot is) (p q : Port)
    (husb : (run step boot is).usb = .awaiting (some q)) (hlocked : (run step boot is).locked = some p)
    (hack : (run step boot is).toUsb ≠ []) (later : List Input) :
    (run step boot (is ++ .poll p.itf :: later)).usb = .awaiting (some q) := by
  have hgood := run_good h
  have hhung : Hung (step (run step boot is) (.poll p.itf)) (some q) := by
    generalize run step boot is = s at hgood husb hlocked hack ⊢
    cases hgood.phase with
    | rest hother => cases husb.symm.trans hother
    | sending _ hother => cases husb.symm.trans hother
    | underway _ _ _ hother => cases husb.symm.trans hother
    | leaving _ _ hother => cases husb.symm.trans hother
    | draining _ _ hother => rcases hother with hother | hother <;> cases husb.symm.trans hother
    | exiting p' next pc husb' hbusy _ hlocked' hcurrent hexit =>
      have hnext : next = some q := Usb.awaiting.inj (husb'.symm.trans husb)
      have hbusy : s.busy = true := by rw [hbusy, hnext]; rfl
      generalize hcard : s.toCard = c at hexit
      generalize husbq : s.toUsb = u at hexit hack
      cases hexit with
      | sent => exact absurd rfl hack
      | taken => exact absurd rfl hack
      | acked =>
        have hstep : step s (.poll p.itf) = { s with toUsb := [] } := by
          show (if s.mutexHeld then s else s.poll p.itf) = _
          unfold State.mutexHeld State.poll
          rw [husb, hlocked, hbusy, husbq]
          simp only [Bool.false_eq_true, if_false, Option.map_some, and_self, if_true]
        rw [hstep]
        refine ⟨husb, rfl, hgood.old, ?_⟩
        intro t ht
        have heq : some ⟨p'.kind, .gone⟩ = some t := hcurrent.symm.trans ht
        rw [← Option.some.inj heq]
  rw [run_append, run_cons]
  exact (run_invariant (P := fun s => Hung s (some q)) (fun _ i _ hs => hs.kept i) _ later (along_true _ _ _) hhung).usb

/-- A switch from CTAPHID to CCID. What follows is what would have brought card_start to its end. -/
theorem switch_hangs :
    (run step boot (switching.take 16 ++ .poll .hid :: [.proceed, .proceed, .proceed, .thread false])).usb =
      .awaiting (some ⟨.ccid, .apdu⟩) :=
  stolen_ack_hangs (switching.take 16) (by decide) ⟨.hid, .cbor⟩ ⟨.ccid, .apdu⟩ rfl rfl (by decide)
    [.proceed, .proceed, .proceed, .thread false]

/-- The callbacks run in the loop, which stands while one of them waits. -/
def LoopStands (s : State) : Input → Prop
  | .poll _ => s.usb = .free
  | .button _ => s.usb = .free
  | _ => True

/-- An exit that a thread in its presence wait cannot answer. -/
structure Swallowed (s : State) : Prop where
  usb : s.usb = .leaving none ∧ s.toCard = [] ∨ s.usb = .awaiting none ∧ ∀ m ∈ s.toCard, m = .exit
  toUsb : s.toUsb = []
  old : ∀ t ∈ s.old, t.pc = .gone
  current : ∃ k, s.current = some ⟨k, .wait⟩

theorem Swallowed.blocked (h : Swallowed s) : s.usb ≠ .free := by
  rcases h.usb with ⟨husb, -⟩ | ⟨husb, -⟩ <;> rw [husb] <;> exact Usb.noConfusion

theorem Swallowed.kept (h : Swallowed s) (i : Input) (hi : LoopStands s i) : Swallowed (step s i) := by
  cases i with
  | command p => rwa [step_busy_callback h.blocked]
  | init => rwa [step_busy_init h.blocked]
  | poll itf => exact absurd hi h.blocked
  | button m => exact absurd hi h.blocked
  | oldThread n asks => rwa [step_old_gone h.old]
  | proceed =>
    rcases h.usb with ⟨husb, hcard⟩ | ⟨husb, -⟩
    · have hstep : step s .proceed = { s with toCard := [.exit], usb := .awaiting none } := by
        show s.proceed = _
        unfold State.proceed
        rw [husb]
        dsimp only
        rw [hcard]
        rfl
      rw [hstep]
      exact ⟨.inr ⟨rfl, fun m hm => List.mem_singleton.mp hm⟩, h.toUsb, h.old, h.current⟩
    · rwa [step_awaiting husb h.toUsb]
  | thread asks =>
    obtain ⟨k, hcurrent⟩ := h.current
    rw [step_current hcurrent]
    cases hcard : s.toCard with
    | nil =>
      refine ⟨?_, h.toUsb, h.old, k, rfl⟩
      rcases h.usb with ⟨husb, -⟩ | ⟨husb, -⟩
      · exact .inl ⟨husb, rfl⟩
      · exact .inr ⟨husb, fun m hm => absurd hm List.not_mem_nil⟩
    | cons m rest =>
      rcases h.usb with ⟨-, hempty⟩ | ⟨husb, hexits⟩
      · cases hcard.symm.trans hempty
      · rw [hcard] at hexits
        obtain rfl := hexits m List.mem_cons_self
        exact ⟨.inr ⟨husb, fun m hm => hexits m (List.mem_cons_of_mem _ hm)⟩, h.toUsb, h.old, k, rfl⟩

/-- Where the callbacks run in the loop, a CTAPHID_INIT during a presence wait never returns. -/
theorem init_in_wait_hangs (is : List Input) (h : Along step Polite boot is)
    (hwait : (run step boot is).buttonWait = true) (later : List Input)
    (hloop : Along step LoopStands (step (run step boot is) .init) later) :
    (run step boot (is ++ .init :: later)).usb ≠ .free := by
  have hgood := run_good h
  have hswallowed : Swallowed (step (run step boot is) .init) := by
    generalize run step boot is = s at hgood hwait ⊢
    obtain ⟨p, husb, -, hlocked, hcurrent, hcard, husbq, -⟩ := hgood.waits hwait
    have hstep : step s .init = { s with usb := .leaving none } := exit_locked husb hlocked
    rw [hstep]
    exact ⟨.inl ⟨rfl, hcard⟩, husbq, hgood.old, p.kind, hcurrent⟩
  rw [run_append, run_cons]
  exact (run_invariant (fun _ i hi hs => hs.kept i hi) _ later hloop hswallowed).blocked

/-- The first command of the run above, in its presence wait. -/
theorem init_hangs :
    (run step boot (switching.take 7 ++ .init :: [.proceed, .thread false, .proceed, .thread false])).usb ≠ .free :=
  init_in_wait_hangs (switching.take 7) (by decide) rfl [.proceed, .thread false, .proceed, .thread false]
    ⟨trivial, trivial, trivial, trivial, trivial⟩

end Losses

end KeyWallet.Worker
