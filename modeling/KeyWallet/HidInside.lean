import KeyWallet.HidBuffers

/-! The copies of hid.c stay inside their buffers for as long as the steps meet their condition: what holds
of the answer that is being sent, and then step by step. -/
namespace KeyWallet.Hid

open ByteBuffer StepSystem

/-! The reports of an answer. -/

/-- The worker still owes an answer. -/
def Port.owed (p : Port) : Nat := if p.working then 1 else 0

/-- The header where ctap_resp stands is that of a continuation frame, and a report in flight has it. -/
structure Settled (s : Sender) : Prop where
  early : contRoom * ((s.buffer (s.resp + 4)).toNat + 1) ≤ s.resp
  flight : ∀ f, s.pending = some f → isResponse f = true → f.type = s.buffer (s.resp + 4)

/-- What is still to be sent, and where it will end: `inits` is one as long as an init frame of the
answer may still come, and an error of the worker can bring another one. -/
def Port.reach (inits : Nat) (p : Port) : Nat :=
  p.sender.resp + p.sender.sendBufferSize + 2 * inits + 2 * p.owed

/-- The reports are read where their headers are written. -/
structure Aligned (inits : Nat) (p : Port) : Prop where
  inits_le : inits ≤ 1
  here : p.sender.rPtr = p.sender.resp
  ahead : p.reach inits + 3 ≤ p.sender.wPtr
  bound : p.sender.wPtr + 64 * p.owed ≤ usbBufferSize + 64
  place : (∃ k, p.sender.resp = contRoom * k) ∧ p.reach inits + 3 ≤ usbBufferSize ∨
    p.threadType = 1 ∧ p.reach inits + 5 ≤ usbBufferSize
  settled : inits = 0 → Settled p.sender
  still : p.receiver.lastPacketTime = 0

/-- The reports may be anything, but the answer is short enough for that. -/
def Loose (s : Sender) : Prop :=
  ∃ k, s.resp = contRoom * k ∧ initRoom * k + s.sendBufferSize ≤ mixedRoom

/-- Nothing is left to send, or what is left has room. -/
def SenderInv (p : Port) : Prop :=
  p.sender.sendBufferSize = 0 ∨ Loose p.sender ∨ ∃ inits, Aligned inits p

/-- What holds between the steps. -/
structure PortInv (history : List Frame) (p : Port) : Prop where
  receiver : ReceiverInv history p.receiver
  rx : p.rxR = 0 ∧ p.rxW = 0
  sender : SenderInv p

section Sending

variable {s : Sender} {p : Port} {f : Frame} {inits : Nat}

@[simp] theorem write_sendBufferSize (accepted : Bool) (s : Sender) :
    (s.write accepted f).sendBufferSize = s.sendBufferSize := by
  unfold Sender.write
  split_ifs <;> rfl

@[simp] theorem write_resp (accepted : Bool) (s : Sender) : (s.write accepted f).resp = s.resp := by
  unfold Sender.write
  split_ifs <;> rfl

@[simp] theorem write_rPtr (accepted : Bool) (s : Sender) : (s.write accepted f).rPtr = s.rPtr := by
  unfold Sender.write
  split_ifs <;> rfl

@[simp] theorem write_wPtr (accepted : Bool) (s : Sender) : (s.write accepted f).wPtr = s.wPtr := by
  unfold Sender.write
  split_ifs <;> rfl

@[simp] theorem write_buffer (accepted : Bool) (s : Sender) : (s.write accepted f).buffer = s.buffer := by
  unfold Sender.write
  split_ifs <;> rfl

theorem write_pending (accepted : Bool) (s : Sender) :
    (s.write accepted f).pending = s.pending ∨ (s.write accepted f).pending = some f := by
  unfold Sender.write
  split_ifs
  · exact .inl rfl
  · exact .inr rfl
  · exact .inl rfl

theorem leftAfter_cases (size : Nat) (hresp : isResponse f = true) :
    f.isInit = true ∧ Sender.leftAfter f size = size - initRoom ∨
      f.isInit = false ∧ Sender.leftAfter f size = size - contRoom := by
  unfold Sender.leftAfter
  rw [if_pos hresp]
  cases hinit : f.isInit with
  | true =>
    refine .inl ⟨rfl, ?_⟩
    rw [if_pos rfl]
    omega
  | false =>
    refine .inr ⟨rfl, ?_⟩
    rw [if_neg Bool.false_ne_true]
    omega

theorem leftAfter_keepalive (size : Nat) (hresp : isResponse f = false) :
    Sender.leftAfter f size = size := by
  unfold Sender.leftAfter
  rw [if_neg (by rw [hresp]; exact Bool.false_ne_true)]

theorem next_seq {t : Byte} (h : t.toNat < 127) : ((t &&& 0x7f) + 1).toNat = t.toNat + 1 := by
  have hmask : (t &&& 0x7f).toNat = t.toNat := by
    rw [BitVec.toNat_and]
    show t.toNat &&& 127 = t.toNat
    have hmod : t.toNat &&& (2 ^ 7 - 1) = t.toNat % 2 ^ 7 := Nat.and_two_pow_sub_one_eq_mod _ 7
    have hsmall : t.toNat % 2 ^ 7 = t.toNat := Nat.mod_eq_of_lt (by omega)
    exact hmod.trans hsmall
  rw [BitVec.toNat_add, hmask]
  show (t.toNat + 1) % 256 = t.toNat + 1
  omega

theorem isInit_of_small (h : f.type.toNat < 128) : f.isInit = false := by
  unfold Frame.isInit
  rw [BitVec.msb_eq_decide]
  exact decide_eq_false (by omega)

theorem Aligned.inits_of_isInit (h : Aligned inits p) (hpending : p.sender.pending = some f)
    (hresp : isResponse f = true) (hinit : f.isInit = true) : inits = 1 := by
  have hle := h.inits_le
  by_contra hne
  have hzero : inits = 0 := by omega
  have hset := h.settled hzero
  have hearly := hset.early
  have hahead := h.ahead
  have hbound := h.bound
  have hflight := hset.flight f hpending hresp
  have hsmall : f.type.toNat < 128 := by
    rw [hflight]
    unfold Port.reach at hahead
    unfold contRoom at hearly
    unfold usbBufferSize at hbound
    omega
  rw [isInit_of_small hsmall] at hinit
  cases hinit

theorem Aligned.header_room (h : Aligned inits p) (hpending : p.sender.pending = some f)
    (hresp : isResponse f = true) (hleft : 0 < Sender.leftAfter f p.sender.sendBufferSize) :
    p.sender.resp + contRoom + 5 ≤ usbBufferSize := by
  have hplace := h.place
  unfold Port.reach contRoom usbBufferSize at hplace
  show p.sender.resp + (64 - 5) + 5 ≤ 2048
  rcases leftAfter_cases p.sender.sendBufferSize hresp with ⟨hinit, heq⟩ | ⟨-, heq⟩
  · have hone := h.inits_of_isInit hpending hresp hinit
    rw [heq] at hleft
    unfold initRoom at hleft
    rcases hplace with ⟨⟨k, hk⟩, hplace⟩ | ⟨-, hplace⟩ <;> omega
  · rw [heq] at hleft
    unfold contRoom at hleft
    rcases hplace with ⟨⟨k, hk⟩, hplace⟩ | ⟨-, hplace⟩ <;> omega

/-- The port with another sender. -/
def Port.withSender (p : Port) (s : Sender) : Port := { p with sender := s }

theorem Aligned.next (h : Aligned inits p) (hpending : p.sender.pending = some f)
    (hresp : isResponse f = true) (hleft : 0 < Sender.leftAfter f p.sender.sendBufferSize) :
    ∃ inits', Aligned inits' (p.withSender p.sender.complete) := by
  have hroom := h.header_room hpending hresp hleft
  have hhere := h.here
  have hahead := h.ahead
  have hbound := h.bound
  unfold Port.reach at hahead
  unfold usbBufferSize at hbound hroom
  unfold contRoom at hroom
  -- the size goes down by what the report carried, the header moves up by 59
  have hsize : f.isInit = true ∧ p.sender.sendBufferSize = Sender.leftAfter f p.sender.sendBufferSize + 57 ∧
        inits = 1 ∨
      f.isInit = false ∧ p.sender.sendBufferSize = Sender.leftAfter f p.sender.sendBufferSize + 59 := by
    rcases leftAfter_cases p.sender.sendBufferSize hresp with ⟨hinit, heq⟩ | ⟨hcont, heq⟩
    · refine .inl ⟨hinit, ?_, h.inits_of_isInit hpending hresp hinit⟩
      unfold initRoom at heq
      omega
    · refine .inr ⟨hcont, ?_⟩
      unfold contRoom at heq
      omega
  have hptr : (p.sender.rPtr + contRoom) % 65536 = p.sender.resp + contRoom := by
    rw [hhere]
    unfold contRoom
    omega
  have hback : (p.sender.rPtr + contRoom) % 65536 < p.sender.wPtr := by
    rw [hptr]
    unfold contRoom
    rcases hsize with ⟨-, hs, -⟩ | ⟨-, hs⟩ <;> omega
  have hcomplete := complete_next hpending hresp hleft hback
  have hheader : p.sender.complete.buffer (p.sender.complete.resp + 4) =
      if f.isInit then 0 else (f.type &&& 0x7f) + 1 := by
    rw [hcomplete]
    exact blit_inside (i := 4) (by simp [cidBytes])
  have hresp' : p.sender.complete.resp = p.sender.resp + contRoom := by rw [hcomplete]
  have hsize' : p.sender.complete.sendBufferSize = Sender.leftAfter f p.sender.sendBufferSize := by
    rw [hcomplete]
  have hr' : p.sender.complete.rPtr = p.sender.resp + contRoom := by rw [hcomplete, ← hptr]
  have hw' : p.sender.complete.wPtr = p.sender.wPtr := by rw [hcomplete]
  have hp' : p.sender.complete.pending = none := by rw [hcomplete]
  have hflight : ∀ g, p.sender.complete.pending = some g → isResponse g = true →
      g.type = p.sender.complete.buffer (p.sender.complete.resp + 4) := by
    intro g hg
    rw [hp'] at hg
    cases hg
  have hplace := h.place
  unfold Port.reach contRoom usbBufferSize at hplace
  have hmove : ∀ inits', p.sender.resp + contRoom + Sender.leftAfter f p.sender.sendBufferSize +
        2 * inits' + 2 * p.owed = p.sender.resp + p.sender.sendBufferSize + 2 * inits + 2 * p.owed →
      inits' ≤ 1 → (inits' = 0 → Settled p.sender.complete) →
      Aligned inits' (p.withSender p.sender.complete) := by
    intro inits' hsame hle hset
    refine ⟨hle, hr'.trans hresp'.symm, ?_, ?_, ?_, hset, h.still⟩
    · show p.sender.complete.resp + p.sender.complete.sendBufferSize + 2 * inits' + 2 * p.owed + 3 ≤
        p.sender.complete.wPtr
      rw [hresp', hsize', hw', hsame]
      exact hahead
    · show p.sender.complete.wPtr + 64 * p.owed ≤ 2048 + 64
      rw [hw']
      exact hbound
    · show (∃ k, p.sender.complete.resp = 59 * k) ∧ p.sender.complete.resp +
          p.sender.complete.sendBufferSize + 2 * inits' + 2 * p.owed + 3 ≤ 2048 ∨
        p.threadType = 1 ∧ p.sender.complete.resp + p.sender.complete.sendBufferSize + 2 * inits' +
          2 * p.owed + 5 ≤ 2048
      rw [hresp', hsize', hsame]
      rcases hplace with ⟨⟨k, hk⟩, hplace⟩ | ⟨hthread, hplace⟩
      · exact .inl ⟨⟨k + 1, by rw [hk]; unfold contRoom; omega⟩, hplace⟩
      · exact .inr ⟨hthread, hplace⟩
  rcases hsize with ⟨hinit, hs, hone⟩ | ⟨hcont, hs⟩
  · -- the init frame is through
    refine ⟨0, hmove 0 (by unfold contRoom; omega) (by omega) ?_⟩
    intro _
    refine ⟨?_, hflight⟩
    rw [hheader, if_pos hinit, hresp']
    show 59 * (0 + 1) ≤ p.sender.resp + 59
    omega
  · refine ⟨inits, hmove inits (by unfold contRoom; omega) h.inits_le ?_⟩
    intro hzero
    obtain ⟨hearly, hfl⟩ := h.settled hzero
    have hsmall : f.type.toNat < 127 := by
      rw [hfl f hpending hresp]
      unfold contRoom at hearly
      omega
    refine ⟨?_, hflight⟩
    rw [hheader, if_neg (by rw [hcont]; exact Bool.false_ne_true), hresp', next_seq hsmall,
      hfl f hpending hresp]
    unfold contRoom at hearly ⊢
    omega

theorem complete_keepalive (hpending : s.pending = some f) (hresp : isResponse f = false)
    (hback : s.rPtr < s.wPtr) :
    s.complete = { s with pending := none, sent := s.sent ++ [f] } := by
  unfold Sender.complete
  rw [hpending]
  simp only [hresp, Bool.false_eq_true, if_false, leftAfter_keepalive _ hresp, Nat.not_le.mpr hback]

theorem complete_sendBufferSize (hpending : s.pending = some f) :
    s.complete.sendBufferSize = Sender.leftAfter f s.sendBufferSize := by
  unfold Sender.complete
  rw [hpending]
  dsimp only
  unfold Sender.advance
  split_ifs <;> rfl

/-- ctap_resp moves on only if something is left. -/
theorem complete_resp (hpending : s.pending = some f) :
    s.complete.resp = if isResponse f ∧ 0 < Sender.leftAfter f s.sendBufferSize then
      s.resp + contRoom else s.resp := by
  by_cases hmore : isResponse f = true ∧ 0 < Sender.leftAfter f s.sendBufferSize
  · rw [if_pos hmore]
    unfold Sender.complete
    rw [hpending]
    dsimp only
    rw [if_pos hmore.1]
    unfold Sender.advance
    rw [if_pos hmore.2]
    split_ifs <;> rfl
  · rw [if_neg hmore]
    unfold Sender.complete
    rw [hpending]
    dsimp only
    by_cases hresp : isResponse f = true
    · rw [if_pos hresp]
      unfold Sender.advance
      rw [if_neg fun hleft => hmore ⟨hresp, hleft⟩]
      split_ifs <;> rfl
    · rw [if_neg hresp]
      split_ifs <;> rfl

theorem Settled.unpended (h : Settled s) (sent : List Frame) :
    Settled { s with pending := none, sent := sent } where
  early := h.early
  flight := by
    intro g hg
    cases hg

theorem Aligned.complete (h : Aligned inits p) :
    p.sender.complete.sendBufferSize = 0 ∨ ∃ inits', Aligned inits' (p.withSender p.sender.complete) := by
  cases hpending : p.sender.pending with
  | none =>
    have hsame : p.sender.complete = p.sender := by
      unfold Sender.complete
      rw [hpending]
    refine .inr ⟨inits, ?_⟩
    rw [hsame]
    exact h
  | some f =>
    by_cases hresp : isResponse f = true
    · by_cases hleft : 0 < Sender.leftAfter f p.sender.sendBufferSize
      · exact .inr (h.next hpending hresp hleft)
      · refine .inl ?_
        rw [complete_sendBufferSize hpending]
        omega
    · rw [Bool.not_eq_true] at hresp
      have hback : p.sender.rPtr < p.sender.wPtr := by
        have hahead := h.ahead
        rw [h.here]
        unfold Port.reach at hahead
        omega
      refine .inr ⟨inits, ?_⟩
      rw [complete_keepalive hpending hresp hback]
      exact ⟨h.inits_le, h.here, h.ahead, h.bound, h.place, fun hz => (h.settled hz).unpended _, h.still⟩

theorem Loose.complete (h : Loose s) : s.complete.sendBufferSize = 0 ∨ Loose s.complete := by
  obtain ⟨k, hk, hle⟩ := h
  cases hpending : s.pending with
  | none =>
    have hsame : s.complete = s := by
      unfold Sender.complete
      rw [hpending]
    rw [hsame]
    exact .inr ⟨k, hk, hle⟩
  | some f =>
    have hsize := complete_sendBufferSize hpending
    have hmove := complete_resp hpending
    by_cases hresp : isResponse f = true
    · by_cases hleft : 0 < Sender.leftAfter f s.sendBufferSize
      · -- a report carries at least the 57 bytes of an init frame
        rw [if_pos ⟨hresp, hleft⟩] at hmove
        refine .inr ⟨k + 1, ?_, ?_⟩
        · rw [hmove, hk, Nat.mul_succ]
        · rw [hsize]
          rcases leftAfter_cases s.sendBufferSize hresp with ⟨-, heq⟩ | ⟨-, heq⟩
          · unfold initRoom at *
            omega
          · unfold initRoom contRoom at *
            omega
      · refine .inl ?_
        rw [hsize]
        omega
    · rw [Bool.not_eq_true] at hresp
      rw [if_neg (fun hand => Bool.false_ne_true (hresp.symm.trans hand.1))] at hmove
      rw [leftAfter_keepalive _ hresp] at hsize
      exact .inr ⟨k, by rw [hmove, hk], by rw [hsize]; exact hle⟩

theorem Loose.header_room (h : Loose s) (hresp : isResponse f = true)
    (hleft : 0 < Sender.leftAfter f s.sendBufferSize) : s.resp + contRoom + 5 ≤ usbBufferSize := by
  obtain ⟨k, hk, hle⟩ := h
  unfold mixedRoom initRoom at hle
  rw [hk]
  show (64 - 5) * k + (64 - 5) + 5 ≤ 2048
  rcases leftAfter_cases s.sendBufferSize hresp with ⟨-, heq⟩ | ⟨-, heq⟩
  · rw [heq] at hleft
    unfold initRoom at hleft
    omega
  · rw [heq] at hleft
    unfold contRoom at hleft
    omega

theorem leftAfter_zero (hresp : isResponse f = true) : Sender.leftAfter f 0 = 0 := by
  rcases leftAfter_cases 0 hresp with ⟨-, heq⟩ | ⟨-, heq⟩ <;> omega

theorem Aligned.same {s' : Sender} (h : Aligned inits p) (hresp : s'.resp = p.sender.resp)
    (hsize : s'.sendBufferSize = p.sender.sendBufferSize) (hr : s'.rPtr = p.sender.rPtr)
    (hw : s'.wPtr = p.sender.wPtr) (hset : Settled p.sender → Settled s') :
    Aligned inits (p.withSender s') := by
  have hreach : (p.withSender s').reach inits = p.reach inits := by
    show s'.resp + s'.sendBufferSize + 2 * inits + 2 * p.owed = p.reach inits
    rw [hresp, hsize]
    rfl
  refine ⟨h.inits_le, ?_, ?_, ?_, ?_, fun hz => hset (h.settled hz), h.still⟩
  · show s'.rPtr = s'.resp
    rw [hr, hresp, h.here]
  · rw [hreach]
    show _ ≤ s'.wPtr
    rw [hw]
    exact h.ahead
  · show s'.wPtr + 64 * p.owed ≤ _
    rw [hw]
    exact h.bound
  · rw [hreach]
    show (∃ k, s'.resp = contRoom * k) ∧ _ ∨ p.threadType = 1 ∧ _
    rw [hresp]
    exact h.place

theorem Loose.same {s' : Sender} (h : Loose s) (hresp : s'.resp = s.resp)
    (hsize : s'.sendBufferSize = s.sendBufferSize) : Loose s' := by
  obtain ⟨k, hk, hle⟩ := h
  exact ⟨k, hresp.trans hk, hsize ▸ hle⟩

theorem Settled.write (h : Settled s) (accepted : Bool)
    (hf : isResponse f = true → f.type = s.buffer (s.resp + 4)) : Settled (s.write accepted f) := by
  refine ⟨?_, ?_⟩
  · rw [write_buffer, write_resp]
    exact h.early
  · intro g hg hresp
    rw [write_buffer, write_resp]
    rcases write_pending accepted s with hsame | hnew
    · exact h.flight g (hsame ▸ hg) hresp
    · rw [hnew] at hg
      obtain rfl := Option.some.inj hg
      exact hf hresp

theorem Aligned.task (h : Aligned inits p) (accepted : Bool) :
    Aligned inits (p.withSender (p.sender.task accepted)) := by
  unfold Sender.task
  split_ifs
  · refine h.same (write_resp _ _) (write_sendBufferSize _ _) (write_rPtr _ _) (write_wPtr _ _) ?_
    intro hset
    apply hset.write
    intro _
    rw [← h.here]
    rfl
  · exact h

@[simp] theorem task_sendBufferSize (accepted : Bool) (s : Sender) :
    (s.task accepted).sendBufferSize = s.sendBufferSize := by
  unfold Sender.task
  split_ifs
  · exact write_sendBufferSize _ _
  · rfl

@[simp] theorem task_resp (accepted : Bool) (s : Sender) : (s.task accepted).resp = s.resp := by
  unfold Sender.task
  split_ifs
  · exact write_resp _ _
  · rfl

@[simp] theorem keepalive_sendBufferSize (accepted : Bool) (cid : Cid) (status : Byte) (s : Sender) :
    (s.keepalive accepted cid status).sendBufferSize = s.sendBufferSize := write_sendBufferSize _ _

@[simp] theorem keepalive_resp (accepted : Bool) (cid : Cid) (status : Byte) (s : Sender) :
    (s.keepalive accepted cid status).resp = s.resp := write_resp _ _

theorem Aligned.keepalive (h : Aligned inits p) (hthread : p.threadType ≠ 1) (accepted : Bool)
    (cid : Cid) (status : Byte) :
    Aligned inits (p.withSender (p.sender.keepalive accepted cid status)) := by
  obtain ⟨⟨k, hk⟩, hreach⟩ := h.place.resolve_right fun hx => hthread hx.1
  unfold Port.reach usbBufferSize at hreach
  unfold contRoom at hk
  refine h.same (keepalive_resp _ _ _ _) (keepalive_sendBufferSize _ _ _ _) (write_rPtr _ _)
    (write_wPtr _ _) ?_
  intro hset
  have hbyte : blit (blit p.sender.buffer keepaliveAt (cidBytes cid ++ [ctaphidKeepalive]))
      (keepaliveAt + 6) [1, status] (p.sender.resp + 4) = p.sender.buffer (p.sender.resp + 4) := by
    have hat : keepaliveAt = 1984 := rfl
    by_cases hlow : p.sender.resp + 4 < keepaliveAt
    · exact keepalive_outside _ _ _ hlow
    · rw [blit_behind, blit_behind]
      · show keepaliveAt + 5 ≤ _
        omega
      · show keepaliveAt + 6 + 2 ≤ _
        omega
  refine Settled.write ⟨?_, ?_⟩ accepted ?_
  · show contRoom * (BitVec.toNat (w := 8) (blit _ _ _ (p.sender.resp + 4)) + 1) ≤ p.sender.resp
    rw [hbyte]
    exact hset.early
  · intro g hg hresp
    show g.type = blit _ _ _ (p.sender.resp + 4)
    rw [hbyte]
    exact hset.flight g hg hresp
  · intro hresp
    rw [keepalive_type] at hresp
    cases hresp

theorem aligned_start {base n : Nat} (hr : s.rPtr = base) (hresp : s.resp = base)
    (hw : s.wPtr = base + n + 7) (hsize : s.sendBufferSize = n)
    (hplace : base = 0 ∧ n + 7 ≤ usbBufferSize ∨ p.threadType = 1 ∧ base + n + 9 ≤ usbBufferSize)
    (hstill : p.receiver.lastPacketTime = 0) : Aligned 1 (p.withSender s) := by
  have howed : p.owed ≤ 1 := by
    unfold Port.owed
    split_ifs <;> omega
  have hreach : (p.withSender s).reach 1 = base + n + 2 + 2 * p.owed := by
    show s.resp + s.sendBufferSize + 2 * 1 + 2 * p.owed = _
    rw [hresp, hsize]
  unfold usbBufferSize at hplace
  refine ⟨Nat.le_refl 1, hr.trans hresp.symm, ?_, ?_, ?_, fun hz => absurd hz (by omega), hstill⟩
  · rw [hreach]
    show _ ≤ s.wPtr
    omega
  · show s.wPtr + 64 * p.owed ≤ 2048 + 64
    omega
  · rw [hreach]
    show (∃ k, s.resp = contRoom * k) ∧ _ ≤ 2048 ∨ p.threadType = 1 ∧ _ ≤ 2048
    rcases hplace with ⟨hzero, hle⟩ | ⟨hthread, hle⟩
    · exact .inl ⟨⟨0, by rw [hresp, hzero]; rfl⟩, by omega⟩
    · exact .inr ⟨hthread, by omega⟩

theorem Aligned.error (h : Aligned inits p) (howed : p.working = true) (cid : Cid) (code : Byte) :
    Aligned 1 ((p.withSender (p.sender.error cid code)).rest) := by
  have hone : p.owed = 1 := by
    unfold Port.owed
    rw [if_pos howed]
  have hle := h.inits_le
  have hbound := h.bound
  have hahead := h.ahead
  have hplace := h.place
  rw [hone] at hbound
  unfold Port.reach at hahead hplace
  rw [hone] at hahead hplace
  unfold usbBufferSize at hbound hplace
  have hw : (p.sender.wPtr + 64) % 65536 = p.sender.wPtr + 64 := by omega
  refine ⟨Nat.le_refl 1, h.here, ?_, ?_, ?_, fun hz => absurd hz (by omega), h.still⟩
  · show p.sender.resp + p.sender.sendBufferSize + 2 * 1 + 2 * 0 + 3 ≤ (p.sender.wPtr + 64) % 65536
    omega
  · show (p.sender.wPtr + 64) % 65536 + 64 * 0 ≤ 2048 + 64
    omega
  · show (∃ k, p.sender.resp = contRoom * k) ∧
        p.sender.resp + p.sender.sendBufferSize + 2 * 1 + 2 * 0 + 3 ≤ 2048 ∨
      p.threadType = 1 ∧ p.sender.resp + p.sender.sendBufferSize + 2 * 1 + 2 * 0 + 5 ≤ 2048
    rcases hplace with ⟨hk, hplace⟩ | ⟨hthread, hplace⟩
    · exact .inl ⟨hk, by omega⟩
    · exact .inr ⟨hthread, by omega⟩

theorem Aligned.rest (h : Aligned inits p) : Aligned inits p.rest := by
  have hless : p.rest.reach inits ≤ p.reach inits := by
    show p.sender.resp + p.sender.sendBufferSize + 2 * inits + 2 * 0 ≤
      p.sender.resp + p.sender.sendBufferSize + 2 * inits + 2 * p.owed
    omega
  have hahead := h.ahead
  have hbound := h.bound
  refine ⟨h.inits_le, h.here, ?_, ?_, ?_, h.settled, h.still⟩
  · show p.rest.reach inits + 3 ≤ p.sender.wPtr
    omega
  · show p.sender.wPtr + 64 * 0 ≤ _
    omega
  · rcases h.place with ⟨hk, hplace⟩ | ⟨hthread, hplace⟩
    · exact .inl ⟨hk, by omega⟩
    · exact .inr ⟨hthread, by omega⟩

theorem execFinishedCont_whole (cid : Cid) (cmd : Byte) (n : Nat) (hn : n + 7 < 65536) (hr : s.rPtr = 0)
    (hw : s.wPtr = 0) :
    (s.execFinishedCont cid cmd n 7).rPtr = 0 ∧ (s.execFinishedCont cid cmd n 7).wPtr = n + 7 ∧
      (s.execFinishedCont cid cmd n 7).resp = 0 ∧ (s.execFinishedCont cid cmd n 7).sendBufferSize = n := by
  refine ⟨?_, ?_, rfl, rfl⟩
  · show (s.rPtr + 0) % 65536 = 0
    omega
  · show (s.wPtr + (n + 7) + 0) % 65536 = n + 7
    omega

theorem SenderInv.complete (h : SenderInv p) : SenderInv (p.withSender p.sender.complete) := by
  rcases h with hzero | hloose | ⟨inits, halign⟩
  · refine .inl ?_
    show p.sender.complete.sendBufferSize = 0
    cases hpending : p.sender.pending with
    | none =>
      unfold Sender.complete
      rw [hpending]
      exact hzero
    | some f =>
      rw [complete_sendBufferSize hpending, hzero]
      by_cases hresp : isResponse f = true
      · exact leftAfter_zero hresp
      · rw [Bool.not_eq_true] at hresp
        exact leftAfter_keepalive 0 hresp
  · rcases hloose.complete with hzero | hloose
    · exact .inl hzero
    · exact .inr (.inl hloose)
  · rcases halign.complete with hzero | halign
    · exact .inl hzero
    · exact .inr (.inr halign)

theorem SenderInv.completeRegions (h : SenderInv p) : ∀ g ∈ p.completeRegions, g.Inside := by
  intro g hg
  unfold Port.completeRegions at hg
  cases hpending : p.sender.pending with
  | none =>
    rw [hpending] at hg
    cases hg
  | some f =>
    rw [hpending] at hg
    dsimp only at hg
    split_ifs at hg with hmore
    · rw [List.mem_singleton.mp hg]
      show p.sender.resp + contRoom + 5 ≤ usbBufferSize
      rcases h with hzero | hloose | ⟨inits, halign⟩
      · rw [hzero, leftAfter_zero hmore.1] at hmore
        exact absurd hmore.2 (Nat.lt_irrefl 0)
      · exact hloose.header_room hmore.1 hmore.2
      · exact halign.header_room hpending hmore.1 hmore.2
    · cases hg

theorem SenderInv.task (h : SenderInv p) (accepted : Bool) :
    SenderInv (p.withSender (p.sender.task accepted)) := by
  rcases h with hzero | hloose | ⟨inits, halign⟩
  · exact .inl ((task_sendBufferSize _ _).trans hzero)
  · exact .inr (.inl (hloose.same (task_resp _ _) (task_sendBufferSize _ _)))
  · exact .inr (.inr ⟨inits, halign.task accepted⟩)

theorem SenderInv.keepalive (h : SenderInv p) (hthread : p.threadType ≠ 1) (accepted : Bool) (cid : Cid)
    (status : Byte) : SenderInv (p.withSender (p.sender.keepalive accepted cid status)) := by
  rcases h with hzero | hloose | ⟨inits, halign⟩
  · exact .inl ((keepalive_sendBufferSize _ _ _ _).trans hzero)
  · exact .inr (.inl (hloose.same (keepalive_resp _ _ _ _) (keepalive_sendBufferSize _ _ _ _)))
  · exact .inr (.inr ⟨inits, halign.keepalive hthread accepted cid status⟩)

theorem SenderInv.expire (h : SenderInv p) (now : BitVec 32) : SenderInv (p.expire now) := by
  unfold Port.expire
  split_ifs with htime
  · rcases h with hzero | hloose | ⟨inits, halign⟩
    · exact .inl hzero
    · exact .inr (.inl hloose)
    · -- no message is open while an answer is being sent alone
      exact absurd htime.1 (by rw [halign.still]; exact BitVec.lt_irrefl 0)
  · exact h

theorem SenderInv.rest (h : SenderInv p) : SenderInv p.rest := by
  rcases h with hzero | hloose | ⟨inits, halign⟩
  · exact .inl hzero
  · exact .inr (.inl hloose)
  · exact .inr (.inr ⟨inits, halign.rest⟩)

theorem execFinished_ok {sw : BitVec 16} {n : Nat} (hn : n ≠ 0) (hok : ¬ (p.threadType = 2 ∧ sw ≠ 0)) :
    ∃ s : Sender, s.rPtr = p.sender.rPtr ∧ s.wPtr = p.sender.wPtr ∧ p.execFinished sw n =
      p.withSender (s.execFinishedCont p.receiver.lastReqCid p.receiver.lastCmd n 7) := by
  unfold Port.execFinished
  rw [if_neg hn, if_neg hok]
  by_cases hnk : p.isNk = true
  · rw [if_pos hnk]
    exact ⟨{ p.sender with
      buffer := blit (blit p.sender.buffer 9 (window p.sender.buffer 7 (n - 2))) 7
        [sw.extractLsb' 8 8, sw.extractLsb' 0 8] }, rfl, rfl, rfl⟩
  · rw [if_neg hnk]
    exact ⟨p.sender, rfl, rfl, rfl⟩

theorem SenderInv.finished {sw : BitVec 16} {n : Nat} (h : SenderInv p) (hworking : p.working = true)
    (hmeets : Meets p (.finished sw n)) : SenderInv (p.execFinished sw n).rest := by
  by_cases hn : n = 0
  · have hsame : p.execFinished sw n = p := by
      unfold Port.execFinished
      rw [if_pos hn]
    rw [hsame]
    exact h.rest
  obtain ⟨-, hroom⟩ := hmeets hworking (Nat.pos_of_ne_zero hn)
  by_cases hfail : p.threadType = 2 ∧ sw ≠ 0
  · have hsame : p.execFinished sw n =
        p.withSender (p.sender.error p.reqCid (sw.extractLsb' 0 8)) := by
      unfold Port.execFinished
      rw [if_neg hn, if_pos hfail]
      rfl
    rw [hsame]
    rcases h with hzero | hloose | ⟨inits, halign⟩
    · exact .inl hzero
    · exact .inr (.inl hloose)
    · exact .inr (.inr ⟨1, halign.error hworking _ _⟩)
  · obtain ⟨s, hr, hw, hsame⟩ := execFinished_ok hn hfail
    rw [hsame]
    rcases (hroom hfail).2 with hshort | ⟨hfits, hquiet⟩
    · exact .inr (.inl ⟨0, rfl, by
        show initRoom * 0 + n ≤ mixedRoom
        omega⟩)
    · have hsmall : n + 7 < 65536 := by
        unfold usbBufferSize at hfits
        omega
      obtain ⟨hr', hw', hresp, hsize⟩ := execFinishedCont_whole p.receiver.lastReqCid
        p.receiver.lastCmd n hsmall (hr.trans hquiet.rPtr) (hw.trans hquiet.wPtr)
      have hstart := aligned_start hr' hresp (hw'.trans (by omega)) hsize (.inl ⟨rfl, hfits⟩)
        hquiet.lastPacketTime
      exact .inr (.inr ⟨1, hstart.rest⟩)

theorem finished_regions {sw : BitVec 16} {n : Nat} (hworking : p.working = true)
    (hmeets : Meets p (.finished sw n)) : ∀ g ∈ p.execFinishedRegions sw n, g.Inside := by
  intro g hg
  unfold Port.execFinishedRegions at hg
  by_cases hn : n = 0
  · rw [if_pos hn] at hg
    cases hg
  rw [if_neg hn] at hg
  obtain ⟨herror, hroom⟩ := hmeets hworking (Nat.pos_of_ne_zero hn)
  by_cases hfail : p.threadType = 2 ∧ sw ≠ 0
  · rw [if_pos hfail] at hg
    rw [List.mem_singleton.mp hg]
    exact herror hfail
  rw [if_neg hfail] at hg
  obtain ⟨htwo, hsize⟩ := hroom hfail
  have hfits : n + 7 ≤ usbBufferSize := by
    rcases hsize with hshort | hfits
    · unfold mixedRoom initRoom at hshort
      unfold usbBufferSize
      omega
    · exact hfits.1
  have hmove : p.isNk = true → Port.moveLen n = n - 2 := by
    intro hnk
    have := htwo hnk
    unfold usbBufferSize at hfits
    unfold Port.moveLen
    omega
  unfold usbBufferSize at hfits
  rcases List.mem_append.mp hg with hg | hg
  · by_cases hnk : p.isNk = true
    · rw [if_pos hnk, hmove hnk] at hg
      have htwo := htwo hnk
      simp only [List.mem_cons, List.not_mem_nil, or_false] at hg
      rcases hg with rfl | rfl | rfl
      · show 7 + (n - 2) ≤ 2048
        omega
      · show 9 + (n - 2) ≤ 2048
        omega
      · show 7 + 2 ≤ 2048
        omega
    · rw [if_neg hnk] at hg
      cases hg
  · rw [List.mem_singleton.mp hg]
    show 0 + 7 ≤ 2048
    omega

theorem keepaliveRegions_inside : ∀ g ∈ Port.keepaliveRegions, g.Inside := by decide

end Sending

/-! A frame. -/

section Frames

variable {p : Port} {f : Frame} {r r' : Receiver} {now : BitVec 32} {history : List Frame}
  {around : Around}

theorem takenIn_none (busy : Bool) (h : takenIn now f r = none) :
    (processPacket busy now f r).2 = .ignored ∨ (processPacket busy now f r).2 = .cancel ∨
      ∃ e, (processPacket busy now f r).2 = .error e := by
  unfold takenIn at h
  unfold processPacket
  dsimp only at h ⊢
  split_ifs at h ⊢ with hstray hcid hlock hcancel
  · exact .inl rfl
  · exact .inr (.inr ⟨_, rfl⟩)
  · exact .inr (.inr ⟨_, rfl⟩)
  · exact .inr (.inl rfl)
  · exact .inl rfl
  · cases hacc : accept now f { r with lastPacketTime := now } with
    | error e => exact .inr (.inr ⟨e, rfl⟩)
    | ok r' =>
      rw [hacc] at h
      cases h

theorem takenIn_some (busy : Bool) (h : takenIn now f r = some r') :
    processPacket busy now f r = dispatch now f r' ∧
      accept now f { r with lastPacketTime := now } = .ok r' ∧ (f.isInit = false → 0 < r.len) := by
  unfold takenIn at h
  unfold processPacket
  dsimp only at h ⊢
  split_ifs at h ⊢ with hstray hcid hlock hcancel
  cases hacc : accept now f { r with lastPacketTime := now } with
  | error e =>
    rw [hacc] at h
    cases h
  | ok r1 =>
    rw [hacc] at h
    obtain rfl : r1 = r' := Option.some.inj h
    refine ⟨rfl, rfl, fun hcont => Nat.pos_of_ne_zero fun hz => hstray ⟨hcont, hz⟩⟩

theorem takenIn_accepted (hr : ReceiverInv history r) (h : takenIn now f r = some r') :
    Accepted history f r' := by
  obtain ⟨-, hacc, hopen⟩ := takenIn_some true h
  have hsame : SameMessage r { r with lastPacketTime := now } := ⟨rfl, rfl, rfl, rfl, rfl, rfl⟩
  have hstart : ReceiverInv history { r with lastPacketTime := now } := by
    refine ⟨hr.bounded, fun hpos hm => ?_⟩
    obtain ⟨init, conts, hsub, ho, hmore⟩ := hr.opened hpos hm
    exact ⟨init, conts, hsub, hsame.opened ho, hmore⟩
  unfold accept at hacc
  split_ifs at hacc with hinit
  · exact acceptInit_accepted hinit hacc
  · rw [Bool.not_eq_true] at hinit
    exact acceptCont_accepted hstart (hopen hinit) hinit hacc

theorem dispatch_handed {cmd : Byte} {payload : Bytes} (h : (dispatch now f r).2 = .message cmd payload) :
    cmd = r.lastCmd ∧ payload = received f r ∧ complete r ∧ (dispatch now f r).1.lastPacketTime = 0 := by
  unfold dispatch at h ⊢
  by_cases hinit : f.type = ctaphidInit
  · rw [if_pos hinit] at h
    cases h
  rw [if_neg hinit] at h ⊢
  by_cases hwink : f.type = ctaphidWink
  · rw [if_pos hwink] at h
    by_cases hlen : f.msgLen ≠ 0
    · rw [if_pos hlen] at h
      cases h
    · rw [if_neg hlen] at h
      cases h
  rw [if_neg hwink] at h ⊢
  by_cases hecho : isEcho r.lastCmd ∧ complete r
  · rw [if_pos hecho] at h ⊢
    cases h
    exact ⟨rfl, rfl, hecho.2, rfl⟩
  rw [if_neg hecho] at h ⊢
  by_cases hlock : f.type = ctaphidLock
  · rw [if_pos hlock] at h
    exact absurd h ((lockChannel_cases now f r).2 cmd payload)
  rw [if_neg hlock] at h ⊢
  by_cases hreply : f.type = ctaphidUuid ∨ f.type = ctaphidVersion ∨ f.type = ctaphidAdmin
  · rw [if_pos hreply] at h
    cases h
  rw [if_neg hreply] at h ⊢
  by_cases happ : (isApdu r.lastCmd ∨ isCbor r.lastCmd) ∧ complete r
  · rw [if_pos happ] at h ⊢
    cases h
    exact ⟨rfl, rfl, happ.2, rfl⟩
  rw [if_neg happ] at h
  by_cases hlen : r.len = 0
  · rw [if_pos hlen] at h
    cases h
  · rw [if_neg hlen] at h
    cases h

/-- What a handed message is: in msg_packet or in its one frame, and an echo in msg_packet was
completed by this frame. -/
theorem handed_spec {cmd : Byte} {payload : Bytes} (hr : ReceiverInv history r) (busy : Bool)
    (h : (processPacket busy now f r).2 = .message cmd payload) :
    ∃ r', takenIn now f r = some r' ∧ (processPacket busy now f r).1.lastPacketTime = 0 ∧
      payload.length = (if 0 < r'.len then r'.len else f.msgLen) ∧ r'.len ≤ maxPacketSize ∧
      (0 < r'.len → f.isInit = false ∧ cmd = r.lastCmd ∧ f.cid = r.lastReqCid ∧ f.type = r.lastSeq ∧
        r.len ≤ r.currentLen + contRoom ∧ r'.len = r.len) ∧
      (r'.len = 0 → f.msgLen ≤ initRoom) := by
  cases htaken : takenIn now f r with
  | none =>
    rcases takenIn_none busy htaken with hn | hn | ⟨e, hn⟩ <;> rw [hn] at h <;> cases h
  | some r' =>
    obtain ⟨hrun, hacc, hopen⟩ := takenIn_some busy htaken
    have haccepted := takenIn_accepted hr htaken
    rw [hrun] at h ⊢
    obtain ⟨hcmd, hpayload, hcomplete, htime⟩ := dispatch_handed h
    refine ⟨r', rfl, htime, ?_, haccepted.bounded.2, ?_, fun hz => (haccepted.short hz).2⟩
    · rw [hpayload, Hid.received]
      by_cases hpos : 0 < r'.len
      · rw [if_pos hpos, if_pos hpos]
        exact window_length
      · rw [if_neg hpos, if_neg hpos, List.length_take, Frame.initData_length]
        have := (haccepted.short (by omega)).2
        omega
    · intro hpos
      have hfull : r'.len = r'.currentLen := hcomplete.resolve_left (by omega)
      unfold accept at hacc
      split_ifs at hacc with hinit
      · -- an init frame does not complete a message of several frames
        obtain ⟨-, -, -, -, ⟨hroom, hlen, hcur, -⟩ | ⟨-, hzero, -⟩⟩ := acceptInit_ok hacc
        · omega
        · omega
      · rw [Bool.not_eq_true] at hinit
        have hm : IsMessage r'.lastCmd := by
          rcases @dispatch_cases r' f now haccepted.cmd with ⟨-, -, hmsg⟩ | ⟨-, -, hno⟩
          · exact hcmd ▸ (hmsg cmd payload h).2.2.2
          · exact absurd h (hno cmd payload)
        rcases acceptCont_ok hacc with hsame | ⟨hseq, hcid, hnext⟩
        · -- a frame of another channel leaves the message open
          rw [hsame] at hm hfull
          obtain ⟨init, conts, -, ho, hmore⟩ := hr.opened (hopen hinit) hm
          have hcur := ho.current
          have hfull' : r.len = r.currentLen := hfull
          omega
        · have hcmd' : r'.lastCmd = r.lastCmd := by rw [hnext]
          have hlen : r'.len = r.len := by rw [hnext]
          have hcur : r'.currentLen = r.currentLen + min contRoom (r.len - r.currentLen) := by
            rw [hnext]
          exact ⟨hinit, hcmd.trans hcmd', hcid.symm, hseq.symm, by omega, hlen⟩

/-- Nothing is left to send, and ctap_resp is at the start. -/
structure Fresh (s : Sender) : Prop where
  sendBufferSize : s.sendBufferSize = 0
  resp : s.resp = 0

theorem fresh_reset (s : Sender) : Fresh s.reset := ⟨rfl, rfl⟩

theorem Fresh.error {s : Sender} (h : Fresh s) (cid : Cid) (code : Byte) : Fresh (s.error cid code) :=
  ⟨h.sendBufferSize, h.resp⟩

theorem Fresh.answer {s : Sender} (h : Fresh s) (accepted : Bool) (cid : Cid) (cmd : Byte) (body : Bytes) :
    Fresh (s.answer accepted cid cmd body) := by
  constructor
  · exact (write_sendBufferSize _ _).trans h.sendBufferSize
  · exact (write_resp _ _).trans h.resp

theorem whole_eq (h : takenIn now f p.receiver = some r') : p.whole now f = decide (0 < r'.len) := by
  unfold Port.whole
  rw [h]
  rfl

theorem echo_aligned {q : Port} {cmd : Byte} {payload : Bytes} (hq : q.sender = p.sender.reset)
    (hstill : q.receiver.lastPacketTime = 0) (hpos : 0 < payload.length)
    (hfits : payload.length + 7 ≤ usbBufferSize) :
    Fresh (q.echo around f cmd payload true).sender ∨ Aligned 1 (q.echo around f cmd payload true) := by
  unfold Port.echo
  rw [if_pos rfl]
  have hr : q.sender.rPtr = 0 := by rw [hq]; rfl
  have hw : q.sender.wPtr = 0 := by rw [hq]; rfl
  have hsmall : payload.length + 7 < 65536 := by
    unfold usbBufferSize at hfits
    omega
  by_cases hfail : q.threadType = 2 ∧ around.sw ≠ 0
  · refine .inl ?_
    unfold Port.execFinished
    rw [if_neg (by omega), if_pos hfail]
    refine ⟨?_, ?_⟩
    · show q.sender.sendBufferSize = 0
      rw [hq]
      rfl
    · show q.sender.resp = 0
      rw [hq]
      rfl
  · have hn : payload.length ≠ 0 := by omega
    obtain ⟨s, hsr, hsw, hsame⟩ := @execFinished_ok
      { q with sender := { q.sender with buffer := blit q.sender.buffer 7 payload } } around.sw
      payload.length hn hfail
    rw [hsame]
    obtain ⟨hr', hw', hresp, hsize⟩ := execFinishedCont_whole q.receiver.lastReqCid q.receiver.lastCmd
      payload.length hsmall (hsr.trans hr) (hsw.trans hw)
    exact .inr (aligned_start hr' hresp (hw'.trans (by omega)) hsize (.inl ⟨rfl, hfits⟩) hstill)

theorem apdu_aligned {q : Port} {cmd : Byte} (hq : q.sender = p.sender.reset)
    (hstill : q.receiver.lastPacketTime = 0)
    (hmeets : ∀ start n back status, around.apdu = .further start n back status →
      around.ccidWPtr = none ∧ 7 ≤ start ∧ 2 ≤ n ∧ 7 + start + n ≤ usbBufferSize) :
    Fresh (q.apdu around cmd).sender ∨ Aligned 1 (q.apdu around cmd) := by
  have hr : q.sender.rPtr = 0 := by rw [hq]; rfl
  have hw : q.sender.wPtr = 0 := by rw [hq]; rfl
  unfold Port.apdu
  cases hreply : around.apdu with
  | started =>
    refine .inl ?_
    show Fresh q.sender
    rw [hq]
    exact fresh_reset _
  | dropped =>
    refine .inl ?_
    show Fresh q.sender
    rw [hq]
    exact fresh_reset _
  | further start n back status =>
    obtain ⟨hsingle, hstart, htwo, hfits⟩ := hmeets start n back status hreply
    unfold usbBufferSize at hfits
    have hat : Sender.headerAt start = start - 7 := by
      unfold Sender.headerAt
      omega
    refine .inr ?_
    dsimp only
    refine @aligned_start _ { q with threadType := 1, isNk := decide (cmd = ctaphidOtp) } (start - 7) n
      ?_ hat ?_ rfl (.inr ⟨rfl, ?_⟩) hstill
    · show (q.sender.rPtr + Sender.headerAt start) % 65536 = start - 7
      rw [hr, hat]
      omega
    · show (q.sender.wPtr + (n + 7) + Sender.headerAt start) % 65536 = start - 7 + n + 7
      rw [hw, hat]
      omega
    · show start - 7 + n + 9 ≤ 2048
      omega

theorem takeFrame_sender (hr : ReceiverInv history p.receiver)
    (hecho : f.isInit = false → isEcho p.receiver.lastCmd → f.cid = p.receiver.lastReqCid →
      f.type = p.receiver.lastSeq → p.receiver.len ≤ p.receiver.currentLen + contRoom →
      p.receiver.len + 7 ≤ usbBufferSize)
    (hapdu : ∀ start n back status, around.apdu = .further start n back status →
      around.ccidWPtr = none ∧ 7 ≤ start ∧ 2 ≤ n ∧ 7 + start + n ≤ usbBufferSize) :
    Fresh (p.takeFrame around now f).sender ∨ Aligned 1 (p.takeFrame around now f) := by
  unfold Port.takeFrame
  have hfresh : Fresh (p.receive around now f).sender := fresh_reset _
  cases hout : (processPacket around.busy now f p.receiver).2 with
  | ignored => exact .inl hfresh
  | waiting => exact .inl hfresh
  | cancel => exact .inl hfresh
  | error e => exact .inl (hfresh.error _ _)
  | reply => exact .inl (hfresh.answer _ _ _ _)
  | message cmd payload =>
    obtain ⟨r', htaken, hstill, hlength, -, hlong, -⟩ := handed_spec hr around.busy hout
    rw [whole_eq htaken]
    unfold Port.respond
    dsimp only
    by_cases hcmd : isEcho cmd
    · rw [if_pos hcmd]
      by_cases hpos : 0 < r'.len
      · rw [decide_eq_true hpos]
        obtain ⟨hcont, hlast, hcid, hseq, hend, hlen⟩ := hlong hpos
        rw [if_pos hpos, hlen] at hlength
        have hfits := hecho hcont (hlast ▸ hcmd) hcid hseq hend
        exact echo_aligned rfl hstill (by omega) (by omega)
      · rw [decide_eq_false hpos]
        refine .inl ?_
        unfold Port.echo
        rw [if_neg Bool.false_ne_true]
        exact hfresh.answer _ _ _ _
    · rw [if_neg hcmd]
      by_cases hap : isApdu cmd
      · rw [if_pos hap]
        exact apdu_aligned rfl hstill hapdu
      · rw [if_neg hap]
        refine .inl ?_
        unfold Port.cbor
        split_ifs
        · exact hfresh.error _ _
        · refine ⟨?_, ?_⟩
          · exact keepalive_sendBufferSize _ _ _ _
          · exact keepalive_resp _ _ _ _

theorem assemble_inside (hbound : Bounded r) : ∀ g ∈ Port.assembleRegions 0 f r, g.Inside := by
  have hcur := hbound.1
  have hmax := hbound.2
  intro g hg
  unfold Port.assembleRegions at hg
  by_cases hinit : f.isInit = true
  · rw [if_pos hinit] at hg
    rcases List.mem_append.mp hg with hg | hg
    · split_ifs at hg
      · simp only [List.mem_cons, List.not_mem_nil, or_false] at hg
        rcases hg with rfl | rfl <;> decide
      · cases hg
    · simp only [List.mem_cons, List.not_mem_nil, or_false] at hg
      rcases hg with rfl | rfl <;> decide
  rw [if_neg hinit] at hg
  by_cases hcid : r.lastReqCid = f.cid
  · rw [if_pos hcid] at hg
    simp only [List.mem_cons, List.not_mem_nil, or_false] at hg
    rcases hg with rfl | rfl | rfl | rfl
    · show 0 + 5 + min contRoom (r.len - r.currentLen) ≤ usbBufferSize
      unfold contRoom usbBufferSize
      omega
    · show r.currentLen + min contRoom (r.len - r.currentLen) ≤ maxPacketSize
      omega
    · decide
    · decide
  · rw [if_neg hcid] at hg
    cases hg

theorem reply_inside (f : Frame) : ∀ g ∈ Port.replyRegions 0 f, g.Inside := by
  unfold Port.replyRegions
  split_ifs <;> decide

theorem echo_inside {q : Port} {len : Nat} (hq : q.sender = p.sender.reset) (hnk : q.isNk = false)
    {whole : Bool} (hlong : whole = true → len ≤ maxPacketSize ∧ len + 7 ≤ usbBufferSize)
    (hshort : whole = false → len ≤ initRoom) :
    ∀ g ∈ q.echoRegions around 0 len whole, g.Inside := by
  intro g hg
  unfold Port.echoRegions at hg
  cases whole with
  | true =>
    obtain ⟨hmax, hfits⟩ := hlong rfl
    rw [if_pos rfl] at hg
    rcases List.mem_append.mp hg with hg | hg
    · simp only [List.mem_cons, List.not_mem_nil, or_false] at hg
      rcases hg with rfl | rfl
      · show 0 + len ≤ maxPacketSize
        omega
      · show 7 + len ≤ usbBufferSize
        omega
    · unfold Port.execFinishedRegions at hg
      rw [hnk, if_neg Bool.false_ne_true] at hg
      split_ifs at hg
      · cases hg
      · rw [List.mem_singleton.mp hg]
        show q.sender.resp + 64 ≤ usbBufferSize
        rw [hq]
        show 0 + 64 ≤ 2048
        omega
      · rw [List.nil_append] at hg
        rw [List.mem_singleton.mp hg]
        decide
  | false =>
    have hle := hshort rfl
    unfold initRoom at hle
    rw [if_neg Bool.false_ne_true] at hg
    simp only [List.mem_cons, List.not_mem_nil, or_false] at hg
    rcases hg with rfl | rfl | rfl
    · show 0 + 7 + len ≤ 2048
      omega
    · show 7 + len ≤ 2048
      omega
    · decide

theorem apdu_inside (hmeets : ∀ start n back status, around.apdu = .further start n back status →
      around.ccidWPtr = none ∧ 7 ≤ start ∧ 2 ≤ n ∧ 7 + start + n ≤ usbBufferSize) :
    ∀ g ∈ Port.apduRegions around, g.Inside := by
  intro g hg
  unfold Port.apduRegions at hg
  cases hreply : around.apdu with
  | started =>
    rw [hreply] at hg
    cases hg
  | dropped =>
    rw [hreply] at hg
    cases hg
  | further start n back status =>
    obtain ⟨hsingle, hstart, htwo, hfits⟩ := hmeets start n back status hreply
    unfold usbBufferSize at hfits
    rw [hreply] at hg
    dsimp only at hg
    rw [hsingle, Port.besideRegions, List.append_nil] at hg
    rcases List.mem_append.mp hg with hg | hg
    · rcases List.mem_append.mp hg with hg | hg
      · rw [List.mem_singleton.mp hg]
        show 7 + start + 2 ≤ 2048
        omega
      · split_ifs at hg
        · rw [List.mem_singleton.mp hg]
          show 7 + start + n - 2 + 2 ≤ 2048
          omega
        · cases hg
    · rw [List.mem_singleton.mp hg]
      show (start + 65536 - 7) % 65536 + 7 ≤ 2048
      omega

theorem cbor_inside {q : Port} {len : Nat} {whole : Bool} (hmax : len ≤ maxPacketSize)
    (hshort : whole = false → len ≤ initRoom) : ∀ g ∈ q.cborRegions 0 len whole, g.Inside := by
  intro g hg
  unfold Port.cborRegions at hg
  rw [if_neg (Nat.not_lt_of_le hmax)] at hg
  rcases List.mem_append.mp hg with hg | hg
  · simp only [List.mem_cons, List.not_mem_nil, or_false] at hg
    rcases hg with rfl | rfl | rfl
    · cases whole with
      | true =>
        rw [if_pos rfl]
        show 0 + len ≤ maxPacketSize
        omega
      | false =>
        rw [if_neg Bool.false_ne_true]
        have hle := hshort rfl
        unfold initRoom at hle
        show 0 + 7 + len ≤ 2048
        omega
    · show 0 + len ≤ maxPacketSize
      omega
    · decide
  · exact keepaliveRegions_inside g hg

/-- The answer to a message that is handed on. -/
theorem message_inside {cmd : Byte} {payload : Bytes} (h : PortInv history p)
    (hout : (processPacket around.busy now f p.receiver).2 = .message cmd payload)
    (hecho : f.isInit = false → isEcho p.receiver.lastCmd → f.cid = p.receiver.lastReqCid →
      f.type = p.receiver.lastSeq → p.receiver.len ≤ p.receiver.currentLen + contRoom →
      p.receiver.len + 7 ≤ usbBufferSize)
    (hapdu : ∀ start n back status, around.apdu = .further start n back status →
      around.ccidWPtr = none ∧ 7 ≤ start ∧ 2 ≤ n ∧ 7 + start + n ≤ usbBufferSize) :
    ∀ g ∈ (p.receive around now f).respondRegions around 0 (p.handedLen now f) f (p.whole now f)
      (.message cmd payload), g.Inside := by
  obtain ⟨r', htaken, -, hlength, hmax, hlong, hshort⟩ := handed_spec h.receiver around.busy hout
  have hlen : p.handedLen now f = if 0 < r'.len then r'.len else f.msgLen := by
    unfold Port.handedLen
    rw [htaken]
  have hsmall : ¬ 0 < r'.len → p.handedLen now f ≤ initRoom := by
    intro hno
    rw [hlen, if_neg hno]
    exact hshort (by omega)
  have hall : p.handedLen now f ≤ maxPacketSize := by
    by_cases hpos : 0 < r'.len
    · rw [hlen, if_pos hpos]
      exact hmax
    · have := hsmall hpos
      unfold initRoom at this
      unfold maxPacketSize
      omega
  intro g hg
  rw [whole_eq htaken] at hg
  unfold Port.respondRegions at hg
  dsimp only at hg
  by_cases hcmd : isEcho cmd
  · rw [if_pos hcmd] at hg
    refine @echo_inside p around (p.receive around now f) _ rfl rfl _ ?_ ?_ g hg
    · intro hpos
      have hpos := of_decide_eq_true hpos
      -- the frame has completed it, so the condition on echoes speaks of it
      obtain ⟨hcont, hlast, hcid, hseq, hend, hsame⟩ := hlong hpos
      have hfits := hecho hcont (hlast ▸ hcmd) hcid hseq hend
      refine ⟨hall, ?_⟩
      rw [hlen, if_pos hpos, hsame]
      exact hfits
    · intro hno
      exact hsmall (of_decide_eq_false hno)
  rw [if_neg hcmd] at hg
  by_cases hap : isApdu cmd
  · rw [if_pos hap] at hg
    exact apdu_inside hapdu g hg
  · rw [if_neg hap] at hg
    exact cbor_inside hall (fun hno => hsmall (of_decide_eq_false hno)) g hg

theorem frame_inside (h : PortInv history p)
    (hecho : f.isInit = false → isEcho p.receiver.lastCmd → f.cid = p.receiver.lastReqCid →
      f.type = p.receiver.lastSeq → p.receiver.len ≤ p.receiver.currentLen + contRoom →
      p.receiver.len + 7 ≤ usbBufferSize)
    (hapdu : ∀ start n back status, around.apdu = .further start n back status →
      around.ccidWPtr = none ∧ 7 ≤ start ∧ 2 ≤ n ∧ 7 + start + n ≤ usbBufferSize) :
    ∀ g ∈ p.frameRegions around now f, g.Inside := by
  intro g hg
  unfold Port.frameRegions at hg
  rw [h.rx.1, h.rx.2] at hg
  rcases List.mem_append.mp hg with hg | hg
  · rcases List.mem_append.mp hg with hg | hg
    · simp only [List.mem_cons, List.not_mem_nil, or_false] at hg
      rcases hg with rfl | rfl <;> decide
    · cases htaken : takenIn now f p.receiver with
      | none =>
        rw [htaken] at hg
        cases hg
      | some r' =>
        rw [htaken] at hg
        exact assemble_inside h.receiver.bounded g hg
  · cases hout : (processPacket around.busy now f p.receiver).2 with
    | ignored | waiting | cancel =>
      rw [hout] at hg
      cases hg
    | error e =>
      rw [hout] at hg
      rw [List.mem_singleton.mp hg]
      show 0 + 64 ≤ 2048
      omega
    | reply =>
      rw [hout] at hg
      exact reply_inside f g hg
    | message cmd payload =>
      rw [hout] at hg
      exact message_inside h hout hecho hapdu g hg

theorem handed_space {cmd : Byte} {payload : Bytes} (hr : ReceiverInv history r)
    (hecho : f.isInit = false → isEcho r.lastCmd → f.cid = r.lastReqCid → f.type = r.lastSeq →
      r.len ≤ r.currentLen + contRoom → r.len + 7 ≤ usbBufferSize)
    (busy : Bool) (h : (processPacket busy now f r).2 = .message cmd payload) :
    payload.length ≤ space cmd := by
  obtain ⟨r', -, -, hlength, hmax, hlong, hshort⟩ := handed_spec hr busy h
  rw [hlength]
  have hroom : initRoom ≤ maxPacketSize := by decide
  have hecho' : initRoom ≤ usbBufferSize - 7 := by decide
  unfold space
  by_cases hpos : 0 < r'.len
  · rw [if_pos hpos]
    by_cases hcmd : isEcho cmd
    · rw [if_pos hcmd]
      obtain ⟨hcont, hlast, hcid, hseq, hend, hsame⟩ := hlong hpos
      have hfits := hecho hcont (hlast ▸ hcmd) hcid hseq hend
      omega
    · rw [if_neg hcmd]
      exact hmax
  · rw [if_neg hpos]
    have hle := hshort (by omega)
    split_ifs <;> omega

end Frames

/-! Runs. -/

/-- The frame of an input. -/
def PortInput.frames : PortInput → List Frame
  | .frame _ _ f => [f]
  | _ => []

theorem expire_receiver (now : BitVec 32) (p : Port) : (p.expire now).receiver = processNoPacket now p.receiver := by
  unfold Port.expire
  by_cases htime : TimedOut now p.receiver
  · rw [if_pos htime]
  · rw [if_neg htime]
    unfold processNoPacket
    exact (if_neg htime).symm

theorem expire_rx (now : BitVec 32) (p : Port) :
    (p.expire now).rxR = p.rxR ∧ (p.expire now).rxW = p.rxW := by
  unfold Port.expire
  split_ifs
  · exact ⟨rfl, rfl⟩
  · exact ⟨rfl, rfl⟩

/-- The receiving side is the same. -/
structure SameInput (p q : Port) : Prop where
  receiver : q.receiver = p.receiver
  rxR : q.rxR = p.rxR
  rxW : q.rxW = p.rxW

theorem sameInput_withSender (p : Port) (s : Sender) : SameInput p (p.withSender s) := ⟨rfl, rfl, rfl⟩

theorem SameInput.trans {p q r : Port} (h : SameInput p q) (h' : SameInput q r) : SameInput p r :=
  ⟨h'.receiver.trans h.receiver, h'.rxR.trans h.rxR, h'.rxW.trans h.rxW⟩

theorem sameInput_execFinished (sw : BitVec 16) (n : Nat) (p : Port) : SameInput p (p.execFinished sw n) := by
  by_cases hn : n = 0
  · unfold Port.execFinished
    rw [if_pos hn]
    exact ⟨rfl, rfl, rfl⟩
  by_cases hfail : p.threadType = 2 ∧ sw ≠ 0
  · unfold Port.execFinished
    rw [if_neg hn, if_pos hfail]
    exact sameInput_withSender p _
  · obtain ⟨s, -, -, hsame⟩ := execFinished_ok hn hfail
    rw [hsame]
    exact sameInput_withSender p _

theorem sameInput_apdu (around : Around) (cmd : Byte) (p : Port) : SameInput p (p.apdu around cmd) := by
  have hstart : SameInput p { p with threadType := 1, isNk := decide (cmd = ctaphidOtp) } :=
    ⟨rfl, rfl, rfl⟩
  unfold Port.apdu
  cases around.apdu with
  | started => exact ⟨rfl, rfl, rfl⟩
  | dropped => exact hstart
  | further start n back status => exact hstart.trans (sameInput_withSender _ _)

theorem sameInput_cbor (around : Around) (payload : Bytes) (p : Port) :
    SameInput p (p.cbor around payload) := by
  unfold Port.cbor
  by_cases hlong : maxPacketSize < payload.length
  · rw [if_pos hlong]
    exact ⟨rfl, rfl, rfl⟩
  · rw [if_neg hlong]
    exact ⟨rfl, rfl, rfl⟩

theorem sameInput_echo (around : Around) (f : Frame) (cmd : Byte) (payload : Bytes) (whole : Bool)
    (p : Port) : SameInput p (p.echo around f cmd payload whole) := by
  unfold Port.echo
  cases whole with
  | true =>
    rw [if_pos rfl]
    exact (sameInput_withSender p _).trans (sameInput_execFinished _ _ _)
  | false =>
    rw [if_neg Bool.false_ne_true]
    exact sameInput_withSender p _

theorem sameInput_respond (around : Around) (f : Frame) (whole : Bool) (o : Outcome) (p : Port) :
    SameInput p (p.respond around f whole o) := by
  cases o with
  | ignored => exact ⟨rfl, rfl, rfl⟩
  | waiting => exact ⟨rfl, rfl, rfl⟩
  | cancel => exact ⟨rfl, rfl, rfl⟩
  | error e => exact sameInput_withSender p _
  | reply => exact ⟨rfl, rfl, rfl⟩
  | message cmd payload =>
    unfold Port.respond
    dsimp only
    by_cases hecho : isEcho cmd
    · rw [if_pos hecho]
      exact sameInput_echo around f cmd payload whole p
    rw [if_neg hecho]
    by_cases hap : isApdu cmd
    · rw [if_pos hap]
      exact sameInput_apdu around cmd p
    · rw [if_neg hap]
      exact sameInput_cbor around payload p

section Inputs

variable {history : List Frame} {p : Port}

theorem PortInv.unreceived {q : Port} (h : PortInv history p) (hsame : SameInput p q) (hsender : SenderInv q) :
    PortInv history q := by
  refine ⟨?_, ⟨hsame.rxR.trans h.rx.1, hsame.rxW.trans h.rx.2⟩, hsender⟩
  rw [hsame.receiver]
  exact h.receiver

theorem staysInside_of_regions {i : PortInput} (hframes : i.frames = [])
    (hregions : ∀ g ∈ p.regions i, g.Inside) : StaysInside p i := by
  refine ⟨hregions, fun m hm => ?_⟩
  cases i with
  | frame around time f => cases hframes
  | _ => cases hm

theorem expire_inside {now : BitVec 32} (hroom : TimedOut now p.receiver → p.sender.resp + 64 ≤ usbBufferSize) :
    ∀ g ∈ p.expireRegions now, g.Inside := by
  intro g hg
  unfold Port.expireRegions at hg
  split_ifs at hg with htime
  · rw [List.mem_singleton.mp hg]
    exact hroom htime
  · cases hg

theorem frame_inv {around : Around} {time : Nat} {f : Frame} (h : PortInv history p)
    (hmeets : Meets p (.frame around time f)) :
    PortInv (history ++ [f]) (p.step (.frame around time f)) := by
  obtain ⟨hecho, hapdu⟩ := hmeets
  have hsender : SenderInv (p.takeFrame around (BitVec.ofNat 32 time) f) := by
    rcases @takeFrame_sender p f (BitVec.ofNat 32 time) history around h.receiver hecho hapdu with hfresh | halign
    · exact .inl hfresh.sendBufferSize
    · exact .inr (.inr ⟨1, halign⟩)
  -- the answer leaves the receiving side alone
  obtain ⟨hrecv, hrxR, hrxW⟩ := sameInput_respond around f (p.whole (BitVec.ofNat 32 time) f)
    (processPacket around.busy (BitVec.ofNat 32 time) f p.receiver).2
    (p.receive around (BitVec.ofNat 32 time) f)
  refine ⟨?_, ?_, hsender.expire _⟩
  · show ReceiverInv _ (Port.expire _ _).receiver
    rw [expire_receiver]
    apply processNoPacket_inv
    unfold Port.takeFrame
    rw [hrecv]
    exact (processPacket_inv h.receiver around.busy _ f).1
  · obtain ⟨hR, hW⟩ := expire_rx (BitVec.ofNat 32 time) (p.takeFrame around (BitVec.ofNat 32 time) f)
    refine ⟨hR.trans (hrxR.trans ?_), hW.trans (hrxW.trans ?_)⟩
    · show (if p.rxW + 64 ≤ p.rxR + 64 then 0 else p.rxR + 64) = 0
      rw [h.rx.1, h.rx.2]
      rfl
    · show (if p.rxW + 64 ≤ p.rxR + 64 then 0 else p.rxW + 64) = 0
      rw [h.rx.1, h.rx.2]
      rfl

theorem frame_staysInside {around : Around} {time : Nat} {f : Frame} (h : PortInv history p)
    (hmeets : Meets p (.frame around time f)) : StaysInside p (.frame around time f) := by
  obtain ⟨hecho, hapdu⟩ := hmeets
  constructor
  · intro g hg
    rcases List.mem_append.mp hg with hg | hg
    · exact frame_inside h hecho hapdu g hg
    · refine expire_inside (fun htime => ?_) g hg
      rcases @takeFrame_sender p f (BitVec.ofNat 32 time) history around h.receiver hecho hapdu with hfresh | halign
      · rw [hfresh.resp]
        decide
      · -- the frame that opened the answer has stopped the clock
        exact absurd htime.1 (by rw [halign.still]; exact BitVec.lt_irrefl 0)
  · intro m hm
    unfold Port.handedOver at hm
    dsimp only at hm
    cases hout : (processPacket around.busy (BitVec.ofNat 32 time) f p.receiver).2 with
    | message cmd payload =>
      rw [hout] at hm
      obtain rfl := Option.some.inj hm
      exact handed_space h.receiver hecho around.busy hout
    | _ =>
      rw [hout] at hm
      cases hm

theorem poll_inv {time : Nat} (h : PortInv history p) (hmeets : Meets p (.poll time)) :
    PortInv history (p.step (.poll time)) ∧ StaysInside p (.poll time) := by
  refine ⟨⟨?_, ?_, h.sender.expire _⟩, staysInside_of_regions rfl (expire_inside hmeets)⟩
  · show ReceiverInv history (Port.expire _ _).receiver
    rw [expire_receiver]
    exact processNoPacket_inv h.receiver _
  · obtain ⟨hR, hW⟩ := expire_rx (BitVec.ofNat 32 time) p
    exact ⟨hR.trans h.rx.1, hW.trans h.rx.2⟩

theorem finished_inv {sw : BitVec 16} {n : Nat} (h : PortInv history p) (hmeets : Meets p (.finished sw n)) :
    PortInv history (p.step (.finished sw n)) ∧ StaysInside p (.finished sw n) := by
  by_cases hworking : p.working = true
  · have hstep : p.step (.finished sw n) = (p.execFinished sw n).rest := if_pos hworking
    have hregions : p.regions (.finished sw n) = p.execFinishedRegions sw n := if_pos hworking
    constructor
    · rw [hstep]
      exact h.unreceived ((sameInput_execFinished sw n p).trans ⟨rfl, rfl, rfl⟩) (h.sender.finished hworking hmeets)
    · apply staysInside_of_regions rfl
      rw [hregions]
      exact finished_regions hworking hmeets
  -- nothing is worked on, so the answer is dropped
  · have hstep : p.step (.finished sw n) = p := if_neg hworking
    have hregions : p.regions (.finished sw n) = [] := if_neg hworking
    constructor
    · rw [hstep]
      exact h
    · apply staysInside_of_regions rfl
      rw [hregions]
      exact List.forall_mem_nil _

theorem keepalive_inv {accepted : Bool} {status : Byte} (h : PortInv history p) :
    PortInv history (p.step (.keepalive accepted status)) ∧ StaysInside p (.keepalive accepted status) := by
  by_cases hthread : p.threadType = 1
  · have hstep : p.step (.keepalive accepted status) = p := if_pos hthread
    have hregions : p.regions (.keepalive accepted status) = [] := if_pos hthread
    constructor
    · rw [hstep]
      exact h
    · apply staysInside_of_regions rfl
      rw [hregions]
      exact List.forall_mem_nil _
  · have hstep : p.step (.keepalive accepted status) = p.withSender
        (p.sender.keepalive accepted p.receiver.lastReqCid status) := if_neg hthread
    have hregions : p.regions (.keepalive accepted status) = Port.keepaliveRegions := if_neg hthread
    constructor
    · rw [hstep]
      exact h.unreceived (sameInput_withSender p _) (h.sender.keepalive hthread _ _ _)
    · apply staysInside_of_regions rfl
      rw [hregions]
      exact keepaliveRegions_inside

theorem step_inv {i : PortInput} (h : PortInv history p) (hmeets : Meets p i) :
    PortInv (history ++ i.frames) (p.step i) ∧ StaysInside p i := by
  -- only a frame adds to the history
  have hkept : i.frames = [] → PortInv history (p.step i) ∧ StaysInside p i →
      PortInv (history ++ i.frames) (p.step i) ∧ StaysInside p i := by
    intro hframes hinv
    rw [hframes, List.append_nil]
    exact hinv
  cases i with
  | frame around time f => exact ⟨frame_inv h hmeets, frame_staysInside h hmeets⟩
  | poll time => exact hkept rfl (poll_inv h hmeets)
  | finished sw n => exact hkept rfl (finished_inv h hmeets)
  | keepalive accepted status => exact hkept rfl (keepalive_inv h)
  | task accepted =>
    refine hkept rfl ⟨?_, ?_⟩
    · exact h.unreceived ⟨rfl, rfl, rfl⟩ (h.sender.task accepted)
    · exact staysInside_of_regions rfl (List.forall_mem_nil _)
  | complete =>
    refine hkept rfl ⟨?_, ?_⟩
    · exact h.unreceived ⟨rfl, rfl, rfl⟩ h.sender.complete
    · exact staysInside_of_regions rfl h.sender.completeRegions

end Inputs

/-- The port at the start of the device. -/
def powered (buffer : Nat → Byte) : Port := { sender := atRest buffer }

/-- In every run whose steps meet the condition, no copy leaves its buffer, and no handler is given a
message that it has no space for. -/
theorem frames_stay_inside (buffer : Nat → Byte) (inputs : List PortInput)
    (hmeets : Along Port.step Meets (powered buffer) inputs) :
    Along Port.step StaysInside (powered buffer) inputs := by
  refine along_law (P := fun p => ∃ history, PortInv history p) ?_ _ _ hmeets ?_
  · rintro p i hok ⟨history, hinv⟩
    obtain ⟨hnext, hinside⟩ := step_inv hinv hok
    exact ⟨⟨_, hnext⟩, hinside⟩
  · exact ⟨[], receiverInv_of_empty rfl rfl, ⟨rfl, rfl⟩, .inl rfl⟩

theorem shortRest_length : (([0, 4] : Bytes) ++ List.replicate 57 7).length = 59 := by decide

/-- A PING of four bytes. -/
def shortPing : Frame := ⟨1, ctaphidPing, [0, 4] ++ List.replicate 57 7, shortRest_length⟩

theorem short_ping_inside : Along Port.step StaysInside (powered fun _ => 0)
    [.frame {} 1 shortPing, .task true, .complete, .keepalive true 1, .frame {} 2 shortPing] := by
  apply frames_stay_inside
  have hcont : shortPing.isInit = false → False := by decide
  have hapdu : ∀ start n back status, ({} : Around).apdu = .further start n back status →
      ({} : Around).ccidWPtr = none ∧ 7 ≤ start ∧ 2 ≤ n ∧ 7 + start + n ≤ usbBufferSize := by
    intro start n back status h
    cases h
  exact ⟨⟨fun h => (hcont h).elim, hapdu⟩, trivial, trivial, trivial, ⟨fun h => (hcont h).elim, hapdu⟩,
    trivial⟩

theorem pingRest_length : (([7, 250] : Bytes) ++ List.replicate 57 0).length = 59 := by decide

theorem zeroRest_length : (List.replicate 59 0 : Bytes).length = 59 := List.length_replicate

def pingInit : Frame := ⟨1, ctaphidPing, [7, 250] ++ List.replicate 57 0, pingRest_length⟩

def pingCont (k : Nat) : Frame := ⟨1, BitVec.ofNat 8 k, List.replicate 59 0, zeroRest_length⟩

/-- The first frames of the message, as inputs of the port and of its receiver. -/
def pingFrames : List Frame := pingInit :: (List.range 33).map pingCont

theorem run_receiver (p : Port) (frames : List Frame) :
    (run Port.step p (frames.map (.frame {} 1))).receiver =
      run Receiver.step p.receiver (frames.map (.frame false 1)) := by
  induction frames generalizing p with
  | nil => rfl
  | cons f frames ih =>
    rw [List.map_cons, List.map_cons, run_cons, run_cons, ih]
    congr 1
    show (Port.expire _ _).receiver = _
    rw [expire_receiver]
    unfold Port.takeFrame
    rw [(sameInput_respond _ _ _ _ _).receiver]
    rfl

theorem ping_taken : (takenIn (BitVec.ofNat 32 1) (pingCont 33)
    (run Receiver.step (powered fun _ => 0).receiver (pingFrames.map (.frame false 1)))).map
    (fun r => (r.len, r.currentLen, r.lastCmd)) = some (2042, 2042, ctaphidPing) := by
  decide +kernel

/-- The last frame of a PING that lies in msg_packet is echoed whole. -/
theorem echo_region {p : Port} {f : Frame} {now : BitVec 32} {r' : Receiver} (around : Around)
    (htaken : takenIn now f p.receiver = some r') (hcont : f.isInit = false)
    (hcmd : r'.lastCmd = ctaphidPing) (hpos : 0 < r'.len) (hfull : r'.len = r'.currentLen) :
    (⟨.tx, 7, r'.len⟩ : Region) ∈ p.frameRegions around now f := by
  have hecho : isEcho r'.lastCmd := .inl hcmd
  have hgoes := goesByMessage_cont hcont
  have hout : (processPacket around.busy now f p.receiver).2 = .message r'.lastCmd (Hid.received f r') := by
    rw [(takenIn_some around.busy htaken).1, dispatch_message now hgoes (.inl hecho),
      if_pos (.inr hfull)]
  have hlen : p.handedLen now f = r'.len := by
    unfold Port.handedLen
    rw [htaken]
    exact if_pos hpos
  unfold Port.frameRegions
  apply List.mem_append_right
  rw [hout, hlen, whole_eq htaken, decide_eq_true hpos]
  unfold Port.respondRegions
  dsimp only
  rw [if_pos hecho]
  unfold Port.echoRegions
  rw [if_pos rfl]
  exact List.mem_append_left _ (List.mem_cons_of_mem _ List.mem_cons_self)

/-- With the last frame of the message 2042 bytes go behind the header, into a buffer of 2048. -/
theorem ping_overruns :
    ¬ StaysInside (run Port.step (powered fun _ => 0) (pingFrames.map (.frame {} 1)))
      (.frame {} 1 (pingCont 33)) := by
  intro h
  obtain ⟨r', htaken, hr'⟩ := Option.map_eq_some_iff.mp ping_taken
  obtain ⟨hlen, hcur, hcmd⟩ : r'.len = 2042 ∧ r'.currentLen = 2042 ∧ r'.lastCmd = ctaphidPing := by
    injection hr' with hlen hr'
    injection hr' with hcur hcmd
    exact ⟨hlen, hcur, hcmd⟩
  rw [← run_receiver (powered fun _ => 0)] at htaken
  generalize run Port.step (powered fun _ => 0) (pingFrames.map (.frame {} 1)) = p at h htaken
  have hcont : (pingCont 33).isInit = false := by decide
  have hmem := echo_region {} htaken hcont hcmd (by omega) (by omega)
  have hinside := h.regions _ (List.mem_append_left _ hmem)
  have hle : 7 + r'.len ≤ 2048 := hinside
  omega

end KeyWallet.Hid
