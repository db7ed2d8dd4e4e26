import KeyWallet.OtpSlots

/-! The access codes of the OTP slots: what a command may do to a slot, and what it leaves when it
ends with an error. -/
namespace KeyWallet.Otp

open CrashProgram StepSystem
open CrashProgram.Prog (look vars emit put commit done fail)

/-- The request names this slot and carries its access code. A swap without a code stands for the
code that is all zero. -/
def Opens (r : Request) (k : Index) (s : Slot) : Prop :=
  if r.p1 = 0x06 then
    ∃ a b, swapRequest r = .ok (a, b, s.config.accCode) ∧ (k = Fin.ofNat 4 a ∨ k = Fin.ofNat 4 b)
  else
    configSize + accCodeSize ≤ r.data.length ∧ k = requestSlot r.p1 r.p2 ∧
      s.config.accCode = r.accessCode

/-- What an update keeps of a slot. -/
structure Keeps (s s' : Slot) : Prop where
  legacy : s'.legacy = s.legacy
  fixedData : s'.config.fixedData = s.config.fixedData
  uid : s'.config.uid = s.config.uid
  aesKey : s'.config.aesKey = s.config.aesKey
  fixedSize : s'.config.fixedSize = s.config.fixedSize
  extFlags : s'.config.extFlags &&& ~~~extflagUpdateMask = s.config.extFlags &&& ~~~extflagUpdateMask
  tktFlags : s'.config.tktFlags &&& ~~~tktflagUpdateMask = s.config.tktFlags &&& ~~~tktflagUpdateMask
  cfgFlags : s'.config.cfgFlags &&& ~~~cfgflagUpdateMask = s.config.cfgFlags &&& ~~~cfgflagUpdateMask
  extra : s'.extra = s.extra

/-- What a command may do: it ends as `o` and leaves `n`. -/
structure Protected (r : Request) (m n : OtpMachine) (o : Outcome Err Unit) : Prop where
  code : ∀ k s, m.view () k = some s → ¬ Opens r k s → n.view () k = m.view () k ∧
    (n.flash () k = m.flash () k ∨ n.flash () k = m.view () k)
  update : r.p1 = 0x04 ∨ r.p1 = 0x05 → ∀ k s, m.view () k = some s →
    ∃ s', n.view () k = some s' ∧ Keeps s s'
  error : ∀ e, o = .fail e → n.view () = m.view ()

/-! Slots that a command leaves alone. -/

section Within

variable {f : Faults} {m n : OtpMachine} {P : Index → Prop}

/-- Only the slots in `P` are written. -/
def Within (P : Index → Prop) (m n : OtpMachine) : Prop :=
  ∀ k, ¬ P k → n.view () k = m.view () k ∧
    (n.flash () k = m.flash () k ∨ n.flash () k = m.view () k)

theorem Within.refl (P : Index → Prop) (m : OtpMachine) : Within P m m := fun _ _ => ⟨rfl, .inl rfl⟩

theorem Within.sync (h : Within P m n) : Within P m n.sync :=
  fun k hk => ⟨(h k hk).1, .inr (h k hk).1⟩

theorem Within.write (h : Within P m n) {k : Index} (hk : P k) (s : Option Slot) :
    Within P m (n.write () (Function.update (n.view ()) k s)) := by
  intro j hj
  have hne : j ≠ k := fun heq => hj (heq ▸ hk)
  refine ⟨?_, (h j hj).2⟩
  rw [view_write, Function.update_of_ne hne]
  exact (h j hj).1

theorem slotStore_within {k : Index} (hk : P k) (h : Within P m n) (config : Config)
    (extra : Option (BitVec 64)) :
    wp f (slotStore k config extra) (fun _ => Within P m) (fun _ => Within P m) (Within P m) n := by
  have hwritten := h.write hk (some ⟨(n.view ()).isLegacy k, config, extra⟩)
  refine wp_mono (slotStore_spec config extra) ?_ (fun _ _ hfalse => absurd hfalse not_false) ?_
  · intro ok n' hr
    obtain rfl | rfl | rfl := hr.1
    · exact h
    · exact hwritten
    · exact hwritten.sync
  · intro n' hr
    obtain rfl | rfl := hr
    · exact h
    · exact hwritten

theorem slotDelete_within {k : Index} (hk : P k) (h : Within P m n) :
    wp f (slotDelete k) (fun _ => Within P m) (fun _ => Within P m) (Within P m) n := by
  have hwritten := h.write hk none
  refine wp_mono slotDelete_spec ?_ (fun _ _ hfalse => absurd hfalse not_false) ?_
  · intro ok n' hr
    obtain rfl | rfl | rfl := hr
    · exact h
    · exact hwritten
    · exact hwritten.sync
  · intro n' hr
    obtain rfl | rfl := hr
    · exact h
    · exact hwritten

theorem moved_within {k : Index} (hk : P k) (h : Within P m n) (s : Option Slot) :
    wp f (moved s k) (fun _ => Within P m) (fun _ => Within P m) (Within P m) n := by
  cases s with
  | none => exact slotDelete_within hk h
  | some s => exact slotStore_within hk h _ _

theorem stored_within {ok : Bool} {after : OtpProg Unit}
    (hafter : wp f after (fun _ => Within P m) (fun _ => Within P m) (Within P m) n)
    (h : Within P m n) :
    wp f (stored ok after) (fun _ => Within P m) (fun _ => Within P m) (Within P m) n := by
  cases ok with
  | false => exact h
  | true =>
    show wp f (after.bind fun _ => otpStatus) _ _ _ n
    rw [wp_bind]
    exact wp_mono hafter (fun _ _ hn => hn) (fun _ _ hn => hn) fun _ hn => hn

theorem commitLater_within (h : Within P m n) :
    wp f commitLater (fun _ => Within P m) (fun _ : Err => Within P m) (Within P m) n := by
  rw [wp_commitLater]
  exact ⟨h, h.sync, fun _ => h⟩

theorem containerSwap_within {i j : Index} (hi : P i) (hj : P j) (h : Within P m n) :
    wp f (containerSwap i j) (fun _ => Within P m) (fun _ => Within P m) (Within P m) n := by
  have hwritten : Within P m (n.write ()
      (Function.update (Function.update (n.view ()) i (n.view () j)) j (n.view () i))) := by
    intro k hk
    have hki : k ≠ i := fun heq => hk (heq ▸ hi)
    have hkj : k ≠ j := fun heq => hk (heq ▸ hj)
    refine ⟨?_, (h k hk).2⟩
    rw [view_write, Function.update_of_ne hkj, Function.update_of_ne hki]
    exact (h k hk).1
  unfold containerSwap
  dsimp only [wp]
  refine ⟨h, ?_, fun _ => ⟨h, hwritten⟩⟩
  exact ⟨hwritten, hwritten.sync, fun _ => ⟨hwritten, hwritten.sync⟩⟩

theorem legacySwap_within {i j : Index} (hi : P i) (hj : P j) (h : Within P m n)
    (si sj : Option Slot) :
    wp f (legacySwap i j si sj) (fun _ => Within P m) (fun _ => Within P m) (Within P m) n := by
  unfold legacySwap
  rw [wp_bind]
  refine wp_mono (moved_within hi h sj) ?_ (fun _ _ hn => hn) fun _ hn => hn
  intro first n' hn'
  cases first with
  | false => exact hn'
  | true =>
    rw [if_pos rfl, wp_bind]
    have hsecond : wp f (if si = none ∧ sj = none then done true else moved si j)
        (fun _ => Within P m) (fun _ => Within P m) (Within P m) n' := by
      split_ifs
      · exact hn'
      · exact moved_within hj hn' si
    refine wp_mono hsecond ?_ (fun _ _ hn => hn) fun _ hn => hn
    intro second n'' hn''
    refine stored_within ?_ hn''
    show wp f (commitLater.bind fun _ => swapSessions i j) _ _ _ n''
    rw [wp_bind]
    exact wp_mono (commitLater_within hn'') (fun _ _ hn => hn) (fun _ _ hn => hn) fun _ hn => hn

/-- The slots that a request may write: those that it opens, and empty ones. -/
def Free (r : Request) (m : OtpMachine) (k : Index) : Prop := ∀ s, m.view () k = some s → Opens r k s

theorem cmdConfigure_within {reads : Reads} {r : Request} (hp1 : r.p1 ≠ 0x06) :
    wp f (cmdConfigure reads r) (fun _ => Within (Free r m) m) (fun _ => Within (Free r m) m)
      (Within (Free r m) m) m := by
  have hsame := Within.refl (Free r m) m
  unfold cmdConfigure
  by_cases hshort : r.data.length < configSize
  · rw [if_pos hshort]
    exact hsame
  rw [if_neg hshort]
  by_cases hoffset : slotOffsetValid r.p1 r.p2 = false
  · rw [if_pos hoffset]
    exact hsame
  rw [if_neg hoffset]
  refine guarded_spec (fun _ => hsame) ?_
  intro hcode
  have hfree : Free r m (requestSlot r.p1 r.p2) := by
    intro s hs
    obtain ⟨hlength, hequal⟩ := hcode s hs
    unfold Opens
    rw [if_neg hp1]
    exact ⟨hlength, rfl, hequal⟩
  split_ifs
  · exact hsame
  · rw [wp_bind]
    refine wp_mono (slotStore_within hfree hsame _ _) ?_ (fun _ _ hn => hn) fun _ hn => hn
    exact fun ok n hn => stored_within (commitLater_within hn) hn
  · rw [wp_bind]
    refine wp_mono (slotDelete_within hfree hsame) ?_ (fun _ _ hn => hn) fun _ hn => hn
    exact fun ok n hn => stored_within hn hn

theorem cmdUpdate_within {reads : Reads} {r : Request} (hp1 : r.p1 ≠ 0x06) :
    wp f (cmdUpdate reads r) (fun _ => Within (Free r m) m) (fun _ => Within (Free r m) m)
      (Within (Free r m) m) m := by
  have hsame := Within.refl (Free r m) m
  unfold cmdUpdate
  split_ifs
  · exact hsame
  · exact hsame
  · exact hsame
  refine guarded_spec (fun _ => hsame) ?_
  intro hcode
  cases hslot : m.view () (requestSlot r.p1 r.p2) with
  | none => exact hsame
  | some s =>
    have hfree : Free r m (requestSlot r.p1 r.p2) := by
      intro t ht
      obtain ⟨hlength, hequal⟩ := hcode t ht
      unfold Opens
      rw [if_neg hp1]
      exact ⟨hlength, rfl, hequal⟩
    dsimp only
    rw [wp_bind]
    refine wp_mono (slotStore_within hfree hsame _ _) ?_ (fun _ _ hn => hn) fun _ hn => hn
    exact fun ok n hn => stored_within (commitLater_within hn) hn

theorem swapCheck_code {reads : Reads} {code : Bytes} {k : Index} {s : Option Slot}
    (h : swapCheck reads code k s = none) {t : Slot} (ht : s = some t) : t.config.accCode = code := by
  subst ht
  unfold swapCheck at h
  dsimp only at h
  split_ifs at h with hstatus hload hcode
  exact not_not.mp hcode

theorem cmdSwap_within {reads : Reads} {r : Request} (hp1 : r.p1 = 0x06) :
    wp f (cmdSwap reads r) (fun _ => Within (Free r m) m) (fun _ => Within (Free r m) m)
      (Within (Free r m) m) m := by
  have hsame := Within.refl (Free r m) m
  unfold cmdSwap
  cases hrequest : swapRequest r with
  | error e => exact hsame
  | ok slots =>
    obtain ⟨a, b, code⟩ := slots
    dsimp only
    by_cases hslots : 3 < a ∨ 3 < b ∨ a = b
    · rw [if_pos hslots]
      exact hsame
    rw [if_neg hslots]
    dsimp only [wp]
    cases hi : swapCheck reads code (Fin.ofNat 4 a) (m.view () (Fin.ofNat 4 a)) with
    | some e => exact hsame
    | none =>
      cases hj : swapCheck reads code (Fin.ofNat 4 b) (m.view () (Fin.ofNat 4 b)) with
      | some e => exact hsame
      | none =>
        have hopens : ∀ k, k = Fin.ofNat 4 a ∨ k = Fin.ofNat 4 b →
            swapCheck reads code k (m.view () k) = none → Free r m k := by
          intro k hk hcheck s hs
          unfold Opens
          rw [if_pos hp1]
          refine ⟨a, b, ?_, hk⟩
          rw [hrequest, swapCheck_code hcheck hs]
        have hfirst := hopens _ (.inl rfl) hi
        have hsecond := hopens _ (.inr rfl) hj
        dsimp only
        split_ifs
        · rw [wp_bind]
          refine wp_mono (containerSwap_within hfirst hsecond hsame) ?_ (fun _ _ hn => hn) fun _ hn => hn
          exact fun ok n hn => stored_within hn hn
        · exact legacySwap_within hfirst hsecond hsame _ _

theorem cmdOtp_within (reads : Reads) (r : Request) :
    wp f (cmdOtp reads r) (fun _ => Within (Free r m) m) (fun _ => Within (Free r m) m)
      (Within (Free r m) m) m := by
  unfold cmdOtp
  split_ifs with hconfigure hupdate hswap hcalculate
  · exact cmdConfigure_within (by omega)
  · exact cmdUpdate_within (by omega)
  · exact cmdSwap_within hswap
  · exact cmdCalculate_spec (Within.refl _ _) (fun _ => Within.refl _ _) fun _ =>
      ⟨Within.refl _ _, fun _ => Within.refl _ _⟩
  · exact Within.refl _ _

end Within

/-! What an update keeps. -/

section Kept

variable {f : Faults} {m n : OtpMachine}

theorem Keeps.refl (s : Slot) : Keeps s s := ⟨rfl, rfl, rfl, rfl, rfl, rfl, rfl, rfl, rfl⟩

theorem masked_outside (a c mask : Byte) :
    ((a &&& ~~~mask) ||| (c &&& mask)) &&& ~~~mask = a &&& ~~~mask := by
  apply BitVec.eq_of_getLsbD_eq
  intro i hi
  simp only [BitVec.getLsbD_and, BitVec.getLsbD_or, BitVec.getLsbD_not, hi, decide_true,
    Bool.true_and]
  cases mask.getLsbD i <;> cases a.getLsbD i <;> cases c.getLsbD i <;> rfl

theorem keeps_updated (s : Slot) (c : Config) : Keeps s ⟨s.legacy, updated s c, s.extra⟩ := by
  have hcfg : (updated s c).cfgFlags &&& ~~~cfgflagUpdateMask =
      s.config.cfgFlags &&& ~~~cfgflagUpdateMask := by
    unfold updated
    dsimp only
    split_ifs
    · rfl
    · exact masked_outside _ _ _
  exact ⟨rfl, rfl, rfl, rfl, rfl, masked_outside _ _ _, masked_outside _ _ _, hcfg, rfl⟩

/-- Every occupied slot keeps what an update has to keep. -/
def AllKept (m n : OtpMachine) : Prop :=
  ∀ k s, m.view () k = some s → ∃ s', n.view () k = some s' ∧ Keeps s s'

theorem AllKept.refl (m : OtpMachine) : AllKept m m := fun _ s hs => ⟨s, hs, .refl s⟩

theorem cmdUpdate_kept {reads : Reads} {r : Request} :
    wp f (cmdUpdate reads r) (fun _ => AllKept m) (fun _ => AllKept m) (AllKept m) m := by
  have hsame := AllKept.refl m
  unfold cmdUpdate
  split_ifs
  · exact hsame
  · exact hsame
  · exact hsame
  refine guarded_spec (fun _ => hsame) ?_
  intro _
  cases hslot : m.view () (requestSlot r.p1 r.p2) with
  | none => exact hsame
  | some s =>
    have hlegacy : (m.view ()).isLegacy (requestSlot r.p1 r.p2) = s.legacy := by
      unfold Bank.isLegacy
      rw [hslot]
      rfl
    have hwritten : AllKept m (m.write () (storedBank (m.view ()) (requestSlot r.p1 r.p2)
        (updated s (.ofBytes r.data)) s.extra)) := by
      intro k t ht
      rw [view_write]
      by_cases hk : k = requestSlot r.p1 r.p2
      · subst hk
        rw [hslot] at ht
        obtain rfl := Option.some.inj ht
        refine ⟨_, storedBank_self _ _ _, ?_⟩
        rw [hlegacy]
        exact keeps_updated s _
      · rw [storedBank_other _ _ _ hk]
        exact ⟨t, ht, .refl t⟩
    dsimp only
    rw [wp_bind]
    refine wp_mono (slotStore_spec _ _) ?_ (fun _ _ hfalse => absurd hfalse not_false) ?_
    · intro ok n hr
      have hn : AllKept m n := by
        obtain rfl | rfl | rfl := hr.1
        · exact hsame
        · exact hwritten
        · exact hwritten
      cases ok with
      | false => exact hn
      | true =>
        show wp f (commitLater.bind fun _ => otpStatus) _ _ _ n
        rw [wp_bind, wp_commitLater]
        exact ⟨hn, hn, fun _ => hn⟩
    · intro n hr
      obtain rfl | rfl := hr
      · exact hsame
      · exact hwritten

end Kept

/-! Errors. -/

section Errors

variable {m n : OtpMachine} {k : Index}

/-- How many operations a store or a deletion takes until it is done. -/
def storeOps (b : Bank) (k : Index) : Nat := if b.isLegacy k then 1 else 2

/-- The same for one of the two moves of a swap. -/
def moveOps (b : Bank) (s : Option Slot) (k : Index) : Nat :=
  match s with
  | some _ => storeOps b k
  | none => if b k = none then 0 else 2

/-- The operations of a command before it asks for the cache to be written. -/
def commandOps (b : Bank) (r : Request) : Nat :=
  if r.p1 = 0x06 then
    match swapRequest r with
    | .error _ => 0
    | .ok (x, y, _) =>
      let i := Fin.ofNat 4 x
      let j := Fin.ofNat 4 y
      if b.isLegacy i = false ∧ b.isLegacy j = false ∧ ¬ (b i = none ∧ b j = none) then 2
      else moveOps b (b j) i + moveOps b (b i) j
  else storeOps b (requestSlot r.p1 r.p2)

/-- None of the first replies is a refusal. -/
def Willing (count : Nat) (replies : List Reply) : Prop :=
  ∀ reply ∈ replies.take count, ∀ happened, reply ≠ .refused happened

instance (count : Nat) (replies : List Reply) : Decidable (Willing count replies) :=
  inferInstanceAs (Decidable (∀ reply ∈ replies.take count, ∀ happened, reply ≠ .refused happened))

/-- Nothing that the command needs is refused, or the first operation is and has not happened. -/
def Dependable (b : Bank) (r : Request) (replies : List Reply) : Prop :=
  Willing (commandOps b r) replies ∨ replies.head? = some (.refused false)

/-- The script of operations that are not refused. -/
def calls (count : Nat) : Script := List.replicate count fun reply => ∀ happened, reply ≠ .refused happened

/-- The script in which the first operation is refused and does not happen. -/
def denied : Script := [fun reply => reply = .refused false]

theorem Willing.follows {count : Nat} : ∀ {replies : List Reply}, Willing count replies →
    (calls count).Follows replies := by
  induction count with
  | zero => exact fun _ => trivial
  | succ count ih =>
    intro replies h
    cases replies with
    | nil =>
      refine ⟨?_, ih ?_⟩
      · intro happened hok
        cases hok
      · intro reply hreply
        rw [List.take_nil] at hreply
        cases hreply
    | cons r rest =>
      refine ⟨h r List.mem_cons_self, ih ?_⟩
      intro reply hreply
      exact h reply (List.mem_cons_of_mem _ hreply)

theorem denied_follows {replies : List Reply} (h : replies.head? = some (.refused false)) :
    denied.Follows replies := by
  cases replies with
  | nil => cases h
  | cons r rest => exact ⟨Option.some.inj h, trivial⟩

theorem calls_refused {count : Nat} {happened : Bool} :
    ¬ (calls (count + 1)).permits (.refused happened) := fun h => h happened rfl

theorem denied_ok : ¬ denied.permits .ok := by
  intro h
  cases h

theorem denied_happened : ¬ denied.permits (.refused true) := by
  intro h
  cases h

theorem slotStore_calls (config : Config) (extra : Option (BitVec 64)) (rest : Nat) :
    wps (slotStore k config extra)
      (fun ok ps n => ok = true ∧ ps = calls rest ∧ ∀ l, l ≠ k → n.view () l = m.view () l)
      (fun _ _ => False) (calls (storeOps (m.view ()) k + rest)) m := by
  have hother : ∀ s l, l ≠ k →
      (m.write () (Function.update (m.view ()) k s)).view () l = m.view () l := by
    intro s l hl
    rw [view_write, Function.update_of_ne hl]
  unfold slotStore storeOps
  dsimp only [wps]
  cases hlegacy : (m.view ()).isLegacy k with
  | true =>
    rw [if_pos rfl, Nat.add_comm]
    exact ⟨fun _ => ⟨rfl, rfl, hother _⟩, fun hr => absurd hr calls_refused,
      fun hr => absurd hr calls_refused⟩
  | false =>
    rw [if_neg Bool.false_ne_true, Nat.add_comm]
    exact ⟨fun _ => ⟨fun _ => ⟨rfl, rfl, hother _⟩, fun hr => absurd hr calls_refused,
      fun hr => absurd hr calls_refused⟩, fun hr => absurd hr calls_refused,
      fun hr => absurd hr calls_refused⟩

theorem slotStore_denied (config : Config) (extra : Option (BitVec 64)) :
    wps (slotStore k config extra) (fun ok _ n => ok = false ∧ n = m) (fun _ _ => False) denied m := by
  unfold slotStore
  dsimp only [wps]
  exact ⟨fun hr => absurd hr denied_ok, fun _ => ⟨rfl, rfl⟩, fun hr => absurd hr denied_happened⟩

theorem slotDelete_calls (rest : Nat) (hoccupied : m.view () k ≠ none) :
    wps (slotDelete k)
      (fun ok ps n => ok = true ∧ ps = calls rest ∧ ∀ l, l ≠ k → n.view () l = m.view () l)
      (fun _ _ => False) (calls (2 + rest)) m := by
  have hother : ∀ l, l ≠ k →
      (m.write () (Function.update (m.view ()) k none)).view () l = m.view () l := by
    intro l hl
    rw [view_write, Function.update_of_ne hl]
  unfold slotDelete
  dsimp only [wps]
  rw [if_neg hoccupied, Nat.add_comm]
  refine ⟨fun _ => ?_, fun hr => absurd hr calls_refused, fun hr => absurd hr calls_refused⟩
  dsimp only
  rw [if_pos rfl]
  split_ifs
  · exact ⟨fun _ => ⟨rfl, rfl, hother⟩, fun hr => absurd hr calls_refused,
      fun hr => absurd hr calls_refused⟩
  · exact ⟨fun _ => ⟨rfl, rfl, hother⟩, fun hr => absurd hr calls_refused,
      fun hr => absurd hr calls_refused⟩

/-- A call that reports an error has done nothing. -/
def Tells (ps : Script) (p : OtpProg Bool) (m : OtpMachine) : Prop :=
  wps p (fun ok _ n => ok = true ∨ n = m) (fun _ _ => False) ps m

theorem slotDelete_tells : Tells (calls (storeOps (m.view ()) k)) (slotDelete k) m := by
  unfold Tells slotDelete storeOps
  dsimp only [wps]
  by_cases hempty : m.view () k = none
  · rw [if_pos hempty]
    exact .inl rfl
  rw [if_neg hempty]
  cases hlegacy : (m.view ()).isLegacy k with
  | true =>
    rw [if_pos rfl]
    exact ⟨fun _ => ⟨fun _ => .inl rfl, fun _ => .inl rfl, fun _ => .inl rfl⟩,
      fun hr => absurd hr calls_refused, fun hr => absurd hr calls_refused⟩
  | false =>
    rw [if_neg Bool.false_ne_true]
    exact ⟨fun _ => ⟨fun _ => .inl rfl, fun hr => absurd hr calls_refused,
      fun hr => absurd hr calls_refused⟩, fun hr => absurd hr calls_refused,
      fun hr => absurd hr calls_refused⟩

theorem slotDelete_denied :
    wps (slotDelete k) (fun ok ps n => n = m ∧ (ok = true → ps = denied)) (fun _ _ => False) denied m := by
  unfold slotDelete
  dsimp only [wps]
  by_cases hempty : m.view () k = none
  · rw [if_pos hempty]
    exact ⟨rfl, fun _ => rfl⟩
  rw [if_neg hempty]
  refine ⟨fun hr => absurd hr denied_ok, fun _ => ⟨rfl, ?_⟩, fun hr => absurd hr denied_happened⟩
  intro hfalse
  cases hfalse

theorem containerSwap_tells {i j : Index} {ps : Script} (h : ps = calls 2 ∨ ps = denied) :
    Tells ps (containerSwap i j) m := by
  unfold Tells containerSwap
  dsimp only [wps]
  obtain rfl | rfl := h
  · exact ⟨fun _ => ⟨fun _ => .inl rfl, fun hr => absurd hr calls_refused,
      fun hr => absurd hr calls_refused⟩, fun hr => absurd hr calls_refused,
      fun hr => absurd hr calls_refused⟩
  · exact ⟨fun hr => absurd hr denied_ok, fun _ => .inr rfl, fun hr => absurd hr denied_happened⟩

/-- No slot has changed at an error exit. -/
abbrev Unchanged (m : OtpMachine) : Err → OtpMachine → Prop := fun _ n => n.view () = m.view ()

theorem Tells.stored {ps : Script} {p : OtpProg Bool} {after : OtpProg Unit} (h : Tells ps p m)
    (hafter : Total after) :
    wps (p.bind fun ok => stored ok after) (fun _ _ _ => True) (Unchanged m) ps m := by
  have htotal : Total (Otp.stored true after) := hafter.bind fun _ => trivial
  rw [wps_bind]
  refine wps_mono h ?_ fun _ _ hfalse => absurd hfalse not_false
  intro ok ps' n hr
  cases ok with
  | true => exact wps_of_total htotal ps' n
  | false =>
    obtain rfl := hr.resolve_left Bool.false_ne_true
    exact rfl

theorem guarded_wps {ps : Script} {reads : Reads} {r : Request} {body : Option Slot → OtpProg Unit}
    {Q : Unit → Script → OtpMachine → Prop} {R : Err → OtpMachine → Prop} (hfail : ∀ e, R e m)
    (hbody : wps (body (m.view () k)) Q R ps m) : wps (guarded reads r k body) Q R ps m := by
  unfold guarded
  dsimp only [wps]
  by_cases hstatus : reads.status k = false
  · rw [if_pos hstatus]
    exact hfail _
  rw [if_neg hstatus]
  cases hslot : m.view () k with
  | none =>
    rw [hslot] at hbody
    exact hbody
  | some s =>
    rw [hslot] at hbody
    dsimp only
    split_ifs
    · exact hfail _
    · exact hfail _
    · exact hfail _
    · exact hbody

theorem slotStore_tells {ps : Script} (h : ps = calls (storeOps (m.view ()) k) ∨ ps = denied)
    (config : Config) (extra : Option (BitVec 64)) : Tells ps (slotStore k config extra) m := by
  obtain rfl | rfl := h
  · exact wps_mono (slotStore_calls config extra 0) (fun _ _ _ hr => .inl hr.1) fun _ _ hfalse => hfalse
  · exact wps_mono (slotStore_denied config extra) (fun _ _ _ hr => .inr hr.2) fun _ _ hfalse => hfalse

theorem cmdConfigure_error {ps : Script} {reads : Reads} {r : Request}
    (h : ps = calls (storeOps (m.view ()) (requestSlot r.p1 r.p2)) ∨ ps = denied) :
    wps (cmdConfigure reads r) (fun _ _ _ => True) (Unchanged m) ps m := by
  unfold cmdConfigure
  by_cases hshort : r.data.length < configSize
  · rw [if_pos hshort]
    exact rfl
  rw [if_neg hshort]
  by_cases hoffset : slotOffsetValid r.p1 r.p2 = false
  · rw [if_pos hoffset]
    exact rfl
  rw [if_neg hoffset]
  refine guarded_wps (fun _ => rfl) ?_
  split_ifs
  · exact rfl
  · exact (slotStore_tells h _ _).stored fun _ => trivial
  · have hdelete : Tells ps (slotDelete (requestSlot r.p1 r.p2)) m := by
      obtain rfl | rfl := h
      · exact slotDelete_tells
      · exact wps_mono slotDelete_denied (fun _ _ _ hr => .inr hr.1) fun _ _ hfalse => hfalse
    exact hdelete.stored trivial

theorem cmdUpdate_error {ps : Script} {reads : Reads} {r : Request}
    (h : ps = calls (storeOps (m.view ()) (requestSlot r.p1 r.p2)) ∨ ps = denied) :
    wps (cmdUpdate reads r) (fun _ _ _ => True) (Unchanged m) ps m := by
  unfold cmdUpdate
  split_ifs
  · exact rfl
  · exact rfl
  · exact rfl
  refine guarded_wps (fun _ => rfl) ?_
  cases m.view () (requestSlot r.p1 r.p2) with
  | none => exact trivial
  | some s => exact (slotStore_tells h _ _).stored fun _ => trivial

/-! A swap of slots one after the other. -/

theorem moved_calls (s : Option Slot) (rest : Nat) :
    wps (moved s k)
      (fun ok ps n => ok = true ∧ ps = calls rest ∧ ∀ l, l ≠ k → n.view () l = m.view () l)
      (fun _ _ => False) (calls (moveOps (m.view ()) s k + rest)) m := by
  cases s with
  | some s => exact slotStore_calls _ _ rest
  | none =>
    unfold moved moveOps
    dsimp only
    by_cases hempty : m.view () k = none
    · rw [if_pos hempty, Nat.zero_add]
      unfold slotDelete
      dsimp only [wps]
      rw [if_pos hempty]
      exact ⟨rfl, rfl, fun _ _ => rfl⟩
    · rw [if_neg hempty]
      exact slotDelete_calls rest hempty

theorem moved_denied (s : Option Slot) :
    wps (moved s k) (fun ok ps n => n = m ∧ (ok = true → ps = denied)) (fun _ _ => False) denied m := by
  cases s with
  | none => exact slotDelete_denied
  | some s =>
    refine wps_mono (slotStore_denied _ _) ?_ fun _ _ hfalse => hfalse
    intro ok ps n hr
    obtain ⟨rfl, rfl⟩ := hr
    refine ⟨rfl, ?_⟩
    intro hfalse
    cases hfalse

theorem swapEnd_total (i j : Index) :
    Total (stored true (do
      commitLater
      swapSessions i j)) := by
  show Total ((commitLater.bind fun _ => swapSessions i j).bind fun _ => otpStatus)
  refine Total.bind (Total.bind ?_ ?_) ?_
  · exact fun _ => trivial
  · exact fun _ => trivial
  · exact fun _ => trivial

theorem legacySwap_calls {i j : Index} (hij : i ≠ j) (si sj : Option Slot) :
    wps (legacySwap i j si sj) (fun _ _ _ => True) (Unchanged m)
      (calls (moveOps (m.view ()) sj i + moveOps (m.view ()) si j)) m := by
  unfold legacySwap
  rw [wps_bind]
  refine wps_mono (moved_calls sj _) ?_ fun _ _ hfalse => absurd hfalse not_false
  intro first ps n hr
  obtain ⟨rfl, rfl, hother⟩ := hr
  -- the second move is one of the same length as before the first one
  have hops : moveOps (m.view ()) si j = moveOps (n.view ()) si j := by
    have hj := hother j hij.symm
    unfold moveOps storeOps Bank.isLegacy
    rw [hj]
  rw [if_pos rfl, wps_bind, hops]
  have hsecond : wps (if si = none ∧ sj = none then done true else moved si j)
      (fun ok _ _ => ok = true) (Unchanged m) (calls (moveOps (n.view ()) si j)) n := by
    split_ifs
    · exact rfl
    · exact wps_mono (moved_calls si 0) (fun _ _ _ hr => hr.1) fun _ _ hfalse => absurd hfalse not_false
  refine wps_mono hsecond ?_ fun _ _ hn => hn
  intro second ps' n' hr
  obtain rfl := hr
  exact wps_of_total (swapEnd_total i j) _ _

theorem legacySwap_denied {i j : Index} (si sj : Option Slot) :
    wps (legacySwap i j si sj) (fun _ _ _ => True) (Unchanged m) denied m := by
  unfold legacySwap
  rw [wps_bind]
  refine wps_mono (moved_denied sj) ?_ fun _ _ hfalse => absurd hfalse not_false
  intro first ps n hr
  obtain ⟨rfl, hps⟩ := hr
  cases first with
  | false => exact rfl
  | true =>
    rw [if_pos rfl, wps_bind, hps rfl]
    have hsecond : wps (if si = none ∧ sj = none then done true else moved si j)
        (fun _ _ n' => n' = n) (Unchanged n) denied n := by
      split_ifs
      · exact rfl
      · exact wps_mono (moved_denied si) (fun _ _ _ hr => hr.1) fun _ _ hfalse =>
          absurd hfalse not_false
    refine wps_mono hsecond ?_ fun _ _ hn => hn
    intro second ps' n' hr
    obtain rfl := hr
    cases second with
    | false => exact rfl
    | true => exact wps_of_total (swapEnd_total i j) _ _

theorem cmdSwap_error {ps : Script} {reads : Reads} {r : Request} (hp1 : r.p1 = 0x06)
    (h : ps = calls (commandOps (m.view ()) r) ∨ ps = denied) :
    wps (cmdSwap reads r) (fun _ _ _ => True) (Unchanged m) ps m := by
  unfold commandOps at h
  rw [if_pos hp1] at h
  unfold cmdSwap
  cases hrequest : swapRequest r with
  | error e => exact rfl
  | ok slots =>
    obtain ⟨a, b, code⟩ := slots
    rw [hrequest] at h
    dsimp only at h ⊢
    by_cases hslots : 3 < a ∨ 3 < b ∨ a = b
    · rw [if_pos hslots]
      exact rfl
    rw [if_neg hslots]
    have hij : Fin.ofNat 4 a ≠ Fin.ofNat 4 b := by
      intro heq
      have hval : a % 4 = b % 4 := congrArg Fin.val heq
      omega
    generalize Fin.ofNat 4 a = i at hij h ⊢
    generalize Fin.ofNat 4 b = j at hij h ⊢
    dsimp only [wps]
    cases swapCheck reads code i (m.view () i) with
    | some e => exact rfl
    | none =>
      cases swapCheck reads code j (m.view () j) with
      | some e => exact rfl
      | none =>
        dsimp only
        by_cases hcontainer : (m.view ()).isLegacy i = false ∧ (m.view ()).isLegacy j = false ∧
            ¬ (m.view () i = none ∧ m.view () j = none)
        · rw [if_pos hcontainer] at h ⊢
          exact (containerSwap_tells h).stored trivial
        · rw [if_neg hcontainer] at h ⊢
          obtain rfl | rfl := h
          · exact legacySwap_calls hij _ _
          · exact legacySwap_denied _ _

theorem cmdCalculate_error {reads : Reads} {r : Request} {ps : Script} :
    wps (cmdCalculate reads r) (fun _ _ _ => True) (Unchanged m) ps m := by
  have hrespond : ∀ s n, n.view () = m.view () →
      wps (respondTo r s) (fun _ _ _ => True) (Unchanged m) ps n := by
    intro s n hn
    unfold respondTo
    dsimp only
    split_ifs
    all_goals first | exact hn | exact trivial
  unfold cmdCalculate
  by_cases hvalid : slotOffsetValid r.p1 r.p2 = false
  · rw [if_pos hvalid]
    rfl
  rw [if_neg hvalid]
  by_cases hstatus : reads.status (challengedSlot r.p1 r.p2) = false
  · rw [if_pos hstatus]
    rfl
  rw [if_neg hstatus]
  dsimp only [wps]
  cases m.view () (challengedSlot r.p1 r.p2) with
  | none => exact trivial
  | some s =>
    dsimp only
    by_cases hload : reads.load (challengedSlot r.p1 r.p2) = false
    · rw [if_pos hload]
      rfl
    rw [if_neg hload]
    split_ifs
    · rfl
    · exact hrespond s (m.setVars { m.vars with scanned := true }) rfl
    · rfl
    · exact hrespond s m rfl

theorem cmdOtp_error {reads : Reads} {r : Request} {replies : List Reply}
    (h : Dependable (m.view ()) r replies) {e : Err} (he : (exec (cmdOtp reads r) m replies).1 = .fail e) :
    (exec (cmdOtp reads r) m replies).2.1.view () = m.view () := by
  have hscript : ∀ ps : Script, ps = calls (commandOps (m.view ()) r) ∨ ps = denied →
      wps (cmdOtp reads r) (fun _ _ _ => True) (Unchanged m) ps m := by
    intro ps hps
    have hstore : r.p1 ≠ 0x06 → commandOps (m.view ()) r = storeOps (m.view ()) (requestSlot r.p1 r.p2) := by
      intro hne
      unfold commandOps
      rw [if_neg hne]
    unfold cmdOtp
    split_ifs with hconfigure hupdate hswap hcalculate
    · rw [hstore (by omega)] at hps
      exact cmdConfigure_error hps
    · rw [hstore (by omega)] at hps
      exact cmdUpdate_error hps
    · exact cmdSwap_error hswap hps
    · exact cmdCalculate_error
    · exact trivial
  have hends : Ends (fun _ _ => ∃ _ : Script, True) (Unchanged m) (fun _ => True)
      (exec (cmdOtp reads r) m replies) := by
    rcases h with hwilling | hdenied
    · exact wps_sound (hscript _ (.inl rfl)) hwilling.follows
    · exact wps_sound (hscript _ (.inr rfl)) (denied_follows hdenied)
  unfold Ends at hends
  rw [he] at hends
  exact hends

end Errors

/-! Whole runs. -/

/-- The storage is dependable in a command. -/
def DependableStep (m : OtpMachine) : Input → Prop
  | .command _ r replies => Dependable (m.view ()) r replies
  | _ => True

/-- A step that is a command does no more than it may. -/
def ProtectedStep (m : OtpMachine) : Input → Prop
  | .command reads r replies =>
    Protected r m (exec (cmdOtp reads r) m replies).2.1 (exec (cmdOtp reads r) m replies).1
  | _ => True

theorem cmdOtp_protected (m : OtpMachine) (reads : Reads) (r : Request) (replies : List Reply)
    (h : Dependable (m.view ()) r replies) :
    Protected r m (exec (cmdOtp reads r) m replies).2.1 (exec (cmdOtp reads r) m replies).1 := by
  refine ⟨?_, ?_, fun e he => cmdOtp_error h he⟩
  · intro k s hs hopens
    have hwithin := (wp_sound (f := .all) (m := m) (cmdOtp_within reads r) trivial replies (.inl trivial)).machine
    exact hwithin k fun hfree => hopens (hfree s hs)
  · intro hupdate
    have hcommand : cmdOtp reads r = cmdUpdate reads r := by
      unfold cmdOtp
      rw [if_neg (by omega), if_pos hupdate]
    rw [hcommand]
    exact (wp_sound (f := .all) cmdUpdate_kept trivial replies (.inl trivial)).machine

/-- In every run in which the storage is dependable, each command keeps to the access codes, an
update to what it may change, and an error leaves the slots as they were. -/
theorem slots_protected (m : OtpMachine) (inputs : List Input)
    (h : Along step DependableStep m inputs) : Along step ProtectedStep m inputs := by
  refine along_law (P := fun _ => True) ?_ m inputs h trivial
  intro n i hi _
  refine ⟨trivial, ?_⟩
  cases i with
  | command reads r replies => exact cmdOtp_protected n reads r replies hi
  | press reads k replies => exact trivial
  | status => exact trivial
  | init reads replies => exact trivial
  | drain => exact trivial
  | powerCycle => exact trivial

/-- A legacy slot with this user id and no access code. -/
def legacySlot (id : Byte) : Slot where
  legacy := true
  config := { Config.ofBytes (List.replicate configSize 0) with uid := List.replicate uidSize id }
  extra := some 0

/-- A device with two legacy slots. -/
def twoSlots : OtpMachine where
  view := fun _ k => if k = 0 then some (legacySlot 1) else if k = 1 then some (legacySlot 2) else none
  flash := fun _ k => if k = 0 then some (legacySlot 1) else if k = 1 then some (legacySlot 2) else none
  vars := {}
  log := []
  dropped := []

/-- A swap of the two slots whose first write is refused, one that goes through, and one with an
access code that is not theirs. -/
theorem swaps_protected :
    Along step ProtectedStep twoSlots [.command {} ⟨0x06, 0, [], false⟩ [.refused false],
      .command {} ⟨0x06, 0, [], false⟩ [.ok, .ok, .refused false],
      .command {} ⟨0x06, 0, [0, 0, 1, 1, 1, 1, 1, 1], false⟩ []] := by
  apply slots_protected
  refine ⟨.inr rfl, .inl ?_, .inl ?_, trivial⟩
  · decide
  · decide

/-- The second write of a swap is refused: the command reports an error, and the first slot is gone. -/
theorem swap_fails_halfway :
    (exec (cmdOtp {} ⟨0x06, 0, [], false⟩) twoSlots [.ok, .refused false]).1 = .fail .memoryFailure ∧
    (exec (cmdOtp {} ⟨0x06, 0, [], false⟩) twoSlots [.ok, .refused false]).2.1.view () 0 =
      some (legacySlot 2) ∧
    twoSlots.view () 0 = some (legacySlot 1) ∧
    ¬ ProtectedStep twoSlots (.command {} ⟨0x06, 0, [], false⟩ [.ok, .refused false]) := by
  have herror : (exec (cmdOtp {} ⟨0x06, 0, [], false⟩) twoSlots [.ok, .refused false]).1 =
      .fail .memoryFailure := by
    decide +kernel
  have hfirst : (exec (cmdOtp {} ⟨0x06, 0, [], false⟩) twoSlots [.ok, .refused false]).2.1.view () 0 =
      some (legacySlot 2) := by
    decide +kernel
  refine ⟨herror, hfirst, rfl, ?_⟩
  intro hprotected
  have hsame := congrFun (hprotected.error _ herror) 0
  rw [hfirst] at hsame
  revert hsame
  decide +kernel

end KeyWallet.Otp
