import KeyWallet.ByteCodec
import KeyWallet.CrashProgram
import KeyWallet.StepSystem

/-! The global signature counter EF_COUNTER. makeCredential, the assertions and U2F authenticate
report it and then store its successor; a response reaches the host after that. -/
namespace KeyWallet

open CrashProgram StepSystem

namespace SignCounter

inductive File
  | efCounter
  -- what credential_store writes
  | credentials
  deriving DecidableEq, Repr

inductive Error
  | other
  | processing
  | keyStoreFull
  -- get_sign_counter reads through a NULL pointer
  | crash
  deriving DecidableEq, Repr

/-- No bytes: a file without data. -/
abbrev Content := List UInt8
abbrev Sign := Prog File Content Unit Empty Error
abbrev Storage := Machine File Content Unit Empty

/-- A uint32_t as it lies in memory. -/
def wordBytes (ctr : UInt32) : List UInt8 := (ByteCodec.put 4 ctr.toNat).reverse

def getUint32Le (data : List UInt8) : UInt32 := UInt32.ofNat (ByteCodec.get (data.take 4).reverse)

/-- The counter that a file holds. -/
def counterOf (data : Content) : Option UInt32 :=
  if data = [] then none else some (getUint32Le data)

def getSignCounter : Sign UInt32 := do
  match ← consult fun _ files => counterOf (files .efCounter) with
  | some ctr => pure ctr
  | none => .fail .crash

/-- The end of cbor_get_assertion and of cmd_authenticate: nobody looks at the results. -/
def countUp (ctr : UInt32) : Sign UInt32 := do
  writeFile .efCounter (wordBytes (ctr + 1))
  commitLater
  pure ctr

/-- A call of credential_store, with whether it returns 0. It leaves EF_COUNTER alone. -/
structure StoreCall where
  prog : Sign Bool
  touches : Touches (· = .credentials) prog

/-- Only a resident credential is stored. -/
def storeResident : Option StoreCall → Sign Bool
  | none => pure true
  | some call => call.prog

/-- cbor_make_credential from the counter on; `signed` says that the response could be built. -/
def makeCredential (signed : Bool) (store : Option StoreCall) : Sign UInt32 := do
  let ctr ← getSignCounter
  if !signed then .fail .other
  else
    let written ← putFile .efCounter (wordBytes (ctr + 1))
    if !written then .fail .processing
    else
      let stored ← storeResident store
      if !stored then .fail .keyStoreFull
      else
        commitLater
        pure ctr

/-- cbor_get_assertion, for the first credential and for the next ones. -/
def getAssertion (signed imported : Bool) : Sign UInt32 :=
  if imported then if signed then pure 0 else .fail .other
  else do
    let ctr ← getSignCounter
    if !signed then .fail .other else countUp ctr

/-- cmd_authenticate. -/
def authenticate (signed : Bool) : Sign UInt32 := do
  let ctr ← getSignCounter
  if !signed then .fail .other else countUp ctr

/-- The part of scan_files_fido for the counter. -/
def scanCounter : Sign Unit := do
  let data ← consult fun _ files => files .efCounter
  if data = [] then writeFile .efCounter (wordBytes 0)
  commitLater

inductive Command
  | makeCredential (signed : Bool) (store : Option StoreCall)
  | getAssertion (signed imported : Bool)
  | authenticate (signed : Bool)

/-- The flag of the credential that is asserted, whose response has 0 and not the counter. No credential that is
loaded has it: credential_parse_metadata clears it again. -/
def Command.imported : Command → Bool
  | .getAssertion _ imported => imported
  | _ => false

/-- The result of the counter write is ignored. -/
def Command.unchecked : Command → Bool
  | .makeCredential _ _ => false
  | .getAssertion _ imported => !imported
  | .authenticate _ => true

def Command.prog : Command → Sign UInt32
  | .makeCredential signed store => SignCounter.makeCredential signed store
  | .getAssertion signed imported => SignCounter.getAssertion signed imported
  | .authenticate signed => SignCounter.authenticate signed

/-- The device and what the host has received: the counters of the responses that were delivered,
the newest first. -/
structure Run where
  storage : Storage
  powered : Bool
  delivered : List UInt32

inductive Input
  -- `answered` says that the response gets to the host
  | command (c : Command) (replies : List Reply) (answered : Bool)
  -- the pages that wait are written to the flash
  | flush
  | powerLoss
  | start (replies : List Reply)

/-- The counter that the host gets to see. -/
def received (c : Command) (answered : Bool) : Outcome Error UInt32 → Option UInt32
  | .done ctr => if answered && !c.imported then some ctr else none
  | _ => none

def Run.step (s : Run) : Input → Run
  | .command c replies answered =>
    if !s.powered then s else
    let result := exec c.prog s.storage replies
    { storage := result.2.1
      powered := decide (result.1 ≠ .lost)
      delivered := (received c answered result.1).toList ++ s.delivered }
  | .flush => if s.powered then { s with storage := s.storage.sync } else s
  | .powerLoss => { s with powered := false }
  | .start replies =>
    let result := exec scanCounter (s.storage.reboot ()) replies
    { s with storage := result.2.1, powered := decide (result.1 ≠ .lost) }

/-- The steps that keep the counter. Before a command it is below its last value. Where nobody looks
at the result of the write and the response gets out, the write is not refused. At every start the
flash is ahead of what the host has received before the power went. -/
def Saved (s : Run) : Input → Prop
  | .command c replies answered =>
    (counterOf (s.storage.view .efCounter)).all (· < 4294967295) = true ∧
      (answered = true → c.unchecked = true → replies.head? ≠ some (.refused false))
  | .start _ => s.delivered.head?.all
      (fun ctr => (counterOf (s.storage.flash .efCounter)).any (ctr < ·)) = true
  | _ => True

instance (s : Run) : ∀ i, Decidable (Saved s i)
  | .command _ _ _ => inferInstanceAs (Decidable (_ ∧ (_ → _ → _)))
  | .start _ => inferInstanceAs (Decidable (_ = true))
  | .flush | .powerLoss => .isTrue trivial

theorem Saved.below {s : Run} {c : Command} {replies : List Reply} {answered : Bool} {v : UInt32}
    (h : Saved s (.command c replies answered)) (hv : counterOf (s.storage.view .efCounter) = some v) :
    v < 4294967295 := by
  have hall := h.1
  rw [hv] at hall
  exact of_decide_eq_true hall

theorem Saved.flash {s : Run} {replies : List Reply} {ctr : UInt32} (h : Saved s (.start replies))
    (hctr : ctr ∈ s.delivered.head?) :
    ∃ v, counterOf (s.storage.flash .efCounter) = some v ∧ ctr < v := by
  change _ = true at h
  rw [show s.delivered.head? = some ctr from hctr] at h
  cases hflash : counterOf (s.storage.flash .efCounter) with
  | none =>
    rw [hflash] at h
    cases h
  | some v =>
    rw [hflash] at h
    exact ⟨v, rfl, of_decide_eq_true h⟩

/-- Each response has a larger counter than the one before it. -/
def Increasing (s : Run) : Prop := s.delivered.Pairwise (· > ·)

structure Inv (s : Run) : Prop where
  increasing : Increasing s
  ahead : s.powered = true → ∀ ctr ∈ s.delivered.head?,
    ∃ v, counterOf (s.storage.view .efCounter) = some v ∧ ctr < v

theorem getUint32Le_wordBytes (v : UInt32) : getUint32Le (wordBytes v) = v := by
  have hlength : (wordBytes v).length = 4 := by
    rw [wordBytes, List.length_reverse, ByteCodec.put_length]
  rw [getUint32Le, List.take_of_length_le (Nat.le_of_eq hlength), wordBytes, List.reverse_reverse,
    ByteCodec.get_put_of_lt v.toNat_lt, UInt32.ofNat_toNat]

@[simp] theorem counterOf_wordBytes (v : UInt32) : counterOf (wordBytes v) = some v := by
  have hne : wordBytes v ≠ [] := by
    intro h
    have hlength := congrArg List.length h
    rw [wordBytes, List.length_reverse, ByteCodec.put_length] at hlength
    cases hlength
  rw [counterOf, if_neg hne, getUint32Le_wordBytes]

/-- The counter stands where it stood or one further. -/
def Counted (v : UInt32) (n : Storage) : Prop :=
  counterOf (n.view .efCounter) = some v ∨ counterOf (n.view .efCounter) = some (v + 1)

theorem counted_written (v : UInt32) (m : Storage) :
    counterOf ((m.write .efCounter (wordBytes (v + 1))).view .efCounter) = some (v + 1) := by
  rw [Machine.write_view, Function.update_self, counterOf_wordBytes]

theorem wp_getSignCounter {α : Type} {f : Faults} {v : UInt32} {m : Storage} {g : UInt32 → Sign α}
    {Q : α → Storage → Prop} {R : Error → Storage → Prop} {C : Storage → Prop}
    (h : counterOf (m.view .efCounter) = some v) :
    wp f (getSignCounter.bind g) Q R C m ↔ wp f (g v) Q R C m := by
  simp only [getSignCounter, bind_eq, wp_bind, consult, wp, h, pure_eq]

theorem countUp_counted {v : UInt32} {m : Storage} (h : counterOf (m.view .efCounter) = some v) :
    wp Faults.all (countUp v) (fun _ => Counted v) (fun _ => Counted v) (Counted v) m := by
  have hw := counted_written v m
  exact ⟨.inl h, ⟨.inr hw, .inr hw, fun _ => ⟨.inr hw, .inr hw⟩⟩,
    fun _ => ⟨.inl h, .inl h, fun _ => ⟨.inl h, .inl h⟩⟩⟩

/-- A credential_store leaves the counter alone. -/
theorem StoreCall.keeps (call : StoreCall) {m : Storage} {data : Content}
    (h : m.view .efCounter = data) :
    wp Faults.all call.prog (fun _ n => n.view .efCounter = data)
      (fun _ n => n.view .efCounter = data) (fun n => n.view .efCounter = data) m := by
  refine wp_touches ?_ (fun _ _ hn => hn) (fun _ hn => hn) (fun _ _ hn => hn) (fun _ _ hn => hn)
    call.touches h
  intro n k v hk hn
  rw [Machine.write_view, hk, Function.update_of_ne (by decide)]
  exact hn

theorem makeCredential_counted {v : UInt32} {m : Storage} (signed : Bool) (store : Option StoreCall)
    (h : counterOf (m.view .efCounter) = some v) :
    wp Faults.all (makeCredential signed store)
      (fun ctr n => ctr = v ∧ counterOf (n.view .efCounter) = some (v + 1)) (fun _ => Counted v)
      (Counted v) m := by
  have hw := counted_written v m
  unfold makeCredential
  simp only [bind_eq]
  rw [wp_getSignCounter h]
  cases signed with
  | false => exact .inl h
  | true =>
    refine ⟨.inl h, ?_, fun _ => ⟨.inl h, .inr hw⟩⟩
    -- the write has happened: whatever credential_store does, the counter is ahead
    have hstored : wp Faults.all (storeResident store)
        (fun _ n => n.view .efCounter = wordBytes (v + 1))
        (fun _ n => n.view .efCounter = wordBytes (v + 1))
        (fun n => n.view .efCounter = wordBytes (v + 1)) (m.write .efCounter (wordBytes (v + 1))) := by
      have hview : (m.write .efCounter (wordBytes (v + 1))).view .efCounter = wordBytes (v + 1) := by
        rw [Machine.write_view, Function.update_self]
      cases store with
      | none => exact hview
      | some call => exact call.keeps hview
    have hahead : ∀ n : Storage, n.view .efCounter = wordBytes (v + 1) →
        counterOf (n.view .efCounter) = some (v + 1) := by
      intro n hn
      rw [hn, counterOf_wordBytes]
    refine (wp_bind (storeResident store) _ _).mpr (wp_mono hstored ?_ ?_ ?_)
    · intro stored n hn
      cases stored with
      | false => exact .inr (hahead n hn)
      | true =>
        exact ⟨.inr (hahead n hn), ⟨rfl, hahead n hn⟩,
          fun _ => ⟨⟨rfl, hahead n hn⟩, ⟨rfl, hahead n hn⟩⟩⟩
    · intro _ n hn
      exact .inr (hahead n hn)
    · intro n hn
      exact .inr (hahead n hn)

theorem command_counted {v : UInt32} {m : Storage} (c : Command)
    (h : counterOf (m.view .efCounter) = some v) :
    wp Faults.all c.prog (fun _ => Counted v) (fun _ => Counted v) (Counted v) m := by
  cases c with
  | makeCredential signed store =>
    exact wp_mono (makeCredential_counted signed store h) (fun _ _ hn => .inr hn.2)
      (fun _ _ hn => hn) (fun _ hn => hn)
  | getAssertion signed imported =>
    dsimp only [Command.prog, SignCounter.getAssertion]
    cases imported with
    | true => cases signed <;> exact .inl h
    | false =>
      rw [if_neg Bool.false_ne_true, bind_eq, wp_getSignCounter h]
      cases signed with
      | false => exact .inl h
      | true => exact countUp_counted h
  | authenticate signed =>
    dsimp only [Command.prog, SignCounter.authenticate]
    rw [bind_eq, wp_getSignCounter h]
    cases signed with
    | false => exact .inl h
    | true => exact countUp_counted h

theorem countUp_done {v ctr : UInt32} {m : Storage} {rs : List Reply}
    (hrs : rs.head? ≠ some (.refused false)) (hdone : (exec (countUp v) m rs).1 = .done ctr) :
    ctr = v ∧ counterOf ((exec (countUp v) m rs).2.1.view .efCounter) = some (v + 1) := by
  have hw := counted_written v m
  have htail : wp Faults.all ((commitLater : Sign Unit).bind fun _ => .done v)
      (fun ctr n => ctr = v ∧ counterOf (n.view .efCounter) = some (v + 1)) (fun _ _ => True)
      (fun _ => True) (m.write .efCounter (wordBytes (v + 1))) :=
    ⟨trivial, ⟨rfl, hw⟩, fun _ => ⟨⟨rfl, hw⟩, ⟨rfl, hw⟩⟩⟩
  have hends := fun rs => wp_sound htail trivial rs (.inl trivial)
  rcases rs with _ | ⟨_ | ⟨_ | _⟩ | _, rs⟩
  · exact (hends []).done hdone
  · exact (hends rs).done hdone
  · exact absurd rfl hrs
  · exact (hends rs).done hdone
  · cases hdone

theorem command_done {v ctr : UInt32} {m : Storage} {c : Command} {rs : List Reply}
    (h : counterOf (m.view .efCounter) = some v) (himported : c.imported = false)
    (hrs : c.unchecked = true → rs.head? ≠ some (.refused false))
    (hdone : (exec c.prog m rs).1 = .done ctr) :
    ctr = v ∧ counterOf ((exec c.prog m rs).2.1.view .efCounter) = some (v + 1) := by
  have hread : ∀ (signed : Bool), (exec (getSignCounter.bind fun ctr =>
      if !signed then .fail .other else countUp ctr) m rs) =
      exec (if !signed then .fail .other else countUp v) m rs := by
    intro signed
    simp only [getSignCounter, bind_eq, Prog.bind, consult, exec, h, pure_eq]
  cases c with
  | makeCredential signed store =>
    exact (wp_sound (makeCredential_counted signed store h) trivial rs (.inl trivial)).done hdone
  | getAssertion signed imported =>
    change imported = false at himported
    subst himported
    dsimp only [Command.prog, SignCounter.getAssertion] at hdone ⊢
    rw [if_neg Bool.false_ne_true, bind_eq, hread] at hdone ⊢
    cases signed with
    | false => cases hdone
    | true => exact countUp_done (hrs rfl) hdone
  | authenticate signed =>
    dsimp only [Command.prog, SignCounter.authenticate] at hdone ⊢
    rw [bind_eq, hread] at hdone ⊢
    cases signed with
    | false => cases hdone
    | true => exact countUp_done (hrs rfl) hdone

theorem command_crash {m : Storage} {c : Command} (rs : List Reply)
    (h : counterOf (m.view .efCounter) = none) (himported : c.imported = false) :
    (exec c.prog m rs).1 = .fail .crash := by
  have hread : ∀ g : UInt32 → Sign UInt32, (exec (getSignCounter.bind g) m rs).1 = .fail .crash := by
    intro g
    simp only [getSignCounter, bind_eq, Prog.bind, consult, exec, h]
  cases c with
  | makeCredential signed store => exact hread _
  | getAssertion signed imported =>
    change imported = false at himported
    subst himported
    exact hread _
  | authenticate signed => exact hread _

theorem received_some {c : Command} {answered : Bool} {o : Outcome Error UInt32} {ctr : UInt32}
    (h : received c answered o = some ctr) :
    o = .done ctr ∧ answered = true ∧ c.imported = false := by
  cases o with
  | done a =>
    dsimp only [received] at h
    split_ifs at h with hsent
    rw [Bool.and_eq_true, Bool.not_eq_true'] at hsent
    exact ⟨congrArg Outcome.done (Option.some.inj h), hsent⟩
  | fail e => cases h
  | lost => cases h

theorem lt_succ_of_below {v : UInt32} (h : v < 4294967295) : v < v + 1 := by
  rw [UInt32.lt_iff_toNat_lt] at h ⊢
  rw [UInt32.toNat_add]
  have hv : v.toNat < 4294967295 := h
  simp only [UInt32.toNat_ofNat]
  omega

theorem Counted.above {v ctr : UInt32} {n : Storage} (h : Counted v n) (hlt : ctr < v)
    (hbelow : v < 4294967295) : ∃ w, counterOf (n.view .efCounter) = some w ∧ ctr < w := by
  rcases h with h | h
  · exact ⟨v, h, hlt⟩
  · exact ⟨v + 1, h, UInt32.lt_trans hlt (lt_succ_of_below hbelow)⟩

theorem Inv.command {s : Run} (h : Inv s) (c : Command) (replies : List Reply) (answered : Bool)
    (hok : Saved s (.command c replies answered)) : Inv (s.step (.command c replies answered)) := by
  dsimp only [Run.step]
  by_cases hpower : s.powered = true
  · rw [hpower, Bool.not_true, if_neg Bool.false_ne_true]
    cases hreceived : received c answered (exec c.prog s.storage replies).1 with
    | none =>
      refine ⟨h.increasing, fun _ ctr hctr => ?_⟩
      obtain ⟨v, hv, hlt⟩ := h.ahead hpower ctr hctr
      exact (wp_sound (command_counted c hv) trivial replies (.inl trivial)).machine.above hlt
        (hok.below hv)
    | some ctr =>
      obtain ⟨hdone, hanswered, himported⟩ := received_some hreceived
      cases hcounter : counterOf (s.storage.view .efCounter) with
      | none =>
        rw [command_crash replies hcounter himported] at hdone
        cases hdone
      | some v =>
        obtain ⟨rfl, hnext⟩ := command_done hcounter himported (hok.2 hanswered) hdone
        refine ⟨List.pairwise_cons.mpr ⟨?_, h.increasing⟩, ?_⟩
        · -- the newest of the older ones is below the counter, and the others are below it
          intro older holder
          rcases hlist : s.delivered with _ | ⟨last, rest⟩
          · rw [hlist] at holder
            cases holder
          · obtain ⟨v, hv, hlt⟩ := h.ahead hpower last (by rw [hlist]; rfl)
            rw [hcounter] at hv
            cases hv
            have hsorted : (last :: rest).Pairwise (· > ·) := hlist ▸ h.increasing
            rw [hlist] at holder
            rcases List.mem_cons.mp holder with rfl | hrest
            · exact hlt
            · exact UInt32.lt_trans ((List.pairwise_cons.mp hsorted).1 older hrest) hlt
        · intro _ newest hnewest
          cases hnewest
          exact ⟨ctr + 1, hnext, lt_succ_of_below (hok.below hcounter)⟩
  · rw [Bool.not_eq_true] at hpower
    rw [hpower, Bool.not_false, if_pos rfl]
    exact h

/-- scan_files_fido leaves a counter that is there alone. -/
theorem scanCounter_keeps {v : UInt32} {m : Storage} (h : counterOf (m.view .efCounter) = some v) :
    wp Faults.all scanCounter (fun _ n => counterOf (n.view .efCounter) = some v)
      (fun _ n => counterOf (n.view .efCounter) = some v)
      (fun n => counterOf (n.view .efCounter) = some v) m := by
  have hdata : m.view .efCounter ≠ [] := by
    intro hempty
    rw [counterOf, if_pos hempty] at h
    cases h
  unfold scanCounter
  simp only [bind_eq, wp_bind, consult, wp, if_neg hdata]
  exact ⟨h, h, fun _ => ⟨h, h⟩⟩

theorem Inv.start {s : Run} (h : Inv s) (replies : List Reply) (hok : Saved s (.start replies)) :
    Inv (s.step (.start replies)) := by
  refine ⟨h.increasing, fun _ ctr hctr => ?_⟩
  obtain ⟨v, hv, hlt⟩ := Saved.flash hok hctr
  have hscan := scanCounter_keeps (m := s.storage.reboot ()) hv
  exact ⟨v, (wp_sound hscan trivial replies (.inl trivial)).machine, hlt⟩

theorem Inv.step {s : Run} (h : Inv s) (i : Input) (hok : Saved s i) : Inv (s.step i) := by
  cases i with
  | command c replies answered => exact h.command c replies answered hok
  | flush =>
    dsimp only [Run.step]
    split_ifs
    · exact ⟨h.increasing, h.ahead⟩
    · exact h
  | powerLoss => exact ⟨h.increasing, fun hpower => by cases hpower⟩
  | start replies => exact h.start replies hok

/-- A device that is off and has answered nothing yet. -/
def Run.off (storage : Storage) : Run := { storage := storage, powered := false, delivered := [] }

/-- In every run that saves the counter, every response that carries one carries a larger one than
those before it. -/
theorem counter_strictly_increases (storage : Storage) (is : List Input)
    (hok : Along Run.step Saved (Run.off storage) is) :
    Increasing (run Run.step (Run.off storage) is) := by
  have hstart : Inv (Run.off storage) := ⟨List.Pairwise.nil, fun h => by cases h⟩
  exact (run_invariant (fun _ i hi hs => Inv.step hs i hi) _ is hok hstart).increasing

/-- An empty device. -/
def blank : Storage where
  view _ := []
  flash _ := []
  vars := ()
  log := []
  dropped := []

/-- A registration, an assertion and a U2F authentication, with a power loss in between. -/
theorem counter_increases_over_restart :
    let is := [.start [], .command (.makeCredential true none) [] true,
      .command (.getAssertion true false) [] true, .powerLoss, .start [],
      .command (.authenticate true) [] true]
    (run Run.step (Run.off blank) is).delivered = [2, 1, 0] ∧
      Increasing (run Run.step (Run.off blank) is) := by
  refine ⟨by decide, counter_strictly_increases blank _ ?_⟩
  decide

/-- The power goes after an assertion is delivered and before its page is written. -/
theorem counter_repeats_after_power_loss :
    ¬ Increasing (run Run.step (Run.off blank) [.start [], .command (.getAssertion true false)
      [.ok, .refused false] true, .powerLoss, .start [],
      .command (.getAssertion true false) [] true]) := by
  unfold Increasing
  decide

end SignCounter

end KeyWallet
