import Mathlib.Logic.Equiv.Basic
import KeyWallet.OtpSlots

/-! Yubico OTPs are unique: along which runs the pair of usage and session counter grows from one OTP
of a configuration to the next. -/
namespace KeyWallet.Otp

open CrashProgram StepSystem
open CrashProgram.Prog (look vars emit put commit done fail)

/-- What makes two slots hold the same configuration. -/
def Slot.ident (s : Slot) : Bytes × Bytes × Bytes :=
  (s.config.fixedData, s.config.uid, s.config.aesKey)

abbrev Log := List (Typed × (Unit → Bank))

/-- The later OTP carries the larger pair. -/
def Precedes (u : Nat) (x : BitVec 8) (u' : Nat) (x' : BitVec 8) : Prop :=
  u < u' ∨ u = u' ∧ x.toNat < x'.toNat

/-- The entry is an OTP of this configuration with these counters. -/
def IsOtp (e : Typed × (Unit → Bank)) (id : Bytes × Bytes × Bytes) (u : Nat) (x : BitVec 8) : Prop :=
  ∃ s, e.1 = .yubico s u x ∧ s.ident = id

/-- No pair comes twice for a configuration, and the later one is larger. -/
def Increasing (log : Log) : Prop :=
  log.Pairwise fun a b => ∀ id u x u' x', IsOtp a id u x → IsOtp b id u' x' → Precedes u x u' x'

def Logged (log : Log) (id : Bytes × Bytes × Bytes) (u : Nat) (x : BitVec 8) : Prop :=
  ∃ e ∈ log, IsOtp e id u x

/-- No configuration is in two slots. -/
def Distinct (b : Bank) : Prop :=
  ∀ i j si sj, b i = some si → b j = some sj → si.ident = sj.ident → i = j

/-- The usage counters have come as far as those of the OTPs. -/
def Covered (log : Log) (b : Bank) : Prop :=
  ∀ k s, b k = some s → ∀ u x, Logged log s.ident u x → s.isYubico = true ∧ u ≤ s.counter

/-- The next OTP of each slot is larger than all before. -/
def Ahead (log : Log) (b : Bank) (session : Index → BitVec 8) : Prop :=
  ∀ k s, b k = some s → ∀ u x, Logged log s.ident u x → Precedes u x s.counter (session k)

/-- What a power loss has to find. -/
structure Durable (m : OtpMachine) : Prop where
  distinct : Distinct (m.flash ())
  flash : Covered m.log (m.flash ())
  increasing : Increasing m.log
  positive : ∀ id u x, Logged m.log id u x → 0 < u

/-- The invariant between two commands. -/
structure Inv (m : OtpMachine) : Prop where
  durable : Durable m
  distinct : Distinct (m.view ())
  view : Covered m.log (m.view ())
  ahead : m.vars.scanned = true → Ahead m.log (m.view ()) m.vars.session
  fresh : m.vars.scanned = false → ∀ k, m.vars.session k = 0

/-! Counters in a slot. -/

theorem Precedes.trans {u u' u'' : Nat} {x x' x'' : BitVec 8} (h : Precedes u x u' x')
    (h' : Precedes u' x' u'' x'') : Precedes u x u'' x'' := by
  unfold Precedes at *
  omega

theorem Precedes.grow {u u' u'' : Nat} {x x' : BitVec 8} (h : Precedes u x u' x') (hle : u' ≤ u'') :
    Precedes u x u'' x' := by
  unfold Precedes at *
  omega

theorem counter_lt (s : Slot) : s.counter < 65536 := by
  have hlt := (s.extra.getD 0).isLt
  unfold Slot.counter
  omega

theorem counter_withCounter (s : Slot) {n : Nat} (hn : n < 65536) : (s.withCounter n).counter = n := by
  have hrest : (s.extra.getD 0).toNat % 2 ^ 48 < 2 ^ 48 := Nat.mod_lt _ (by decide)
  have hvalue : (BitVec.ofNat 64 (n % 65536 * 2 ^ 48 + (s.extra.getD 0).toNat % 2 ^ 48)).toNat =
      n * 2 ^ 48 + (s.extra.getD 0).toNat % 2 ^ 48 := by
    rw [BitVec.toNat_ofNat, Nat.mod_eq_of_lt hn, Nat.mod_eq_of_lt]
    omega
  unfold Slot.counter Slot.withCounter
  dsimp only [Option.getD_some]
  rw [hvalue]
  omega

theorem counter_none {s : Slot} (h : s.extra = none) : s.counter = 0 := by
  unfold Slot.counter
  rw [h]
  decide

theorem counter_stored (s : Slot) (legacy : Bool) {n : Nat} (hn : n < 65536) :
    (⟨legacy, s.config, (s.withCounter n).extra⟩ : Slot).counter = n :=
  counter_withCounter s hn

/-- Each slot still holds the same configuration, and no usage counter went back. -/
def Grows (b b' : Bank) : Prop :=
  ∀ k s', b' k = some s' → ∃ s, b k = some s ∧ s'.ident = s.ident ∧ s'.isYubico = s.isYubico ∧
    (s.isYubico = true → s.counter ≤ s'.counter)

theorem Grows.refl (b : Bank) : Grows b b := fun _ s h => ⟨s, h, rfl, rfl, fun _ => Nat.le_refl _⟩

theorem Grows.trans {b b' b'' : Bank} (h : Grows b b') (h' : Grows b' b'') : Grows b b'' := by
  intro k s'' hs''
  obtain ⟨s', hs', hid', hy', hle'⟩ := h' k s'' hs''
  obtain ⟨s, hs, hid, hy, hle⟩ := h k s' hs'
  exact ⟨s, hs, hid'.trans hid, hy'.trans hy, fun h => Nat.le_trans (hle h) (hle' (hy.trans h))⟩

theorem Grows.update {b : Bank} {k : Index} {s s' : Slot} (hs : b k = some s)
    (hid : s'.ident = s.ident) (hy : s'.isYubico = s.isYubico)
    (hle : s.isYubico = true → s.counter ≤ s'.counter) :
    Grows b (Function.update b k (some s')) := by
  intro j t ht
  by_cases hj : j = k
  · subst hj
    rw [Function.update_self] at ht
    obtain rfl := Option.some.inj ht
    exact ⟨s, hs, hid, hy, hle⟩
  · rw [Function.update_of_ne hj] at ht
    exact ⟨t, ht, rfl, rfl, fun _ => Nat.le_refl _⟩

theorem Grows.distinct {b b' : Bank} (h : Grows b b') (hb : Distinct b) : Distinct b' := by
  intro i j si sj hi hj hid
  obtain ⟨ti, hti, hidi, -, -⟩ := h i si hi
  obtain ⟨tj, htj, hidj, -, -⟩ := h j sj hj
  exact hb i j ti tj hti htj (hidi.symm.trans (hid.trans hidj))

theorem Grows.covered {b b' : Bank} {log : Log} (h : Grows b b') (hb : Covered log b) :
    Covered log b' := by
  intro k s' hs' u x hlogged
  obtain ⟨s, hs, hid, hy, hle⟩ := h k s' hs'
  rw [hid] at hlogged
  obtain ⟨hyub, hu⟩ := hb k s hs u x hlogged
  exact ⟨hy.trans hyub, Nat.le_trans hu (hle hyub)⟩

theorem Grows.ahead {b b' : Bank} {log : Log} {session : Index → BitVec 8} (h : Grows b b')
    (hc : Covered log b) (hb : Ahead log b session) : Ahead log b' session := by
  intro k s' hs' u x hlogged
  obtain ⟨s, hs, hid, -, hle⟩ := h k s' hs'
  rw [hid] at hlogged
  exact (hb k s hs u x hlogged).grow (hle (hc k s hs u x hlogged).1)

/-! Storing. -/

section Storing

variable {f : Faults} {m : OtpMachine} {k : Index}

theorem storedBank_twice (b : Bank) (config : Config) (extra : Option (BitVec 64)) :
    storedBank (storedBank b k config extra) k config extra = storedBank b k config extra := by
  have hkind : (storedBank b k config extra).isLegacy k = b.isLegacy k := by
    unfold Bank.isLegacy
    rw [storedBank_self]
    rfl
  have hnew : storedBank (storedBank b k config extra) k config extra =
      Function.update (storedBank b k config extra) k (some ⟨b.isLegacy k, config, extra⟩) := by
    unfold storedBank at hkind ⊢
    rw [hkind]
  rw [hnew]
  unfold storedBank
  rw [Function.update_idem]

theorem grows_counter {b : Bank} {s : Slot} (hs : b k = some s) {n : Nat} (hn : n < 65536)
    (hle : s.counter ≤ n) : Grows b (storedBank b k s.config (s.withCounter n).extra) := by
  have hcounter := counter_stored s (b.isLegacy k) hn
  have hgrow : s.counter ≤
      (⟨b.isLegacy k, s.config, (s.withCounter n).extra⟩ : Slot).counter := by
    rw [hcounter]
    exact hle
  exact Grows.update hs rfl rfl fun _ => hgrow

/-- What init_otp may have done so far: no counter went back, and nothing was typed. -/
structure Started (m n : OtpMachine) : Prop where
  vars : n.vars = m.vars
  log : n.log = m.log
  view : Grows (m.view ()) (n.view ())
  flash : n.flash () = m.flash () ∨ Grows (m.view ()) (n.flash ())

theorem Started.refl (m : OtpMachine) : Started m m := ⟨rfl, rfl, .refl _, .inl rfl⟩

theorem Started.write {n : OtpMachine} (h : Started m n) {b : Bank} (hb : Grows (n.view ()) b) :
    Started m (n.write () b) := by
  refine ⟨h.vars, h.log, ?_, h.flash⟩
  rw [Machine.write_view, Function.update_self]
  exact h.view.trans hb

theorem Started.sync {n : OtpMachine} (h : Started m n) : Started m n.sync :=
  ⟨h.vars, h.log, h.view, .inr h.view⟩

theorem Started.durable {n : OtpMachine} (h : Started m n) (hm : Inv m) : Durable n := by
  obtain ⟨hd, hview⟩ : Distinct (n.flash ()) ∧ Covered m.log (n.flash ()) := by
    rcases h.flash with hflash | hflash
    · rw [hflash]
      exact ⟨hm.durable.distinct, hm.durable.flash⟩
    · exact ⟨hflash.distinct hm.distinct, hflash.covered hm.view⟩
  refine ⟨hd, ?_, ?_, ?_⟩
  · rw [h.log]
    exact hview
  · rw [h.log]
    exact hm.durable.increasing
  · rw [h.log]
    exact hm.durable.positive

theorem Started.inv {n : OtpMachine} (h : Started m n) (hm : Inv m) : Inv n := by
  refine ⟨h.durable hm, h.view.distinct hm.distinct, ?_, ?_, ?_⟩
  · rw [h.log]
    exact h.view.covered hm.view
  · rw [h.log, h.vars]
    exact fun hs => h.view.ahead hm.view (hm.ahead hs)
  · rw [h.vars]
    exact hm.fresh

theorem Inv.sync (h : Inv m) : Inv m.sync :=
  ⟨⟨h.distinct, h.view, h.durable.increasing, h.durable.positive⟩, h.distinct, h.view, h.ahead, h.fresh⟩

theorem slotStore_grows {n : OtpMachine} (hn : Started m n) {config : Config}
    {extra : Option (BitVec 64)} (hb : Grows (n.view ()) (storedBank (n.view ()) k config extra)) :
    wp f (slotStore k config extra)
      (fun ok n' => Started m n' ∧
        (n'.view () = n.view () ∨ n'.view () = storedBank (n.view ()) k config extra) ∧
        (ok = true → n'.view () = storedBank (n.view ()) k config extra ∧
          ((n.view ()).isLegacy k = false → n'.flash () = n'.view ())) ∧
        (¬ f.noticed → ok = true))
      (fun _ _ => False) (Started m) n := by
  have hwritten := hn.write hb
  refine wp_mono (slotStore_spec config extra) ?_ ?_ ?_
  · intro ok n' hr
    obtain ⟨hcases, hok, hf⟩ := hr
    refine ⟨?_, ?_, ?_, hf⟩
    · obtain rfl | rfl | rfl := hcases
      · exact hn
      · exact hwritten
      · exact hwritten.sync
    · obtain rfl | rfl | rfl := hcases
      · exact .inl rfl
      · exact .inr (view_write n _)
      · exact .inr (view_write n _)
    · intro hdone
      obtain ⟨rfl, hlegacy⟩ | rfl := hok hdone
      · refine ⟨view_write n _, ?_⟩
        intro hcontainer
        rw [hlegacy] at hcontainer
        cases hcontainer
      · exact ⟨view_write n _, fun _ => rfl⟩
  · exact fun _ _ hfalse => hfalse
  · intro n' hr
    obtain rfl | rfl := hr
    · exact hn
    · exact hwritten

theorem slotStoreTries_spec {config : Config} {extra : Option (BitVec 64)} (tries : Nat) :
    ∀ {n : OtpMachine}, Started m n → Grows (n.view ()) (storedBank (n.view ()) k config extra) →
    wp f (slotStoreTries k config extra tries)
      (fun ok n' => Started m n' ∧
        (n'.view () = n.view () ∨ n'.view () = storedBank (n.view ()) k config extra) ∧
        (ok = true → n'.view () = storedBank (n.view ()) k config extra) ∧
        (¬ f.noticed → 0 < tries → ok = true))
      (fun _ _ => False) (Started m) n := by
  -- on the number of tries; a failed one leaves the slot as it was or as it is to be
  induction tries with
  | zero =>
    intro n hn _
    refine ⟨hn, .inl rfl, ?_, ?_⟩
    · intro hfalse
      cases hfalse
    · exact fun _ hpos => absurd hpos (Nat.lt_irrefl 0)
  | succ tries ih =>
    intro n hn hb
    unfold slotStoreTries
    rw [wp_bind]
    refine wp_mono (slotStore_grows hn hb) ?_ ?_ ?_
    · intro ok n' hr
      obtain ⟨hn', hview, hok, hf⟩ := hr
      cases ok with
      | true => exact ⟨hn', hview, fun _ => (hok rfl).1, fun _ _ => rfl⟩
      | false =>
        have hb' : Grows (n'.view ()) (storedBank (n'.view ()) k config extra) := by
          rcases hview with hview | hview
          · rw [hview]
            exact hb
          · rw [hview, storedBank_twice]
            exact .refl _
        refine wp_mono (ih hn' hb') ?_ ?_ ?_
        · intro ok n'' hr
          obtain ⟨hn'', hview'', hok'', -⟩ := hr
          have hsame : storedBank (n'.view ()) k config extra = storedBank (n.view ()) k config extra := by
            rcases hview with hview | hview
            · rw [hview]
            · rw [hview, storedBank_twice]
          rw [hsame] at hview'' hok''
          refine ⟨hn'', ?_, hok'', ?_⟩
          · rcases hview'' with hview'' | hview''
            · rw [hview'']
              exact hview
            · exact .inr hview''
          · exact fun hno _ => absurd (hf hno) Bool.false_ne_true
        · exact fun _ _ hfalse => hfalse
        · exact fun _ hn => hn
    · exact fun _ _ hfalse => hfalse
    · exact fun _ hn => hn

end Storing

/-! The start. -/

section Start

variable {f : Faults} {m : OtpMachine}

/-- The usage counters are below their largest value. -/
def BelowLimit (b : Bank) : Prop := ∀ k s, b k = some s → s.counter < 0x7fff

/-- The counter of this slot has been advanced. -/
def Advanced (m n : OtpMachine) (k : Index) : Prop :=
  ∀ s, m.view () k = some s → advances s = true → ∃ s', n.view () k = some s' ∧ s.counter < s'.counter

theorem advanceAll_spec {reads : Reads} (hload : ∀ k, reads.load k = true)
    (hlimit : BelowLimit (m.view ())) (ks : List Index) :
    ∀ {n : OtpMachine}, ks.Nodup → Started m n → (∀ k ∈ ks, n.view () k = m.view () k) →
    wp f (advanceAll reads ks)
      (fun all n' => Started m n' ∧ (∀ j, j ∉ ks → n'.view () j = n.view () j) ∧
        (all = true → ∀ k ∈ ks, Advanced m n' k) ∧ (¬ f.noticed → all = true))
      (fun _ _ => False) (Started m) n := by
  -- on the slots that are still to come; those behind have been advanced or left
  induction ks with
  | nil =>
    intro n _ hn _
    refine ⟨hn, fun _ _ => rfl, ?_, fun _ => rfl⟩
    intro _ k hk
    cases hk
  | cons k ks ih =>
    intro n hnodup hn hrest
    obtain ⟨hk, hnodup⟩ := List.nodup_cons.mp hnodup
    have hhere := hrest k List.mem_cons_self
    have htail : ∀ j ∈ ks, n.view () j = m.view () j := fun j hj => hrest j (List.mem_cons_of_mem _ hj)
    -- a slot that is left as it is
    have hskip : (∀ s, m.view () k = some s → advances s = false) →
        wp f (advanceAll reads ks)
          (fun all n' => Started m n' ∧ (∀ j, j ∉ k :: ks → n'.view () j = n.view () j) ∧
            (all = true → ∀ j ∈ k :: ks, Advanced m n' j) ∧ (¬ f.noticed → all = true))
          (fun _ _ => False) (Started m) n := by
      intro hno
      refine wp_mono (ih hnodup hn htail) ?_ (fun _ _ hfalse => hfalse) fun _ hn => hn
      intro all n' hr
      obtain ⟨hn', hkeep, hall, hf⟩ := hr
      refine ⟨hn', fun j hj => hkeep j fun hmem => hj (List.mem_cons_of_mem _ hmem), ?_, hf⟩
      intro hdone j hj
      rcases List.mem_cons.mp hj with rfl | hj
      · intro s hs hadv
        rw [hno s hs] at hadv
        cases hadv
      · exact hall hdone j hj
    unfold advanceAll
    dsimp only [wp]
    rw [hhere]
    cases hslot : m.view () k with
    | none =>
      apply hskip
      intro s hs
      rw [hslot] at hs
      cases hs
    | some s =>
      dsimp only
      rw [hload k, Bool.true_and]
      by_cases hadv : advances s = true
      swap
      · rw [if_neg hadv]
        apply hskip
        intro t ht
        rw [hslot] at ht
        obtain rfl := Option.some.inj ht
        exact Bool.eq_false_iff.mpr hadv
      rw [if_pos hadv, wp_bind]
      have hlt := hlimit k s hslot
      have hcounter : (⟨(n.view ()).isLegacy k, s.config, (s.withCounter (s.counter + 1)).extra⟩ :
          Slot).counter = s.counter + 1 := counter_stored s _ (by omega)
      have hgrow : Grows (n.view ())
          (storedBank (n.view ()) k s.config (s.withCounter (s.counter + 1)).extra) :=
        grows_counter (hhere.trans hslot) (by omega) (by omega)
      refine wp_mono (slotStoreTries_spec 3 hn hgrow) ?_ (fun _ _ hfalse => hfalse) fun _ hn => hn
      intro ok n' hr
      obtain ⟨hn', hview, hok, hf⟩ := hr
      have hother : ∀ j, j ≠ k → n'.view () j = n.view () j := by
        intro j hj
        rcases hview with hview | hview
        · rw [hview]
        · rw [hview, storedBank_other _ _ _ hj]
      cases ok with
      | false =>
        -- the loop gives up
        refine ⟨hn', fun j hj => hother j fun heq => hj (heq ▸ List.mem_cons_self), ?_, ?_⟩
        · intro hfalse
          cases hfalse
        · exact fun hno => absurd (hf hno (by decide)) Bool.false_ne_true
      | true =>
        have hne : ∀ j ∈ ks, j ≠ k := fun j hj heq => hk (heq ▸ hj)
        refine wp_mono (ih hnodup hn' fun j hj => (hother j (hne j hj)).trans (htail j hj)) ?_
          (fun _ _ hfalse => hfalse) fun _ hn => hn
        intro all n'' hr
        obtain ⟨hn'', hkeep, hall, hf''⟩ := hr
        refine ⟨hn'', ?_, ?_, hf''⟩
        · intro j hj
          have hjk : j ≠ k := fun heq => hj (heq ▸ List.mem_cons_self)
          exact (hkeep j fun hmem => hj (List.mem_cons_of_mem _ hmem)).trans (hother j hjk)
        · intro hdone j hj
          rcases List.mem_cons.mp hj with rfl | hj
          · intro t ht _
            rw [hslot] at ht
            obtain rfl := Option.some.inj ht
            refine ⟨_, (hkeep j hk).trans ((congrFun (hok rfl) j).trans (storedBank_self _ _ _)), ?_⟩
            rw [hcounter]
            omega
          · exact hall hdone j hj

theorem Started.ahead {n : OtpMachine} (h : Started m n) (hm : Inv m) (hlimit : BelowLimit (m.view ()))
    (hall : ∀ k, Advanced m n k) (session : Index → BitVec 8) : Ahead n.log (n.view ()) session := by
  intro k s' hs' u x hlogged
  obtain ⟨s, hs, hid, -, -⟩ := h.view k s' hs'
  rw [h.log, hid] at hlogged
  obtain ⟨hyub, hu⟩ := hm.view k s hs u x hlogged
  have hpos := hm.durable.positive _ u x hlogged
  have hlt := hlimit k s hs
  have hextra : s.extra.isSome = true := by
    cases hextra : s.extra with
    | none =>
      rw [counter_none hextra] at hu
      omega
    | some e => rfl
  have hadv : advances s = true := by
    unfold advances
    rw [hextra, hyub, Bool.true_and, Bool.true_and, decide_eq_true_eq]
    omega
  obtain ⟨t, ht, hgrown⟩ := hall k s hs hadv
  rw [hs'] at ht
  obtain rfl := Option.some.inj ht
  left
  omega

/-- What init_otp leaves: the invariant, and with the counters advanced the mark that they are. -/
theorem initOtp_spec {reads : Reads} (hm : Inv m)
    (hload : m.vars.scanned = false → ∀ k, reads.load k = true) (hlimit : BelowLimit (m.view ())) :
    wp f (initOtp reads)
      (fun _ n => Inv n ∧ n.log = m.log ∧ n.vars.session = m.vars.session ∧
        Grows (m.view ()) (n.view ()) ∧
        (m.vars.scanned = true → n = m) ∧
        (¬ f.noticed → reads.migrated = true → n.vars.scanned = true ∧
          (m.vars.scanned = false → n.flash () = n.view ())))
      (fun _ _ => False) Durable m := by
  unfold initOtp
  dsimp only [wp]
  by_cases hscanned : m.vars.scanned = true
  · rw [if_pos (by rw [hscanned]; rfl)]
    refine ⟨hm, rfl, rfl, .refl _, fun _ => rfl, fun _ _ => ⟨hscanned, ?_⟩⟩
    intro hfalse
    rw [hscanned] at hfalse
    cases hfalse
  have hunscanned : m.vars.scanned = false := Bool.eq_false_iff.mpr hscanned
  cases hmigrated : reads.migrated with
  | false =>
    rw [if_pos (by rw [hunscanned]; rfl)]
    refine ⟨hm, rfl, rfl, .refl _, fun _ => rfl, ?_⟩
    intro _ hfalse
    cases hfalse
  | true =>
    rw [if_neg (by rw [hunscanned]; decide), wp_bind]
    refine wp_mono (advanceAll_spec (hload hunscanned) hlimit [0, 1, 2, 3] (by decide) (.refl m)
      fun _ _ => rfl) ?_ (fun _ _ hfalse => hfalse) fun n hn => hn.durable hm
    intro all n hr
    obtain ⟨hn, -, hall, hf⟩ := hr
    have hinv := hn.inv hm
    cases all with
    | false =>
      refine ⟨hinv, hn.log, by rw [hn.vars], hn.view, ?_, ?_⟩
      · intro htrue
        exact absurd htrue hscanned
      · exact fun hno => absurd (hf hno) Bool.false_ne_true
    | true =>
      have hadvanced : ∀ k, Advanced m n k := by
        intro k
        apply hall rfl
        revert k
        decide
      have hsession : n.vars.session = m.vars.session := by rw [hn.vars]
      have hset : Inv (n.setVars { n.vars with scanned := true }) := by
        refine ⟨⟨hinv.durable.distinct, hinv.durable.flash, hinv.durable.increasing,
          hinv.durable.positive⟩, hinv.distinct, hinv.view, ?_, ?_⟩
        · exact fun _ => hn.ahead hm hlimit hadvanced _
        · intro hfalse
          cases hfalse
      have hsynced := hset.sync
      refine ⟨hset.durable, ⟨hsynced, hn.log, hsession, hn.view, ?_, ?_⟩, fun hf' => ⟨⟨hset, hn.log,
        hsession, hn.view, ?_, ?_⟩, ⟨hsynced, hn.log, hsession, hn.view, ?_, ?_⟩⟩⟩
      · exact fun htrue => absurd htrue hscanned
      · exact fun _ _ => ⟨rfl, fun _ => rfl⟩
      · exact fun htrue => absurd htrue hscanned
      · exact fun hno => absurd hf' hno
      · exact fun htrue => absurd htrue hscanned
      · exact fun hno => absurd hf' hno

end Start

/-! The button. -/

section Press

variable {f : Faults} {n : OtpMachine} {k : Index}

theorem logged_append {log : Log} {e : Typed × (Unit → Bank)} {id : Bytes × Bytes × Bytes} {u : Nat}
    {x : BitVec 8} : Logged (log ++ [e]) id u x ↔ Logged log id u x ∨ IsOtp e id u x := by
  constructor
  · intro h
    obtain ⟨e', he', hotp⟩ := h
    rcases List.mem_append.mp he' with he' | he'
    · exact .inl ⟨e', he', hotp⟩
    · rw [List.mem_singleton.mp he'] at hotp
      exact .inr hotp
  · intro h
    rcases h with ⟨e', he', hotp⟩ | hotp
    · exact ⟨e', List.mem_append_left _ he', hotp⟩
    · exact ⟨e, List.mem_append_right _ (List.mem_singleton_self e), hotp⟩

theorem isOtp_yubico {s : Slot} {usage : Nat} {y : BitVec 8} {b : Unit → Bank}
    {id : Bytes × Bytes × Bytes} {u : Nat} {x : BitVec 8} :
    IsOtp (.yubico s usage y, b) id u x ↔ s.ident = id ∧ u = usage ∧ x = y := by
  constructor
  · intro h
    obtain ⟨t, heq, hid⟩ := h
    obtain ⟨rfl, rfl, rfl⟩ : s = t ∧ usage = u ∧ y = x := by simpa using heq
    exact ⟨hid, rfl, rfl⟩
  · intro h
    obtain ⟨hid, rfl, rfl⟩ := h
    exact ⟨s, rfl, hid⟩

/-- Something else comes out at the keyboard. -/
def IsOther (e : Typed) : Prop := ∀ s u x, e ≠ .yubico s u x

theorem logged_other {log : Log} {e : Typed} {b : Unit → Bank} (he : IsOther e)
    {id : Bytes × Bytes × Bytes} {u : Nat} {x : BitVec 8} :
    Logged (log ++ [(e, b)]) id u x ↔ Logged log id u x := by
  rw [logged_append]
  constructor
  · intro h
    refine h.resolve_right ?_
    intro hotp
    obtain ⟨s, heq, -⟩ := hotp
    exact he s u x heq
  · exact .inl

theorem Durable.record_other (h : Durable n) {e : Typed} (he : IsOther e) : Durable (n.record e) := by
  refine ⟨h.distinct, ?_, ?_, ?_⟩
  · intro j s hs u x hlogged
    exact h.flash j s hs u x ((logged_other he).mp hlogged)
  · rw [Machine.record_log]
    unfold Increasing
    rw [List.pairwise_append]
    refine ⟨h.increasing, List.pairwise_singleton _ _, ?_⟩
    intro a _ b hb id u x u' x' _ hotp
    rw [List.mem_singleton.mp hb] at hotp
    obtain ⟨s, heq, -⟩ := hotp
    exact absurd heq (he s u' x')
  · intro id u x hlogged
    exact h.positive id u x ((logged_other he).mp hlogged)

theorem Inv.record_other (h : Inv n) {e : Typed} (he : IsOther e) : Inv (n.record e) := by
  refine ⟨h.durable.record_other he, h.distinct, ?_, ?_, h.fresh⟩
  · intro j s hs u x hlogged
    exact h.view j s hs u x ((logged_other he).mp hlogged)
  · intro hscanned j s hs u x hlogged
    exact h.ahead hscanned j s hs u x ((logged_other he).mp hlogged)

theorem Inv.record_otp (h : Inv n) (hscanned : n.vars.scanned = true) {s t : Slot}
    (ht : n.view () k = some t) (hid : t.ident = s.ident) (hy : t.isYubico = true) {usage : Nat}
    (hpos : 0 < usage)
    (hlast : ∀ u x, Logged n.log s.ident u x → Precedes u x usage (n.vars.session k))
    (hnext : Precedes usage (n.vars.session k) t.counter (n.vars.session k + 1))
    (hflash : ∀ j t', n.flash () j = some t' → t'.ident = s.ident →
      t'.isYubico = true ∧ usage ≤ t'.counter) :
    Inv ((n.setVars { n.vars with
      session := Function.update n.vars.session k (n.vars.session k + 1) }).record
        (.yubico s usage (n.vars.session k))) := by
  have hle : usage ≤ t.counter := by
    unfold Precedes at hnext
    omega
  -- the slot of this configuration is the one that was pressed
  have hslot : ∀ j t', n.view () j = some t' → s.ident = t'.ident → j = k ∧ t' = t := by
    intro j t' ht' hident
    have hjk : j = k := h.distinct j k t' t ht' ht (hident.symm.trans hid.symm)
    refine ⟨hjk, ?_⟩
    rw [hjk, ht] at ht'
    exact (Option.some.inj ht').symm
  refine ⟨⟨h.durable.distinct, ?_, ?_, ?_⟩, h.distinct, ?_, ?_, ?_⟩
  · intro j t' ht' u x hlogged
    rcases logged_append.mp hlogged with hold | hnew
    · exact h.durable.flash j t' ht' u x hold
    · obtain ⟨hident, rfl, -⟩ := isOtp_yubico.mp hnew
      exact hflash j t' ht' hident.symm
  · rw [Machine.record_log]
    unfold Increasing
    rw [List.pairwise_append]
    refine ⟨h.durable.increasing, List.pairwise_singleton _ _, ?_⟩
    intro a ha b hb id u x u' x' hota hotb
    rw [List.mem_singleton.mp hb] at hotb
    obtain ⟨rfl, rfl, rfl⟩ := isOtp_yubico.mp hotb
    exact hlast u x ⟨a, ha, hota⟩
  · intro id u x hlogged
    rcases logged_append.mp hlogged with hold | hnew
    · exact h.durable.positive id u x hold
    · obtain ⟨-, rfl, -⟩ := isOtp_yubico.mp hnew
      exact hpos
  · intro j t' ht' u x hlogged
    rcases logged_append.mp hlogged with hold | hnew
    · exact h.view j t' ht' u x hold
    · obtain ⟨hident, rfl, -⟩ := isOtp_yubico.mp hnew
      obtain ⟨-, rfl⟩ := hslot j t' ht' hident
      exact ⟨hy, hle⟩
  · intro _ j t' ht' u x hlogged
    show Precedes u x t'.counter
      (Function.update n.vars.session k (n.vars.session k + 1) j)
    rcases logged_append.mp hlogged with hold | hnew
    · by_cases hjk : j = k
      · subst hjk
        rw [Function.update_self]
        have ht'' : t' = t := Option.some.inj (ht'.symm.trans ht)
        rw [ht''] at hold ⊢
        rw [hid] at hold
        exact (hlast u x hold).trans hnext
      · rw [Function.update_of_ne hjk]
        exact h.ahead hscanned j t' ht' u x hold
    · obtain ⟨hident, rfl, rfl⟩ := isOtp_yubico.mp hnew
      obtain ⟨rfl, rfl⟩ := hslot j t' ht' hident
      rw [Function.update_self]
      exact hnext
  · intro hfalse
    rw [Machine.record_vars, Machine.setVars_vars] at hfalse
    rw [hscanned] at hfalse
    cases hfalse

theorem session_next {x : BitVec 8} (h : ¬ x + 1 = 0) : x.toNat < (x + 1).toNat := by
  have hlt := x.isLt
  have hone : (1 : BitVec 8).toNat = 1 := rfl
  have hne : (x + 1).toNat ≠ 0 := fun hzero => h (BitVec.eq_of_toNat_eq hzero)
  rw [BitVec.toNat_add, hone] at hne ⊢
  omega

/-- The counters of a press: what is typed is ahead of the OTPs before, and what is stored is ahead
of what is typed. -/
structure Counts (s : Slot) (x : BitVec 8) : Prop where
  positive : 0 < (pressCounters s x).1
  covers : s.counter ≤ (pressCounters s x).1
  same : s.counter ≠ 0 → (pressCounters s x).1 = s.counter
  kept : (pressCounters s x).2 = none → (pressCounters s x).1 = s.counter ∧ ¬ x + 1 = 0
  stored : ∀ next, (pressCounters s x).2 = some next →
    next < 65536 ∧ (pressCounters s x).1 ≤ next ∧ Precedes (pressCounters s x).1 x next (x + 1)

theorem pressCounters_counts (s : Slot) (x : BitVec 8) (hlimit : s.counter < 0x7fff ∨ ¬ x + 1 = 0) :
    Counts s x := by
  have hlt := counter_lt s
  constructor
  · unfold pressCounters
    dsimp only
    split_ifs <;> omega
  · unfold pressCounters
    dsimp only
    split_ifs <;> omega
  · intro hne
    unfold pressCounters
    dsimp only
    rw [if_neg hne]
  · unfold pressCounters
    dsimp only
    by_cases hzero : s.counter = 0
    · rw [if_pos (.inl hzero)]
      intro hnone
      cases hnone
    · rw [if_neg hzero]
      by_cases hwraps : x + 1 = 0
      · -- below the limit a wrapped session counter is carried over
        have hsmall := hlimit.resolve_right fun hno => hno hwraps
        rw [if_pos hwraps, if_pos (.inr ⟨hwraps, by omega⟩)]
        intro hnone
        cases hnone
      · exact fun _ => ⟨rfl, hwraps⟩
  · unfold pressCounters
    dsimp only
    intro next hsome
    have husage : (if s.counter = 0 then 1 else s.counter) < 65536 := by
      split_ifs <;> omega
    have hsmall : x + 1 = 0 → (if s.counter = 0 then 1 else s.counter) < 0x7fff := by
      intro hwraps
      have hbelow := hlimit.resolve_right fun hno => hno hwraps
      split_ifs <;> omega
    generalize (if s.counter = 0 then 1 else s.counter) = usage at hsome husage hsmall ⊢
    have hnext : (if x + 1 = 0 then (usage + 1) % 65536 else usage) = next := by
      generalize (if x + 1 = 0 then (usage + 1) % 65536 else usage) = n at hsome ⊢
      split_ifs at hsome
      exact Option.some.inj hsome
    by_cases hwraps : x + 1 = 0
    · have hbelow := hsmall hwraps
      rw [if_pos hwraps, Nat.mod_eq_of_lt (by omega)] at hnext
      rw [← hnext]
      exact ⟨by omega, by omega, .inl (Nat.lt_succ_self usage)⟩
    · rw [if_neg hwraps] at hnext
      rw [← hnext]
      exact ⟨husage, Nat.le_refl usage, .inr ⟨rfl, session_next hwraps⟩⟩

theorem Inv.last (h : Inv n) (hscanned : n.vars.scanned = true) {s : Slot} (hs : n.view () k = some s)
    (hcounts : Counts s (n.vars.session k)) {u : Nat} {x : BitVec 8}
    (hlogged : Logged n.log s.ident u x) :
    Precedes u x (pressCounters s (n.vars.session k)).1 (n.vars.session k) := by
  have hahead := h.ahead hscanned k s hs u x hlogged
  have hpos := h.durable.positive _ u x hlogged
  by_cases hzero : s.counter = 0
  · rw [hzero] at hahead
    unfold Precedes at hahead
    omega
  · rw [hcounts.same hzero]
    exact hahead

theorem Inv.finish {n' : OtpMachine} (h : Inv n') {s t : Slot} {x : BitVec 8} {usage : Nat}
    (hscanned : n'.vars.scanned = true) (hx : n'.vars.session k = x) (ht : n'.view () k = some t)
    (hid : t.ident = s.ident) (hy : t.isYubico = true) (hpos : 0 < usage)
    (hlast : ∀ u x', Logged n'.log s.ident u x' → Precedes u x' usage x)
    (hnext : Precedes usage x t.counter (x + 1))
    (hflash : ∀ j t', n'.flash () j = some t' → t'.ident = s.ident →
      t'.isYubico = true ∧ usage ≤ t'.counter) :
    Inv ((n'.setVars { n'.vars with session := Function.update n'.vars.session k (x + 1) }).record
      (.yubico s usage x)) := by
  subst hx
  exact h.record_otp hscanned ht hid hy hpos hlast hnext hflash

theorem typeYubico_spec (h : Inv n) (hscanned : n.vars.scanned = true) {s : Slot}
    (hs : n.view () k = some s) (hy : s.isYubico = true)
    (hlimit : s.counter < 0x7fff ∨ ¬ n.vars.session k + 1 = 0) (hflushed : n.flash () k = n.view () k)
    (hkind : (n.view ()).isLegacy k = false ∨ ¬ f.noticed) :
    wp f (typeYubico k s) (fun _ => Inv) (fun _ => Inv) Durable n := by
  have hcounts := pressCounters_counts s (n.vars.session k) hlimit
  unfold typeYubico
  dsimp only [wp]
  cases hstore : (pressCounters s (n.vars.session k)).2 with
  | none =>
    obtain ⟨husage, hwraps⟩ := hcounts.kept hstore
    have hnext : Precedes (pressCounters s (n.vars.session k)).1 (n.vars.session k) s.counter
        (n.vars.session k + 1) := by
      rw [husage]
      exact .inr ⟨rfl, session_next hwraps⟩
    refine h.finish hscanned rfl hs rfl hy hcounts.positive (fun u x => h.last hscanned hs hcounts)
      hnext ?_
    intro j t ht hid
    have hk : n.flash () k = some s := hflushed.trans hs
    obtain rfl := h.durable.distinct j k t s ht hk hid
    obtain rfl := Option.some.inj (ht.symm.trans hk)
    exact ⟨hy, Nat.le_of_eq husage⟩
  | some next =>
    obtain ⟨hsmall, hle, hnext⟩ := hcounts.stored next hstore
    have hgrow := grows_counter hs hsmall (Nat.le_trans hcounts.covers hle)
    dsimp only
    rw [wp_bind]
    refine wp_mono (slotStore_grows (Started.refl n) hgrow) ?_ (fun _ _ hfalse => absurd hfalse not_false)
      fun n' hn' => hn'.durable h
    intro ok n' hr
    obtain ⟨hn', -, hok, -⟩ := hr
    have hinv := hn'.inv h
    cases ok with
    | false => exact hinv
    | true =>
      obtain ⟨hview, hcontainer⟩ := hok rfl
      have ht : n'.view () k =
          some ⟨(n.view ()).isLegacy k, s.config, (s.withCounter next).extra⟩ := by
        rw [hview]
        exact storedBank_self _ _ _
      have hcounter := counter_stored s ((n.view ()).isLegacy k) hsmall
      -- as soon as the flash has the view, the OTP may be typed
      have hend : ∀ n'', n''.view () = n'.view () → n''.flash () = n'.view () → n''.vars = n.vars →
          n''.log = n.log → Inv n'' → wp f (do
            setting fun v => { v with
              session := Function.update v.session k (n.vars.session k + 1) }
            event (.yubico s (pressCounters s (n.vars.session k)).1 (n.vars.session k)) : OtpProg Unit)
          (fun _ => Inv) (fun _ => Inv) Durable n'' := by
        intro n'' hview'' hflash'' hvars'' hlog'' hinv''
        refine hinv''.finish (t := ⟨(n.view ()).isLegacy k, s.config, (s.withCounter next).extra⟩)
          (by rw [hvars'']; exact hscanned) (by rw [hvars'']) (by rw [hview'']; exact ht) rfl hy
          hcounts.positive ?_ (by rw [hcounter]; exact hnext) ?_
        · intro u x hlogged
          rw [hlog''] at hlogged
          exact h.last hscanned hs hcounts hlogged
        · intro j t' ht' hid
          rw [hflash''] at ht'
          obtain rfl := hinv.distinct j k t' _ ht' ht hid
          obtain rfl := Option.some.inj (ht'.symm.trans ht)
          refine ⟨hy, ?_⟩
          rw [hcounter]
          exact hle
      have hsynced := hinv.sync
      refine ⟨hinv.durable, hend _ rfl rfl hn'.vars hn'.log hsynced, fun hf => ⟨?_,
        hend _ rfl rfl hn'.vars hn'.log hsynced⟩⟩
      have hflash := hcontainer (hkind.resolve_right fun hno => hno hf)
      exact hend n' rfl hflash hn'.vars hn'.log hinv

/-- Before a press the counters have been advanced, or they will be, and the flash has the slot. -/
structure PressSafe (f : Faults) (reads : Reads) (k : Index) (m : OtpMachine) : Prop where
  limit : BelowLimit (m.view ())
  start : m.vars.scanned = false → reads.migrated = true ∧ (∀ j, reads.load j = true) ∧ ¬ f.noticed
  flushed : m.vars.scanned = true → m.flash () k = m.view () k
  kind : (m.view ()).isLegacy k = false ∨ ¬ f.noticed

/-- The part of a press behind init_otp. -/
theorem pressed_spec {reads : Reads} {s : Slot} (h : Inv n) (hscanned : n.vars.scanned = true)
    (hs : n.view () k = some s)
    (hlimit : s.counter < 0x7fff ∨ ¬ n.vars.session k + 1 = 0) (hflushed : n.flash () k = n.view () k)
    (hkind : (n.view ()).isLegacy k = false ∨ ¬ f.noticed) :
    wp f (if !reads.status k || !reads.load k || s.isChalResp then fail .notTyped
      else if s.isHotp then do
        event (.hotp s s.movingFactor)
        let _ ← slotStore k s.config (some (s.movingFactor + 1))
        commitLater
      else if s.isStatic then event (.text s.config)
      else typeYubico k s : OtpProg Unit) (fun _ => Inv) (fun _ => Inv) Durable n := by
  split_ifs with hread hhotp hstatic
  · exact h
  · -- the moving factor of a HOTP slot is not looked at as a usage counter
    have hother : IsOther (.hotp s s.movingFactor) := by
      intro t u x heq
      cases heq
    have hrecorded := h.record_other hother
    have hnot : s.isYubico = false := by
      unfold Slot.isYubico
      rw [hhotp]
      rfl
    have hgrow : Grows (n.view ()) (storedBank (n.view ()) k s.config (some (s.movingFactor + 1))) := by
      refine Grows.update hs rfl rfl ?_
      intro hy
      rw [hnot] at hy
      cases hy
    show wp f ((slotStore k s.config (some (s.movingFactor + 1))).bind fun _ => commitLater) _ _ _
      (n.record (.hotp s s.movingFactor))
    rw [wp_bind]
    refine wp_mono (slotStore_grows (Started.refl _) hgrow) ?_
      (fun _ _ hfalse => absurd hfalse not_false) fun n' hn' => hn'.durable hrecorded
    intro ok n' hr
    have hinv := hr.1.inv hrecorded
    rw [wp_commitLater]
    exact ⟨hinv.durable, hinv.sync, fun _ => hinv⟩
  · have hother : IsOther (.text s.config) := by
      intro t u x heq
      cases heq
    exact h.record_other hother
  · have hy : s.isYubico = true := by
      unfold Slot.isYubico
      rw [Bool.eq_false_iff.mpr hhotp, Bool.eq_false_iff.mpr hstatic]
      rfl
    exact typeYubico_spec h hscanned hs hy hlimit hflushed hkind

theorem buttonPressed_spec {m : OtpMachine} {reads : Reads} (hm : Inv m) (hsafe : PressSafe f reads k m) :
    wp f (buttonPressed reads k) (fun _ => Inv) (fun _ => Inv) Durable m := by
  unfold buttonPressed
  show wp f ((initOtp reads).bind _) _ _ _ m
  rw [wp_bind]
  refine wp_mono (initOtp_spec hm (fun hno => (hsafe.start hno).2.1) hsafe.limit) ?_
    (fun _ _ hfalse => absurd hfalse not_false) fun _ hn => hn
  intro _ n hr
  obtain ⟨hinv, -, hsession, -, hsame, hstarted⟩ := hr
  dsimp only [wp]
  cases hslot : n.view () k with
  | none => exact hinv
  | some s =>
    dsimp only
    by_cases hscanned : m.vars.scanned = true
    · obtain rfl := hsame hscanned
      exact pressed_spec hinv hscanned hslot (.inl (hsafe.limit k s hslot)) (hsafe.flushed hscanned)
        hsafe.kind
    · have hunscanned : m.vars.scanned = false := Bool.eq_false_iff.mpr hscanned
      obtain ⟨hmigrated, -, hno⟩ := hsafe.start hunscanned
      obtain ⟨hdone, hflash⟩ := hstarted hno hmigrated
      -- the first OTP after a start
      have hfirst : ¬ n.vars.session k + 1 = 0 := by
        rw [hsession, hm.fresh hunscanned k]
        decide
      exact pressed_spec hinv hdone hslot (.inr hfirst) (congrFun (hflash hunscanned) k) (.inr hno)

end Press

/-! Updates. -/

section Update

variable {f : Faults} {m : OtpMachine} {k : Index}

theorem masked_and {a c mask bit : Byte} (h : mask &&& bit = 0) :
    ((a &&& ~~~mask) ||| (c &&& mask)) &&& bit = a &&& bit := by
  apply BitVec.eq_of_getLsbD_eq
  intro i hi
  have hbit : (mask &&& bit).getLsbD i = false := by
    rw [h]
    exact BitVec.getLsbD_zero
  rw [BitVec.getLsbD_and] at hbit
  simp only [BitVec.getLsbD_and, BitVec.getLsbD_or, BitVec.getLsbD_not, hi, decide_true,
    Bool.true_and]
  revert hbit
  cases mask.getLsbD i <;> cases bit.getLsbD i <;> simp

theorem has_updated {a c mask bit : Byte} (h : mask &&& bit = 0) :
    Slot.has ((a &&& ~~~mask) ||| (c &&& mask)) bit = Slot.has a bit := by
  unfold Slot.has
  rw [masked_and h]

theorem isYubico_updated (s : Slot) (c : Config) (legacy : Bool) (extra : Option (BitVec 64)) :
    (⟨legacy, updated s c, extra⟩ : Slot).isYubico = s.isYubico := by
  have hhotp : (⟨legacy, updated s c, extra⟩ : Slot).isHotp = s.isHotp := has_updated (by decide)
  have hstatic : (⟨legacy, updated s c, extra⟩ : Slot).isStatic = s.isStatic := by
    unfold Slot.isStatic updated
    dsimp only
    by_cases hchal : Slot.has s.config.tktFlags chalResp = true
    · rw [if_pos hchal]
    · rw [if_neg hchal, has_updated (by decide), has_updated (by decide)]
  unfold Slot.isYubico
  rw [hhotp, hstatic]

theorem Inv.status (h : Inv m) (hscanned : m.vars.scanned = true) :
    Inv (m.setVars { m.vars with scanned := true }) := by
  have hvars : { m.vars with scanned := true } = m.vars := by
    rw [← hscanned]
  rw [hvars]
  exact h

theorem cmdUpdate_spec {reads : Reads} {r : Request} (h : Inv m) (hscanned : m.vars.scanned = true) :
    wp f (cmdUpdate reads r) (fun _ => Inv) (fun _ => Inv) Durable m := by
  unfold cmdUpdate
  split_ifs
  · exact h
  · exact h
  · exact h
  apply guarded_spec
  · exact fun _ => h
  intro _
  cases hslot : m.view () (requestSlot r.p1 r.p2) with
  | none => exact h.status hscanned
  | some s =>
    dsimp only
    rw [wp_bind]
    have hgrow : Grows (m.view ())
        (storedBank (m.view ()) (requestSlot r.p1 r.p2) (updated s (.ofBytes r.data)) s.extra) :=
      Grows.update hslot rfl (isYubico_updated s _ _ _) fun _ => Nat.le_refl _
    refine wp_mono (slotStore_grows (Started.refl m) hgrow) ?_
      (fun _ _ hfalse => absurd hfalse not_false) fun _ hn => hn.durable h
    intro ok n hr
    have hinv := hr.1.inv h
    have hstill : n.vars.scanned = true := by
      rw [hr.1.vars]
      exact hscanned
    cases ok with
    | false => exact hinv
    | true =>
      show wp f (commitLater.bind fun _ => otpStatus) _ _ _ n
      rw [wp_bind, wp_commitLater]
      exact ⟨hinv.durable, hinv.sync.status hstill, fun _ => hinv.status hstill⟩

end Update

/-! Swaps. -/

section Swap

variable {m n : OtpMachine} {i j : Index}

/-- Each slot has the content of another one, no two slots the same. -/
def Permuted (p : Index ≃ Index) (b b' : Bank) : Prop :=
  ∀ k s', b' k = some s' → ∃ s, b (p k) = some s ∧ s'.config = s.config ∧ s'.extra = s.extra

theorem Permuted.distinct {p : Index ≃ Index} {b b' : Bank} (h : Permuted p b b') (hb : Distinct b) :
    Distinct b' := by
  intro k l sk sl hk hl hid
  obtain ⟨tk, htk, hck, -⟩ := h k sk hk
  obtain ⟨tl, htl, hcl, -⟩ := h l sl hl
  unfold Slot.ident at hid
  rw [hck, hcl] at hid
  exact p.injective (hb _ _ tk tl htk htl hid)

theorem Permuted.covered {p : Index ≃ Index} {b b' : Bank} {log : Log} (h : Permuted p b b')
    (hb : Covered log b) : Covered log b' := by
  intro k s' hs' u x hlogged
  obtain ⟨s, hs, hconfig, hextra⟩ := h k s' hs'
  unfold Slot.ident at hlogged
  rw [hconfig] at hlogged
  have hcovered := hb _ s hs u x hlogged
  unfold Slot.isYubico Slot.isHotp Slot.isStatic Slot.counter
  rw [hconfig, hextra]
  exact hcovered

theorem Permuted.ahead {p : Index ≃ Index} {b b' : Bank} {log : Log} {session : Index → BitVec 8}
    (h : Permuted p b b') (hb : Ahead log b session) : Ahead log b' (session ∘ p) := by
  intro k s' hs' u x hlogged
  obtain ⟨s, hs, hconfig, hextra⟩ := h k s' hs'
  unfold Slot.ident at hlogged
  rw [hconfig] at hlogged
  have hahead := hb _ s hs u x hlogged
  unfold Slot.counter
  rw [hextra]
  exact hahead

theorem Inv.permuted {p : Index ≃ Index} (h : Inv m) (hscanned : m.vars.scanned = true)
    (hlog : n.log = m.log) (hview : Permuted p (m.view ()) (n.view ()))
    (hvars : n.vars = { m.vars with session := m.vars.session ∘ p })
    (hflash : n.flash () = n.view () ∨ n.flash () = m.flash ()) : Inv n := by
  have hdistinct := hview.distinct h.distinct
  have hcovered := hview.covered h.view
  have hdurable : Distinct (n.flash ()) ∧ Covered m.log (n.flash ()) := by
    rcases hflash with hflash | hflash
    · rw [hflash]
      exact ⟨hdistinct, hcovered⟩
    · rw [hflash]
      exact ⟨h.durable.distinct, h.durable.flash⟩
  refine ⟨⟨hdurable.1, ?_, ?_, ?_⟩, hdistinct, ?_, ?_, ?_⟩
  · rw [hlog]
    exact hdurable.2
  · rw [hlog]
    exact h.durable.increasing
  · rw [hlog]
    exact h.durable.positive
  · rw [hlog]
    exact hcovered
  · rw [hlog, hvars]
    exact fun _ => hview.ahead (h.ahead hscanned)
  · rw [hvars]
    intro hfalse
    rw [hscanned] at hfalse
    cases hfalse

theorem swap_sessions (session : Index → BitVec 8) :
    Function.update (Function.update session i (session j)) j (session i) =
      session ∘ Equiv.swap i j := by
  funext k
  dsimp only [Function.comp_apply]
  by_cases hj : k = j
  · rw [hj, Function.update_self, Equiv.swap_apply_right]
  rw [Function.update_of_ne hj]
  by_cases hi : k = i
  · rw [hi, Function.update_self, Equiv.swap_apply_left]
  · rw [Function.update_of_ne hi, Equiv.swap_apply_of_ne_of_ne hi hj]

/-- One slot has the content of another, whatever its own kind. -/
def SameContent (s' s : Option Slot) : Prop :=
  ∀ t', s' = some t' → ∃ t, s = some t ∧ t'.config = t.config ∧ t'.extra = t.extra

theorem SameContent.refl (s : Option Slot) : SameContent s s := fun t h => ⟨t, h, rfl, rfl⟩

theorem permuted_swap {b b' : Bank} (hi : SameContent (b' i) (b j)) (hj : SameContent (b' j) (b i))
    (hother : ∀ k, k ≠ i → k ≠ j → b' k = b k) : Permuted (Equiv.swap i j) b b' := by
  intro k s' hs'
  by_cases hki : k = i
  · subst hki
    rw [Equiv.swap_apply_left]
    exact hi s' hs'
  by_cases hkj : k = j
  · subst hkj
    rw [Equiv.swap_apply_right]
    exact hj s' hs'
  rw [Equiv.swap_apply_of_ne_of_ne hki hkj]
  rw [hother k hki hkj] at hs'
  exact ⟨s', hs', rfl, rfl⟩

theorem permuted_exchange (b : Bank) :
    Permuted (Equiv.swap i j) b (Function.update (Function.update b i (b j)) j (b i)) := by
  apply permuted_swap
  · by_cases hij : i = j
    · rw [hij, Function.update_self]
      exact .refl _
    · rw [Function.update_of_ne hij, Function.update_self]
      exact .refl _
  · rw [Function.update_self]
    exact .refl _
  · intro k hki hkj
    rw [Function.update_of_ne hkj, Function.update_of_ne hki]

theorem swapped_inv {f : Faults} (h : Inv m) (hscanned : m.vars.scanned = true)
    (hlog : n.log = m.log) (hvars : n.vars = m.vars)
    (hview : Permuted (Equiv.swap i j) (m.view ()) (n.view ()))
    (hflash : n.flash () = n.view () ∨ n.flash () = m.flash ()) :
    wp f ((swapSessions i j).bind fun _ => otpStatus) (fun _ => Inv) (fun _ => Inv) Durable n := by
  have hsession := swap_sessions (i := i) (j := j) n.vars.session
  refine h.permuted hscanned hlog hview ?_ hflash
  show Vars.mk true (Function.update (Function.update n.vars.session i (n.vars.session j)) j
    (n.vars.session i)) = _
  rw [hsession, hvars, ← hscanned]

theorem containerSwap_spec {f : Faults} (hno : ¬ f.noticed) (h : Inv m)
    (hscanned : m.vars.scanned = true) :
    wp f ((containerSwap i j).bind fun ok => stored ok (swapSessions i j)) (fun _ => Inv)
      (fun _ => Inv) Durable m := by
  rw [wp_bind]
  unfold containerSwap
  dsimp only [wp]
  have hdurable : Durable (m.write ()
      (Function.update (Function.update (m.view ()) i (m.view () j)) j (m.view () i))) :=
    ⟨h.durable.distinct, h.durable.flash, h.durable.increasing, h.durable.positive⟩
  refine ⟨h.durable, ?_, fun hf => absurd hf hno⟩
  refine ⟨hdurable, ?_, fun hf => absurd hf hno⟩
  refine swapped_inv (f := f) h hscanned rfl rfl ?_ (.inl rfl)
  have hview := view_write m
    (Function.update (Function.update (m.view ()) i (m.view () j)) j (m.view () i))
  rw [Machine.sync_view, hview]
  exact permuted_exchange (m.view ())

theorem emptySwap_spec {f : Faults} (h : Inv m) (hscanned : m.vars.scanned = true)
    (hi : m.view () i = none) (hj : m.view () j = none) :
    wp f (legacySwap i j none none) (fun _ => Inv) (fun _ => Inv) Durable m := by
  have hsame : Permuted (Equiv.swap i j) (m.view ()) (m.view ()) := by
    refine permuted_swap ?_ ?_ fun _ _ _ => rfl
    · rw [hi, hj]
      exact .refl _
    · rw [hi, hj]
      exact .refl _
  unfold legacySwap moved slotDelete
  dsimp only
  rw [wp_bind]
  dsimp only [wp]
  rw [if_pos hi]
  show wp f (commitLater.bind fun _ => (swapSessions i j).bind fun _ => otpStatus) _ _ _ m
  rw [wp_bind, wp_commitLater]
  exact ⟨h.durable, swapped_inv h hscanned rfl rfl hsame (.inl rfl),
    fun _ => swapped_inv h hscanned rfl rfl hsame (.inr rfl)⟩

theorem moved_spec {f : Faults} (hno : ¬ f.noticed) (s : Option Slot) (k : Index) :
    wp f (moved s k) (fun ok n => ok = true ∧ n.log = m.log ∧ n.vars = m.vars ∧
      SameContent (n.view () k) s ∧ ∀ l, l ≠ k → n.view () l = m.view () l) (fun _ _ => False)
      (fun _ => True) m := by
  have hwritten : ∀ t, SameContent t s →
      SameContent ((m.write () (Function.update (m.view ()) k t)).view () k) s ∧
      ∀ l, l ≠ k → (m.write () (Function.update (m.view ()) k t)).view () l = m.view () l := by
    intro t ht
    rw [view_write, Function.update_self]
    exact ⟨ht, fun l hl => Function.update_of_ne hl _ _⟩
  cases s with
  | some s =>
    have hcontent : SameContent (some ⟨(m.view ()).isLegacy k, s.config, s.extra⟩) (some s) := by
      intro t ht
      obtain rfl := Option.some.inj ht
      exact ⟨s, rfl, rfl, rfl⟩
    unfold moved
    refine wp_mono (slotStore_spec s.config s.extra) ?_ (fun _ _ hfalse => hfalse) fun _ _ => trivial
    intro ok n hr
    obtain ⟨-, hok, hdone⟩ := hr
    have htrue := hdone hno
    obtain ⟨rfl, -⟩ | rfl := hok htrue
    · exact ⟨htrue, rfl, rfl, hwritten _ hcontent⟩
    · exact ⟨htrue, rfl, rfl, hwritten _ hcontent⟩
  | none =>
    unfold moved slotDelete
    dsimp only [wp]
    by_cases hempty : m.view () k = none
    · rw [if_pos hempty]
      refine ⟨rfl, rfl, rfl, ?_, fun _ _ => rfl⟩
      rw [hempty]
      exact .refl _
    · rw [if_neg hempty]
      refine ⟨trivial, ?_, fun hf => absurd hf hno⟩
      dsimp only
      rw [if_pos rfl]
      have hdeleted := hwritten none (.refl _)
      split_ifs
      · exact ⟨trivial, ⟨rfl, rfl, rfl, hdeleted⟩, fun hf => absurd hf hno⟩
      · exact ⟨trivial, ⟨rfl, rfl, rfl, hdeleted⟩, fun hf => absurd hf hno⟩

theorem legacySwap_spec {f : Faults} (hno : ¬ f.noticed) (h : Inv m) (hscanned : m.vars.scanned = true)
    (hij : i ≠ j) :
    wp f (legacySwap i j (m.view () i) (m.view () j)) (fun _ => Inv) (fun _ => Inv) (fun _ => True)
      m := by
  by_cases hempty : m.view () i = none ∧ m.view () j = none
  · rw [hempty.1, hempty.2]
    exact wp_mono (emptySwap_spec h hscanned hempty.1 hempty.2) (fun _ _ hn => hn) (fun _ _ hn => hn)
      fun _ _ => trivial
  unfold legacySwap
  rw [wp_bind]
  refine wp_mono (moved_spec hno _ i) ?_ (fun _ _ hfalse => absurd hfalse not_false) fun _ hn => hn
  intro first n hr
  obtain ⟨rfl, hlog, hvars, hfirst, hother⟩ := hr
  rw [if_pos rfl, if_neg hempty, wp_bind]
  refine wp_mono (moved_spec hno _ j) ?_ (fun _ _ hfalse => absurd hfalse not_false) fun _ hn => hn
  intro second n' hr
  obtain ⟨rfl, hlog', hvars', hsecond, hother'⟩ := hr
  have hview : Permuted (Equiv.swap i j) (m.view ()) (n'.view ()) := by
    apply permuted_swap
    · rw [hother' i hij]
      exact hfirst
    · exact hsecond
    · exact fun k hki hkj => (hother' k hkj).trans (hother k hki)
  show wp f (commitLater.bind fun _ => (swapSessions i j).bind fun _ => otpStatus) _ _ _ n'
  rw [wp_bind, wp_commitLater]
  refine ⟨trivial, ?_, fun hf => absurd hf hno⟩
  exact wp_mono (swapped_inv (n := n'.sync) h hscanned (hlog'.trans hlog) (hvars'.trans hvars) hview
    (.inl rfl)) (fun _ _ hn => hn) (fun _ _ hn => hn) fun _ _ => trivial

theorem cmdSwap_spec {f : Faults} {reads : Reads} {r : Request} (hno : ¬ f.noticed) (h : Inv m)
    (hscanned : m.vars.scanned = true) :
    wp f (cmdSwap reads r) (fun _ => Inv) (fun _ => Inv)
      (fun n => (∀ k, (m.view ()).isLegacy k = false) → Durable n) m := by
  unfold cmdSwap
  cases swapRequest r with
  | error e => exact h
  | ok slots =>
    obtain ⟨a, b, code⟩ := slots
    dsimp only
    by_cases hslots : 3 < a ∨ 3 < b ∨ a = b
    · rw [if_pos hslots]
      exact h
    rw [if_neg hslots]
    have hij : Fin.ofNat 4 a ≠ Fin.ofNat 4 b := by
      intro heq
      have hval : a % 4 = b % 4 := congrArg Fin.val heq
      omega
    generalize Fin.ofNat 4 a = i at hij ⊢
    generalize Fin.ofNat 4 b = j at hij ⊢
    dsimp only [wp]
    cases swapCheck reads code i (m.view () i) with
    | some e => exact h
    | none =>
      cases swapCheck reads code j (m.view () j) with
      | some e => exact h
      | none =>
        dsimp only
        by_cases hcontainer : (m.view ()).isLegacy i = false ∧ (m.view ()).isLegacy j = false ∧
            ¬ (m.view () i = none ∧ m.view () j = none)
        · rw [if_pos hcontainer]
          exact wp_mono (containerSwap_spec hno h hscanned) (fun _ _ hn => hn) (fun _ _ hn => hn)
            fun _ hn _ => hn
        rw [if_neg hcontainer]
        by_cases hlegacy : ∀ k, (m.view ()).isLegacy k = false
        · -- no legacy slot, so both are empty
          have hempty : m.view () i = none ∧ m.view () j = none := by
            by_contra hne
            exact hcontainer ⟨hlegacy i, hlegacy j, hne⟩
          rw [hempty.1, hempty.2]
          exact wp_mono (emptySwap_spec h hscanned hempty.1 hempty.2) (fun _ _ hn => hn)
            (fun _ _ hn => hn) fun _ hn _ => hn
        · exact wp_mono (legacySwap_spec hno h hscanned hij) (fun _ _ hn => hn) (fun _ _ hn => hn)
            fun _ _ hall => absurd hall hlegacy

end Swap

/-! Whole runs. -/

/-- Nothing is refused. -/
def Obliging (replies : List Reply) : Prop := ∀ happened, .refused happened ∉ replies

theorem ends_of_wp {p : OtpProg Unit} {m : OtpMachine} {Q : Unit → OtpMachine → Prop}
    {R : Err → OtpMachine → Prop} {C : OtpMachine → Prop} {replies : List Reply}
    (h : ∀ f : Faults, (Obliging replies → ¬ f.noticed) → wp f p Q R C m) :
    Ends Q R C (exec p m replies) :=
  ends_of_faults h

theorem Durable.reboot {m : OtpMachine} (h : Durable m) : Inv (m.reboot {}) := by
  refine ⟨⟨h.distinct, h.flash, h.increasing, h.positive⟩, h.distinct, h.flash, ?_, fun _ _ => rfl⟩
  intro hfalse
  cases hfalse

theorem inv_after {r : Outcome Err Unit × OtpMachine × List Reply}
    (h : Ends (fun _ => Inv) (fun _ => Inv) Durable r) : Inv (after r) := by
  unfold Ends at h
  unfold after
  split at h
  · next hr =>
    rw [hr]
    exact h
  · next hr =>
    rw [hr]
    exact h
  · next hr =>
    rw [hr]
    exact h.reboot

/-- The steps after which no pair can come again. Before a press the counters are advanced, or this
press advances them without a refusal; the mark that they are is set by nothing else, in particular by no status
report, not even the one that asks for a touch. What a legacy slot holds has to be in the flash when an OTP with its
counter is typed, and no swap of one is cut short. -/
def Safe (m : OtpMachine) : Input → Prop
  | .press reads k replies => BelowLimit (m.view ()) ∧
      (m.vars.scanned = false → reads.migrated = true ∧ (∀ j, reads.load j = true) ∧ Obliging replies) ∧
      (m.vars.scanned = true → m.flash () k = m.view () k) ∧
      ((m.view ()).isLegacy k = false ∨ Obliging replies)
  | .command reads r replies => r.p1 ≠ 0x01 ∧ r.p1 ≠ 0x03 ∧
      (r.p1 = 0x04 ∨ r.p1 = 0x05 ∨ r.p1 = 0x06 → m.vars.scanned = true) ∧
      (r.p1 = 0x20 ∨ r.p1 = 0x28 ∨ r.p1 = 0x30 ∨ r.p1 = 0x38 →
        asksForTouch reads r (m.view ()) = true → m.vars.scanned = true) ∧
      (r.p1 = 0x06 → Obliging replies ∧
        ((∀ k, (m.view ()).isLegacy k = false) ∨ .powerLoss ∉ replies))
  | .status => m.vars.scanned = true
  | .init reads _ => BelowLimit (m.view ()) ∧ (m.vars.scanned = false → ∀ k, reads.load k = true)
  | .drain => True
  | .powerCycle => True

theorem belowLimit_iff (b : Bank) :
    BelowLimit b ↔ ∀ k, (b k).all (fun s => decide (s.counter < 0x7fff)) = true := by
  unfold BelowLimit
  refine forall_congr' fun k => ?_
  cases b k with
  | none => simp
  | some s => simp

instance (b : Bank) : Decidable (BelowLimit b) := decidable_of_iff' _ (belowLimit_iff b)

instance (replies : List Reply) : Decidable (Obliging replies) :=
  inferInstanceAs (Decidable (∀ happened, .refused happened ∉ replies))

instance (m : OtpMachine) : ∀ i, Decidable (Safe m i)
  | .press _ _ _ => inferInstanceAs (Decidable (_ ∧ _))
  | .command _ _ _ => inferInstanceAs (Decidable (_ ∧ _))
  | .status => inferInstanceAs (Decidable (_ = true))
  | .init _ _ => inferInstanceAs (Decidable (_ ∧ _))
  | .drain => .isTrue trivial
  | .powerCycle => .isTrue trivial

theorem inv_command {m : OtpMachine} {reads : Reads} {r : Request} {replies : List Reply}
    (hsafe : Safe m (.command reads r replies)) (h : Inv m) :
    Inv (after (exec (cmdOtp reads r) m replies)) := by
  obtain ⟨hne1, hne3, hscanned, htouched, hswap⟩ := hsafe
  unfold cmdOtp
  rw [if_neg (by omega)]
  split_ifs with hupdate hp6 hcalculate
  · apply inv_after
    apply ends_of_wp
    exact fun f _ => cmdUpdate_spec h (hscanned (by omega))
  · obtain ⟨hobliging, hpower⟩ := hswap hp6
    have hspec : ∀ f : Faults, (Obliging replies → ¬ f.noticed) → wp f (cmdSwap reads r)
        (fun _ => Inv) (fun _ => Inv) (fun n => (∀ k, (m.view ()).isLegacy k = false) → Durable n) m :=
      fun f hf => cmdSwap_spec (hf hobliging) h (hscanned (by omega))
    have hends := ends_of_wp hspec
    apply inv_after
    unfold Ends at hends ⊢
    split
    · next hr =>
      rw [hr] at hends
      exact hends
    · next hr =>
      rw [hr] at hends
      exact hends
    · next hr =>
      rw [hr] at hends
      rcases hpower with hpower | hpower
      · exact hends hpower
      · exact absurd hr (exec_ne_lost _ m hpower)
  · apply inv_after
    apply ends_of_wp
    intro f _
    refine cmdCalculate_spec h (fun _ => h) fun hasks => ?_
    have hstill := h.status (htouched hcalculate hasks)
    exact ⟨hstill, fun _ => hstill⟩
  · exact h

theorem inv_step (m : OtpMachine) (i : Input) (hsafe : Safe m i) (h : Inv m) : Inv (step m i) := by
  cases i with
  | press reads k replies =>
    obtain ⟨hlimit, hstart, hflushed, hkind⟩ := hsafe
    apply inv_after
    apply ends_of_wp
    intro f hf
    apply buttonPressed_spec h
    exact ⟨hlimit, fun hno => ⟨(hstart hno).1, (hstart hno).2.1, hf (hstart hno).2.2⟩, hflushed,
      hkind.imp_right hf⟩
  | command reads r replies => exact inv_command hsafe h
  | status => exact h.status hsafe
  | init reads replies =>
    apply inv_after
    apply ends_of_wp
    intro f _
    exact wp_mono (initOtp_spec h hsafe.2 hsafe.1) (fun _ _ hn => hn.1)
      (fun _ _ hfalse => absurd hfalse not_false) fun _ hn => hn
  | drain => exact h.sync
  | powerCycle => exact h.durable.reboot

/-- Nothing was typed yet, and no configuration is in two slots. -/
structure Fresh (m : OtpMachine) : Prop where
  log : m.log = []
  vars : m.vars = {}
  view : Distinct (m.view ())
  flash : Distinct (m.flash ())

theorem Fresh.inv {m : OtpMachine} (h : Fresh m) : Inv m := by
  have hnone : ∀ id u x, ¬ Logged m.log id u x := by
    intro id u x hlogged
    obtain ⟨e, he, -⟩ := hlogged
    rw [h.log] at he
    cases he
  refine ⟨⟨h.flash, ?_, ?_, ?_⟩, h.view, ?_, ?_, ?_⟩
  · exact fun k s _ u x hlogged => absurd hlogged (hnone _ u x)
  · rw [h.log]
    exact List.Pairwise.nil
  · exact fun id u x hlogged => absurd hlogged (hnone id u x)
  · exact fun k s _ u x hlogged => absurd hlogged (hnone _ u x)
  · exact fun _ k s _ u x hlogged => absurd hlogged (hnone _ u x)
  · rw [h.vars]
    exact fun _ _ => rfl

/-- Along every run of such steps the OTPs of a configuration carry ever larger pairs of counters. -/
theorem otps_increase (m : OtpMachine) (h : Fresh m) (inputs : List Input)
    (hrun : Along step Safe m inputs) : Increasing (run step m inputs).log :=
  (run_invariant inv_step m inputs hrun h.inv).durable.increasing

/-- A container slot with Yubico OTPs that has been used in five starts. -/
def usedSlot : Slot where
  legacy := false
  config := .ofBytes (List.replicate configSize 0)
  extra := some (5 <<< 48)

/-- The device with this slot only, as it starts. -/
def oneSlot : OtpMachine where
  view := fun _ k => if k = 0 then some usedSlot else none
  flash := fun _ k => if k = 0 then some usedSlot else none
  vars := {}
  log := []
  dropped := []

theorem oneSlot_fresh : Fresh oneSlot := by
  have hdistinct : Distinct (fun k => if k = 0 then some usedSlot else none) := by
    intro i j si sj hi hj _
    dsimp only at hi hj
    by_cases hi0 : i = 0
    · by_cases hj0 : j = 0
      · rw [hi0, hj0]
      · rw [if_neg hj0] at hj
        cases hj
    · rw [if_neg hi0] at hi
      cases hi
  exact ⟨rfl, rfl, hdistinct, hdistinct⟩

/-- Two presses, a status report between them, the slots swapped, a power loss and a third press. -/
theorem otps_increase_over_restart :
    Along step Safe oneSlot [.press {} 0 [], .status, .command {} ⟨0x06, 0, [], false⟩ [],
      .press {} 1 [], .powerCycle, .press {} 1 []] ∧
    Increasing (run step oneSlot [.press {} 0 [], .status, .command {} ⟨0x06, 0, [], false⟩ [],
      .press {} 1 [], .powerCycle, .press {} 1 []]).log := by
  have hrun : Along step Safe oneSlot [.press {} 0 [], .status, .command {} ⟨0x06, 0, [], false⟩ [],
      .press {} 1 [], .powerCycle, .press {} 1 []] := by
    decide +kernel
  exact ⟨hrun, otps_increase oneSlot oneSlot_fresh _ hrun⟩

/-- A status report after the start sets the mark before the counters are advanced: the press behind
it types the pair of the start before. -/
theorem otp_repeats_after_status : Fresh oneSlot ∧
    (run step oneSlot [.press {} 0 [], .powerCycle, .status, .press {} 0 []]).log.map Prod.fst =
      [.yubico (usedSlot.withCounter 6) 6 0, .yubico (usedSlot.withCounter 6) 6 0] ∧
    ¬ Increasing (run step oneSlot [.press {} 0 [], .powerCycle, .status, .press {} 0 []]).log := by
  have htyped : (run step oneSlot [.press {} 0 [], .powerCycle, .status, .press {} 0 []]).log.map
      Prod.fst = [.yubico (usedSlot.withCounter 6) 6 0, .yubico (usedSlot.withCounter 6) 6 0] := by
    decide +kernel
  refine ⟨oneSlot_fresh, htyped, ?_⟩
  intro hincreasing
  obtain ⟨a, rest, hlog, ha, hrest⟩ := List.map_eq_cons_iff.mp htyped
  obtain ⟨b, rest', rfl, hb, -⟩ := List.map_eq_cons_iff.mp hrest
  rw [hlog] at hincreasing
  have hlater := List.rel_of_pairwise_cons hincreasing List.mem_cons_self _ _ _ _ _ ⟨_, ha, rfl⟩
    ⟨_, hb, rfl⟩
  unfold Precedes at hlater
  omega

end KeyWallet.Otp
