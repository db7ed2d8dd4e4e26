import KeyWallet.ObjectTxn

/-! What survives when a transactional object is written and the storage fails or the power goes. -/
namespace KeyWallet

open CrashProgram

namespace Txn

open Container (ObjErr)

section Parsing

variable {Tag : Type} [DecidableEq Tag] {auth : Authenticator Tag} {L : Layout}
  {files files' : Files Tag} {s : Nat} {st : State}

theorem validateRecord_congr {slot g i n : Nat} {tag : Tag}
    (h : files' (L.recordFid slot) = files (L.recordFid slot)) :
    validateRecord auth L files' slot g i n tag = validateRecord auth L files slot g i n tag := by
  unfold validateRecord
  rw [h]

theorem validateRecord_error {slot g i n : Nat} {tag : Tag} {e : ObjErr}
    (h : validateRecord auth L files slot g i n tag = .error e) : invalidRecord e = true := by
  unfold validateRecord at h
  split at h
  · exact Except.error.inj h ▸ rfl
  · split at h
    · exact Except.error.inj h ▸ rfl
    · exact Except.error.inj h ▸ rfl
    · split_ifs at h <;> exact Except.error.inj h ▸ rfl
    · exact Except.error.inj h ▸ rfl

theorem parseCommit_error {e : ObjErr} (h : parseCommit auth L files s = .error e) :
    invalidRecord e = true := by
  unfold parseCommit at h
  split at h
  · exact Except.error.inj h ▸ rfl
  · exact Except.error.inj h ▸ rfl
  · split_ifs at h
    · exact Except.error.inj h ▸ rfl
    · exact Except.error.inj h ▸ rfl
    · exact Except.error.inj h ▸ rfl
    · exact Except.error.inj h ▸ rfl
    · split at h
      · next hv => exact Except.error.inj h ▸ validateRecord_error hv
      · exact absurd h (by simp)
  · exact Except.error.inj h ▸ rfl

theorem parseCommit_ok (h : parseCommit auth L files s = .ok st) :
    (∃ c tag, files (L.commitFid s) = some (.commit c tag) ∧ c.generation = st.generation) ∧
      st.commitSlot = s ∧ (st.deleted = false →
        ∃ tag, validateRecord auth L files st.recordSlot st.generation st.recordId st.payloadSize tag =
          .ok ()) := by
  unfold parseCommit at h
  split at h
  · exact absurd h (by simp)
  · exact absurd h (by simp)
  · next c tag hc =>
    split_ifs at h
    · rw [← Except.ok.inj h]
      exact ⟨⟨c, tag, hc, rfl⟩, rfl, fun hd => absurd hd (by simp)⟩
    · split at h
      · exact absurd h (by simp)
      · next hv =>
        rw [← Except.ok.inj h]
        exact ⟨⟨c, tag, hc, rfl⟩, rfl, fun _ => ⟨_, hv⟩⟩
  · exact absurd h (by simp)

theorem parseCommit_congr (h : parseCommit auth L files s = .ok st)
    (hcommit : files' (L.commitFid s) = files (L.commitFid s))
    (hrecord : st.deleted = false → files' (L.recordFid st.recordSlot) = files (L.recordFid st.recordSlot)) :
    parseCommit auth L files' s = .ok st := by
  unfold parseCommit at h ⊢
  rw [hcommit]
  split at h
  · exact absurd h (by simp)
  · exact absurd h (by simp)
  · split_ifs at h ⊢
    · exact h
    · split at h
      · exact absurd h (by simp)
      · next hv =>
        rw [← Except.ok.inj h] at hrecord ⊢
        rw [validateRecord_congr (hrecord rfl), hv]
  · exact absurd h (by simp)

/-- The slot that is recovered, and why. -/
theorem recover_ok (h : recover auth L files = .ok st) :
    st.commitSlot < 2 ∧ parseCommit auth L files st.commitSlot = .ok st := by
  have hslot : ∀ {s st'}, parseCommit auth L files s = .ok st' → st'.commitSlot = s :=
    fun hp => (parseCommit_ok hp).2.1
  have hpick : ∀ {s}, s < 2 → parseCommit auth L files s = .ok st →
      st.commitSlot < 2 ∧ parseCommit auth L files st.commitSlot = .ok st := by
    intro s hs hp
    rw [hslot hp]
    exact ⟨hs, hp⟩
  unfold recover recoverSlot at h
  cases h₀ : parseCommit auth L files 0 with
  | error e₀ =>
    cases h₁ : parseCommit auth L files 1 with
    | error e₁ => simp [h₀, h₁, parseCommit_error h₀, parseCommit_error h₁] at h
    | ok st₁ =>
      simp only [h₀, h₁, parseCommit_error h₀, if_true, Except.ok.injEq] at h
      exact hpick (by decide) (h ▸ h₁)
  | ok st₀ =>
    cases h₁ : parseCommit auth L files 1 with
    | error e₁ =>
      simp only [h₀, h₁, parseCommit_error h₁, if_true, Except.ok.injEq] at h
      exact hpick (by decide) (h ▸ h₀)
    | ok st₁ =>
      simp only [h₀, h₁] at h
      split_ifs at h with heq hlt
      · exact hpick (by decide) (Except.ok.inj h ▸ h₁)
      · exact hpick (by decide) (Except.ok.inj h ▸ h₀)

theorem recover_eq (hs : s < 2) (h : parseCommit auth L files s = .ok st)
    (hother : ∀ st', parseCommit auth L files (1 - s) = .ok st' → st'.generation < st.generation) :
    recover auth L files = .ok st := by
  have hslots : s = 0 ∨ s = 1 := by omega
  rcases hslots with rfl | rfl
  · cases hp : parseCommit auth L files 1 with
    | error e => simp [recover, recoverSlot, h, hp, parseCommit_error hp]
    | ok st' =>
      have hlt := hother st' hp
      simp [recover, recoverSlot, h, hp, Nat.ne_of_lt hlt, Nat.not_lt.mpr (Nat.le_of_lt hlt)]
  · cases hp : parseCommit auth L files 0 with
    | error e => simp [recover, recoverSlot, h, hp, parseCommit_error hp]
    | ok st' =>
      have hlt := hother st' hp
      simp [recover, recoverSlot, h, hp, Nat.ne_of_gt hlt, hlt]

theorem recover_none (h : ∀ s < 2, ∃ e, parseCommit auth L files s = .error e) :
    recover auth L files = .error .fileNotFound := by
  obtain ⟨e₀, h₀⟩ := h 0 (by decide)
  obtain ⟨e₁, h₁⟩ := h 1 (by decide)
  simp [recover, recoverSlot, h₀, h₁, parseCommit_error h₀, parseCommit_error h₁]

theorem Layout.fids (L : Layout) {s t : Nat} (hs : s < 2) (ht : t < 2) :
    L.commitFid s ≠ L.recordFid t ∧ (s ≠ t → L.commitFid s ≠ L.commitFid t ∧
      L.recordFid s ≠ L.recordFid t) := by
  have hd := L.distinct
  simp only [List.nodup_cons, List.mem_cons, List.not_mem_nil, or_false, not_or] at hd
  obtain ⟨⟨h1, h2, h3⟩, ⟨h4, h5⟩, h6, -⟩ := hd
  have hs' : s = 0 ∨ s = 1 := by omega
  have ht' : t = 0 ∨ t = 1 := by omega
  rcases hs' with rfl | rfl <;> rcases ht' with rfl | rfl
  · exact ⟨Ne.symm h2, fun hne => absurd rfl hne⟩
  · exact ⟨Ne.symm h4, fun _ => ⟨h6, h1⟩⟩
  · exact ⟨Ne.symm h3, fun _ => ⟨Ne.symm h6, Ne.symm h1⟩⟩
  · exact ⟨Ne.symm h5, fun hne => absurd rfl hne⟩

end Parsing

/-! What holds between the operations. -/
section Invariant

variable {Tag : Type} [DecidableEq Tag] (auth : Authenticator Tag) (L : Layout)

abbrev TxnCache (Tag : Type) := Cache Nat (Option (Content Tag)) Unit

/-- Not a commit of this generation or a later one. -/
def Older (g : Nat) (c : Option (Content Tag)) : Prop :=
  ∀ h tag, c = some (.commit h tag) → h.generation < g

/-- There is no commit, and none can come back. -/
def Vacant (m : TxnCache Tag) : Prop := ∀ s < 2, ∀ c, m.Possible (L.commitFid s) c → Older 0 c

/-- The slot that counts is durable, and the other one is older whatever becomes of it. -/
structure Current (m : TxnCache Tag) (s : Nat) (st : State) : Prop where
  slot : s < 2
  parsed : parseCommit auth L m.view s = .ok st
  own : st.deleted = false → st.recordSlot = s
  commit : m.Fixed (L.commitFid s)
  record : m.Fixed (L.recordFid s)
  other : ∀ c, m.Possible (L.commitFid (1 - s)) c → Older st.generation c

def Sound (m : TxnCache Tag) : Prop := Vacant L m ∨ ∃ s st, Current auth L m s st

/-- Both slots may be valid, but then one is newer. -/
def GenerationsDiffer (files : Files Tag) : Prop :=
  ∀ st₀ st₁, parseCommit auth L files 0 = .ok st₀ → parseCommit auth L files 1 = .ok st₁ →
    st₀.generation ≠ st₁.generation

variable {auth L} {m : TxnCache Tag} {files : Files Tag} {s t g : Nat} {st : State}

theorem Vacant.parse (h : Vacant L m) (hp : ∀ k, m.Possible k (files k)) (hs : s < 2) :
    ∃ e, parseCommit auth L files s = .error e := by
  cases hparse : parseCommit auth L files s with
  | error e => exact ⟨e, rfl⟩
  | ok st =>
    obtain ⟨⟨c, tag, hc, -⟩, -⟩ := parseCommit_ok hparse
    exact absurd (h s hs _ (hp _) c tag hc) (Nat.not_lt_zero _)

theorem Current.parse (h : Current auth L m s st) (hp : ∀ k, m.Possible k (files k)) :
    parseCommit auth L files s = .ok st := by
  apply parseCommit_congr h.parsed (h.commit _ (hp _))
  intro hd
  rw [h.own hd]
  exact h.record _ (hp _)

theorem Current.parse_other (h : Current auth L m s st) (hp : ∀ k, m.Possible k (files k)) {st' : State}
    (ho : parseCommit auth L files (1 - s) = .ok st') : st'.generation < st.generation := by
  obtain ⟨⟨c, tag, hc, hg⟩, -⟩ := parseCommit_ok ho
  rw [← hg]
  exact h.other _ (hp _) c tag hc

theorem Current.recover (h : Current auth L m s st) (hp : ∀ k, m.Possible k (files k)) :
    recover auth L files = .ok st :=
  recover_eq h.slot (h.parse hp) fun _ ho => h.parse_other hp ho

theorem Vacant.recover (h : Vacant L m) (hp : ∀ k, m.Possible k (files k)) :
    recover auth L files = .error .fileNotFound :=
  recover_none fun _ hs => h.parse hp hs

theorem Sound.contents (h : Sound auth L m) (hp : ∀ k, m.Possible k (files k)) :
    contents auth L files = contents auth L m.view := by
  have hview : ∀ k, m.Possible k (m.view k) := m.possible_view
  rcases h with h | ⟨s, st, h⟩
  · simp only [Txn.contents, h.recover hp, h.recover hview]
  · simp only [Txn.contents, h.recover hp, h.recover hview]
    cases hd : st.deleted with
    | true => rfl
    | false =>
      have hfile : files (L.recordFid st.recordSlot) = m.view (L.recordFid st.recordSlot) := by
        rw [h.own hd]
        exact h.record _ (hp _)
      simp only [payloadAt, hfile]

theorem Sound.boot (h : Sound auth L m) (hp : ∀ k, m.Possible k (files k)) :
    Sound auth L (Cache.boot files ()) := by
  rcases h with h | ⟨s, st, h⟩
  · refine .inl fun s hs c hc => ?_
    rw [hc.of_boot]
    exact h s hs _ (hp _)
  · refine .inr ⟨s, st, h.slot, h.parse hp, h.own, Cache.fixed_boot _ _ _, Cache.fixed_boot _ _ _, ?_⟩
    intro c hc
    rw [hc.of_boot]
    exact h.other _ (hp _)

theorem Sound.differ (h : Sound auth L m) (hp : ∀ k, m.Possible k (files k)) :
    GenerationsDiffer auth L files := by
  intro st₀ st₁ h₀ h₁
  rcases h with h | ⟨s, st, h⟩
  · have hparse : ∃ e, parseCommit auth L files 0 = .error e := h.parse hp (by decide)
    obtain ⟨e, he⟩ := hparse
    exact absurd (he.symm.trans h₀) (by simp)
  · have hthis := h.parse hp
    have hslots : s = 0 ∨ s = 1 := by
      have := h.slot
      omega
    rcases hslots with rfl | rfl
    · have hlt := h.parse_other hp h₁
      rw [Except.ok.inj (hthis.symm.trans h₀)] at hlt
      omega
    · have hlt := h.parse_other hp h₀
      rw [Except.ok.inj (hthis.symm.trans h₁)] at hlt
      omega

end Invariant

/-! The operations, step by step. -/
section Steps

variable {Tag : Type} {I : TxnCache Tag → Prop} {m : TxnCache Tag} {k : Nat}

theorem always_removeFile (hI : I m) (hwrite : ∀ n, I n → I (n.write k none)) :
    always (removeFile k) (fun _ n => I n ∧ n.view k = none) (fun _ n => I n) I m := by
  cases hk : m.view k with
  | none => simpa [removeFile, hk] using hI
  | some c =>
    simp only [removeFile, bind_eq, always_bind, always_consult, hk, Option.isSome_some, if_true,
      always_putFile, pure_eq, always_done, Bool.false_eq_true, if_false, always_fail]
    exact ⟨hI, ⟨hwrite m hI, Function.update_self _ _ _⟩, hI, hwrite m hI⟩

theorem always_syncOrFail (hI : I m) :
    always (syncOrFail : Op Tag Unit) (fun _ n => n = m.sync) (fun _ n => n = m) I m := by
  simp [syncOrFail, hI]

theorem survives_single {v : Option (Content Tag)} {files : Files Tag}
    (h : (m.sync.write k v).Survives files) :
    files = m.view ∨ files = Function.update m.view k v := by
  obtain ⟨ws, hsub, rfl⟩ := h
  rcases List.sublist_singleton.mp hsub with rfl | rfl
  · exact .inl rfl
  · exact .inr rfl

theorem survives_sync {files : Files Tag} (h : m.sync.Survives files) : files = m.view := by
  obtain ⟨ws, hsub, rfl⟩ := h
  rw [List.sublist_nil.mp hsub]
  rfl

end Steps

section Staging

variable {Tag : Type} [DecidableEq Tag] (auth : Authenticator Tag) (L : Layout)

/-- What the object shows, from the state of its slot. -/
def shown (files : Files Tag) (s : Nat) (st : State) : Option Data :=
  if st.deleted then none else some (payloadAt L files s)

/-- Slot `t` is free for generation `g`, and `before` is what the object shows meanwhile. -/
def Holding (before : Except ObjErr (Option Data)) (t g : Nat) (m : TxnCache Tag) : Prop :=
  t < 2 ∧ ((Vacant L m ∧ g = 1 ∧ before = .error .fileNotFound) ∨
    ∃ st, Current auth L m (1 - t) st ∧ g = st.generation + 1 ∧ before = .ok (shown L m.view (1 - t) st))

variable {auth L} {before : Except ObjErr (Option Data)} {m : TxnCache Tag} {t g : Nat}

theorem Current.contents {s : Nat} {st : State} (h : Current auth L m s st) :
    contents auth L m.view = .ok (shown L m.view s st) := by
  simp only [Txn.contents, h.recover m.possible_view, shown]
  cases hd : st.deleted with
  | true => rfl
  | false => rw [h.own hd]

theorem Holding.sound (h : Holding auth L before t g m) : Sound auth L m := by
  rcases h with ⟨-, ⟨hv, -⟩ | ⟨st, hc, -⟩⟩
  · exact .inl hv
  · exact .inr ⟨_, st, hc⟩

theorem Holding.contents (h : Holding auth L before t g m) : contents auth L m.view = before := by
  rcases h with ⟨-, ⟨hv, -, hb⟩ | ⟨st, hc, -, hb⟩⟩
  · simp only [Txn.contents, hv.recover m.possible_view, hb]
  · rw [hc.contents, hb]

theorem Holding.pos (h : Holding auth L before t g m) : 0 < g := by
  rcases h with ⟨-, ⟨-, hg, -⟩ | ⟨st, -, hg, -⟩⟩ <;> omega

theorem Holding.write (h : Holding auth L before t g m) {k : Nat} {v : Option (Content Tag)}
    (hk : k = L.recordFid t ∨ k = L.commitFid t ∧ v = none) : Holding auth L before t g (m.write k v) := by
  obtain ⟨ht, h⟩ := h
  have hother : 1 - t < 2 := by omega
  have hne : 1 - t ≠ t := by omega
  have hback : 1 - (1 - t) = t := by omega
  have htwo : ∀ s < 2, s ≠ t → s = 1 - t := fun s hs hst => by omega
  obtain ⟨hcr, hcs⟩ := L.fids hother ht
  obtain ⟨hcc, hrr⟩ := hcs hne
  have hrc : L.recordFid (1 - t) ≠ L.commitFid t := (L.fids ht hother).1.symm
  have hcommit : L.commitFid (1 - t) ≠ k := by
    rcases hk with rfl | ⟨rfl, -⟩
    · exact hcr
    · exact hcc
  have hrecord : L.recordFid (1 - t) ≠ k := by
    rcases hk with rfl | ⟨rfl, -⟩
    · exact hrr
    · exact hrc
  -- what the commit of the free slot may be has not changed for the worse
  have hnew : ∀ n c, (∀ c, m.Possible (L.commitFid t) c → Older n c) →
      (m.write k v).Possible (L.commitFid t) c → Older n c := by
    intro n c hold hc
    rcases hc.of_write with hc | ⟨hkey, rfl⟩
    · exact hold c hc
    · rcases hk with rfl | ⟨-, rfl⟩
      · exact absurd hkey (L.fids ht ht).1
      · exact fun _ _ he => absurd he (by simp)
  refine ⟨ht, ?_⟩
  rcases h with ⟨hv, hg, hb⟩ | ⟨st, hc, hg, hb⟩
  · refine .inl ⟨fun s hs c hc => ?_, hg, hb⟩
    by_cases he : s = t
    · subst he
      exact hnew 0 c (hv s hs) hc
    · obtain rfl := htwo s hs he
      exact hv _ hs c (hc.of_write_ne hcommit)
  · refine .inr ⟨st, ⟨hother, ?_, hc.own, hc.commit.write hcommit v, hc.record.write hrecord v, ?_⟩, hg, ?_⟩
    · apply parseCommit_congr hc.parsed (Function.update_of_ne hcommit _ _)
      intro hd
      rw [hc.own hd]
      exact Function.update_of_ne hrecord _ _
    · intro c hp
      rw [hback] at hp
      exact hnew _ c (fun c' hc' => hc.other c' (by rwa [hback])) hp
    · have hfile : (m.write k v).view (L.recordFid (1 - t)) = m.view (L.recordFid (1 - t)) :=
        Function.update_of_ne hrecord _ _
      simp only [hb, shown, payloadAt, hfile]

theorem Holding.sync (h : Holding auth L before t g m) : Holding auth L before t g m.sync := by
  have hp : ∀ k c, m.sync.Possible k c → m.Possible k c := fun k c hc => hc.of_sync ▸ m.possible_view k
  obtain ⟨ht, h⟩ := h
  refine ⟨ht, ?_⟩
  rcases h with ⟨hv, hg, hb⟩ | ⟨st, hc, hg, hb⟩
  · exact .inl ⟨fun s hs c hc => hv s hs c (hp _ _ hc), hg, hb⟩
  · exact .inr ⟨st, ⟨hc.slot, hc.parsed, hc.own, m.fixed_sync _, m.fixed_sync _,
      fun c hc' => hc.other c (hp _ _ hc')⟩, hg, hb⟩

theorem Sound.nextState (h : Sound auth L m) (hnext : nextState auth L m.view = .ok (t, g)) :
    Holding auth L (Txn.contents auth L m.view) t g m := by
  rcases h with h | ⟨s, st, h⟩
  · have hrec : recover auth L m.view = .error .fileNotFound := h.recover m.possible_view
    simp only [Txn.nextState, hrec] at hnext
    obtain ⟨rfl, rfl⟩ := Prod.mk.inj (Except.ok.inj hnext)
    exact ⟨by decide, .inl ⟨h, rfl, by simp only [Txn.contents, hrec]⟩⟩
  · simp only [Txn.nextState, h.recover m.possible_view] at hnext
    split at hnext
    · exact absurd hnext (by simp)
    · obtain ⟨rfl, rfl⟩ := Prod.mk.inj (Except.ok.inj hnext)
      have hslot : st.commitSlot = s := (parseCommit_ok h.parsed).2.1
      have hs := h.slot
      have hback : 1 - (1 - s) = s := by omega
      refine ⟨by omega, .inr ⟨st, ?_, rfl, ?_⟩⟩
      · rw [hslot, hback]
        exact h
      · rw [hslot, hback, h.contents]

end Staging

section Installing

variable {Tag : Type} [DecidableEq Tag] (auth : Authenticator Tag) (L : Layout)

/-- The files once the commit is in place. -/
def installed (h : CommitHeader Tag) (files : Files Tag) : Files Tag :=
  Function.update files (L.commitFid h.slot) (some (.commit h (auth.sign (.commit h))))

/-- Everything but the commit is durable. -/
structure Staged (before : Except ObjErr (Option Data)) (new : Option Data) (h : CommitHeader Tag)
    (m : TxnCache Tag) : Prop where
  holding : Holding auth L before h.slot h.generation m
  synced : m.sync = m
  empty : m.view (L.commitFid h.slot) = none
  valid : ∃ st, parseCommit auth L (installed auth L h m.view) h.slot = .ok st ∧
    st.generation = h.generation ∧ (st.deleted = false → st.recordSlot = h.slot) ∧
    shown L m.view h.slot st = new

variable {auth L} {before : Except ObjErr (Option Data)} {new : Option Data} {h : CommitHeader Tag}
  {m : TxnCache Tag}

theorem Staged.current (hm : Staged auth L before new h m) :
    ∃ st, Current auth L (Cache.boot (installed auth L h m.view) ()) h.slot st ∧
      shown L (installed auth L h m.view) h.slot st = new := by
  obtain ⟨st, hparse, hgen, hown, hnew⟩ := hm.valid
  have ht := hm.holding.1
  have hother : 1 - h.slot < 2 := by omega
  have hne : 1 - h.slot ≠ h.slot := by omega
  refine ⟨st, ⟨ht, hparse, hown, Cache.fixed_boot _ _ _, Cache.fixed_boot _ _ _, ?_⟩, ?_⟩
  · intro c hc d tag hd
    rw [hc.of_boot] at hd
    have hold : m.view (L.commitFid (1 - h.slot)) = some (.commit d tag) :=
      (Function.update_of_ne ((L.fids hother ht).2 hne).1 _ _).symm.trans hd
    rw [hgen]
    rcases hm.holding.2 with ⟨hv, -⟩ | ⟨st', hcur, hg, -⟩
    · exact absurd (hv _ hother _ (m.possible_view _) d tag hold) (Nat.not_lt_zero _)
    · obtain ⟨⟨d', tag', hd', hg'⟩, -⟩ := parseCommit_ok hcur.parsed
      obtain ⟨rfl, -⟩ := Content.commit.inj (Option.some.inj (hold.symm.trans hd'))
      omega
  · have hfile : installed auth L h m.view (L.recordFid h.slot) = m.view (L.recordFid h.slot) :=
      Function.update_of_ne (L.fids ht ht).1.symm _ _
    rw [← hnew]
    simp only [shown, payloadAt, hfile]

theorem always_install (hm : Staged auth L before new h m) :
    always (install auth L h) (fun _ n => n.sync = n ∧ n.view = installed auth L h m.view)
      (fun _ n => ∀ files, n.Survives files ∨ files = n.view →
        files = m.view ∨ files = installed auth L h m.view)
      (fun n => ∀ files, n.Survives files → files = m.view ∨ files = installed auth L h m.view) m := by
  set c : Content Tag := .commit h (auth.sign (.commit h)) with hc
  have hold : ∀ files, m.Survives files ∨ files = m.view → files = m.view := by
    rintro files (hf | hf)
    · exact survives_sync (hm.synced.symm ▸ hf)
    · exact hf
  have hnew : ∀ files, (m.write (L.commitFid h.slot) (some c)).Survives files ∨
      files = (m.write (L.commitFid h.slot) (some c)).view →
      files = m.view ∨ files = installed auth L h m.view := by
    rintro files (hf | hf)
    · rw [← hm.synced] at hf
      exact survives_single hf
    · exact .inr hf
  simp only [install, writeCommit, replaceFile, removeFile, bind_eq, always_bind, always_consult,
    hm.empty, Option.isSome_none, Bool.false_eq_true, if_false, pure_eq, always_done, always_putFile,
    if_true, syncOrFail, always_commitSync, always_fail]
  refine ⟨fun files hf => .inl (hold files (.inl hf)), ⟨fun files hf => hnew files (.inl hf), ?_, hnew⟩,
    fun files hf => .inl (hold files hf), hnew⟩
  exact ⟨rfl, rfl⟩

end Installing

section Calls

variable {Tag : Type} [DecidableEq Tag] {auth : Authenticator Tag} {L : Layout}
  {before : Except ObjErr (Option Data)} {m : TxnCache Tag}

theorem parseCommit_put {t g : Nat} {data : Data} {files : Files Tag} (ht : t < 2) (hg : 0 < g)
    (hsize : data.length ≤ uint32Max - recordHeaderSize - authTagSize)
    (hfile : files (L.recordFid t) = some (.record (recordHeader L t g g data.length) data
      (auth.sign (.record (recordHeader L t g g data.length) data)))) :
    parseCommit auth L (installed auth L (commitHeader auth L t t g g data.length
      (auth.sign (.record (recordHeader L t g g data.length) data)) false) files) t =
      .ok ⟨g, g, data.length, t, t, false⟩ := by
  set tag := auth.sign (.record (recordHeader L t g g data.length) data)
  have hrec : ∀ h : CommitHeader Tag, h.slot = t →
      installed auth L h files (L.recordFid t) = files (L.recordFid t) := by
    intro h he
    have hne : L.recordFid t ≠ L.commitFid h.slot := he ▸ (L.fids ht ht).1.symm
    exact Function.update_of_ne hne _ _
  have hrecord : validateRecord auth L (installed auth L
      (commitHeader auth L t t g g data.length tag false) files) t g g data.length tag = .ok () := by
    simp only [validateRecord, hrec _ (rfl : (commitHeader auth L t t g g data.length tag false).slot = t),
      hfile]
    rw [if_neg (by omega), if_neg (by omega), if_neg (by simp), if_neg (by simp [tag])]
  have hcommit : installed auth L (commitHeader auth L t t g g data.length tag false) files
      (L.commitFid t) = some (.commit (commitHeader auth L t t g g data.length tag false)
        (auth.sign (.commit (commitHeader auth L t t g g data.length tag false)))) :=
    Function.update_self _ _ _
  have hfits : commitFits L t (commitHeader auth L t t g g data.length tag false) = true := by
    simp [commitFits, commitHeader, Nat.pos_iff_ne_zero.mp hg]
  unfold parseCommit
  rw [hcommit]
  simp only [hfits, Bool.true_eq_false, if_false, ne_eq, not_true_eq_false]
  rw [if_neg (by simp [commitHeader, flagDeleted]), if_neg]
  · simp only [commitHeader, Bool.false_eq_true, if_false] at hrecord ⊢
    rw [hrecord]
  · simp only [commitHeader, Bool.false_eq_true, if_false, not_true_eq_false, false_or]
    omega

theorem parseCommit_delete {t g : Nat} {files : Files Tag} (hg : 0 < g) :
    parseCommit auth L (installed auth L (commitHeader auth L t uint8Max g 0 0 auth.emptyTag true)
      files) t = .ok ⟨g, 0, 0, t, uint8Max, true⟩ := by
  have hcommit : installed auth L (commitHeader auth L t uint8Max g 0 0 auth.emptyTag true) files
      (L.commitFid t) = some (.commit (commitHeader auth L t uint8Max g 0 0 auth.emptyTag true)
        (auth.sign (.commit (commitHeader auth L t uint8Max g 0 0 auth.emptyTag true)))) :=
    Function.update_self _ _ _
  have hfits : commitFits L t (commitHeader auth L t uint8Max g 0 0 auth.emptyTag true) = true := by
    simp [commitFits, commitHeader, Nat.pos_iff_ne_zero.mp hg]
  unfold parseCommit
  rw [hcommit]
  simp only [hfits, Bool.true_eq_false, if_false, ne_eq, not_true_eq_false]
  simp [commitHeader]

/-- The record that a put of this generation writes. -/
def recordOf (auth : Authenticator Tag) (L : Layout) (t g : Nat) (data : Data) : Content Tag :=
  .record (recordHeader L t g g data.length) data
    (auth.sign (.record (recordHeader L t g g data.length) data))

/-- The commit that a put of this generation writes. -/
def commitOf (auth : Authenticator Tag) (L : Layout) (t g : Nat) (data : Data) : CommitHeader Tag :=
  commitHeader auth L t t g g data.length (auth.sign (.record (recordHeader L t g g data.length) data))
    false

/-- The free slot is cleared and filled; what does not depend on it stays. -/
theorem always_fill {I : TxnCache Tag → Prop} {t g : Nat} (data : Data) (ht : t < 2)
    (hnext : nextState auth L m.view = .ok (t, g)) (hI : I m)
    (hcommit : ∀ n, I n → I (n.write (L.commitFid t) none))
    (hrecord : ∀ n v, v = none ∨ v = some (recordOf auth L t g data) → I n →
      I (n.write (L.recordFid t) v)) :
    always (stagePut auth L data)
      (fun c n => c = commitOf auth L t g data ∧
        data.length ≤ uint32Max - recordHeaderSize - authTagSize ∧
        ∃ n₀, n = n₀.sync ∧ I n₀ ∧ n₀.view (L.commitFid t) = none ∧
          n₀.view (L.recordFid t) = some (recordOf auth L t g data))
      (fun _ n => I n) I m := by
  have hsame : ∀ n : TxnCache Tag, n.view (L.commitFid t) = none →
      ∀ v, (n.write (L.recordFid t) v).view (L.commitFid t) = none := by
    intro n hn v
    exact (Function.update_of_ne (L.fids ht ht).1 _ _).trans hn
  unfold stagePut
  split
  · exact hI
  · simp only [bind_eq, always_bind, always_consult, hnext, always_liftCheck_ok]
    apply always_mono (always_removeFile hI hcommit) _ (fun _ _ hn => hn) (fun _ hn => hn)
    intro _ n hn
    apply always_mono (always_removeFile (I := fun n => I n ∧ n.view (L.commitFid t) = none) hn
      fun n hn => ⟨hrecord n none (.inl rfl) hn.1, hsame n hn.2 _⟩) _ (fun _ n hn => hn.1)
      (fun n hn => hn.1)
    rintro _ n ⟨hn, hgone⟩
    unfold writeRecord
    split
    · exact hn.1
    · next hsize =>
      simp only [bind_eq, always_bind, replaceFile, removeFile, always_consult, hgone,
        Option.isSome_none, Bool.false_eq_true, if_false, pure_eq, always_done, always_putFile, if_true,
        always_fail]
      have hfilled : I (n.write (L.recordFid t) (some (recordOf auth L t g data))) :=
        hrecord n _ (.inr rfl) hn.1
      refine ⟨hn.1, ?_, hn.1, hfilled⟩
      apply always_mono (always_syncOrFail (I := I) hfilled) _ (fun _ _ hn' => hn' ▸ hfilled)
        (fun _ hn' => hn')
      rintro _ n' rfl
      exact ⟨rfl, Nat.not_lt.mp hsize, _, rfl, hfilled, hsame n hn.2 _, Function.update_self _ _ _⟩

theorem stagePut_refused {data : Data} {e : ObjErr} {Q : CommitHeader Tag → TxnCache Tag → Prop}
    {R : ObjErr → TxnCache Tag → Prop} {C : TxnCache Tag → Prop}
    (hnext : nextState auth L m.view = .error e) (hR : ∀ e, R e m) :
    always (stagePut auth L data) Q R C m := by
  unfold stagePut
  split
  · exact hR _
  · simp only [bind_eq, always_bind, always_consult, hnext, always_liftCheck_error]
    exact hR _

theorem Holding.staged_put {t g : Nat} {data : Data} (h : Holding auth L before t g m)
    (hsize : data.length ≤ uint32Max - recordHeaderSize - authTagSize)
    (hempty : m.view (L.commitFid t) = none)
    (hfile : m.view (L.recordFid t) = some (recordOf auth L t g data)) :
    Staged auth L before (some data) (commitOf auth L t g data) m.sync := by
  refine ⟨h.sync, rfl, hempty, _, parseCommit_put h.1 h.pos hsize hfile, rfl, fun _ => rfl, ?_⟩
  have hslot : (commitOf auth L t g data).slot = t := rfl
  simp only [shown, payloadAt, hslot, Bool.false_eq_true, if_false, Cache.sync_view, hfile, recordOf]

theorem always_stagePut (h : Sound auth L m) (data : Data) :
    always (stagePut auth L data)
      (fun c n => Staged auth L (contents auth L m.view) (some data) c n)
      (fun _ n => Sound auth L n ∧ contents auth L n.view = contents auth L m.view)
      (fun n => Sound auth L n ∧ contents auth L n.view = contents auth L m.view) m := by
  cases hnext : nextState auth L m.view with
  | error e => exact stagePut_refused hnext fun _ => ⟨h, rfl⟩
  | ok p =>
    obtain ⟨t, g⟩ := p
    have hhold := h.nextState hnext
    have hkeep : ∀ n, Holding auth L (contents auth L m.view) t g n →
        Sound auth L n ∧ contents auth L n.view = contents auth L m.view :=
      fun n hn => ⟨hn.sound, hn.contents⟩
    apply always_mono (always_fill data hhold.1 hnext hhold (fun n hn => hn.write (.inr ⟨rfl, rfl⟩))
      (fun n v _ hn => hn.write (.inl rfl))) _ (fun _ => hkeep) hkeep
    rintro _ _ ⟨rfl, hsize, n, rfl, hn, hempty, hfile⟩
    exact hn.staged_put hsize hempty hfile

/-- The commit that a delete of this generation writes. -/
def tombstoneOf (auth : Authenticator Tag) (L : Layout) (t g : Nat) : CommitHeader Tag :=
  commitHeader auth L t uint8Max g 0 0 auth.emptyTag true

/-- The slot and the generation for a delete, if there is anything to delete. -/
def deleteState (auth : Authenticator Tag) (L : Layout) (files : Files Tag) : Except ObjErr (Nat × Nat) :=
  match recover auth L files with
  | .error e => .error e
  | .ok st =>
    if st.deleted then .error .fileNotFound
    else if st.generation = uint32Max then .error .wrongData
    else .ok (1 - st.commitSlot, st.generation + 1)

theorem nextState_of_deleteState {files : Files Tag} {t g : Nat}
    (h : deleteState auth L files = .ok (t, g)) : nextState auth L files = .ok (t, g) := by
  unfold deleteState at h
  unfold nextState
  cases hrec : recover auth L files with
  | error e => simp [hrec] at h
  | ok st =>
    simp only [hrec] at h ⊢
    split_ifs at h with hdeleted hlast
    rw [if_neg hlast]
    exact h

theorem always_clear {I : TxnCache Tag → Prop} {t g : Nat} (ht : t < 2)
    (hstate : deleteState auth L m.view = .ok (t, g)) (hI : I m)
    (hcommit : ∀ n, I n → I (n.write (L.commitFid t) none))
    (hrecord : ∀ n, I n → I (n.write (L.recordFid t) none)) :
    always (stageDelete auth L)
      (fun c n => c = tombstoneOf auth L t g ∧
        ∃ n₀, n = n₀.sync ∧ I n₀ ∧ n₀.view (L.commitFid t) = none)
      (fun _ n => I n) I m := by
  unfold deleteState at hstate
  simp only [stageDelete, bind_eq, always_bind, always_consult]
  cases hrec : recover auth L m.view with
  | error e => simp [hrec] at hstate
  | ok st =>
    simp only [hrec] at hstate
    split_ifs at hstate with hdeleted hlast
    obtain ⟨rfl, rfl⟩ := Prod.mk.inj (Except.ok.inj hstate)
    rw [always_liftCheck_ok, if_neg hdeleted, if_neg hlast]
    simp only [always_bind]
    apply always_mono (always_removeFile hI hcommit) _ (fun _ _ hn => hn) (fun _ hn => hn)
    intro _ n hn
    apply always_mono (always_removeFile
      (I := fun n => I n ∧ n.view (L.commitFid (1 - st.commitSlot)) = none) hn
      fun n hn => ⟨hrecord n hn.1, (Function.update_of_ne (L.fids ht ht).1 _ _).trans hn.2⟩) _
      (fun _ n hn => hn.1) (fun n hn => hn.1)
    rintro _ n ⟨hn, -⟩
    apply always_mono (always_syncOrFail (I := I) hn.1) _ (fun _ n' hn' => hn' ▸ hn.1)
      (fun _ hn' => hn')
    rintro _ n' rfl
    exact ⟨rfl, n, rfl, hn.1, hn.2⟩

theorem stageDelete_refused {e : ObjErr} {Q : CommitHeader Tag → TxnCache Tag → Prop}
    {R : ObjErr → TxnCache Tag → Prop} {C : TxnCache Tag → Prop}
    (hstate : deleteState auth L m.view = .error e) (hR : ∀ e, R e m) :
    always (stageDelete auth L) Q R C m := by
  unfold deleteState at hstate
  simp only [stageDelete, bind_eq, always_bind, always_consult]
  cases hrec : recover auth L m.view with
  | error e => exact hR _
  | ok st =>
    simp only [hrec] at hstate
    rw [always_liftCheck_ok]
    split_ifs at hstate ⊢
    · exact hR _
    · exact hR _

theorem Holding.staged_delete {t g : Nat} (h : Holding auth L before t g m)
    (hempty : m.view (L.commitFid t) = none) :
    Staged auth L before none (tombstoneOf auth L t g) m.sync :=
  ⟨h.sync, rfl, hempty, _, parseCommit_delete h.pos, rfl, fun hd => absurd hd (by simp), rfl⟩

theorem always_stageDelete (h : Sound auth L m) :
    always (stageDelete auth L)
      (fun c n => Staged auth L (contents auth L m.view) none c n)
      (fun _ n => Sound auth L n ∧ contents auth L n.view = contents auth L m.view)
      (fun n => Sound auth L n ∧ contents auth L n.view = contents auth L m.view) m := by
  cases hstate : deleteState auth L m.view with
  | error e => exact stageDelete_refused hstate fun _ => ⟨h, rfl⟩
  | ok p =>
    obtain ⟨t, g⟩ := p
    have hhold := h.nextState (nextState_of_deleteState hstate)
    have hkeep : ∀ n, Holding auth L (contents auth L m.view) t g n →
        Sound auth L n ∧ contents auth L n.view = contents auth L m.view :=
      fun n hn => ⟨hn.sound, hn.contents⟩
    apply always_mono (always_clear hhold.1 hstate hhold (fun n hn => hn.write (.inr ⟨rfl, rfl⟩))
      (fun n hn => hn.write (.inl rfl))) _ (fun _ => hkeep) hkeep
    rintro _ _ ⟨rfl, n, rfl, hn, hempty⟩
    exact hn.staged_delete hempty

end Calls

/-! Runs. -/

inductive Call
  | put (data : Data)
  | delete

section Runs

variable {Tag : Type} [DecidableEq Tag] (auth : Authenticator Tag) (L : Layout)

/-- The call up to its first flash_commit_sync. -/
def Call.stage : Call → Op Tag (CommitHeader Tag)
  | .put data => stagePut auth L data
  | .delete => stageDelete auth L

def Call.run : Call → Op Tag Unit
  | .put data => Txn.put auth L data
  | .delete => Txn.delete auth L

/-- What the call is to install. -/
def Call.installs : Call → Option Data
  | .put data => some data
  | .delete => none

/-- The files that may be found after a call: what the running code sees, unless the power went, and
what survives when it goes now. -/
def Found (r : Outcome ObjErr Unit × TxnCache Tag) (files : Files Tag) : Prop :=
  r.2.Survives files ∨ (r.1 ≠ .lost ∧ files = r.2.view)

/-- The call fails before it writes its commit. -/
def FailsEarly (c : Call) (m : TxnCache Tag) (rs : List Reply) : Prop :=
  ∃ e n, perform (c.stage auth L) m rs = (.fail e, n)

/-- The states after calls that each succeed, fail before the commit is written, or are ended by a
power loss. -/
inductive Reached : TxnCache Tag → Prop
  | start (m : TxnCache Tag) (h : ∀ s < 2, ∀ c, m.Possible (L.commitFid s) c → c = none) : Reached m
  | done (m : TxnCache Tag) (c : Call) (rs : List Reply) (h : Reached m)
      (hdone : (perform (c.run auth L) m rs).1 = .done ()) : Reached (perform (c.run auth L) m rs).2
  | early (m : TxnCache Tag) (c : Call) (rs : List Reply) (h : Reached m)
      (hearly : FailsEarly auth L c m rs) : Reached (perform (c.run auth L) m rs).2
  | lost (m : TxnCache Tag) (c : Call) (rs : List Reply) (files : Files Tag) (h : Reached m)
      (hlost : (perform (c.run auth L) m rs).2.Survives files) : Reached (Cache.boot files ())

variable {auth L} {m : TxnCache Tag}

theorem Call.run_eq (c : Call) : c.run auth L = (c.stage auth L).bind (install auth L) := by
  cases c <;> rfl

theorem always_stage (c : Call) (h : Sound auth L m) :
    always (c.stage auth L)
      (fun d n => Staged auth L (contents auth L m.view) c.installs d n)
      (fun _ n => Sound auth L n ∧ contents auth L n.view = contents auth L m.view)
      (fun n => Sound auth L n ∧ contents auth L n.view = contents auth L m.view) m := by
  cases c with
  | put data => exact always_stagePut h data
  | delete => exact always_stageDelete h

/-- What may be found after a call. -/
def Intact (auth : Authenticator Tag) (L : Layout) (before : Except ObjErr (Option Data))
    (new : Option Data) (files : Files Tag) : Prop :=
  Sound auth L (Cache.boot files ()) ∧
    (contents auth L files = before ∨ contents auth L files = .ok new)

theorem Sound.intact {before : Except ObjErr (Option Data)} {new : Option Data} {n : TxnCache Tag}
    {files : Files Tag} (h : Sound auth L n) (hb : Txn.contents auth L n.view = before)
    (hf : n.Survives files ∨ files = n.view) : Intact auth L before new files := by
  have hp : ∀ k, n.Possible k (files k) := by
    intro k
    rcases hf with hf | rfl
    · exact hf.possible k
    · exact n.possible_view k
  exact ⟨h.boot hp, .inl ((h.contents hp).trans hb)⟩

theorem Staged.intact {before : Except ObjErr (Option Data)} {new : Option Data}
    {d : CommitHeader Tag} {n : TxnCache Tag} {files : Files Tag} (h : Staged auth L before new d n)
    (hf : files = n.view ∨ files = installed auth L d n.view) : Intact auth L before new files := by
  rcases hf with rfl | rfl
  · exact h.holding.sound.intact h.holding.contents (.inr rfl)
  · obtain ⟨st, hcur, hnew⟩ := h.current
    exact ⟨.inr ⟨_, st, hcur⟩, .inr (hcur.contents.trans (congrArg _ hnew))⟩

theorem always_call (c : Call) (h : Sound auth L m) :
    always (c.run auth L)
      (fun _ n => Sound auth L n ∧ contents auth L n.view = .ok c.installs ∧ n.sync = n)
      (fun _ n => ∀ files, n.Survives files ∨ files = n.view →
        Intact auth L (contents auth L m.view) c.installs files)
      (fun n => ∀ files, n.Survives files →
        Intact auth L (contents auth L m.view) c.installs files) m := by
  rw [c.run_eq, always_bind]
  apply always_mono (always_stage c h)
  · intro d n hn
    apply always_mono (always_install hn)
    · rintro _ n' ⟨hsync, hview⟩
      obtain ⟨st, hcur, hnew⟩ := hn.current
      have hboot : n' = Cache.boot (installed auth L d n.view) () := by
        rw [← hview, ← hsync]
        rfl
      subst hboot
      exact ⟨.inr ⟨_, st, hcur⟩, hcur.contents.trans (congrArg _ hnew), rfl⟩
    · exact fun _ n' hn' files hf => hn.intact (hn' files hf)
    · exact fun n' hn' files hf => hn.intact (hn' files hf)
  · exact fun _ n hn files hf => hn.1.intact hn.2 hf
  · exact fun n hn files hf => hn.1.intact hn.2 (.inl hf)

theorem Sound.found (h : Sound auth L m) (c : Call) (rs : List Reply) {files : Files Tag}
    (hf : Found (perform (c.run auth L) m rs) files) :
    Intact auth L (Txn.contents auth L m.view) c.installs files := by
  have hsound := always_sound (always_call c h) rs
  generalize hr : perform (c.run auth L) m rs = r at hf hsound
  obtain ⟨out, n⟩ := r
  cases out with
  | done a =>
    obtain ⟨hn, hnew, -⟩ := hsound
    have hf' : n.Survives files ∨ files = n.view := hf.imp_right And.right
    have hp : ∀ k, n.Possible k (files k) := by
      intro k
      rcases hf' with hf' | rfl
      · exact hf'.possible k
      · exact n.possible_view k
    exact ⟨hn.boot hp, .inr ((hn.contents hp).trans hnew)⟩
  | fail e => exact hsound files (hf.imp_right And.right)
  | lost =>
    rcases hf with hf | ⟨hne, -⟩
    · exact hsound files hf
    · exact absurd rfl hne

theorem Reached.sound (h : Reached auth L m) : Sound auth L m := by
  induction h with
  | start m h =>
    refine .inl fun s hs c hc => ?_
    rw [h s hs c hc]
    exact fun _ _ he => absurd he (by simp)
  | done m c rs _ hdone ih =>
    have hsound := always_sound (always_call c ih) rs
    generalize perform (c.run auth L) m rs = r at hdone hsound
    obtain ⟨out, n⟩ := r
    have hout : out = .done () := hdone
    subst hout
    exact hsound.1
  | early m c rs _ hearly ih =>
    obtain ⟨e, n, he⟩ := hearly
    have hrun : perform (c.run auth L) m rs = (.fail e, n) := by
      rw [c.run_eq]
      exact perform_bind_fail he
    have hsound := always_sound (always_stage c ih) rs
    rw [he] at hsound
    rw [hrun]
    exact hsound.1
  | lost m c rs files _ hlost ih => exact (ih.found c rs (.inl hlost)).1

end Runs

/-- However a put or a delete ends, what is recovered afterwards is what was there before or what
the call was to install, and the two slots are never valid with the same generation. -/
theorem interrupted_call_atomic {Tag : Type} [DecidableEq Tag] (auth : Authenticator Tag) (L : Layout)
    (m : TxnCache Tag) (hm : Reached auth L m) (c : Call) (rs : List Reply) (files : Files Tag)
    (hf : Found (perform (c.run auth L) m rs) files) :
    (contents auth L files = contents auth L m.view ∨ contents auth L files = .ok c.installs) ∧
      GenerationsDiffer auth L files := by
  obtain ⟨hsound, hcontents⟩ := hm.sound.found c rs hf
  exact ⟨hcontents, hsound.differ (Cache.possible_view _)⟩

def sampleLayout : Layout where
  namespaceId := 1
  objectType := 2
  objectId := 3
  recordFid := fun s => 0x100 + s
  commitFid := fun s => 0x200 + s
  distinct := by decide
  proper := by decide

/-- An authenticator whose tags are the messages themselves. -/
def sampleAuth : Authenticator (List Nat) where
  sign
    | .record h payload => [0, h.slot, h.namespaceId, h.objectType, h.objectId, h.generation,
        h.recordId, h.payloadSize, h.recordFid] ++ payload.map BitVec.toNat
    | .commit h => [1, h.slot, h.namespaceId, h.objectType, h.objectId, h.generation, h.recordId,
        h.recordFid, h.recordSlot, h.flags, h.payloadSize] ++ h.recordTag
  emptyTag := []

def emptyCache : TxnCache (List Nat) := Cache.boot (fun _ => none) ()

/-- One payload is stored. -/
def storedOnce : TxnCache (List Nat) := (perform (Txn.put sampleAuth sampleLayout [1]) emptyCache []).2

/-- The second put reports that its last flash_commit_sync failed. -/
def failedLate : TxnCache (List Nat) :=
  (perform (Txn.put sampleAuth sampleLayout [2]) storedOnce [.ok, .ok, .ok, .refused false]).2

/-- The commit of the second payload is not durable yet when the third put removes the first: if
only the removal survives, nothing is recovered. -/
theorem late_failure_loses_object :
    Found (perform ((Call.put [3]).run sampleAuth sampleLayout) failedLate [.ok, .powerLoss])
      (Function.update failedLate.flash 0x200 none) ∧
    contents sampleAuth sampleLayout failedLate.view = .ok (some [2]) ∧
    contents sampleAuth sampleLayout (Function.update failedLate.flash 0x200 none) =
      .error .fileNotFound := by
  refine ⟨.inl ⟨[(0x200, none)], ?_, rfl⟩, by decide +kernel, by decide +kernel⟩
  decide +kernel

/-- A second put that the power ends is as if it had not been called, or it is complete. -/
theorem second_put_atomic :
    contents sampleAuth sampleLayout storedOnce.view = .ok (some [1]) ∧
    ∀ rs files, Found (perform ((Call.put [2]).run sampleAuth sampleLayout) storedOnce rs) files →
      contents sampleAuth sampleLayout files = contents sampleAuth sampleLayout storedOnce.view ∨
      contents sampleAuth sampleLayout files = .ok (some [2]) := by
  have hempty : Reached sampleAuth sampleLayout emptyCache := by
    refine .start _ fun s _ c hc => ?_
    rw [hc.of_boot]
  have hstored : Reached sampleAuth sampleLayout storedOnce :=
    .done emptyCache (.put [1]) [] hempty (by decide +kernel)
  refine ⟨by decide +kernel, fun rs files hf => ?_⟩
  exact (interrupted_call_atomic sampleAuth sampleLayout storedOnce hstored (.put [2]) rs files hf).1

end Txn

end KeyWallet
