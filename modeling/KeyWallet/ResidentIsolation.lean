import KeyWallet.ResidentAtomic

/-! Which files an operation on a resident slot changes. Deleting a file also removes its entry from
the metadata file EF_META, whose id is that of one of the record files. -/
namespace KeyWallet

open CrashProgram

namespace Container.Resident

def efMeta : Nat := 0xe010
def efPhy : Nat := 0xe020

/-- The entries of the static file table. -/
def staticFids : List Nat :=
  [0xcc00, 0xcc01, 0xce00, 0xce01, 0xce03, 0xce04, 0xc000, 0x1080, 0x1090, 0x1091, 0x1100, 0x1102,
    0x1103, 0xc001, 0x1101, 0x10a0, 0x1084, efPhy]

def systemFids : List Nat := efMeta :: staticFids

/-- The marker, the manifests and the records of a slot, those of the older layout included. -/
def Own (slot k : Nat) : Prop :=
  k = efCred + slot ∨ (∃ s < 2, k = manifestFid slot s) ∨
  ∃ s < 2, ∃ t ∈ objectTypes, k = recordFid slot s t ∨ k = recordFidLegacy slot s t

/-- How the metadata file is read: what is left of it once the entry of a file has been removed, if
it has one. -/
structure MetaFormat where
  remove : Content → Nat → Option Content
  shrinks : ∀ {c k rest}, remove c k = some rest → rest.size < c.size

/-- Deletions as file_delete_no_commit makes them: the entry in EF_META goes first, then the file,
and the result is good only if both were. -/
def withMeta {α : Type} (F : MetaFormat) : Store α → Store α
  | .done a => .done a
  | .fail e => .fail e
  | .look next => .look fun s v => withMeta F (next s v)
  | .vars f next => .vars f (withMeta F next)
  | .emit e next => .emit e (withMeta F next)
  | .put k (some c) next => .put k (some c) fun b => withMeta F (next b)
  | .put k none next => .look fun _ files =>
    match (files efMeta).bind fun c => F.remove c k with
    | none => .put k none fun b => withMeta F (next b)
    | some rest => .put efMeta (some rest) fun b => .put k none fun b' => withMeta F (next (b && b'))
  | .write k (some c) next => .write k (some c) (withMeta F next)
  | .write k none next => .look fun _ files =>
    match (files efMeta).bind fun c => F.remove c k with
    | none => .write k none (withMeta F next)
    | some rest => .write efMeta (some rest) (.write k none (withMeta F next))
  | .commit next => .commit fun b => withMeta F (next b)

/-- The operations on a slot that may write; resident_container_can_create only reads. -/
inductive Operation
  | call (c : Call)
  | delete

def Operation.run (slot : Nat) (legacy : Bool) : Operation → Store Unit
  | .call c => c.run slot legacy
  | .delete => containerDelete slot legacy

/-- All but the slot's own files is as before, the system files in any case. -/
def Kept (slot : Nat) (before after : StoreMachine) : Prop :=
  ∀ k, ¬ Own slot k ∨ k ∈ systemFids →
    after.view k = before.view k ∧ (after.flash k = before.flash k ∨ after.flash k = before.view k)

/-- The slot's own files are all absent. -/
def Absent (slot : Nat) (files : Files) : Prop := ∀ k, Own slot k → k ∉ systemFids → files k = none

/-- Operations on the slot change only its own files, and an empty slot can be filled. The static
entries are always found, and `c₀` is what EF_META holds. -/
def Isolated (F : MetaFormat) (slot : Nat) (legacy : Bool) (c₀ : Option Content) : Prop :=
  ∀ m : StoreMachine, m.view efMeta = c₀ → (∀ k ∈ staticFids, m.view k ≠ none) →
    (∀ (op : Operation) rs, Kept slot m (exec (withMeta F (op.run slot legacy)) m rs).2.1) ∧
    (Absent slot m.view → Absent slot m.flash → canCreate slot legacy m.view = true ∧
      ∀ (c : Call) ws, c.writes slot legacy m.view = .ok ws →
        (exec (withMeta F (c.run slot legacy)) m []).1 = .done ())

/-! The slot's own files. -/

theorem recordFidLegacy_eq (slot s : Nat) {t : Nat} (ht : t ∈ objectTypes) : ∃ p, 0xd3 ≤ p ∧ p ≤ 0xdd ∧
    recordFidLegacy slot s t = p * 256 + slot % 256 := by
  have hslot : slot % 256 < 256 := Nat.mod_lt _ (by decide)
  rw [mem_objectTypes] at ht
  simp only [recordFidLegacy]
  split_ifs
  · exact ⟨0xdb, by decide, by decide, rfl⟩
  · exact ⟨0xdc, by decide, by decide, rfl⟩
  · exact ⟨0xd3 + t - 1, by omega, by omega, by omega⟩
  · exact ⟨0xd7 + t - 1, by omega, by omega, by omega⟩

theorem Own.range {slot k : Nat} (hslot : slot < 256) (h : Own slot k) :
    ∃ p, (p = 0xcf ∨ 0xd1 ≤ p ∧ p ≤ 0xe3) ∧ k = p * 256 + slot := by
  have hmod : slot % 256 = slot := Nat.mod_eq_of_lt hslot
  rcases h with rfl | ⟨s, -, rfl⟩ | ⟨s, hs, t, ht, rfl | rfl⟩
  · exact ⟨0xcf, .inl rfl, rfl⟩
  · unfold manifestFid
    rw [hmod]
    split_ifs
    · exact ⟨0xd1, .inr (by decide), rfl⟩
    · exact ⟨0xd2, .inr (by decide), rfl⟩
  · have hrange := recordPrefix_range s (mem_slots hs) t ht
    rw [recordFid_eq ht, hmod]
    exact ⟨_, .inr ⟨by omega, hrange.2⟩, rfl⟩
  · obtain ⟨p, h1, h2, he⟩ := recordFidLegacy_eq slot s ht
    rw [he, hmod]
    exact ⟨p, .inr ⟨by omega, by omega⟩, rfl⟩

theorem Own.unique {slot slot' k : Nat} (hslot : slot < 256) (hslot' : slot' < 256)
    (h : Own slot k) (h' : Own slot' k) : slot = slot' := by
  obtain ⟨p, -, he⟩ := h.range hslot
  obtain ⟨p', -, he'⟩ := h'.range hslot'
  omega

theorem Own.not_system {slot k : Nat} (hslot : slot < 256) (hmeta : slot ≠ 0x10)
    (hphy : slot ≠ 0x20) (h : Own slot k) : k ∉ systemFids := by
  obtain ⟨p, hp, rfl⟩ := h.range hslot
  simp only [systemFids, staticFids, efMeta, efPhy, List.mem_cons, List.not_mem_nil, or_false]
  omega

/-! The operations touch nothing else. -/

theorem manifest_own (slot s : Nat) : Own slot (layout.manifestFid slot s) := by
  rw [layout_manifestFid]
  by_cases hs : s = 0
  · exact .inr (.inl ⟨0, by decide, by rw [hs]⟩)
  · exact .inr (.inl ⟨1, by decide, by simp [manifestFid, hs]⟩)

theorem allocate_own {slot s r k : Nat} {w : Write}
    (h : layout.recordAllocate slot s w = .ok (r, k)) : Own slot k := by
  simp only [layout] at h
  split at h
  · exact absurd h (by simp)
  · next hok =>
    have hk : recordFid slot s w.objectType = k := (Prod.mk.inj (Except.ok.inj h)).2
    have ht : w.objectType ∈ objectTypes := by
      apply objectTypeValid_iff.mp
      by_contra hne
      exact hok (.inr (by simpa using hne))
    by_cases hs : s = 0
    · exact .inr (.inr ⟨0, by decide, _, ht, .inl (by rw [← hk, hs])⟩)
    · refine .inr (.inr ⟨1, by decide, _, ht, .inl ?_⟩)
      rw [← hk]
      simp [recordFid, hs]

theorem recordFid_own {slot k : Nat} {o : Descriptor} (hslot : slot < 256)
    (h : layout.recordFid slot o = .ok k) : Own slot k := by
  simp only [layout, Nat.mod_eq_of_lt hslot] at h
  split at h
  · exact absurd h (by simp)
  · next hok =>
    have hk : o.recordId = k := Except.ok.inj h
    have hvalid : recordIdValid slot o = true := by
      by_contra hne
      exact hok (.inr (by simpa using hne))
    subst hk
    unfold recordIdValid at hvalid
    split at hvalid
    · exact absurd hvalid (by decide)
    · next htype =>
      have ht : o.objectType ∈ objectTypes := by
        apply objectTypeValid_iff.mp
        by_contra hne
        exact htype (.inl (by simpa using hne))
      split at hvalid
      · next hfid =>
        rcases hfid with hfid | hfid
        · exact .inr (.inr ⟨0, by decide, _, ht, .inl hfid⟩)
        · exact .inr (.inr ⟨1, by decide, _, ht, .inl hfid⟩)
      · split at hvalid
        · simp only [Bool.or_eq_true, decide_eq_true_eq] at hvalid
          rcases hvalid with hfid | hfid
          · exact .inr (.inr ⟨0, by decide, _, ht, .inr hfid⟩)
          · exact .inr (.inr ⟨1, by decide, _, ht, .inr hfid⟩)
        · exact absurd hvalid (by decide)

theorem record_own {slot s t : Nat} (hslot : slot < 256) (hs : s < 2) (ht : t ∈ objectTypes) :
    Own slot (recordFid (slot % 256) s t) := by
  rw [Nat.mod_eq_of_lt hslot]
  exact .inr (.inr ⟨s, hs, t, ht, .inl rfl⟩)

theorem activate_own {slot : Nat} (hslot : slot < 256) : Touches (Own slot) (layout.activate slot) := by
  apply (activate_confined slot).touches
  rintro k v rfl
  exact .inl (by rw [Nat.mod_eq_of_lt hslot])

theorem retire_own {slot : Nat} (hslot : slot < 256) (candidates : Nat → Option Manifest)
    (next : Manifest) (τ : Nat) : Touches (Own slot) (layout.retire slot candidates next τ) := by
  have hpart : ∀ s < 2, Touches (Own slot)
      (sweepSlot (layout.manifestFid slot s) (recordFid (slot % 256) s) objectTypes next τ s) := by
    intro s hs
    apply (sweepSlot_confined (layout.manifestFid slot s) (recordFid (slot % 256) s) objectTypes
      next τ s).touches
    rintro k v ⟨-, ⟨rfl, -⟩ | ⟨-, t, ht, rfl⟩⟩
    · exact manifest_own slot s
    · exact record_own hslot hs ht
  apply Touches.bind (hpart 0 (by decide))
  intro _
  apply Touches.bind (hpart 1 (by decide))
  exact fun _ _ => trivial

theorem deactivate_own {slot : Nat} (hslot : slot < 256) :
    Touches (Own slot) (layout.deactivate slot) := by
  have hpart : ∀ s < 2, Touches (Own slot)
      (forEach (fun t => discardFile (recordFid (slot % 256) s t)) objectTypes) := by
    intro s hs
    apply forEach_touches
    exact fun t ht => discardFile_touches (record_own hslot hs ht)
  apply Touches.bind (hpart 0 (by decide))
  intro _
  apply Touches.bind (hpart 1 (by decide))
  intro _
  exact removeFile_touches (.inl (by rw [Nat.mod_eq_of_lt hslot]))

theorem Operation.touches {slot : Nat} (hslot : slot < 256) (legacy : Bool) (op : Operation) :
    Touches (Own slot) (op.run slot legacy) := by
  cases op with
  | call c =>
    intro s v
    apply Touches.bind (liftCheck_touches _)
    intro ws s' v'
    show Touches (Own slot) (ite _ _ _)
    split_ifs
    · exact trivial
    · exact update_touches (manifest_own slot) (fun s w r k h => allocate_own h) (activate_own hslot)
        (retire_own hslot) rfl ws legacy true
  | delete =>
    intro s v
    show Touches (Own slot) (ite _ _ _)
    split_ifs
    · exact containerDelete_touches (manifest_own slot) (fun o k h => recordFid_own hslot h)
        (deactivate_own hslot) legacy
    · exact trivial

/-! Without an entry for the files it touches, a program runs as if there were no metadata. -/
section Metadata

variable {F : MetaFormat} {P : Nat → Prop} {α : Type} {m : StoreMachine}

/-- EF_META has no entry for these files. -/
def Unlisted (F : MetaFormat) (P : Nat → Prop) (c₀ : Option Content) : Prop :=
  ∀ k, P k → (c₀.bind fun c => F.remove c k) = none

theorem exec_withMeta {p : Store α} (hp : Touches P p) (hmeta : ¬ P efMeta)
    (hnone : Unlisted F P (m.view efMeta)) (rs : List Reply) :
    exec (withMeta F p) m rs = exec p m rs := by
  have hwrite : ∀ (n : StoreMachine) k v, P k → Unlisted F P (n.view efMeta) →
      Unlisted F P ((n.write k v).view efMeta) := by
    intro n k v hk hn
    have hne : efMeta ≠ k := fun he => hmeta (he ▸ hk)
    show Unlisted F P (Function.update n.view k v efMeta)
    rw [Function.update_of_ne hne]
    exact hn
  induction p generalizing m rs with
  | done a => rfl
  | fail e => rfl
  | look next ih => exact ih m.vars m.view (hp _ _) hnone rs
  | vars f next ih => exact ih (m := m.setVars (f m.vars)) hp hnone rs
  | emit e next ih => exact ih (m := m.record e) hp hnone rs
  | put k v next ih =>
    have hstep : exec (withMeta F (.put k v next)) m rs =
        exec (.put k v fun b => withMeta F (next b)) m rs := by
      cases v with
      | some c => rfl
      | none => simp only [withMeta, exec, hnone k hp.1]
    rw [hstep]
    rcases rs with _ | ⟨_ | (_ | _) | _, rs⟩
    · exact ih true (hp.2 true) (hwrite m k v hp.1 hnone) []
    · exact ih true (hp.2 true) (hwrite m k v hp.1 hnone) rs
    · exact ih false (hp.2 false) hnone rs
    · exact ih false (hp.2 false) (hwrite m k v hp.1 hnone) rs
    · rfl
  | write k v next ih =>
    have hstep : exec (withMeta F (.write k v next)) m rs =
        exec (.write k v (withMeta F next)) m rs := by
      cases v with
      | some c => rfl
      | none => simp only [withMeta, exec, hnone k hp.1]
    rw [hstep]
    rcases rs with _ | ⟨_ | (_ | _) | _, rs⟩
    · exact ih hp.2 (hwrite m k v hp.1 hnone) []
    · exact ih hp.2 (hwrite m k v hp.1 hnone) rs
    · exact ih (m := m.drop k) hp.2 hnone rs
    · exact ih hp.2 (hwrite m k v hp.1 hnone) rs
    · rfl
  | commit next ih =>
    rcases rs with _ | ⟨_ | (_ | _) | _, rs⟩
    · exact ih true (m := m.sync) (hp true) hnone []
    · exact ih true (m := m.sync) (hp true) hnone rs
    · exact ih false (hp false) hnone rs
    · exact ih false (m := m.sync) (hp false) hnone rs
    · rfl

end Metadata

theorem Absent.vacant {slot : Nat} {files : Files} (h : Absent slot files) :
    Vacant slot files := by
  intro s hs
  apply h
  · exact .inr (.inl ⟨s, hs, rfl⟩)
  · have hrange := manifestFid_range slot s
    simp only [systemFids, staticFids, efMeta, efPhy, List.mem_cons, List.not_mem_nil, or_false]
    omega

theorem canCreate_of_absent {slot : Nat} {legacy : Bool} {files : Files} (h : Absent slot files)
    (hrecords : ∀ s < 2, ∀ t ∈ objectTypes, recordFid slot s t ∉ systemFids) :
    canCreate slot legacy files = true := by
  have hvacant := h.vacant
  have hrecord : ∀ s < 2, ∀ t ∈ objectTypes, files (recordFid slot s t) = none := by
    intro s hs t ht
    exact h _ (.inr (.inr ⟨s, hs, t, ht, .inl rfl⟩)) (hrecords s hs t ht)
  simp only [canCreate, hvacant 0 (by decide), hvacant 1 (by decide), Option.isSome_none,
    Bool.or_self, Bool.false_eq_true, if_false, List.all_eq_true]
  intro s hs t ht
  have hs2 : s < 2 := by
    simp only [List.mem_cons, List.not_mem_nil, or_false] at hs
    omega
  simp only [hrecord s hs2 t ht]

theorem first_call_done {slot : Nat} (hslot : slot < 256) {legacy : Bool} {m : StoreMachine}
    (hview : Vacant slot m.view) (hflash : Vacant slot m.flash)
    (hcan : canCreate slot legacy m.view = true) {c : Call} {ws : List Write}
    (hc : c.writes slot legacy m.view = .ok ws) :
    (exec (c.run slot legacy) m []).1 = .done () := by
  have hstart : Settled (scheme hslot) m none fun _ _ => none := settled_of_vacant hview hflash
  have hrun : exec (c.run slot legacy) m [] = exec (update layout slot ws legacy true) m [] := by
    show exec ((liftCheck (c.writes slot legacy m.view)).bind _) m [] = _
    rw [hc]
    show exec (ite _ _ _) m [] = _
    rw [if_neg]
    simp [hcan]
  have hws := c.writes_valid hc
  have hcalm := hstart.update legacy true trivial hws (room hslot hstart.1 hws)
  rw [hrun]
  unfold calm Ends at hcalm
  split at hcalm
  · next u hu => exact hu
  · exact hcalm.elim
  · exact hcalm.elim

theorem isolated_of_apart {F : MetaFormat} {slot : Nat} {legacy : Bool} {c₀ : Option Content}
    (hslot : slot < 256) (hmeta : slot ≠ 0x10) (hphy : slot ≠ 0x20)
    (hnone : Unlisted F (Own slot) c₀) : Isolated F slot legacy c₀ := by
  intro m hm _
  have hsystem : ∀ k, Own slot k → k ∉ systemFids := fun k hk => hk.not_system hslot hmeta hphy
  have hown : ¬ Own slot efMeta := fun h => hsystem _ h (by decide)
  have hexec : ∀ (op : Operation) rs,
      exec (withMeta F (op.run slot legacy)) m rs = exec (op.run slot legacy) m rs :=
    fun op rs => exec_withMeta (op.touches hslot legacy) hown (hm ▸ hnone) rs
  refine ⟨fun op rs k hk => ?_, fun hview hflash => ?_⟩
  · rw [hexec]
    apply (op.touches hslot legacy).frame
    exact fun h => hk.elim (fun hn => hn h) (hsystem k h)
  · have hcan : canCreate slot legacy m.view = true := by
      apply canCreate_of_absent hview
      intro s hs t ht
      exact hsystem _ (.inr (.inr ⟨s, hs, t, ht, .inl rfl⟩))
    refine ⟨hcan, fun c ws hc => ?_⟩
    have hrun := hexec (.call c) []
    rw [show withMeta F (c.run slot legacy) = withMeta F ((Operation.call c).run slot legacy) from rfl,
      hrun]
    exact first_call_done hslot (hview.vacant) (hflash.vacant) hcan hc

/-! A deletion takes the entries of the deleted files with it. -/
section Purge

variable {F : MetaFormat} {α β : Type} {c : Content} {k : Nat} {m n : StoreMachine}

theorem withMeta_bind (p : Store α) (g : α → Store β) :
    withMeta F (p.bind g) = (withMeta F p).bind fun a => withMeta F (g a) := by
  induction p with
  | done a => rfl
  | fail e => rfl
  | look next ih => simp only [Prog.bind, withMeta, ih]
  | vars f next ih => simp only [Prog.bind, withMeta, ih]
  | emit e next ih => simp only [Prog.bind, withMeta, ih]
  | put j v next ih =>
    cases v with
    | some c => simp only [Prog.bind, withMeta, ih]
    | none =>
      simp only [Prog.bind, withMeta, ih]
      congr 1
      funext s files
      split <;> simp only [Prog.bind]
  | write j v next ih =>
    cases v with
    | some c => simp only [Prog.bind, withMeta, ih]
    | none =>
      simp only [Prog.bind, withMeta, ih]
      congr 1
      funext s files
      split <;> simp only [Prog.bind]
  | commit next ih => simp only [Prog.bind, withMeta, ih]

/-- The metadata is still as it was and so is the file, or the metadata has shrunk. -/
def Listed (c : Content) (k : Nat) (n : StoreMachine) : Prop :=
  (n.view efMeta = some c ∧ n.view k ≠ none) ∨ ∃ rest, n.view efMeta = some rest ∧ rest.size < c.size

/-- Deleted files stay deleted, and no file goes without its entry. -/
def Purged (c : Content) (k : Nat) (m n : StoreMachine) : Prop :=
  (∀ j ≠ efMeta, m.view j = none → n.view j = none) ∧ (Listed c k m → Listed c k n)

theorem Purged.refl : Purged c k m m := ⟨fun _ _ h => h, fun h => h⟩

theorem Purged.trans {l : StoreMachine} (h : Purged c k l m) (h' : Purged c k m n) :
    Purged c k l n :=
  ⟨fun j hj hl => h'.1 j hj (h.1 j hj hl), fun hl => h'.2 (h.2 hl)⟩

theorem view_deleted {j i : Nat} (h : m.view i = none) : (m.write j none).view i = none := by
  show Function.update m.view j none i = none
  by_cases he : i = j
  · rw [he, Function.update_self]
  · rw [Function.update_of_ne he, h]

theorem purged_unlisted {j : Nat} (hj : j ≠ efMeta) (hk : (F.remove c k).isSome = true)
    (hnone : ((m.view efMeta).bind fun c => F.remove c j) = none) :
    Purged c k m (m.write j none) := by
  have hmeta : (m.write j none).view efMeta = m.view efMeta := Function.update_of_ne hj.symm _ _
  refine ⟨fun i _ hi => view_deleted hi, ?_⟩
  rintro (⟨hc, hpresent⟩ | ⟨rest, hrest, hsize⟩)
  · refine .inl ⟨hmeta.trans hc, ?_⟩
    have hne : k ≠ j := by
      rintro rfl
      rw [hc, Option.bind_some] at hnone
      rw [hnone] at hk
      exact absurd hk (by simp)
    show Function.update m.view j none k ≠ none
    rw [Function.update_of_ne hne]
    exact hpresent
  · exact .inr ⟨rest, hmeta.trans hrest, hsize⟩

theorem purged_listed {j : Nat} {rest : Content} (hj : j ≠ efMeta)
    (hrest : ((m.view efMeta).bind fun c => F.remove c j) = some rest) :
    Purged c k m ((m.write efMeta (some rest)).write j none) := by
  have hmeta : ((m.write efMeta (some rest)).write j none).view efMeta = some rest := by
    show Function.update (Function.update m.view efMeta (some rest)) j none efMeta = some rest
    rw [Function.update_of_ne hj.symm, Function.update_self]
  obtain ⟨cur, hcur, hremove⟩ := Option.bind_eq_some_iff.mp hrest
  have hsize := F.shrinks hremove
  have hstays : ∀ i ≠ efMeta, m.view i = none →
      ((m.write efMeta (some rest)).write j none).view i = none := by
    intro i hi h
    apply view_deleted
    show Function.update m.view efMeta (some rest) i = none
    rw [Function.update_of_ne hi, h]
  refine ⟨hstays, ?_⟩
  rintro (⟨hc, -⟩ | ⟨now, hnow, hless⟩)
  · have : cur = c := Option.some.inj (hcur.symm.trans hc)
    exact .inr ⟨rest, hmeta, this ▸ hsize⟩
  · have : cur = now := Option.some.inj (hcur.symm.trans hnow)
    refine .inr ⟨rest, hmeta, ?_⟩
    rw [this] at hsize
    omega

theorem calm_removeFile {j : Nat} (hj : j ≠ efMeta) (hk : (F.remove c k).isSome = true) :
    calm (withMeta F (removeFile j)) (fun _ n => Purged c k m n ∧ n.view j = none)
      (fun _ _ => False) m := by
  cases hp : m.view j with
  | none =>
    simp only [removeFile, consult, pure_eq, bind_eq, Prog.bind, withMeta, calm, Ends, exec, hp,
      Option.isSome_none, Bool.false_eq_true, if_false, if_true]
    exact ⟨Purged.refl, trivial⟩
  | some x =>
    have hgone : ∀ n : StoreMachine, (n.write j none).view j = none :=
      fun n => Function.update_self _ _ _
    cases hl : (m.view efMeta).bind fun c => F.remove c j with
    | none =>
      simp only [removeFile, consult, putFile, pure_eq, bind_eq, Prog.bind, withMeta, calm, Ends, exec,
        hp, hl, Option.isSome_some, if_true]
      exact ⟨purged_unlisted hj hk hl, hgone m⟩
    | some rest =>
      simp only [removeFile, consult, putFile, pure_eq, bind_eq, Prog.bind, withMeta, calm, Ends, exec,
        hp, hl, Option.isSome_some, if_true, Bool.and_self]
      exact ⟨purged_listed hj hl, hgone _⟩

theorem calm_discardFile {j : Nat} (hj : j ≠ efMeta) (hk : (F.remove c k).isSome = true) :
    calm (withMeta F (discardFile j)) (fun _ n => Purged c k m n) (fun _ _ => False) m := by
  cases hp : m.view j with
  | none =>
    simp only [discardFile, consult, pure_eq, bind_eq, Prog.bind, withMeta, calm, Ends, exec, hp,
      Option.isSome_none, Bool.false_eq_true, if_false]
    exact Purged.refl
  | some x =>
    cases hl : (m.view efMeta).bind fun c => F.remove c j with
    | none =>
      simp only [discardFile, consult, writeFile, pure_eq, bind_eq, Prog.bind, withMeta, calm, Ends,
        exec, hp, hl, Option.isSome_some, if_true]
      exact purged_unlisted hj hk hl
    | some rest =>
      simp only [discardFile, consult, writeFile, pure_eq, bind_eq, Prog.bind, withMeta, calm, Ends,
        exec, hp, hl, Option.isSome_some, if_true]
      exact purged_listed hj hl

theorem calm_discardAll {fid : Nat → Nat} {ts : List Nat} (hts : ∀ t ∈ ts, fid t ≠ efMeta)
    (hk : (F.remove c k).isSome = true) :
    calm (withMeta F (forEach (fun t => discardFile (fid t)) ts)) (fun _ n => Purged c k m n)
      (fun _ _ => False) m := by
  induction ts generalizing m with
  | nil => exact Purged.refl
  | cons t ts ih =>
    simp only [forEach, bind_eq, withMeta_bind, calm_bind]
    apply calm_mono (calm_discardFile (hts t List.mem_cons_self) hk) _ (fun _ _ h => h)
    intro _ n hn
    apply calm_mono (ih fun i hi => hts i (List.mem_cons_of_mem _ hi)) _ (fun _ _ h => h)
    exact fun _ _ hn' => hn.trans hn'

theorem calm_containerDelete {slot : Nat} {legacy : Bool} (hslot : slot < 256) (hmeta : slot ≠ 0x10)
    (hk : (F.remove c k).isSome = true) {st : State} {M : Manifest} {o : Descriptor}
    (hmarker : m.view (efCred + slot) = some (.marker .resident slot))
    (hload : load layout m.view slot legacy = .ok st) (h0 : st.candidates 0 = some M)
    (h1 : st.candidates 1 = none) (hM : M.objects = [o])
    (ho : layout.recordFid slot o = .ok o.recordId) :
    calm (withMeta F (containerDelete slot legacy))
      (fun _ n => Purged c k m n ∧ ∀ j, j = o.recordId ∨ j = manifestFid slot 0 ∨
        j = manifestFid slot 1 ∨ j = efCred + slot → n.view j = none) (fun _ _ => False) m := by
  have hown : ∀ j, Own slot j → j ≠ efMeta := by
    intro j hj he
    obtain ⟨p, hp, hpj⟩ := hj.range hslot
    simp only [efMeta] at he
    omega
  have hrecord : Own slot o.recordId := recordFid_own hslot ho
  have hmanifest : ∀ s < 2, Own slot (manifestFid slot s) := fun s hs => .inr (.inl ⟨s, hs, rfl⟩)
  have hmarkerOwn : Own slot (efCred + slot) := .inl rfl
  have hsweep : ∀ (s : Nat), s < 2 → ∀ n : StoreMachine,
      calm (withMeta F (forEach (fun t => discardFile (recordFid (slot % 256) s t)) objectTypes))
        (fun _ n' => Purged c k n n') (fun _ _ => False) n := by
    intro s hs n
    exact calm_discardAll (fun t ht => hown _ (record_own hslot hs ht)) hk
  have hstart : calm (withMeta F (Container.containerDelete layout slot legacy))
      (fun _ n => Purged c k m n ∧ ∀ j, j = o.recordId ∨ j = manifestFid slot 0 ∨
        j = manifestFid slot 1 ∨ j = efCred + slot → n.view j = none) (fun _ _ => False) m := by
    show calm (withMeta F ((liftCheck (load layout m.view slot legacy)).bind _)) _ _ m
    rw [hload]
    show calm (withMeta F ((deleteSlot layout slot st.candidates 0).bind _)) _ _ m
    simp only [deleteSlot, h0, h1, hM, forEach, ho, liftCheck, pure_eq, bind_eq, Prog.bind,
      withMeta_bind, calm_bind, layout_manifestFid]
    apply calm_mono (calm_removeFile (hown _ hrecord) hk) _ (fun _ _ h => h)
    rintro _ n₁ ⟨hn₁, hgone₁⟩
    apply calm_mono (calm_removeFile (hown _ (hmanifest 0 (by decide))) hk) _ (fun _ _ h => h)
    rintro _ n₂ ⟨hn₂, hgone₂⟩
    apply calm_mono (calm_removeFile (hown _ (hmanifest 1 (by decide))) hk) _ (fun _ _ h => h)
    rintro _ n₃ ⟨hn₃, hgone₃⟩
    simp only [show layout.deactivate slot = deactivate slot from rfl, deactivate, bind_eq,
      withMeta_bind, calm_bind]
    apply calm_mono (hsweep 0 (by decide) n₃) _ (fun _ _ h => h)
    intro _ n₄ hn₄
    apply calm_mono (hsweep 1 (by decide) n₄) _ (fun _ _ h => h)
    intro _ n₅ hn₅
    rw [Nat.mod_eq_of_lt hslot]
    apply calm_mono (calm_removeFile (hown _ hmarkerOwn) hk) _ (fun _ _ h => h)
    rintro _ n₆ ⟨hn₆, hgone₆⟩
    -- the commit changes nothing that is seen
    have htail := ((hn₄.trans hn₅).trans hn₆)
    refine ⟨((hn₁.trans hn₂).trans hn₃).trans htail, ?_⟩
    rintro j (rfl | rfl | rfl | rfl)
    · exact ((hn₂.trans hn₃).trans htail).1 _ (hown _ hrecord) hgone₁
    · exact (hn₃.trans htail).1 _ (hown _ (hmanifest 0 (by decide))) hgone₂
    · exact htail.1 _ (hown _ (hmanifest 1 (by decide))) hgone₃
    · exact hgone₆
  show calm (withMeta F (if decide (m.view (efCred + slot) = some (.marker .resident slot)) then _ else _)) _ _ m
  simp only [hmarker, decide_true, if_true]
  exact hstart

end Purge

/-- Nothing but the system files. -/
def bareFiles (c₀ : Option Content) : Files := fun k =>
  if k = efMeta then c₀ else if k ∈ staticFids then some (.other 1) else none

def bare (c₀ : Option Content) : StoreMachine := ⟨bareFiles c₀, bareFiles c₀, (), [], []⟩

theorem bare_absent (slot : Nat) (c₀ : Option Content) : Absent slot (bareFiles c₀) := by
  intro k _ hk
  simp only [systemFids, List.mem_cons, not_or] at hk
  simp only [bareFiles, if_neg hk.1, if_neg hk.2]

theorem bare_static (c₀ : Option Content) : ∀ k ∈ staticFids, (bare c₀).view k ≠ none := by
  intro k hk
  have hne : k ≠ efMeta := by
    rintro rfl
    exact absurd hk (by decide)
  show bareFiles c₀ k ≠ none
  simp [bareFiles, hne, hk]

theorem not_isolated_meta {F : MetaFormat} {legacy : Bool} (c₀ : Option Content) :
    ¬ Isolated F 0x10 legacy c₀ := by
  intro h
  obtain ⟨hkept, hcreate⟩ := h (bare c₀) rfl (bare_static c₀)
  obtain ⟨hcan, -⟩ := hcreate (bare_absent _ c₀) (bare_absent _ c₀)
  have hvacant : ∀ s < 2, (bare c₀).view (layout.manifestFid 0x10 s) = none := by
    intro s hs
    rw [layout_manifestFid]
    exact (bare_absent _ c₀).vacant s hs
  have hbase : baseOf layout (bare c₀).view 0x10 legacy true =
      .ok ⟨.primary, fun _ => none, none⟩ := by
    simp only [baseOf, load_absent legacy hvacant]
  have hview := (hkept (.call (.updatePrivateKey ⟨[0], by decide⟩)) [.ok, .powerLoss] efMeta
    (.inr (by decide))).1
  have hrun : ∀ rs, exec (withMeta F
      ((Operation.call (.updatePrivateKey ⟨[0], by decide⟩)).run 0x10 legacy)) (bare c₀) rs =
      exec (withMeta F (update layout 0x10 [privateKeyWrite [0]] legacy true)) (bare c₀) rs := by
    intro rs
    show exec (withMeta F (ite _ _ _)) (bare c₀) rs = _
    rw [if_neg]
    simp [hcan]
  rw [hrun] at hview
  have hcheck : checkWrite layout [] ⟨layout.namespaceId, layout.containerKind, 16, 1, 0, 0, []⟩
      (privateKeyWrite [0]) = .ok 1 := by decide
  have halloc : layout.recordAllocate 16 0 (privateKeyWrite [0]) = .ok (efMeta, efMeta) := rfl
  have hpolicy : layout.policyKnown (privateKeyWrite [0]).policyId = true := by decide
  have hlength : ¬ uint32Max - recordHeaderSize - authTagSize < (privateKeyWrite [0]).data.length := by
    decide
  have hcore : descriptorCoreValid ((privateKeyWrite [0]).descriptor 1 efMeta) = true := by decide
  rw [update, if_neg (by decide)] at hview
  simp only [bind_eq, pure_eq, consult, Prog.bind, withMeta, exec, hbase, liftCheck, nextManifest,
    targetSlotOf, writeRecords, hcheck, writeRecord, halloc, hpolicy, if_neg hlength, hcore,
    Bool.true_eq_false, if_false, event, replaceFile, Machine.record_view] at hview
  -- the first thing written is the record; the power goes right after
  have hfull : ¬ ((find ⟨layout.namespaceId, layout.containerKind, 16, 1, 0, 0, []⟩
      (privateKeyWrite [0]).objectType (privateKeyWrite [0]).objectTag).isNone = true ∧
      manifestMaxObjects ≤ ([] : List Descriptor).length) := by decide
  cases c₀ with
  | none =>
    have hm : (bare none).view efMeta = none := rfl
    simp only [hm, Option.isSome_none, putFile, Prog.bind, withMeta, exec, Bool.false_eq_true, if_false,
      if_true, if_neg hfull, commitSync, Machine.write, Function.update_self] at hview
    exact Option.some_ne_none _ hview
  | some c =>
    have hm : (bare (some c)).view efMeta = some c := rfl
    cases hremove : F.remove c efMeta with
    | none =>
      simp only [hm, Option.isSome_some, putFile, Prog.bind, withMeta, exec, if_true, Machine.record,
        Option.bind_some, hremove, Bool.true_eq_false, if_false, Machine.write,
        Function.update_self] at hview
      exact Option.some_ne_none _ hview.symm
    | some rest =>
      simp only [hm, Option.isSome_some, putFile, Prog.bind, withMeta, exec, if_true, Machine.record,
        Option.bind_some, hremove, Machine.write, Function.update_self] at hview
      have hsize := F.shrinks hremove
      rw [Option.some.inj hview] at hsize
      exact Nat.lt_irrefl _ hsize
theorem not_isolated_phy {F : MetaFormat} {legacy : Bool} (c₀ : Option Content) :
    ¬ Isolated F 0x20 legacy c₀ := by
  intro h
  obtain ⟨-, hcreate⟩ := h (bare c₀) rfl (bare_static c₀)
  obtain ⟨hcan, -⟩ := hcreate (bare_absent _ c₀) (bare_absent _ c₀)
  have hvacant := (bare_absent 0x20 c₀).vacant
  have hphy : (bare c₀).view (recordFid 0x20 0 objectPrivateKey) = some (.other 1) := rfl
  have hview : (bare c₀).view = bareFiles c₀ := rfl
  simp only [canCreate, hview, hvacant 0 (by decide), hvacant 1 (by decide), Option.isSome_none,
    Bool.or_self, Bool.false_eq_true, if_false, List.all_eq_true] at hcan
  have hrecord := hcan 0 (by decide) objectPrivateKey (by decide)
  rw [← hview, hphy] at hrecord
  exact absurd hrecord (by decide)

/-! A slot with metadata of one of its files: deleting its container edits EF_META. -/
section Sole

/-- The only object of a container, in this file. -/
def soleObject (t r : Nat) : Descriptor :=
  (residentWrite t protectionAuthenticatedPublic 0 [0]).descriptor 1 r

def soleManifest (slot t r : Nat) : Manifest :=
  ⟨objectNamespace, containerKind, slot, 1, 0, 0, [soleObject t r]⟩

/-- A container with one object, and something unreadable in the other manifest slot. -/
def soleFiles (slot t r : Nat) (c : Content) : Files := fun k =>
  if k = efCred + slot then some (.marker .resident slot)
  else if k = manifestFid slot 0 then some (.manifest .primary (soleManifest slot t r))
  else if k = manifestFid slot 1 then some (.other 100)
  else if k = r then
    some (.record .primary (recordIdentity (soleManifest slot t r) (soleObject t r)) [0])
  else bareFiles (some c) k

variable {slot t r k : Nat} {c : Content} {legacy : Bool}

/-- A file that the record of an object of this type may be in. -/
structure Sole (slot t r : Nat) : Prop where
  type : t ∈ objectTypes
  valid : recordIdValid slot (soleObject t r) = true
  range : 0xd300 ≤ r ∧ r < 0xe400

theorem Own.sole (hslot : slot < 256) (h : Own slot k) : ∃ t r, Sole slot t r ∧
    (k = r ∨ k = manifestFid slot 0 ∨ k = manifestFid slot 1 ∨ k = efCred + slot) := by
  have hfile : ∀ s < 2, ∀ t ∈ objectTypes, Sole slot t (recordFid slot s t) := by
    intro s hs t ht
    refine ⟨ht, ?_, recordFid_range slot hs ht⟩
    have hself := recordIdValid_self (w := residentWrite t protectionAuthenticatedPublic 0 [0])
      (g := 1) hslot hs ht
    rw [Nat.mod_eq_of_lt hslot] at hself
    exact hself
  have hsome := hfile 0 (by decide) 1 (by decide)
  rcases h with rfl | ⟨s, hs, rfl⟩ | ⟨s, hs, t, ht, rfl | rfl⟩
  · exact ⟨1, _, hsome, .inr (.inr (.inr rfl))⟩
  · have hslots : s = 0 ∨ s = 1 := by omega
    rcases hslots with rfl | rfl
    · exact ⟨1, _, hsome, .inr (.inl rfl)⟩
    · exact ⟨1, _, hsome, .inr (.inr (.inl rfl))⟩
  · exact ⟨t, _, hfile s hs t ht, .inl rfl⟩
  · by_cases hlegacy : t = objectPrivateKey ∨ t = objectState
    · obtain ⟨p, h1, h2, he⟩ := recordFidLegacy_eq slot s ht
      have hrange : 0xd300 ≤ recordFidLegacy slot s t ∧ recordFidLegacy slot s t < 0xe400 := by
        omega
      refine ⟨t, _, ⟨ht, ?_, hrange⟩, .inl rfl⟩
      have hle : recordFidLegacy slot s t ≤ uint16Max := by
        simp only [uint16Max]
        omega
      have hslots : s = 0 ∨ s = 1 := by omega
      simp only [recordIdValid, soleObject, Write.descriptor, residentWrite]
      rcases hslots with rfl | rfl <;> simp [objectTypeValid_iff.mpr ht, hle, hlegacy]
    · have heq : recordFidLegacy slot s t = recordFid slot s t := by
        simp only [not_or] at hlegacy
        simp only [recordFidLegacy, recordFid, if_neg hlegacy.1, if_neg hlegacy.2]
      rw [heq]
      exact ⟨t, _, hfile s hs t ht, .inl rfl⟩

theorem Sole.recordFid_eq (hslot : slot < 256) (h : Sole slot t r) :
    layout.recordFid slot (soleObject t r) = .ok r := by
  have hok : ¬ (255 < slot ∨ recordIdValid slot (soleObject t r) = false) := by
    simp only [h.valid, Bool.true_eq_false, or_false]
    omega
  simp only [layout, Nat.mod_eq_of_lt hslot, if_neg hok]
  rfl

theorem Sole.fresh (hslot : slot < 256) (h : Sole slot t r) :
    r ≠ efCred + slot ∧ r ≠ manifestFid slot 0 ∧ r ≠ manifestFid slot 1 := by
  have hrange := h.range
  have h0 := manifestFid_range slot 0
  have h1 := manifestFid_range slot 1
  simp only [efCred]
  omega

theorem soleFiles_manifest (hslot : slot < 256) :
    soleFiles slot t r c (manifestFid slot 0) = some (.manifest .primary (soleManifest slot t r)) ∧
      soleFiles slot t r c (manifestFid slot 1) = some (.other 100) := by
  have h0 : manifestFid slot 0 ≠ efCred + slot := by
    have := manifestFid_range slot 0
    simp only [efCred]
    omega
  have h1 : manifestFid slot 1 ≠ efCred + slot := by
    have := manifestFid_range slot 1
    simp only [efCred]
    omega
  have h01 : manifestFid slot 1 ≠ manifestFid slot 0 := by
    simp only [manifestFid, if_true, Nat.one_ne_zero, if_false]
    omega
  simp [soleFiles, h0, h1, h01]

theorem Sole.record (hslot : slot < 256) (h : Sole slot t r) : soleFiles slot t r c r =
    some (.record .primary (recordIdentity (soleManifest slot t r) (soleObject t r)) [0]) := by
  obtain ⟨h1, h2, h3⟩ := h.fresh hslot
  simp [soleFiles, h1, h2, h3]

theorem Sole.loads (legacy : Bool) (hslot : slot < 256) (h : Sole slot t r) :
    ∃ st, load layout (soleFiles slot t r c) slot legacy = .ok st ∧
      st.candidates 0 = some (soleManifest slot t r) ∧ st.candidates 1 = none := by
  obtain ⟨hman, hother⟩ := soleFiles_manifest (t := t) (r := r) (c := c) hslot
  have hcore : descriptorCoreValid (soleObject t r) = true := by
    apply descriptorCoreValid_congr Nat.one_pos
    · have := h.range
      omega
    · exact (residentWrite_accepted h.type (.inl rfl) (by decide) (by decide)).core
  have hcheck : checkRecord layout (soleFiles slot t r c) slot (soleObject t r) = .ok () := by
    have hvalid : layout.descriptorValid slot (soleObject t r) = true := by
      have hle : slot ≤ 255 := by omega
      simp only [layout, hle, Nat.mod_eq_of_lt hslot, h.valid, decide_true, Bool.and_true,
        Bool.true_and]
      rfl
    have hheader : recordHeaderParse (.record .primary
        (recordIdentity (soleManifest slot t r) (soleObject t r)) [0]) (soleObject t r) = .ok () :=
      recordHeaderParse_self hcore rfl rfl
    simp only [checkRecord, hvalid, h.recordFid_eq hslot, Bool.true_eq_false, if_false,
      stored_record (h.record hslot), hheader]
  have hparse : parseSlot layout (soleFiles slot t r c) slot .primary 0 =
      .ok (soleManifest slot t r) := by
    have hvalid : descriptorsValid [soleObject t r] = true := by
      simp [descriptorsValid, hcore]
    have hsize : ¬ ((Content.manifest .primary (soleManifest slot t r)).size <
        manifestHeaderSize + authTagSize ∨
        uint16Max < (Content.manifest .primary (soleManifest slot t r)).size) := by
      show ¬ (32 + 1 * 36 + 0 + 16 < 32 + 16 ∨ 0xffff < 32 + 1 * 36 + 0 + 16)
      decide
    have hmanifest : manifestParse .primary (.manifest .primary (soleManifest slot t r)) =
        .ok (soleManifest slot t r) := by
      simp only [manifestParse, if_neg hsize]
      simp [soleManifest, manifestMaxObjects, hvalid]
    have hall : checkAll (checkRecord layout (soleFiles slot t r c) slot)
        (soleManifest slot t r).objects = .ok () := by
      apply checkAll_ok
      intro o ho
      rw [List.mem_singleton.mp ho]
      exact hcheck
    have hident : ¬ ((soleManifest slot t r).namespaceId ≠ layout.namespaceId ∨
        (soleManifest slot t r).containerKind ≠ layout.containerKind ∨
        (soleManifest slot t r).containerId ≠ slot ∨ (soleManifest slot t r).objects = []) := by
      simp [soleManifest, layout]
    rw [← layout_manifestFid] at hman
    simp only [parseSlot, stored_manifest hman, hmanifest, if_neg hident, hall]
  have hskip : parseSlot layout (soleFiles slot t r c) slot .primary (1 - 0) = .error .wrongData := by
    have hstored : stored (soleFiles slot t r c) (layout.manifestFid slot 1) = some (.other 100) := by
      rw [layout_manifestFid]
      simp [stored, hother, Option.filter, Content.size]
    simp only [parseSlot, Nat.sub_zero, hstored]
    rfl
  obtain ⟨candidates, hload, h0, h1⟩ := load_of_parse legacy (by decide) hparse
    (hskip ▸ (.inr (.inl rfl) : Skipped .wrongData))
  refine ⟨_, hload, h0, ?_⟩
  rw [hskip] at h1
  exact h1

theorem not_isolated_listed {F : MetaFormat} (hslot : slot < 256) (hmeta : slot ≠ 0x10)
    (hphy : slot ≠ 0x20) (hk : Own slot k) (hlisted : (F.remove c k).isSome = true) :
    ¬ Isolated F slot legacy (some c) := by
  intro hiso
  obtain ⟨t, r, hsole, hkey⟩ := hk.sole hslot
  have hsystem : ∀ j ∈ systemFids, soleFiles slot t r c j = bareFiles (some c) j := by
    intro j hj
    have hown : ∀ i, Own slot i → j ≠ i := by
      rintro i hi rfl
      exact hi.not_system hslot hmeta hphy hj
    have h1 : j ≠ efCred + slot := hown _ (.inl rfl)
    have h2 : j ≠ manifestFid slot 0 := hown _ (.inr (.inl ⟨0, by decide, rfl⟩))
    have h3 : j ≠ manifestFid slot 1 := hown _ (.inr (.inl ⟨1, by decide, rfl⟩))
    have h4 : j ≠ r := hown _ (recordFid_own hslot (hsole.recordFid_eq hslot))
    simp only [soleFiles, if_neg h1, if_neg h2, if_neg h3, if_neg h4]
  let m : StoreMachine := ⟨soleFiles slot t r c, soleFiles slot t r c, (), [], []⟩
  have hview : m.view efMeta = some c := hsystem efMeta (by decide)
  have hstatic : ∀ j ∈ staticFids, m.view j ≠ none := by
    intro j hj
    show soleFiles slot t r c j ≠ none
    rw [hsystem j (List.mem_cons_of_mem _ hj)]
    exact bare_static (some c) j hj
  have hmarker : m.view (efCred + slot) = some (.marker .resident slot) := by
    show soleFiles slot t r c (efCred + slot) = _
    simp [soleFiles]
  obtain ⟨st, hload, h0, h1⟩ := hsole.loads (c := c) legacy hslot
  have hpresent : m.view k ≠ none := by
    obtain ⟨hman, hother⟩ := soleFiles_manifest (t := t) (r := r) (c := c) hslot
    rcases hkey with rfl | rfl | rfl | rfl
    · simp [m, hsole.record hslot]
    · simp [m, hman]
    · simp [m, hother]
    · simp [hmarker]
  -- the undisturbed deletion removes the file, so its entry is gone too
  have hcalm := calm_containerDelete (F := F) (c := c) (k := k) (m := m) hslot hmeta hlisted hmarker
    hload h0 h1 rfl (hsole.recordFid_eq hslot)
  have hkept := ((hiso m hview hstatic).1 .delete [] efMeta (.inr (by decide))).1
  unfold calm Ends at hcalm
  split at hcalm
  · obtain ⟨hpurged, hgone⟩ := hcalm
    rcases hpurged.2 (.inl ⟨hview, hpresent⟩) with ⟨-, hk'⟩ | ⟨rest, hrest, hsize⟩
    · exact hk' (hgone k hkey)
    · have hsame : some rest = some c := (hrest.symm.trans hkept).trans hview
      rw [Option.some.inj hsame] at hsize
      exact Nat.lt_irrefl _ hsize
  · exact hcalm
  · exact hcalm

end Sole

/-- A slot is isolated from the rest of the storage exactly if it is neither 0x10 nor 0x20 and
EF_META has no entry for one of its files. -/
theorem isolated_iff (F : MetaFormat) {slot : Nat} (hslot : slot < 256) (legacy : Bool)
    (c₀ : Option Content) : Isolated F slot legacy c₀ ↔
      slot ≠ 0x10 ∧ slot ≠ 0x20 ∧ ∀ k, Own slot k → (c₀.bind fun c => F.remove c k) = none := by
  constructor
  · intro h
    have hmeta : slot ≠ 0x10 := by
      rintro rfl
      exact not_isolated_meta c₀ h
    have hphy : slot ≠ 0x20 := by
      rintro rfl
      exact not_isolated_phy c₀ h
    refine ⟨hmeta, hphy, fun k hk => ?_⟩
    cases c₀ with
    | none => rfl
    | some c =>
      rw [Option.bind_some]
      by_contra hlisted
      exact not_isolated_listed hslot hmeta hphy hk (Option.isSome_iff_ne_none.mpr hlisted) h
  · rintro ⟨hmeta, hphy, hnone⟩
    exact isolated_of_apart hslot hmeta hphy hnone

/-- Files without metadata entries. -/
def plainFormat : MetaFormat where
  remove := fun _ _ => none
  shrinks := by simp

/-- With nothing stored but the system files, slot 0x20 cannot be created, and in slot 0x10 the
private key of an imported credential becomes the file EF_META. -/
theorem slots_clash_with_system :
    canCreate 0x20 false (bare none).view = false ∧
    (bare none).view efMeta = none ∧
    (exec (withMeta plainFormat ((Operation.call (.updatePrivateKey sampleBlob)).run 0x10 false))
      (bare none) []).2.1.view efMeta ≠ none ∧
    ¬ Isolated plainFormat 0x20 false none ∧ ¬ Isolated plainFormat 0x10 false none := by
  refine ⟨by decide +kernel, rfl, ?_, not_isolated_phy none, not_isolated_meta none⟩
  rw [← Option.isSome_iff_ne_none]
  decide +kernel

/-- A single entry, of the first slot of the OTP application. -/
def otpEntry : MetaFormat where
  remove := fun c k => if k = 0xbb00 ∧ 0 < c.size then some (.other 0) else none
  shrinks := by
    intro c k rest h
    split_ifs at h with hentry
    cases h
    exact hentry.2

/-- The entry of another file is not in the way. -/
theorem slot_zero_isolated : Isolated otpEntry 0 false (some (.other 6)) := by
  refine (isolated_iff otpEntry (by decide) false (some (.other 6))).mpr ⟨by decide, by decide, ?_⟩
  intro k hk
  have hslots : ∀ s < 2, manifestFid 0 s ≠ 0xbb00 ∧
      ∀ t ∈ objectTypes, recordFid 0 s t ≠ 0xbb00 ∧ recordFidLegacy 0 s t ≠ 0xbb00 := by decide
  have hother : k ≠ 0xbb00 := by
    rcases hk with rfl | ⟨s, hs, rfl⟩ | ⟨s, hs, t, ht, rfl | rfl⟩
    · decide
    · exact (hslots s hs).1
    · exact ((hslots s hs).2 t ht).1
    · exact ((hslots s hs).2 t ht).2
  rw [Option.bind_some]
  exact if_neg fun h => hother h.1

end Container.Resident

end KeyWallet
