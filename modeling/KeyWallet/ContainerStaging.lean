import KeyWallet.ContainerScheme

/-! What an update makes of the list of descriptors and of the files, before the manifest is
written: a pure account of the loop over the writes. -/
namespace KeyWallet

open CrashProgram

namespace Container

def Descriptor.key (o : Descriptor) : Nat × Nat := (o.objectType, o.objectTag)

def Write.key (w : Write) : Nat × Nat := (w.objectType, w.objectTag)

theorem find_key {m : Manifest} {w : Write} :
    find m w.objectType w.objectTag = m.objects.find? fun o => o.key = w.key := by
  simp [find, Descriptor.key, Write.key]

/-! The list of descriptors. -/

theorem putObject_keys (os : List Descriptor) (d : Descriptor) :
    (putObject os d).map Descriptor.key =
      if d.key ∈ os.map Descriptor.key then os.map Descriptor.key
      else os.map Descriptor.key ++ [d.key] := by
  induction os with
  | nil => rfl
  | cons o os ih =>
    by_cases hkey : o.objectType = d.objectType ∧ o.objectTag = d.objectTag
    · have : o.key = d.key := Prod.ext hkey.1 hkey.2
      simp [putObject, hkey, this]
    · have : d.key ≠ o.key := fun h => hkey ⟨(congrArg Prod.fst h).symm, (congrArg Prod.snd h).symm⟩
      simp only [putObject, if_neg hkey, List.map_cons, ih, List.mem_cons, this, false_or]
      split <;> simp

theorem mem_putObject {os : List Descriptor} (h : (os.map Descriptor.key).Nodup)
    (d x : Descriptor) : x ∈ putObject os d ↔ x = d ∨ (x ∈ os ∧ x.key ≠ d.key) := by
  induction os with
  | nil => simp [putObject]
  | cons o os ih =>
    obtain ⟨hnew, hnodup⟩ := List.nodup_cons.mp h
    by_cases hkey : o.objectType = d.objectType ∧ o.objectTag = d.objectTag
    · have hkey' : o.key = d.key := Prod.ext hkey.1 hkey.2
      simp only [putObject, if_pos hkey, List.mem_cons]
      constructor
      · rintro (rfl | hx)
        · exact .inl rfl
        · refine .inr ⟨.inr hx, fun he => hnew ?_⟩
          rw [hkey', ← he]
          exact List.mem_map_of_mem hx
      · rintro (rfl | ⟨rfl | hx, hne⟩)
        · exact .inl rfl
        · exact absurd hkey' hne
        · exact .inr hx
    · have hkey' : o.key ≠ d.key := fun he => hkey ⟨congrArg Prod.fst he, congrArg Prod.snd he⟩
      simp only [putObject, if_neg hkey, List.mem_cons, ih hnodup]
      constructor
      · rintro (rfl | rfl | ⟨hx, hne⟩)
        · exact .inr ⟨.inl rfl, hkey'⟩
        · exact .inl rfl
        · exact .inr ⟨.inr hx, hne⟩
      · rintro (rfl | ⟨rfl | hx, hne⟩)
        · exact .inr (.inl rfl)
        · exact .inl rfl
        · exact .inr (.inr ⟨hx, hne⟩)

theorem mem_putObject_self (os : List Descriptor) (d : Descriptor) : d ∈ putObject os d := by
  induction os with
  | nil => exact List.mem_singleton_self d
  | cons o os ih =>
    unfold putObject
    split
    · exact List.mem_cons_self
    · exact List.mem_cons_of_mem _ ih

theorem mem_putObject_other {os : List Descriptor} {o d : Descriptor} (ho : o ∈ os)
    (hne : o.key ≠ d.key) : o ∈ putObject os d := by
  induction os with
  | nil => exact absurd ho List.not_mem_nil
  | cons p os ih =>
    unfold putObject
    split
    · next hkey =>
      rcases List.mem_cons.mp ho with rfl | ho
      · exact absurd (Prod.ext hkey.1 hkey.2) hne
      · exact List.mem_cons_of_mem _ ho
    · rcases List.mem_cons.mp ho with rfl | ho
      · exact List.mem_cons_self
      · exact List.mem_cons_of_mem _ (ih ho)

theorem putObject_nodup {os : List Descriptor} (h : (os.map Descriptor.key).Nodup)
    (d : Descriptor) : ((putObject os d).map Descriptor.key).Nodup := by
  rw [putObject_keys]
  split
  · exact h
  · next hnew =>
    refine List.nodup_append.mpr ⟨h, by simp, ?_⟩
    intro a ha b hb he
    rw [List.mem_singleton.mp hb] at he
    exact hnew (he ▸ ha)

section Staging

variable {L : Layout} {id : Nat} (S : Scheme L id) (τ : Nat) (base : Manifest)

/-- The generation that the next record of this object gets. -/
def generationOf (w : Write) : Nat :=
  match find base w.objectType w.objectTag with
  | none => 1
  | some o => o.generation + 1

/-- The file that the write goes to. -/
def fidOf (w : Write) : Nat := S.fid τ w.objectType w.objectTag

def descriptorOf (w : Write) : Descriptor := w.descriptor (generationOf base w) (fidOf S τ w)

def recordOf (w : Write) : Content :=
  .record .primary (recordIdentity base (descriptorOf S τ base w)) w.data

def stagedObjects (ws : List Write) : List Descriptor :=
  ws.foldl (fun os w => putObject os (descriptorOf S τ base w)) base.objects

def stagedManifest (ws : List Write) : Manifest :=
  { base with objects := stagedObjects S τ base ws }

def stagedFiles (ws : List Write) (files : Files) : Files :=
  ws.foldl (fun v w => Function.update v (fidOf S τ w) (some (recordOf S τ base w))) files

def sealedOf (w : Write) : Sealed :=
  ⟨.primary, recordIdentity base (descriptorOf S τ base w), w.data⟩

/-- The writes of one update: there are some, not too many, each is accepted, no object twice. -/
structure Writes (L : Layout) (ws : List Write) : Prop where
  nonempty : ws ≠ []
  count : ws.length ≤ manifestMaxObjects
  accepted : ∀ w ∈ ws, Accepted L w
  distinct : (ws.map Write.key).Nodup

variable {S τ base}

theorem stagedObjects_nodup {ws : List Write} (h : (base.objects.map Descriptor.key).Nodup) :
    ((stagedObjects S τ base ws).map Descriptor.key).Nodup := by
  unfold stagedObjects
  generalize base.objects = os at h
  induction ws generalizing os with
  | nil => exact h
  | cons w ws ih => exact ih _ (putObject_nodup h _)

/-- The objects after the writes: those not written, and the new ones. -/
theorem mem_stagedObjects {ws : List Write} (h : (base.objects.map Descriptor.key).Nodup)
    (hws : (ws.map Write.key).Nodup) (o : Descriptor) :
    o ∈ stagedObjects S τ base ws ↔
      (∃ w ∈ ws, o = descriptorOf S τ base w) ∨ (o ∈ base.objects ∧ ∀ w ∈ ws, o.key ≠ w.key) := by
  suffices hs : ∀ os : List Descriptor, (os.map Descriptor.key).Nodup →
      (o ∈ ws.foldl (fun os w => putObject os (descriptorOf S τ base w)) os ↔
        (∃ w ∈ ws, o = descriptorOf S τ base w) ∨ (o ∈ os ∧ ∀ w ∈ ws, o.key ≠ w.key)) from hs _ h
  clear h
  induction ws with
  | nil => simp
  | cons w ws ih =>
    intro os hos
    obtain ⟨hnew, hws⟩ := List.nodup_cons.mp hws
    rw [List.foldl_cons, ih hws _ (putObject_nodup hos _), mem_putObject hos]
    constructor
    · rintro (⟨v, hv, rfl⟩ | ⟨rfl | ⟨ho, hne⟩, hall⟩)
      · exact .inl ⟨v, List.mem_cons_of_mem _ hv, rfl⟩
      · exact .inl ⟨w, List.mem_cons_self, rfl⟩
      · refine .inr ⟨ho, fun v hv => ?_⟩
        rcases List.mem_cons.mp hv with rfl | hv
        · exact hne
        · exact hall v hv
    · rintro (⟨v, hv, rfl⟩ | ⟨ho, hall⟩)
      · rcases List.mem_cons.mp hv with rfl | hv
        · -- the later writes are of other objects
          refine .inr ⟨.inl rfl, fun u hu he => hnew ?_⟩
          have hk : v.key = u.key := he
          rw [hk]
          exact List.mem_map_of_mem hu
        · exact .inl ⟨v, hv, rfl⟩
      · exact .inr ⟨.inr ⟨ho, hall w List.mem_cons_self⟩,
          fun v hv => hall v (List.mem_cons_of_mem _ hv)⟩

theorem stagedFiles_other {ws : List Write} {files : Files} {k : Nat}
    (h : ∀ w ∈ ws, k ≠ fidOf S τ w) : stagedFiles S τ base ws files k = files k := by
  unfold stagedFiles
  induction ws generalizing files with
  | nil => rfl
  | cons w ws ih =>
    rw [List.foldl_cons, ih fun v hv => h v (List.mem_cons_of_mem _ hv),
      Function.update_of_ne (h w List.mem_cons_self)]

theorem stagedFiles_written {ws : List Write} {files : Files} (hτ : τ < 2)
    (hacc : ∀ w ∈ ws, Accepted L w) (hws : (ws.map Write.key).Nodup) {w : Write} (hw : w ∈ ws) :
    stagedFiles S τ base ws files (fidOf S τ w) = some (recordOf S τ base w) := by
  unfold stagedFiles
  induction ws generalizing files with
  | nil => exact absurd hw List.not_mem_nil
  | cons v ws ih =>
    obtain ⟨hnew, hws⟩ := List.nodup_cons.mp hws
    rcases List.mem_cons.mp hw with rfl | hw
    · -- no later write goes to the same file
      have hlater : ∀ u ∈ ws, fidOf S τ w ≠ fidOf S τ u := by
        intro u hu he
        obtain ⟨-, ht, hg⟩ := S.fid_inj (hacc w List.mem_cons_self)
          (hacc u (List.mem_cons_of_mem _ hu)) hτ hτ he
        have hk : w.key = u.key := Prod.ext ht hg
        exact hnew (hk ▸ List.mem_map_of_mem hu)
      exact (stagedFiles_other hlater).trans (Function.update_self _ _ _)
    · exact ih (fun u hu => hacc u (List.mem_cons_of_mem _ hu)) hws hw

/-! The manifest that the update ends with. -/

theorem keys_nodup {os : List Descriptor} (h : os.IsChain descriptorBefore) :
    (os.map Descriptor.key).Nodup := by
  have htrans : IsTrans Descriptor descriptorBefore := ⟨by
    intro a b c hab hbc
    simp only [descriptorBefore] at *
    omega⟩
  apply (List.isChain_iff_pairwise.mp h).map
  intro a b hab he
  have ht : a.objectType = b.objectType := congrArg Prod.fst he
  have hg : a.objectTag = b.objectTag := congrArg Prod.snd he
  simp only [descriptorBefore] at hab
  omega

/-- The order in which the descriptors are sorted. -/
theorem sortObjects_perm (m : Manifest) : (sortObjects m).objects.Perm m.objects :=
  List.perm_insertionSort _ _

theorem sortObjects_sorted {m : Manifest} (h : (m.objects.map Descriptor.key).Nodup) :
    (sortObjects m).objects.IsChain descriptorBefore := by
  have htotal : Std.Total fun a b : Descriptor => ¬ descriptorBefore b a := ⟨by
    intro a b
    simp only [descriptorBefore]
    omega⟩
  have htrans : IsTrans Descriptor fun a b => ¬ descriptorBefore b a := ⟨by
    intro a b c hab hbc
    simp only [descriptorBefore] at *
    omega⟩
  have hsorted := List.pairwise_insertionSort (fun a b : Descriptor => ¬ descriptorBefore b a) m.objects
  have hdistinct : (sortObjects m).objects.Pairwise fun a b => a.key ≠ b.key :=
    List.pairwise_map.mp (((sortObjects_perm m).map _).nodup_iff.mpr h)
  apply List.Pairwise.isChain
  apply List.Pairwise.imp_of_mem _ (hsorted.and hdistinct)
  rintro a b - - ⟨hab, hne⟩
  have hkey : ¬ (a.objectType = b.objectType ∧ a.objectTag = b.objectTag) :=
    fun he => hne (Prod.ext he.1 he.2)
  simp only [descriptorBefore] at *
  omega

end Staging

end Container

end KeyWallet
