import KeyWallet.OpenAddressing
import KeyWallet.StepSystem
import Mathlib.Data.Finset.Image
import Mathlib.Tactic.NormNum.Prime

/-! The table of dynamic files in file.c: the fids in their slots, with zero for a slot that was never
used and 0xffff for one whose file was deleted. -/
namespace KeyWallet.FileIndex

open OpenAddressing StepSystem

def dynamicFileSlots : Nat := 2309

def maxDynamicFiles : Nat := 2048

abbrev Fid := BitVec 16

def dynamicFidEmpty : Fid := 0x0000
def dynamicFidDeleted : Fid := 0xffff

/-- The fids of dynamic_file, by slot, and dynamic_files. -/
structure Index where
  fids : Nat → Fid
  dynamicFiles : Nat

def Index.init : Index := ⟨fun _ => dynamicFidEmpty, 0⟩

def dynamicHash (fid : Fid) : Nat := fid.toNat * 40503 % 2 ^ 32 % dynamicFileSlots

def dynamicHashStep (fid : Fid) : Nat := 1 + fid.toNat * 97 % 2 ^ 32 % (dynamicFileSlots - 1)

/-- The slots in the order of the loops. -/
def probeOrder (fid : Fid) : List Nat :=
  probes dynamicFileSlots (dynamicHashStep fid) (dynamicHash fid) dynamicFileSlots

/-- The loop of search_dynamic_file. -/
def searchLoop (fids : Nat → Fid) (fid : Fid) : List Nat → Option Nat
  | [] => none
  | slot :: rest =>
    if fids slot = dynamicFidEmpty then none
    else if fids slot = fid then some slot
    else searchLoop fids fid rest

def searchDynamicFile (s : Index) (fid : Fid) : Option Nat := searchLoop s.fids fid (probeOrder fid)

/-- The loop of find_dynamic_slot. -/
def findLoop (fids : Nat → Fid) : Option Nat → List Nat → Option Nat
  | deleted, [] => deleted
  | deleted, slot :: rest =>
    if fids slot = dynamicFidEmpty then deleted.or (some slot)
    else if fids slot = dynamicFidDeleted then findLoop fids (deleted.or (some slot)) rest
    else findLoop fids deleted rest

def findDynamicSlot (s : Index) (fid : Fid) : Option Nat := findLoop s.fids none (probeOrder fid)

/-- A file of the table of static files, or a slot. -/
inductive Found
  | static (fid : Fid)
  | slot (i : Nat)
  deriving DecidableEq, Repr

section Operations

-- the fids that file_search_by_fid finds among the static files
variable (statics : Fid → Bool)

def fileSearch (s : Index) (fid : Fid) : Option Found :=
  if statics fid then some (.static fid) else (searchDynamicFile s fid).map .slot

def deleteDynamicFile (s : Index) : Option Found → Bool × Index
  | some (.slot i) =>
    if s.fids i = dynamicFidEmpty ∨ s.fids i = dynamicFidDeleted then (false, s)
    else (true, ⟨Function.update s.fids i dynamicFidDeleted, (s.dynamicFiles + 65535) % 65536⟩)
  | _ => (false, s)

def fileNew (s : Index) (fid : Fid) : Option Found × Index :=
  match fileSearch statics s fid with
  | some f => (some f, s)
  | none =>
    if fid = dynamicFidEmpty ∨ fid = dynamicFidDeleted ∨ maxDynamicFiles ≤ s.dynamicFiles then (none, s)
    else
      match findDynamicSlot s fid with
      | none => (none, s)
      | some i =>
        (some (.slot i), ⟨Function.update s.fids i fid, (s.dynamicFiles + 1) % 65536⟩)

/-- A file is created, or the file with this fid is deleted. -/
inductive Op
  | new (fid : Fid)
  | delete (fid : Fid)
  deriving DecidableEq, Repr

def step (s : Index) : Op → Index
  | .new fid => (fileNew statics s fid).2
  | .delete fid => (deleteDynamicFile s (fileSearch statics s fid)).2

end Operations

/-! What it is for: the set of the fids that were created and not deleted since. -/

/-- A fid that no dynamic file can have. -/
def Reserved (fid : Fid) : Prop := fid = dynamicFidEmpty ∨ fid = dynamicFidDeleted

instance (fid : Fid) : Decidable (Reserved fid) := inferInstanceAs (Decidable (_ ∨ _))

/-- The fids after one operation. -/
def specStep (statics : Fid → Bool) (live : Finset Fid) : Op → Finset Fid
  | .new fid =>
    if statics fid = true ∨ Reserved fid ∨ maxDynamicFiles ≤ live.card then live else insert fid live
  | .delete fid => if statics fid = true then live else live.erase fid

/-- What a slot holds. -/
def cellOf (fid : Fid) : Cell Fid :=
  if fid = dynamicFidEmpty then .empty
  else if fid = dynamicFidDeleted then .deleted
  else .live fid

/-- The slots in use. -/
def liveSlots (s : Index) : Finset Nat :=
  (Finset.range dynamicFileSlots).filter fun i => ¬ Reserved (s.fids i)

section Cells

variable {fids : Nat → Fid} {fid : Fid}

theorem cellOf_eq_live {x y : Fid} : cellOf x = .live y ↔ x = y ∧ ¬ Reserved x := by
  unfold cellOf
  by_cases h0 : x = dynamicFidEmpty
  · rw [if_pos h0]
    exact ⟨fun h => absurd h.symm (Cell.live_ne_empty y), fun h => absurd (.inl h0) h.2⟩
  rw [if_neg h0]
  by_cases h1 : x = dynamicFidDeleted
  · rw [if_pos h1]
    exact ⟨fun h => absurd h (Cell.deleted_ne_live y), fun h => absurd (.inr h1) h.2⟩
  rw [if_neg h1, Cell.live.injEq]
  exact ⟨fun h => ⟨h, not_or.mpr ⟨h0, h1⟩⟩, fun h => h.1⟩

theorem searchLoop_eq (h : ¬ Reserved fid) (l : List Nat) :
    searchLoop fids fid l = search (fun i => cellOf (fids i)) fid l := by
  obtain ⟨hempty, hdeleted⟩ := not_or.mp h
  induction l with
  | nil => rfl
  | cons i is ih =>
    unfold searchLoop search cellOf
    by_cases h0 : fids i = dynamicFidEmpty
    · rw [if_pos h0, if_pos h0]
    · rw [if_neg h0, if_neg h0]
      by_cases h1 : fids i = dynamicFidDeleted
      · have hne : fids i ≠ fid := by
          rw [h1]
          exact fun he => hdeleted he.symm
        rw [if_neg hne, if_pos h1]
        exact ih
      · rw [if_neg h1]
        dsimp only
        by_cases he : fids i = fid
        · rw [if_pos he, if_pos he]
        · rw [if_neg he, if_neg he]
          exact ih

theorem findLoop_eq (mark : Option Nat) (l : List Nat) :
    findLoop fids mark l = place (fun i => cellOf (fids i)) mark l := by
  induction l generalizing mark with
  | nil => rfl
  | cons i is ih =>
    unfold findLoop place cellOf
    by_cases h0 : fids i = dynamicFidEmpty
    · rw [if_pos h0, if_pos h0]
    · rw [if_neg h0, if_neg h0]
      by_cases h1 : fids i = dynamicFidDeleted
      · rw [if_pos h1, if_pos h1]
        exact ih _
      · rw [if_neg h1, if_neg h1]
        exact ih _

theorem cellOf_update (fids : Nat → Fid) (i : Nat) (fid : Fid) :
    (fun j => cellOf (Function.update fids i fid j)) =
      Function.update (fun j => cellOf (fids j)) i (cellOf fid) := by
  funext j
  by_cases h : j = i
  · rw [h, Function.update_self, Function.update_self]
  · rw [Function.update_of_ne h, Function.update_of_ne h]

end Cells

theorem mem_probeOrder (fid : Fid) {i : Nat} (h : i < dynamicFileSlots) : i ∈ probeOrder fid := by
  have hprime : dynamicFileSlots.Prime := by
    show Nat.Prime 2309
    norm_num
  have hslots : dynamicFileSlots = 2309 := rfl
  have hpos : 0 < dynamicFileSlots - 1 := by omega
  have hmod := Nat.mod_lt (fid.toNat * 97 % 2 ^ 32) hpos
  apply mem_probes hprime
  · unfold dynamicHashStep
    omega
  · unfold dynamicHashStep
    omega
  · exact Nat.mod_lt _ hprime.pos
  · exact h

theorem probeOrder_lt (fid : Fid) {i : Nat} (h : i ∈ probeOrder fid) : i < dynamicFileSlots := by
  have hpos : 0 < dynamicFileSlots := by decide
  have hstart : dynamicHash fid < dynamicFileSlots := Nat.mod_lt _ hpos
  unfold probeOrder at h
  rw [probes_eq _ _ _ _ hstart] at h
  obtain ⟨k, -, rfl⟩ := List.mem_map.mp h
  exact Nat.mod_lt _ hpos

theorem searchLoop_some {fids : Nat → Fid} {fid : Fid} {l : List Nat} {i : Nat}
    (h : searchLoop fids fid l = some i) : i ∈ l ∧ fids i = fid ∧ fid ≠ dynamicFidEmpty := by
  induction l with
  | nil => cases h
  | cons j js ih =>
    unfold searchLoop at h
    by_cases h0 : fids j = dynamicFidEmpty
    · rw [if_pos h0] at h
      cases h
    rw [if_neg h0] at h
    by_cases h1 : fids j = fid
    · rw [if_pos h1] at h
      obtain rfl := Option.some.inj h
      exact ⟨List.mem_cons_self, h1, h1 ▸ h0⟩
    · rw [if_neg h1] at h
      obtain ⟨hmem, hrest⟩ := ih h
      exact ⟨List.mem_cons_of_mem _ hmem, hrest⟩

/-- On the way of the reserved fid a deleted slot comes before every slot that was never used. -/
def MarkFirst (s : Index) : Prop :=
  ∃ l₁ i l₂, probeOrder dynamicFidDeleted = l₁ ++ i :: l₂ ∧ s.fids i = dynamicFidDeleted ∧
    ∀ j ∈ l₁, s.fids j ≠ dynamicFidEmpty

theorem search_deleted_iff (fids : Nat → Fid) (l : List Nat) :
    (∃ i, searchLoop fids dynamicFidDeleted l = some i) ↔
      ∃ l₁ i l₂, l = l₁ ++ i :: l₂ ∧ fids i = dynamicFidDeleted ∧ ∀ j ∈ l₁, fids j ≠ dynamicFidEmpty := by
  induction l with
  | nil =>
    constructor
    · rintro ⟨i, h⟩
      cases h
    · rintro ⟨l₁, i, l₂, hl, -⟩
      exact absurd hl.symm (List.append_ne_nil_of_right_ne_nil _ (List.cons_ne_nil _ _))
  | cons j js ih =>
    have hne : dynamicFidDeleted ≠ dynamicFidEmpty := by decide
    unfold searchLoop
    by_cases h0 : fids j = dynamicFidEmpty
    · rw [if_pos h0]
      constructor
      · rintro ⟨i, h⟩
        cases h
      · rintro ⟨l₁, i, l₂, hl, hi, hall⟩
        cases l₁ with
        | nil =>
          obtain ⟨rfl, -⟩ := List.cons.inj hl
          exact absurd (hi.symm.trans h0) hne
        | cons x l₁ =>
          obtain ⟨rfl, -⟩ := List.cons.inj hl
          exact absurd h0 (hall j List.mem_cons_self)
    rw [if_neg h0]
    by_cases h1 : fids j = dynamicFidDeleted
    · rw [if_pos h1]
      refine ⟨fun _ => ⟨[], j, js, rfl, h1, ?_⟩, fun _ => ⟨j, rfl⟩⟩
      intro x hx
      cases hx
    · rw [if_neg h1, ih]
      constructor
      · rintro ⟨l₁, i, l₂, rfl, hi, hall⟩
        refine ⟨j :: l₁, i, l₂, rfl, hi, ?_⟩
        intro x hx
        rcases List.mem_cons.mp hx with rfl | hx
        · exact h0
        · exact hall x hx
      · rintro ⟨l₁, i, l₂, hl, hi, hall⟩
        cases l₁ with
        | nil =>
          obtain ⟨rfl, -⟩ := List.cons.inj hl
          exact absurd hi h1
        | cons x l₁ =>
          obtain ⟨rfl, hjs⟩ := List.cons.inj hl
          exact ⟨l₁, i, l₂, hjs, hi, fun y hy => hall y (List.mem_cons_of_mem _ hy)⟩

/-- The table stands for this set of fids. -/
structure Inv (statics : Fid → Bool) (s : Index) (live : Finset Fid) : Prop where
  indexed : Indexed probeOrder fun i => cellOf (s.fids i)
  mem : ∀ fid, fid ∈ live ↔ ∃ i, cellOf (s.fids i) = .live fid
  count : s.dynamicFiles = live.card
  bound : live.card ≤ maxDynamicFiles
  dynamic : ∀ fid ∈ live, statics fid = false

section Invariant

variable {statics : Fid → Bool} {s : Index} {live : Finset Fid} {fid : Fid}

theorem Inv.not_reserved (h : Inv statics s live) (hfid : fid ∈ live) : ¬ Reserved fid := by
  obtain ⟨i, hi⟩ := (h.mem fid).mp hfid
  obtain ⟨rfl, hres⟩ := cellOf_eq_live.mp hi
  exact hres

theorem Inv.search_iff (h : Inv statics s live) (hres : ¬ Reserved fid) {i : Nat} :
    searchDynamicFile s fid = some i ↔ cellOf (s.fids i) = .live fid := by
  unfold searchDynamicFile
  rw [searchLoop_eq hres]
  exact h.indexed.search_iff

theorem Inv.search_mem (h : Inv statics s live) (hres : ¬ Reserved fid) :
    (∃ i, searchDynamicFile s fid = some i) ↔ fid ∈ live := by
  rw [h.mem fid]
  exact exists_congr fun i => h.search_iff hres

theorem Inv.slot_lt (h : Inv statics s live) {i : Nat} (hi : cellOf (s.fids i) = .live fid) :
    i < dynamicFileSlots := by
  obtain ⟨-, hres⟩ := cellOf_eq_live.mp hi
  obtain ⟨heq, -⟩ := cellOf_eq_live.mp hi
  have hfound := (h.search_iff (heq ▸ hres)).mpr hi
  exact probeOrder_lt fid (searchLoop_some hfound).1

theorem Inv.fids_inj (h : Inv statics s live) {i j : Nat} (hi : ¬ Reserved (s.fids i))
    (hij : s.fids i = s.fids j) : i = j := by
  have hlive : cellOf (s.fids i) = .live (s.fids i) := cellOf_eq_live.mpr ⟨rfl, hi⟩
  have hlive' : cellOf (s.fids j) = .live (s.fids i) := by
    rw [← hij]
    exact hlive
  exact h.indexed.unique hlive hlive'

theorem Inv.card_liveSlots (h : Inv statics s live) : (liveSlots s).card = live.card := by
  have himage : (liveSlots s).image s.fids = live := by
    ext fid
    rw [Finset.mem_image, h.mem]
    unfold liveSlots
    constructor
    · rintro ⟨i, hi, rfl⟩
      exact ⟨i, cellOf_eq_live.mpr ⟨rfl, (Finset.mem_filter.mp hi).2⟩⟩
    · rintro ⟨i, hi⟩
      obtain ⟨rfl, hres⟩ := cellOf_eq_live.mp hi
      exact ⟨i, Finset.mem_filter.mpr ⟨Finset.mem_range.mpr (h.slot_lt hi), hres⟩, rfl⟩
  rw [← himage, Finset.card_image_of_injOn]
  intro i hi j _ hij
  exact h.fids_inj (Finset.mem_filter.mp (Finset.mem_coe.mp hi)).2 hij

theorem Inv.exists_slot (h : Inv statics s live) (hroom : live.card < maxDynamicFiles) (fid : Fid) :
    ∃ i, findDynamicSlot s fid = some i := by
  have hless : (liveSlots s).card < (Finset.range dynamicFileSlots).card := by
    have hmax : maxDynamicFiles = 2048 := rfl
    have hslots : dynamicFileSlots = 2309 := rfl
    rw [h.card_liveSlots, Finset.card_range]
    omega
  obtain ⟨i, hi, hfree⟩ := Finset.exists_mem_notMem_of_card_lt_card hless
  unfold findDynamicSlot
  rw [findLoop_eq]
  apply exists_place (mem_probeOrder fid (Finset.mem_range.mp hi))
  intro k hk
  obtain ⟨-, hres⟩ := cellOf_eq_live.mp hk
  exact hfree (Finset.mem_filter.mpr ⟨hi, hres⟩)

theorem inv_init (statics : Fid → Bool) : Inv statics Index.init ∅ := by
  have hcell : ∀ i, cellOf (Index.init.fids i) = .empty := fun _ => rfl
  refine ⟨?_, ?_, rfl, Nat.zero_le _, ?_⟩
  · have hsame : (fun i => cellOf (Index.init.fids i)) = fun _ => Cell.empty := funext hcell
    rw [hsame]
    exact indexed_empty probeOrder
  · intro fid
    refine ⟨fun h => absurd h (Finset.notMem_empty fid), ?_⟩
    rintro ⟨i, hi⟩
    exact absurd ((hcell i).symm.trans hi).symm (Cell.live_ne_empty fid)
  · intro fid h
    exact absurd h (Finset.notMem_empty fid)

theorem Inv.added (h : Inv statics s live) (hstatic : statics fid = false) (hres : ¬ Reserved fid)
    (habsent : searchDynamicFile s fid = none) (hroom : live.card < maxDynamicFiles) {i : Nat}
    (hplace : findDynamicSlot s fid = some i) :
    Inv statics ⟨Function.update s.fids i fid, (s.dynamicFiles + 1) % 65536⟩ (insert fid live) := by
  have hnot : fid ∉ live := by
    intro hmem
    obtain ⟨j, hj⟩ := (h.search_mem hres).mpr hmem
    rw [habsent] at hj
    cases hj
  have hlive : cellOf fid = .live fid := cellOf_eq_live.mpr ⟨rfl, hres⟩
  have hplace' : place (fun j => cellOf (s.fids j)) none (probeOrder fid) = some i := by
    rw [← findLoop_eq]
    exact hplace
  obtain ⟨-, -, -, hfree, -⟩ := place_some hplace'
  have hmax : maxDynamicFiles = 2048 := rfl
  refine ⟨?_, ?_, ?_, ?_, ?_⟩
  · show Indexed probeOrder fun j => cellOf (Function.update s.fids i fid j)
    rw [cellOf_update, hlive]
    apply h.indexed.insert _ hplace'
    rw [← searchLoop_eq hres]
    exact habsent
  · intro fid'
    show fid' ∈ insert fid live ↔ ∃ j, cellOf (Function.update s.fids i fid j) = .live fid'
    rw [Finset.mem_insert, h.mem fid']
    constructor
    · rintro (rfl | ⟨j, hj⟩)
      · exact ⟨i, by rw [Function.update_self, hlive]⟩
      · refine ⟨j, ?_⟩
        have hji : j ≠ i := by
          rintro rfl
          rcases hfree with he | hd
          · exact absurd (he.symm.trans hj).symm (Cell.live_ne_empty fid')
          · exact absurd (hd.symm.trans hj) (Cell.deleted_ne_live fid')
        rw [Function.update_of_ne hji]
        exact hj
    · rintro ⟨j, hj⟩
      by_cases hji : j = i
      · rw [hji, Function.update_self, hlive, Cell.live.injEq] at hj
        exact .inl hj.symm
      · rw [Function.update_of_ne hji] at hj
        exact .inr ⟨j, hj⟩
  · show (s.dynamicFiles + 1) % 65536 = (insert fid live).card
    rw [Finset.card_insert_of_notMem hnot, h.count]
    omega
  · rw [Finset.card_insert_of_notMem hnot]
    omega
  · intro fid' hfid'
    rcases Finset.mem_insert.mp hfid' with rfl | hold
    · exact hstatic
    · exact h.dynamic fid' hold

theorem Inv.removed (h : Inv statics s live) {i : Nat} (hi : cellOf (s.fids i) = .live fid) :
    Inv statics ⟨Function.update s.fids i dynamicFidDeleted, (s.dynamicFiles + 65535) % 65536⟩
      (live.erase fid) := by
  have hmem : fid ∈ live := (h.mem fid).mpr ⟨i, hi⟩
  have hcard : (live.erase fid).card + 1 = live.card := Finset.card_erase_add_one hmem
  have hmax : maxDynamicFiles = 2048 := rfl
  have hbound := h.bound
  refine ⟨?_, ?_, ?_, ?_, ?_⟩
  · show Indexed probeOrder fun j => cellOf (Function.update s.fids i dynamicFidDeleted j)
    rw [cellOf_update]
    exact h.indexed.delete hi
  · intro fid'
    show fid' ∈ live.erase fid ↔ ∃ j, cellOf (Function.update s.fids i dynamicFidDeleted j) = .live fid'
    rw [Finset.mem_erase, h.mem fid']
    constructor
    · rintro ⟨hne, j, hj⟩
      refine ⟨j, ?_⟩
      have hji : j ≠ i := by
        rintro rfl
        exact hne (Cell.live.inj (hj.symm.trans hi))
      rw [Function.update_of_ne hji]
      exact hj
    · rintro ⟨j, hj⟩
      have hji : j ≠ i := by
        rintro rfl
        rw [Function.update_self] at hj
        exact absurd hj (Cell.deleted_ne_live fid')
      rw [Function.update_of_ne hji] at hj
      refine ⟨?_, j, hj⟩
      rintro rfl
      exact hji (h.indexed.unique hj hi)
  · show (s.dynamicFiles + 65535) % 65536 = (live.erase fid).card
    rw [h.count]
    omega
  · omega
  · exact fun fid' hfid' => h.dynamic fid' (Finset.mem_of_mem_erase hfid')

/-- file_new adds the fid that the set gains. -/
theorem inv_fileNew (h : Inv statics s live) (fid : Fid) :
    Inv statics (fileNew statics s fid).2 (specStep statics live (.new fid)) := by
  show Inv statics (fileNew statics s fid).2
    (if statics fid = true ∨ Reserved fid ∨ maxDynamicFiles ≤ live.card then live else insert fid live)
  unfold fileNew fileSearch
  by_cases hstatic : statics fid = true
  · have hkept : statics fid = true ∨ Reserved fid ∨ maxDynamicFiles ≤ live.card := .inl hstatic
    rw [if_pos hstatic, if_pos hkept]
    exact h
  rw [if_neg hstatic]
  have hdynamic : statics fid = false := Bool.eq_false_of_not_eq_true hstatic
  by_cases hres : Reserved fid
  · have hkept : statics fid = true ∨ Reserved fid ∨ maxDynamicFiles ≤ live.card := .inr (.inl hres)
    rw [if_pos hkept]
    cases hs : searchDynamicFile s fid with
    | some i => exact h
    | none =>
      have hclosed : fid = dynamicFidEmpty ∨ fid = dynamicFidDeleted ∨ maxDynamicFiles ≤ s.dynamicFiles :=
        hres.elim .inl fun hd => .inr (.inl hd)
      dsimp only [Option.map_none]
      rw [if_pos hclosed]
      exact h
  cases hs : searchDynamicFile s fid with
  | some i =>
    -- the file exists already
    have hmem : fid ∈ live := (h.search_mem hres).mp ⟨i, hs⟩
    rw [Finset.insert_eq_of_mem hmem, ite_self]
    exact h
  | none =>
    dsimp only [Option.map_none]
    by_cases hfull : maxDynamicFiles ≤ live.card
    · have hkept : statics fid = true ∨ Reserved fid ∨ maxDynamicFiles ≤ live.card := .inr (.inr hfull)
      have hclosed : fid = dynamicFidEmpty ∨ fid = dynamicFidDeleted ∨ maxDynamicFiles ≤ s.dynamicFiles := by
        rw [h.count]
        exact .inr (.inr hfull)
      rw [if_pos hkept, if_pos hclosed]
      exact h
    have hopen : ¬ (fid = dynamicFidEmpty ∨ fid = dynamicFidDeleted ∨ maxDynamicFiles ≤ s.dynamicFiles) := by
      rw [h.count]
      rintro (he | hd | hm)
      · exact hres (.inl he)
      · exact hres (.inr hd)
      · exact hfull hm
    have hgrown : ¬ (statics fid = true ∨ Reserved fid ∨ maxDynamicFiles ≤ live.card) :=
      not_or.mpr ⟨hstatic, not_or.mpr ⟨hres, hfull⟩⟩
    have hroom : live.card < maxDynamicFiles := Nat.lt_of_not_le hfull
    obtain ⟨i, hi⟩ := h.exists_slot hroom fid
    rw [if_neg hopen, if_neg hgrown, hi]
    exact h.added hdynamic hres hs hroom hi

theorem inv_delete (h : Inv statics s live) (fid : Fid) :
    Inv statics (deleteDynamicFile s (fileSearch statics s fid)).2 (specStep statics live (.delete fid)) := by
  show Inv statics (deleteDynamicFile s (fileSearch statics s fid)).2
    (if statics fid = true then live else live.erase fid)
  unfold fileSearch
  by_cases hstatic : statics fid = true
  · rw [if_pos hstatic, if_pos hstatic]
    exact h
  rw [if_neg hstatic, if_neg hstatic]
  cases hs : searchDynamicFile s fid with
  | none =>
    have hnot : fid ∉ live := by
      intro hmem
      obtain ⟨i, hi⟩ := (h.search_mem (h.not_reserved hmem)).mpr hmem
      rw [hs] at hi
      cases hi
    rw [Finset.erase_eq_of_notMem hnot]
    exact h
  | some i =>
    obtain ⟨-, hfid, -⟩ := searchLoop_some hs
    dsimp only [Option.map_some]
    unfold deleteDynamicFile
    by_cases hres : Reserved fid
    · -- a deleted slot was taken for the file, and is refused here
      have hnot : fid ∉ live := fun hmem => h.not_reserved hmem hres
      have hrefused : s.fids i = dynamicFidEmpty ∨ s.fids i = dynamicFidDeleted := by
        rw [hfid]
        exact hres
      rw [Finset.erase_eq_of_notMem hnot]
      dsimp only
      rw [if_pos hrefused]
      exact h
    · have hlive : cellOf (s.fids i) = .live fid := (h.search_iff hres).mp hs
      have hused : ¬ (s.fids i = dynamicFidEmpty ∨ s.fids i = dynamicFidDeleted) := by
        rw [hfid]
        exact hres
      dsimp only
      rw [if_neg hused]
      exact h.removed hlive

theorem inv_step (h : Inv statics s live) (op : Op) :
    Inv statics (step statics s op) (specStep statics live op) := by
  cases op with
  | new fid => exact inv_fileNew h fid
  | delete fid => exact inv_delete h fid

theorem inv_run (statics : Fid → Bool) (s : Index) (live : Finset Fid) (h : Inv statics s live)
    (ops : List Op) : Inv statics (run (step statics) s ops) (run (specStep statics) live ops) := by
  induction ops generalizing s live with
  | nil => exact h
  | cons op ops ih => exact ih _ _ (inv_step h op)

end Invariant

/-- The laws of the index, given the fids that were created and not deleted since. -/
structure Lawful (statics : Fid → Bool) (s : Index) (live : Finset Fid) : Prop where
  holds : ∀ fid i, searchDynamicFile s fid = some i → i < dynamicFileSlots ∧ s.fids i = fid
  reserved : ∀ fid ∈ live, ¬ Reserved fid
  unique : ∀ i j, ¬ Reserved (s.fids i) → s.fids i = s.fids j → i = j
  count : s.dynamicFiles = (liveSlots s).card ∧ s.dynamicFiles = live.card
  room : ∀ fid, statics fid = false → ¬ Reserved fid → fid ∉ live → s.dynamicFiles < maxDynamicFiles →
    ∃ i, (fileNew statics s fid).1 = some (.slot i) ∧ searchDynamicFile (fileNew statics s fid).2 fid = some i

theorem Inv.lawful {statics : Fid → Bool} {s : Index} {live : Finset Fid} (h : Inv statics s live) :
    Lawful statics s live := by
  refine ⟨?_, ?_, ?_, ⟨h.count.trans h.card_liveSlots.symm, h.count⟩, ?_⟩
  · intro fid i hs
    obtain ⟨hmem, hfid, -⟩ := searchLoop_some hs
    exact ⟨probeOrder_lt fid hmem, hfid⟩
  · exact fun fid hmem => h.not_reserved hmem
  · exact fun i j hi hij => h.fids_inj hi hij
  · intro fid hstatic hres hnot hroom
    rw [h.count] at hroom
    have habsent : searchDynamicFile s fid = none := by
      cases hs : searchDynamicFile s fid with
      | none => rfl
      | some i => exact absurd ((h.search_mem hres).mp ⟨i, hs⟩) hnot
    obtain ⟨i, hi⟩ := h.exists_slot hroom fid
    have hopen : ¬ (fid = dynamicFidEmpty ∨ fid = dynamicFidDeleted ∨ maxDynamicFiles ≤ s.dynamicFiles) := by
      rw [h.count]
      rintro (he | hd | hm)
      · exact hres (.inl he)
      · exact hres (.inr hd)
      · exact Nat.not_le_of_lt hroom hm
    have hnew : fileNew statics s fid =
        (some (.slot i), ⟨Function.update s.fids i fid, (s.dynamicFiles + 1) % 65536⟩) := by
      unfold fileNew fileSearch
      rw [if_neg (by rw [hstatic]; exact Bool.false_ne_true), habsent]
      dsimp only [Option.map_none]
      rw [if_neg hopen, hi]
    have hafter := h.added hstatic hres habsent hroom hi
    refine ⟨i, by rw [hnew], ?_⟩
    rw [hnew, hafter.search_iff hres]
    show cellOf (Function.update s.fids i fid i) = .live fid
    rw [Function.update_self]
    exact cellOf_eq_live.mpr ⟨rfl, hres⟩

/-- In every run the index keeps its laws, and a search finds exactly the fids that were created and not
deleted since, unless the reserved fid is asked for where a deleted slot comes first. -/
theorem index_is_map (statics : Fid → Bool) (ops : List Op) :
    Lawful statics (run (step statics) .init ops) (run (specStep statics) ∅ ops) ∧
    ∀ fid, ((∃ i, searchDynamicFile (run (step statics) .init ops) fid = some i) ↔
        fid ∈ run (specStep statics) ∅ ops) ↔
      ¬ (fid = dynamicFidDeleted ∧ MarkFirst (run (step statics) .init ops)) := by
  have h := inv_run statics .init ∅ (inv_init statics) ops
  refine ⟨h.lawful, ?_⟩
  intro fid
  by_cases hres : Reserved fid
  · have hnot : fid ∉ run (specStep statics) ∅ ops := fun hmem => h.not_reserved hmem hres
    rcases hres with rfl | rfl
    · -- zero is never found
      have hnone : ¬ ∃ i, searchDynamicFile (run (step statics) .init ops) dynamicFidEmpty = some i := by
        rintro ⟨i, hi⟩
        exact (searchLoop_some hi).2.2 rfl
      have hne : dynamicFidEmpty ≠ dynamicFidDeleted := by decide
      exact ⟨fun _ hand => hne hand.1, fun _ => ⟨fun hex => absurd hex hnone, fun hmem => absurd hmem hnot⟩⟩
    · have hmark : (∃ i, searchDynamicFile (run (step statics) .init ops) dynamicFidDeleted = some i) ↔
          MarkFirst (run (step statics) .init ops) := search_deleted_iff _ _
      rw [hmark]
      exact ⟨fun hiff hand => hnot (hiff.mp hand.2),
        fun hno => ⟨fun hm => absurd ⟨rfl, hm⟩ hno, fun hmem => absurd hmem hnot⟩⟩
  · have hne : fid ≠ dynamicFidDeleted := fun he => hres (.inr he)
    exact ⟨fun _ hand => hne hand.1, fun _ => h.search_mem hres⟩

/-- A file is created and deleted in the slot where the search for 0xffff starts: that search finds it. -/
theorem deleted_slot_found :
    searchDynamicFile (run (step fun _ => false) .init [.new 0x373, .delete 0x373]) dynamicFidDeleted =
        some 48 ∧
      (fileNew (fun _ => false) (run (step fun _ => false) .init [.new 0x373, .delete 0x373])
        dynamicFidDeleted).1 = some (.slot 48) ∧
      dynamicFidDeleted ∉ run (specStep fun _ => false) ∅ [.new 0x373, .delete 0x373] := by
  refine ⟨by decide +kernel, by decide +kernel, by decide +kernel⟩

end KeyWallet.FileIndex
