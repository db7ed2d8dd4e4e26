import KeyWallet.AssertionWalk
import KeyWallet.Compaction
import KeyWallet.StepSystem

/-! Who owns the memory of the credentials that getAssertion loads: the local array creds, or credsx, which keeps them
for the walk. -/
namespace KeyWallet

namespace Cred

namespace Assert

open StepSystem

/-- A loaded credential with the handle of its memory. -/
structure Cell where
  handle : Nat
  cred : Credential
  deriving DecidableEq, Repr

/-- How many handles were given, those that were released, one for each time, and what credsx holds. -/
structure Heap where
  next : Nat
  released : List Nat
  kept : List Cell

namespace Heap

/-- credential_free for each of them. -/
def free (h : Heap) (cells : List Cell) : Heap := { h with released := h.released ++ cells.map (·.handle) }

/-- Credentials with memory of their own. -/
def load (h : Heap) (creds : List Credential) : List Cell := (creds.zipIdx h.next).map fun x => ⟨x.2, x.1⟩

/-- reset_gna_state. -/
def resetGna (h : Heap) : Heap := { h.free h.kept with kept := [] }

end Heap

section Calls

variable (e : Setting) (req : Request)

/-- The loop over allowList as locateList, also where it ends with an error. -/
def locateState (hash : Data) (l : Located) : List Descriptor → Located
  | [] => l
  | entry :: entries =>
    match entry.isPublicKey, entry.id with
    | some isPublicKey, some id =>
      if isPublicKey then
        let next := locateEntry e hash l id
        if next.2 then next.1 else locateState hash next.1 entries
      else locateState hash l entries
    | _, _ => l

/-- What was loaded when the search ends, however it does. -/
def located : Located :=
  if req.allowList = [] then locateResident e (rpIdHash e req) (startSilent req)
  else locateState e (rpIdHash e req) { creds := [], resident := false, silent := startSilent req } req.allowList

/-- The filter of credProtect, for a cell. -/
def admits (c : Cell) : Bool := admitted (startFlags req) (req.allowList ≠ []) c.cred

/-- creds behind the filter and the sort, which is of the front of the array. -/
def arranged (l : Located) (cells : List Cell) : List (Option Cell) :=
  let filtered := Compaction.compact (admits req) cells
  let front := (filtered.cells.take filtered.count).reduceOption
  (if l.silent then front else ExchangeSort.sort (·.cred.boardCreation) front).map some ++
    filtered.cells.drop filtered.count

/-- numberOfCredentials, when a credential is selected. -/
def numberSelected (l : Located) : Nat :=
  numberShown req l.resident
    (numberFound e req l (l.creds.filter (admitted (startFlags req) (req.allowList ≠ []))))

/-- `asserted`: the call gets to the selection, and begins a walk. -/
def asserted (l : Located) : Bool :=
  !presenceFails e req &&
    decide (numberFound e req l (l.creds.filter (admitted (startFlags req) (req.allowList ≠ []))) ≠ 0) &&
    decide (req.largeBlobKey ≠ some false) && !(l.silent && !l.resident) && decide (1 < numberSelected e req l)

/-- cbor_get_assertion on the memory, behind the reset of cbor_parse. -/
def callHeap (before : Heap) : Heap :=
  let reset := before.resetGna
  match checks e req with
  | some _ => reset
  | none =>
    let cells := reset.load (located e req).creds
    let loaded := { reset with next := reset.next + cells.length }
    match locate e (rpIdHash e req) (startSilent req) req.allowList with
    | .error _ => loaded.free cells
    | .ok l =>
      let filtered := loaded.free (Compaction.compact (admits req) cells).dropped
      let creds := arranged req l cells
      if asserted e req l then
        -- credsx is cleared again before it is filled; creds is not freed any more
        let walking := { filtered.resetGna with kept := (creds.take (numberSelected e req l)).reduceOption }
        match (getAssertion e req).result with
        | .error _ => walking.resetGna
        | .ok _ => walking
      else filtered.free creds.reduceOption

/-- cbor_get_next_assertion on the memory. -/
def nextHeap (w : Walk) (before : Heap) : Heap :=
  match (getNextAssertion e w).result with
  | .error _ => before.resetGna
  | .ok _ => if w.counter + 1 = w.number then before.resetGna else before

end Calls

/-- The walk and the memory. -/
structure Owner where
  walk : Walk
  heap : Heap

def ownerStep (s : Owner) (i : Setting × Command) : Owner :=
  { walk := (cborParse i.1 s.walk i.2).2
    heap := match i.2 with
      | .getAssertion req => callHeap i.1 req s.heap
      | .getNextAssertion => nextHeap i.1 s.walk s.heap
      | .otherCommand => s.heap.resetGna }

/-- Each handle was released once or is kept for the walk, and the walk is over what is kept. -/
structure Owned (s : Owner) : Prop where
  once : (s.heap.released ++ s.heap.kept.map (·.handle)).Perm (List.range s.heap.next)
  walk : s.heap.kept.map (·.cred) = s.walk.creds

/-- Behind the filter and the sort, no two entries of creds have the same memory. -/
def Unaliased (s : Owner) (i : Setting × Command) : Prop :=
  ∀ req l, i.2 = .getAssertion req → checks i.1 req = none →
    locate i.1 (rpIdHash i.1 req) (startSilent req) req.allowList = .ok l →
    ((arranged req l (s.heap.resetGna.load (located i.1 req).creds)).reduceOption.map (·.handle)).Nodup

/-- The memory of the credentials has one owner, during a command and behind it. -/
def OneOwner (s : Owner) (i : Setting × Command) : Prop := Owned (ownerStep s i) ∧ Unaliased s i

/-- A call that comes as far as the filter has loaded no credential that is refused before one that is admitted. -/
def RefusedLast (i : Setting × Command) : Prop :=
  ∀ req l, i.2 = .getAssertion req → checks i.1 req = none →
    locate i.1 (rpIdHash i.1 req) (startSilent req) req.allowList = .ok l →
    Compaction.KeptFirst (admitted (startFlags req) (req.allowList ≠ [])) l.creds

/-- As the parser leaves it. -/
def Parsed (i : Setting × Command) : Prop :=
  ∀ req, i.2 = .getAssertion req → req.allowList.length ≤ maxCredentialCountInList

/-! What was loaded. -/
section Located

variable {e : Setting} {req : Request} {hash : Data}

theorem locateState_ok {list : List Descriptor} :
    ∀ {l l' : Located}, locateList e hash l list = .ok l' → locateState e hash l list = l' := by
  induction list with
  | nil =>
    intro l l' h
    exact Except.ok.inj h
  | cons entry entries ih =>
    intro l l' h
    unfold locateList at h
    unfold locateState
    obtain ⟨id, isPublicKey⟩ := entry
    cases isPublicKey with
    | none => cases h
    | some isPublicKey =>
      cases id with
      | none => cases h
      | some id =>
        cases isPublicKey with
        | false => exact ih h
        | true =>
          dsimp only at h ⊢
          rw [if_pos rfl] at h ⊢
          cases hleft : (locateEntry e hash l id).2 with
          | true =>
            rw [hleft, if_pos rfl] at h
            exact Except.ok.inj h
          | false =>
            rw [hleft, if_neg Bool.false_ne_true] at h
            exact ih h

theorem located_eq {l : Located} (h : locate e (rpIdHash e req) (startSilent req) req.allowList = .ok l) :
    located e req = l := by
  unfold locate at h
  unfold located
  split_ifs at h ⊢
  · exact Except.ok.inj h
  · exact locateState_ok h

/-- While nothing is loaded no credential is resident, and a loaded one ends the silence. -/
structure Sound (l : Located) (entries : Nat) : Prop where
  silent : l.silent = true → l.creds = [] ∧ l.resident = false
  short : l.creds.length ≤ entries

theorem Sound.weaken {l : Located} {m n : Nat} (h : Sound l m) (hmn : m ≤ n) : Sound l n :=
  ⟨h.silent, h.short.trans hmn⟩

theorem Sound.add {l : Located} {n : Nat} (h : Sound l n) (cred : Credential) (resident : Bool) :
    Sound { l.add cred with resident := resident } (n + 1) := by
  constructor
  · intro hsilent
    cases hsilent
  · have hlength : (l.add cred).creds.length = l.creds.length + 1 := List.length_append
    have hshort := h.short
    have hgoal : (l.add cred).creds.length ≤ n + 1 := by omega
    exact hgoal

theorem Sound.entry {l : Located} {n : Nat} (h : Sound l n) (id : Data) :
    Sound (locateEntry e hash l id).1 (n + 1) := by
  have hsame := h.weaken (Nat.le_succ n)
  unfold locateEntry
  split
  · split
    · exact hsame
    · split
      · exact h.add _ true
      · exact hsame
  · split
    · exact hsame
    · split
      · exact h.add _ l.resident
      · split
        · exact h.add _ true
        · exact h.add _ l.resident

theorem Sound.list (e : Setting) (hash : Data) (list : List Descriptor) :
    ∀ {l : Located} {n : Nat}, Sound l n → Sound (locateState e hash l list) (n + list.length) := by
  induction list with
  | nil => exact fun h => h
  | cons entry entries ih =>
    intro l n h
    have hskip : Sound (locateState e hash l entries) (n + (entries.length + 1)) :=
      (ih h).weaken (by omega)
    unfold locateState
    rw [List.length_cons]
    split
    · split
      · dsimp only
        split
        · exact (h.entry _).weaken (by omega)
        · exact (ih (h.entry _)).weaken (by omega)
      · exact hskip
    · exact h.weaken (by omega)

theorem located_silent (hsilent : (located e req).silent = true) :
    (located e req).creds = [] ∧ (req.allowList ≠ [] → (located e req).resident = false) := by
  unfold located at hsilent ⊢
  split_ifs at hsilent ⊢ with hlist
  · unfold locateResident at hsilent ⊢
    exact ⟨List.isEmpty_iff.mp (Bool.and_eq_true_iff.mp hsilent).2, fun h => (h hlist).elim⟩
  · have hempty : Sound { creds := [], resident := false, silent := startSilent req } 0 :=
      ⟨fun _ => ⟨rfl, rfl⟩, Nat.le_refl 0⟩
    obtain ⟨hcreds, hresident⟩ := (hempty.list e (rpIdHash e req) req.allowList).silent hsilent
    exact ⟨hcreds, fun _ => hresident⟩

theorem located_length (hshort : req.allowList.length ≤ maxCredentialCountInList) :
    (located e req).creds.length ≤ maxCredentialCountInList := by
  unfold located
  split_ifs with hlist
  · exact List.length_take_le _ _
  · have hempty : Sound { creds := [], resident := false, silent := startSilent req } 0 :=
      ⟨fun _ => ⟨rfl, rfl⟩, Nat.le_refl 0⟩
    have hlength := (hempty.list e (rpIdHash e req) req.allowList).short
    omega

end Located

/-! The memory. -/
section Memory

variable {e : Setting} {req : Request}

theorem load_handles (h : Heap) (creds : List Credential) :
    (h.load creds).map (·.handle) = List.range' h.next creds.length := by
  unfold Heap.load
  rw [List.map_map]
  exact List.zipIdx_map_snd h.next creds

theorem load_creds (h : Heap) (creds : List Credential) : (h.load creds).map (·.cred) = creds := by
  unfold Heap.load
  rw [List.map_map]
  exact List.zipIdx_map_fst h.next creds

theorem load_length (h : Heap) (creds : List Credential) : (h.load creds).length = creds.length := by
  have hlength := congrArg List.length (load_creds h creds)
  rwa [List.length_map] at hlength

/-- Every handle was released once or is kept. -/
def Heap.Once (h : Heap) : Prop := (h.released ++ h.kept.map (·.handle)).Perm (List.range h.next)

theorem Heap.Once.resetGna {h : Heap} (hh : h.Once) : h.resetGna.Once := by
  unfold Heap.Once at *
  rw [Heap.resetGna, List.map_nil, List.append_nil]
  exact hh

theorem Heap.Once.share {h : Heap} (hh : h.Once) (hkept : h.kept = []) (creds : List Credential)
    {freed kept : List Cell} (hperm : (freed ++ kept).Perm (h.load creds)) :
    Heap.Once ⟨h.next + (h.load creds).length, h.released ++ freed.map (·.handle), kept⟩ := by
  unfold Heap.Once at *
  rw [hkept, List.map_nil, List.append_nil] at hh
  have hhandles := hperm.map (·.handle)
  rw [List.map_append, load_handles] at hhandles
  rw [load_length, List.append_assoc]
  calc
    (h.released ++ (freed.map (·.handle) ++ kept.map (·.handle))).Perm
        (List.range h.next ++ List.range' h.next creds.length) := hh.append hhandles
    _ = List.range (h.next + creds.length) := by
      rw [List.range_add, List.range'_eq_map_range]

theorem filtered_front (cells : List Cell) :
    ((Compaction.compact (admits req) cells).cells.take (Compaction.compact (admits req) cells).count).reduceOption =
      cells.filter (admits req) := by
  rw [Compaction.compact_eq]
  dsimp only
  rw [List.take_left' (by rw [List.length_map]), Compaction.reduceOption_map_some]

/-- The admitted credentials in the order of the selection. -/
def chosen (req : Request) (l : Located) (cells : List Cell) : List Cell :=
  if l.silent then cells.filter (admits req)
  else ExchangeSort.sort (·.cred.boardCreation) (cells.filter (admits req))

theorem arranged_eq (l : Located) (cells : List Cell) : arranged req l cells =
    (chosen req l cells).map some ++
      (cells.map (Compaction.leftover (admits req))).drop (cells.filter (admits req)).length := by
  unfold arranged chosen
  dsimp only
  rw [filtered_front, Compaction.compact_eq]
  dsimp only
  rw [List.drop_left' (by rw [List.length_map])]

theorem chosen_perm (l : Located) (cells : List Cell) : (chosen req l cells).Perm (cells.filter (admits req)) := by
  unfold chosen
  split_ifs
  · exact .refl _
  · exact ExchangeSort.sort_perm _ _

theorem chosen_length (l : Located) (cells : List Cell) :
    (chosen req l cells).length = (cells.filter (admits req)).length := (chosen_perm l cells).length_eq

theorem arranged_live (l : Located) (cells : List Cell) : (arranged req l cells).reduceOption =
    chosen req l cells ++ (cells.drop (cells.filter (admits req)).length).filter (admits req) := by
  rw [arranged_eq, List.reduceOption_append, ← List.map_drop, Compaction.reduceOption_leftover,
    Compaction.reduceOption_map_some]

theorem arranged_take (l : Located) (cells : List Cell) {n : Nat} (hn : n = (cells.filter (admits req)).length) :
    ((arranged req l cells).take n).reduceOption = chosen req l cells := by
  rw [arranged_eq, List.take_left' (by rw [List.length_map, chosen_length, hn]), Compaction.reduceOption_map_some]

theorem dropped_eq (cells : List Cell) : (Compaction.compact (admits req) cells).dropped =
    cells.filter fun c => !admits req c := by
  rw [Compaction.compact_eq]

theorem share_perm (req : Request) (l : Located) (cells : List Cell) :
    ((Compaction.compact (admits req) cells).dropped ++ chosen req l cells).Perm cells := by
  rw [dropped_eq]
  calc
    ((cells.filter fun c => !admits req c) ++ chosen req l cells).Perm
        ((cells.filter fun c => !admits req c) ++ cells.filter (admits req)) := (chosen_perm l cells).append_left _
    ((cells.filter fun c => !admits req c) ++ cells.filter (admits req)).Perm
        (cells.filter (admits req) ++ cells.filter fun c => !admits req c) := List.perm_append_comm
    (cells.filter (admits req) ++ cells.filter fun c => !admits req c).Perm cells :=
      List.filter_append_perm (admits req) cells

theorem keptFirst_load (h : Heap) (creds : List Credential) :
    Compaction.KeptFirst (admits req) (h.load creds) ↔
      Compaction.KeptFirst (admitted (startFlags req) (req.allowList ≠ [])) creds := by
  have hcreds := load_creds h creds
  unfold Compaction.KeptFirst
  rw [← hcreds, List.pairwise_map, hcreds]
  exact Iff.rfl

theorem unaliased_iff (h : Heap) (l : Located) (creds : List Credential) :
    ((arranged req l (h.load creds)).reduceOption.map (·.handle)).Nodup ↔
      Compaction.KeptFirst (admitted (startFlags req) (req.allowList ≠ [])) creds := by
  have hnodup : ((h.load creds).map (·.handle)).Nodup := by
    rw [load_handles]
    exact List.nodup_range'
  rw [← keptFirst_load h creds, ← Compaction.compact_nodup_iff (admits req) (·.handle) (h.load creds) hnodup,
    arranged_live, Compaction.compact_live]
  exact (((chosen_perm l _).append_right _).map _).nodup_iff

end Memory

/-! The walk that a call begins. -/
section Walks

variable {e : Setting} {req : Request} {l : Located}

/-- The usable credentials in the order of the walk. -/
def walkList (req : Request) (l : Located) : List Credential :=
  let usable := l.creds.filter (admitted (startFlags req) (req.allowList ≠ []))
  if l.silent then usable else ExchangeSort.sort (·.boardCreation) usable

theorem getAssertion_checked {status : Status} (hchecks : checks e req = some status) :
    getAssertion e req = ⟨.error status, .reset, checkedPin e req⟩ := by
  unfold getAssertion
  dsimp only
  rw [hchecks]

theorem getAssertion_missing {status : Status} (hchecks : checks e req = none)
    (hlocate : locate e (rpIdHash e req) (startSilent req) req.allowList = .error status) :
    getAssertion e req = ⟨.error status, .reset, boundPin e req⟩ := by
  unfold getAssertion
  dsimp only
  rw [hchecks]
  dsimp only
  rw [hlocate]

theorem getAssertion_walk_creds (hchecks : checks e req = none)
    (hlocate : locate e (rpIdHash e req) (startSilent req) req.allowList = .ok l) :
    (getAssertion e req).walk.creds = [] ∧
        (asserted e req l = false ∨ ∃ status, (getAssertion e req).result = .error status) ∨
      asserted e req l = true ∧ (∃ body, (getAssertion e req).result = .ok body) ∧
        (getAssertion e req).walk.creds = (walkList req l).take (numberSelected e req l) := by
  unfold getAssertion
  dsimp only
  rw [hchecks]
  dsimp only
  rw [hlocate]
  dsimp only
  have hasserted : asserted e req l = (!presenceFails e req &&
      decide (numberFound e req l (l.creds.filter (admitted (startFlags req) (req.allowList ≠ []))) ≠ 0) &&
      decide (req.largeBlobKey ≠ some false) && !(l.silent && !l.resident) &&
      decide (1 < numberSelected e req l)) := rfl
  have hlist : walkList req l = if l.silent then l.creds.filter (admitted (startFlags req) (req.allowList ≠ []))
      else ExchangeSort.sort (·.boardCreation) (l.creds.filter (admitted (startFlags req) (req.allowList ≠ []))) := rfl
  have hnumber : numberSelected e req l = numberShown req l.resident
      (numberFound e req l (l.creds.filter (admitted (startFlags req) (req.allowList ≠ [])))) := rfl
  rw [← hlist, ← hnumber]
  cases hpresent : presenceFails e req with
  | true => exact .inl ⟨rfl, .inr ⟨_, rfl⟩⟩
  | false =>
    rw [if_neg Bool.false_ne_true]
    by_cases hfound : numberFound e req l (l.creds.filter (admitted (startFlags req) (req.allowList ≠ []))) = 0
    · rw [if_pos hfound]
      exact .inl ⟨rfl, .inr ⟨_, rfl⟩⟩
    rw [if_neg hfound]
    by_cases hblob : req.largeBlobKey = some false
    · rw [if_pos hblob]
      exact .inl ⟨rfl, .inr ⟨_, rfl⟩⟩
    rw [if_neg hblob]
    by_cases hsilent : l.silent = true ∧ l.resident = false
    · rw [if_pos hsilent]
      refine .inl ⟨rfl, .inl ?_⟩
      rw [hasserted, hsilent.1, hsilent.2]
      simp
    rw [if_neg hsilent]
    have hloud : (!(l.silent && !l.resident)) = true := by
      rw [Bool.not_eq_true', Bool.eq_false_iff, Ne, Bool.and_eq_true, Bool.not_eq_true']
      exact hsilent
    cases walkList req l with
    | nil => exact .inl ⟨rfl, .inr ⟨_, rfl⟩⟩
    | cons cred rest =>
      dsimp only
      cases respond e req false cred l.resident (numberSelected e req l) (flagsAfter req) with
      | error status => exact .inl ⟨rfl, .inr ⟨_, rfl⟩⟩
      | ok body =>
        dsimp only
        by_cases hmany : 1 < numberSelected e req l
        · rw [if_pos hmany]
          refine .inr ⟨?_, ⟨body, rfl⟩, rfl⟩
          rw [hasserted, hpresent, decide_eq_true hfound, decide_eq_true hblob, hloud, decide_eq_true hmany]
          rfl
        · rw [if_neg hmany]
          refine .inl ⟨rfl, .inl ?_⟩
          rw [hasserted, decide_eq_false hmany, Bool.and_false]

theorem load_filter (h : Heap) : ((h.load l.creds).filter (admits req)).map (·.cred) =
    l.creds.filter (admitted (startFlags req) (req.allowList ≠ [])) := by
  have hcreds : l.creds.filter (admitted (startFlags req) (req.allowList ≠ [])) =
      ((h.load l.creds).map (·.cred)).filter (admitted (startFlags req) (req.allowList ≠ [])) := by
    rw [load_creds]
  rw [hcreds, List.filter_map]
  rfl

theorem walkList_chosen (req : Request) (l : Located) (h : Heap) :
    (chosen req l (h.load l.creds)).map (·.cred) = walkList req l := by
  unfold chosen walkList
  dsimp only
  rw [← load_filter h]
  split_ifs
  · rfl
  · exact (ExchangeSort.sort_map Credential.boardCreation Cell.cred _).symm

theorem numberFound_asserted (hlocate : locate e (rpIdHash e req) (startSilent req) req.allowList = .ok l)
    (hasserted : asserted e req l = true) :
    numberFound e req l (l.creds.filter (admitted (startFlags req) (req.allowList ≠ []))) =
      (l.creds.filter (admitted (startFlags req) (req.allowList ≠ []))).length := by
  have hl := located_eq hlocate
  unfold asserted at hasserted
  simp only [Bool.and_eq_true, decide_eq_true_iff] at hasserted
  obtain ⟨⟨-, hloud⟩, -⟩ := hasserted
  unfold numberFound
  apply if_neg
  rintro ⟨-, hsilent, hlist⟩
  have hresident : l.resident = false := by
    rw [← hl] at hsilent ⊢
    exact (located_silent hsilent).2 hlist
  rw [hsilent, hresident] at hloud
  cases hloud

theorem numberSelected_eq (hlocate : locate e (rpIdHash e req) (startSilent req) req.allowList = .ok l)
    (hshort : req.allowList.length ≤ maxCredentialCountInList) (hasserted : asserted e req l = true) (h : Heap) :
    numberSelected e req l = ((h.load l.creds).filter (admits req)).length := by
  have hl := located_eq hlocate
  have hfound := numberFound_asserted hlocate hasserted
  unfold asserted at hasserted
  simp only [Bool.and_eq_true, decide_eq_true_iff] at hasserted
  obtain ⟨-, hmany⟩ := hasserted
  have hcount : (l.creds.filter (admitted (startFlags req) (req.allowList ≠ []))).length ≤
      maxCredentialCountInList := by
    have hlength : l.creds.length ≤ maxCredentialCountInList := by
      rw [← hl]
      exact located_length hshort
    exact (List.length_filter_le _ _).trans hlength
  unfold numberSelected numberShown at hmany ⊢
  rw [hfound] at hmany ⊢
  split_ifs at hmany ⊢
  · omega
  · rw [Nat.min_eq_left hcount, ← load_filter h, List.length_map]

end Walks

/-! One call. -/
section Step

variable {e : Setting} {req : Request}

theorem resetGna_empty {h : Heap} (hkept : h.kept = []) : h.resetGna = h := by
  obtain ⟨next, released, kept⟩ := h
  dsimp only at hkept
  rw [hkept]
  unfold Heap.resetGna Heap.free
  rw [List.map_nil, List.append_nil]

theorem free_free (h : Heap) (first second : List Cell) : (h.free first).free second = h.free (first ++ second) := by
  unfold Heap.free
  rw [List.map_append, List.append_assoc]

theorem callHeap_owned (before : Heap) (hbefore : before.Once)
    (hshort : req.allowList.length ≤ maxCredentialCountInList)
    (hfirst : checks e req = none → ∀ l, locate e (rpIdHash e req) (startSilent req) req.allowList = .ok l →
      Compaction.KeptFirst (admitted (startFlags req) (req.allowList ≠ [])) l.creds) :
    (callHeap e req before).Once ∧
      (callHeap e req before).kept.map (·.cred) = (getAssertion e req).walk.creds := by
  have hreset := hbefore.resetGna
  unfold callHeap
  dsimp only
  cases hchecks : checks e req with
  | some status =>
    rw [getAssertion_checked hchecks]
    exact ⟨hreset, rfl⟩
  | none =>
    dsimp only
    cases hlocate : locate e (rpIdHash e req) (startSilent req) req.allowList with
    | error status =>
      rw [getAssertion_missing hchecks hlocate]
      refine ⟨?_, rfl⟩
      -- all of what was loaded is released
      have hall : (before.resetGna.load (located e req).creds ++ []).Perm
          (before.resetGna.load (located e req).creds) := by
        rw [List.append_nil]
      exact hreset.share rfl _ hall
    | ok l =>
      dsimp only
      rw [located_eq hlocate]
      have hwalk := getAssertion_walk_creds hchecks hlocate
      have hshare := share_perm req l (before.resetGna.load l.creds)
      cases hasserted : asserted e req l with
      | true =>
        rw [if_pos rfl, arranged_take l _ (numberSelected_eq hlocate hshort hasserted before.resetGna)]
        have honce := hreset.share rfl l.creds hshare
        have hempty : (Heap.free { before.resetGna with
              next := before.resetGna.next + (before.resetGna.load l.creds).length }
            (Compaction.compact (admits req) (before.resetGna.load l.creds)).dropped).kept = [] := rfl
        rw [resetGna_empty hempty]
        rcases hwalk with ⟨hnone, hfalse | ⟨status, herror⟩⟩ | ⟨-, ⟨body, hok⟩, hcreds⟩
        · rw [hasserted] at hfalse
          cases hfalse
        · rw [herror, hnone]
          exact ⟨honce.resetGna, rfl⟩
        · rw [hok, hcreds]
          refine ⟨honce, ?_⟩
          have hnumber := numberSelected_eq hlocate hshort hasserted before.resetGna
          have hchosen := walkList_chosen req l before.resetGna
          have hlength := congrArg List.length hchosen
          rw [List.length_map, chosen_length, ← hnumber] at hlength
          rw [List.take_of_length_le (le_of_eq hlength.symm)]
          exact hchosen
      | false =>
        rw [if_neg Bool.false_ne_true]
        have hnil := (Compaction.drop_filter_nil_iff (admits req) (before.resetGna.load l.creds)).mpr
          ((keptFirst_load before.resetGna l.creds).mpr (hfirst hchecks l hlocate))
        rw [arranged_live, hnil, List.append_nil, free_free]
        have hnone : (getAssertion e req).walk.creds = [] := by
          rcases hwalk with ⟨hnone, -⟩ | ⟨htrue, -⟩
          · exact hnone
          · rw [hasserted] at htrue
            cases htrue
        rw [hnone]
        refine ⟨?_, rfl⟩
        have hall := hshare
        rw [← List.append_nil (_ ++ _)] at hall
        exact hreset.share rfl l.creds hall

/-- A call of its own frees the memory of a credential twice. -/
def FreesTwice (e : Setting) (req : Request) : Prop := ¬ (callHeap e req ⟨0, [], []⟩).released.Nodup

instance (e : Setting) (req : Request) : Decidable (FreesTwice e req) := inferInstanceAs (Decidable (¬ _))

/-- The call gets as far as the filter and begins no walk, and of what it has loaded a credential that is refused comes
before one that is admitted. -/
def RefusedFirst (e : Setting) (req : Request) : Prop :=
  checks e req = none ∧ ∃ l, locate e (rpIdHash e req) (startSilent req) req.allowList = .ok l ∧
    asserted e req l = false ∧ ¬ Compaction.KeptFirst (admitted (startFlags req) (req.allowList ≠ [])) l.creds

theorem fresh_nodup (creds : List Credential) : ((Heap.load ⟨0, [], []⟩ creds).map (·.handle)).Nodup := by
  rw [load_handles]
  exact List.nodup_range'

/-- The front of the array is freed, and then what the filter has left behind it, where it was. -/
theorem freed_nodup_iff (req : Request) (l : Located) (creds : List Credential) :
    (((Compaction.compact (admits req) (Heap.load ⟨0, [], []⟩ creds)).dropped ++
        (arranged req l (Heap.load ⟨0, [], []⟩ creds)).reduceOption).map (·.handle)).Nodup ↔
      Compaction.KeptFirst (admitted (startFlags req) (req.allowList ≠ [])) creds := by
  rw [← unaliased_iff ⟨0, [], []⟩ l creds]
  constructor
  · intro hnodup
    rw [List.map_append] at hnodup
    exact (List.nodup_append.mp hnodup).2.1
  · intro hnodup
    have hnil := (Compaction.drop_filter_nil_iff (admits req) (Heap.load ⟨0, [], []⟩ creds)).mpr
      ((keptFirst_load ⟨0, [], []⟩ creds).mpr ((unaliased_iff ⟨0, [], []⟩ l creds).mp hnodup))
    rw [arranged_live, hnil, List.append_nil]
    exact ((share_perm req l _).map _).nodup_iff.mpr (fresh_nodup creds)

theorem numberSelected_le {l : Located} (hlocate : locate e (rpIdHash e req) (startSilent req) req.allowList = .ok l)
    (hasserted : asserted e req l = true) (h : Heap) :
    numberSelected e req l ≤ (chosen req l (h.load l.creds)).length := by
  have hfound := numberFound_asserted hlocate hasserted
  unfold asserted at hasserted
  simp only [Bool.and_eq_true, decide_eq_true_iff] at hasserted
  obtain ⟨-, hmany⟩ := hasserted
  have hchosen : (chosen req l (h.load l.creds)).length =
      (l.creds.filter (admitted (startFlags req) (req.allowList ≠ []))).length := by
    rw [chosen_length, ← load_filter h, List.length_map]
  unfold numberSelected numberShown at hmany ⊢
  rw [hfound] at hmany ⊢
  rw [hchosen]
  split_ifs at hmany ⊢
  · omega
  · exact Nat.min_le_left _ _

theorem freesTwice_iff : FreesTwice e req ↔ RefusedFirst e req := by
  have hreset : Heap.resetGna ⟨0, [], []⟩ = ⟨0, [], []⟩ := rfl
  unfold FreesTwice RefusedFirst callHeap
  rw [hreset]
  dsimp only
  cases hchecks : checks e req with
  | some status => simp
  | none =>
    dsimp only
    cases hlocate : locate e (rpIdHash e req) (startSilent req) req.allowList with
    | error status =>
      have honce := fresh_nodup (located e req).creds
      simp [Heap.free, honce]
    | ok l =>
      dsimp only
      rw [located_eq hlocate]
      have hshare := ((share_perm req l (Heap.load ⟨0, [], []⟩ l.creds)).map (·.handle)).nodup_iff.mpr
        (fresh_nodup l.creds)
      cases hasserted : asserted e req l with
      | true =>
        rw [if_pos rfl]
        -- the walk keeps chosen credentials only, and what it does not keep was dropped, each once
        have hkept : ((arranged req l (Heap.load ⟨0, [], []⟩ l.creds)).take (numberSelected e req l)).reduceOption =
            (chosen req l (Heap.load ⟨0, [], []⟩ l.creds)).take (numberSelected e req l) := by
          have hle := numberSelected_le hlocate hasserted ⟨0, [], []⟩
          rw [arranged_eq, List.take_append_of_le_length (by rw [List.length_map]; exact hle), ← List.map_take,
            Compaction.reduceOption_map_some]
        rw [hkept]
        have hfalse : ¬ ∃ l', (Except.ok l : Except Status Located) = .ok l' ∧ asserted e req l' = false ∧
            ¬ Compaction.KeptFirst (admitted (startFlags req) (req.allowList ≠ [])) l'.creds := by
          rintro ⟨l', hl', hnot, -⟩
          cases hl'
          rw [hasserted] at hnot
          cases hnot
        simp only [hfalse, and_false, iff_false, not_not]
        have hwhole := (List.Sublist.append (List.Sublist.refl (Compaction.compact (admits req)
          (Heap.load ⟨0, [], []⟩ l.creds)).dropped) (List.take_sublist (numberSelected e req l)
            (chosen req l (Heap.load ⟨0, [], []⟩ l.creds)))).map (·.handle)
        have honce := hshare.sublist hwhole
        rw [List.map_append] at honce
        cases (getAssertion e req).result with
        | error status => simpa [Heap.free, Heap.resetGna] using honce
        | ok body => simpa [Heap.free, Heap.resetGna] using (List.nodup_append.mp honce).1
      | false =>
        rw [if_neg Bool.false_ne_true, free_free]
        have hiff := freed_nodup_iff req l l.creds
        simp only [Heap.free, List.nil_append, hiff, true_and]
        constructor
        · exact fun h => ⟨l, rfl, hasserted, h⟩
        · rintro ⟨l', hl', -, h⟩
          cases hl'
          exact h

theorem getNextAssertion_creds (w : Walk) :
    ((∃ status, (getNextAssertion e w).result = .error status) ∧ (getNextAssertion e w).walk.creds = []) ∨
      ((∃ body, (getNextAssertion e w).result = .ok body) ∧
        (getNextAssertion e w).walk.creds = if w.counter + 1 = w.number then [] else w.creds) := by
  unfold getNextAssertion
  dsimp only
  by_cases hchannel : w.channel ≠ e.cid
  · rw [if_pos hchannel]
    exact .inl ⟨⟨_, rfl⟩, rfl⟩
  rw [if_neg hchannel]
  by_cases hover : w.number ≤ w.counter
  · rw [if_pos hover]
    exact .inl ⟨⟨_, rfl⟩, rfl⟩
  rw [if_neg hover]
  by_cases hidle : w.idle e.now = true
  · rw [if_pos hidle]
    exact .inl ⟨⟨_, rfl⟩, rfl⟩
  rw [if_neg hidle]
  cases w.request with
  | none => exact .inl ⟨⟨_, rfl⟩, rfl⟩
  | some saved =>
    dsimp only
    cases nextAssertion e w saved with
    | error status => exact .inl ⟨⟨_, rfl⟩, rfl⟩
    | ok body =>
      refine .inr ⟨⟨_, rfl⟩, ?_⟩
      dsimp only
      split_ifs <;> rfl

theorem nextHeap_owned {s : Owner} (hs : Owned s) :
    (nextHeap e s.walk s.heap).Once ∧
      (nextHeap e s.walk s.heap).kept.map (·.cred) = (getNextAssertion e s.walk).walk.creds := by
  have hreset : s.heap.resetGna.Once := Heap.Once.resetGna hs.once
  unfold nextHeap
  rcases getNextAssertion_creds (e := e) s.walk with ⟨⟨status, herror⟩, hcreds⟩ | ⟨⟨body, hok⟩, hcreds⟩
  · rw [herror, hcreds]
    exact ⟨hreset, rfl⟩
  · rw [hok, hcreds]
    dsimp only
    split_ifs
    · exact ⟨hreset, rfl⟩
    · exact ⟨hs.once, hs.walk⟩

theorem oneOwner_iff {s : Owner} {i : Setting × Command} (hs : Owned s) (hparsed : Parsed i) :
    OneOwner s i ↔ RefusedLast i := by
  obtain ⟨e, command⟩ := i
  constructor
  · intro h req l hcommand hchecks hlocate
    have halias := h.2 req l hcommand hchecks hlocate
    rw [located_eq hlocate, unaliased_iff] at halias
    exact halias
  · intro h
    refine ⟨?_, ?_⟩
    · cases command with
      | getAssertion req =>
        obtain ⟨honce, hwalk⟩ := callHeap_owned s.heap hs.once (hparsed req rfl)
          (fun hchecks l hlocate => h req l rfl hchecks hlocate)
        exact ⟨honce, hwalk⟩
      | getNextAssertion =>
        obtain ⟨honce, hwalk⟩ := nextHeap_owned (e := e) hs
        exact ⟨honce, hwalk⟩
      | otherCommand => exact ⟨Heap.Once.resetGna hs.once, rfl⟩
    · intro req l hcommand hchecks hlocate
      rw [located_eq hlocate, unaliased_iff]
      exact h req l hcommand hchecks hlocate

/-- In a run every command keeps each loaded credential to one owner, released once or kept for the walk, exactly when
no call loads a credential that credProtect refuses before one that it admits. -/
theorem one_owner_iff {s : Owner} (hs : Owned s) (is : List (Setting × Command)) (hparsed : ∀ i ∈ is, Parsed i) :
    Along ownerStep OneOwner s is ↔ Along ownerStep (fun _ i => RefusedLast i) s is := by
  have hstep : ∀ s, ∀ i ∈ is, Owned s → (OneOwner s i ↔ RefusedLast i) :=
    fun _ i hi hs => oneOwner_iff hs (hparsed i hi)
  have hkeeps : ∀ s, ∀ i ∈ is, Owned s → OneOwner s i → Owned (ownerStep s i) := fun _ _ _ _ h => h.1
  exact along_iff hstep hkeeps s hs

end Step

/-! Runs. -/

def noOwner : Owner := ⟨{}, ⟨0, [], []⟩⟩

theorem noOwner_owned : Owned noOwner := ⟨.refl _, rfl⟩

/-- A device on which the credential `0` needs verification. -/
def guardedDevice : Device :=
  { recordDevice with
    load := fun id _ => some
      { id := id, boardCreation := (id.getD 0 0).toNat, curve := 1
        credProtect := if id = [0] then uvRequired else 0 } }

def guardedSetting (n : Nat) : Setting := { recordSetting n with device := guardedDevice }

/-- Without protected credentials a walk over three is begun, and ended by another command. -/
theorem walk_owned : Along ownerStep OneOwner noOwner
    [(recordSetting 3, .getAssertion plainRequest), (recordSetting 3, .getNextAssertion),
      (recordSetting 3, .otherCommand)] := by
  refine (one_owner_iff noOwner_owned _ ?_).mpr ⟨?_, ?_, ?_, trivial⟩
  · intro i hi req hcommand
    rcases List.mem_cons.mp hi with rfl | hi
    · cases hcommand
      decide
    rcases List.mem_cons.mp hi with rfl | hi
    · cases hcommand
    · rw [List.mem_singleton.mp hi] at hcommand
      cases hcommand
  · intro req l hcommand _ hlocate
    cases hcommand
    have hl : (locateResident (recordSetting 3) (rpIdHash (recordSetting 3) plainRequest)
        (startSilent plainRequest)).creds = l.creds := congrArg Located.creds (Except.ok.inj hlocate)
    have hadmitted : ∀ cred ∈ (locateResident (recordSetting 3) (rpIdHash (recordSetting 3) plainRequest)
        (startSilent plainRequest)).creds,
        admitted (startFlags plainRequest) (plainRequest.allowList ≠ []) cred = true := by
      decide +kernel
    rw [hl] at hadmitted
    exact List.pairwise_of_forall_mem_list fun x hx _ _ _ => hadmitted x hx
  · intro req l hcommand
    cases hcommand
  · intro req l hcommand
    cases hcommand

/-- The second of two credentials is released twice when the first one is refused. -/
theorem double_free :
    (callHeap (guardedSetting 2) plainRequest noOwner.heap).released = [0, 1, 1] ∧
      ¬ OneOwner noOwner (guardedSetting 2, .getAssertion plainRequest) := by
  have hreleased : (callHeap (guardedSetting 2) plainRequest noOwner.heap).released = [0, 1, 1] := by decide +kernel
  refine ⟨hreleased, ?_⟩
  intro h
  have hlength := h.1.once.length_eq
  have hstep : (ownerStep noOwner (guardedSetting 2, .getAssertion plainRequest)).heap =
      callHeap (guardedSetting 2) plainRequest noOwner.heap := rfl
  rw [hstep, hreleased] at hlength
  have hcount : [0, 1, 1].length + (callHeap (guardedSetting 2) plainRequest noOwner.heap).kept.length =
      (callHeap (guardedSetting 2) plainRequest noOwner.heap).next := by
    rw [List.length_append, List.length_map, List.length_range] at hlength
    exact hlength
  revert hcount
  decide +kernel

end Assert

end Cred

end KeyWallet
