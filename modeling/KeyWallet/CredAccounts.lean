import KeyWallet.CredStore
import KeyWallet.ContainerView
import KeyWallet.ContainerRemoval
import KeyWallet.ResidentIsolation

/-! Which account each slot is of, over any sequence of stores and deletions. -/
namespace KeyWallet

open CrashProgram

namespace Cred

namespace Account

open Container (StoreMachine Content)
open Container.Resident (Blob RpIdHash Call efCred canCreate readObject layout)

/-- A credential as credential_store puts it away. -/
structure Tenant (k : Maker) where
  rpIdHash : RpIdHash
  credId : Blob
  publicKey : Blob
  cred : Credential
  loads : k.device.load credId.1 rpIdHash.1 = some cred

namespace Tenant

variable {k : Maker} (t : Tenant k)

/-- The RP and the user. -/
def account : Data × Data := (t.rpIdHash.1, t.cred.userId.getD [])

/-- The credential as it is loaded from its slot. -/
def stored : Credential :=
  { t.cred with residentId := some (k.device.deriveResident t.credId.1) }

def writes : List Container.Write :=
  Container.Resident.identityWrites t.rpIdHash (clientRecord k t.credId.1 t.rpIdHash.1) t.credId
    t.publicKey ++
  [Container.Resident.metadataWrite [0, 0, 0, 0, 0, 0], Container.Resident.stateWrite [0, 0, 0, 0, 0, 0]]

def values : Container.Values := Container.putValues (fun _ _ => none) t.writes

def objects : Objects where
  rpIdHash := .ok t.rpIdHash.1
  clientId := .ok (clientRecord k t.credId.1 t.rpIdHash.1).1
  credential := .ok t.credId.1
  publicKey := .ok t.publicKey.1
  metadata := .ok [0, 0, 0, 0, 0, 0]
  privateKey := .error .fileNotFound
  state := .ok ⟨Container.Resident.statusActive, 0, 0⟩

def slot (i : SlotIndex) : SlotFile := ⟨true, markerBytes i, t.objects⟩

end Tenant

/-- The types of object that a stored credential has. -/
def storedTypes : List Nat := [1, 2, 3, 4, 5, 7]

/-- Every object is in the file that belongs to the slot of the manifest. -/
def Aligned (i : SlotIndex) (current : Option (Nat × Container.Manifest)) : Prop :=
  ∀ o ∈ Container.objectsOf current, o.objectType ∈ storedTypes ∧ o.objectTag = 0 ∧
    o.recordId = Container.Resident.recordFid i.val (1 - Container.targetSlotOf current) o.objectType

/-- The slot is of this tenant. Without one it has no marker, whatever its container holds. -/
def Housed (k : Maker) (files : Container.Files) (i : SlotIndex) (t : Option (Tenant k)) : Prop :=
  ∃ current vals, Container.Steady (Container.Resident.scheme i.isLt) files current vals ∧
    Aligned i current ∧
    match t with
    | none => files (efCred + i.val) = none
    | some t => files (efCred + i.val) = some (.marker .resident i.val) ∧ vals = t.values

section Housed

variable {k : Maker} {files files' : Container.Files} {i j : SlotIndex} {t : Tenant k}

theorem writes_valid (t : Tenant k) : Container.Writes layout t.writes := by
  have hcall : (Call.create t.rpIdHash (clientRecord k t.credId.1 t.rpIdHash.1) t.credId
      t.publicKey).writes 0 false (fun _ => none) = .ok t.writes := rfl
  exact Call.writes_valid hcall

theorem objectsAt_eq {current : Option (Nat × Container.Manifest)}
    (h : Container.Steady (Container.Resident.scheme i.isLt) files current t.values) (legacy : Bool) :
    objectsAt legacy files i = t.objects := by
  have hread : ∀ ty, readObject i.val legacy files ty = Container.Resident.shown (t.values ty 0) :=
    fun ty => Container.Resident.readObject_eq h.holds ty
  have hrp : Container.read layout files i.val legacy rpIdHashLen
      Container.Resident.objectRpIdHash 0 = .ok t.rpIdHash.1 := by
    apply h.holds.read legacy Container.Resident.objectRpIdHash 0
    intro d hd
    have hd' : some t.rpIdHash.1 = some d := hd
    rw [← Option.some.inj hd', t.rpIdHash.2]
    rfl
  have hstate : Container.Resident.readMetadata i.val legacy files =
      .ok ⟨Container.Resident.statusActive, 0, 0⟩ := by
    have hbytes : Container.read layout files i.val legacy Container.Resident.metadataSize
        Container.Resident.objectState 0 = .ok [0, 0, 0, 0, 0, 0] := by
      apply h.holds.read legacy Container.Resident.objectState 0
      intro d hd
      have hd' : some [0, 0, 0, 0, 0, 0] = some d := hd
      rw [← Option.some.inj hd']
      rfl
    simp only [Container.Resident.readMetadata, hbytes]
    rfl
  simp only [objectsAt, hread, hrp, hstate]
  rfl

theorem Housed.slotAt_eq {disk : Disk} {t : Option (Tenant k)}
    (h : Housed k disk.machine.view i t) : slotAt k disk i = t.map (Tenant.slot · i) := by
  obtain ⟨current, vals, hst, -, hfile⟩ := h
  cases t with
  | none => simp only [slotAt, Container.stored_none hfile, Option.map_none]
  | some t =>
    obtain ⟨hmarker, rfl⟩ := hfile
    have hstored : Container.stored disk.machine.view (efCred + i.val) =
        some (.marker .resident i.val) := by
      simp [Container.stored, hmarker, Option.filter, Content.size]
    simp only [slotAt, hstored, Option.map_some, if_true, objectsAt_eq hst, Tenant.slot]

theorem Tenant.clientId_take (t : Tenant k) :
    (clientRecord k t.credId.1 t.rpIdHash.1).1.take residentLen =
      k.device.deriveResident t.credId.1 := by
  simp only [clientRecord]
  rw [List.append_assoc, List.take_append_of_le_length (Nat.le_of_eq (k.derive_length _).symm)]
  exact List.take_of_length_le (Nat.le_of_eq (k.derive_length _))

theorem Tenant.clientId_length (t : Tenant k) :
    ¬ (clientRecord k t.credId.1 t.rpIdHash.1).1.length < residentLen := by
  simp only [clientRecord, List.length_append, k.derive_length]
  omega

theorem Tenant.matchesRp_eq (t : Tenant k) (rpIdHash : Data) :
    matchesRp (t.slot i) (some rpIdHash) = decide (t.rpIdHash.1 = rpIdHash) := by
  have hlen : t.rpIdHash.1.length = rpIdHashLen := t.rpIdHash.2
  simp only [matchesRp, residentRpIdHash, Tenant.slot, Tenant.objects, if_true, if_pos hlen]

theorem Tenant.loadResident_eq (t : Tenant k) (now : Option Nat) :
    loadResident (k.deviceAt now) (t.slot i) t.rpIdHash.1 = .ok t.stored := by
  have husable : residentUsable (k.deviceAt now) (t.slot i) = true := by
    simp [residentUsable, readMetadata, Tenant.slot, Tenant.objects, Container.Resident.statusActive,
      statusExpired, Container.Resident.statusRevoked]
  have hload : (k.deviceAt now).load t.credId.1 t.rpIdHash.1 = some t.cred := t.loads
  have hnative : ¬ ((0 : BitVec 8) = propertyImported) := by decide
  have hmarker : (t.slot i).marker = true := rfl
  have hobjects : (t.slot i).objects = t.objects := rfl
  simp only [loadResident, hmarker, husable, t.matchesRp_eq, if_true, decide_true, Bool.true_eq_false,
    if_false, loadContainer, hobjects, Tenant.objects, if_neg t.clientId_length, if_neg hnative, hload,
    t.clientId_take]
  rfl

/-! Storing a credential in a slot. -/

theorem mem_storedTypes {ty : Nat} (h : ty ∈ storedTypes) :
    ty ∈ Container.Resident.objectTypes := by
  simp only [storedTypes, Container.Resident.objectTypes, List.mem_cons, List.not_mem_nil,
    or_false] at *
  omega

theorem Tenant.covers (t : Tenant k) {ty : Nat} (h : ty ∈ storedTypes) :
    ∃ w ∈ t.writes, w.key = (ty, 0) := by
  have hkeys : t.writes.map Container.Write.key = storedTypes.map fun ty => (ty, 0) := rfl
  have hmem : (ty, 0) ∈ t.writes.map Container.Write.key := by
    rw [hkeys]
    exact List.mem_map_of_mem h
  exact List.mem_map.mp hmem

theorem Tenant.writes_type (t : Tenant k) {w : Container.Write} (h : w ∈ t.writes) :
    w.objectType ∈ storedTypes ∧ w.objectTag = 0 := by
  have hkeys : t.writes.map Container.Write.key = storedTypes.map fun ty => (ty, 0) := rfl
  have hmem : w.key ∈ storedTypes.map fun ty => (ty, 0) := hkeys ▸ List.mem_map_of_mem h
  obtain ⟨ty, hty, he⟩ := List.mem_map.mp hmem
  obtain ⟨h1, h2⟩ := Prod.mk.inj he
  exact ⟨h1 ▸ hty, h2.symm⟩

variable {current : Option (Nat × Container.Manifest)} {vals : Container.Values}

theorem Aligned.apart (h : Aligned i current)
    (hst : Container.Steady (Container.Resident.scheme i.isLt) files current vals) (t : Tenant k) :
    Container.Apart (Container.Resident.scheme i.isLt) current t.writes := by
  intro w hw o ho _ he
  obtain ⟨hty, -, hfid⟩ := h o ho
  have hτ := hst.target
  have hw' := mem_storedTypes (t.writes_type hw).1
  rw [hfid] at he
  have hother : 1 - Container.targetSlotOf current < 2 := by omega
  have hslots := Container.Resident.recordFid_inj hother hτ (mem_storedTypes hty) hw' he
  omega

theorem Aligned.updated (h : Aligned i current)
    (hst : Container.Steady (Container.Resident.scheme i.isLt) files current vals) (t : Tenant k) :
    Aligned i (Container.updated (Container.Resident.scheme i.isLt) current t.writes) := by
  have hτ := hst.target
  intro o ho
  rcases (hst.nextOf_mem (writes_valid t) o).mp ho with ⟨w, hw, rfl⟩ | ⟨ho, hne⟩
  · obtain ⟨hty, htag⟩ := t.writes_type hw
    refine ⟨hty, htag, ?_⟩
    have hslot : 1 - (1 - Container.targetSlotOf current) = Container.targetSlotOf current := by omega
    show Container.Resident.recordFid i.val (Container.targetSlotOf current) w.objectType =
      Container.Resident.recordFid i.val (1 - (1 - Container.targetSlotOf current)) w.objectType
    rw [hslot]
  · -- no object of the old credential is left
    obtain ⟨hty, htag, -⟩ := h o ho
    obtain ⟨w, hw, hkey⟩ := t.covers hty
    refine absurd ?_ (hne w hw)
    rw [hkey, ← htag]
    rfl

theorem Aligned.putValues_eq (h : Aligned i current)
    (hst : Container.Steady (Container.Resident.scheme i.isLt) files current vals) (t : Tenant k) :
    Container.putValues vals t.writes = t.values := by
  funext ty g
  simp only [Tenant.values, Container.putValues]
  cases hfind : t.writes.find? fun w => w.key = (ty, g) with
  | some w => rfl
  | none =>
    show vals ty g = none
    by_contra hv
    rcases current with _ | ⟨σ, c⟩
    · exact hv (congrFun (congrFun hst.2 ty) g)
    · obtain ⟨o, ho, rfl, rfl⟩ := hst.1.named ty g hv
      obtain ⟨hty, htag, -⟩ := h o ho
      obtain ⟨w, hw, hkey⟩ := t.covers hty
      have hnot := List.find?_eq_none.mp hfind w hw
      rw [htag, hkey] at hnot
      simp at hnot

theorem marker_foreign (i : SlotIndex) :
    Container.Foreign layout i.val (Container.Resident.scheme i.isLt).fid (efCred + i.val) := by
  have hi := i.isLt
  constructor
  · intro s _
    have hrange := Container.Resident.manifestFid_range i.val s
    rw [Container.Resident.layout_manifestFid]
    simp only [efCred]
    omega
  · intro w s hw hs
    have hrange := Container.Resident.recordFid_range i.val hs (Container.Resident.accepted_type hw).1
    show efCred + i.val ≠ Container.Resident.recordFid i.val s w.objectType
    simp only [efCred]
    omega

theorem wp_marker {f : Faults} {m : StoreMachine} (hm : m.view (efCred + i.val) = none ∨
      m.view (efCred + i.val) = some (.marker .resident i.val)) :
    wp f (layout.activate i.val)
      (fun _ n => n.view (efCred + i.val) = some (.marker .resident i.val))
      (fun _ n => n.view (efCred + i.val) = m.view (efCred + i.val) ∨
        n.view (efCred + i.val) = some (.marker .resident i.val)) (fun _ => True) m := by
  show wp f (Container.Resident.activate i.val) _ _ _ m
  have hmod : i.val % 256 = i.val := Nat.mod_eq_of_lt i.isLt
  simp only [Container.Resident.activate, bind_eq, wp_bind, wp_consult, hmod]
  rcases hm with hnone | hmarker
  · have habsent : ¬ (m.view (efCred + i.val) = some (.marker .resident i.val)) := by simp [hnone]
    have hself : (m.write (efCred + i.val) (some (.marker .resident i.val))).view (efCred + i.val) =
        some (.marker .resident i.val) := Function.update_self _ _ _
    simp only [habsent, decide_false, Bool.false_eq_true, if_false, Container.Resident.markerWrite,
      bind_eq, wp_bind]
    apply Container.wp_replaceFile trivial trivial
    · simp only [wp_liftCheck, wp_commitSync, if_true, pure_eq, wp_done, Bool.false_eq_true, if_false,
        wp_fail]
      exact ⟨trivial, hself, fun _ => ⟨.inr hself, .inr hself⟩⟩
    · intro _ e
      refine ⟨.inl rfl, .inl ?_, .inr hself⟩
      rw [hnone]
      exact Function.update_self _ _ _
  · simp only [hmarker, decide_true, if_true, pure_eq, wp_done]

theorem retire_touches (i : SlotIndex) (candidates : Nat → Option Container.Manifest)
    (next : Container.Manifest) (τ : Nat) :
    Touches (fun k => k ≠ efCred + i.val) (layout.retire i.val candidates next τ) := by
  have hi := i.isLt
  have hpart : ∀ s < 2, Touches (fun k => k ≠ efCred + i.val)
      (Container.sweepSlot (layout.manifestFid i.val s) (Container.Resident.recordFid (i.val % 256) s)
        Container.Resident.objectTypes next τ s) := by
    intro s hs
    apply (Container.sweepSlot_confined (layout.manifestFid i.val s)
      (Container.Resident.recordFid (i.val % 256) s) Container.Resident.objectTypes next τ s).touches
    rintro j v ⟨-, ⟨rfl, -⟩ | ⟨-, ty, hty, rfl⟩⟩
    · exact ((marker_foreign i).1 s hs).symm
    · have hrange := Container.Resident.recordFid_range (i.val % 256) hs hty
      simp only [efCred]
      omega
  apply Touches.bind (hpart 0 (by decide))
  intro _
  apply Touches.bind (hpart 1 (by decide))
  exact fun _ _ => trivial

theorem wp_keeps_marker {f : Faults} {m : StoreMachine}
    (hm : m.view (efCred + i.val) = some (.marker .resident i.val))
    (candidates : Nat → Option Container.Manifest) (next : Container.Manifest) (τ : Nat) :
    wp f (layout.retire i.val candidates next τ)
      (fun _ n => n.view (efCred + i.val) = some (.marker .resident i.val)) (fun _ _ => True)
      (fun _ => True) m := by
  have hkeep := wp_touches (f := f) (m := m)
    (I := fun n : StoreMachine => n.view (efCred + i.val) = some (.marker .resident i.val))
    (fun n j v hj hn => (Function.update_of_ne hj.symm _ _).trans hn) (fun _ _ hn => hn)
    (fun _ hn => hn) (fun _ _ hn => hn) (fun _ _ hn => hn) (retire_touches i candidates next τ) hm
  exact wp_mono hkeep (fun _ _ hn => hn) (fun _ _ _ => trivial) (fun _ _ => trivial)

theorem Housed.marker {u : Option (Tenant k)} (h : Housed k files i u) :
    files (efCred + i.val) = none ∨ files (efCred + i.val) = some (.marker .resident i.val) := by
  obtain ⟨_, _, _, _, hfile⟩ := h
  cases u with
  | none => exact .inl hfile
  | some t => exact .inr hfile.1

/-- A manifest of the slot has been written, and the slot has its file. -/
def Placed (i : SlotIndex) (before after : Container.Files) : Prop :=
  (∃ s < 2, after (layout.manifestFid i.val s) ≠ none ∧
    after (layout.manifestFid i.val s) ≠ before (layout.manifestFid i.val s)) ∧
  after (efCred + i.val) ≠ none

theorem not_placed {before after : Container.Files}
    (h : ∀ s < 2, after (layout.manifestFid i.val s) = none ∨
      after (layout.manifestFid i.val s) = before (layout.manifestFid i.val s)) :
    ¬ Placed i before after := by
  rintro ⟨⟨s, hs, hnone, hnew⟩, -⟩
  exact (h s hs).elim hnone hnew

theorem not_placed_of_steady {before : Container.Files}
    (hbefore : Container.Steady (Container.Resident.scheme i.isLt) before current vals)
    (hafter : Container.Steady (Container.Resident.scheme i.isLt) files current vals)
    (htarget : files (layout.manifestFid i.val (Container.targetSlotOf current)) = none ∨
      files (layout.manifestFid i.val (Container.targetSlotOf current)) =
        before (layout.manifestFid i.val (Container.targetSlotOf current))) :
    ¬ Placed i before files := by
  apply not_placed
  intro s hs
  rcases current with _ | ⟨σ, c⟩
  · exact .inl (hafter.1 s hs)
  · by_cases he : s = σ
    · rw [he]
      exact .inr (hafter.1.manifest.trans hbefore.1.manifest.symm)
    · have hslot : s = 1 - σ := by
        have := hbefore.1.slot
        omega
      rw [hslot]
      exact htarget

/-- After an error the slot is as it was, and the new credential is not placed, or it is the new
credential's. -/
theorem Aligned.undone {before : Container.Files} {u : Option (Tenant k)} (h : Aligned i current)
    (hst : Container.Steady (Container.Resident.scheme i.isLt) before current vals)
    (hfile : match u with
      | none => before (efCred + i.val) = none
      | some t => before (efCred + i.val) = some (.marker .resident i.val) ∧ vals = t.values)
    (hundone : Container.Undone (Container.Resident.scheme i.isLt) current vals t.writes
      (fun after => after (efCred + i.val) = before (efCred + i.val) ∨
        after (efCred + i.val) = some (.marker .resident i.val)) before files) :
    Housed k files i u ∧ ¬ Placed i before files ∨
      Housed k files i (some t) ∧ Placed i before files := by
  rcases hundone with ⟨hold, hkept, htarget⟩ | ⟨hnew, hmarked⟩
  · left
    refine ⟨⟨current, vals, hold, h, ?_⟩, not_placed_of_steady hst hold htarget⟩
    rw [hkept _ (marker_foreign i)]
    exact hfile
  · have hvals := h.putValues_eq hst t
    rw [hvals] at hnew
    have hplaced : files (efCred + i.val) ≠ none → Placed i before files := by
      refine fun hmarker => ⟨⟨_, hst.target, ?_, ?_⟩, hmarker⟩
      · rw [hnew.1.manifest]
        exact Option.some_ne_none _
      · rw [hnew.1.manifest]
        exact (hst.target_new t.writes).symm
    -- the marker is as before, or it has been written
    have hcases : files (efCred + i.val) = before (efCred + i.val) ∨
        files (efCred + i.val) = some (.marker .resident i.val) := by
      rcases hmarked with hkept | hB
      · exact .inl (hkept _ (marker_foreign i))
      · exact hB
    rcases hcases with hsame | hmarker
    · cases u with
      | none =>
        have hnone : files (efCred + i.val) = none := hsame.trans hfile
        exact .inl ⟨⟨_, _, hnew, h.updated hst t, hnone⟩, fun hp => hp.2 hnone⟩
      | some t' =>
        have hmarker : files (efCred + i.val) = some (.marker .resident i.val) := hsame.trans hfile.1
        refine .inr ⟨⟨_, _, hnew, h.updated hst t, hmarker, rfl⟩, hplaced ?_⟩
        rw [hmarker]
        exact Option.some_ne_none _
    · refine .inr ⟨⟨_, _, hnew, h.updated hst t, hmarker, rfl⟩, hplaced ?_⟩
      rw [hmarker]
      exact Option.some_ne_none _

/-- The tenant that a request makes. -/
def Request.tenant (req : Request) {cred : Credential}
    (h : k.device.load req.credId.1 req.rpIdHash.1 = some cred) : Tenant k :=
  ⟨req.rpIdHash, req.credId, req.publicKey, cred, h⟩

theorem Housed.wp_store {u : Option (Tenant k)} {m : StoreMachine} {req : Request}
    {cred : Credential} (h : Housed k m.view i u)
    (hload : k.device.load req.credId.1 req.rpIdHash.1 = some cred) :
    wp Faults.all (storeContainer k i req)
      (fun _ n => Housed k n.view i (some (req.tenant hload)))
      (fun _ n => Housed k n.view i u ∧ ¬ Placed i m.view n.view ∨
        Housed k n.view i (some (req.tenant hload)) ∧ Placed i m.view n.view)
      (fun _ => True) m := by
  have hmarker := h.marker
  have hsame := h
  obtain ⟨current, vals, hst, hal, hfile⟩ := h
  have hws : Container.Writes layout (req.tenant hload).writes := writes_valid _
  have hcall : (createCall k req).writes i.val k.legacy m.view = .ok (req.tenant hload).writes := rfl
  simp only [storeContainer, bind_eq, wp_bind, Call.run, wp_consult, hcall, wp_liftCheck,
    Container.Resident.containerUpdate]
  split
  · exact .inl ⟨hsame, not_placed fun _ _ => .inr rfl⟩
  · by_cases hu : Container.Unspent current
    · refine wp_mono (Container.wp_update_view k.legacy true hst hu hws
        (Container.Resident.room i.isLt hst hws) (hal.apart hst _) rfl
        (A := fun files => files (efCred + i.val) = some (.marker .resident i.val))
        (B := fun files => files (efCred + i.val) = m.view (efCred + i.val) ∨
          files (efCred + i.val) = some (.marker .resident i.val)) ?_ ?_) ?_ ?_ (fun _ _ => trivial)
      · intro n hkept
        have hn : n.view (efCred + i.val) = m.view (efCred + i.val) := hkept _ (marker_foreign i)
        rw [← hn] at hmarker
        rw [← hn]
        exact wp_marker hmarker
      · exact fun n candidates next hn => wp_keeps_marker hn candidates next _
      · rintro _ n ⟨hnew, hA⟩
        rw [hal.putValues_eq hst] at hnew
        have hhoused : Housed k n.view i (some (req.tenant hload)) :=
          ⟨_, _, hnew, hal.updated hst _, hA, rfl⟩
        simp only [wp_commitLater]
        exact ⟨trivial, hhoused, fun _ => hhoused⟩
      · exact fun _ n hn => hal.undone hst hfile hn
    · -- no generation is left
      have hfits : ¬ ((req.tenant hload).writes = [] ∨
          Container.manifestMaxObjects < (req.tenant hload).writes.length) := by
        rintro (hn | hn)
        · exact hws.nonempty hn
        · exact absurd hws.count (Nat.not_le.mpr hn)
      obtain ⟨candidates, hbase, -⟩ := hst.holds.base k.legacy true
      simp only [Container.update, if_neg hfits, bind_eq, wp_bind, wp_consult, hbase, wp_liftCheck,
        hst.spent hu]
      exact .inl ⟨hsame, not_placed fun _ _ => .inr rfl⟩

theorem Housed.congr {u : Option (Tenant k)} (h : Housed k files i u)
    (hown : ∀ n, Container.Resident.Own i.val n → files' n = files n) : Housed k files' i u := by
  obtain ⟨current, vals, hst, hal, hfile⟩ := h
  refine ⟨current, vals, ?_, hal, ?_⟩
  · apply hst.congr
    · exact fun s _ => hown _ (Container.Resident.manifest_own i.val s)
    · intro o ho
      obtain ⟨hty, -, hfid⟩ := hal o ho
      apply hown
      rw [hfid]
      exact .inr (.inr ⟨_, by omega, _, mem_storedTypes hty, .inl rfl⟩)
  · rw [hown (efCred + i.val) (.inl rfl)]
    exact hfile

theorem Housed.other {u : Option (Tenant k)} {m : StoreMachine} (h : Housed k m.view j u)
    (hne : j ≠ i) {p : Container.Store Unit} (hp : Touches (Container.Resident.Own i.val) p)
    (rs : List Reply) : Housed k (exec p m rs).2.1.view j u := by
  apply h.congr
  intro n hn
  refine (hp.frame ?_ m rs).1
  intro hn'
  exact hne (Fin.ext (Container.Resident.Own.unique j.isLt i.isLt hn hn'))

theorem storeContainer_touches (k : Maker) (i : SlotIndex) (req : Request) :
    Touches (Container.Resident.Own i.val) (storeContainer k i req) := by
  apply Touches.bind
  · exact Container.Resident.Operation.touches i.isLt k.legacy (.call (createCall k req))
  · exact fun _ _ => trivial

/-! Deleting a credential. -/

theorem calm_discardAll {m : StoreMachine} (fid : Nat → Nat) (ts : List Nat) :
    calm (Container.forEach (fun ty => Container.discardFile (fid ty)) ts)
      (fun _ n => ∀ j, n.view j = m.view j ∨ n.view j = none) (fun _ _ => False) m := by
  have hconf : Confined (fun _ v => v = none) (fun _ _ => True)
      (Container.forEach (fun ty => Container.discardFile (fid ty)) ts) := by
    apply Container.forEach_confined
    intro ty _
    exact (Container.discardFile_confined (fid ty)).mono (fun _ _ h => h.2) fun _ _ h => h
  have hkeep := wp_confined (f := Faults.none) (m := m)
    (I := fun n : StoreMachine => ∀ j, n.view j = m.view j ∨ n.view j = none)
    (fun n j v hv hn j' => ?_) (fun _ _ hn => hn) (fun _ hn => hn) (fun _ _ _ hn => hn) hconf
    fun _ => .inl rfl
  · apply calm_of_wp (C := fun _ => True)
    apply wp_mono (wp_and hkeep (wp_of_total
      (Container.forEach_total (fun ty => Container.discardFile_total (fid ty)) ts) m))
    · exact fun _ _ hn => hn.1
    · exact fun _ _ hn => hn.2
    · exact fun _ _ => trivial
  · by_cases he : j' = j
    · right
      rw [he, hv]
      exact Function.update_self _ _ _
    · rw [show (n.write j v).view j' = n.view j' from Function.update_of_ne he _ _]
      exact hn j'

theorem calm_deactivate {m : StoreMachine}
    (h : ∀ s < 2, m.view (layout.manifestFid i.val s) = none) :
    calm (layout.deactivate i.val)
      (fun _ n => (∀ s < 2, n.view (layout.manifestFid i.val s) = none) ∧
        n.view (efCred + i.val) = none) (fun _ _ => False) m := by
  have hmod : i.val % 256 = i.val := Nat.mod_eq_of_lt i.isLt
  show calm (Container.Resident.deactivate i.val) _ _ m
  simp only [Container.Resident.deactivate, bind_eq, calm_bind, hmod]
  apply calm_mono (calm_discardAll _ _) _ (fun _ _ hn => hn)
  intro _ n hn
  apply calm_mono (calm_discardAll _ _) _ (fun _ _ hn => hn)
  intro _ n' hn'
  apply calm_mono (Container.calm_removeFile _) _ (fun _ _ hn => hn)
  rintro _ n'' ⟨hview, -⟩
  rw [hview]
  refine ⟨fun s hs => ?_, Function.update_self _ _ _⟩
  rw [Function.update_of_ne ((marker_foreign i).1 s hs).symm]
  rcases hn' (layout.manifestFid i.val s) with he | he
  · rw [he]
    rcases hn (layout.manifestFid i.val s) with he' | he'
    · exact he'.trans (h s hs)
    · exact he'
  · exact he

theorem Housed.delete {m : StoreMachine} (h : Housed k m.view i (some t)) (legacy : Bool) :
    Housed k (exec (Container.Resident.containerDelete i.val legacy) m []).2.1.view i none := by
  obtain ⟨current, vals, hst, hal, hmarker, rfl⟩ := h
  match current, hst with
  | none, ⟨_, hvals⟩ =>
    -- a tenant has a container
    have hrp : t.values 1 0 = some t.rpIdHash.1 := rfl
    rw [hvals] at hrp
    exact absurd hrp (by simp)
  | some (σ, c), hst =>
    have hdelete := calm_ok (hst.delete legacy
      (A := fun files => files (efCred + i.val) = none) fun n hn => calm_deactivate hn)
    have hrun : exec (Container.Resident.containerDelete i.val legacy) m [] =
        exec (Container.containerDelete layout i.val legacy) m [] := by
      simp only [Container.Resident.containerDelete, bind_eq, consult, Prog.bind, exec, hmarker,
        decide_true, if_true]
    rw [hrun]
    refine ⟨none, fun _ _ => none, ⟨hdelete.2.1, rfl⟩, ?_, hdelete.2.2.1⟩
    intro o ho
    exact absurd ho List.not_mem_nil

/-! The slots together. -/

/-- Each slot is of its tenant, and no two tenants are of one account. -/
structure Lodging (k : Maker) (files : Container.Files) (T : SlotIndex → Option (Tenant k)) : Prop where
  housed : ∀ i, Housed k files i (T i)
  distinct : ∀ i j t t', T i = some t → T j = some t' → t.account = t'.account → i = j

variable {T : SlotIndex → Option (Tenant k)} {disk : Disk}

theorem Housed.accountAt_eq {u : Option (Tenant k)} (h : Housed k disk.machine.view i u)
    (now : Option Nat) (rpIdHash userId : Data) :
    accountAt k disk now rpIdHash userId i =
      u.bind fun t => if t.account = (rpIdHash, userId) then some t.stored else none := by
  unfold accountAt
  rw [h.slotAt_eq]
  cases u with
  | none => rfl
  | some t =>
    simp only [Option.map_some, Option.bind_some, t.matchesRp_eq, Tenant.account, Prod.mk.injEq]
    by_cases hrp : t.rpIdHash.1 = rpIdHash
    · subst hrp
      simp only [decide_true, if_true, t.loadResident_eq, Except.toOption, true_and, Option.filter]
      have huser : t.stored.userId = t.cred.userId := rfl
      simp only [huser, decide_eq_true_eq]
    · simp only [hrp, decide_false, Bool.false_eq_true, if_false, false_and]

/-- Where credential_store puts a credential: over the one of its account if there is one, and
otherwise in a slot without a tenant. -/
theorem chooseSlot_cases (h : ∀ i, Housed k disk.machine.view i (T i)) (now : Option Nat)
    (rpIdHash userId : Data) (is : List SlotIndex) (free : Option SlotIndex) :
    (∃ i t, i ∈ is ∧ T i = some t ∧ t.account = (rpIdHash, userId) ∧
      chooseSlot k disk now rpIdHash userId is free = (some i, true)) ∨
    (∀ i ∈ is, ∀ t, T i = some t → t.account ≠ (rpIdHash, userId)) ∧
      ∃ r, chooseSlot k disk now rpIdHash userId is free = (r, true) ∧
        (r = free ∨ ∃ i, r = some i ∧ T i = none) := by
  induction is generalizing free with
  | nil => exact .inr ⟨fun _ hi => absurd hi List.not_mem_nil, free, rfl, .inl rfl⟩
  | cons i is ih =>
    have hslot := (h i).slotAt_eq
    -- the rest of the scan, when this slot is passed over
    have hpass : ∀ free', (∀ t, T i = some t → t.account ≠ (rpIdHash, userId)) →
        (free' = free ∨ ∃ i, free' = some i ∧ T i = none) →
        chooseSlot k disk now rpIdHash userId (i :: is) free =
          chooseSlot k disk now rpIdHash userId is free' →
        (∃ j t, j ∈ i :: is ∧ T j = some t ∧ t.account = (rpIdHash, userId) ∧
          chooseSlot k disk now rpIdHash userId (i :: is) free = (some j, true)) ∨
        (∀ j ∈ i :: is, ∀ t, T j = some t → t.account ≠ (rpIdHash, userId)) ∧
          ∃ r, chooseSlot k disk now rpIdHash userId (i :: is) free = (r, true) ∧
            (r = free ∨ ∃ i, r = some i ∧ T i = none) := by
      intro free' hi hfree he
      rw [he]
      rcases ih free' with ⟨j, t, hj, hT, hacc, hr⟩ | ⟨hnone, r, hr, hr'⟩
      · exact .inl ⟨j, t, List.mem_cons_of_mem _ hj, hT, hacc, hr⟩
      · refine .inr ⟨?_, r, hr, ?_⟩
        · intro j hj
          rcases List.mem_cons.mp hj with rfl | hj
          · exact hi
          · exact hnone j hj
        · rcases hr' with rfl | hr'
          · exact hfree
          · exact .inr hr'
    cases hT : T i with
    | none =>
      rw [hT] at hslot
      apply hpass (if free = none ∧ canCreate i.val k.legacy disk.machine.view then some i else free)
      · intro t ht
        exact absurd (hT.symm.trans ht) (by simp)
      · split_ifs
        · exact .inr ⟨i, rfl, hT⟩
        · exact .inl rfl
      · simp only [chooseSlot, hslot, Option.map_none]
    | some t =>
      rw [hT] at hslot
      have honly : ∀ t', T i = some t' → t' = t := fun t' ht' => Option.some.inj (ht'.symm.trans hT)
      by_cases hrp : t.rpIdHash.1 = rpIdHash
      · subst hrp
        have huser : t.stored.userId = t.cred.userId := rfl
        by_cases hu : t.cred.userId.getD [] = userId
        · left
          refine ⟨i, t, List.mem_cons_self, hT, Prod.ext rfl hu, ?_⟩
          simp only [chooseSlot, hslot, Option.map_some, t.matchesRp_eq, decide_true,
            Bool.true_eq_false, if_false, t.loadResident_eq, huser, hu, if_true]
          rfl
        · apply hpass free
          · intro t' ht' hacc
            rw [honly t' ht'] at hacc
            exact hu (congrArg Prod.snd hacc)
          · exact .inl rfl
          · simp only [chooseSlot, hslot, Option.map_some, t.matchesRp_eq, decide_true,
              Bool.true_eq_false, if_false, t.loadResident_eq, huser, hu]
      · apply hpass free
        · intro t' ht' hacc
          rw [honly t' ht'] at hacc
          exact hrp (congrArg Prod.fst hacc)
        · exact .inl rfl
        · simp only [chooseSlot, hslot, Option.map_some, t.matchesRp_eq, hrp, decide_false, if_true]

theorem Lodging.moveIn {files' : Container.Files} (h : Lodging k files T)
    (hhoused : ∀ j, Housed k files' j (Function.update T i (some t) j))
    (hchosen : ∀ j t', T j = some t' → t'.account = t.account → j = i) :
    Lodging k files' (Function.update T i (some t)) := by
  refine ⟨hhoused, ?_⟩
  intro j j' t₁ t₂ h1 h2 hacc
  by_cases hj : j = i
  · by_cases hj' : j' = i
    · rw [hj, hj']
    · subst hj
      rw [Function.update_self] at h1
      rw [Function.update_of_ne hj'] at h2
      exact (hchosen j' t₂ h2 (hacc.symm.trans (congrArg Tenant.account (Option.some.inj h1).symm))).symm
  · rw [Function.update_of_ne hj] at h1
    by_cases hj' : j' = i
    · subst hj'
      rw [Function.update_self] at h2
      exact hchosen j t₁ h1 (hacc.trans (congrArg Tenant.account (Option.some.inj h2).symm))
    · rw [Function.update_of_ne hj'] at h2
      exact h.distinct j j' t₁ t₂ h1 h2 hacc

/-- What credential_store does to the tenancy: nothing, or the credential is in the slot of its
account, or in one without a tenant if its account has none. -/
theorem Lodging.store (h : Lodging k disk.machine.view T) {req : Request} {cred : Credential}
    (hload : k.device.load req.credId.1 req.rpIdHash.1 = some cred) (rs : Powered) :
    (Lodging k (credentialStore k disk req rs.1).2.machine.view T ∧
      (credentialStore k disk req rs.1).1 = false) ∨
    ∃ i, Lodging k (credentialStore k disk req rs.1).2.machine.view
        (Function.update T i (some (req.tenant hload))) ∧
      ((∃ t, T i = some t ∧ t.account = (req.tenant hload).account) ∨
        T i = none ∧ ∀ j t, T j = some t → t.account ≠ (req.tenant hload).account) := by
  by_cases hkey : req.publicKey.1 = []
  · simp only [credentialStore, hkey, if_true]
    exact .inl ⟨h, trivial⟩
  have hscan := chooseSlot_cases h.housed req.now req.rpIdHash.1 (cred.userId.getD [])
    (List.finRange 256) none
  -- the slot is that of the account, or one without a tenant
  obtain ⟨r, hr, hchoice⟩ : ∃ r, chooseSlot k disk req.now req.rpIdHash.1 (cred.userId.getD [])
      (List.finRange 256) none = (r, true) ∧ ∀ i, r = some i →
      (∃ t, T i = some t ∧ t.account = (req.tenant hload).account) ∨
        T i = none ∧ ∀ j t, T j = some t → t.account ≠ (req.tenant hload).account := by
    rcases hscan with ⟨i, t, -, hT, hacc, hr⟩ | ⟨hnone, r, hr, hr'⟩
    · refine ⟨_, hr, ?_⟩
      intro i' hi'
      exact .inl ⟨t, Option.some.inj hi' ▸ hT, hacc⟩
    · refine ⟨r, hr, ?_⟩
      rintro i rfl
      rcases hr' with hr' | ⟨i', hi', hT⟩
      · exact absurd hr' (by simp)
      · exact .inr ⟨Option.some.inj hi' ▸ hT, fun j t hj => hnone j (List.mem_finRange j) t hj⟩
  cases r with
  | none =>
    simp only [credentialStore, hkey, if_false, hload, hr]
    exact .inl ⟨h, trivial⟩
  | some i =>
    simp only [credentialStore, hkey, if_false, hload, hr]
    have hother : ∀ j, j ≠ i →
        Housed k (exec (storeContainer k i req) disk.machine rs.1).2.1.view j (T j) :=
      fun j hj => (h.housed j).other hj (storeContainer_touches k i req) rs.1
    have hnew : Housed k (exec (storeContainer k i req) disk.machine rs.1).2.1.view i
        (some (req.tenant hload)) →
        Lodging k (exec (storeContainer k i req) disk.machine rs.1).2.1.view
          (Function.update T i (some (req.tenant hload))) := by
      intro hi
      apply h.moveIn
      · intro j
        by_cases hj : j = i
        · subst hj
          rw [Function.update_self]
          exact hi
        · rw [Function.update_of_ne hj]
          exact hother j hj
      · intro j t' hj hacc
        rcases hchoice i rfl with ⟨t, hT, hacc'⟩ | ⟨-, hnone⟩
        · exact h.distinct j i t' t hj hT (hacc.trans hacc'.symm)
        · exact absurd hacc (hnone j t' hj)
    have hends := wp_sound ((h.housed i).wp_store hload) trivial rs.1 (.inl trivial)
    have hpower := exec_ne_lost (storeContainer k i req) disk.machine rs.2
    unfold Ends at hends
    split at hends
    · exact .inr ⟨i, hnew hends, hchoice i rfl⟩
    · next e he =>
      rcases hends with ⟨hsame, -⟩ | ⟨hi, -⟩
      · refine .inl ⟨⟨fun j => ?_, h.distinct⟩, by simp [he]⟩
        by_cases hj : j = i
        · subst hj
          exact hsame
        · exact hother j hj
      · exact .inr ⟨i, hnew hi, hchoice i rfl⟩
    · next he => exact absurd he hpower

theorem Lodging.delete (h : Lodging k disk.machine.view T) (i : SlotIndex) :
    ∃ T', Lodging k (residentDelete k disk i).2.machine.view T' := by
  have hslot := (h.housed i).slotAt_eq
  cases hT : T i with
  | none =>
    rw [hT] at hslot
    simp only [residentDelete, hslot, Option.map_none]
    exact ⟨T, h⟩
  | some t =>
    rw [hT] at hslot
    have hmarker : (t.slot i).marker = true := rfl
    simp only [residentDelete, hslot, Option.map_some, hmarker, if_true]
    have hi : Housed k disk.machine.view i (some t) := hT ▸ h.housed i
    refine ⟨Function.update T i none, ?_, ?_⟩
    · intro j
      by_cases hj : j = i
      · subst hj
        rw [Function.update_self]
        exact hi.delete k.legacy
      · rw [Function.update_of_ne hj]
        exact (h.housed j).other hj (Container.Resident.Operation.touches i.isLt k.legacy .delete) []
    · intro j j' t₁ t₂ h1 h2
      have hkept : ∀ {j t}, Function.update T i none j = some t → T j = some t := by
        intro j t hj
        by_cases he : j = i
        · rw [he, Function.update_self] at hj
          exact absurd hj (by simp)
        · rwa [Function.update_of_ne he] at hj
      exact h.distinct j j' t₁ t₂ (hkept h1) (hkept h2)

theorem Lodging.of_empty (h : Empty files) : Lodging k files fun _ => none := by
  refine ⟨fun i => ⟨none, fun _ _ => none, ⟨?_, rfl⟩, ?_, (h i).1⟩, ?_⟩
  · intro s hs
    rw [Container.Resident.layout_manifestFid]
    exact (h i).2 s hs
  · intro o ho
    exact absurd ho List.not_mem_nil
  · intro i j t t' ht
    exact absurd ht (by simp)

theorem Lodging.op (h : Lodging k disk.machine.view T) (op : Op) :
    ∃ T', Lodging k (op.run k disk).machine.view T' := by
  cases op with
  | delete i => exact h.delete i
  | store req rs =>
    cases hload : k.device.load req.credId.1 req.rpIdHash.1 with
    | none =>
      refine ⟨T, ?_⟩
      have hsame : (credentialStore k disk req rs.1).2 = disk := by
        simp only [credentialStore, hload]
        split_ifs <;> rfl
      rw [Op.run, hsame]
      exact h
    | some cred =>
      rcases h.store hload rs with ⟨h', -⟩ | ⟨i, h', -⟩
      · exact ⟨T, h'⟩
      · exact ⟨_, h'⟩

theorem Lodging.run (h : Lodging k disk.machine.view T) (ops : List Op) :
    ∃ T', Lodging k (Account.run k disk ops).machine.view T' := by
  induction ops generalizing disk T with
  | nil => exact ⟨T, h⟩
  | cons op ops ih =>
    obtain ⟨T', h'⟩ := h.op op
    exact ih h'

theorem Lodging.accountAt_some (h : Lodging k disk.machine.view T) {now : Option Nat}
    {rpIdHash userId : Data} {cred : Credential}
    (hcred : accountAt k disk now rpIdHash userId i = some cred) :
    ∃ t, T i = some t ∧ t.account = (rpIdHash, userId) ∧ cred = t.stored := by
  rw [(h.housed i).accountAt_eq] at hcred
  cases hT : T i with
  | none => simp [hT] at hcred
  | some t =>
    simp only [hT, Option.bind_some] at hcred
    split at hcred
    · next hacc => exact ⟨t, rfl, hacc, (Option.some.inj hcred).symm⟩
    · exact absurd hcred (by simp)

theorem Lodging.accountAt_of (h : Lodging k disk.machine.view T) (hT : T i = some t)
    (now : Option Nat) : accountAt k disk now t.account.1 t.account.2 i = some t.stored := by
  rw [(h.housed i).accountAt_eq, hT]
  exact if_pos rfl

theorem Lodging.findAccount_eq (h : Lodging k disk.machine.view T) (hT : T i = some t)
    (now : Option Nat) : findAccount k disk now t.account.1 t.account.2 = some t.stored := by
  unfold findAccount
  cases hfind : (List.finRange 256).findSome? (accountAt k disk now t.account.1 t.account.2) with
  | none =>
    have hnone := List.findSome?_eq_none_iff.mp hfind i (List.mem_finRange i)
    exact absurd ((h.accountAt_of hT now).symm.trans hnone) (by simp)
  | some cred =>
    obtain ⟨j, -, hj⟩ := List.exists_of_findSome?_eq_some hfind
    obtain ⟨t', hT', hacc, rfl⟩ := h.accountAt_some hj
    have hij := h.distinct j i t' t hT' hT hacc
    subst hij
    rw [Option.some.inj (hT'.symm.trans hT)]

theorem Lodging.slotAt_eq {disk' : Disk} {T' : SlotIndex → Option (Tenant k)}
    (h : Lodging k disk.machine.view T) (h' : Lodging k disk'.machine.view T') (hT : T' j = T j) :
    slotAt k disk' j = slotAt k disk j := by
  rw [(h'.housed j).slotAt_eq, (h.housed j).slotAt_eq, hT]

end Housed

/-- What a call of credential_store does for the credential that it is given: over one of the same
account it goes into the slot of that one, and otherwise the slots that are taken stay as they are;
after success a search for the account finds it. -/
structure Stored (k : Maker) (before : Disk) (req : Request) (cred : Credential)
    (result : Bool × Disk) : Prop where
  replaces : ∀ i, (accountAt k before req.now req.rpIdHash.1 (cred.userId.getD []) i).isSome →
    (∀ j, j ≠ i → slotAt k result.2 j = slotAt k before j) ∧
    (result.1 = true → ∀ now,
      accountAt k result.2 now req.rpIdHash.1 (cred.userId.getD []) i =
        some { cred with residentId := some (k.device.deriveResident req.credId.1) })
  keeps : (∀ i, accountAt k before req.now req.rpIdHash.1 (cred.userId.getD []) i = none) →
    ∀ j, slotAt k before j ≠ none → slotAt k result.2 j = slotAt k before j
  found : result.1 = true → ∀ now,
    findAccount k result.2 now req.rpIdHash.1 (cred.userId.getD []) =
      some { cred with residentId := some (k.device.deriveResident req.credId.1) }

theorem Lodging.stored {k : Maker} {disk : Disk} {T : SlotIndex → Option (Tenant k)}
    (h : Lodging k disk.machine.view T) {req : Request} {cred : Credential}
    (hload : k.device.load req.credId.1 req.rpIdHash.1 = some cred) (rs : Powered) :
    Stored k disk req cred (credentialStore k disk req rs.1) := by
  rcases h.store hload rs with ⟨h', hfailed⟩ | ⟨i, h', hchoice⟩
  · refine ⟨?_, ?_, ?_⟩
    · intro i _
      exact ⟨fun j _ => h.slotAt_eq h' rfl, fun hok => absurd (hfailed.symm.trans hok) (by decide)⟩
    · exact fun _ j _ => h.slotAt_eq h' rfl
    · exact fun hok => absurd (hfailed.symm.trans hok) (by decide)
  · have hself : Function.update T i (some (req.tenant hload)) i = some (req.tenant hload) :=
      Function.update_self _ _ _
    refine ⟨?_, ?_, ?_⟩
    · -- the slot of the account is the one that was chosen
      intro i' hi'
      obtain ⟨c, hc⟩ := Option.isSome_iff_exists.mp hi'
      obtain ⟨t', hT', hacc', -⟩ := h.accountAt_some hc
      have hi : i' = i := by
        rcases hchoice with ⟨t, hT, hacc⟩ | ⟨-, hnone⟩
        · exact h.distinct i' i t' t hT' hT (hacc'.trans hacc.symm)
        · exact absurd hacc' (hnone i' t' hT')
      subst hi
      exact ⟨fun j hj => h.slotAt_eq h' (Function.update_of_ne hj _ _),
        fun _ now => h'.accountAt_of hself now⟩
    · intro hnone j hj
      have hfree : T i = none := by
        rcases hchoice with ⟨t, hT, hacc⟩ | ⟨hT, -⟩
        · have hat := h.accountAt_of hT req.now
          rw [hacc] at hat
          exact absurd ((hnone i).symm.trans hat) (by simp)
        · exact hT
      have hne : j ≠ i := by
        rintro rfl
        apply hj
        rw [(h.housed j).slotAt_eq, hfree]
        rfl
      exact h.slotAt_eq h' (Function.update_of_ne hne _ _)
    · exact fun _ now => h'.findAccount_eq hself now

/-- After any stores and deletions from empty storage, no two slots hold credentials of one account,
and whatever is stored next takes the place of the one of its account and disturbs no other. -/
theorem one_credential_per_account (k : Maker) (disk : Disk) (hempty : Empty disk.machine.view)
    (ops : List Op) :
    (∀ now now' rpIdHash userId i j,
      (accountAt k (run k disk ops) now rpIdHash userId i).isSome →
      (accountAt k (run k disk ops) now' rpIdHash userId j).isSome → i = j) ∧
    ∀ (req : Request) (rs : Powered) (cred : Credential),
      k.device.load req.credId.1 req.rpIdHash.1 = some cred →
      Stored k (run k disk ops) req cred (credentialStore k (run k disk ops) req rs.1) := by
  obtain ⟨T, h⟩ := (Lodging.of_empty (k := k) hempty).run ops
  refine ⟨?_, fun req rs cred hload => h.stored hload rs⟩
  intro now now' rpIdHash userId i j hi hj
  obtain ⟨c, hc⟩ := Option.isSome_iff_exists.mp hi
  obtain ⟨c', hc'⟩ := Option.isSome_iff_exists.mp hj
  obtain ⟨t, hT, hacc, -⟩ := h.accountAt_some hc
  obtain ⟨t', hT', hacc', -⟩ := h.accountAt_some hc'
  exact h.distinct i j t t' hT hT' (hacc.trans hacc'.symm)

/-- A device that loads every credential, its first byte as the user. -/
def sampleMaker : Maker where
  device :=
    { load := fun credId _ => some { userId := some (credId.take 1), id := credId }
      parseMetadata := fun _ => none
      deriveResident := fun credId => (credId ++ List.replicate residentLen 0).take residentLen
      openRp := fun _ _ => none }
  derive_length := by simp
  silentTag := fun _ _ => ⟨List.replicate silentTagLen 0, by decide⟩
  legacy := false

theorem sampleHash_length : (List.replicate 32 (0 : BitVec 8)).length = rpIdHashLen := by decide

def sampleRequest (user key : BitVec 8) : Request where
  credId := ⟨[user, key], by
    simp [Container.uint32Max, Container.recordHeaderSize, Container.authTagSize]⟩
  rpIdHash := ⟨List.replicate 32 0, sampleHash_length⟩
  publicKey := ⟨[key], by
    simp [Container.uint32Max, Container.recordHeaderSize, Container.authTagSize]⟩
  now := none

def sampleDisk : Disk := ⟨Container.Resident.blank, fun _ => []⟩

/-- Two users, one of whom gets a second credential after a write of it was refused. -/
theorem second_credential_replaces :
    (credentialStore sampleMaker
      (run sampleMaker sampleDisk [.store (sampleRequest 1 7) ⟨[], by decide⟩,
        .store (sampleRequest 2 8) ⟨[], by decide⟩,
        .store (sampleRequest 1 9) ⟨[.refused false], by decide⟩])
      (sampleRequest 1 9) []).1 = true ∧
    Stored sampleMaker
      (run sampleMaker sampleDisk [.store (sampleRequest 1 7) ⟨[], by decide⟩,
        .store (sampleRequest 2 8) ⟨[], by decide⟩,
        .store (sampleRequest 1 9) ⟨[.refused false], by decide⟩])
      (sampleRequest 1 9) { userId := some [1], id := [1, 9] }
      (credentialStore sampleMaker
        (run sampleMaker sampleDisk [.store (sampleRequest 1 7) ⟨[], by decide⟩,
          .store (sampleRequest 2 8) ⟨[], by decide⟩,
          .store (sampleRequest 1 9) ⟨[.refused false], by decide⟩])
        (sampleRequest 1 9) []) := by
  refine ⟨by decide +kernel, ?_⟩
  exact (one_credential_per_account sampleMaker sampleDisk (fun _ => ⟨rfl, fun _ _ => rfl⟩) _).2
    (sampleRequest 1 9) ⟨[], by decide⟩ _ rfl

end Account

end Cred

end KeyWallet
