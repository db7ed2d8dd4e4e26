import KeyWallet.Assertion

/-! excludeList of authenticatorMakeCredential: which ids make it refuse to create a credential, and what
becomes of the buffers of the credentials that are loaded on the way. -/
namespace KeyWallet

namespace Cred

namespace Exclude

open Assert (Descriptor uvRequired)
open Container.Resident (statusActive statusRevoked)

/-- How the step ends: the command goes on, or is answered. -/
inductive Verdict
  | goesOn
  | missingParameter
  | operationDenied
  | excluded
  deriving DecidableEq, Repr

/-- The buffers of `ecred` by their numbers, and those that were released. -/
structure Heap where
  next : Nat := 0
  held : List Nat := []
  freed : List Nat := []
  deriving DecidableEq, Repr

/-- A load that gets as far as the structure clears it and leaves `n` buffers in it. -/
def Heap.load (h : Heap) : Option Nat → Heap
  | none => h
  | some n => { h with held := (List.range n).map (h.next + ·), next := h.next + n }

/-- credential_free: the pointers are cleared with the buffers. -/
def Heap.free (h : Heap) : Heap := { h with held := [], freed := h.freed ++ h.held }

/-- The device, its files, and how many buffers a load of a file or of an id leaves. -/
structure Env where
  device : Device
  storage : Storage
  slotBuffers : SlotFile → Option Nat
  idBuffers : Data → Option Nat

/-- A request as it reaches the step: by then `up` is not false. -/
structure Request where
  list : List Descriptor
  uv : Bool
  up : Option Bool
  optionsPresent : Bool
  paramPresent : Bool
  userPresent : Bool
  pressed : Bool
  reached : optionsPresent = true → up ≠ some false

/-- The protection of the credential lets the request see it. -/
def admitted (uv : Bool) (cred : Credential) : Bool := decide (cred.credProtect ≠ uvRequired) || uv

/-- The answer for a credential that is there, with the presence that it needs. The second value says that
the flags and the permissions of the token are cleared. -/
def presence (r : Request) : Verdict × Bool :=
  if r.up = some true ∨ r.optionsPresent = false ∨ r.up = none then
    if r.paramPresent then
      if r.userPresent = false ∧ r.pressed = false then (.operationDenied, false) else (.excluded, true)
    else if r.pressed = false then (.operationDenied, false)
    else (.excluded, true)
  else (.excluded, false)

section Step

variable (e : Env) (hash : Data)

/-- The loop over the files, for an id in resident form. -/
def scanSlots (id : Data) (uv : Bool) : List SlotIndex → Heap → Bool × Heap
  | [], h => (false, h)
  | i :: is, h =>
    match e.storage.slots i with
    | none => scanSlots id uv is h
    | some s =>
      if matchesRp s (some hash) = false then scanSlots id uv is h
      else if matchesId e.device s id then
        match loadResident e.device s hash with
        | .ok cred =>
          if admitted uv cred then (true, (h.load (e.slotBuffers s)).free)
          else scanSlots id uv is (h.load (e.slotBuffers s))
        | .error _ => scanSlots id uv is (h.load (e.slotBuffers s))
      else scanSlots id uv is h

/-- An entry of the list: whether it excludes. -/
def excludeEntry (id : Data) (uv : Bool) (h : Heap) : Bool × Heap :=
  let h := { h with held := [] }
  if isResident id then
    let r := scanSlots e hash id uv (List.finRange 256) h
    if r.1 then r else (false, r.2.free)
  else
    let h := h.load (e.idBuffers id)
    match e.device.load id hash with
    | some cred => (admitted uv cred, h.free)
    | none => (false, h.free)

/-- The loop over the list; the verdict of an entry that excludes is left open. -/
def walkList (uv : Bool) : List Descriptor → Heap → Option Verdict × Heap
  | [], h => (some .goesOn, h)
  | entry :: entries, h =>
    match entry.isPublicKey, entry.id with
    | some isPublicKey, some id =>
      if isPublicKey = false then walkList uv entries h
      else
        let r := excludeEntry e hash id uv h
        if r.1 then (none, r.2) else walkList uv entries r.2
    | _, _ => (some .missingParameter, h)

structure Outcome where
  verdict : Verdict
  cleared : Bool
  heap : Heap
  deriving DecidableEq, Repr

/-- The step. -/
def excludeList (r : Request) : Outcome :=
  let w := walkList e hash r.uv r.list {}
  match w.1 with
  | some verdict => ⟨verdict, false, w.2⟩
  | none => ⟨(presence r).1, (presence r).2, w.2⟩

end Step

/-! What the list says. -/

section Meaning

variable (e : Env) (hash : Data)

/-- The files of the RP. -/
def rpSlots : List SlotFile :=
  (List.finRange 256).filterMap fun i => (e.storage.slots i).filter fun s => matchesRp s (some hash)

/-- The id of a stored credential in its non-resident form. -/
def credentialId (s : SlotFile) : Option Data :=
  if s.marker then s.objects.credential.toOption
  else if s.data.length ≤ rpIdHashLen then none
  else if isResident (s.data.drop rpIdHashLen) then some (s.data.drop (rpIdHashLen + residentLen))
  else some (s.data.drop rpIdHashLen)

/-- The credential was imported, with a key of its own. -/
def imported (s : SlotFile) : Bool :=
  s.marker && s.objects.state.toOption.any fun m => m.properties = propertyImported

/-- The id is that of a stored credential, in the form that it has. -/
def Stored (s : SlotFile) (id : Data) : Prop :=
  if isResident id = true then matchesId e.device s id = true else credentialId s = some id

/-- The credential that an id identifies: the stored one that has it, as it can be loaded, and where none has
it, the one that it opens as. -/
def Identifies (id : Data) (cred : Credential) : Prop :=
  (∃ s ∈ rpSlots e hash, Stored e s id ∧ loadResident e.device s hash = .ok cred) ∨
    (isResident id = false ∧ (∀ s ∈ rpSlots e hash, ¬ Stored e s id) ∧ e.device.load id hash = some cred)

/-- Some entry identifies a credential that the request may see. -/
def Excluding (uv : Bool) (list : List Descriptor) : Prop :=
  ∃ entry ∈ list, entry.isPublicKey = some true ∧ ∃ id, entry.id = some id ∧
    ∃ cred, Identifies e hash id cred ∧ admitted uv cred = true

/-- The user is there. -/
def Request.granted (r : Request) : Bool := (r.paramPresent && r.userPresent) || r.pressed

/-- Where the id is a stored credential in its non-resident form, that was not imported and can be loaded if
the id opens: it is not revoked, expired or damaged. -/
def PlainId (id : Data) : Prop :=
  isResident id = false → ∀ s ∈ rpSlots e hash, credentialId s = some id → imported s = false ∧
    ((e.device.load id hash).isSome = true → ∃ cred, loadResident e.device s hash = .ok cred)

/-- Every entry has a type and an id, and the ids are plain. -/
structure Plain (list : List Descriptor) : Prop where
  complete : ∀ entry ∈ list, entry.isPublicKey.isSome = true ∧ entry.id.isSome = true
  plain : ∀ entry ∈ list, ∀ id, entry.isPublicKey = some true → entry.id = some id → PlainId e hash id

/-- The entry counts, as the code decides it. -/
def Counts (uv : Bool) (id : Data) : Prop :=
  if isResident id = true then
    ∃ s ∈ rpSlots e hash, matchesId e.device s id = true ∧
      ∃ cred, loadResident e.device s hash = .ok cred ∧ admitted uv cred = true
  else ∃ cred, e.device.load id hash = some cred ∧ admitted uv cred = true

end Meaning

/-! The loops. -/

section Loops

variable {e : Env} {hash : Data} {uv : Bool}

theorem mem_rpSlots {s : SlotFile} : s ∈ rpSlots e hash ↔
    ∃ i, e.storage.slots i = some s ∧ matchesRp s (some hash) = true := by
  unfold rpSlots
  rw [List.mem_filterMap]
  constructor
  · rintro ⟨i, -, hi⟩
    obtain ⟨hs, hrp⟩ := Option.filter_eq_some_iff.mp hi
    exact ⟨i, hs, hrp⟩
  · rintro ⟨i, hs, hrp⟩
    exact ⟨i, List.mem_finRange i, Option.filter_eq_some_iff.mpr ⟨hs, hrp⟩⟩

theorem scanSlots_iff (id : Data) (is : List SlotIndex) (h : Heap) :
    (scanSlots e hash id uv is h).1 = true ↔ ∃ i ∈ is, ∃ s, e.storage.slots i = some s ∧
      matchesRp s (some hash) = true ∧ matchesId e.device s id = true ∧
      ∃ cred, loadResident e.device s hash = .ok cred ∧ admitted uv cred = true := by
  induction is generalizing h with
  | nil =>
    constructor
    · intro h
      cases h
    · rintro ⟨i, hi, -⟩
      cases hi
  | cons i is ih =>
    -- a file that does not exclude leaves it to the others
    have hskip : ∀ h', (¬ ∃ s, e.storage.slots i = some s ∧ matchesRp s (some hash) = true ∧
          matchesId e.device s id = true ∧
          ∃ cred, loadResident e.device s hash = .ok cred ∧ admitted uv cred = true) →
        ((scanSlots e hash id uv is h').1 = true ↔ ∃ j ∈ i :: is, ∃ s, e.storage.slots j = some s ∧
          matchesRp s (some hash) = true ∧ matchesId e.device s id = true ∧
          ∃ cred, loadResident e.device s hash = .ok cred ∧ admitted uv cred = true) := by
      intro h' hno
      rw [ih h']
      constructor
      · rintro ⟨j, hj, hrest⟩
        exact ⟨j, List.mem_cons_of_mem i hj, hrest⟩
      · rintro ⟨j, hj, hrest⟩
        rcases List.mem_cons.mp hj with rfl | hj
        · exact absurd hrest hno
        · exact ⟨j, hj, hrest⟩
    unfold scanSlots
    cases hs : e.storage.slots i with
    | none =>
      apply hskip
      rintro ⟨s, hs', -⟩
      rw [hs] at hs'
      cases hs'
    | some s =>
      have hone : ∀ {P : SlotFile → Prop}, (∃ s', e.storage.slots i = some s' ∧ P s') → P s := by
        rintro P ⟨s', hs', hP⟩
        rw [hs] at hs'
        rwa [Option.some.inj hs']
      dsimp only
      by_cases hrp : matchesRp s (some hash) = false
      · rw [if_pos hrp]
        apply hskip
        intro hex
        have hyes := (hone hex).1
        rw [hrp] at hyes
        cases hyes
      rw [if_neg hrp]
      by_cases hid : matchesId e.device s id = true
      · rw [if_pos hid]
        cases hload : loadResident e.device s hash with
        | error err =>
          dsimp only
          apply hskip
          intro hex
          obtain ⟨-, -, cred, hcred, -⟩ := hone hex
          rw [hload] at hcred
          cases hcred
        | ok cred =>
          dsimp only
          by_cases hadm : admitted uv cred = true
          · rw [if_pos hadm]
            exact ⟨fun _ => ⟨i, List.mem_cons_self .., s, hs, Bool.eq_true_of_not_eq_false hrp, hid, cred,
              hload, hadm⟩, fun _ => rfl⟩
          · rw [if_neg hadm]
            apply hskip
            intro hex
            obtain ⟨-, -, cred', hcred', hadm'⟩ := hone hex
            rw [hload] at hcred'
            obtain rfl := Except.ok.inj hcred'
            exact hadm hadm'
      · rw [if_neg hid]
        apply hskip
        intro hex
        exact hid (hone hex).2.1

theorem excludeEntry_iff (id : Data) (h : Heap) :
    (excludeEntry e hash id uv h).1 = true ↔ Counts e hash uv id := by
  unfold excludeEntry Counts
  dsimp only
  by_cases hres : isResident id = true
  · rw [if_pos hres, if_pos hres]
    have hfst : (if (scanSlots e hash id uv (List.finRange 256) { h with held := [] }).1 = true then
          scanSlots e hash id uv (List.finRange 256) { h with held := [] }
        else (false, (scanSlots e hash id uv (List.finRange 256) { h with held := [] }).2.free)).1 =
        (scanSlots e hash id uv (List.finRange 256) { h with held := [] }).1 := by
      by_cases hyes : (scanSlots e hash id uv (List.finRange 256) { h with held := [] }).1 = true
      · rw [if_pos hyes]
      · rw [if_neg hyes, Bool.eq_false_of_not_eq_true hyes]
    rw [hfst, scanSlots_iff]
    constructor
    · rintro ⟨i, -, s, hs, hrp, hrest⟩
      exact ⟨s, mem_rpSlots.mpr ⟨i, hs, hrp⟩, hrest⟩
    · rintro ⟨s, hs, hrest⟩
      obtain ⟨i, hi, hrp⟩ := mem_rpSlots.mp hs
      exact ⟨i, List.mem_finRange i, s, hi, hrp, hrest⟩
  · rw [if_neg hres, if_neg hres]
    cases hload : e.device.load id hash with
    | none =>
      constructor
      · intro h
        cases h
      · rintro ⟨cred, hcred, -⟩
        cases hcred
    | some cred =>
      constructor
      · intro hadm
        exact ⟨cred, rfl, hadm⟩
      · rintro ⟨cred', hcred', hadm⟩
        obtain rfl := Option.some.inj hcred'
        exact hadm

/-- Some entry counts. -/
def SomeCounts (e : Env) (hash : Data) (uv : Bool) (list : List Descriptor) : Prop :=
  ∃ entry ∈ list, entry.isPublicKey = some true ∧ ∃ id, entry.id = some id ∧ Counts e hash uv id

theorem someCounts_cons (entry : Descriptor) (list : List Descriptor) :
    SomeCounts e hash uv (entry :: list) ↔
      (entry.isPublicKey = some true ∧ ∃ id, entry.id = some id ∧ Counts e hash uv id) ∨
        SomeCounts e hash uv list := by
  unfold SomeCounts
  rw [List.exists_mem_cons_iff]

theorem walkList_complete (list : List Descriptor)
    (hlist : ∀ entry ∈ list, entry.isPublicKey.isSome = true ∧ entry.id.isSome = true) (h : Heap) :
    (SomeCounts e hash uv list ∧ (walkList e hash uv list h).1 = none) ∨
      (¬ SomeCounts e hash uv list ∧ (walkList e hash uv list h).1 = some .goesOn) := by
  induction list generalizing h with
  | nil =>
    right
    refine ⟨?_, rfl⟩
    rintro ⟨entry, hentry, -⟩
    cases hentry
  | cons entry list ih =>
    have hih := ih fun x hx => hlist x (List.mem_cons_of_mem entry hx)
    obtain ⟨htype, hid⟩ := hlist entry (List.mem_cons_self ..)
    obtain ⟨isPublicKey, htype⟩ := Option.isSome_iff_exists.mp htype
    obtain ⟨id, hid⟩ := Option.isSome_iff_exists.mp hid
    rw [someCounts_cons]
    unfold walkList
    rw [htype, hid]
    dsimp only
    by_cases hpk : isPublicKey = false
    · rw [if_pos hpk]
      have hno : ¬ (some isPublicKey = some true ∧ ∃ id', some id = some id' ∧ Counts e hash uv id') := by
        rw [hpk]
        rintro ⟨hyes, -⟩
        cases hyes
      rcases hih h with ⟨hsome, hw⟩ | ⟨hnone, hw⟩
      · exact .inl ⟨.inr hsome, hw⟩
      · exact .inr ⟨fun hor => hor.elim hno hnone, hw⟩
    · rw [if_neg hpk]
      have hpk' : isPublicKey = true := Bool.eq_true_of_not_eq_false hpk
      by_cases hcounts : Counts e hash uv id
      · rw [if_pos ((excludeEntry_iff id h).mpr hcounts)]
        exact .inl ⟨.inl ⟨congrArg some hpk', id, rfl, hcounts⟩, rfl⟩
      · rw [if_neg (fun hyes => hcounts ((excludeEntry_iff id h).mp hyes))]
        have hno : ¬ (some isPublicKey = some true ∧ ∃ id', some id = some id' ∧ Counts e hash uv id') := by
          rintro ⟨-, id', heq, hyes⟩
          rw [← Option.some.inj heq] at hyes
          exact hcounts hyes
        rcases hih (excludeEntry e hash id uv h).2 with ⟨hsome, hw⟩ | ⟨hnone, hw⟩
        · exact .inl ⟨.inr hsome, hw⟩
        · exact .inr ⟨fun hor => hor.elim hno hnone, hw⟩

end Loops

/-! The buffers. -/

section Buffers

variable {e : Env} {hash : Data} {uv : Bool}

/-- No buffer is held that was released, and all have been handed out. -/
structure Heap.Once (h : Heap) : Prop where
  nodup : (h.freed ++ h.held).Nodup
  old : ∀ b ∈ h.freed ++ h.held, b < h.next

theorem Heap.Once.dropped {h : Heap} (ho : h.Once) : ({ h with held := [] } : Heap).Once where
  nodup := by
    show (h.freed ++ []).Nodup
    rw [List.append_nil]
    exact ho.nodup.of_append_left
  old := by
    intro b hb
    apply ho.old b
    rw [List.append_nil] at hb
    exact List.mem_append_left _ hb

theorem Heap.Once.load {h : Heap} (ho : h.Once) (n : Option Nat) : (h.load n).Once := by
  cases n with
  | none => exact ho
  | some n =>
    constructor
    · show (h.freed ++ (List.range n).map (h.next + ·)).Nodup
      apply List.Nodup.append ho.nodup.of_append_left
      · exact (List.nodup_range).map (fun a b hab => Nat.add_left_cancel hab)
      · intro b hfreed hnew
        obtain ⟨i, -, rfl⟩ := List.mem_map.mp hnew
        have hlt := ho.old _ (List.mem_append_left _ hfreed)
        omega
    · intro b hb
      show b < h.next + n
      rcases List.mem_append.mp hb with hfreed | hnew
      · have hlt := ho.old b (List.mem_append_left _ hfreed)
        omega
      · obtain ⟨i, hi, rfl⟩ := List.mem_map.mp hnew
        have hlt := List.mem_range.mp hi
        omega

theorem Heap.Once.free {h : Heap} (ho : h.Once) : h.free.Once where
  nodup := by
    show ((h.freed ++ h.held) ++ []).Nodup
    rw [List.append_nil]
    exact ho.nodup
  old := by
    intro b hb
    apply ho.old b
    have hb' : b ∈ (h.freed ++ h.held) ++ [] := hb
    rwa [List.append_nil] at hb'

theorem scanSlots_once (id : Data) (is : List SlotIndex) {h : Heap} (ho : h.Once) :
    (scanSlots e hash id uv is h).2.Once := by
  induction is generalizing h with
  | nil => exact ho
  | cons i is ih =>
    unfold scanSlots
    cases e.storage.slots i with
    | none => exact ih ho
    | some s =>
      dsimp only
      split_ifs
      · exact ih ho
      · cases loadResident e.device s hash with
        | error err => exact ih (ho.load _)
        | ok cred =>
          dsimp only
          split_ifs
          · exact (ho.load _).free
          · exact ih (ho.load _)
      · exact ih ho

theorem excludeEntry_once (id : Data) {h : Heap} (ho : h.Once) : (excludeEntry e hash id uv h).2.Once := by
  unfold excludeEntry
  dsimp only
  split_ifs
  · exact scanSlots_once id _ ho.dropped
  · exact (scanSlots_once id _ ho.dropped).free
  · cases e.device.load id hash with
    | none => exact (ho.dropped.load _).free
    | some cred => exact (ho.dropped.load _).free

theorem walkList_once (list : List Descriptor) {h : Heap} (ho : h.Once) :
    (walkList e hash uv list h).2.Once := by
  induction list generalizing h with
  | nil => exact ho
  | cons entry list ih =>
    obtain ⟨id, isPublicKey⟩ := entry
    unfold walkList
    cases isPublicKey with
    | none => exact ho
    | some isPublicKey =>
      cases id with
      | none => exact ho
      | some id =>
        dsimp only
        split_ifs
        · exact ih ho
        · exact excludeEntry_once id ho
        · exact ih (excludeEntry_once id ho)

theorem excludeList_freed (e : Env) (hash : Data) (r : Request) : (excludeList e hash r).heap.freed.Nodup := by
  have hempty : ({} : Heap).Once := ⟨List.nodup_nil, fun b hb => absurd hb List.not_mem_nil⟩
  have honce : (walkList e hash r.uv r.list {}).2.Once := walkList_once r.list hempty
  unfold excludeList
  dsimp only
  cases (walkList e hash r.uv r.list {}).1 with
  | none => exact honce.nodup.of_append_left
  | some verdict => exact honce.nodup.of_append_left

end Buffers

/-! What the list means and what the code makes of it. -/

section Meets

variable {e : Env} {hash : Data} {uv : Bool}

theorem loadContainer_native {s : SlotFile} {id : Data} {cred : Credential} (hid : s.objects.credential = .ok id)
    (hstate : ∀ m, s.objects.state = .ok m → m.properties ≠ propertyImported)
    (hload : loadContainer e.device s hash = .ok cred) :
    ∃ own, e.device.load id hash = some own ∧ own.credProtect = cred.credProtect := by
  unfold loadContainer at hload
  rw [hid] at hload
  cases hclient : s.objects.clientId with
  | error err =>
    rw [hclient] at hload
    cases hload
  | ok residentId =>
    rw [hclient] at hload
    dsimp only at hload
    by_cases hshort : residentId.length < residentLen
    · rw [if_pos hshort] at hload
      cases hload
    rw [if_neg hshort] at hload
    cases hm : s.objects.state with
    | error err =>
      rw [hm] at hload
      cases hload
    | ok m =>
      rw [hm] at hload
      dsimp only at hload
      rw [if_neg (hstate m hm)] at hload
      cases hown : e.device.load id hash with
      | none =>
        rw [hown] at hload
        cases hload
      | some own =>
        rw [hown] at hload
        obtain rfl := Except.ok.inj hload
        exact ⟨own, rfl, rfl⟩

theorem loadResident_native {s : SlotFile} {id : Data} {cred : Credential} (hid : credentialId s = some id)
    (himported : imported s = false) (hload : loadResident e.device s hash = .ok cred) :
    ∃ own, e.device.load id hash = some own ∧ own.credProtect = cred.credProtect := by
  unfold credentialId at hid
  unfold loadResident at hload
  by_cases hmarker : s.marker = true
  · rw [if_pos hmarker] at hid hload
    have hobject : s.objects.credential = .ok id := by
      cases hc : s.objects.credential with
      | error err =>
        rw [hc] at hid
        cases hid
      | ok own =>
        rw [hc] at hid
        exact congrArg Except.ok (Option.some.inj hid)
    have hstate : ∀ m, s.objects.state = .ok m → m.properties ≠ propertyImported := by
      intro m hm hyes
      unfold imported at himported
      rw [hmarker, hm, Bool.true_and] at himported
      have hno := of_decide_eq_false himported
      exact hno hyes
    by_cases husable : residentUsable e.device s = false
    · rw [if_pos husable] at hload
      cases hload
    rw [if_neg husable] at hload
    by_cases hrp : matchesRp s (some hash) = false
    · rw [if_pos hrp] at hload
      cases hload
    rw [if_neg hrp] at hload
    exact loadContainer_native hobject hstate hload
  · rw [if_neg hmarker] at hid hload
    by_cases hshort : s.data.length ≤ rpIdHashLen
    · rw [if_pos hshort] at hid
      cases hid
    rw [if_neg hshort] at hid hload
    by_cases hres : isResident (s.data.drop rpIdHashLen) = true
    · rw [if_pos hres] at hid hload
      rw [Option.some.inj hid] at hload
      cases hown : e.device.load id hash with
      | none =>
        rw [hown] at hload
        cases hload
      | some own =>
        rw [hown] at hload
        obtain rfl := Except.ok.inj hload
        exact ⟨own, rfl, rfl⟩
    · rw [if_neg hres] at hid hload
      rw [Option.some.inj hid] at hload
      cases hown : e.device.load id hash with
      | none =>
        rw [hown] at hload
        cases hload
      | some own =>
        rw [hown] at hload
        obtain rfl := Except.ok.inj hload
        exact ⟨own, rfl, rfl⟩

theorem admitted_congr {c c' : Credential} (h : c.credProtect = c'.credProtect) :
    admitted uv c = admitted uv c' := by
  unfold admitted
  rw [h]

theorem counts_iff {id : Data} (h : PlainId e hash id) :
    Counts e hash uv id ↔ ∃ cred, Identifies e hash id cred ∧ admitted uv cred = true := by
  unfold Counts
  by_cases hres : isResident id = true
  · have hstored : ∀ s, Stored e s id ↔ matchesId e.device s id = true := by
      intro s
      unfold Stored
      rw [if_pos hres]
    rw [if_pos hres]
    constructor
    · rintro ⟨s, hs, hid, cred, hload, hadm⟩
      exact ⟨cred, .inl ⟨s, hs, (hstored s).mpr hid, hload⟩, hadm⟩
    · rintro ⟨cred, ⟨s, hs, hid, hload⟩ | ⟨hother, -⟩, hadm⟩
      · exact ⟨s, hs, (hstored s).mp hid, cred, hload, hadm⟩
      · rw [hres] at hother
        cases hother
  · have hstored : ∀ s, Stored e s id ↔ credentialId s = some id := by
      intro s
      unfold Stored
      rw [if_neg hres]
    have hother : isResident id = false := Bool.eq_false_of_not_eq_true hres
    rw [if_neg hres]
    constructor
    · rintro ⟨cred, hopen, hadm⟩
      by_cases hany : ∃ s ∈ rpSlots e hash, Stored e s id
      · -- the stored credential is the one that the id opens as
        obtain ⟨s, hs, hid⟩ := hany
        have hid' : credentialId s = some id := (hstored s).mp hid
        obtain ⟨hnative, hloads⟩ := h hother s hs hid'
        obtain ⟨stored, hload⟩ := hloads (by rw [hopen]; rfl)
        obtain ⟨own, hown, hprotect⟩ := loadResident_native hid' hnative hload
        obtain rfl := Option.some.inj (hopen.symm.trans hown)
        refine ⟨stored, .inl ⟨s, hs, hid, hload⟩, ?_⟩
        rw [← admitted_congr hprotect]
        exact hadm
      · push Not at hany
        exact ⟨cred, .inr ⟨hother, hany, hopen⟩, hadm⟩
    · rintro ⟨cred, ⟨s, hs, hid, hload⟩ | ⟨-, -, hopen⟩, hadm⟩
      · have hid' : credentialId s = some id := (hstored s).mp hid
        obtain ⟨own, hown, hprotect⟩ := loadResident_native hid' (h hother s hs hid').1 hload
        refine ⟨own, hown, ?_⟩
        rw [admitted_congr hprotect]
        exact hadm
      · exact ⟨cred, hopen, hadm⟩

theorem someCounts_iff {list : List Descriptor} (h : Plain e hash list) :
    SomeCounts e hash uv list ↔ Excluding e hash uv list := by
  constructor
  · rintro ⟨entry, hentry, htype, id, hid, hcounts⟩
    exact ⟨entry, hentry, htype, id, hid, (counts_iff (h.plain entry hentry id htype hid)).mp hcounts⟩
  · rintro ⟨entry, hentry, htype, id, hid, hcred⟩
    exact ⟨entry, hentry, htype, id, hid, (counts_iff (h.plain entry hentry id htype hid)).mpr hcred⟩

theorem presence_verdict (r : Request) :
    (presence r).1 = if r.granted then .excluded else .operationDenied := by
  have hasks : r.up = some true ∨ r.optionsPresent = false ∨ r.up = none := by
    have hreached := r.reached
    cases hup : r.up with
    | none => exact .inr (.inr rfl)
    | some up =>
      cases up with
      | true => exact .inl rfl
      | false =>
        right
        left
        apply Bool.eq_false_of_not_eq_true
        intro hpresent
        exact hreached hpresent hup
  unfold presence Request.granted
  rw [if_pos hasks]
  cases r.paramPresent <;> cases r.userPresent <;> cases r.pressed <;> rfl

theorem excludeList_verdict (r : Request) (h : Plain e hash r.list) :
    (Excluding e hash r.uv r.list → (excludeList e hash r).verdict =
      if r.granted then .excluded else .operationDenied) ∧
    (¬ Excluding e hash r.uv r.list → (excludeList e hash r).verdict = .goesOn) := by
  rw [← someCounts_iff h]
  have hwalk : (SomeCounts e hash r.uv r.list ∧ (walkList e hash r.uv r.list {}).1 = none) ∨
      (¬ SomeCounts e hash r.uv r.list ∧ (walkList e hash r.uv r.list {}).1 = some .goesOn) :=
    walkList_complete r.list h.complete {}
  unfold excludeList
  dsimp only
  rcases hwalk with ⟨hsome, hw⟩ | ⟨hnone, hw⟩
  · refine ⟨fun _ => ?_, fun hno => absurd hsome hno⟩
    rw [hw]
    exact presence_verdict r
  · refine ⟨fun hyes => absurd hyes hnone, fun _ => ?_⟩
    rw [hw]

end Meets

/-! The decision. -/

section Decision

variable {e : Env} {hash : Data}

theorem verdict_congr (r r' : Request) (h : Plain e hash r.list) (h' : Plain e hash r'.list)
    (hgranted : r'.granted = r.granted)
    (hsame : Excluding e hash r'.uv r'.list ↔ Excluding e hash r.uv r.list) :
    (excludeList e hash r').verdict = (excludeList e hash r).verdict := by
  by_cases hyes : Excluding e hash r.uv r.list
  · rw [(excludeList_verdict r h).1 hyes, (excludeList_verdict r' h').1 (hsame.mpr hyes), hgranted]
  · rw [(excludeList_verdict r h).2 hyes, (excludeList_verdict r' h').2 fun hno => hyes (hsame.mp hno)]

theorem Plain.perm {list list' : List Descriptor} (h : Plain e hash list) (hp : list'.Perm list) :
    Plain e hash list' where
  complete := fun entry hentry => h.complete entry (hp.mem_iff.mp hentry)
  plain := fun entry hentry => h.plain entry (hp.mem_iff.mp hentry)

theorem excluding_perm {uv : Bool} {list list' : List Descriptor} (hp : list'.Perm list) :
    Excluding e hash uv list' ↔ Excluding e hash uv list := by
  unfold Excluding
  constructor
  · rintro ⟨entry, hentry, hrest⟩
    exact ⟨entry, hp.mem_iff.mp hentry, hrest⟩
  · rintro ⟨entry, hentry, hrest⟩
    exact ⟨entry, hp.mem_iff.mpr hentry, hrest⟩

/-- The two ids of a stored credential, which no other one has. -/
structure Forms (e : Env) (hash : Data) (s : SlotFile) (id id' : Data) : Prop where
  mem : s ∈ rpSlots e hash
  has : Stored e s id
  has' : Stored e s id'
  unique : ∀ t ∈ rpSlots e hash, Stored e t id ∨ Stored e t id' → t = s

theorem Forms.identifies {s : SlotFile} {id id' : Data} (h : Forms e hash s id id') (cred : Credential) :
    Identifies e hash id cred ↔ Identifies e hash id' cred := by
  have hone : ∀ x, Stored e s x → (∀ t ∈ rpSlots e hash, Stored e t x → t = s) →
      (Identifies e hash x cred ↔ loadResident e.device s hash = .ok cred) := by
    intro x hx hunique
    constructor
    · rintro (⟨t, ht, hstored, hload⟩ | ⟨-, hnone, -⟩)
      · rw [← hunique t ht hstored]
        exact hload
      · exact absurd hx (hnone s h.mem)
    · intro hload
      exact .inl ⟨s, h.mem, hx, hload⟩
  rw [hone id h.has fun t ht hstored => h.unique t ht (.inl hstored),
    hone id' h.has' fun t ht hstored => h.unique t ht (.inr hstored)]

theorem excluding_forms {uv : Bool} {s : SlotFile} {id id' : Data} (h : Forms e hash s id id')
    (before after : List Descriptor) :
    Excluding e hash uv (before ++ ⟨some id', some true⟩ :: after) ↔
      Excluding e hash uv (before ++ ⟨some id, some true⟩ :: after) := by
  have hsplit : ∀ x, Excluding e hash uv (before ++ ⟨some x, some true⟩ :: after) ↔
      Excluding e hash uv before ∨
        (∃ cred, Identifies e hash x cred ∧ admitted uv cred = true) ∨ Excluding e hash uv after := by
    intro x
    unfold Excluding
    constructor
    · rintro ⟨entry, hentry, htype, y, hy, hcred⟩
      rcases List.mem_append.mp hentry with hentry | hentry
      · exact .inl ⟨entry, hentry, htype, y, hy, hcred⟩
      · rcases List.mem_cons.mp hentry with rfl | hentry
        · obtain rfl := Option.some.inj hy
          exact .inr (.inl hcred)
        · exact .inr (.inr ⟨entry, hentry, htype, y, hy, hcred⟩)
    · rintro (⟨entry, hentry, hrest⟩ | hcred | ⟨entry, hentry, hrest⟩)
      · exact ⟨entry, List.mem_append_left _ hentry, hrest⟩
      · exact ⟨⟨some x, some true⟩, List.mem_append_right _ (List.mem_cons_self ..), rfl, x, rfl, hcred⟩
      · exact ⟨entry, List.mem_append_right _ (List.mem_cons_of_mem _ hentry), hrest⟩
  have hids : (∃ cred, Identifies e hash id' cred ∧ admitted uv cred = true) ↔
      ∃ cred, Identifies e hash id cred ∧ admitted uv cred = true := by
    constructor
    · rintro ⟨cred, hid, hadm⟩
      exact ⟨cred, (h.identifies cred).mpr hid, hadm⟩
    · rintro ⟨cred, hid, hadm⟩
      exact ⟨cred, (h.identifies cred).mp hid, hadm⟩
  rw [hsplit id', hsplit id, hids]

/-- What the step decides. -/
structure Decides (e : Env) (hash : Data) (r : Request) : Prop where
  excluded : (excludeList e hash r).verdict = .excluded ↔
    Excluding e hash r.uv r.list ∧ r.granted = true
  denied : (excludeList e hash r).verdict = .operationDenied ↔
    Excluding e hash r.uv r.list ∧ r.granted = false
  order : ∀ list, list.Perm r.list →
    (excludeList e hash { r with list := list }).verdict = (excludeList e hash r).verdict
  forms : ∀ s id id', Forms e hash s id id' → ∀ before after,
    r.list = before ++ ⟨some id, some true⟩ :: after →
      Plain e hash (before ++ ⟨some id', some true⟩ :: after) →
        (excludeList e hash { r with list := before ++ ⟨some id', some true⟩ :: after }).verdict =
          (excludeList e hash r).verdict
  once : (excludeList e hash r).heap.freed.Nodup

/-- A list of plain ids excludes, once the user is there, exactly when some entry identifies a credential that
the request may see; neither the order of the entries nor the form of an id matters, and no buffer is released
twice. -/
theorem exclude_decides (e : Env) (hash : Data) (r : Request) (h : Plain e hash r.list) : Decides e hash r := by
  obtain ⟨hyes, hno⟩ := excludeList_verdict r h
  constructor
  · by_cases hex : Excluding e hash r.uv r.list
    · rw [hyes hex]
      cases hg : r.granted with
      | true => exact ⟨fun _ => ⟨hex, rfl⟩, fun _ => rfl⟩
      | false =>
        constructor
        · intro heq
          cases heq
        · rintro ⟨-, heq⟩
          cases heq
    · rw [hno hex]
      constructor
      · intro heq
        cases heq
      · intro hand
        exact absurd hand.1 hex
  · by_cases hex : Excluding e hash r.uv r.list
    · rw [hyes hex]
      cases hg : r.granted with
      | true =>
        constructor
        · intro heq
          cases heq
        · rintro ⟨-, heq⟩
          cases heq
      | false => exact ⟨fun _ => ⟨hex, rfl⟩, fun _ => rfl⟩
    · rw [hno hex]
      constructor
      · intro heq
        cases heq
      · intro hand
        exact absurd hand.1 hex
  · intro list hp
    exact verdict_congr r { r with list := list } h (h.perm hp) rfl (excluding_perm hp)
  · intro s id id' hforms before after hlist hplain
    apply verdict_congr r { r with list := before ++ ⟨some id', some true⟩ :: after } h hplain rfl
    rw [hlist]
    exact excluding_forms hforms before after
  · exact excludeList_freed e hash r

end Decision

/-! A device with one stored credential. -/

def aloneHash : Data := List.replicate 32 0

def aloneResidentId : Data := [0, 0, 0, 0, 0xf1, 0xd0, 0x02, 0x03] ++ List.replicate 34 7

def aloneSlot (status : BitVec 8) : SlotFile where
  marker := true
  data := []
  objects :=
    { rpIdHash := .ok aloneHash
      clientId := .ok aloneResidentId
      credential := .ok [1]
      publicKey := .error .fileNotFound
      metadata := .error .fileNotFound
      privateKey := .error .fileNotFound
      state := .ok ⟨status, 0, 0⟩ }

def alone (status : BitVec 8) : Env where
  device :=
    { load := fun id _ => if id = [1] then some { id := id } else none
      parseMetadata := fun _ => none
      deriveResident := fun id => id
      openRp := fun _ _ => none }
  storage := ⟨fun i => if i.val = 0 then some (aloneSlot status) else none, fun _ => none⟩
  slotBuffers _ := some 1
  idBuffers _ := some 1

/-- A request with the list alone, whose user presses the button. -/
def pressedRequest (list : List Descriptor) : Request where
  list := list
  uv := false
  up := none
  optionsPresent := false
  paramPresent := false
  userPresent := false
  pressed := true
  reached := fun h => absurd h Bool.false_ne_true

theorem alone_slots {status : BitVec 8} {s : SlotFile} (hs : s ∈ rpSlots (alone status) aloneHash) :
    s = aloneSlot status := by
  obtain ⟨i, hi, -⟩ := mem_rpSlots.mp hs
  have hslot : (if i.val = 0 then some (aloneSlot status) else none) = some s := hi
  by_cases hzero : i.val = 0
  · rw [if_pos hzero] at hslot
    exact (Option.some.inj hslot).symm
  · rw [if_neg hzero] at hslot
    cases hslot

theorem alone_mem (status : BitVec 8) : aloneSlot status ∈ rpSlots (alone status) aloneHash :=
  mem_rpSlots.mpr ⟨0, rfl, rfl⟩

theorem alone_loads :
    loadResident (alone statusActive).device (aloneSlot statusActive) aloneHash =
      .ok { id := [1], residentId := some aloneResidentId } := by
  rfl

theorem alone_plainId (id : Data) : PlainId (alone statusActive) aloneHash id := by
  intro _ s hs _
  rw [alone_slots hs]
  exact ⟨rfl, fun _ => ⟨_, alone_loads⟩⟩

/-- The stored credential excludes by either of its ids, in any order. -/
theorem alone_decided : Decides (alone statusActive) aloneHash
    (pressedRequest [⟨some [1], some true⟩, ⟨some aloneResidentId, some true⟩]) := by
  apply exclude_decides
  constructor
  · intro entry hentry
    rcases List.mem_cons.mp hentry with rfl | hentry
    · exact ⟨rfl, rfl⟩
    · rw [List.mem_singleton.mp hentry]
      exact ⟨rfl, rfl⟩
  · intro entry _ id _ _
    exact alone_plainId id

/-- An imported credential, whose id does not open on this device. -/
def importedSlot : SlotFile :=
  { aloneSlot statusActive with
    objects :=
      { (aloneSlot statusActive).objects with
        credential := .ok [2]
        metadata := .ok [3]
        privateKey := .ok [4]
        state := .ok ⟨statusActive, propertyImported, 0⟩ } }

def importedAlone : Env :=
  { alone statusActive with
    device := { (alone statusActive).device with parseMetadata := fun _ => some {} }
    storage := ⟨fun i => if i.val = 0 then some importedSlot else none, fun _ => none⟩ }

theorem imported_mem : importedSlot ∈ rpSlots importedAlone aloneHash := mem_rpSlots.mpr ⟨0, rfl, rfl⟩

/-- An entry without an id answers for those after it; the id of a revoked credential excludes, though its
resident id does not; and that of an imported one does not, though its resident id does. -/
theorem order_and_form_matter :
    (Excluding (alone statusActive) aloneHash false [⟨none, some true⟩, ⟨some [1], some true⟩] ∧
      (excludeList (alone statusActive) aloneHash
        (pressedRequest [⟨none, some true⟩, ⟨some [1], some true⟩])).verdict = .missingParameter ∧
      (excludeList (alone statusActive) aloneHash
        (pressedRequest [⟨some [1], some true⟩, ⟨none, some true⟩])).verdict = .excluded) ∧
    (¬ Excluding (alone statusRevoked) aloneHash false [⟨some [1], some true⟩] ∧
      (excludeList (alone statusRevoked) aloneHash
        (pressedRequest [⟨some [1], some true⟩])).verdict = .excluded ∧
      (excludeList (alone statusRevoked) aloneHash
        (pressedRequest [⟨some aloneResidentId, some true⟩])).verdict = .goesOn) ∧
    (Excluding importedAlone aloneHash false [⟨some [2], some true⟩] ∧
      (excludeList importedAlone aloneHash (pressedRequest [⟨some [2], some true⟩])).verdict = .goesOn ∧
      (excludeList importedAlone aloneHash
        (pressedRequest [⟨some aloneResidentId, some true⟩])).verdict = .excluded) := by
  refine ⟨⟨?_, by decide +kernel, by decide +kernel⟩, ⟨?_, by decide +kernel, by decide +kernel⟩, ?_,
    by decide +kernel, by decide +kernel⟩
  · refine ⟨⟨some [1], some true⟩, by decide, rfl, [1], rfl, _, .inl ⟨_, alone_mem _, rfl, alone_loads⟩, rfl⟩
  · rintro ⟨entry, hentry, -, id, hid, cred, hcred, -⟩
    rw [List.mem_singleton.mp hentry] at hid
    obtain rfl := Option.some.inj hid
    have hstored : Stored (alone statusRevoked) (aloneSlot statusRevoked) [1] := rfl
    rcases hcred with ⟨s, hs, -, hload⟩ | ⟨-, hnone, -⟩
    · -- a revoked credential does not load
      rw [alone_slots hs] at hload
      have herror : loadResident (alone statusRevoked).device (aloneSlot statusRevoked) aloneHash =
          .error .noCredentials := rfl
      rw [herror] at hload
      cases hload
    · exact hnone _ (alone_mem _) hstored
  · have hloads : loadResident importedAlone.device importedSlot aloneHash =
        .ok { id := [2], privateKey := some [4], residentId := some aloneResidentId } := rfl
    exact ⟨⟨some [2], some true⟩, by decide, rfl, [2], rfl, _, .inl ⟨_, imported_mem, rfl, hloads⟩, rfl⟩

end Exclude

end Cred

end KeyWallet
