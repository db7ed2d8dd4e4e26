import KeyWallet.AssertionOwners

/-! What credProtect hides: getAssertion without verification in two states of the device, one that
has a protected credential and one that does not. -/
namespace KeyWallet

namespace Cred

namespace Assert

/-! The search along allowList. -/

section Search

variable (e : Setting) (hash : Data)

/-- What opens as a credential was sealed by credential_create or is a key handle of U2F. Both are
longer than a resident id. -/
def Sealed : Prop := ∀ id, (e.device.load id hash).isSome → id.length ≠ residentLen

/-- The credential that an id in allowList stands for. -/
def listed (id : Data) : Option Credential :=
  if isResident id then loadById e hash id else e.device.load id hash

/-- The silent check counts this id. -/
def tagged (id : Data) : Bool := countsSilently e hash true ⟨some id, some true⟩

def publicKeyIds (allowList : List Descriptor) : List Data :=
  allowList.filterMap fun entry => if entry.isPublicKey = some true then entry.id else none

/-- Every entry has an id and a type. -/
def Complete (allowList : List Descriptor) : Prop :=
  ∀ entry ∈ allowList, entry.isPublicKey.isSome ∧ entry.id.isSome

def Located.found (l : Located) (resident : Bool) : Option Credential → Located
  | none => l
  | some cred => { l.add cred with resident := l.resident || resident }

variable {e hash}

theorem locateEntry_eq (hsealed : Sealed e hash) {l : Located}
    (hroom : l.creds.length < maxCredentialCountInList) (id : Data) :
    locateEntry e hash l id = (l.found (isResident id) (listed e hash id), false) := by
  unfold locateEntry listed
  cases hres : isResident id with
  | true =>
    rw [if_pos rfl, if_pos rfl]
    cases loadById e hash id with
    | none => rfl
    | some cred =>
      dsimp only [Located.found]
      rw [if_pos hroom, Bool.or_true]
  | false =>
    rw [if_neg Bool.false_ne_true, if_neg Bool.false_ne_true]
    cases hload : e.device.load id hash with
    | none => rfl
    | some cred =>
      -- a sealed id has not the length of a resident one, so no file matches it
      have hlen : id.length ≠ residentLen := hsealed id (by rw [hload]; rfl)
      have hany : ((rpSlots e hash).any fun s => matchesId e.device s id) = false := by
        rw [List.any_eq_false]
        intro s _
        unfold matchesId
        rw [decide_eq_false hlen]
        exact Bool.false_ne_true
      dsimp only [Located.found]
      rw [hany]
      simp only [Bool.false_eq_true, and_false, if_false, Bool.or_false, ite_self]
      rfl

/-- What the loop over allowList leaves. -/
def Located.after (e : Setting) (hash : Data) (l : Located) (ids : List Data) : Located where
  creds := l.creds ++ ids.filterMap (listed e hash)
  resident := l.resident || ids.any fun id => isResident id && (listed e hash id).isSome
  silent := l.silent && (ids.filterMap (listed e hash)).isEmpty

theorem Located.after_nil (l : Located) : l.after e hash [] = l := by
  unfold Located.after
  simp

theorem Located.after_cons (l : Located) (id : Data) (ids : List Data) :
    l.after e hash (id :: ids) = (l.found (isResident id) (listed e hash id)).after e hash ids := by
  unfold Located.after
  cases h : listed e hash id with
  | none => simp [Located.found, h]
  | some cred => simp [Located.found, Located.add, h, Bool.or_assoc]

theorem Located.found_length (l : Located) (resident : Bool) (c : Option Credential) :
    (l.found resident c).creds.length ≤ l.creds.length + 1 := by
  cases c with
  | none => exact Nat.le_succ _
  | some cred => exact le_of_eq (List.length_append ..)

theorem locateList_complete (hsealed : Sealed e hash) {allowList : List Descriptor} :
    ∀ {l : Located}, Complete allowList →
      l.creds.length + allowList.length ≤ maxCredentialCountInList →
      locateList e hash l allowList = .ok (l.after e hash (publicKeyIds allowList)) := by
  induction allowList with
  | nil =>
    intro l _ _
    rw [publicKeyIds, List.filterMap_nil, Located.after_nil]
    rfl
  | cons entry entries ih =>
    intro l hcomplete hroom
    rw [List.length_cons] at hroom
    have hrest : Complete entries := fun d hd => hcomplete d (List.mem_cons_of_mem _ hd)
    obtain ⟨htype, hid⟩ := hcomplete entry List.mem_cons_self
    obtain ⟨id, isPublicKey⟩ := entry
    obtain ⟨isPublicKey, rfl⟩ := Option.isSome_iff_exists.mp htype
    obtain ⟨id, rfl⟩ := Option.isSome_iff_exists.mp hid
    dsimp only [locateList, publicKeyIds]
    cases isPublicKey with
    | true =>
      rw [if_pos rfl, locateEntry_eq hsealed (by omega)]
      simp only [Bool.false_eq_true, if_false]
      have hlen := l.found_length (isResident id) (listed e hash id)
      rw [ih hrest (by omega), ← Located.after_cons]
      rfl
    | false =>
      rw [if_neg Bool.false_ne_true, ih hrest (by omega)]
      rfl

theorem locateList_incomplete (hsealed : Sealed e hash) {allowList : List Descriptor} :
    ∀ {l : Located}, ¬ Complete allowList →
      l.creds.length + allowList.length ≤ maxCredentialCountInList →
      locateList e hash l allowList = .error .missingParameter := by
  induction allowList with
  | nil =>
    intro l hcomplete
    exact absurd (fun d hd => by cases hd) hcomplete
  | cons entry entries ih =>
    intro l hcomplete hroom
    rw [List.length_cons] at hroom
    obtain ⟨id, isPublicKey⟩ := entry
    cases isPublicKey with
    | none => rfl
    | some isPublicKey =>
      cases id with
      | none => rfl
      | some id =>
        have hrest : ¬ Complete entries := by
          intro h
          apply hcomplete
          intro d hd
          rcases List.mem_cons.mp hd with rfl | hd
          · exact ⟨rfl, rfl⟩
          · exact h d hd
        dsimp only [locateList]
        cases isPublicKey with
        | true =>
          rw [if_pos rfl, locateEntry_eq hsealed (by omega)]
          simp only [Bool.false_eq_true, if_false]
          have hlen := l.found_length (isResident id) (listed e hash id)
          exact ih hrest (by omega)
        | false =>
          rw [if_neg Bool.false_ne_true]
          exact ih hrest (by omega)

end Search

/-! The answer as a function of what the search has found. -/

section Reply

variable (e : Setting) (req : Request)

/-- The request gets as far as an answer. -/
structure Reached : Prop where
  checks : checks e req = none
  complete : Complete req.allowList
  present : presenceFails e req = false

/-- No pinUvAuthParam was verified. -/
def Unverified : Prop := ¬ (req.pinUvAuthParam ≠ none ∧ tokenVerifies e req = true)

/-- `tags` is what the silent check has counted. -/
def reply (silent : Bool) (tags : Nat) (usable : List Credential) (resident : Bool) :
    Except Status Body :=
  if silent then
    if tags = 0 then .error .noCredentials
    else if req.largeBlobKey = some false then .error .invalidOption
    else .ok (bogus e req tags (flagsAfter req))
  else
    match ExchangeSort.sort (·.boardCreation) usable with
    | [] => .error .noCredentials
    | cred :: _ =>
      if req.largeBlobKey = some false then .error .invalidOption
      else respond e req false cred resident (numberShown req resident usable.length) (flagsAfter req)

/-- How many entries of allowList the silent check counts. -/
def tags : Nat := req.allowList.countP (countsSilently e (rpIdHash e req) true)

/-- The credentials that allowList names and that load. -/
def loadedList : List Credential :=
  (publicKeyIds req.allowList).filterMap (listed e (rpIdHash e req))

/-- One of them is resident. -/
def residentListed : Bool :=
  (publicKeyIds req.allowList).any fun id =>
    isResident id && (listed e (rpIdHash e req) id).isSome

variable {e req}

theorem getAssertion_silent {l : Located} (hchecks : checks e req = none)
    (hlocate : locate e (rpIdHash e req) (startSilent req) req.allowList = .ok l)
    (hpresent : presenceFails e req = false) (hlist : req.allowList ≠ []) (hcreds : l.creds = [])
    (hsilent : l.silent = true) (hresident : l.resident = false) :
    (getAssertion e req).result = reply e req true (tags e req) [] false := by
  have hfound : numberFound e req l [] = tags e req := by
    unfold numberFound
    rw [if_pos ⟨rfl, hsilent, hlist⟩, hcreds]
    rfl
  unfold getAssertion reply
  dsimp only
  rw [hchecks]
  dsimp only
  rw [hlocate]
  dsimp only
  rw [hpresent, if_neg Bool.false_ne_true, hcreds, List.filter_nil, hfound, if_pos rfl]
  by_cases hzero : tags e req = 0
  · rw [if_pos hzero, if_pos hzero]
  rw [if_neg hzero, if_neg hzero]
  by_cases hblob : req.largeBlobKey = some false
  · rw [if_pos hblob, if_pos hblob]
  · rw [if_neg hblob, if_neg hblob, if_pos ⟨hsilent, hresident⟩]

theorem getAssertion_loaded {l : Located} (hchecks : checks e req = none)
    (hlocate : locate e (rpIdHash e req) (startSilent req) req.allowList = .ok l)
    (hpresent : presenceFails e req = false) {usable : List Credential}
    (husable : l.creds.filter (admitted (startFlags req) (req.allowList ≠ [])) = usable)
    (hsilent : l.silent = false ∨ l.creds = [] ∧ req.allowList = []) (n : Nat) :
    (getAssertion e req).result = reply e req false n usable l.resident := by
  have hfound : numberFound e req l usable = usable.length := by
    unfold numberFound
    apply if_neg
    intro ⟨_, hs, hlist⟩
    rcases hsilent with h | h
    · exact Bool.false_ne_true (h.symm.trans hs)
    · exact hlist h.2
  unfold getAssertion reply
  dsimp only
  rw [hchecks]
  dsimp only
  rw [hlocate]
  dsimp only
  rw [hpresent, if_neg Bool.false_ne_true, husable, hfound, if_neg Bool.false_ne_true]
  by_cases hzero : usable.length = 0
  · rw [if_pos hzero, List.length_eq_zero_iff.mp hzero]
    rfl
  have hs : l.silent = false := by
    rcases hsilent with h | h
    · exact h
    · rw [h.1, List.filter_nil] at husable
      exact absurd (husable ▸ rfl) hzero
  rw [if_neg hzero, hs]
  simp only [Bool.false_eq_true, false_and, if_false]
  cases hsort : ExchangeSort.sort (·.boardCreation) usable with
  | nil =>
    have hlen := ExchangeSort.sort_length (·.boardCreation) usable
    rw [hsort] at hlen
    exact absurd hlen.symm hzero
  | cons cred rest =>
    by_cases hblob : req.largeBlobKey = some false
    · simp only [hblob, if_true]
    · simp only [hblob, if_false]
      cases respond e req false cred l.resident (numberShown req l.resident usable.length)
        (flagsAfter req) <;> rfl

theorem Unverified.noParam (hunverified : Unverified e req) (hchecks : checks e req = none) :
    req.pinUvAuthParam = none := by
  by_contra hparam
  unfold checks checksOfToken at hchecks
  simp only [Option.or_eq_none_iff, ite_eq_right_iff, reduceCtorEq, imp_false, not_and,
    Bool.not_eq_false] at hchecks
  exact hunverified ⟨hparam, hchecks.1.2.2.2 hparam⟩

theorem Unverified.startFlags (hunverified : Unverified e req) (hchecks : checks e req = none) :
    startFlags req = 0 := if_pos (hunverified.noParam hchecks)

theorem getAssertion_absent {l : Located} (hchecks : checks e req = none)
    (hlocate : locate e (rpIdHash e req) (startSilent req) req.allowList = .ok l)
    (habsent : presenceFails e req = true) :
    (getAssertion e req).result = .error .operationDenied := by
  unfold getAssertion
  dsimp only
  rw [hchecks]
  dsimp only
  rw [hlocate]
  dsimp only
  rw [if_pos habsent]

/-- allowList as the parser leaves it: not empty, and no longer than the array. -/
structure Lists (req : Request) : Prop where
  nonempty : req.allowList ≠ []
  short : req.allowList.length ≤ maxCredentialCountInList

theorem locate_list (hlist : Lists req) (hsealed : Sealed e (rpIdHash e req))
    (hcomplete : Complete req.allowList) :
    locate e (rpIdHash e req) (startSilent req) req.allowList = .ok
      ⟨loadedList e req, residentListed e req, startSilent req && (loadedList e req).isEmpty⟩ := by
  unfold locate
  rw [if_neg hlist.nonempty, locateList_complete hsealed hcomplete
    (by rw [List.length_nil, Nat.zero_add]; exact hlist.short)]
  unfold Located.after
  rw [List.nil_append, Bool.false_or]
  rfl

theorem locate_incomplete (hlist : Lists req) (hsealed : Sealed e (rpIdHash e req))
    (hcomplete : ¬ Complete req.allowList) :
    locate e (rpIdHash e req) (startSilent req) req.allowList = .error .missingParameter := by
  unfold locate
  rw [if_neg hlist.nonempty]
  exact locateList_incomplete hsealed hcomplete
    (by rw [List.length_nil, Nat.zero_add]; exact hlist.short)

theorem getAssertion_list (hlist : Lists req) (hsealed : Sealed e (rpIdHash e req))
    (hunverified : Unverified e req) (hreached : Reached e req) :
    (getAssertion e req).result =
      reply e req (startSilent req && (loadedList e req).isEmpty) (tags e req)
        ((loadedList e req).filter (admitted 0 true)) (residentListed e req) := by
  have hlocate := locate_list hlist hsealed hreached.complete
  cases hsilent : startSilent req && (loadedList e req).isEmpty with
  | true =>
    have hnone : loadedList e req = [] :=
      List.isEmpty_iff.mp (Bool.and_eq_true_iff.mp hsilent).2
    have hresident : residentListed e req = false := by
      unfold residentListed
      rw [List.any_eq_false]
      intro id hid
      have hid := List.filterMap_eq_nil_iff.mp hnone id hid
      rw [hid]
      simp
    rw [hsilent] at hlocate
    rw [getAssertion_silent hreached.checks hlocate hreached.present hlist.nonempty hnone rfl
      hresident, hnone, hresident]
    rfl
  | false =>
    rw [hsilent] at hlocate
    apply getAssertion_loaded hreached.checks hlocate hreached.present _ (.inl rfl)
    rw [hunverified.startFlags hreached.checks, decide_eq_true hlist.nonempty]

theorem getAssertion_empty (hlist : req.allowList = []) (hunverified : Unverified e req)
    (hchecks : checks e req = none) (hpresent : presenceFails e req = false) :
    (getAssertion e req).result =
      reply e req false 0 ((loadable e req).filter (admitted 0 false)) true := by
  have hlocate : locate e (rpIdHash e req) (startSilent req) req.allowList =
      .ok ⟨loadable e req, true, startSilent req && (loadable e req).isEmpty⟩ := by
    rw [hlist]
    rfl
  refine getAssertion_loaded hchecks hlocate hpresent ?_ ?_ 0
  · rw [hunverified.startFlags hchecks, hlist]
    rfl
  · cases hsilent : startSilent req && (loadable e req).isEmpty with
    | true => exact .inr ⟨List.isEmpty_iff.mp (Bool.and_eq_true_iff.mp hsilent).2, hlist⟩
    | false => exact .inl rfl

end Reply

/-! Two states of the device. -/

/-- The device while its key is not loaded. -/
def lockedDevice (d : Device) : Device := { d with load := fun _ _ => none }

namespace Setting

/-- The state without the file of a slot. -/
def without (e : Setting) (i : SlotIndex) : Setting :=
  { e with storage.slots := fun j => if j = i then none else e.storage.slots j }

/-- The state in which other ids open and carry a tag. -/
def altered (e : Setting) (load : Data → Data → Option Credential) (silentTag : Data → Data → Data) :
    Setting :=
  { e with device.load := load, crypto.silentTag := silentTag }

end Setting

/-- The file of slot `i` holds the credential; the key of the device may be loaded or not. -/
structure Holds (keyed : Device) (hash : Data) (e : Setting) (i : SlotIndex) (s : SlotFile)
    (cred : Credential) : Prop where
  device : e.device = keyed ∨ e.device = lockedDevice keyed
  slot : e.storage.slots i = some s
  rp : matchesRp s (some hash) = true
  loads : loadResident keyed s hash = .ok cred

/-- The id belongs to no credential of the RP. -/
structure Unknown (hash id : Data) (e : Setting) : Prop where
  files : ∀ s ∈ rpSlots e hash, matchesId e.device s id = false
  unopened : e.device.load id hash = none

/-- The id belongs to a credential of the RP with credProtect 3 in the first state and to none in the
second; nothing else is different. -/
inductive Conceals (keyed : Device) (hash id : Data) : Setting → Setting → Prop
  | resident {e : Setting} {i : SlotIndex} {s : SlotFile} {cred : Credential}
      (holds : Holds keyed hash e i s cred) (level : cred.credProtect = uvRequired)
      (own : matchesId e.device s id = true) (unknown : Unknown hash id (e.without i)) :
      Conceals keyed hash id e (e.without i)
  | sealed {e : Setting} {load : Data → Data → Option Credential} {silentTag : Data → Data → Data}
      {cred : Credential} (device : e.device = keyed ∨ e.device = lockedDevice keyed)
      (opens : keyed.load id hash = some cred) (level : cred.credProtect = uvRequired)
      (elsewhere : ∀ x, x ≠ id → load x hash = e.device.load x hash ∧
        silentTag x hash = e.crypto.silentTag x hash)
      (files : ∀ s ∈ rpSlots e hash,
        loadResident (e.altered load silentTag).device s hash = loadResident e.device s hash ∧
        residentVerifySilent (e.altered load silentTag) hash s = residentVerifySilent e hash s)
      (unknown : Unknown hash id (e.altered load silentTag))
      (untagged : verifySilent (e.altered load silentTag) hash id = false) :
      Conceals keyed hash id e (e.altered load silentTag)

/-! The slots before and behind one. -/

section Slots

variable (e : Setting) (hash : Data) (i : SlotIndex)

def filesIn (slots : List SlotIndex) : List SlotFile :=
  slots.filterMap fun i => (e.storage.slots i).filter fun s => matchesRp s (some hash)

def slotsBefore : List SlotIndex := (List.finRange 256).take i.val

def slotsBehind : List SlotIndex := (List.finRange 256).drop (i.val + 1)

theorem finRange_split : List.finRange 256 = slotsBefore i ++ i :: slotsBehind i := by
  have hlen : i.val < (List.finRange 256).length := by
    rw [List.length_finRange]
    exact i.isLt
  have hi : (List.finRange 256)[i.val] = i := by
    rw [List.getElem_finRange]
    rfl
  calc
    List.finRange 256 = slotsBefore i ++ (List.finRange 256).drop i.val :=
      (List.take_append_drop _ _).symm
    _ = slotsBefore i ++ i :: slotsBehind i := by
      rw [List.drop_eq_getElem_cons hlen, hi]
      rfl

theorem notMem_slots : i ∉ slotsBefore i ∧ i ∉ slotsBehind i := by
  have hnodup := List.nodup_finRange 256
  rw [finRange_split i, List.nodup_append, List.nodup_cons] at hnodup
  exact ⟨fun h => hnodup.2.2 i h i List.mem_cons_self rfl, hnodup.2.1.1⟩

variable {e hash i}

theorem filesIn_without {slots : List SlotIndex} (h : i ∉ slots) :
    filesIn (e.without i) hash slots = filesIn e hash slots := by
  apply List.filterMap_congr
  intro j hj
  have hne : j ≠ i := fun hji => h (hji ▸ hj)
  dsimp only [Setting.without]
  rw [if_neg hne]

theorem rpSlots_split {s : SlotFile} (hslot : e.storage.slots i = some s)
    (hrp : matchesRp s (some hash) = true) :
    rpSlots e hash = filesIn e hash (slotsBefore i) ++ s :: filesIn e hash (slotsBehind i) ∧
    rpSlots (e.without i) hash =
      filesIn e hash (slotsBefore i) ++ filesIn e hash (slotsBehind i) := by
  have hsplit : ∀ e : Setting, rpSlots e hash = filesIn e hash (slotsBefore i) ++
      (((e.storage.slots i).filter fun s => matchesRp s (some hash)).toList ++
        filesIn e hash (slotsBehind i)) := by
    intro e
    unfold rpSlots
    rw [finRange_split i, List.filterMap_append, List.filterMap_cons]
    cases (e.storage.slots i).filter fun s => matchesRp s (some hash) <;> rfl
  obtain ⟨hbefore, hbehind⟩ := notMem_slots i
  refine ⟨?_, ?_⟩
  · rw [hsplit e, hslot, Option.filter_some, if_pos hrp]
    rfl
  · rw [hsplit (e.without i), filesIn_without hbefore, filesIn_without hbehind]
    dsimp only [Setting.without]
    rw [if_pos rfl]
    rfl

end Slots

theorem loadResident_locked {d : Device} {s : SlotFile} {hash : Data} {cred : Credential}
    (h : loadResident (lockedDevice d) s hash = .ok cred) : loadResident d s hash = .ok cred := by
  unfold loadResident at h ⊢
  cases hmarker : s.marker with
  | false =>
    rw [hmarker, if_neg Bool.false_ne_true] at h
    split_ifs at h <;> cases h
  | true =>
    rw [hmarker] at h
    rw [if_pos rfl] at h ⊢
    rw [show residentUsable (lockedDevice d) s = residentUsable d s from rfl] at h
    split_ifs at h ⊢
    unfold loadContainer at h ⊢
    split at h
    · cases h
    · cases h
    · split_ifs at h ⊢
      split at h
      · cases h
      · split_ifs at h ⊢
        · exact h
        · cases h

theorem Holds.credential {keyed : Device} {hash : Data} {e : Setting} {i : SlotIndex} {s : SlotFile}
    {cred cred' : Credential} (h : Holds keyed hash e i s cred)
    (hload : loadResident e.device s hash = .ok cred') : cred' = cred := by
  have hkeyed : loadResident keyed s hash = .ok cred' := by
    rcases h.device with hd | hd
    · exact hd ▸ hload
    · exact loadResident_locked (hd ▸ hload)
  exact Except.ok.inj (hkeyed.symm.trans h.loads)

/-- What the two states say of the ids in allowList. -/
structure Concealed (hash id : Data) (e e' : Setting) : Prop where
  listed_ne : ∀ x, x ≠ id → listed e' hash x = listed e hash x
  listed_self : listed e' hash id = none
  level : ∀ cred, listed e hash id = some cred → cred.credProtect = uvRequired
  tagged_ne : ∀ x, x ≠ id → tagged e' hash x = tagged e hash x
  tagged_self : tagged e' hash id = true → tagged e hash id = true
  isSealed : Sealed e hash → Sealed e' hash

theorem matchesId_ne {d : Device} {s : SlotFile} {id x : Data} (h : matchesId d s id = true)
    (hne : x ≠ id) : matchesId d s x = false := by
  unfold matchesId at h ⊢
  rw [Bool.and_eq_true, decide_eq_true_iff, decide_eq_true_iff] at h
  rw [Bool.and_eq_false_iff, decide_eq_false_iff_not, decide_eq_false_iff_not, h.2]
  exact .inr fun hx => hne (Option.some.inj hx).symm

theorem Concealed.resident {keyed : Device} {hash id : Data} {e : Setting} {i : SlotIndex}
    {s : SlotFile} {cred : Credential} (holds : Holds keyed hash e i s cred)
    (level : cred.credProtect = uvRequired) (own : matchesId e.device s id = true)
    (unknown : Unknown hash id (e.without i)) : Concealed hash id e (e.without i) := by
  obtain ⟨hwith, hwithout⟩ := rpSlots_split holds.slot holds.rp
  have hfiles : ∀ t ∈ filesIn e hash (slotsBefore i) ++ filesIn e hash (slotsBehind i),
      matchesId e.device t id = false := by
    intro t ht
    rw [← hwithout] at ht
    exact unknown.files t ht
  refine ⟨?_, ?_, ?_, ?_, ?_, fun h => h⟩
  · intro x hx
    unfold listed loadById
    rw [hwith, hwithout, List.findSome?_append, List.findSome?_append, List.findSome?_cons,
      matchesId_ne own hx]
    rfl
  · unfold listed
    split_ifs
    · unfold loadById
      rw [List.findSome?_eq_none_iff]
      intro t ht
      exact if_neg (by rw [unknown.files t ht]; exact Bool.false_ne_true)
    · exact unknown.unopened
  · intro c hc
    unfold listed at hc
    split_ifs at hc
    · unfold loadById at hc
      obtain ⟨t, ht, hload⟩ := List.exists_of_findSome?_eq_some hc
      rw [hwith, List.mem_append, List.mem_cons] at ht
      split_ifs at hload with hmatch
      -- only the hidden file matches the id
      have hts : t = s := by
        by_contra hne
        have hother : t ∈ filesIn e hash (slotsBefore i) ++ filesIn e hash (slotsBehind i) := by
          rw [List.mem_append]
          rcases ht with ht | ht | ht
          · exact .inl ht
          · exact absurd ht hne
          · exact .inr ht
        exact Bool.false_ne_true ((hfiles t hother).symm.trans hmatch)
      subst hts
      cases hl : loadResident e.device t hash with
      | error err =>
        rw [hl] at hload
        cases hload
      | ok c' =>
        rw [hl] at hload
        cases hload
        rw [holds.credential hl]
        exact level
    · rw [show e.device.load id hash = none from unknown.unopened] at hc
      cases hc
  · intro x hx
    unfold tagged countsSilently
    dsimp only
    rw [hwith, hwithout, List.find?_append, List.find?_append, List.find?_cons,
      show (e.without i).device = e.device from rfl, matchesId_ne own hx]
    rfl
  · intro htag
    unfold tagged countsSilently at htag ⊢
    dsimp only at htag ⊢
    cases hres : isResident id with
    | true =>
      rw [hres, if_pos rfl, List.find?_eq_none.mpr ?_] at htag
      · cases htag
      · intro t ht
        rw [unknown.files t ht]
        exact Bool.false_ne_true
    | false =>
      rw [hres] at htag
      exact htag

theorem Concealed.sealed {keyed : Device} {hash id : Data} {e : Setting}
    {load : Data → Data → Option Credential} {silentTag : Data → Data → Data} {cred : Credential}
    (device : e.device = keyed ∨ e.device = lockedDevice keyed)
    (opens : keyed.load id hash = some cred) (level : cred.credProtect = uvRequired)
    (elsewhere : ∀ x, x ≠ id → load x hash = e.device.load x hash ∧
      silentTag x hash = e.crypto.silentTag x hash)
    (files : ∀ s ∈ rpSlots e hash,
      loadResident (e.altered load silentTag).device s hash = loadResident e.device s hash ∧
      residentVerifySilent (e.altered load silentTag) hash s = residentVerifySilent e hash s)
    (unknown : Unknown hash id (e.altered load silentTag))
    (untagged : verifySilent (e.altered load silentTag) hash id = false) :
    Concealed hash id e (e.altered load silentTag) := by
  have hslots : rpSlots (e.altered load silentTag) hash = rpSlots e hash := rfl
  have hmatches : ∀ s x, matchesId (e.altered load silentTag).device s x = matchesId e.device s x :=
    fun _ _ => rfl
  -- the files are the same, and each answers as before
  have hloadById : ∀ x, loadById (e.altered load silentTag) hash x = loadById e hash x := by
    intro x
    unfold loadById
    rw [hslots, ← List.head?_filterMap, ← List.head?_filterMap]
    apply congrArg
    apply List.filterMap_congr
    intro s hs
    rw [(files s hs).1, hmatches]
  have hfind : ∀ x, ((rpSlots (e.altered load silentTag) hash).find? fun s =>
        matchesId (e.altered load silentTag).device s x).any
          (residentVerifySilent (e.altered load silentTag) hash) =
      ((rpSlots e hash).find? fun s => matchesId e.device s x).any (residentVerifySilent e hash) := by
    intro x
    rw [show ((rpSlots (e.altered load silentTag) hash).find? fun s =>
      matchesId (e.altered load silentTag).device s x) =
        (rpSlots e hash).find? fun s => matchesId e.device s x from rfl]
    cases hs : (rpSlots e hash).find? fun s => matchesId e.device s x with
    | none => rfl
    | some s => exact (files s (List.mem_of_find?_eq_some hs)).2
  refine ⟨?_, ?_, ?_, ?_, ?_, ?_⟩
  · intro x hx
    unfold listed
    rw [hloadById, show (e.altered load silentTag).device.load x hash = e.device.load x hash from
      (elsewhere x hx).1]
  · unfold listed
    split_ifs
    · unfold loadById
      rw [List.findSome?_eq_none_iff]
      intro t ht
      exact if_neg (by rw [unknown.files t ht]; exact Bool.false_ne_true)
    · exact unknown.unopened
  · intro c hc
    unfold listed at hc
    split_ifs at hc
    · -- no file matches the id
      unfold loadById at hc
      obtain ⟨t, ht, hload⟩ := List.exists_of_findSome?_eq_some hc
      rw [if_neg (by rw [← hmatches, unknown.files t (hslots ▸ ht)]; exact Bool.false_ne_true)]
        at hload
      cases hload
    · rcases device with hd | hd
      · rw [hd, opens] at hc
        cases hc
        exact level
      · rw [hd] at hc
        cases hc
  · intro x hx
    unfold tagged countsSilently
    dsimp only
    rw [hfind]
    unfold verifySilent tagVerifies
    rw [show (e.altered load silentTag).crypto.silentTag x hash = e.crypto.silentTag x hash from
      (elsewhere x hx).2]
  · intro htag
    unfold tagged countsSilently at htag ⊢
    dsimp only at htag ⊢
    split_ifs at htag ⊢
    · rw [hfind] at htag
      exact htag
    · rw [untagged] at htag
      cases htag
  · intro hsealed x hx
    by_cases hid : x = id
    · rw [hid, unknown.unopened] at hx
      cases hx
    · apply hsealed x
      rw [← show (e.altered load silentTag).device.load x hash = e.device.load x hash from
        (elsewhere x hid).1]
      exact hx

/-- Outside of the search the two states are the same. -/
structure SameRest (e e' : Setting) : Prop where
  sameHash : ∀ req, rpIdHash e' req = rpIdHash e req
  sameChecks : ∀ req, checks e' req = checks e req
  samePresence : ∀ req, presenceFails e' req = presenceFails e req
  sameReply : ∀ req, reply e' req = reply e req

theorem SameRest.without (e : Setting) (i : SlotIndex) : SameRest e (e.without i) :=
  ⟨fun _ => rfl, fun _ => rfl, fun _ => rfl, fun _ => rfl⟩

theorem SameRest.altered (e : Setting) (load : Data → Data → Option Credential)
    (silentTag : Data → Data → Data) : SameRest e (e.altered load silentTag) :=
  ⟨fun _ => rfl, fun _ => rfl, fun _ => rfl, fun _ => rfl⟩

theorem Conceals.concealed {keyed : Device} {hash id : Data} {e e' : Setting}
    (h : Conceals keyed hash id e e') : Concealed hash id e e' ∧ SameRest e e' := by
  cases h with
  | resident holds level own unknown => exact ⟨.resident holds level own unknown, .without _ _⟩
  | sealed device opens level elsewhere files unknown untagged =>
    exact ⟨.sealed device opens level elsewhere files unknown untagged, .altered _ _ _⟩

/-! With allowList. -/

section List

variable {e e' : Setting} {req : Request} {hash id : Data}

theorem Concealed.filterMap_listed (h : Concealed hash id e e') (ids : List Data)
    (hid : id ∈ ids → listed e hash id = none) :
    ids.filterMap (listed e' hash) = ids.filterMap (listed e hash) := by
  apply List.filterMap_congr
  intro x hx
  by_cases hxid : x = id
  · rw [hxid, h.listed_self, hid (hxid ▸ hx)]
  · exact h.listed_ne x hxid

theorem Concealed.filter_listed (h : Concealed hash id e e') (ids : List Data) :
    (ids.filterMap (listed e hash)).filter (admitted 0 true) =
      (ids.filterMap (listed e' hash)).filter (admitted 0 true) := by
  induction ids with
  | nil => rfl
  | cons x xs ih =>
    by_cases hx : x = id
    · subst hx
      rw [List.filterMap_cons_none h.listed_self]
      cases hl : listed e hash x with
      | none => rw [List.filterMap_cons_none hl, ih]
      | some cred =>
        have hlevel := h.level cred hl
        have hrefused : admitted 0 true cred = false := by
          unfold admitted
          rw [hlevel]
          rfl
        rw [List.filterMap_cons_some hl, List.filter_cons_of_neg (by rw [hrefused]; exact Bool.false_ne_true),
          ih]
    · cases hl : listed e hash x with
      | none => rw [List.filterMap_cons_none hl, List.filterMap_cons_none ((h.listed_ne x hx).trans hl), ih]
      | some cred =>
        rw [List.filterMap_cons_some hl, List.filterMap_cons_some ((h.listed_ne x hx).trans hl),
          List.filter_cons, List.filter_cons, ih]

theorem countsSilently_eq (e : Setting) (hash : Data) (entry : Descriptor) :
    countsSilently e hash true entry =
      ((if entry.isPublicKey = some true then entry.id else none).any (tagged e hash)) := by
  obtain ⟨id, isPublicKey⟩ := entry
  cases isPublicKey with
  | none => rfl
  | some isPublicKey =>
    cases isPublicKey with
    | false => rfl
    | true => cases id <;> rfl

theorem countP_countsSilently (e : Setting) (hash : Data) (allowList : List Descriptor) :
    allowList.countP (countsSilently e hash true) =
      (publicKeyIds allowList).countP (tagged e hash) := by
  induction allowList with
  | nil => rfl
  | cons entry entries ih =>
    rw [List.countP_cons, ih, countsSilently_eq]
    unfold publicKeyIds
    cases hentry : (if entry.isPublicKey = some true then entry.id else none) with
    | none =>
      simp only [List.filterMap_cons, hentry]
      rfl
    | some x =>
      simp only [List.filterMap_cons, hentry, List.countP_cons]
      rfl

theorem Concealed.countP_le (h : Concealed hash id e e') (ids : List Data) :
    ids.countP (tagged e' hash) ≤ ids.countP (tagged e hash) := by
  apply List.countP_mono_left
  intro x _ hx
  by_cases hxid : x = id
  · exact hxid ▸ h.tagged_self (hxid ▸ hx)
  · exact (h.tagged_ne x hxid).symm.trans hx

theorem Concealed.countP_lt (h : Concealed hash id e e') (hnew : tagged e hash id = true)
    (hold : tagged e' hash id = false) {ids : List Data} (hid : id ∈ ids) :
    ids.countP (tagged e' hash) < ids.countP (tagged e hash) := by
  obtain ⟨before, behind, rfl⟩ := List.append_of_mem hid
  rw [List.countP_append, List.countP_append, List.countP_cons_of_pos hnew,
    List.countP_cons_of_neg (by rw [hold]; exact Bool.false_ne_true)]
  have hbefore := h.countP_le before
  have hbehind := h.countP_le behind
  omega

theorem Concealed.countP_eq (h : Concealed hash id e e') {ids : List Data}
    (hid : id ∈ ids → tagged e' hash id = tagged e hash id) :
    ids.countP (tagged e' hash) = ids.countP (tagged e hash) := by
  apply List.countP_congr
  intro x hx
  by_cases hxid : x = id
  · rw [hxid, hid (hxid ▸ hx)]
  · rw [h.tagged_ne x hxid]

/-- Why the answers to the two states are different. -/
inductive Reveals (e e' : Setting) (req : Request) (id : Data) : Prop
  -- nothing loads, and the tag of the hidden credential is counted
  | tag (silent : startSilent req = true) (alone : loadedList e' req = [])
      (unloaded : listed e (rpIdHash e req) id = none) (tagged : tagged e (rpIdHash e req) id = true)
      (untagged : Assert.tagged e' (rpIdHash e req) id = false)
      (blob : req.largeBlobKey = some false → tags e' req = 0)
  -- the hidden credential loads, so that the tags of others are not counted
  | silence (silent : startSilent req = true) (alone : loadedList e' req = [])
      (loads : (listed e (rpIdHash e req) id).isSome) (others : tags e' req ≠ 0)
  -- the hidden credential is resident, so that another one is named as if it were
  | naming (loads : (listed e (rpIdHash e req) id).isSome) (resident : isResident id = true)
      (others : residentListed e' req = false) (blob : req.largeBlobKey ≠ some false)
      {cred : Credential} {rest : List Credential} {body : Body}
      (first : ExchangeSort.sort (·.boardCreation)
        ((loadedList e' req).filter (admitted 0 true)) = cred :: rest)
      (responds : respond e req false cred false
        (numberShown req false ((loadedList e' req).filter (admitted 0 true)).length)
        (flagsAfter req) = .ok body)
      (differs : rest ≠ [] ∨ responseId e cred true ≠ cred.id)

/-- The request is answered and names the id, and the answer gives it away. -/
structure Exposed (e e' : Setting) (req : Request) (id : Data) : Prop where
  reached : Reached e req
  named : id ∈ publicKeyIds req.allowList
  reveals : Reveals e e' req id

theorem SameRest.reached (hrest : SameRest e e') (h : Reached e req) : Reached e' req :=
  ⟨(hrest.sameChecks req).trans h.checks, h.complete, (hrest.samePresence req).trans h.present⟩

theorem SameRest.unreached (hrest : SameRest e e') (hlist : Lists req)
    (hsealed : Sealed e (rpIdHash e req)) (hsealed' : Sealed e' (rpIdHash e' req))
    (h : ¬ Reached e req) : (getAssertion e req).result = (getAssertion e' req).result := by
  cases hchecks : checks e req with
  | some status =>
    rw [getAssertion_checked hchecks, getAssertion_checked ((hrest.sameChecks req).trans hchecks)]
  | none =>
    have hchecks' := (hrest.sameChecks req).trans hchecks
    by_cases hcomplete : Complete req.allowList
    · have habsent : presenceFails e req = true := by
        by_contra hpresent
        exact h ⟨hchecks, hcomplete, Bool.eq_false_of_not_eq_true hpresent⟩
      rw [getAssertion_absent hchecks (locate_list hlist hsealed hcomplete) habsent,
        getAssertion_absent hchecks' (locate_list hlist hsealed' hcomplete)
          ((hrest.samePresence req).trans habsent)]
    · rw [getAssertion_missing hchecks (locate_incomplete hlist hsealed hcomplete),
        getAssertion_missing hchecks' (locate_incomplete hlist hsealed' hcomplete)]

theorem respond_recode (e : Setting) (req : Request) (next resident resident' : Bool)
    (cred : Credential) (number number' : Nat) (flags : BitVec 8) :
    respond e req next cred resident number flags =
      (respond e req next cred resident' number' flags).map fun body =>
        { body with
          id := responseId e cred resident
          user := userOf req cred number flags
          numberOfCredentials := totalOf req next resident number } := by
  unfold respond
  dsimp only
  generalize (if cred.imported = true then 0 else e.counter) = ctr
  generalize (if req.largeBlobKey = some true ∧ cred.largeBlobKey = true then
    e.crypto.largeBlobKey (Mgmt.keySeed cred) else none) = largeBlobKey
  split_ifs
  · rfl
  · cases extOutputs e req cred flags with
    | error status => rfl
    | ok ext =>
      dsimp only
      cases signingKey e (rpIdHash e req) cred with
      | none => rfl
      | some key =>
        dsimp only
        cases sign e key (authDataOf e req flags ctr ext ++ req.clientDataHash.getD []) <;> rfl

theorem Concealed.two_ids (h : Concealed hash id e e') {allowList : List Descriptor}
    (hid : id ∈ publicKeyIds allowList) {x : Data} (hx : x ∈ publicKeyIds allowList)
    (hload : listed e' hash x ≠ none) : 1 < allowList.length := by
  have hne : x ≠ id := by
    intro hxid
    exact hload (hxid ▸ h.listed_self)
  have htwo : 2 ≤ (publicKeyIds allowList).length := by
    obtain ⟨before, behind, hsplit⟩ := List.append_of_mem hid
    rw [hsplit, List.mem_append, List.mem_cons] at hx
    have hother : 0 < before.length + behind.length := by
      rcases hx with hx | hx | hx
      · have := List.length_pos_of_mem hx
        omega
      · exact absurd hx hne
      · have := List.length_pos_of_mem hx
        omega
    rw [hsplit, List.length_append, List.length_cons]
    omega
  exact htwo.trans (List.length_filterMap_le _ _)

/-- With a list the user is told alike, whatever the number is. -/
theorem userOf_listed (hlist : req.allowList ≠ []) (cred : Credential) (number number' : Nat) (flags : BitVec 8) :
    userOf req cred number flags = userOf req cred number' flags := by
  unfold userOf
  simp only [hlist, false_and, and_false, if_false]

/-- A call that was given one resident credential by its id does not tell a number. -/
theorem totalOf_resident (hlen : 1 < req.allowList.length) (n : Nat) :
    totalOf req false true (numberShown req true n) = none := by
  have hone : numberShown req true n = 1 := if_pos ⟨rfl, hlen⟩
  rw [hone]
  exact if_neg (fun h => Nat.lt_irrefl _ h.1)

theorem totalOf_plain {n : Nat} (hn : n ≤ maxCredentialCountInList) :
    totalOf req false false (numberShown req false n) = if n ≤ 1 then none else some n := by
  rw [numberShown_eq (fun h => Bool.false_ne_true h.1) hn]
  by_cases hone : n ≤ 1
  · rw [if_pos hone]
    exact if_neg (fun h => Nat.not_lt_of_le hone h.1)
  · rw [if_neg hone]
    exact if_pos ⟨Nat.lt_of_not_le hone, rfl, .inl rfl⟩

theorem reply_naming (hlen : 1 < req.allowList.length) {usable : List Credential}
    (husable : usable.length ≤ maxCredentialCountInList) (n : Nat) :
    reply e req false n usable true = reply e req false n usable false ↔
      ¬ (req.largeBlobKey ≠ some false ∧ ∃ cred rest body,
        ExchangeSort.sort (·.boardCreation) usable = cred :: rest ∧
        respond e req false cred false (numberShown req false usable.length) (flagsAfter req) =
          .ok body ∧ (rest ≠ [] ∨ responseId e cred true ≠ cred.id)) := by
  have hlist : req.allowList ≠ [] := List.ne_nil_of_length_pos (by omega)
  unfold reply
  rw [if_neg Bool.false_ne_true, if_neg Bool.false_ne_true]
  cases hsort : ExchangeSort.sort (·.boardCreation) usable with
  | nil =>
    refine ⟨fun _ h => ?_, fun _ => rfl⟩
    obtain ⟨-, cred, rest, body, hfirst, -⟩ := h
    cases hfirst
  | cons cred rest =>
    dsimp only
    by_cases hblob : req.largeBlobKey = some false
    · rw [if_pos hblob, if_pos hblob]
      exact ⟨fun _ h => h.1 hblob, fun _ => rfl⟩
    rw [if_neg hblob, if_neg hblob, respond_recode e req false true false cred
      (numberShown req true usable.length) (numberShown req false usable.length)]
    cases hresponds : respond e req false cred false (numberShown req false usable.length)
        (flagsAfter req) with
    | error status =>
      refine ⟨fun _ h => ?_, fun _ => rfl⟩
      obtain ⟨-, c, r, body, hfirst, hok, -⟩ := h
      cases hfirst
      rw [hresponds] at hok
      cases hok
    | ok body =>
      have hlength : usable.length = rest.length + 1 := by
        rw [← ExchangeSort.sort_length (·.boardCreation) usable, hsort, List.length_cons]
      have hself := respond_recode e req false false false cred
        (numberShown req false usable.length) (numberShown req false usable.length) (flagsAfter req)
      rw [hresponds] at hself
      have hbody := Except.ok.inj hself
      have huser : ∀ number, userOf req cred number (flagsAfter req) = body.user := fun number =>
        (userOf_listed hlist cred number _ _).trans (congrArg Body.user hbody).symm
      have hfalse : totalOf req false false (numberShown req false usable.length) =
          if rest = [] then none else some usable.length := by
        rw [totalOf_plain husable, hlength]
        cases rest with
        | nil => rfl
        | cons c cs => rw [if_neg (by rw [List.length_cons]; omega), if_neg (List.cons_ne_nil _ _)]
      have hid : body.id = cred.id := congrArg Body.id hbody
      have hnumber : body.numberOfCredentials = if rest = [] then none else some usable.length :=
        (congrArg Body.numberOfCredentials hbody).trans hfalse
      have hsame : ({ body with
          id := responseId e cred true
          user := userOf req cred (numberShown req true usable.length) (flagsAfter req)
          numberOfCredentials := totalOf req false true (numberShown req true usable.length) } :
            Body) = body ↔ responseId e cred true = cred.id ∧ rest = [] := by
        rw [Body.mk.injEq, totalOf_resident hlen, huser, hid, hnumber]
        constructor
        · intro h
          refine ⟨h.1, ?_⟩
          by_contra hrest
          rw [if_neg hrest] at h
          cases h.2.2.2.2.1
        · intro h
          rw [if_pos h.2]
          exact ⟨h.1, rfl, rfl, rfl, rfl, rfl⟩
      dsimp only [Except.map]
      rw [Except.ok.injEq, hsame]
      constructor
      · intro h hdiffers
        obtain ⟨-, c, r, b, hfirst, -, hdiff⟩ := hdiffers
        cases hfirst
        rcases hdiff with hdiff | hdiff
        · exact hdiff h.2
        · exact hdiff h.1
      · intro h
        by_contra hne
        apply h
        refine ⟨hblob, cred, rest, body, rfl, hresponds, ?_⟩
        by_cases hrest : rest = []
        · exact .inr fun hid => hne ⟨hid, hrest⟩
        · exact .inl hrest

theorem reply_tags {t t' : Nat} (hle : t' ≤ t) (usable : List Credential) (resident : Bool) :
    reply e req true t usable resident = reply e req true t' usable resident ↔
      ¬ (t' < t ∧ (req.largeBlobKey = some false → t' = 0)) := by
  unfold reply
  rw [if_pos rfl, if_pos rfl]
  by_cases heq : t' = t
  · subst heq
    exact ⟨fun _ h => Nat.lt_irrefl _ h.1, fun _ => rfl⟩
  have hlt : t' < t := Nat.lt_of_le_of_ne hle heq
  rw [if_neg (show t ≠ 0 by omega)]
  by_cases hzero : t' = 0
  · rw [if_pos hzero]
    refine ⟨fun h => ?_, fun h => absurd ⟨hlt, fun _ => hzero⟩ h⟩
    split_ifs at h
    · cases h
  rw [if_neg hzero]
  by_cases hblob : req.largeBlobKey = some false
  · rw [if_pos hblob, if_pos hblob]
    exact ⟨fun _ h => hzero (h.2 hblob), fun _ => rfl⟩
  rw [if_neg hblob, if_neg hblob]
  refine ⟨fun h => ?_, fun h => absurd ⟨hlt, fun h => absurd h hblob⟩ h⟩
  -- from two tags on their number is told
  have htotal := congrArg Body.numberOfCredentials (Except.ok.inj h)
  dsimp only [bogus, totalOf] at htotal
  rw [if_pos ⟨show 1 < t by omega, rfl, .inl rfl⟩] at htotal
  split_ifs at htotal
  exact absurd (Option.some.inj htotal).symm heq

theorem Concealed.residentListed (h : Concealed (rpIdHash e req) id e e') (hrest : SameRest e e')
    (hid : id ∈ publicKeyIds req.allowList) :
    Assert.residentListed e req = (Assert.residentListed e' req ||
      (isResident id && (listed e (rpIdHash e req) id).isSome)) := by
  unfold Assert.residentListed
  rw [hrest.sameHash req, Bool.eq_iff_iff, Bool.or_eq_true, List.any_eq_true, List.any_eq_true]
  constructor
  · rintro ⟨x, hx, hfound⟩
    by_cases hxid : x = id
    · exact .inr (hxid ▸ hfound)
    · rw [← h.listed_ne x hxid] at hfound
      exact .inl ⟨x, hx, hfound⟩
  · rintro (⟨x, hx, hfound⟩ | hfound)
    · have hxid : x ≠ id := by
        intro hxid
        rw [hxid, h.listed_self, Option.isSome_none, Bool.and_false] at hfound
        cases hfound
      rw [h.listed_ne x hxid] at hfound
      exact ⟨x, hx, hfound⟩
    · exact ⟨id, hid, hfound⟩

theorem Concealed.loadedList (h : Concealed (rpIdHash e req) id e e') (hrest : SameRest e e')
    (hid : id ∈ publicKeyIds req.allowList → listed e (rpIdHash e req) id = none) :
    Assert.loadedList e' req = Assert.loadedList e req := by
  unfold Assert.loadedList
  rw [hrest.sameHash req]
  exact h.filterMap_listed _ hid

theorem Concealed.tags (h : Concealed (rpIdHash e req) id e e') (hrest : SameRest e e') :
    Assert.tags e' req ≤ Assert.tags e req ∧
      (Assert.tags e' req < Assert.tags e req ↔ id ∈ publicKeyIds req.allowList ∧
        tagged e (rpIdHash e req) id = true ∧ tagged e' (rpIdHash e req) id = false) := by
  unfold Assert.tags
  rw [hrest.sameHash req, countP_countsSilently, countP_countsSilently]
  refine ⟨h.countP_le _, fun hlt => ?_, fun hnew => h.countP_lt hnew.2.1 hnew.2.2 hnew.1⟩
  by_contra hsame
  apply absurd (h.countP_eq fun hid => ?_) (Nat.ne_of_lt hlt)
  cases hold : tagged e' (rpIdHash e req) id with
  | true => exact (h.tagged_self hold).symm
  | false =>
    cases hnew : tagged e (rpIdHash e req) id with
    | false => rfl
    | true => exact absurd ⟨hid, hnew, hold⟩ hsame

theorem Concealed.long (h : Concealed (rpIdHash e req) id e e') (hrest : SameRest e e')
    (hid : id ∈ publicKeyIds req.allowList)
    (husable : (Assert.loadedList e' req).filter (admitted 0 true) ≠ []) :
    1 < req.allowList.length := by
  obtain ⟨cred, hcred⟩ := List.exists_mem_of_ne_nil _ husable
  obtain ⟨x, hx, hload⟩ := List.mem_filterMap.mp (List.mem_filter.mp hcred).1
  rw [hrest.sameHash req] at hload
  apply h.two_ids hid hx
  rw [hload]
  exact Option.some_ne_none _

theorem loadedList_length (hlist : Lists req) :
    ((loadedList e' req).filter (admitted 0 true)).length ≤ maxCredentialCountInList :=
  calc
    ((loadedList e' req).filter (admitted 0 true)).length ≤ (loadedList e' req).length :=
      List.length_filter_le _ _
    _ ≤ (publicKeyIds req.allowList).length := List.length_filterMap_le _ _
    _ ≤ req.allowList.length := List.length_filterMap_le _ _
    _ ≤ maxCredentialCountInList := hlist.short

theorem Concealed.unloaded_iff (h : Concealed (rpIdHash e req) id e e') (hrest : SameRest e e')
    (hid : id ∈ publicKeyIds req.allowList) (hload : listed e (rpIdHash e req) id = none) :
    reply e req (startSilent req && (Assert.loadedList e' req).isEmpty) (Assert.tags e req)
        ((Assert.loadedList e' req).filter (admitted 0 true)) (Assert.residentListed e' req) =
      reply e req (startSilent req && (Assert.loadedList e' req).isEmpty) (Assert.tags e' req)
        ((Assert.loadedList e' req).filter (admitted 0 true)) (Assert.residentListed e' req) ↔
      ¬ Reveals e e' req id := by
  obtain ⟨hle, hlt⟩ := h.tags hrest
  have hunloaded : ¬ (listed e (rpIdHash e req) id).isSome = true := by
    rw [hload]
    exact Bool.false_ne_true
  cases hsilent : startSilent req && (Assert.loadedList e' req).isEmpty with
  | true =>
    rw [Bool.and_eq_true, List.isEmpty_iff] at hsilent
    rw [reply_tags hle]
    refine not_congr ⟨fun hnew => ?_, fun hreveals => ?_⟩
    · obtain ⟨-, hnow, hthen⟩ := hlt.mp hnew.1
      exact .tag hsilent.1 hsilent.2 hload hnow hthen hnew.2
    · cases hreveals with
      | tag _ _ _ hnow hthen hblob => exact ⟨hlt.mpr ⟨hid, hnow, hthen⟩, hblob⟩
      | silence _ _ hloads => exact absurd hloads hunloaded
      | naming hloads => exact absurd hloads hunloaded
  | false =>
    refine ⟨fun _ hreveals => ?_, fun _ => rfl⟩
    cases hreveals with
    | tag hs halone =>
      rw [hs, halone] at hsilent
      cases hsilent
    | silence _ _ hloads => exact hunloaded hloads
    | naming hloads => exact hunloaded hloads

theorem Concealed.loaded_iff (h : Concealed (rpIdHash e req) id e e') (hrest : SameRest e e')
    (hlist : Lists req) (hid : id ∈ publicKeyIds req.allowList) (n : Nat)
    (hload : (listed e (rpIdHash e req) id).isSome = true) :
    reply e req false n ((Assert.loadedList e' req).filter (admitted 0 true))
        (Assert.residentListed e req) =
      reply e req (startSilent req && (Assert.loadedList e' req).isEmpty) (Assert.tags e' req)
        ((Assert.loadedList e' req).filter (admitted 0 true)) (Assert.residentListed e' req) ↔
      ¬ Reveals e e' req id := by
  have hunloaded : listed e (rpIdHash e req) id ≠ none := by
    intro hnone
    rw [hnone] at hload
    cases hload
  cases hsilent : startSilent req && (Assert.loadedList e' req).isEmpty with
  | true =>
    rw [Bool.and_eq_true, List.isEmpty_iff] at hsilent
    rw [hsilent.2, List.filter_nil]
    have hnone : ∀ resident, reply e req false n [] resident = .error .noCredentials := fun _ => rfl
    rw [hnone]
    by_cases htags : Assert.tags e' req = 0
    · have hquiet : reply e req true (Assert.tags e' req) [] (Assert.residentListed e' req) =
          .error .noCredentials := by
        unfold reply
        rw [if_pos rfl, if_pos htags]
      rw [hquiet]
      refine ⟨fun _ hreveals => ?_, fun _ => rfl⟩
      cases hreveals with
      | tag _ _ hnone => exact hunloaded hnone
      | silence _ _ _ hothers => exact hothers htags
      | naming _ _ _ _ hfirst =>
        rw [hsilent.2] at hfirst
        cases hfirst
    · refine ⟨fun heq => ?_, fun hreveals => absurd (.silence hsilent.1 hsilent.2 hload htags) hreveals⟩
      unfold reply at heq
      rw [if_pos rfl, if_neg htags] at heq
      split_ifs at heq
      cases heq
  | false =>
    have hquiet : ¬ (startSilent req = true ∧ Assert.loadedList e' req = []) := by
      rintro ⟨hs, halone⟩
      rw [hs, halone] at hsilent
      cases hsilent
    have hnoTag : Reveals e e' req id → Assert.residentListed e' req = false ∧
        isResident id = true ∧ req.largeBlobKey ≠ some false ∧ ∃ cred rest body,
          ExchangeSort.sort (·.boardCreation)
            ((Assert.loadedList e' req).filter (admitted 0 true)) = cred :: rest ∧
          respond e req false cred false (numberShown req false
            ((Assert.loadedList e' req).filter (admitted 0 true)).length) (flagsAfter req) =
            .ok body ∧ (rest ≠ [] ∨ responseId e cred true ≠ cred.id) := by
      intro hreveals
      cases hreveals with
      | tag hs halone => exact absurd ⟨hs, halone⟩ hquiet
      | silence hs halone => exact absurd ⟨hs, halone⟩ hquiet
      | naming _ hres hothers hblob hfirst hresponds hdiffers =>
        exact ⟨hothers, hres, hblob, _, _, _, hfirst, hresponds, hdiffers⟩
    rw [h.residentListed hrest hid, hload, Bool.and_true]
    cases hothers : Assert.residentListed e' req with
    | true => exact ⟨fun _ hreveals => Bool.false_ne_true
        ((hnoTag hreveals).1.symm.trans hothers), fun _ => rfl⟩
    | false =>
      cases hres : isResident id with
      | false => exact ⟨fun _ hreveals => Bool.false_ne_true
          (hres.symm.trans (hnoTag hreveals).2.1), fun _ => rfl⟩
      | true =>
        by_cases husable : (Assert.loadedList e' req).filter (admitted 0 true) = []
        · rw [husable]
          refine ⟨fun _ hreveals => ?_, fun _ => rfl⟩
          obtain ⟨-, -, -, cred, rest, body, hfirst, -⟩ := hnoTag hreveals
          rw [husable] at hfirst
          cases hfirst
        · rw [Bool.or_true]
          refine (reply_naming (h.long hrest hid husable) (loadedList_length hlist) n).trans
            (not_congr ⟨?_, fun hreveals => (hnoTag hreveals).2.2⟩)
          rintro ⟨hblob, cred, rest, body, hfirst, hresponds, hdiffers⟩
          exact .naming hload hres hothers hblob hfirst hresponds hdiffers

theorem Concealed.result_iff (h : Concealed (rpIdHash e req) id e e') (hrest : SameRest e e')
    (hlist : Lists req) (hsealed : Sealed e (rpIdHash e req)) (hunverified : Unverified e req) :
    (getAssertion e req).result = (getAssertion e' req).result ↔ ¬ Exposed e e' req id := by
  have hsealed' : Sealed e' (rpIdHash e' req) := hrest.sameHash req ▸ h.isSealed hsealed
  by_cases hreached : Reached e req
  · have hunverified' : Unverified e' req :=
      fun hparam => hparam.1 (hunverified.noParam hreached.checks)
    have husable : (Assert.loadedList e req).filter (admitted 0 true) =
        (Assert.loadedList e' req).filter (admitted 0 true) := by
      unfold Assert.loadedList
      rw [hrest.sameHash req]
      exact h.filter_listed _
    rw [getAssertion_list hlist hsealed hunverified hreached,
      getAssertion_list hlist hsealed' hunverified' (hrest.reached hreached), hrest.sameReply, husable]
    by_cases hid : id ∈ publicKeyIds req.allowList
    · have hexposed : Exposed e e' req id ↔ Reveals e e' req id :=
        ⟨fun hexposed => hexposed.reveals, fun hreveals => ⟨hreached, hid, hreveals⟩⟩
      rw [hexposed]
      cases hload : listed e (rpIdHash e req) id with
      | none =>
        have hresident : Assert.residentListed e req = Assert.residentListed e' req := by
          rw [h.residentListed hrest hid, hload, Option.isSome_none, Bool.and_false, Bool.or_false]
        rw [← h.loadedList hrest fun _ => hload, hresident]
        exact h.unloaded_iff hrest hid hload
      | some cred =>
        have hnonempty : (Assert.loadedList e req).isEmpty = false := by
          rw [List.isEmpty_eq_false_iff]
          exact List.ne_nil_of_mem (List.mem_filterMap.mpr ⟨id, hid, hload⟩)
        rw [hnonempty, Bool.and_false]
        exact h.loaded_iff hrest hlist hid _ (by rw [hload]; rfl)
    · have hloaded := h.loadedList hrest fun hid' => absurd hid' hid
      have htags : Assert.tags e' req = Assert.tags e req := by
        apply Nat.le_antisymm (h.tags hrest).1
        apply Nat.le_of_not_lt
        exact fun hlt => hid ((h.tags hrest).2.mp hlt).1
      have hresident : Assert.residentListed e' req = Assert.residentListed e req := by
        unfold Assert.residentListed
        rw [hrest.sameHash req, Bool.eq_iff_iff, List.any_eq_true, List.any_eq_true]
        apply exists_congr
        intro x
        apply and_congr_right
        intro hx
        rw [h.listed_ne x fun hxid => hid (hxid ▸ hx)]
      rw [hloaded, htags, hresident]
      exact ⟨fun _ hexposed => hid hexposed.named, fun _ => rfl⟩
  · exact ⟨fun _ hexposed => hreached hexposed.reached,
      fun _ => hrest.unreached hlist hsealed hsealed' hreached⟩

end List

/-! Without allowList. -/

section Resident

variable {e : Setting} {req : Request}

/-- The credentials of these files that load. -/
def loadsIn (e : Setting) (hash : Data) (files : List SlotFile) : List Credential :=
  files.filterMap fun s => (loadResident e.device s hash).toOption

/-- The other credentials of the RP that load, when the file of slot `i` is gone. -/
def others (e : Setting) (req : Request) (i : SlotIndex) : List Credential :=
  loadsIn e (rpIdHash e req) (rpSlots (e.without i) (rpIdHash e req))

/-- Those of the first `n` of them that may be used. -/
def usableOthers (e : Setting) (req : Request) (i : SlotIndex) (n : Nat) : List Credential :=
  ((others e req i).take n).filter (admitted 0 false)

/-- The response with the latest of these credentials cannot be built. -/
def Fails (e : Setting) (req : Request) (usable : List Credential) (status : Status) : Prop :=
  ∃ cred rest, ExchangeSort.sort (·.boardCreation) usable = cred :: rest ∧
    respond e req false cred true usable.length (flagsAfter req) = .error status

/-- The hidden credential takes the place of one that may be used, the sixteenth of the others. -/
structure Displaces (e : Setting) (req : Request) (i : SlotIndex) (s : SlotFile) : Prop where
  reached : Reached e req
  loads : ∃ cred, loadResident e.device s (rpIdHash e req) = .ok cred
  early : (loadsIn e (rpIdHash e req)
    (filesIn e (rpIdHash e req) (slotsBefore i))).length < maxCredentialCountInList
  sixteenth : ∃ cred, (others e req i)[maxCredentialCountInList - 1]? = some cred ∧
    admitted 0 false cred = true
  seen : usableOthers e req i (maxCredentialCountInList - 1) = [] ∨
    req.largeBlobKey ≠ some false ∧
      ∀ status, ¬ (Fails e req (usableOthers e req i (maxCredentialCountInList - 1)) status ∧
        Fails e req (usableOthers e req i maxCredentialCountInList) status)

theorem hmacOutput_ne_noCredentials (h : HmacInput) (seed : Data) (uv : Bool) :
    hmacOutput e h seed uv ≠ .error .noCredentials := by
  intro herr
  unfold hmacOutput at herr
  dsimp only at herr
  split at herr
  · cases herr
  · split at herr
    · cases herr
    · split at herr
      · cases herr
      · split at herr <;> cases herr

theorem extOutputs_ne_noCredentials (cred : Credential) (flags : BitVec 8) :
    extOutputs e req cred flags ≠ .error .noCredentials := by
  intro herr
  unfold extOutputs at herr
  dsimp only at herr
  generalize (if req.up = some false then none else req.hmacSecret) = hmac at herr
  split at herr
  · cases herr
  · split at herr
    · cases herr
    · split at herr
      · rename_i hhmac
        cases herr
        exact hmacOutput_ne_noCredentials _ _ _ hhmac
      · cases herr

theorem respond_ne_noCredentials (next : Bool) (cred : Credential) (resident : Bool) (number : Nat)
    (flags : BitVec 8) : respond e req next cred resident number flags ≠ .error .noCredentials := by
  intro herr
  unfold respond at herr
  dsimp only at herr
  generalize (if req.largeBlobKey = some true ∧ cred.largeBlobKey = true then
    e.crypto.largeBlobKey (Mgmt.keySeed cred) else none) = largeBlobKey at herr
  split at herr
  · cases herr
  · split at herr
    · rename_i hext
      cases herr
      exact extOutputs_ne_noCredentials _ _ hext
    · split at herr
      · cases herr
      · split at herr <;> cases herr

theorem reply_more (hlist : req.allowList = []) {usable : List Credential} {last : Credential}
    (hlength : usable.length < maxCredentialCountInList) (n : Nat) :
    reply e req false n usable true = reply e req false n (usable ++ [last]) true ↔
      ¬ (usable = [] ∨ req.largeBlobKey ≠ some false ∧
        ∀ status, ¬ (Fails e req usable status ∧ Fails e req (usable ++ [last]) status)) := by
  have hshown : ∀ k, k ≤ maxCredentialCountInList → numberShown req true k = k := fun k hk =>
    numberShown_eq (by rw [hlist]; simp) hk
  have hmore : (usable ++ [last]).length = usable.length + 1 := List.length_append ..
  obtain ⟨later, laters, hlater⟩ : ∃ later laters,
      ExchangeSort.sort (·.boardCreation) (usable ++ [last]) = later :: laters := by
    apply List.exists_cons_of_length_pos
    rw [ExchangeSort.sort_length, hmore]
    exact Nat.succ_pos _
  unfold reply
  rw [if_neg Bool.false_ne_true, if_neg Bool.false_ne_true, hlater]
  by_cases hnone : usable = []
  · -- a credential is found or not
    refine ⟨fun heq => ?_, fun h => absurd (.inl hnone) h⟩
    rw [hnone] at heq
    dsimp only [ExchangeSort.sort, ExchangeSort.positions] at heq
    split_ifs at heq
    · cases heq
    · exact absurd heq.symm (respond_ne_noCredentials _ _ _ _ _)
  obtain ⟨first, rest, hfirst⟩ : ∃ first rest,
      ExchangeSort.sort (·.boardCreation) usable = first :: rest := by
    apply List.exists_cons_of_length_pos
    rw [ExchangeSort.sort_length]
    exact List.length_pos_iff.mpr hnone
  rw [hfirst]
  dsimp only
  by_cases hblob : req.largeBlobKey = some false
  · rw [if_pos hblob, if_pos hblob]
    refine ⟨fun _ h => ?_, fun _ => rfl⟩
    rcases h with h | h
    · exact hnone h
    · exact h.1 hblob
  rw [if_neg hblob, if_neg hblob, hshown _ hlength.le, hmore, hshown _ hlength]
  constructor
  · intro heq h
    rcases h with h | h
    · exact hnone h
    · cases hrespond : respond e req false first true usable.length (flagsAfter req) with
      | error status =>
        rw [hrespond] at heq
        refine h.2 status ⟨⟨first, rest, hfirst, hrespond⟩, later, laters, hlater, ?_⟩
        rw [hmore]
        exact heq.symm
      | ok body =>
        -- the number is told, and it is not the same
        rw [hrespond] at heq
        have hless := (respond_fields hrespond).2
        have hmany := (respond_fields heq.symm).2
        have hpos := List.length_pos_iff.mpr hnone
        have htold : totalOf req false true (usable.length + 1) = some (usable.length + 1) :=
          if_pos ⟨by omega, rfl, .inr (by rw [hlist]; exact Nat.zero_le _)⟩
        rw [hless] at hmany
        rw [show totalOf req false true usable.length.succ = some (usable.length + 1) from htold,
          totalOf] at hmany
        split at hmany
        · have := Option.some.inj hmany
          omega
        · cases hmany
  · intro h
    by_contra hne
    apply h
    refine .inr ⟨hblob, fun status hfails => hne ?_⟩
    obtain ⟨⟨c, cs, hc, hcfails⟩, d, ds, hd, hdfails⟩ := hfails
    rw [hfirst] at hc
    rw [hlater] at hd
    cases hc
    cases hd
    rw [hmore] at hdfails
    rw [hcfails, hdfails]

theorem loadable_split {keyed : Device} {i : SlotIndex} {s : SlotFile} {cred : Credential}
    (holds : Holds keyed (rpIdHash e req) e i s cred) :
    ∃ before behind, before = loadsIn e (rpIdHash e req) (filesIn e (rpIdHash e req) (slotsBefore i)) ∧
      others e req i = before ++ behind ∧
      loadable (e.without i) req = (before ++ behind).take maxCredentialCountInList ∧
      loadable e req = (before ++ ((loadResident e.device s (rpIdHash e req)).toOption.toList ++
        behind)).take maxCredentialCountInList := by
  obtain ⟨hwith, hwithout⟩ := rpSlots_split holds.slot holds.rp
  refine ⟨_, loadsIn e (rpIdHash e req) (filesIn e (rpIdHash e req) (slotsBehind i)), rfl, ?_, ?_, ?_⟩
  · unfold others
    rw [hwithout]
    exact List.filterMap_append
  · unfold loadable allLoadable
    rw [show rpIdHash (e.without i) req = rpIdHash e req from rfl, hwithout]
    exact congrArg _ List.filterMap_append
  · unfold loadable allLoadable
    rw [hwith, List.filterMap_append, List.filterMap_cons]
    cases (loadResident e.device s (rpIdHash e req)).toOption <;> rfl

/-- What ends before the answer ends alike. -/
theorem unreached_result (e : Setting) (i : SlotIndex) (hlist : req.allowList = []) (hreached : ¬ Reached e req) :
    (getAssertion e req).result = (getAssertion (e.without i) req).result := by
  have hcomplete : Complete req.allowList := by
    rw [hlist]
    intro entry hentry
    cases hentry
  cases hchecks : checks e req with
  | some status =>
    rw [getAssertion_checked hchecks, getAssertion_checked (((SameRest.without e i).sameChecks req).trans hchecks)]
  | none =>
    have habsent : presenceFails e req = true := by
      by_contra hpresent
      exact hreached ⟨hchecks, hcomplete, Bool.eq_false_of_not_eq_true hpresent⟩
    have hlocate : ∀ e : Setting, locate e (rpIdHash e req) (startSilent req) req.allowList =
        .ok (locateResident e (rpIdHash e req) (startSilent req)) := by
      intro e
      rw [hlist]
      rfl
    rw [getAssertion_absent hchecks (hlocate e) habsent,
      getAssertion_absent (e := e.without i) hchecks (hlocate _) habsent]

/-- A refused credential among the first ones leaves places for fifteen of the others. -/
theorem usableOthers_beside {i : SlotIndex} {before behind : List Credential} {c : Credential}
    (hothers : others e req i = before ++ behind) (hearly : before.length < maxCredentialCountInList)
    (hrefused : admitted 0 false c = false) :
    ((before ++ c :: behind).take maxCredentialCountInList).filter (admitted 0 false) =
      usableOthers e req i (maxCredentialCountInList - 1) := by
  have hpos : maxCredentialCountInList - before.length =
      (maxCredentialCountInList - 1 - before.length) + 1 := by omega
  unfold usableOthers
  rw [hothers, List.take_append, List.take_append, hpos, List.take_succ_cons,
    List.take_of_length_le (show before.length ≤ maxCredentialCountInList by omega),
    List.take_of_length_le (show before.length ≤ maxCredentialCountInList - 1 by omega),
    List.filter_append, List.filter_append,
    List.filter_cons_of_neg (by rw [hrefused]; exact Bool.false_ne_true)]

theorem usableOthers_all (e : Setting) (req : Request) (i : SlotIndex) :
    usableOthers e req i maxCredentialCountInList = usableOthers e req i (maxCredentialCountInList - 1) ++
      (others e req i)[maxCredentialCountInList - 1]?.toList.filter (admitted 0 false) := by
  unfold usableOthers
  rw [← List.filter_append, ← List.take_add_one]
  rfl

theorem usableOthers_few (e : Setting) (req : Request) (i : SlotIndex) :
    (usableOthers e req i (maxCredentialCountInList - 1)).length < maxCredentialCountInList :=
  ((List.length_filter_le _ _).trans (List.length_take_le _ _)).trans_lt (by decide)

theorem Holds.result_iff {keyed : Device} {i : SlotIndex} {s : SlotFile} {cred : Credential}
    (holds : Holds keyed (rpIdHash e req) e i s cred)
    (hlevel : cred.credProtect = uvRequired ∨ cred.credProtect = uvOptionalWithList)
    (hlist : req.allowList = []) (hunverified : Unverified e req) :
    (getAssertion e req).result = (getAssertion (e.without i) req).result ↔
      ¬ Displaces e req i s := by
  by_cases hreached : Reached e req
  swap
  · exact ⟨fun _ h => hreached h.reached, fun _ => unreached_result e i hlist hreached⟩
  have hunverified' : Unverified (e.without i) req :=
    fun hparam => hparam.1 (hunverified.noParam hreached.checks)
  rw [getAssertion_empty hlist hunverified hreached.checks hreached.present,
    getAssertion_empty hlist hunverified' hreached.checks hreached.present, (SameRest.without e i).sameReply]
  obtain ⟨before, behind, hbefore, hothers, hwithout, hwith⟩ := loadable_split holds
  rw [hwith, hwithout]
  cases hload : loadResident e.device s (rpIdHash e req) with
  | error err =>
    refine ⟨fun _ h => ?_, fun _ => rfl⟩
    obtain ⟨c, hc⟩ := h.loads
    rw [hload] at hc
    cases hc
  | ok c =>
    have hrefused : admitted 0 false c = false := by
      rw [holds.credential hload]
      unfold admitted
      rcases hlevel with h | h <;> rw [h] <;> rfl
    dsimp only [Except.toOption, Option.toList]
    rw [List.singleton_append]
    by_cases hearly : before.length < maxCredentialCountInList
    swap
    · rw [List.take_append_of_le_length (Nat.le_of_not_lt hearly),
        List.take_append_of_le_length (Nat.le_of_not_lt hearly)]
      exact ⟨fun _ h => hearly (hbefore ▸ h.early), fun _ => rfl⟩
    -- with the hidden one fifteen of the others are in the list, without it the sixteenth too
    have hall := usableOthers_all e req i
    have hsixteen : ((before ++ behind).take maxCredentialCountInList).filter (admitted 0 false) =
        usableOthers e req i maxCredentialCountInList := by
      rw [← hothers]
      rfl
    rw [usableOthers_beside hothers hearly hrefused, hsixteen, hall]
    cases hlast : (others e req i)[maxCredentialCountInList - 1]? with
    | none =>
      rw [Option.toList_none, List.filter_nil, List.append_nil]
      refine ⟨fun _ h => ?_, fun _ => rfl⟩
      obtain ⟨last, hlast', -⟩ := h.sixteenth
      rw [hlast] at hlast'
      cases hlast'
    | some last =>
      rw [hlast, Option.toList_some] at hall
      cases hadmitted : admitted 0 false last with
      | false =>
        rw [Option.toList_some, List.filter_cons_of_neg (by rw [hadmitted]; exact Bool.false_ne_true),
          List.filter_nil, List.append_nil]
        refine ⟨fun _ h => ?_, fun _ => rfl⟩
        obtain ⟨last', hlast', hadmitted'⟩ := h.sixteenth
        rw [hlast] at hlast'
        cases hlast'
        exact Bool.false_ne_true (hadmitted.symm.trans hadmitted')
      | true =>
        rw [List.filter_cons_of_pos hadmitted, List.filter_nil] at hall
        rw [Option.toList_some, List.filter_cons_of_pos hadmitted, List.filter_nil,
          reply_more hlist (usableOthers_few e req i), ← hall]
        refine not_congr ⟨fun hseen => ?_, fun h => h.seen⟩
        exact ⟨hreached, ⟨c, hload⟩, hbefore ▸ hearly, ⟨last, hlast, hadmitted⟩, hseen⟩

end Resident

/-- The two answers are the same, and neither call frees the memory of a credential twice. -/
def SameAnswer (e e' : Setting) (req : Request) : Prop :=
  (getAssertion e req).result = (getAssertion e' req).result ∧ ¬ FreesTwice e req ∧ ¬ FreesTwice e' req

/-- Its tag is made of zeros. -/
def protectedId : Data := [0xf1, 0xd0, 0x02, 0x05] ++ List.replicate 44 0

def protectedDevice : Device :=
  { recordDevice with
    load := fun id _ =>
      if id = protectedId then some { id := id, curve := 1, credProtect := uvRequired } else none }

/-- The key of the device is loaded or not. -/
def protectedSetting (unlocked : Bool) : Setting :=
  { recordSetting 0 with
    device := if unlocked then protectedDevice else lockedDevice protectedDevice }

/-- The same without the credential. -/
def forgetfulSetting (unlocked : Bool) : Setting :=
  (protectedSetting unlocked).altered (fun _ _ => none) fun record _ =>
    if record = protectedId then List.replicate 32 1 else List.replicate 32 0

def silentRequest : Request :=
  { plainRequest with
    allowList := [⟨some protectedId, some true⟩]
    options := some { up := some false } }

theorem protectedSetting_conceals (unlocked : Bool) :
    Conceals protectedDevice (List.replicate 32 0) protectedId (protectedSetting unlocked)
      (forgetfulSetting unlocked) := by
  have hfiles : rpSlots (protectedSetting unlocked) (List.replicate 32 0) = [] := by
    unfold rpSlots
    rw [List.filterMap_eq_nil_iff]
    intro i _
    rfl
  have hopens : protectedDevice.load protectedId (List.replicate 32 0) =
      some { id := protectedId, curve := 1, credProtect := uvRequired } := by
    dsimp only [protectedDevice]
    rw [if_pos rfl]
  refine .sealed ?_ hopens rfl ?_ ?_ ?_ ?_
  · cases unlocked with
    | true => exact .inl rfl
    | false => exact .inr rfl
  · intro x hx
    refine ⟨?_, if_neg hx⟩
    cases unlocked with
    | true => exact (if_neg hx).symm
    | false => rfl
  · rw [hfiles]
    intro s hs
    cases hs
  · refine ⟨fun s hs => ?_, rfl⟩
    have hnone : s ∈ rpSlots (protectedSetting unlocked) (List.replicate 32 0) := hs
    rw [hfiles] at hnone
    cases hnone
  · cases unlocked <;> decide +kernel

end Assert

end Cred

end KeyWallet
