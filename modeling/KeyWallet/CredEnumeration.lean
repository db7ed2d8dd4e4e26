import KeyWallet.CredMgmt
import Mathlib.Data.List.Nodup

/-! The walks over the relying parties and over the credentials of one of them, from the Begin to the
end, while the files stay as they are. -/
namespace KeyWallet

namespace Cred

namespace Mgmt

/-- The response to a request and the variables after it. -/
def answer (w : Walk) (p : Setting × Request) : Reply × Walk × Storage :=
  credMgmt p.1 p.2 (tick p.1.now w)

/-- The variables after these requests. -/
def after (w : Walk) (ps : List (Setting × Request)) : Walk :=
  ps.foldl (fun w p => (answer w p).2.1) w

/-- The files are the same, and so is what loads from them: the clock may have gone on as long as no
credential expires by it. Tokens and time are free. -/
structure Unchanged (e e' : Setting) : Prop where
  storage : e'.storage = e.storage
  loads : ∀ i s hash, e.storage.slots i = some s →
    loadResident e'.device s hash = loadResident e.device s hash
  decrypts : ∀ record, rpIdDecrypt e'.device record = rpIdDecrypt e.device record
  derives : e'.device.deriveResident = e.device.deriveResident
  loadKey : e'.loadKey = e.loadKey
  coseKey : e'.coseKey = e.coseKey
  coseCachedKey : e'.coseCachedKey = e.coseCachedKey
  largeBlobKey : e'.largeBlobKey = e.largeBlobKey

/-- A Begin that is authorized, and GetNext requests over the same channel, none of them late. -/
structure IsWalk (e : Setting) (first next : Nat) (authorized : Setting → Request → Prop)
    (start : Setting × Request) (rest : List (Setting × Request)) : Prop where
  unchanged : ∀ p ∈ start :: rest, Unchanged e p.1
  checked : ∀ p ∈ start :: rest, precheck p.2 = none
  first : start.2.subcommand = first
  authorized : authorized start.1 start.2
  next : ∀ p ∈ rest, p.2.subcommand = next
  cid : ∀ p ∈ rest, p.1.cid = start.1.cid
  prompt : (start :: rest).IsChain fun p q => (q.1.now - p.1.now).toNat < walkIdleMs

/-- The responses are as expected, each at its place. -/
def Answers (w : Walk) (ps : List (Setting × Request)) (expected : Nat → Reply → Prop) : Prop :=
  ∀ k p, ps[k]? = some p → expected k (answer (after w (ps.take k)) p).1

/-! What a complete enumeration is. -/

/-- The RP has a record of the old format, or a container. -/
def HasRp (st : Storage) (hash : Data) : Prop :=
  (∃ i record, st.rps i = some record ∧ rpLegacyValid record = true ∧ rpLegacyHash record = hash) ∨
  ∃ i s, st.slots i = some s ∧ s.marker = true ∧ residentRpIdHash s = .ok hash

/-- The response number `k` of a walk over these relying parties. -/
def rpAt (hashes : List Data) (k : Nat) (r : Reply) : Prop :=
  match hashes[k]? with
  | some hash => ∃ id, r = .rp id hash (if k = 0 then some hashes.length else none)
  | none => ∃ status, r = .error status

/-- Every walk over the relying parties returns each of them once. -/
def RpsComplete (e : Setting) : Prop :=
  ∃ hashes : List Data, hashes.Nodup ∧ (∀ hash, hash ∈ hashes ↔ HasRp e.storage hash) ∧
    ∀ w start rest, IsWalk e 0x02 0x03 (fun e req => mayRead e req e.paut.hasRpId = true) start rest →
      Answers w (start :: rest) (rpAt hashes)

/-- The credentials of an RP that load, with their files. -/
def usableSlots (d : Device) (st : Storage) (hash : Data) (is : List SlotIndex) :
    List (SlotFile × Credential) :=
  is.filterMap fun i => (st.slots i).bind fun s =>
    if matchesRp s (some hash) then (loadResident d s hash).toOption.map fun cred => (s, cred) else none

/-- The usable credentials of an RP. -/
def usable (e : Setting) (hash : Data) : List Credential :=
  (usableSlots e.device e.storage hash (List.finRange 256)).map Prod.snd

/-- The response number `k` of a walk over the credentials of an RP. -/
def credAt (e : Setting) (hash : Data) (k : Nat) (r : Reply) : Prop :=
  match (usable e hash)[k]? with
  | some cred => ∃ key blob, r = .credential (entryOf e cred key blob
      (if k = 0 then some (usable e hash).length else none))
  | none => ∃ status, r = .error status

/-- Every walk over the credentials of the RP returns each usable one once. -/
def CredsComplete (e : Setting) (hash : Data) : Prop :=
  ∀ w start rest, IsWalk e 0x04 0x05 (fun e req => req.rpIdHash = some hash ∧
      mayRead e req (boundElsewhere e hash) = true) start rest →
    Answers w (start :: rest) (credAt e hash)

/-- The counts of getCredsMetadata are those of the slots. -/
def Counted (e : Setting) : Prop :=
  ∀ w e' req, Unchanged e e' → precheck req = none → req.subcommand = 0x01 →
    mayRead e' req e'.paut.hasRpId = true →
    ∃ existing remaining, (answer w (e', req)).1 = .metadata existing remaining ∧
      existing = occupied e.storage ∧ existing + remaining = 256

def Complete (e : Setting) : Prop := Counted e ∧ RpsComplete e ∧ ∀ hash, CredsComplete e hash

/-! When it is. -/

/-- The response can be made: there is a public key, and a large blob key where one is asked for. -/
def showable (e : Setting) (s : SlotFile) (cred : Credential) : Bool :=
  match publicKeyOf e s cred with
  | none => false
  | some key => (encodeKey e cred key).isSome && (largeBlobKeyOf e cred).isOk

/-- The slot is passed over, or it can be shown. -/
def listable (e : Setting) (hash : Data) (s : SlotFile) : Bool :=
  match loadResident e.device s hash with
  | .error .noCredentials => true
  | .error _ => false
  | .ok cred => showable e s cred

/-- There is a free slot, the index has room for every RP and each loads from the file that the index
names, and of an RP with a usable credential every slot can be listed. -/
structure Listable (e : Setting) : Prop where
  spare : occupied e.storage < 256
  room : (rpCount e.storage).2 = true
  sources : ∀ n < (rpCount e.storage).1.length,
    (rpLoad e.device e.storage (rpCount e.storage).1 n).isOk = true
  slots : ∀ hash, usable e hash ≠ [] → ∀ i s, e.storage.slots i = some s →
    matchesRp s (some hash) = true → listable e hash s = true

/-! What stays the same. -/

section Unchanged

variable {e e' : Setting}

theorem Unchanged.rpLoad (h : Unchanged e e') (index : List IndexEntry) (n : Nat) :
    rpLoad e'.device e'.storage index n = rpLoad e.device e.storage index n := by
  unfold Cred.rpLoad
  rw [h.storage]
  split
  · rfl
  · split
    · split
      · rfl
      · rw [h.decrypts]
    · split
      · rfl
      · next s hs => rw [h.loads _ s _ hs]

theorem Unchanged.usableSlots (h : Unchanged e e') (hash : Data) (is : List SlotIndex) :
    usableSlots e'.device e'.storage hash is = usableSlots e.device e.storage hash is := by
  unfold Mgmt.usableSlots
  rw [h.storage]
  congr 1
  funext i
  cases hi : e.storage.slots i with
  | none => rfl
  | some s => simp only [Option.bind_some, h.loads i s hash hi]

theorem Unchanged.showable (h : Unchanged e e') (s : SlotFile) (cred : Credential) :
    showable e' s cred = showable e s cred := by
  simp only [Mgmt.showable, publicKeyOf, encodeKey, largeBlobKeyOf, h.loadKey, h.coseKey,
    h.coseCachedKey, h.largeBlobKey]

theorem Unchanged.entryOf (h : Unchanged e e') (cred : Credential) (key : Data)
    (blob : Option Data) (total : Option Nat) :
    entryOf e' cred key blob total = entryOf e cred key blob total := by
  simp only [Mgmt.entryOf, h.derives]

end Unchanged

/-! The index of the relying parties. -/

section Index

variable {index es : List IndexEntry}

theorem fillIndex_nodup (h : (index.map IndexEntry.idHash).Nodup) :
    ((fillIndex index es).1.map IndexEntry.idHash).Nodup := by
  induction es generalizing index with
  | nil => exact h
  | cons k es ih =>
    rw [fillIndex]
    split_ifs with hknown hfull
    · exact ih h
    · exact h
    · apply ih
      rw [List.map_append, List.map_singleton, List.nodup_append]
      refine ⟨h, List.nodup_singleton _, ?_⟩
      intro a ha b hb hab
      obtain ⟨k', hk', rfl⟩ := List.mem_map.mp ha
      refine hknown (List.any_eq_true.mpr ⟨k', hk', ?_⟩)
      rw [List.mem_singleton.mp hb] at hab
      exact decide_eq_true hab

theorem fillIndex_subset {k : IndexEntry} (h : k ∈ (fillIndex index es).1) : k ∈ index ∨ k ∈ es := by
  induction es generalizing index with
  | nil => exact .inl h
  | cons k' es ih =>
    rw [fillIndex] at h
    split_ifs at h with hknown hfull
    · exact (ih h).imp_right (List.mem_cons_of_mem _)
    · exact .inl h
    · rcases ih h with h | h
      · rcases List.mem_append.mp h with h | h
        · exact .inl h
        · exact .inr (List.mem_singleton.mp h ▸ List.mem_cons_self)
      · exact .inr (List.mem_cons_of_mem _ h)

theorem fillIndex_kept {k : IndexEntry} (h : k ∈ index) : k ∈ (fillIndex index es).1 := by
  induction es generalizing index with
  | nil => exact h
  | cons k' es ih =>
    rw [fillIndex]
    split_ifs with hknown hfull
    · exact ih h
    · exact h
    · exact ih (List.mem_append_left _ h)

theorem fillIndex_covers (hroom : (fillIndex index es).2 = true) {k : IndexEntry} (hk : k ∈ es) :
    ∃ k' ∈ (fillIndex index es).1, k'.idHash = k.idHash := by
  induction es generalizing index with
  | nil => exact absurd hk List.not_mem_nil
  | cons k' es ih =>
    rw [fillIndex] at hroom ⊢
    split_ifs at hroom ⊢ with hknown hfull
    · rcases List.mem_cons.mp hk with rfl | hk
      · obtain ⟨j, hj, hsame⟩ := List.any_eq_true.mp hknown
        exact ⟨j, fillIndex_kept hj, of_decide_eq_true hsame⟩
      · exact ih hroom hk
    · rcases List.mem_cons.mp hk with rfl | hk
      · exact ⟨k, fillIndex_kept (List.mem_append_right _ (List.mem_singleton.mpr rfl)), rfl⟩
      · exact ih hroom hk

theorem fillIndex_full (h : (fillIndex index es).2 = false) : 256 ≤ (fillIndex index es).1.length := by
  induction es generalizing index with
  | nil => exact absurd h (by simp [fillIndex])
  | cons k es ih =>
    rw [fillIndex] at h ⊢
    split_ifs at h ⊢ with hknown hfull
    · exact ih h
    · exact hfull
    · exact ih h

theorem mem_rpCandidates {st : Storage} {hash : Data} :
    (∃ k ∈ rpCandidates st, k.idHash = hash) ↔ HasRp st hash := by
  unfold rpCandidates HasRp
  constructor
  · rintro ⟨k, hk, rfl⟩
    rcases List.mem_append.mp hk with hk | hk
    · obtain ⟨i, -, hi⟩ := List.mem_filterMap.mp hk
      obtain ⟨record, hrecord, hentry⟩ := Option.bind_eq_some_iff.mp hi
      split at hentry
      · next hvalid => exact .inl ⟨i, record, hrecord, hvalid, Option.some.inj hentry ▸ rfl⟩
      · exact absurd hentry (by simp)
    · obtain ⟨i, -, hi⟩ := List.mem_filterMap.mp hk
      obtain ⟨s, hs, hentry⟩ := Option.bind_eq_some_iff.mp hi
      split at hentry
      · next hmarker =>
        split at hentry
        · next own hown => exact .inr ⟨i, s, hs, hmarker, Option.some.inj hentry ▸ hown⟩
        · exact absurd hentry (by simp)
      · exact absurd hentry (by simp)
  · rintro (⟨i, record, hrecord, hvalid, rfl⟩ | ⟨i, s, hs, hmarker, hown⟩)
    · refine ⟨⟨rpLegacyHash record, .legacy i⟩, List.mem_append_left _ ?_, rfl⟩
      exact List.mem_filterMap.mpr ⟨i, List.mem_finRange i, by simp [hrecord, hvalid]⟩
    · refine ⟨⟨hash, .container i⟩, List.mem_append_right _ ?_, rfl⟩
      exact List.mem_filterMap.mpr ⟨i, List.mem_finRange i, by simp [hs, hmarker, hown]⟩

/-- The hashes in the index, in its order. -/
def indexed (st : Storage) : List Data := (rpCount st).1.map IndexEntry.idHash

theorem indexed_nodup (st : Storage) : (indexed st).Nodup := fillIndex_nodup List.nodup_nil

theorem indexed_sound {st : Storage} {hash : Data} (h : hash ∈ indexed st) : HasRp st hash := by
  obtain ⟨k, hk, rfl⟩ := List.mem_map.mp h
  rcases fillIndex_subset hk with hk | hk
  · exact absurd hk List.not_mem_nil
  · exact mem_rpCandidates.mp ⟨k, hk, rfl⟩

theorem mem_indexed {st : Storage} (hroom : (rpCount st).2 = true) (hash : Data) :
    hash ∈ indexed st ↔ HasRp st hash := by
  refine ⟨indexed_sound, fun h => ?_⟩
  obtain ⟨k, hk, rfl⟩ := mem_rpCandidates.mpr h
  obtain ⟨k', hk', hsame⟩ := fillIndex_covers hroom hk
  exact List.mem_map.mpr ⟨k', hk', hsame⟩

theorem rpLoad_hash {d : Device} {st : Storage} {n : Nat} {id hash : Data}
    (h : rpLoad d st index n = .ok (id, hash)) : (index.map IndexEntry.idHash)[n]? = some hash := by
  unfold rpLoad at h
  rw [List.getElem?_map]
  split at h
  · exact absurd h (by simp)
  · next k hk =>
    have hsame : k.idHash = hash := by
      split at h
      · split at h
        · exact absurd h (by simp)
        · split at h
          · exact absurd h (by simp)
          · exact (Prod.mk.inj (Except.ok.inj h)).2
      · split at h
        · exact absurd h (by simp)
        · split at h
          · exact absurd h (by simp)
          · split at h
            · exact absurd h (by simp)
            · split at h
              · exact absurd h (by simp)
              · exact (Prod.mk.inj (Except.ok.inj h)).2
    rw [hk, Option.map_some, hsame]

theorem rpLoad_beyond {d : Device} {st : Storage} {n : Nat} (h : index.length ≤ n) :
    rpLoad d st index n = .error (.store .fileNotFound) := by
  simp only [rpLoad, List.getElem?_eq_none h]

end Index

/-! Walks in general. -/

section Walks

variable {e : Setting} {w : Walk} {ps : List (Setting × Request)} {p : Setting × Request}

theorem after_snoc (w : Walk) (ps : List (Setting × Request)) (p : Setting × Request) :
    after w (ps ++ [p]) = (answer (after w ps) p).2.1 := by
  simp [after, List.foldl_append]

theorem after_take {k : Nat} (h : ps[k]? = some p) :
    after w (ps.take (k + 1)) = (answer (after w (ps.take k)) p).2.1 := by
  rw [List.take_add_one, h, Option.toList_some, after_snoc]

theorem IsWalk.previous {first next k : Nat} {authorized : Setting → Request → Prop}
    {start : Setting × Request} {rest : List (Setting × Request)}
    (h : IsWalk e first next authorized start rest) (hp : (start :: rest)[k + 1]? = some p) :
    ∃ q, (start :: rest)[k]? = some q ∧ p ∈ rest ∧ (p.1.now - q.1.now).toNat < walkIdleMs := by
  obtain ⟨hlt, hp'⟩ := List.getElem?_eq_some_iff.mp hp
  refine ⟨_, List.getElem?_eq_getElem (Nat.lt_of_succ_lt hlt), ?_, ?_⟩
  · exact List.mem_of_getElem? (show rest[k]? = some p from hp)
  · have hchain := List.isChain_iff_getElem.mp h.prompt k hlt
    rw [hp'] at hchain
    exact hchain

theorem not_idle {now timer : BitVec 32} (h : (now - timer).toNat < walkIdleMs) :
    idle now timer = false := by
  simpa [idle] using h

theorem tick_rps (now : BitVec 32) (h : (now - w.rpTimer).toNat < walkIdleMs) :
    (tick now w).rpCounter = w.rpCounter ∧ (tick now w).rpTotal = w.rpTotal ∧
      (tick now w).rpChannel = w.rpChannel ∧ (tick now w).index = w.index := by
  simp only [tick, not_idle h, Bool.and_false, Bool.false_eq_true, if_false]
  split <;> exact ⟨rfl, rfl, rfl, rfl⟩

theorem tick_rps_end (now : BitVec 32) (h : w.rpTotal ≤ w.rpCounter) :
    (tick now w).rpTotal ≤ (tick now w).rpCounter := by
  unfold tick
  dsimp only
  split_ifs
  · exact Nat.le_refl _
  · exact Nat.le_refl _
  · exact h
  · exact h

theorem tick_creds (now : BitVec 32) (h : (now - w.credTimer).toNat < walkIdleMs) :
    (tick now w).credCounter = w.credCounter ∧ (tick now w).credTotal = w.credTotal ∧
      (tick now w).credChannel = w.credChannel ∧ (tick now w).rpIdHashx = w.rpIdHashx := by
  unfold tick
  dsimp only
  split_ifs with hr hc hc
  · exact absurd hc (by simp [not_idle h])
  · exact ⟨rfl, rfl, rfl, rfl⟩
  · exact absurd hc (by simp [not_idle h])
  · exact ⟨rfl, rfl, rfl, rfl⟩

theorem tick_creds_end (now : BitVec 32) (h : w.credTotal < w.credCounter) :
    (tick now w).credTotal < (tick now w).credCounter := by
  unfold tick
  dsimp only
  split_ifs
  · exact Nat.lt_succ_self _
  · exact h
  · exact Nat.lt_succ_self _
  · exact h

end Walks

/-! A walk that is possible in any setting. -/

/-- The tokens are such that every MAC verifies and reading is permitted. -/
def openSetting (e : Setting) : Setting :=
  { e with verify := fun _ _ _ _ => true, ppaut := ⟨[], permissionPcmr⟩ }

def openRequest (subcommand : Nat) (hash : Option Data) : Request where
  channel := 0
  subcommand := subcommand
  rpIdHash := hash
  pinUvAuthProtocol := some 1
  pinUvAuthParam := some []

theorem openSetting_unchanged (e : Setting) : Unchanged e (openSetting e) :=
  ⟨rfl, fun _ _ _ _ => rfl, fun _ => rfl, rfl, rfl, rfl, rfl, rfl⟩

theorem openSetting_mayRead (e : Setting) (req : Request) (bound : Bool) :
    mayRead (openSetting e) req bound = true := by
  simp [mayRead, macVerifies, openSetting, permissionPcmr]

theorem openRequest_precheck (subcommand : Nat) {hash : Option Data}
    (h : ∀ d, hash = some d → d.length = rpIdHashLen) :
    precheck (openRequest subcommand hash) = none := by
  have hhash : hash.any (fun d => d.length ≠ rpIdHashLen) = false := by
    cases hash with
    | none => rfl
    | some d => simp [h d rfl]
  simp only [precheck, openRequest, hhash]
  simp

theorem open_isWalk (e : Setting) (first next n : Nat) {hash : Option Data}
    {authorized : Setting → Request → Prop} (h : ∀ d, hash = some d → d.length = rpIdHashLen)
    (hauth : authorized (openSetting e) (openRequest first hash)) :
    IsWalk e first next authorized (openSetting e, openRequest first hash)
      (List.replicate n (openSetting e, openRequest next none)) := by
  have hall : ∀ p ∈ (openSetting e, openRequest first hash) ::
      List.replicate n (openSetting e, openRequest next none),
      p.1 = openSetting e ∧ precheck p.2 = none := by
    intro p hp
    rcases List.mem_cons.mp hp with rfl | hp
    · exact ⟨rfl, openRequest_precheck first h⟩
    · rw [List.eq_of_mem_replicate hp]
      exact ⟨rfl, openRequest_precheck next (by simp)⟩
  refine ⟨fun p hp => ?_, fun p hp => (hall p hp).2, rfl, hauth, fun p hp => ?_, fun p hp => ?_, ?_⟩
  · rw [(hall p hp).1]
    exact openSetting_unchanged e
  · rw [List.eq_of_mem_replicate hp]
    rfl
  · rw [List.eq_of_mem_replicate hp]
  · rw [List.isChain_iff_getElem]
    intro k hk
    rw [(hall _ (List.getElem_mem _)).1, (hall _ (List.getElem_mem _)).1]
    simp [walkIdleMs]

/-! The walk over the relying parties. -/

section Rps

variable {e : Setting} {w : Walk} {k : Nat}

/-- Number `n` of the index loads. -/
def SourceLoads (e : Setting) (n : Nat) : Prop :=
  (rpLoad e.device e.storage (rpCount e.storage).1 n).isOk = true

/-- The variables after `k` responses, the last of them at this time. -/
structure AtRp (e : Setting) (cid : BitVec 32) (k : Nat) (now : BitVec 32) (w : Walk) : Prop where
  index : w.index = (rpCount e.storage).1
  total : w.rpTotal = (indexed e.storage).length
  within : k < (indexed e.storage).length →
    w.rpCounter = k ∧ w.rpChannel = cid ∧ w.rpTimer = now
  beyond : (indexed e.storage).length ≤ k → w.rpTotal ≤ w.rpCounter

theorem answerRp_at {e' : Setting} (hu : Unchanged e e') (first : Bool)
    (hindex : w.index = (rpCount e.storage).1) (htotal : w.rpTotal = (indexed e.storage).length)
    (hcounter : w.rpCounter = k) (hload : SourceLoads e k) :
    (∃ id hash, (indexed e.storage)[k]? = some hash ∧ (answerRp e' w first).1 =
      .rp id hash (if first then some (indexed e.storage).length else none)) ∧
    AtRp e w.rpChannel (k + 1) e'.now (answerRp e' w first).2 := by
  unfold SourceLoads at hload
  cases hrp : rpLoad e.device e.storage (rpCount e.storage).1 k with
  | error err => exact absurd hload (by simp [hrp, Except.isOk, Except.toBool])
  | ok r =>
    obtain ⟨id, hash⟩ := r
    have hhash := rpLoad_hash hrp
    have hload' : rpLoad e'.device e'.storage w.index w.rpCounter = .ok (id, hash) := by
      rw [hu.rpLoad, hindex, hcounter]
      exact hrp
    unfold answerRp
    simp only [hload']
    refine ⟨⟨id, hash, hhash, by rw [htotal]⟩, ?_⟩
    split
    · next hlt =>
      refine ⟨hindex, htotal, fun _ => ⟨congrArg (· + 1) hcounter, rfl, rfl⟩, fun hle => ?_⟩
      omega
    · next hlt =>
      refine ⟨hindex, htotal, fun hk => ?_, fun _ => ?_⟩
      · omega
      · show w.rpTotal ≤ w.rpCounter + 1
        omega

theorem answerRp_unloaded {e' : Setting} (hu : Unchanged e e') (first : Bool)
    (hindex : w.index = (rpCount e.storage).1) (hcounter : w.rpCounter = k)
    (hload : ¬ SourceLoads e k) : ∃ status, (answerRp e' w first).1 = .error status := by
  unfold SourceLoads at hload
  cases hrp : rpLoad e.device e.storage (rpCount e.storage).1 k with
  | ok r => exact absurd rfl (hrp ▸ hload)
  | error err =>
    have hload' : rpLoad e'.device e'.storage w.index w.rpCounter = .error err := by
      rw [hu.rpLoad, hindex, hcounter]
      exact hrp
    unfold answerRp
    simp only [hload']
    exact ⟨_, rfl⟩

theorem answer_rpsBegin {p : Setting × Request} (hp : precheck p.2 = none)
    (hsub : p.2.subcommand = 0x02) : answer w p =
      ((enumerateRPsBegin p.1 p.2 (tick p.1.now w)).1, (enumerateRPsBegin p.1 p.2 (tick p.1.now w)).2,
        p.1.storage) := by
  simp only [answer, credMgmt, hp, hsub]

theorem answer_rpsNext {p : Setting × Request} (hp : precheck p.2 = none)
    (hsub : p.2.subcommand = 0x03) : answer w p =
      ((enumerateRPsGetNextRP p.1 (tick p.1.now w)).1, (enumerateRPsGetNextRP p.1 (tick p.1.now w)).2,
        p.1.storage) := by
  simp only [answer, credMgmt, hp, hsub]

variable {start : Setting × Request} {rest : List (Setting × Request)}

abbrev RpWalk (e : Setting) (start : Setting × Request) (rest : List (Setting × Request)) : Prop :=
  IsWalk e 0x02 0x03 (fun e req => mayRead e req e.paut.hasRpId = true) start rest

theorem indexed_length (st : Storage) : (indexed st).length = (rpCount st).1.length :=
  List.length_map _

theorem RpWalk.begin (h : RpWalk e start rest) (w : Walk) :
    ((rpCount e.storage).2 = false → (answer w start).1 = .error .processing) ∧
    ((rpCount e.storage).2 = true → ∃ w', w'.index = (rpCount e.storage).1 ∧
      w'.rpTotal = (indexed e.storage).length ∧ w'.rpCounter = 0 ∧ w'.rpChannel = start.1.cid ∧
      (answer w start).1 = (answerRp start.1 w' true).1 ∧
      (answer w start).2.1 = (answerRp start.1 w' true).2) := by
  have hu := h.unchanged start List.mem_cons_self
  rw [answer_rpsBegin (h.checked start List.mem_cons_self) h.first]
  have hmay : mayRead start.1 start.2 start.1.paut.hasRpId = true := h.authorized
  simp only [enumerateRPsBegin, hmay, Bool.true_eq_false, if_false, hu.storage]
  constructor
  · intro hroom
    simp only [hroom, if_true]
  · intro hroom
    simp only [hroom, Bool.true_eq_false, if_false]
    exact ⟨_, rfl, (indexed_length _).symm, rfl, rfl, rfl, rfl⟩

theorem AtRp.next {cid now : BitVec 32} {p : Setting × Request} (hat : AtRp e cid k now w)
    (hp : precheck p.2 = none) (hsub : p.2.subcommand = 0x03) (hcid : p.1.cid = cid) (hprompt : (p.1.now - now).toNat < walkIdleMs) :
    (k < (indexed e.storage).length → ∃ w', w'.index = (rpCount e.storage).1 ∧
      w'.rpTotal = (indexed e.storage).length ∧ w'.rpCounter = k ∧ w'.rpChannel = cid ∧
      (answer w p).1 = (answerRp p.1 w' false).1 ∧ (answer w p).2.1 = (answerRp p.1 w' false).2) ∧
    ((indexed e.storage).length ≤ k → (answer w p).1 = .error .notAllowed ∧
      AtRp e cid (k + 1) p.1.now (answer w p).2.1) := by
  rw [answer_rpsNext hp hsub]
  constructor
  · intro hk
    obtain ⟨hcounter, hchannel, htimer⟩ := hat.within hk
    obtain ⟨h1, h2, h3, h4⟩ := tick_rps (w := w) p.1.now (htimer ▸ hprompt)
    have hadmit : ¬ ((tick p.1.now w).rpChannel ≠ p.1.cid ∨
        (tick p.1.now w).rpTotal ≤ (tick p.1.now w).rpCounter) := by
      rintro (hc | hc)
      · exact hc (h3.trans (hchannel.trans hcid.symm))
      · have htotal := hat.total
        omega
    simp only [enumerateRPsGetNextRP, if_neg hadmit]
    exact ⟨_, h4.trans hat.index, h2.trans hat.total, h1.trans hcounter, h3.trans hchannel, rfl, rfl⟩
  · intro hk
    have hend := tick_rps_end p.1.now (hat.beyond hk)
    simp only [enumerateRPsGetNextRP, hend, or_true, if_true, true_and]
    have hsame : (tick p.1.now w).index = w.index ∧ (tick p.1.now w).rpTotal = w.rpTotal := by
      unfold tick
      dsimp only
      split_ifs <;> exact ⟨rfl, rfl⟩
    refine ⟨hsame.1.trans hat.index, hsame.2.trans hat.total, fun hlt => ?_, fun _ => hend⟩
    omega

theorem RpWalk.at (h : RpWalk e start rest) (hroom : (rpCount e.storage).2 = true) (w : Walk)
    {p : Setting × Request} (hp : (start :: rest)[k]? = some p)
    (hload : ∀ j ≤ k, j < (indexed e.storage).length → SourceLoads e j) :
    rpAt (indexed e.storage) k (answer (after w ((start :: rest).take k)) p).1 ∧
    AtRp e start.1.cid (k + 1) p.1.now (answer (after w ((start :: rest).take k)) p).2.1 := by
  induction k generalizing p with
  | zero =>
    obtain rfl : start = p := Option.some.inj hp
    have hu := h.unchanged start List.mem_cons_self
    obtain ⟨w', hindex, htotal, hcounter, hchannel, h1, h2⟩ := (h.begin w).2 hroom
    rw [List.take_zero]
    show rpAt _ 0 (answer w start).1 ∧ AtRp _ _ _ _ (answer w start).2.1
    rw [h1, h2, ← hchannel]
    by_cases hn : 0 < (indexed e.storage).length
    · obtain ⟨⟨id, hash, hhash, hr⟩, hat⟩ :=
        answerRp_at hu true hindex htotal hcounter (hload 0 (Nat.le_refl _) hn)
      refine ⟨?_, hat⟩
      unfold rpAt
      rw [hhash, hr]
      exact ⟨id, rfl⟩
    · -- without any relying party the first file is missing
      have hzero : (indexed e.storage).length = 0 := by omega
      have hbeyond : rpLoad start.1.device start.1.storage w'.index w'.rpCounter =
          .error (.store .fileNotFound) := by
        apply rpLoad_beyond
        rw [hindex, ← indexed_length, hzero]
        exact Nat.zero_le _
      unfold rpAt answerRp
      rw [List.getElem?_eq_none (Nat.le_of_eq hzero)]
      simp only [hbeyond]
      refine ⟨⟨_, rfl⟩, hindex, htotal, fun hk => ?_, fun _ => ?_⟩
      · omega
      · rw [htotal, hzero]
        exact Nat.zero_le _
  | succ k ih =>
    obtain ⟨q, hq, hmem, hprompt⟩ := h.previous hp
    obtain ⟨-, hat⟩ := ih hq fun j hj => hload j (Nat.le_succ_of_le hj)
    rw [← after_take hq] at hat
    have hu := h.unchanged p (List.mem_cons_of_mem _ hmem)
    obtain ⟨hwithin, hbeyond⟩ := hat.next (h.checked p (List.mem_cons_of_mem _ hmem)) (h.next p hmem)
      (h.cid p hmem) hprompt
    by_cases hk : k + 1 < (indexed e.storage).length
    · obtain ⟨w', hindex, htotal, hcounter, hchannel, h1, h2⟩ := hwithin hk
      obtain ⟨⟨id, hash, hhash, hr⟩, hat'⟩ :=
        answerRp_at hu false hindex htotal hcounter (hload (k + 1) (Nat.le_refl _) hk)
      rw [h1, h2, ← hchannel]
      refine ⟨?_, hat'⟩
      unfold rpAt
      rw [hhash, hr]
      exact ⟨id, rfl⟩
    · obtain ⟨hr, hat'⟩ := hbeyond (Nat.le_of_not_lt hk)
      refine ⟨?_, hat'⟩
      unfold rpAt
      rw [List.getElem?_eq_none (Nat.le_of_not_lt hk), hr]
      exact ⟨_, rfl⟩

theorem RpWalk.at_unloaded (h : RpWalk e start rest) (hroom : (rpCount e.storage).2 = true) (w : Walk)
    {p : Setting × Request} (hp : (start :: rest)[k]? = some p) (hk : k < (indexed e.storage).length)
    (hload : ∀ j < k, SourceLoads e j) (hnot : ¬ SourceLoads e k) :
    ∃ status, (answer (after w ((start :: rest).take k)) p).1 = .error status := by
  cases k with
  | zero =>
    obtain rfl : start = p := Option.some.inj hp
    obtain ⟨w', hindex, -, hcounter, -, h1, -⟩ := (h.begin w).2 hroom
    rw [List.take_zero]
    show ∃ status, (answer w start).1 = .error status
    rw [h1]
    exact answerRp_unloaded (h.unchanged start List.mem_cons_self) true hindex hcounter hnot
  | succ k =>
    obtain ⟨q, hq, hmem, hprompt⟩ := h.previous hp
    obtain ⟨-, hat⟩ := h.at hroom w hq fun j hj _ => hload j (Nat.lt_succ_of_le hj)
    rw [← after_take hq] at hat
    obtain ⟨w', hindex, -, hcounter, -, h1, -⟩ :=
      (hat.next (h.checked p (List.mem_cons_of_mem _ hmem)) (h.next p hmem) (h.cid p hmem) hprompt).1 hk
    rw [h1]
    exact answerRp_unloaded (h.unchanged p (List.mem_cons_of_mem _ hmem)) false hindex hcounter hnot

theorem open_rpWalk (e : Setting) (n : Nat) : RpWalk e (openSetting e, openRequest 0x02 none)
    (List.replicate n (openSetting e, openRequest 0x03 none)) :=
  open_isWalk e 0x02 0x03 n (by simp) (openSetting_mayRead _ _ _)

theorem rpsComplete_of (hroom : (rpCount e.storage).2 = true)
    (hload : ∀ n < (rpCount e.storage).1.length, SourceLoads e n) : RpsComplete e := by
  refine ⟨indexed e.storage, indexed_nodup _, mem_indexed hroom, fun w start rest h k p hp => ?_⟩
  refine (RpWalk.at h hroom w hp fun j _ hj => hload j ?_).1
  rw [← indexed_length]
  exact hj

theorem RpsComplete.room (h : RpsComplete e) : (rpCount e.storage).2 = true := by
  obtain ⟨hashes, -, hmem, hanswers⟩ := h
  by_contra hroom
  have hfalse := eq_false_of_ne_true hroom
  have hwalk := open_rpWalk e 0
  -- the index is full, so there are relying parties to return
  have hfull : 256 ≤ (indexed e.storage).length := by
    rw [indexed_length]
    exact fillIndex_full hfalse
  have hne : hashes ≠ [] := by
    have hfirst := List.getElem_mem (show 0 < (indexed e.storage).length by omega)
    exact List.ne_nil_of_mem ((hmem _).mpr (indexed_sound hfirst))
  obtain ⟨hash, hashes', rfl⟩ := List.exists_cons_of_ne_nil hne
  obtain ⟨id, hr⟩ := hanswers {} _ _ hwalk 0 _ rfl
  have hbegin := (RpWalk.begin hwalk {}).1 hfalse
  exact absurd (hbegin.symm.trans hr) (by simp)

theorem RpsComplete.sources (h : RpsComplete e) :
    ∀ n < (rpCount e.storage).1.length, SourceLoads e n := by
  have hroom := h.room
  obtain ⟨hashes, hnodup, hmem, hanswers⟩ := h
  have hlength : hashes.length = (indexed e.storage).length := by
    apply List.Perm.length_eq
    rw [List.perm_ext_iff_of_nodup hnodup (indexed_nodup _)]
    intro hash
    rw [hmem, mem_indexed hroom]
  intro n
  induction n using Nat.strong_induction_on with
  | _ n ih =>
    intro hn
    rw [← indexed_length] at hn
    by_contra hnot
    have hwalk := open_rpWalk e n
    have hp : ((openSetting e, openRequest 0x02 none) ::
        List.replicate n (openSetting e, openRequest 0x03 none))[n]? =
        some (if n = 0 then (openSetting e, openRequest 0x02 none)
          else (openSetting e, openRequest 0x03 none)) := by
      cases n with
      | zero => rfl
      | succ n => simp
    obtain ⟨status, herror⟩ := RpWalk.at_unloaded hwalk hroom {} hp hn
      (fun j hj => ih j hj (by rw [← indexed_length]; omega)) hnot
    have hat := hanswers {} _ _ hwalk n _ hp
    unfold rpAt at hat
    rw [List.getElem?_eq_getElem (show n < hashes.length by omega)] at hat
    obtain ⟨id, hr⟩ := hat
    exact absurd (herror.symm.trans hr) (by simp)

end Rps

/-! The loop over the slots. -/

section Seek

variable {d : Device} {st : Storage} {hash : Data} {is : List SlotIndex}

/-- The loop is broken off at this slot. -/
def breaksAt (d : Device) (hash : Data) (s : SlotFile) : Bool :=
  matchesRp s (some hash) &&
    match loadResident d s hash with
    | .error .noCredentials => false
    | .error _ => true
    | .ok _ => false

/-- No slot breaks the loop off. -/
def Smooth (d : Device) (st : Storage) (hash : Data) (is : List SlotIndex) : Prop :=
  ∀ i ∈ is, ∀ s, st.slots i = some s → breaksAt d hash s = false

theorem slot_cases (d : Device) (st : Storage) (hash : Data) (i : SlotIndex) (is : List SlotIndex)
    (counter : Nat) (first : Bool) :
    ((∀ skip total file, seek d st (some hash) counter first (i :: is) skip total file =
        seek d st (some hash) counter first is skip total file) ∧
      usableSlots d st hash (i :: is) = usableSlots d st hash is ∧
      ∀ s, st.slots i = some s → breaksAt d hash s = false) ∨
    ((∀ skip total file, seek d st (some hash) counter first (i :: is) skip total file =
        ⟨total, file, true⟩) ∧ ∃ s, st.slots i = some s ∧ breaksAt d hash s = true) ∨
    ∃ s cred, st.slots i = some s ∧ loadResident d s hash = .ok cred ∧
      usableSlots d st hash (i :: is) = (s, cred) :: usableSlots d st hash is ∧
      breaksAt d hash s = false ∧
      ∀ skip total file, seek d st (some hash) counter first (i :: is) skip total file =
        if skip + 1 = counter ∧ first = false then ⟨total, file.or (some s), false⟩
        else seek d st (some hash) counter first is (skip + 1) (if first then total + 1 else total)
          (if skip + 1 = counter then file.or (some s) else file) := by
  cases hi : st.slots i with
  | none =>
    refine .inl ⟨fun skip total file => ?_, ?_, fun s hs => absurd hs (by simp)⟩
    · simp only [seek, hi]
    · simp [usableSlots, hi]
  | some s =>
    by_cases hm : matchesRp s (some hash) = true
    · have hm' : ¬ matchesRp s (some hash) = false := by simp [hm]
      cases hload : loadResident d s hash with
      | ok cred =>
        refine .inr (.inr ⟨s, cred, rfl, hload, ?_, ?_, fun skip total file => ?_⟩)
        · simp [usableSlots, hi, hm, hload, Except.toOption]
        · simp [breaksAt, hload]
        · simp only [seek, hi, if_neg hm', Option.getD_some, hload]
      | error err =>
        have hnone : usableSlots d st hash (i :: is) = usableSlots d st hash is := by
          simp [usableSlots, hi, hload, Except.toOption]
        cases err with
        | noCredentials =>
          refine .inl ⟨fun skip total file => ?_, hnone, fun f hf => ?_⟩
          · simp only [seek, hi, if_neg hm', Option.getD_some, hload]
          · rw [← Option.some.inj hf]
            simp [breaksAt, hload]
        | invalidCredential =>
          refine .inr (.inl ⟨fun skip total file => ?_, s, rfl, ?_⟩)
          · simp only [seek, hi, if_neg hm', Option.getD_some, hload]
          · simp [breaksAt, hload, hm]
        | store err =>
          refine .inr (.inl ⟨fun skip total file => ?_, s, rfl, ?_⟩)
          · simp only [seek, hi, if_neg hm', Option.getD_some, hload]
          · simp [breaksAt, hload, hm]
    · have hm' := eq_false_of_ne_true hm
      refine .inl ⟨fun skip total file => ?_, ?_, fun f hf => ?_⟩
      · simp only [seek, hi, hm', if_true]
      · simp [usableSlots, hi, hm]
      · rw [← Option.some.inj hf]
        simp [breaksAt, hm]

theorem seek_next (hs : Smooth d st hash is) {counter skip total : Nat} (hskip : skip < counter) :
    seek d st (some hash) counter false is skip total none =
      ⟨total, ((usableSlots d st hash is)[counter - skip - 1]?).map Prod.fst, false⟩ := by
  induction is generalizing skip with
  | nil => rfl
  | cons i is ih =>
    have hs' : Smooth d st hash is := fun j hj => hs j (List.mem_cons_of_mem _ hj)
    rcases slot_cases d st hash i is counter false with
      ⟨hseek, hslots, -⟩ | ⟨-, s, hi, hbreak⟩ | ⟨s, cred, -, -, hslots, -, hseek⟩
    · rw [hseek, hslots]
      exact ih hs' hskip
    · exact absurd (hbreak.symm.trans (hs i List.mem_cons_self s hi)) (by decide)
    · rw [hseek, hslots]
      by_cases hhere : skip + 1 = counter
      · have hzero : counter - skip - 1 = 0 := by omega
        rw [if_pos ⟨hhere, rfl⟩, hzero]
        rfl
      · have hlater : counter - skip - 1 = (counter - (skip + 1) - 1) + 1 := by omega
        rw [if_neg (fun h => hhere h.1), if_neg hhere, hlater, List.getElem?_cons_succ]
        exact ih hs' (by omega)

theorem seek_count (hs : Smooth d st hash is) {skip total : Nat} {file : Option SlotFile}
    (hskip : 1 ≤ skip) : seek d st (some hash) 1 true is skip total file =
      ⟨total + (usableSlots d st hash is).length, file, false⟩ := by
  induction is generalizing skip total with
  | nil => rfl
  | cons i is ih =>
    have hs' : Smooth d st hash is := fun j hj => hs j (List.mem_cons_of_mem _ hj)
    rcases slot_cases d st hash i is 1 true with
      ⟨hseek, hslots, -⟩ | ⟨-, s, hi, hbreak⟩ | ⟨s, cred, -, -, hslots, -, hseek⟩
    · rw [hseek, hslots]
      exact ih hs' hskip
    · exact absurd (hbreak.symm.trans (hs i List.mem_cons_self s hi)) (by decide)
    · have hpast : ¬ skip + 1 = 1 := by omega
      rw [hseek, hslots, if_neg (fun h => hpast h.1), if_neg hpast, if_pos rfl,
        ih hs' (Nat.le_succ_of_le hskip), List.length_cons]
      congr 1
      omega

theorem seek_first (hs : Smooth d st hash is) : seek d st (some hash) 1 true is 0 0 none =
    ⟨(usableSlots d st hash is).length, ((usableSlots d st hash is)[0]?).map Prod.fst, false⟩ := by
  induction is with
  | nil => rfl
  | cons i is ih =>
    have hs' : Smooth d st hash is := fun j hj => hs j (List.mem_cons_of_mem _ hj)
    rcases slot_cases d st hash i is 1 true with
      ⟨hseek, hslots, -⟩ | ⟨-, s, hi, hbreak⟩ | ⟨s, cred, -, -, hslots, -, hseek⟩
    · rw [hseek, hslots]
      exact ih hs'
    · exact absurd (hbreak.symm.trans (hs i List.mem_cons_self s hi)) (by decide)
    · rw [hseek, hslots, if_neg (by simp), if_pos rfl, if_pos rfl, seek_count hs' (Nat.le_refl _),
        List.length_cons]
      congr 1
      omega

theorem seek_broken {i : SlotIndex} {s : SlotFile} (hi : i ∈ is) (hslot : st.slots i = some s)
    (hbreak : breaksAt d hash s = true) (counter skip total : Nat) (file : Option SlotFile) :
    (seek d st (some hash) counter true is skip total file).broken = true := by
  induction is generalizing skip total file with
  | nil => exact absurd hi List.not_mem_nil
  | cons j is ih =>
    rcases slot_cases d st hash j is counter true with
      ⟨hseek, -, hpass⟩ | ⟨hseek, -⟩ | ⟨f, cred, hf, -, -, hpass, hseek⟩
    · rw [hseek]
      rcases List.mem_cons.mp hi with rfl | hi
      · exact absurd (hbreak.symm.trans (hpass s hslot)) (by decide)
      · exact ih hi _ _ _
    · rw [hseek]
    · rw [hseek, if_neg (by simp)]
      rcases List.mem_cons.mp hi with rfl | hi
      · rw [hf] at hslot
        rw [Option.some.inj hslot] at hpass
        exact absurd (hbreak.symm.trans hpass) (by decide)
      · exact ih hi _ _ _

theorem seek_nothing (h : usableSlots d st hash is = []) (counter skip total : Nat)
    (first : Bool) : (seek d st (some hash) counter first is skip total none).total = total ∧
      (seek d st (some hash) counter first is skip total none).file = none := by
  induction is generalizing skip total with
  | nil => exact ⟨rfl, rfl⟩
  | cons i is ih =>
    rcases slot_cases d st hash i is counter first with
      ⟨hseek, hslots, -⟩ | ⟨hseek, -⟩ | ⟨s, cred, -, -, hslots, -⟩
    · rw [hseek]
      exact ih (hslots.symm.trans h) _ _
    · rw [hseek]
      exact ⟨rfl, rfl⟩
    · exact absurd (hslots.symm.trans h) (List.cons_ne_nil _ _)

end Seek

/-! The walk over the credentials of an RP. -/

section Creds

variable {e : Setting} {hash : Data} {w : Walk} {k : Nat}

/-- The slots that the walk goes over. -/
abbrev slotsOf (e : Setting) (hash : Data) : List (SlotFile × Credential) :=
  usableSlots e.device e.storage hash (List.finRange 256)

theorem usable_length (e : Setting) (hash : Data) :
    (usable e hash).length = (slotsOf e hash).length :=
  List.length_map _

theorem slotsOf_load {s : SlotFile} {cred : Credential} (h : (s, cred) ∈ slotsOf e hash) :
    ∃ i, e.storage.slots i = some s ∧ matchesRp s (some hash) = true ∧
      loadResident e.device s hash = .ok cred := by
  obtain ⟨i, -, hi⟩ := List.mem_filterMap.mp h
  obtain ⟨f, hf, hfound⟩ := Option.bind_eq_some_iff.mp hi
  split at hfound
  · next hm =>
    obtain ⟨c, hc, hpair⟩ := Option.map_eq_some_iff.mp hfound
    obtain ⟨rfl, rfl⟩ := Prod.mk.inj hpair
    refine ⟨i, hf, hm, ?_⟩
    cases hload : loadResident e.device f hash with
    | error err => simp [hload, Except.toOption] at hc
    | ok c' =>
      rw [hload] at hc
      rw [Option.some.inj hc]
  · exact absurd hfound (by simp)

/-- The variables after `k` responses, the last of them at this time. -/
structure AtCred (e : Setting) (hash : Data) (cid : BitVec 32) (k : Nat) (now : BitVec 32)
    (w : Walk) : Prop where
  within : k < (usable e hash).length →
    (w.credCounter = k + 1 ∧ w.credTotal = (usable e hash).length) ∧ w.credChannel = cid ∧
      w.credTimer = now ∧ w.rpIdHashx = .live hash
  beyond : (usable e hash).length ≤ k → w.credTotal < w.credCounter

theorem answerCredential_shows {s : SlotFile} {cred : Credential}
    (hload : loadResident e.device s hash = .ok cred) (hshow : showable e s cred = true) (w : Walk)
    (first : Bool) : ∃ key blob w', answerCredential e hash s w first =
      (.credential (entryOf e cred key blob (if first then some w.credTotal else none)), w',
        decide (w.credCounter + 1 ≤ w.credTotal)) ∧ w'.credCounter = w.credCounter + 1 ∧
      w'.credTotal = w.credTotal ∧ w'.credChannel = w.credChannel ∧ w'.rpIdHashx = w.rpIdHashx ∧
      (w.credCounter + 1 ≤ w.credTotal → w'.credTimer = e.now) := by
  unfold showable at hshow
  cases hkey : publicKeyOf e s cred with
  | none => simp [hkey] at hshow
  | some key =>
    rw [hkey] at hshow
    obtain ⟨hpk, hblob⟩ := Bool.and_eq_true_iff.mp hshow
    obtain ⟨pk, hpk⟩ := Option.isSome_iff_exists.mp hpk
    cases hlb : largeBlobKeyOf e cred with
    | error status => simp [hlb, Except.isOk, Except.toBool] at hblob
    | ok blob =>
      simp only [answerCredential, hload, hkey, hpk, hlb]
      by_cases hk : w.credCounter + 1 ≤ w.credTotal
      · simp only [hk, if_true, decide_true]
        exact ⟨pk, blob, _, rfl, rfl, rfl, rfl, rfl, fun _ => rfl⟩
      · simp only [hk, if_false, decide_false]
        exact ⟨pk, blob, _, rfl, rfl, rfl, rfl, rfl, fun h => h.elim⟩

theorem answerCredential_hidden {s : SlotFile} {cred : Credential}
    (hload : loadResident e.device s hash = .ok cred) (hshow : ¬ showable e s cred = true) (w : Walk)
    (first : Bool) : ∃ status, (answerCredential e hash s w first).1 = .error status := by
  unfold showable at hshow
  unfold answerCredential
  rw [hload]
  dsimp only
  cases hkey : publicKeyOf e s cred with
  | none => exact ⟨_, rfl⟩
  | some key =>
    dsimp only
    rw [hkey] at hshow
    cases hpk : encodeKey e cred key with
    | none => exact ⟨_, rfl⟩
    | some pk =>
      dsimp only
      cases hlb : largeBlobKeyOf e cred with
      | error status => exact ⟨_, rfl⟩
      | ok blob => exact absurd (by simp [hpk, hlb, Except.isOk, Except.toBool]) hshow

theorem answerPosition_at {e' : Setting} (hu : Unchanged e e')
    (hs : Smooth e.device e.storage hash (List.finRange 256)) {s : SlotFile} {cred : Credential}
    (hk : (slotsOf e hash)[k]? = some (s, cred)) (first : Bool) (hcounter : w.credCounter = k + 1)
    (htotal : if first then k = 0 ∧ w.credTotal = 0 else w.credTotal = (slotsOf e hash).length) :
    answerPosition e' (some hash) w first =
      answerCredential e' hash s { w with credTotal := (slotsOf e hash).length } first := by
  have hsmooth : Smooth e'.device e'.storage hash (List.finRange 256) := by
    intro i hi f hf
    rw [hu.storage] at hf
    have h := hs i hi f hf
    unfold breaksAt at h ⊢
    rw [hu.loads i f hash hf]
    exact h
  unfold answerPosition
  cases first with
  | true =>
    obtain ⟨rfl, hzero⟩ := htotal
    rw [hcounter, hzero, seek_first hsmooth, hu.usableSlots, hk]
    rfl
  | false =>
    have htotal' : w.credTotal = (slotsOf e hash).length := htotal
    rw [seek_next hsmooth (by omega), hu.usableSlots, hcounter]
    have hpos : k + 1 - 0 - 1 = k := by omega
    rw [hpos, hk, htotal']
    rfl

abbrev CredWalk (e : Setting) (hash : Data) (start : Setting × Request)
    (rest : List (Setting × Request)) : Prop :=
  IsWalk e 0x04 0x05 (fun e req => req.rpIdHash = some hash ∧
    mayRead e req (boundElsewhere e hash) = true) start rest

variable {start : Setting × Request} {rest : List (Setting × Request)}

theorem CredWalk.begin (h : CredWalk e hash start rest) (w : Walk) : ∃ w', w'.credCounter = 1 ∧
    w'.credTotal = 0 ∧ w'.credChannel = start.1.cid ∧
    (answer w start).1 = (answerPosition start.1 (some hash) w' true).1 ∧
    (answer w start).2.1 = if (answerPosition start.1 (some hash) w' true).2.2 then
        { (answerPosition start.1 (some hash) w' true).2.1 with rpIdHashx := .live hash }
      else (answerPosition start.1 (some hash) w' true).2.1 := by
  obtain ⟨hhash, hmay⟩ := h.authorized
  refine ⟨{ tick start.1.now w with credCounter := 1, credTotal := 0, credChannel := start.1.cid },
    rfl, rfl, rfl, ?_⟩
  simp only [answer, credMgmt, h.checked start List.mem_cons_self, h.first,
    enumerateCredentialsBegin, hhash, hmay, Bool.true_eq_false, if_false, and_self]

theorem AtCred.next {cid now : BitVec 32} {p : Setting × Request} (hat : AtCred e hash cid k now w)
    (hp : precheck p.2 = none) (hsub : p.2.subcommand = 0x05) (hcid : p.1.cid = cid)
    (hprompt : (p.1.now - now).toNat < walkIdleMs) :
    (k < (usable e hash).length → ∃ w', w'.credCounter = k + 1 ∧
      w'.credTotal = (usable e hash).length ∧ w'.credChannel = cid ∧ w'.rpIdHashx = .live hash ∧
      (answer w p).1 = (answerPosition p.1 (some hash) w' false).1 ∧
      ((answerPosition p.1 (some hash) w' false).2.2 = true →
        (answer w p).2.1 = (answerPosition p.1 (some hash) w' false).2.1) ∧
      (answer w p).2.1.credTotal = (answerPosition p.1 (some hash) w' false).2.1.credTotal ∧
      (answer w p).2.1.credCounter = (answerPosition p.1 (some hash) w' false).2.1.credCounter) ∧
    ((usable e hash).length ≤ k → (answer w p).1 = .error .notAllowed ∧
      AtCred e hash cid (k + 1) p.1.now (answer w p).2.1) := by
  simp only [answer, credMgmt, hp, hsub]
  constructor
  · intro hk
    obtain ⟨⟨hcounter, htotal⟩, hchannel, htimer, hlive⟩ := hat.within hk
    obtain ⟨h1, h2, h3, h4⟩ := tick_creds (w := w) p.1.now (htimer ▸ hprompt)
    have hadmit : ¬ ((tick p.1.now w).credChannel ≠ p.1.cid ∨
        (tick p.1.now w).credTotal < (tick p.1.now w).credCounter) := by
      rintro (hc | hc)
      · exact hc (h3.trans (hchannel.trans hcid.symm))
      · omega
    refine ⟨tick p.1.now w, h1.trans hcounter, h2.trans htotal, h3.trans hchannel, h4.trans hlive, ?_⟩
    simp only [enumerateCredentialsGetNextCredential, if_neg hadmit, h4.trans hlive, Buffer.read]
    refine ⟨trivial, fun hkept => ?_, ?_, ?_⟩
    · rw [hkept, if_pos (.inl rfl)]
    · split <;> rfl
    · split <;> rfl
  · intro hk
    have hend := tick_creds_end p.1.now (hat.beyond hk)
    simp only [enumerateCredentialsGetNextCredential, hend, or_true, if_true, true_and]
    exact ⟨fun hlt => by omega, fun _ => hend⟩

theorem slotsOf_get (hk : k < (usable e hash).length) : ∃ s cred,
    (slotsOf e hash)[k]? = some (s, cred) ∧ (usable e hash)[k]? = some cred := by
  rw [usable_length] at hk
  refine ⟨_, _, List.getElem?_eq_getElem hk, ?_⟩
  unfold usable
  rw [List.getElem?_map, List.getElem?_eq_getElem hk]
  rfl

/-- Number `k` of the usable credentials can be shown. -/
def ShowableAt (e : Setting) (hash : Data) (k : Nat) : Prop :=
  ∀ s cred, (slotsOf e hash)[k]? = some (s, cred) → showable e s cred = true

theorem CredWalk.begin_shown (h : CredWalk e hash start rest)
    (hs : Smooth e.device e.storage hash (List.finRange 256)) (w : Walk)
    (hn : 0 < (usable e hash).length) (hshow : ShowableAt e hash 0) :
    credAt e hash 0 (answer w start).1 ∧
    AtCred e hash start.1.cid 1 start.1.now (answer w start).2.1 := by
  have hu := h.unchanged start List.mem_cons_self
  obtain ⟨w', hcounter, htotal, hchannel, h1, h2⟩ := CredWalk.begin h w
  obtain ⟨s, cred, hslot, hcred⟩ := slotsOf_get hn
  obtain ⟨i, hi, -, hload⟩ := slotsOf_load (List.mem_of_getElem? hslot)
  rw [h1, h2, answerPosition_at hu hs hslot true hcounter ⟨rfl, htotal⟩]
  obtain ⟨key, blob, w'', hanswer, hc, ht, hch, -, htimer⟩ := answerCredential_shows
    ((hu.loads i s hash hi).trans hload) ((hu.showable s cred).trans (hshow s cred hslot))
    { w' with credTotal := (slotsOf e hash).length } true
  rw [hanswer]
  unfold credAt
  rw [hcred]
  dsimp only at hc ht hch htimer ⊢
  refine ⟨⟨key, blob, ?_⟩, ⟨fun hlt => ?_, fun hle => ?_⟩⟩
  · rw [hu.entryOf, usable_length]
    rfl
  · -- there are more, so the hash is kept
    have hmore : w'.credCounter + 1 ≤ (slotsOf e hash).length := by
      rw [usable_length] at hlt
      omega
    simp only [hmore, decide_true, if_true]
    exact ⟨⟨by omega, ht.trans (usable_length e hash).symm⟩, hch.trans hchannel, htimer hmore, trivial⟩
  · have hlast : ¬ w'.credCounter + 1 ≤ (slotsOf e hash).length := by
      rw [usable_length] at hle
      omega
    simp only [hlast, decide_false, Bool.false_eq_true, if_false]
    omega

theorem CredWalk.begin_empty (h : CredWalk e hash start rest) (w : Walk)
    (hn : (usable e hash).length = 0) : credAt e hash 0 (answer w start).1 ∧
    AtCred e hash start.1.cid 1 start.1.now (answer w start).2.1 := by
  have hu := h.unchanged start List.mem_cons_self
  obtain ⟨w', hcounter, htotal, -, h1, h2⟩ := CredWalk.begin h w
  have hempty : slotsOf e hash = [] := by
    rw [usable_length] at hn
    exact List.length_eq_zero_iff.mp hn
  obtain ⟨hnone, hfile⟩ := seek_nothing ((hu.usableSlots hash (List.finRange 256)).trans hempty)
    w'.credCounter 0 w'.credTotal true
  have herror : ∃ status, answerPosition start.1 (some hash) w' true =
      (.error status, { w' with credTotal := w'.credTotal }, false) := by
    unfold answerPosition
    simp only [hfile, hnone]
    split
    · exact ⟨_, rfl⟩
    · exact ⟨_, rfl⟩
  obtain ⟨status, herror⟩ := herror
  unfold credAt
  rw [h1, h2, herror, List.getElem?_eq_none (Nat.le_of_eq hn)]
  refine ⟨⟨status, rfl⟩, fun hk => ?_, fun _ => ?_⟩
  · omega
  · show w'.credTotal < w'.credCounter
    omega

theorem AtCred.next_shown {cid now : BitVec 32} {p : Setting × Request}
    (hat : AtCred e hash cid (k + 1) now w) (hu : Unchanged e p.1)
    (hs : Smooth e.device e.storage hash (List.finRange 256)) (hp : precheck p.2 = none)
    (hsub : p.2.subcommand = 0x05) (hcid : p.1.cid = cid)
    (hprompt : (p.1.now - now).toNat < walkIdleMs) (hk : k + 1 < (usable e hash).length)
    (hshow : ShowableAt e hash (k + 1)) : credAt e hash (k + 1) (answer w p).1 ∧
    AtCred e hash cid (k + 2) p.1.now (answer w p).2.1 := by
  obtain ⟨s, cred, hslot, hcred⟩ := slotsOf_get hk
  obtain ⟨i, hi, -, hload⟩ := slotsOf_load (List.mem_of_getElem? hslot)
  obtain ⟨w', hcounter, htotal, hchannel, hlive, h1, hkept, h2, h3⟩ :=
    (hat.next hp hsub hcid hprompt).1 hk
  rw [answerPosition_at hu hs hslot false hcounter (htotal.trans (usable_length e hash))]
    at h1 hkept h2 h3
  obtain ⟨key, blob, w'', hanswer, hc, ht, hch, hb, htimer⟩ := answerCredential_shows
    ((hu.loads i s hash hi).trans hload) ((hu.showable s cred).trans (hshow s cred hslot))
    { w' with credTotal := (slotsOf e hash).length } false
  rw [hanswer] at h1 hkept h2 h3
  dsimp only at hc ht hch hb htimer h1 hkept h2 h3
  unfold credAt
  rw [hcred, h1]
  refine ⟨⟨key, blob, ?_⟩, ⟨fun hlt => ?_, fun hle => ?_⟩⟩
  · rw [hu.entryOf]
    rfl
  · have hmore : w'.credCounter + 1 ≤ (slotsOf e hash).length := by
      rw [usable_length] at hlt
      omega
    rw [hkept (decide_eq_true hmore)]
    exact ⟨⟨by omega, ht.trans (usable_length e hash).symm⟩, hch.trans hchannel, htimer hmore,
      hb.trans hlive⟩
  · rw [usable_length] at hle
    omega

theorem CredWalk.at (h : CredWalk e hash start rest)
    (hs : usable e hash ≠ [] → Smooth e.device e.storage hash (List.finRange 256)) (w : Walk)
    {p : Setting × Request} (hp : (start :: rest)[k]? = some p)
    (hshow : ∀ j ≤ k, ShowableAt e hash j) :
    credAt e hash k (answer (after w ((start :: rest).take k)) p).1 ∧
    AtCred e hash start.1.cid (k + 1) p.1.now (answer (after w ((start :: rest).take k)) p).2.1 := by
  induction k generalizing p with
  | zero =>
    obtain rfl : start = p := Option.some.inj hp
    rcases Nat.eq_zero_or_pos (usable e hash).length with hn | hn
    · exact CredWalk.begin_empty h w hn
    · exact CredWalk.begin_shown h (hs (List.ne_nil_of_length_pos hn)) w hn
        (hshow 0 (Nat.le_refl _))
  | succ k ih =>
    obtain ⟨q, hq, hmem, hprompt⟩ := h.previous hp
    obtain ⟨-, hat⟩ := ih hq fun j hj => hshow j (Nat.le_succ_of_le hj)
    rw [← after_take hq] at hat
    have hchecked := h.checked p (List.mem_cons_of_mem _ hmem)
    by_cases hk : k + 1 < (usable e hash).length
    · have hne : usable e hash ≠ [] := List.ne_nil_of_length_pos (by omega)
      exact hat.next_shown (h.unchanged p (List.mem_cons_of_mem _ hmem)) (hs hne) hchecked
        (h.next p hmem) (h.cid p hmem) hprompt hk (hshow (k + 1) (Nat.le_refl _))
    · obtain ⟨hr, hat'⟩ :=
        (hat.next hchecked (h.next p hmem) (h.cid p hmem) hprompt).2 (Nat.le_of_not_lt hk)
      refine ⟨?_, hat'⟩
      unfold credAt
      rw [List.getElem?_eq_none (Nat.le_of_not_lt hk), hr]
      exact ⟨_, rfl⟩

theorem CredWalk.at_hidden (h : CredWalk e hash start rest)
    (hs : Smooth e.device e.storage hash (List.finRange 256)) (w : Walk) {p : Setting × Request}
    (hp : (start :: rest)[k]? = some p) (hshow : ∀ j < k, ShowableAt e hash j) {s : SlotFile}
    {cred : Credential} (hslot : (slotsOf e hash)[k]? = some (s, cred))
    (hnot : ¬ showable e s cred = true) :
    ∃ status, (answer (after w ((start :: rest).take k)) p).1 = .error status := by
  obtain ⟨i, hi, -, hload⟩ := slotsOf_load (List.mem_of_getElem? hslot)
  cases k with
  | zero =>
    obtain rfl : start = p := Option.some.inj hp
    have hu := h.unchanged start List.mem_cons_self
    obtain ⟨w', hcounter, htotal, -, h1, -⟩ := CredWalk.begin h w
    rw [List.take_zero]
    show ∃ status, (answer w start).1 = .error status
    rw [h1, answerPosition_at hu hs hslot true hcounter ⟨rfl, htotal⟩]
    exact answerCredential_hidden ((hu.loads i s hash hi).trans hload)
      (fun h' => hnot ((hu.showable s cred).symm.trans h')) _ true
  | succ k =>
    obtain ⟨q, hq, hmem, hprompt⟩ := h.previous hp
    have hu := h.unchanged p (List.mem_cons_of_mem _ hmem)
    obtain ⟨-, hat⟩ := CredWalk.at h (fun _ => hs) w hq fun j hj => hshow j (Nat.lt_succ_of_le hj)
    rw [← after_take hq] at hat
    have hk : k + 1 < (usable e hash).length := by
      rw [usable_length]
      exact (List.getElem?_eq_some_iff.mp hslot).1
    obtain ⟨w', hcounter, htotal, -, -, h1, -⟩ := (hat.next
      (h.checked p (List.mem_cons_of_mem _ hmem)) (h.next p hmem) (h.cid p hmem) hprompt).1 hk
    rw [h1, answerPosition_at hu hs hslot false hcounter (htotal.trans (usable_length e hash))]
    exact answerCredential_hidden ((hu.loads i s hash hi).trans hload)
      (fun h' => hnot ((hu.showable s cred).symm.trans h')) _ false

/-- Every slot of the RP can be listed. -/
def Listed (e : Setting) (hash : Data) : Prop :=
  ∀ i s, e.storage.slots i = some s → matchesRp s (some hash) = true → listable e hash s = true

theorem Listed.smooth (h : Listed e hash) : Smooth e.device e.storage hash (List.finRange 256) := by
  intro i _ s hs
  unfold breaksAt
  cases hm : matchesRp s (some hash) with
  | false => rfl
  | true =>
    have hl := h i s hs hm
    unfold listable at hl
    rw [Bool.true_and]
    split
    · rfl
    · next err hne hload => cases err <;> simp_all
    · rfl

theorem Listed.showableAt (h : Listed e hash) (k : Nat) : ShowableAt e hash k := by
  intro s cred hslot
  obtain ⟨i, hi, hm, hload⟩ := slotsOf_load (List.mem_of_getElem? hslot)
  have hl := h i s hi hm
  unfold listable at hl
  rw [hload] at hl
  exact hl

theorem listed_of (hs : Smooth e.device e.storage hash (List.finRange 256))
    (hshow : ∀ k, ShowableAt e hash k) : Listed e hash := by
  intro i s hi hm
  have hb := hs i (List.mem_finRange i) s hi
  unfold breaksAt at hb
  rw [hm, Bool.true_and] at hb
  unfold listable
  cases hload : loadResident e.device s hash with
  | error err =>
    rw [hload] at hb
    cases err with
    | noCredentials => rfl
    | invalidCredential => exact absurd hb (by simp)
    | store err => exact absurd hb (by simp)
  | ok cred =>
    have hmem : (s, cred) ∈ slotsOf e hash := by
      refine List.mem_filterMap.mpr ⟨i, List.mem_finRange i, ?_⟩
      simp [hi, hm, hload, Except.toOption]
    obtain ⟨k, hk⟩ := List.mem_iff_getElem?.mp hmem
    exact hshow k s cred hk

theorem residentRpIdHash_length {s : SlotFile} (h : residentRpIdHash s = .ok hash) :
    hash.length = rpIdHashLen := by
  unfold residentRpIdHash at h
  split at h
  · split at h
    · exact absurd h (by simp)
    · split at h
      · next hlen => exact Except.ok.inj h ▸ hlen
      · exact absurd h (by simp)
  · split at h
    · exact absurd h (by simp)
    · rw [← Except.ok.inj h, List.length_take]
      omega

theorem hash_length (h : usable e hash ≠ []) : hash.length = rpIdHashLen := by
  have hpos : 0 < (usable e hash).length := List.length_pos_of_ne_nil h
  obtain ⟨s, cred, hslot, -⟩ := slotsOf_get hpos
  obtain ⟨-, -, hm, -⟩ := slotsOf_load (List.mem_of_getElem? hslot)
  unfold matchesRp at hm
  split at hm
  · next own own' heq hown =>
    rw [Option.some.inj heq, ← of_decide_eq_true hm]
    exact residentRpIdHash_length hown
  · exact absurd hm (by decide)

theorem open_credWalk (e : Setting) (n : Nat) (h : hash.length = rpIdHashLen) :
    CredWalk e hash (openSetting e, openRequest 0x04 (some hash))
      (List.replicate n (openSetting e, openRequest 0x05 none)) :=
  open_isWalk e 0x04 0x05 n (fun _ hd => Option.some.inj hd ▸ h) ⟨rfl, openSetting_mayRead _ _ _⟩

theorem credsComplete_of (h : usable e hash ≠ [] → Listed e hash) : CredsComplete e hash := by
  intro w start rest hwalk k p hp
  refine (CredWalk.at hwalk (fun hne => (h hne).smooth) w hp fun j _ s cred hslot => ?_).1
  have hne : usable e hash ≠ [] := by
    apply List.ne_nil_of_length_pos
    rw [usable_length]
    exact Nat.zero_lt_of_lt (List.getElem?_eq_some_iff.mp hslot).1
  exact (h hne).showableAt j s cred hslot

theorem CredsComplete.smooth (h : CredsComplete e hash) (hne : usable e hash ≠ []) :
    Smooth e.device e.storage hash (List.finRange 256) := by
  intro i hi s hs
  by_contra hb
  have hbreak := eq_true_of_ne_false hb
  have hwalk := open_credWalk e 0 (hash_length hne)
  obtain ⟨w', -, -, -, h1, -⟩ := CredWalk.begin hwalk {}
  have hbroken : answerPosition (openSetting e) (some hash) w' true =
      (.error .notAllowed, { w' with credTotal := (seek e.device e.storage (some hash) w'.credCounter
        true (List.finRange 256) 0 w'.credTotal none).total }, false) := by
    unfold answerPosition
    exact if_pos (seek_broken hi hs hbreak _ _ _ _)
  have hat := h {} _ _ hwalk 0 _ rfl
  unfold credAt at hat
  obtain ⟨s', cred, -, hcred⟩ := slotsOf_get (List.length_pos_of_ne_nil hne)
  rw [hcred] at hat
  obtain ⟨key, blob, hr⟩ := hat
  rw [hbroken] at h1
  exact absurd (h1.symm.trans hr) (by simp)

theorem CredsComplete.showableAt (h : CredsComplete e hash) (hne : usable e hash ≠ []) (k : Nat) :
    ShowableAt e hash k := by
  have hs := h.smooth hne
  induction k using Nat.strong_induction_on with
  | _ k ih =>
    intro s cred hslot
    by_contra hnot
    have hwalk := open_credWalk e k (hash_length hne)
    have hp : ((openSetting e, openRequest 0x04 (some hash)) ::
        List.replicate k (openSetting e, openRequest 0x05 none))[k]? =
        some (if k = 0 then (openSetting e, openRequest 0x04 (some hash))
          else (openSetting e, openRequest 0x05 none)) := by
      cases k with
      | zero => rfl
      | succ k => simp
    obtain ⟨status, herror⟩ := CredWalk.at_hidden hwalk hs {} hp ih hslot hnot
    have hat := h {} _ _ hwalk k _ hp
    unfold credAt at hat
    have hcred : (usable e hash)[k]? = some cred := by
      unfold usable
      rw [List.getElem?_map, hslot]
      rfl
    rw [hcred] at hat
    obtain ⟨key, blob, hr⟩ := hat
    exact absurd (herror.symm.trans hr) (by simp)

end Creds

/-! The counts. -/

theorem answer_metadata {e e' : Setting} {w : Walk} {req : Request} (hu : Unchanged e e')
    (hp : precheck req = none) (hsub : req.subcommand = 0x01)
    (hmay : mayRead e' req e'.paut.hasRpId = true) :
    (answer w (e', req)).1 = .metadata (existing e.storage) (256 - existing e.storage) := by
  simp only [answer, credMgmt, hp, hsub, getCredsMetadata, hmay, if_true, hu.storage]

theorem counted_iff {e : Setting} : Counted e ↔ occupied e.storage < 256 := by
  constructor
  · intro h
    obtain ⟨n, m, hr, hn, -⟩ := h {} (openSetting e) (openRequest 0x01 none)
      (openSetting_unchanged e) (openRequest_precheck 0x01 (by simp)) rfl (openSetting_mayRead _ _ _)
    rw [answer_metadata (openSetting_unchanged e) (openRequest_precheck 0x01 (by simp)) rfl
      (openSetting_mayRead _ _ _)] at hr
    have hexisting : existing e.storage = occupied e.storage := (Reply.metadata.inj hr).1.trans hn
    rw [← hexisting]
    exact Nat.mod_lt _ (by decide)
  · intro h w e' req hu hp hsub hmay
    have hexisting : existing e.storage = occupied e.storage := Nat.mod_eq_of_lt h
    refine ⟨_, _, answer_metadata hu hp hsub hmay, hexisting, ?_⟩
    omega

/-- Enumeration is complete and the counts are right exactly if the files can be listed. -/
theorem complete_iff_listable (e : Setting) : Complete e ↔ Listable e := by
  constructor
  · rintro ⟨hcount, hrps, hcreds⟩
    refine ⟨counted_iff.mp hcount, hrps.room, hrps.sources, fun hash hne => ?_⟩
    exact listed_of ((hcreds hash).smooth hne) fun k => (hcreds hash).showableAt hne k
  · intro h
    exact ⟨counted_iff.mpr h.spare, rpsComplete_of h.room h.sources,
      fun hash => credsComplete_of (h.slots hash)⟩

/-- A container of the relying party number `rp`. -/
def walletSlot (rp status : BitVec 8) : SlotFile where
  marker := true
  data := []
  objects :=
    { rpIdHash := .ok (List.replicate 32 rp)
      clientId := .ok (List.replicate 42 rp)
      credential := .ok [rp]
      publicKey := .ok [2]
      metadata := .ok []
      privateKey := .error .fileNotFound
      state := .ok ⟨status, 0, 0⟩ }

def walletSetting (slots : SlotIndex → Option SlotFile) : Setting where
  device :=
    { load := fun credId _ => some { rpId := some credId, userId := some [4], id := credId }
      parseMetadata := fun _ => none
      deriveResident := id
      openRp := fun _ _ => none }
  storage := ⟨slots, fun _ => none⟩
  paut := ⟨[], permissionCm, false, []⟩
  ppaut := ⟨[], 0⟩
  cid := 1
  verify := fun _ _ _ _ => true

/-- A container that was revoked, then another of the same RP and one of a second RP. -/
def revokedFirst : SlotIndex → Option SlotFile := fun i =>
  if i = 0 then some (walletSlot 1 Container.Resident.statusRevoked)
  else if i = 1 then some (walletSlot 1 0)
  else if i = 2 then some (walletSlot 2 0)
  else none

/-- With all slots taken the count is zero, and a first container that was revoked hides every RP. -/
theorem enumeration_incomplete :
    ¬ Complete (walletSetting fun _ => some (walletSlot 1 0)) ∧
    ¬ Complete (walletSetting revokedFirst) := by
  constructor
  · intro h
    have hfree := counted_iff.mp h.1
    exact absurd hfree (by decide +kernel)
  · intro h
    have hload := h.2.1.sources 0 (by decide +kernel)
    unfold SourceLoads at hload
    exact absurd hload (by decide +kernel)

end Mgmt

end Cred

end KeyWallet
