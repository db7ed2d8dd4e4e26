import Mathlib.Data.Fintype.Card
import KeyWallet.OathStore

/-! The store of the OATH application is a map from names to credentials: its commands do to the files
what the same command does to a finite map, as long as names are short and free and their lengths fit
where they are stored. -/
namespace KeyWallet.Oath.Store

open StepSystem
open Pages (Piece)
open Tlv (findItem findTag)

/-! The map. -/

abbrev NameMap := Finmap fun _ : Data => Cred

namespace Spec

def put (c : Crypto) (data : Data) (m : NameMap) : Sw × NameMap :=
  match findTag data tagKey with
  | none => (.incorrectParams, m)
  | some key =>
    if key.length < 2 then (.wrongData, m)
    else
      match findTag data tagName with
      | none => (.incorrectParams, m)
      | some name =>
        if isHotp key = true ∧ 65525 < data.length then (.wrongLength, m)
        else if name ∈ m ∨ m.keys.card < maxOathCred then
          (.ok, m.insert name (credOf c (putData data key)))
        else (.fileFull, m)

def delete (data : Data) (m : NameMap) : Sw × NameMap :=
  match findTag data tagName with
  | none => (.incorrectParams, m)
  | some name => if name ∈ m then (.ok, m.erase name) else (.dataInvalid, m)

/-- A name that is taken is refused. -/
def rename (data : Data) (m : NameMap) : Sw × NameMap :=
  match renameNames data with
  | .error sw => (sw, m)
  | .ok (name, newName) =>
    match m.lookup name with
    | none => (.dataInvalid, m)
    | some cred =>
      if newName ∈ m then (.wrongData, m) else (.ok, (m.erase name).insert newName cred)

def reset (p1 p2 : Nat) (m : NameMap) : Sw × NameMap :=
  if p1 ≠ 0xde ∨ p2 ≠ 0xad then (.incorrectP1P2, m) else (.ok, ∅)

def handleCmd (c : Crypto) (m : NameMap) : Cmd → Sw × NameMap
  | .put data => put c data m
  | .delete data => delete data m
  | .rename data => rename data m
  | .reset p1 p2 => reset p1 p2 m

def answer (c : Crypto) (m : NameMap) (r : Request) : Sw × NameMap :=
  if r.cmd.guarded && !r.validated then (.securityStatusNotSatisfied, m) else handleCmd c m r.cmd

end Spec

/-! The relation. -/

/-- CALCULATE ALL can answer for this key: its algorithm is known, or it is not asked for a code. -/
def Answers (plain : Data) (property : Option Data) : Prop :=
  mdInfo (plain.headD 0) ≠ none ∨ isHotp plain = true ∨ needsTouch property = true

/-- Data that every command can work with. In a container the key is never an encrypted one. -/
structure CredOk (c : Crypto) (legacy : Bool) (data name key plain : Data) : Prop where
  hasName : findTag data tagName = some name
  short : name.length ≤ 253
  hasKey : findTag data tagKey = some key
  opens : plainKey c key = some plain
  two : 2 ≤ plain.length
  answers : Answers plain (findTag data tagProperty)
  bare : legacy = false → keyIsSecure key = false
  small : legacy = true → key.length + secureKeyOverhead < 65536

structure EntryOk (c : Crypto) (e : Entry) : Prop where
  cred : ∃ name key plain, CredOk c e.legacy e.data name key plain
  indexed : e.legacy = false → Indexed e.data e.metadata
  size : e.data.length ≤ 65535 ∧ e.index.length ≤ 65535

/-- The files stand for this map. -/
structure Rep (c : Crypto) (s : Slots) (m : NameMap) : Prop where
  entry : ∀ k e, s k = some e → EntryOk c e
  unique : ∀ j k name, nameAt s j = some name → nameAt s k = some name → j = k
  stored : ∀ k e name, s k = some e → nameAt s k = some name → m.lookup name = some (credOf c e.data)
  only : ∀ name, m.lookup name ≠ none → ∃ k, nameAt s k = some name

section Relation

variable {c : Crypto} {s : Slots} {m : NameMap}

theorem EntryOk.index_name {e : Entry} (h : EntryOk c e) :
    findTag e.index tagName = findTag e.data tagName := by
  unfold Entry.index
  split_ifs with hl
  · rfl
  · exact (h.indexed (Bool.eq_false_of_not_eq_true hl)).name

theorem nameAt_of_entry {k : Index} {e : Entry} (hs : s k = some e) (he : EntryOk c e) :
    nameAt s k = findTag e.data tagName := by
  unfold nameAt
  rw [hs]
  show (if 65535 < e.index.length then none else findTag e.index tagName) = _
  rw [if_neg (Nat.not_lt.mpr he.size.2), he.index_name]

theorem Rep.named (h : Rep c s m) {k : Index} {e : Entry} (hs : s k = some e) :
    ∃ name, nameAt s k = some name ∧ name.length ≤ 253 := by
  obtain ⟨name, key, plain, hc⟩ := (h.entry k e hs).cred
  exact ⟨name, (nameAt_of_entry hs (h.entry k e hs)).trans hc.hasName, hc.short⟩

theorem nameAt_some {k : Index} {name : Data} (h : nameAt s k = some name) : ∃ e, s k = some e := by
  unfold nameAt at h
  obtain ⟨e, he, -⟩ := Option.bind_eq_some_iff.mp h
  exact ⟨e, he⟩

theorem Rep.findCred_iff (h : Rep c s m) {name : Data} {k : Index} :
    findCred s name = some k ↔ nameAt s k = some name := by
  constructor
  · intro hf
    have := List.find?_some hf
    simpa using this
  · intro hk
    cases hf : findCred s name with
    | none =>
      have hnone := List.find?_eq_none.mp hf k (List.mem_finRange k)
      simp [hk] at hnone
    | some j =>
      have hj : nameAt s j = some name := by
        have := List.find?_some hf
        simpa using this
      rw [h.unique j k name hj hk]

theorem findCred_none {name : Data} (hf : findCred s name = none) (k : Index) : nameAt s k ≠ some name := by
  have hnone := List.find?_eq_none.mp hf k (List.mem_finRange k)
  simpa using hnone

theorem Rep.mem_iff (h : Rep c s m) {name : Data} : name ∈ m ↔ ∃ k, nameAt s k = some name := by
  constructor
  · intro hm
    apply h.only
    rwa [Ne, Finmap.lookup_eq_none, not_not]
  · rintro ⟨k, hk⟩
    obtain ⟨e, he⟩ := nameAt_some hk
    exact Finmap.mem_of_lookup_eq_some (h.stored k e name he hk)

theorem Rep.findCred_none_iff (h : Rep c s m) {name : Data} : findCred s name = none ↔ name ∉ m := by
  rw [h.mem_iff]
  constructor
  · rintro hf ⟨k, hk⟩
    exact findCred_none hf k hk
  · intro hno
    cases hf : findCred s name with
    | none => rfl
    | some k => exact absurd ⟨k, h.findCred_iff.mp hf⟩ hno

theorem Rep.card (h : Rep c s m) : m.keys.card = (Finset.univ.filter fun k => (s k).isSome = true).card := by
  have himage : m.keys = (Finset.univ.filter fun k => (s k).isSome = true).image
      fun k => (nameAt s k).getD [] := by
    ext name
    rw [Finmap.mem_keys, h.mem_iff, Finset.mem_image]
    constructor
    · rintro ⟨k, hk⟩
      obtain ⟨e, he⟩ := nameAt_some hk
      refine ⟨k, ?_, ?_⟩
      · simp [he]
      · rw [hk]
        rfl
    · rintro ⟨k, hk, hname⟩
      obtain ⟨e, he⟩ := Option.isSome_iff_exists.mp (Finset.mem_filter.mp hk).2
      obtain ⟨n, hn, -⟩ := h.named he
      refine ⟨k, ?_⟩
      rw [hn] at hname
      rw [hn]
      exact congrArg some hname
  rw [himage, Finset.card_image_of_injOn]
  intro j hj k hk hjk
  obtain ⟨ej, hej⟩ := Option.isSome_iff_exists.mp (Finset.mem_filter.mp hj).2
  obtain ⟨ek, hek⟩ := Option.isSome_iff_exists.mp (Finset.mem_filter.mp hk).2
  obtain ⟨nj, hnj, -⟩ := h.named hej
  obtain ⟨nk, hnk, -⟩ := h.named hek
  have hsame : nj = nk := by
    have hx : (nameAt s j).getD [] = (nameAt s k).getD [] := hjk
    rwa [hnj, hnk] at hx
  exact h.unique j k nk (by rw [hnj, hsame]) hnk

theorem Rep.card_le (h : Rep c s m) : m.keys.card ≤ maxOathCred := by
  rw [h.card]
  have hle := Finset.card_filter_le (Finset.univ : Finset Index) fun k => (s k).isSome = true
  rwa [Finset.card_univ, Fintype.card_fin] at hle

theorem Rep.freeSlot_iff (h : Rep c s m) : (∃ k, freeSlot s = some k) ↔ m.keys.card < maxOathCred := by
  rw [h.card]
  constructor
  · rintro ⟨k, hk⟩
    have hnone : (s k).isNone = true := by
      have hfound := List.find?_some hk
      exact hfound
    have hlt : (Finset.univ.filter fun k => (s k).isSome = true) ⊂ (Finset.univ : Finset Index) := by
      refine Finset.filter_ssubset.mpr ⟨k, Finset.mem_univ k, ?_⟩
      rw [Option.isNone_iff_eq_none.mp hnone]
      exact Bool.false_ne_true
    have hcard := Finset.card_lt_card hlt
    rwa [Finset.card_univ, Fintype.card_fin] at hcard
  · intro hlt
    cases hf : freeSlot s with
    | some k => exact ⟨k, rfl⟩
    | none =>
      have hall : (Finset.univ.filter fun k => (s k).isSome = true) = (Finset.univ : Finset Index) := by
        apply Finset.filter_true_of_mem
        intro k _
        have hk := List.find?_eq_none.mp hf k (List.mem_finRange k)
        cases hs : s k with
        | none => simp [hs] at hk
        | some e => rfl
      rw [hall, Finset.card_univ, Fintype.card_fin] at hlt
      exact absurd hlt (Nat.lt_irrefl _)

theorem Rep.write (h : Rep c s m) {k : Index} {e : Entry} {name : Data} {m' : NameMap} (he : EntryOk c e)
    (hname : findTag e.data tagName = some name)
    (hfree : ∀ j, j ≠ k → nameAt s j ≠ some name)
    (hm : m'.lookup name = some (credOf c e.data))
    (hsame : ∀ n, n ≠ name → nameAt s k ≠ some n → m'.lookup n = m.lookup n)
    (hgone : ∀ n, n ≠ name → nameAt s k = some n → m'.lookup n = none) :
    Rep c (Function.update s k (some e)) m' := by
  have hk : nameAt (Function.update s k (some e)) k = some name := by
    rw [nameAt_of_entry (Function.update_self ..) he, hname]
  have hj : ∀ j, j ≠ k → nameAt (Function.update s k (some e)) j = nameAt s j := by
    intro j hjk
    unfold nameAt
    rw [Function.update_of_ne hjk]
  refine ⟨?_, ?_, ?_, ?_⟩
  · intro j e' he'
    by_cases hjk : j = k
    · subst hjk
      rw [Function.update_self, Option.some.injEq] at he'
      exact he' ▸ he
    · rw [Function.update_of_ne hjk] at he'
      exact h.entry j e' he'
  · intro i j n hi hjn
    by_cases hik : i = k
    · subst hik
      by_cases hjk : j = i
      · exact hjk.symm
      · rw [hk, Option.some.injEq] at hi
        rw [hj j hjk] at hjn
        exact absurd (hi ▸ hjn) (hfree j hjk)
    · rw [hj i hik] at hi
      by_cases hjk : j = k
      · subst hjk
        rw [hk, Option.some.injEq] at hjn
        exact absurd (hjn ▸ hi) (hfree i hik)
      · rw [hj j hjk] at hjn
        exact h.unique i j n hi hjn
  · intro j e' n he' hn
    by_cases hjk : j = k
    · subst hjk
      rw [Function.update_self, Option.some.injEq] at he'
      rw [hk, Option.some.injEq] at hn
      rw [← hn, ← he']
      exact hm
    · rw [Function.update_of_ne hjk] at he'
      rw [hj j hjk] at hn
      have hne : n ≠ name := by
        rintro rfl
        exact hfree j hjk hn
      rw [hsame n hne, h.stored j e' n he' hn]
      intro hkn
      exact hjk (h.unique j k n hn hkn)
  · intro n hn
    by_cases hne : n = name
    · subst hne
      exact ⟨k, hk⟩
    · by_cases hkn : nameAt s k = some n
      · exact absurd (hgone n hne hkn) hn
      · rw [hsame n hne hkn] at hn
        obtain ⟨j, hjn⟩ := h.only n hn
        refine ⟨j, ?_⟩
        rw [hj j, hjn]
        rintro rfl
        exact hkn hjn

end Relation

/-! Writing a credential. -/

/-- The credential and its metadata fit in 16 bits. -/
structure Sized (c : Crypto) (legacy : Bool) (data : Data) : Prop where
  short : data.length ≤ 65535
  file : legacy = true → (legacyData c data).length ≤ 65535
  hasRoom : legacy = true → ∀ key, findTag data tagKey = some key →
    key.length + 2 * secureKeyOverhead < 65536
  index : legacy = false → ∀ name key, findTag data tagName = some name →
    findTag data tagKey = some key →
    (metadataBytes name key (findTag data tagProperty) (hasPasswordSafe data)).length ≤ 65535

section Writing

variable {c : Crypto} {s : Slots} {m : NameMap} {data name key plain : Data}

theorem CredOk.key_ne {legacy : Bool} (h : CredOk c legacy data name key plain) : key ≠ [] := by
  rintro rfl
  have hp : plainKey c [] = some [] := rfl
  have hplain := h.opens
  rw [hp, Option.some.injEq] at hplain
  have htwo := h.two
  rw [← hplain] at htwo
  cases htwo

theorem CredOk.bare_eq (h : CredOk c false data name key plain) : key = plain := by
  have hplain := h.opens
  unfold plainKey at hplain
  rw [h.bare rfl, if_neg Bool.false_ne_true, Option.some.injEq] at hplain
  exact hplain

theorem CredOk.legacyData (h : CredOk c true data name key plain) (hsize : Sized c true data) :
    CredOk c true (legacyData c data) name (if keyIsSecure key then key else c.encrypt key) plain := by
  have hsmall := hsize.hasRoom rfl key h.hasKey
  have hover : secureKeyOverhead = 33 := rfl
  have hlt : key.length + secureKeyOverhead < 65536 := by omega
  refine ⟨?_, h.short, findTag_legacyData_key h.hasKey (fun _ => hlt), ?_, h.two, ?_, ?_, ?_⟩
  · rw [findTag_legacyData h.hasKey (fun _ => hlt) (by decide), h.hasName]
  · rw [plainKey_sealed c h.key_ne, h.opens]
  · rw [findTag_legacyData h.hasKey (fun _ => hlt) (by decide)]
    exact h.answers
  · intro hfalse
    cases hfalse
  · intro _
    split_ifs
    · exact hlt
    · rw [c.encrypt_length]
      omega

theorem entry_written {old : Option Entry} {legacy : Bool} (hold : old.any Entry.legacy = legacy)
    (h : CredOk c legacy data name key plain) (hsize : Sized c legacy data) :
    ∃ e, credentialWrite c old data = some e ∧ EntryOk c e ∧ findTag e.data tagName = some name ∧
      credOf c e.data = credOf c data := by
  unfold credentialWrite
  cases legacy with
  | true =>
    have hnew := h.legacyData hsize
    have hlt : key.length + secureKeyOverhead < 65536 := h.small rfl
    refine ⟨⟨true, Store.legacyData c data, []⟩, if_pos hold, ⟨⟨_, _, _, hnew⟩, ?_, ?_⟩, hnew.hasName, ?_⟩
    · intro hfalse
      cases hfalse
    · exact ⟨hsize.file rfl, hsize.file rfl⟩
    · exact credOf_legacyData h.hasKey h.key_ne fun _ => hlt
  | false =>
    have htwo : 2 ≤ key.length := by
      rw [h.bare_eq]
      exact h.two
    obtain ⟨index, hindex⟩ := metadata_some h.hasName h.hasKey htwo (hsize.index rfl name key h.hasName h.hasKey)
    have hlen : index.length ≤ 65535 := by
      unfold metadata at hindex
      rw [h.hasName, h.hasKey] at hindex
      dsimp only at hindex
      split_ifs at hindex
      rw [← Option.some.inj hindex]
      exact hsize.index rfl name key h.hasName h.hasKey
    have hne : ¬ old.any Entry.legacy = true := by
      rw [hold]
      exact Bool.false_ne_true
    refine ⟨⟨false, data, index⟩, ?_, ⟨⟨name, key, plain, h⟩, ?_, ?_⟩, h.hasName, rfl⟩
    · rw [if_neg hne, hindex]
      rfl
    · exact fun _ => metadata_indexed hindex
    · exact ⟨hsize.short, hlen⟩

theorem store_eq {k : Index} {legacy : Bool} (hold : (s k).any Entry.legacy = legacy)
    (h : CredOk c legacy data name key plain) (hsize : Sized c legacy data) :
    ∃ e, store c s k data = (.ok, Function.update s k (some e)) ∧ EntryOk c e ∧
      findTag e.data tagName = some name ∧ credOf c e.data = credOf c data := by
  obtain ⟨e, hw, he, hname, hcred⟩ := entry_written hold h hsize
  refine ⟨e, ?_, he, hname, hcred⟩
  unfold store
  rw [hw]

end Writing

/-! The conditions. -/

/-- The file that PUT writes. -/
def target (s : Slots) (name : Data) : Option Index := (findCred s name).or (freeSlot s)

/-- The name is at most 253 bytes long and not a bare tag that the counter would follow, the key does
not look like an encrypted one, its algorithm is known where a code is asked for, and all fits. -/
def PutMeets (c : Crypto) (s : Slots) (data : Data) : Prop :=
  ∀ key name, findTag data tagKey = some key → findTag data tagName = some name → 2 ≤ key.length →
    ¬ (isHotp key = true ∧ 65525 < data.length) →
    name.length ≤ 253 ∧ findTag (putData data key) tagName = some name ∧ keyIsSecure key = false ∧
      Answers key (findTag data tagProperty) ∧
      ∀ k, target s name = some k → Sized c ((s k).any Entry.legacy) (putData data key)

/-- The new name is free and at most 253 bytes long, its length fits where the old one is stored, and
the credential still fits. -/
def RenameMeets (c : Crypto) (s : Slots) (data : Data) : Prop :=
  ∀ name newName k e, renameNames data = .ok (name, newName) → findCred s name = some k →
    s k = some e →
    findCred s newName = none ∧ newName.length ≤ 253 ∧ Fits e.data newName.length ∧
      ∀ new, renameData e.data newName = some new → Sized c e.legacy new

def Meets (c : Crypto) (s : Slots) (r : Request) : Prop :=
  match r.cmd with
  | .put data => PutMeets c s data
  | .rename data => RenameMeets c s data
  | _ => True

section Steps

variable {c : Crypto} {s : Slots} {m : NameMap} {data : Data}

theorem answers_putData {key : Data} (h : Answers key (findTag data tagProperty)) :
    Answers key (findTag (putData data key) tagProperty) := by
  rcases h with h | h | h
  · exact .inl h
  · exact .inr (.inl h)
  · refine .inr (.inr ?_)
    cases hp : findTag data tagProperty with
    | none =>
      rw [hp] at h
      cases h
    | some p =>
      rw [hp] at h
      have hne : p ≠ [] := by
        rintro rfl
        cases h
      rw [findTag_putData hp hne (by decide)]
      exact h

theorem put_refines (h : Rep c s m) (hmeets : PutMeets c s data) :
    (cmdPut c data s).1 = (Spec.put c data m).1 ∧ Rep c (cmdPut c data s).2 (Spec.put c data m).2 := by
  unfold cmdPut Spec.put
  cases hkey : findTag data tagKey with
  | none => exact ⟨rfl, h⟩
  | some key =>
    dsimp only
    by_cases hlen : key.length < 2
    · rw [if_pos hlen, if_pos hlen]
      exact ⟨rfl, h⟩
    rw [if_neg hlen, if_neg hlen]
    cases hname : findTag data tagName with
    | none => exact ⟨rfl, h⟩
    | some name =>
      dsimp only
      by_cases hlong : isHotp key = true ∧ 65525 < data.length
      · rw [if_pos hlong, if_pos hlong]
        exact ⟨rfl, h⟩
      rw [if_neg hlong, if_neg hlong]
      obtain ⟨hshort, hputName, hbare, hanswers, hsized⟩ :=
        hmeets key name hkey hname (Nat.le_of_not_lt hlen) hlong
      have hkne : key ≠ [] := by
        rintro rfl
        exact hlen Nat.two_pos
      have hputKey : findTag (putData data key) tagKey = some key :=
        findTag_putData hkey hkne (by decide)
      have hplain : plainKey c key = some key := by
        unfold plainKey
        rw [hbare, if_neg Bool.false_ne_true]
      -- what is common to both kinds of files
      have hcred : ∀ k, target s name = some k →
          CredOk c ((s k).any Entry.legacy) (putData data key) name key key := by
        intro k hk
        refine ⟨hputName, hshort, hputKey, hplain, Nat.le_of_not_lt hlen, answers_putData hanswers,
          fun _ => hbare, ?_⟩
        intro hl
        have hroom := (hsized k hk).hasRoom hl key hputKey
        have hover : secureKeyOverhead = 33 := rfl
        omega
      cases hf : findCred s name with
      | some k =>
        have hin : name ∈ m := h.mem_iff.mpr ⟨k, h.findCred_iff.mp hf⟩
        have htarget : target s name = some k := by
          unfold target
          rw [hf]
          rfl
        obtain ⟨e, hstore, he, hen, hecred⟩ := store_eq rfl (hcred k htarget) (hsized k htarget)
        dsimp only
        rw [hstore, if_pos (.inl hin)]
        refine ⟨rfl, h.write he hen ?_ ?_ ?_ ?_⟩
        · intro j hjk hj
          exact hjk (h.unique j k name hj (h.findCred_iff.mp hf))
        · rw [Finmap.lookup_insert, hecred]
        · intro n hn _
          exact Finmap.lookup_insert_of_ne m hn
        · intro n hn hkn
          rw [h.findCred_iff.mp hf, Option.some.injEq] at hkn
          exact absurd hkn.symm hn
      | none =>
        have hnot : name ∉ m := h.findCred_none_iff.mp hf
        dsimp only
        cases hfree : freeSlot s with
        | none =>
          have hfull : ¬ (name ∈ m ∨ m.keys.card < maxOathCred) := by
            rintro (hin | hlt)
            · exact hnot hin
            · obtain ⟨k, hk⟩ := h.freeSlot_iff.mpr hlt
              rw [hfree] at hk
              cases hk
          rw [if_neg hfull]
          exact ⟨rfl, h⟩
        | some k =>
          have hlt : m.keys.card < maxOathCred := h.freeSlot_iff.mp ⟨k, hfree⟩
          have htarget : target s name = some k := by
            unfold target
            rw [hf, hfree]
            rfl
          obtain ⟨e, hstore, he, hen, hecred⟩ := store_eq rfl (hcred k htarget) (hsized k htarget)
          have hempty : nameAt s k = none := by
            have hk := List.find?_some hfree
            unfold nameAt
            rw [Option.isNone_iff_eq_none.mp hk]
            rfl
          dsimp only
          rw [hstore, if_pos (.inr hlt)]
          refine ⟨rfl, h.write he hen ?_ ?_ ?_ ?_⟩
          · intro j _ hj
            exact findCred_none hf j hj
          · rw [Finmap.lookup_insert, hecred]
          · intro n hn _
            exact Finmap.lookup_insert_of_ne m hn
          · intro n _ hkn
            rw [hempty] at hkn
            cases hkn

theorem delete_refines (h : Rep c s m) :
    (cmdDelete data s).1 = (Spec.delete data m).1 ∧ Rep c (cmdDelete data s).2 (Spec.delete data m).2 := by
  unfold cmdDelete Spec.delete
  cases hname : findTag data tagName with
  | none => exact ⟨rfl, h⟩
  | some name =>
    dsimp only
    cases hf : findCred s name with
    | none =>
      rw [if_neg (h.findCred_none_iff.mp hf)]
      exact ⟨rfl, h⟩
    | some k =>
      have hk : nameAt s k = some name := h.findCred_iff.mp hf
      rw [if_pos (h.mem_iff.mpr ⟨k, hk⟩)]
      dsimp only
      have hself : nameAt (Function.update s k none) k = none := by
        unfold nameAt
        rw [Function.update_self]
        rfl
      have hj : ∀ j, j ≠ k → nameAt (Function.update s k none) j = nameAt s j := by
        intro j hjk
        unfold nameAt
        rw [Function.update_of_ne hjk]
      -- a file that still has a name is another one
      have hother : ∀ j n, nameAt (Function.update s k none) j = some n → j ≠ k ∧ nameAt s j = some n := by
        intro j n hn
        have hjk : j ≠ k := by
          rintro rfl
          rw [hself] at hn
          cases hn
        exact ⟨hjk, (hj j hjk).symm.trans hn⟩
      refine ⟨rfl, ?_, ?_, ?_, ?_⟩
      · intro j e he
        have hjk : j ≠ k := by
          rintro rfl
          rw [Function.update_self] at he
          cases he
        rw [Function.update_of_ne hjk] at he
        exact h.entry j e he
      · intro i j n hi hjn
        exact h.unique i j n (hother i n hi).2 (hother j n hjn).2
      · intro j e n he hn
        obtain ⟨hjk, hn'⟩ := hother j n hn
        rw [Function.update_of_ne hjk] at he
        have hne : n ≠ name := by
          rintro rfl
          exact hjk (h.unique j k n hn' hk)
        rw [Finmap.lookup_erase_ne hne]
        exact h.stored j e n he hn'
      · intro n hn
        have hne : n ≠ name := by
          rintro rfl
          exact hn (Finmap.lookup_erase n m)
        rw [Finmap.lookup_erase_ne hne] at hn
        obtain ⟨j, hjn⟩ := h.only n hn
        have hjk : j ≠ k := by
          rintro rfl
          rw [hk, Option.some.injEq] at hjn
          exact hne hjn.symm
        exact ⟨j, (hj j hjk).trans hjn⟩

theorem rename_refines (h : Rep c s m) (hmeets : RenameMeets c s data) :
    (cmdRename c data s).1 = (Spec.rename data m).1 ∧
      Rep c (cmdRename c data s).2 (Spec.rename data m).2 := by
  unfold cmdRename Spec.rename
  cases hnames : renameNames data with
  | error sw => exact ⟨rfl, h⟩
  | ok names =>
    obtain ⟨name, newName⟩ := names
    dsimp only
    cases hf : findCred s name with
    | none =>
      have hnone : m.lookup name = none := Finmap.lookup_eq_none.mpr (h.findCred_none_iff.mp hf)
      rw [hnone]
      exact ⟨rfl, h⟩
    | some k =>
      have hk : nameAt s k = some name := h.findCred_iff.mp hf
      obtain ⟨e, he⟩ := nameAt_some hk
      have hstored := h.stored k e name he hk
      have heok := h.entry k e he
      obtain ⟨hnew, hshort, hfits, hsized⟩ := hmeets name newName k e hnames hf he
      obtain ⟨new, hrename, hnewName, hsame⟩ := renameData_fits hfits (by omega)
      have hsize := hsized new hrename
      obtain ⟨name0, key, plain, hc⟩ := heok.cred
      have hcred : CredOk c e.legacy new newName key plain := by
        refine ⟨hnewName, hshort, ?_, hc.opens, hc.two, ?_, hc.bare, hc.small⟩
        · rw [hsame tagKey (by decide), hc.hasKey]
        · rw [hsame tagProperty (by decide)]
          exact hc.answers
      have hold : (s k).any Entry.legacy = e.legacy := by
        rw [he]
        rfl
      obtain ⟨e', hstore, he', hen', hcred'⟩ := store_eq hold hcred hsize
      have hnotin : newName ∉ m := h.findCred_none_iff.mp hnew
      have htake : new.take (new.length % 65536) = new := by
        have hle := hsize.short
        rw [Nat.mod_eq_of_lt (by omega), List.take_length]
      rw [hstored]
      dsimp only
      rw [he]
      dsimp only
      rw [hrename, if_neg hnotin]
      dsimp only
      rw [htake, hstore]
      refine ⟨rfl, h.write he' hen' ?_ ?_ ?_ ?_⟩
      · intro j _ hj
        exact findCred_none hnew j hj
      · rw [Finmap.lookup_insert, hcred', credOf_rename c hsame]
      · intro n hn hkn
        rw [Finmap.lookup_insert_of_ne _ hn, Finmap.lookup_erase_ne]
        rintro rfl
        exact hkn hk
      · intro n hn hkn
        rw [hk, Option.some.injEq] at hkn
        rw [Finmap.lookup_insert_of_ne _ hn, ← hkn, Finmap.lookup_erase]

theorem Rep.empty (c : Crypto) : Rep c (fun _ => none) ∅ := by
  refine ⟨?_, ?_, ?_, ?_⟩
  · intro k e he
    cases he
  · intro j k name hj
    cases hj
  · intro k e name he
    cases he
  · intro name hn
    exact absurd (Finmap.lookup_empty name) hn

theorem answer_refines (h : Rep c s m) {r : Request} (hmeets : Meets c s r) :
    (answer c s r).1 = (Spec.answer c m r).1 ∧ Rep c (answer c s r).2 (Spec.answer c m r).2 := by
  unfold answer Spec.answer
  split_ifs
  · exact ⟨rfl, h⟩
  · unfold Meets at hmeets
    cases hr : r.cmd with
    | put data =>
      rw [hr] at hmeets
      exact put_refines h hmeets
    | delete data => exact delete_refines h
    | rename data =>
      rw [hr] at hmeets
      exact rename_refines h hmeets
    | reset p1 p2 =>
      show (cmdReset p1 p2 s).1 = (Spec.reset p1 p2 m).1 ∧ Rep c (cmdReset p1 p2 s).2 (Spec.reset p1 p2 m).2
      unfold cmdReset Spec.reset
      split_ifs
      · exact ⟨rfl, h⟩
      · exact ⟨rfl, Rep.empty c⟩

end Steps

/-! The lines of LIST and CALCULATE ALL. -/

section Gathered

variable {L K : Type} {f : Entry → Piece L}

theorem gathered_lines (bytes : L → Data) (key : L → K) (due : Entry → K) (es : List Entry)
    (h : ∀ e ∈ es, ∃ len l, f e = .line len l ∧ len ≤ responseMaxSize ∧ ∀ n, key (l n) = due e) :
    ∃ ls, gathered bytes f es = .ok ls ∧ ls.map key = es.map due := by
  have hfit : Pages.Fits responseMaxSize f es := by
    intro e he len l hl
    obtain ⟨len', l', hl', hle, -⟩ := h e he
    obtain ⟨rfl, -⟩ := Piece.line.inj (hl.symm.trans hl')
    exact hle
  have hline : ∀ e ∈ es, ∃ len l, f e = .line len l ∧ ∀ n, key (l n) = due e := by
    intro e he
    obtain ⟨len, l, hl, -, hkey⟩ := h e he
    exact ⟨len, l, hl, hkey⟩
  have hlines : ∃ ls, Pages.lines responseMaxSize (fun l => (bytes l).length) f 0 es = some ls ∧
      ls.map key = es.map due := Pages.lines_map 0 hline
  obtain ⟨ls, hls, hmap⟩ := hlines
  rw [← Pages.allPages_flatten (es.length + 1) hfit (Nat.lt_succ_self _)] at hls
  obtain ⟨pages, hp, hflat⟩ := Option.map_eq_some_iff.mp hls
  refine ⟨ls, ?_, hmap⟩
  unfold gathered
  rw [hp]
  dsimp only
  rw [hflat]

end Gathered

/-- The line of a credential in LIST. -/
def listLine (c : Crypto) (ext : Bool) (e : Entry) : Line :=
  ⟨(((findTag e.index tagKey).bind (plainKey c)).getD []).headD 0, (findTag e.data tagName).getD [],
    if ext then some (listProps e.index) else none⟩

section Shown

variable {c : Crypto} {s : Slots} {m : NameMap} {e : Entry}

theorem keyIsSecure_take (key : Data) : keyIsSecure (key.take 2) = false := by
  have hlen : (key.take 2).length ≤ 2 := by
    rw [List.length_take]
    omega
  have hover : secureKeyOverhead = 33 := rfl
  unfold keyIsSecure
  have hno : decide (secureKeyOverhead < (key.take 2).length) = false := by
    rw [decide_eq_false_iff_not]
    omega
  rw [hno, Bool.false_and]

theorem EntryOk.index_key {name key plain : Data} (h : EntryOk c e)
    (hc : CredOk c e.legacy e.data name key plain) :
    ∃ plain', (findTag e.index tagKey).bind (plainKey c) = some plain' ∧ 2 ≤ plain'.length ∧
      plain'.headD 0 = plain.headD 0 := by
  unfold Entry.index
  by_cases hl : e.legacy = true
  · rw [if_pos hl, hc.hasKey]
    exact ⟨plain, hc.opens, hc.two, rfl⟩
  · have hl' : e.legacy = false := Bool.eq_false_of_not_eq_true hl
    rw [hl'] at hc
    have hkey := hc.bare_eq
    rw [if_neg hl, (h.indexed hl').key, hc.hasKey]
    refine ⟨key.take 2, ?_, ?_, ?_⟩
    · show plainKey c (key.take 2) = some (key.take 2)
      unfold plainKey
      rw [keyIsSecure_take, if_neg Bool.false_ne_true]
    · rw [List.length_take, hkey]
      have := hc.two
      omega
    · rw [← hkey]
      cases key with
      | nil => rfl
      | cons a t => rfl

theorem listPiece_line (ext : Bool) (h : EntryOk c e) :
    ∃ len l, listPiece c ext e = .line len l ∧ len ≤ responseMaxSize ∧
      ∀ n, l n = listLine c ext e := by
  obtain ⟨name, key, plain, hc⟩ := h.cred
  obtain ⟨plain', hplain', htwo, hhead⟩ := h.index_key hc
  obtain ⟨key', hkey', hopen⟩ := Option.bind_eq_some_iff.mp hplain'
  have hname : findTag e.index tagName = some name := h.index_name.trans hc.hasName
  have hshort := hc.short
  have hmax : responseMaxSize = 2036 := rfl
  unfold listPiece listLine
  rw [if_neg (Nat.not_lt.mpr h.size.2), hname, hkey', hc.hasName]
  dsimp only [Option.bind_some]
  rw [hopen]
  dsimp only
  rw [if_neg (Nat.not_lt.mpr htwo)]
  cases ext with
  | true =>
    rw [if_neg (by simp only [if_true]; omega)]
    exact ⟨_, _, rfl, by simp only [if_true]; omega, fun _ => rfl⟩
  | false =>
    rw [if_neg (by simp only [Bool.false_eq_true, if_false]; omega)]
    exact ⟨_, _, rfl, by simp only [Bool.false_eq_true, if_false]; omega, fun _ => rfl⟩

theorem mdSize_le (md : Nat) : mdSize md ≤ 64 := by
  unfold mdSize
  split_ifs <;> omega

theorem calculatePiece_line (hmac : Nat → Data → Data → Data) (truncate : Bool) (challenge : Data)
    (h : EntryOk c e) :
    ∃ len l, calculatePiece c hmac truncate challenge e = .line len l ∧ len ≤ responseMaxSize ∧
      ∀ n, (l n).name = (findTag e.data tagName).getD [] := by
  obtain ⟨name, key, plain, hc⟩ := h.cred
  have hshort := hc.short
  have hmax : responseMaxSize = 2036 := rfl
  -- a code takes 67 bytes at most, and there is always something to say
  unfold calculatePiece
  rw [if_neg (Nat.not_lt.mpr h.size.1), hc.hasName, hc.hasKey]
  dsimp only
  rw [if_neg (by omega), hc.opens]
  dsimp only
  rw [if_neg (Nat.not_lt.mpr hc.two)]
  generalize hlen : (if (isHotp plain || needsTouch (findTag e.data tagProperty)) = true then 3
    else if truncate = true then 7
    else (mdInfo (plain.headD 0)).elim 0 fun md => mdSize md + 3) = len
  have hbound : 0 < len ∧ len ≤ 67 := by
    rw [← hlen]
    by_cases hquiet : (isHotp plain || needsTouch (findTag e.data tagProperty)) = true
    · rw [if_pos hquiet]
      omega
    · rw [if_neg hquiet]
      have hmd : mdInfo (plain.headD 0) ≠ none := by
        rcases hc.answers with hans | hans | hans
        · exact hans
        · rw [hans] at hquiet
          exact absurd rfl hquiet
        · rw [hans, Bool.or_true] at hquiet
          exact absurd rfl hquiet
      obtain ⟨md, hmd'⟩ := Option.ne_none_iff_exists'.mp hmd
      rw [hmd']
      have hmdSize := mdSize_le md
      show 0 < (if truncate = true then 7 else mdSize md + 3) ∧
        (if truncate = true then 7 else mdSize md + 3) ≤ 67
      split_ifs <;> omega
  rw [if_neg (by omega)]
  refine ⟨_, _, rfl, by omega, ?_⟩
  intro n
  split_ifs <;> rfl

theorem mem_present {k : Index} (hs : s k = some e) : e ∈ present s :=
  List.mem_filterMap.mpr ⟨k, List.mem_finRange k, hs⟩

theorem Rep.present_ok (h : Rep c s m) : ∀ e ∈ present s, EntryOk c e := by
  intro e he
  obtain ⟨k, -, hs⟩ := List.mem_filterMap.mp he
  exact h.entry k e hs

theorem Rep.names_nodup (h : Rep c s m) :
    ((present s).map fun e => (findTag e.data tagName).getD []).Nodup := by
  unfold present
  rw [List.map_filterMap]
  have hnodup : (List.finRange maxOathCred).Nodup := List.nodup_finRange maxOathCred
  refine List.Nodup.filterMap ?_ hnodup
  intro j k n hj hk
  obtain ⟨ej, hej, hnj⟩ := Option.map_eq_some_iff.mp (Option.mem_def.mp hj)
  obtain ⟨ek, hek, hnk⟩ := Option.map_eq_some_iff.mp (Option.mem_def.mp hk)
  obtain ⟨namej, hnamej, -⟩ := h.named hej
  obtain ⟨namek, hnamek, -⟩ := h.named hek
  have hj' : findTag ej.data tagName = some namej :=
    (nameAt_of_entry hej (h.entry j ej hej)).symm.trans hnamej
  have hk' : findTag ek.data tagName = some namek :=
    (nameAt_of_entry hek (h.entry k ek hek)).symm.trans hnamek
  rw [hj'] at hnj
  rw [hk'] at hnk
  have hsame : namej = namek := by
    have hx : namej = n := hnj
    have hy : namek = n := hnk
    rw [hx, hy]
  exact h.unique j k namek (by rw [hnamej, hsame]) hnamek

theorem Rep.mem_names (h : Rep c s m) (name : Data) :
    name ∈ (present s).map (fun e => (findTag e.data tagName).getD []) ↔ name ∈ m := by
  rw [h.mem_iff, List.mem_map]
  constructor
  · rintro ⟨e, he, hname⟩
    obtain ⟨k, -, hs⟩ := List.mem_filterMap.mp he
    obtain ⟨n, hn, -⟩ := h.named hs
    have hn' : findTag e.data tagName = some n := (nameAt_of_entry hs (h.entry k e hs)).symm.trans hn
    rw [hn'] at hname
    exact ⟨k, hn.trans (congrArg some hname)⟩
  · rintro ⟨k, hk⟩
    obtain ⟨e, he⟩ := nameAt_some hk
    refine ⟨e, mem_present he, ?_⟩
    have hn' : findTag e.data tagName = some name :=
      (nameAt_of_entry he (h.entry k e he)).symm.trans hk
    rw [hn']
    rfl

/-- LIST names each credential once, with its type, and CALCULATE ALL answers for each. -/
structure Shows (c : Crypto) (hmac : Nat → Data → Data → Data) (s : Slots) (m : NameMap) : Prop where
  list : ∀ ext, ∃ lines, cmdList c ext s = .ok lines ∧ (lines.map Line.name).Nodup ∧
    (∀ name, name ∈ lines.map Line.name ↔ name ∈ m) ∧
    ∀ l ∈ lines, ∃ cred plain, m.lookup l.name = some cred ∧ cred tagKey = some plain ∧
      l.type = plain.headD 0
  calculate : ∀ truncate challenge, ∃ results, cmdCalculateAll c hmac truncate challenge s = .ok results ∧
    (results.map Result.name).Nodup ∧ ∀ name, name ∈ results.map Result.name ↔ name ∈ m

theorem Rep.shows (h : Rep c s m) (hmac : Nat → Data → Data → Data) : Shows c hmac s m := by
  constructor
  · intro ext
    obtain ⟨lines, hlines, hmap⟩ := gathered_lines Line.bytes id (listLine c ext) (present s)
      fun e he => listPiece_line ext (h.present_ok e he)
    rw [List.map_id] at hmap
    have hnames : ((present s).map (listLine c ext)).map Line.name =
        (present s).map fun e => (findTag e.data tagName).getD [] := by
      rw [List.map_map]
      rfl
    rw [hmap] at hlines
    refine ⟨(present s).map (listLine c ext), hlines, ?_, ?_, ?_⟩
    · rw [hnames]
      exact h.names_nodup
    · intro name
      rw [hnames]
      exact h.mem_names name
    · intro l hl
      obtain ⟨e, he, rfl⟩ := List.mem_map.mp hl
      obtain ⟨k, -, hs⟩ := List.mem_filterMap.mp he
      have heok := h.entry k e hs
      obtain ⟨name, key, plain, hc⟩ := heok.cred
      obtain ⟨plain', hplain', -, hhead⟩ := heok.index_key hc
      have hk : nameAt s k = some name := (nameAt_of_entry hs heok).trans hc.hasName
      refine ⟨credOf c e.data, plain, ?_, ?_, ?_⟩
      · show m.lookup ((findTag e.data tagName).getD []) = _
        rw [hc.hasName]
        exact h.stored k e name hs hk
      · show (findTag e.data tagKey).bind (plainKey c) = some plain
        rw [hc.hasKey]
        exact hc.opens
      · show (((findTag e.index tagKey).bind (plainKey c)).getD []).headD 0 = plain.headD 0
        rw [hplain']
        exact hhead
  · intro truncate challenge
    obtain ⟨results, hresults, hmap⟩ := gathered_lines Result.bytes Result.name
      (fun e => (findTag e.data tagName).getD []) (present s)
      fun e he => calculatePiece_line hmac truncate challenge (h.present_ok e he)
    refine ⟨results, hresults, ?_, ?_⟩
    · rw [hmap]
      exact h.names_nodup
    · intro name
      rw [hmap]
      exact h.mem_names name

end Shown

/-! Runs. -/

/-- The answers of a run. -/
def answers {S : Type} (f : S → Request → Sw × S) : S → List Request → List Sw
  | _, [] => []
  | s, r :: rs => (f s r).1 :: answers f (f s r).2 rs

/-- The store after a sequence of commands that all meet the conditions is the map after the same
commands: the answers agree, the names are the same, and each is shown. -/
theorem store_is_map (c : Crypto) (hmac : Nat → Data → Data → Data) (s : Slots) (m : NameMap)
    (h : Rep c s m) (requests : List Request) (hrun : Along (step c) (Meets c) s requests) :
    answers (answer c) s requests = answers (Spec.answer c) m requests ∧
      Rep c (run (step c) s requests) (run (fun m r => (Spec.answer c m r).2) m requests) ∧
      (run (fun m r => (Spec.answer c m r).2) m requests).keys.card ≤ maxOathCred ∧
      Shows c hmac (run (step c) s requests) (run (fun m r => (Spec.answer c m r).2) m requests) := by
  induction requests generalizing s m with
  | nil => exact ⟨rfl, h, h.card_le, h.shows hmac⟩
  | cons r rs ih =>
    obtain ⟨hsw, hrep⟩ := answer_refines h hrun.1
    obtain ⟨hanswers, hrest⟩ := ih (step c s r) (Spec.answer c m r).2 hrep hrun.2
    refine ⟨?_, hrest⟩
    show (answer c s r).1 :: answers (answer c) (step c s r) rs = _ :: answers (Spec.answer c) _ rs
    rw [hsw, hanswers]

/-! Credentials with names of one letter. -/

/-- The encryption that puts a header in front. -/
def plainHeader : Data := [0x4f, 0x41, 0x54, 0x48, 1] ++ List.replicate 28 0

theorem plainCrypto_length (key : Data) : (plainHeader ++ key).length = key.length + secureKeyOverhead := by
  rw [List.length_append, Nat.add_comm]
  rfl

theorem plainCrypto_secure (key : Data) (h : key ≠ []) : keyIsSecure (plainHeader ++ key) = true := by
  have hpos : 0 < key.length := List.length_pos_iff.mpr h
  unfold keyIsSecure
  rw [plainCrypto_length, decide_eq_true (by omega)]
  rfl

theorem plainCrypto_open (key : Data) : some ((plainHeader ++ key).drop 33) = some key := rfl

def plainCrypto : Crypto where
  encrypt := fun key => plainHeader ++ key
  decrypt := fun data => some (data.drop 33)
  encrypt_length := plainCrypto_length
  secure := plainCrypto_secure
  decrypt_encrypt := plainCrypto_open

/-- A TOTP credential with SHA-1 and six digits. -/
def putLetter (letter : BitVec 8) : Request := ⟨true, .put [0x71, 1, letter, 0x73, 4, 0x21, 6, 7, 7]⟩

def renameLetter (old new : BitVec 8) : Request := ⟨true, .rename [0x71, 1, old, 0x71, 1, new]⟩

def emptySlots : Slots := fun _ => none

theorem putLetter_meets : Meets plainCrypto emptySlots (putLetter 0x61) := by
  intro key name hkey hname _ _
  have hkey' : findTag [0x71, 1, 0x61, 0x73, 4, 0x21, 6, 7, 7] tagKey = some [0x21, 6, 7, 7] := by decide
  have hname' : findTag [0x71, 1, 0x61, 0x73, 4, 0x21, 6, 7, 7] tagName = some [0x61] := by decide
  obtain rfl := Option.some.inj (hkey'.symm.trans hkey)
  obtain rfl := Option.some.inj (hname'.symm.trans hname)
  refine ⟨by decide, by decide, by decide, .inl (by decide), ?_⟩
  intro k _
  refine ⟨by decide, fun hl => ?_, fun hl => ?_, ?_⟩
  · cases hl
  · cases hl
  · intro _ name key hname hkey
    obtain rfl := Option.some.inj (hkey'.symm.trans hkey)
    obtain rfl := Option.some.inj (hname'.symm.trans hname)
    decide

/-- The credential behind the first PUT. -/
def letterEntry (letter : BitVec 8) : Entry :=
  ⟨false, [0x71, 1, letter, 0x73, 4, 0x21, 6, 7, 7], [0x71, 1, letter, 0x73, 2, 0x21, 6]⟩

theorem renameLetter_meets :
    Meets plainCrypto (step plainCrypto emptySlots (putLetter 0x61)) (renameLetter 0x61 0x63) := by
  intro name newName k e hnames hf hs
  have hnames' : renameNames [0x71, 1, 0x61, 0x71, 1, 0x63] = .ok ([0x61], [0x63]) := rfl
  have hpair := Except.ok.inj (hnames'.symm.trans hnames)
  obtain ⟨rfl, rfl⟩ := Prod.mk.inj hpair
  have hf' : findCred (step plainCrypto emptySlots (putLetter 0x61)) [0x61] = some ⟨0, by decide⟩ := rfl
  obtain rfl := Option.some.inj (hf'.symm.trans hf)
  have hs' : step plainCrypto emptySlots (putLetter 0x61) ⟨0, by decide⟩ = some (letterEntry 0x61) := rfl
  obtain rfl := Option.some.inj (hs'.symm.trans hs)
  have hfree : findCred (step plainCrypto emptySlots (putLetter 0x61)) [0x63] = none := by decide +kernel
  refine ⟨hfree, by decide, ?_, ?_⟩
  · have hlen : Tlv.LengthBytes ([0x61] : Data).length [1] := .one 1 (by decide) (by decide)
    have hplace : Tlv.Place tagName [0x71] [1] [0x61] [0x73, 4, 0x21, 6, 7, 7] :=
      .here (.short 0x71 (by decide)) hlen _
    exact ⟨_, _, _, _, hplace, rfl, .inl ⟨rfl, by decide, by decide⟩⟩
  · intro new hnew
    have hnew' : renameData (letterEntry 0x61).data [0x63] =
        some [0x71, 1, 0x63, 0x73, 4, 0x21, 6, 7, 7] := by decide
    obtain rfl := Option.some.inj (hnew'.symm.trans hnew)
    refine ⟨by decide, fun hl => ?_, fun hl => ?_, ?_⟩
    · cases hl
    · cases hl
    · intro _ name key hname hkey
      have hkey' : findTag [0x71, 1, 0x63, 0x73, 4, 0x21, 6, 7, 7] tagKey = some [0x21, 6, 7, 7] := by
        decide
      have hname' : findTag [0x71, 1, 0x63, 0x73, 4, 0x21, 6, 7, 7] tagName = some [0x63] := by decide
      obtain rfl := Option.some.inj (hkey'.symm.trans hkey)
      obtain rfl := Option.some.inj (hname'.symm.trans hname)
      decide

/-- A credential that is put and renamed. -/
theorem renamed_is_map :
    Along (step plainCrypto) (Meets plainCrypto) emptySlots [putLetter 0x61, renameLetter 0x61 0x63] ∧
      Shows plainCrypto (fun _ _ _ => [])
        (run (step plainCrypto) emptySlots [putLetter 0x61, renameLetter 0x61 0x63])
        (run (fun m r => (Spec.answer plainCrypto m r).2) ∅ [putLetter 0x61, renameLetter 0x61 0x63]) := by
  have hrun : Along (step plainCrypto) (Meets plainCrypto) emptySlots
      [putLetter 0x61, renameLetter 0x61 0x63] := ⟨putLetter_meets, renameLetter_meets, trivial⟩
  exact ⟨hrun, (store_is_map plainCrypto (fun _ _ _ => []) emptySlots ∅ (Rep.empty plainCrypto) _
    hrun).2.2.2⟩

/-- A name that is taken: both credentials have it then. -/
theorem rename_doubles_name :
    answers (answer plainCrypto) emptySlots [putLetter 0x61, putLetter 0x62, renameLetter 0x61 0x62] =
      [.ok, .ok, .ok] ∧
    cmdList plainCrypto false
        (run (step plainCrypto) emptySlots [putLetter 0x61, putLetter 0x62, renameLetter 0x61 0x62]) =
      .ok [⟨0x21, [0x62], none⟩, ⟨0x21, [0x62], none⟩] ∧
    ∀ hmac m, ¬ Shows plainCrypto hmac
      (run (step plainCrypto) emptySlots [putLetter 0x61, putLetter 0x62, renameLetter 0x61 0x62]) m := by
  have hanswers : answers (answer plainCrypto) emptySlots
      [putLetter 0x61, putLetter 0x62, renameLetter 0x61 0x62] = [.ok, .ok, .ok] := by
    decide +kernel
  have hlist : cmdList plainCrypto false
      (run (step plainCrypto) emptySlots [putLetter 0x61, putLetter 0x62, renameLetter 0x61 0x62]) =
      .ok [⟨0x21, [0x62], none⟩, ⟨0x21, [0x62], none⟩] := by
    rfl
  refine ⟨hanswers, hlist, ?_⟩
  intro hmac m hshows
  obtain ⟨lines, hlines, hnodup, -⟩ := hshows.list false
  rw [hlist, Except.ok.injEq] at hlines
  rw [← hlines] at hnodup
  exact absurd hnodup (by decide)

end KeyWallet.Oath.Store
