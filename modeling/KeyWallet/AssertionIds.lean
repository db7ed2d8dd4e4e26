import KeyWallet.CredProtect

/-! Whether the id and the signature of an assertion belong together, and to the list that the request has. -/
namespace KeyWallet

namespace Cred

namespace Assert

open Container (ObjErr)
open Container.Resident (Metadata)

/-- What credential_load gives: a credential with the id that was loaded, which is a sealed one. -/
structure Loads (e : Setting) (hash : Data) : Prop where
  sealed : Sealed e hash
  own : ∀ id cred, e.device.load id hash = some cred → cred.id = id ∧ cred.residentId = none
  nonempty : e.device.load [] hash = none

section Statement

variable (e : Setting) (req : Request)

/-- selcred. -/
def selected : Option Credential :=
  match locate e (rpIdHash e req) (startSilent req) req.allowList with
  | .error _ => none
  | .ok l =>
    let usable := l.creds.filter (admitted (startFlags req) (req.allowList ≠ []))
    if l.silent ∧ l.resident = false then none
    else (if l.silent then usable else ExchangeSort.sort (·.boardCreation) usable).head?

/-- This id is one of the list, or the resident id of a credential of the RP when there is no list, and it stands for
a credential with this key. -/
def Names (id : Data) (key : Key) : Prop :=
  ∃ own, signingKey e (rpIdHash e req) own = some key ∧
    if req.allowList = [] then
      ∃ s ∈ rpSlots e (rpIdHash e req), loadResident e.device s (rpIdHash e req) = .ok own ∧ id = responseId e own true
    else id ∈ publicKeyIds req.allowList ∧ listed e (rpIdHash e req) id = some own

/-- The response is signed with the key of the selected credential, and its id has that key. -/
def Genuine (body : Body) : Prop :=
  ∃ cred key, selected e req = some cred ∧ signingKey e (rpIdHash e req) cred = some key ∧
    sign e key (body.authData ++ req.clientDataHash.getD []) = some body.signature ∧ Names e req body.id key

/-- The ids of the list that load, each with its credential. -/
def loadedIds : List (Data × Credential) :=
  (publicKeyIds req.allowList).filterMap fun id => (listed e (rpIdHash e req) id).map (id, ·)

/-- The newest credential that credProtect admits, the first of them in the list, with the id that stands for it. -/
def newest : Option (Data × Credential) :=
  ExchangeSort.first (·.2.boardCreation) ((loadedIds e req).filter fun x => admitted (startFlags req) true x.2)

/-- Without options something of the list loads; and the newest credential is listed by its resident id, or no
resident credential is listed, or the resident id that is made of its id is listed too and has its key. -/
def AnsweredByName : Prop :=
  req.allowList ≠ [] →
    (req.options = none → loadedIds e req ≠ []) ∧
      ∀ id cred, newest e req = some (id, cred) →
        isResident id = true ∨ residentListed e req = false ∨
          ∃ key, signingKey e (rpIdHash e req) cred = some key ∧ Names e req (e.device.deriveResident id) key

end Statement

/-! The id under which a credential was found is the one that is told. -/
section Ids

variable {e : Setting} {hash : Data}

theorem loadContainer_residentId {d : Device} {s : SlotFile} {cred : Credential}
    (hload : loadContainer d s hash = .ok cred) :
    ∃ residentId, s.objects.clientId = .ok residentId ∧ residentLen ≤ residentId.length ∧
      cred.residentId = some (residentId.take residentLen) := by
  unfold loadContainer at hload
  split at hload
  · cases hload
  · cases hload
  · next residentId _ hclient =>
    refine ⟨residentId, hclient, ?_⟩
    split at hload
    · cases hload
    next hlong =>
    refine ⟨Nat.not_lt.mp hlong, ?_⟩
    split at hload
    · cases hload
    split at hload
    · -- imported: the metadata, and the objects beside it
      split at hload
      · cases hload
      · cases hload
      · split at hload
        · cases hload
        · cases hload
          rfl
    · split at hload
      · cases hload
      · cases hload
        rfl

theorem storedId_marker {d : Device} {s : SlotFile} {id residentId : Data} (hmarker : s.marker = true)
    (hclient : s.objects.clientId = .ok residentId) (hlong : residentLen ≤ residentId.length)
    (hlen : id.length = residentLen) (hstored : storedId d s = some id) : residentId.take residentLen = id := by
  have hopt : s.objects.clientId.toOption = some residentId := by
    rw [hclient]
    rfl
  unfold storedId at hstored
  rw [hopt, if_pos hmarker, if_pos hmarker] at hstored
  split at hstored
  · -- an imported credential goes by the whole of it
    have hid : residentId = id := Option.some.inj hstored
    rw [hid, ← hlen, List.take_length]
  · have hkept : (some residentId).filter (fun id => decide (residentLen ≤ id.length)) = some residentId :=
      Option.filter_some_pos (decide_eq_true hlong)
    rw [hkept] at hstored
    exact Option.some.inj hstored

theorem responseId_matched (hloads : Loads e hash) {s : SlotFile} {id : Data} {cred : Credential}
    (hmatch : matchesId e.device s id = true) (hload : loadResident e.device s hash = .ok cred) :
    responseId e cred true = id := by
  unfold matchesId at hmatch
  rw [Bool.and_eq_true, decide_eq_true_iff, decide_eq_true_iff] at hmatch
  obtain ⟨hlen, hstored⟩ := hmatch
  unfold loadResident at hload
  by_cases hmarker : s.marker = true
  · rw [if_pos hmarker] at hload
    split at hload
    · cases hload
    split at hload
    · cases hload
    obtain ⟨residentId, hclient, hlong, hresident⟩ := loadContainer_residentId hload
    have htake := storedId_marker hmarker hclient hlong hlen hstored
    unfold responseId
    rw [if_pos rfl, hresident, htake]
    rfl
  · rw [if_neg hmarker] at hload
    unfold storedId at hstored
    rw [if_neg hmarker, if_neg hmarker] at hstored
    split at hstored
    · cases hstored
    split at hload
    · cases hload
    by_cases hresident : isResident (s.data.drop rpIdHashLen) = true
    · rw [if_pos hresident] at hload
      by_cases hroom : rpIdHashLen + residentLen ≤ s.data.length
      · rw [if_pos ⟨hroom, hresident⟩] at hstored
        split at hload
        · cases hload
        · cases hload
          exact Option.some.inj hstored
      · -- nothing is left behind the head of the file
        have hempty : s.data.drop (rpIdHashLen + residentLen) = [] := List.drop_eq_nil_of_le (by omega)
        rw [hempty, hloads.nonempty] at hload
        cases hload
    · rw [if_neg hresident] at hload
      rw [if_neg (fun h => hresident h.2)] at hstored
      split at hstored
      · cases hown : e.device.load (s.data.drop rpIdHashLen) hash with
        | none =>
          rw [hown] at hload
          cases hload
        | some own =>
          rw [hown] at hload
          cases hload
          obtain ⟨hid, hnone⟩ := hloads.own _ _ hown
          unfold responseId
          rw [if_pos rfl, hnone, hid]
          exact Option.some.inj hstored
      · cases hstored

theorem responseId_listed (hloads : Loads e hash) {id : Data} {cred : Credential} (hresident : isResident id = true)
    (hlisted : listed e hash id = some cred) : responseId e cred true = id := by
  unfold listed at hlisted
  rw [if_pos hresident] at hlisted
  obtain ⟨s, -, hs⟩ := List.exists_of_findSome?_eq_some hlisted
  split at hs
  · next hmatch =>
    cases hload : loadResident e.device s hash with
    | error err =>
      rw [hload] at hs
      cases hs
    | ok own =>
      rw [hload] at hs
      cases hs
      exact responseId_matched hloads hmatch hload
  · cases hs

theorem responseId_full (hloads : Loads e hash) {id : Data} {cred : Credential} (hresident : isResident id = false)
    (hlisted : listed e hash id = some cred) (resident : Bool) :
    responseId e cred resident = if resident then e.device.deriveResident id else id := by
  unfold listed at hlisted
  rw [hresident, if_neg Bool.false_ne_true] at hlisted
  obtain ⟨hid, hnone⟩ := hloads.own _ _ hlisted
  unfold responseId
  rw [hnone, hid]
  rfl

end Ids

/-! The calls that succeed. -/
section Calls

variable {e : Setting} {req : Request} {body : Body}

theorem respond_signed {next resident : Bool} {cred : Credential} {number : Nat} {flags : BitVec 8}
    (h : respond e req next cred resident number flags = .ok body) :
    ∃ key, signingKey e (rpIdHash e req) cred = some key ∧
      sign e key (body.authData ++ req.clientDataHash.getD []) = some body.signature := by
  unfold respond at h
  dsimp only at h
  split_ifs at h
  all_goals
    split at h
    · cases h
    · split at h
      · cases h
      next key hkey =>
      split at h
      · cases h
      next signature hsign =>
      cases h
      exact ⟨key, hkey, hsign⟩

theorem getAssertion_ok (hok : (getAssertion e req).result = .ok body) :
    checks e req = none ∧ ∃ l, locate e (rpIdHash e req) (startSilent req) req.allowList = .ok l ∧
      numberFound e req l (l.creds.filter (admitted (startFlags req) (req.allowList ≠ []))) ≠ 0 ∧
      ((l.silent = true ∧ l.resident = false ∧ selected e req = none) ∨
        (¬ (l.silent = true ∧ l.resident = false) ∧ ∃ cred number, selected e req = some cred ∧
          respond e req false cred l.resident number (flagsAfter req) = .ok body)) := by
  unfold getAssertion at hok
  dsimp only at hok
  cases hchecks : checks e req with
  | some status =>
    rw [hchecks] at hok
    cases hok
  | none =>
    rw [hchecks] at hok
    dsimp only at hok
    cases hlocate : locate e (rpIdHash e req) (startSilent req) req.allowList with
    | error status =>
      rw [hlocate] at hok
      cases hok
    | ok l =>
      rw [hlocate] at hok
      dsimp only at hok
      refine ⟨rfl, l, rfl, ?_⟩
      unfold selected
      rw [hlocate]
      dsimp only
      split at hok
      · cases hok
      split at hok
      · cases hok
      next hfound =>
      refine ⟨hfound, ?_⟩
      split at hok
      · cases hok
      by_cases hbogus : l.silent = true ∧ l.resident = false
      · rw [if_pos hbogus]
        exact .inl ⟨hbogus.1, hbogus.2, rfl⟩
      · rw [if_neg hbogus] at hok ⊢
        refine .inr ⟨hbogus, ?_⟩
        split at hok
        · cases hok
        next cred rest hsorted =>
        refine ⟨cred, numberShown req l.resident (numberFound e req l
          (l.creds.filter (admitted (startFlags req) (req.allowList ≠ [])))), ?_⟩
        rw [hsorted]
        refine ⟨rfl, ?_⟩
        cases hrespond : respond e req false cred l.resident (numberShown req l.resident (numberFound e req l
            (l.creds.filter (admitted (startFlags req) (req.allowList ≠ []))))) (flagsAfter req) with
        | error status =>
          rw [hrespond] at hok
          cases hok
        | ok given =>
          rw [hrespond] at hok
          exact hok

theorem loadedIds_creds : (loadedIds e req).map Prod.snd = loadedList e req := by
  unfold loadedIds loadedList
  rw [List.map_filterMap]
  congr 1
  funext id
  cases listed e (rpIdHash e req) id <;> rfl

theorem newest_selected :
    (ExchangeSort.sort (·.boardCreation) ((loadedList e req).filter (admitted (startFlags req) true))).head? =
      (newest e req).map Prod.snd := by
  rw [ExchangeSort.sort_head?, ← loadedIds_creds, List.filter_map, ExchangeSort.first_map]
  rfl

theorem newest_listed {id : Data} {cred : Credential} (h : newest e req = some (id, cred)) :
    id ∈ publicKeyIds req.allowList ∧ listed e (rpIdHash e req) id = some cred := by
  have hmem := List.mem_of_mem_filter (ExchangeSort.first_mem _ h)
  obtain ⟨id', hid', hpair⟩ := List.mem_filterMap.mp hmem
  cases hlisted : listed e (rpIdHash e req) id' with
  | none =>
    rw [hlisted] at hpair
    cases hpair
  | some own =>
    rw [hlisted] at hpair
    cases hpair
    exact ⟨hid', hlisted⟩

theorem startSilent_asks (hasks : req.asks = true) (hsilent : startSilent req = true) : req.options = none := by
  cases hoptions : req.options with
  | none => rfl
  | some o =>
    unfold startSilent at hsilent
    unfold Request.asks Request.up at hasks
    rw [hoptions] at hsilent hasks
    have hup : (!(o.up.getD true)) = true := hsilent
    have hasked : o.up ≠ some false := of_decide_eq_true hasks
    cases hup' : o.up with
    | none =>
      rw [hup'] at hup
      cases hup
    | some up =>
      rw [hup'] at hup hasked
      cases up with
      | true => cases hup
      | false => exact (hasked rfl).elim

theorem genuine_unlisted (hlist : req.allowList = []) (hok : (getAssertion e req).result = .ok body) :
    Genuine e req body := by
  obtain ⟨-, l, hlocate, -, hends⟩ := getAssertion_ok hok
  rw [hlist] at hlocate
  have hl : l = locateResident e (rpIdHash e req) (startSilent req) := (Except.ok.inj hlocate).symm
  have hresident : l.resident = true := by
    rw [hl]
    rfl
  rcases hends with ⟨-, hnot, -⟩ | ⟨-, cred, number, hselected, hrespond⟩
  · rw [hresident] at hnot
    cases hnot
  · obtain ⟨key, hkey, hsign⟩ := respond_signed hrespond
    refine ⟨cred, key, hselected, hkey, hsign, cred, hkey, ?_⟩
    rw [if_pos hlist, (respond_fields hrespond).1, hresident]
    -- where the selected credential comes from
    have hmem : cred ∈ l.creds := by
      unfold selected at hselected
      rw [hlist, hlocate] at hselected
      dsimp only at hselected
      rw [if_neg (fun h => by rw [hresident] at h; exact Bool.false_ne_true h.2.symm)] at hselected
      split at hselected
      · exact List.mem_of_mem_filter (List.mem_of_head? hselected)
      · exact List.mem_of_mem_filter ((ExchangeSort.sort_perm _ _).subset (List.mem_of_head? hselected))
    rw [hl] at hmem
    obtain ⟨s, hs, hload⟩ := List.mem_filterMap.mp (List.mem_of_mem_take hmem)
    refine ⟨s, hs, ?_, rfl⟩
    cases hloaded : loadResident e.device s (rpIdHash e req) with
    | error err =>
      rw [hloaded] at hload
      cases hload
    | ok own =>
      rw [hloaded] at hload
      cases hload
      rfl

/-- An assertion for which the person is asked is genuine exactly where the newest credential is answered by a name
of the list. -/
theorem genuine_iff (hloads : Loads e (rpIdHash e req)) (hshort : req.allowList.length ≤ maxCredentialCountInList)
    (hasks : req.asks = true) (hok : (getAssertion e req).result = .ok body) :
    Genuine e req body ↔ AnsweredByName e req := by
  by_cases hlist : req.allowList = []
  · exact ⟨fun _ h => (h hlist).elim, fun _ => genuine_unlisted hlist hok⟩
  obtain ⟨-, l, hlocate, -, hends⟩ := getAssertion_ok hok
  have hcomplete : Complete req.allowList := by
    by_contra hincomplete
    rw [locate_incomplete ⟨hlist, hshort⟩ hloads.sealed hincomplete] at hlocate
    cases hlocate
  have hfound := locate_list ⟨hlist, hshort⟩ hloads.sealed hcomplete
  have hl : l = ⟨loadedList e req, residentListed e req, startSilent req && (loadedList e req).isEmpty⟩ :=
    Except.ok.inj (hlocate.symm.trans hfound)
  have hnone (hempty : loadedList e req = []) : loadedIds e req = [] := by
    have hmap : (loadedIds e req).map Prod.snd = loadedList e req := loadedIds_creds
    rw [hempty] at hmap
    exact List.map_eq_nil_iff.mp hmap
  rcases hends with ⟨hsilent, -, hselected⟩ | ⟨hloud, cred, number, hselected, hrespond⟩
  · -- nothing was loaded, and no options were given
    rw [hl] at hsilent
    obtain ⟨hstart, hempty⟩ := Bool.and_eq_true_iff.mp hsilent
    constructor
    · intro hgenuine
      obtain ⟨cred, -, hcred, -⟩ := hgenuine
      rw [hselected] at hcred
      cases hcred
    · intro hanswered
      exact ((hanswered hlist).1 (startSilent_asks hasks hstart) (hnone (List.isEmpty_iff.mp hempty))).elim
  · have hresidentOf (id : Data) (own : Credential) (hid : id ∈ publicKeyIds req.allowList)
        (hlisted : listed e (rpIdHash e req) id = some own) (hres : isResident id = true) :
        residentListed e req = true := by
      unfold residentListed
      rw [List.any_eq_true]
      refine ⟨id, hid, ?_⟩
      rw [hres, hlisted]
      rfl
    have hnotsilent : l.silent = false := by
      by_contra hsilent
      rw [Bool.not_eq_false] at hsilent
      apply hloud
      refine ⟨hsilent, ?_⟩
      rw [hl] at hsilent ⊢
      have hempty := List.isEmpty_iff.mp (Bool.and_eq_true_iff.mp hsilent).2
      dsimp only
      unfold residentListed
      rw [List.any_eq_false]
      intro id hid
      rw [List.filterMap_eq_nil_iff.mp hempty id hid]
      simp
    have hnewest : (newest e req).map Prod.snd = some cred := by
      rw [← newest_selected, ← hselected]
      unfold selected
      rw [hlocate]
      dsimp only
      rw [if_neg hloud, hnotsilent, if_neg Bool.false_ne_true, decide_eq_true hlist, hl]
    obtain ⟨⟨id, own⟩, hpair, howncred⟩ := Option.map_eq_some_iff.mp hnewest
    have hown : own = cred := howncred
    rw [hown] at hpair
    obtain ⟨hid, hlisted⟩ := newest_listed hpair
    obtain ⟨key, hkey, hsign⟩ := respond_signed hrespond
    have hbodyid := (respond_fields hrespond).1
    have hflag : l.resident = residentListed e req := by rw [hl]
    rw [hflag] at hbodyid
    have hsome : loadedIds e req ≠ [] := by
      intro hempty
      unfold newest at hpair
      rw [hempty] at hpair
      cases hpair
    have hnames : Names e req id key := by
      refine ⟨cred, hkey, ?_⟩
      rw [if_neg hlist]
      exact ⟨hid, hlisted⟩
    have hiff : Genuine e req body ↔ Names e req body.id key := by
      constructor
      · intro hgenuine
        obtain ⟨cred', key', hcred', hkey', -, hnamed⟩ := hgenuine
        rw [hselected] at hcred'
        cases hcred'
        rw [hkey] at hkey'
        cases hkey'
        exact hnamed
      · exact fun hnamed => ⟨cred, key, hselected, hkey, hsign, hnamed⟩
    rw [hiff, hbodyid]
    have hwhen : AnsweredByName e req ↔ isResident id = true ∨ residentListed e req = false ∨
        ∃ key, signingKey e (rpIdHash e req) cred = some key ∧ Names e req (e.device.deriveResident id) key := by
      constructor
      · exact fun h => (h hlist).2 id cred hpair
      · intro h _
        refine ⟨fun _ => hsome, ?_⟩
        intro id' cred' hpair'
        rw [hpair] at hpair'
        cases hpair'
        exact h
    rw [hwhen]
    cases hres : isResident id with
    | true =>
      rw [hresidentOf id cred hid hlisted hres, responseId_listed hloads hres hlisted]
      exact ⟨fun _ => .inl rfl, fun _ => hnames⟩
    | false =>
      rw [responseId_full hloads hres hlisted]
      cases hmixed : residentListed e req with
      | false => exact ⟨fun _ => .inr (.inl rfl), fun _ => hnames⟩
      | true =>
        rw [if_pos rfl]
        constructor
        · exact fun h => .inr (.inr ⟨key, hkey, h⟩)
        · intro h
          rcases h with hfalse | hfalse | ⟨key', hkey', hnamed⟩
          · cases hfalse
          · cases hfalse
          · rw [hkey] at hkey'
            cases hkey'
            exact hnamed

end Calls

/-! A device with one credential of the old format. -/

def storedName : Data := [0, 0, 0, 0, 0xf1, 0xd0, 0x02, 0x03] ++ List.replicate 34 0

/-- An id opens when its first byte is below 16; the credential was created at the time of that byte. -/
def namingDevice : Device where
  load id _ := match id with
    | [] => none
    | b :: rest => if rest.length + 1 = residentLen ∨ 16 ≤ b.toNat then none else
        some { id := id, boardCreation := b.toNat, curve := 1 }
  parseMetadata _ := none
  deriveResident id := 0xff :: id
  openRp _ _ := none

def namingSetting : Setting :=
  { recordSetting 0 with
    device := namingDevice
    storage :=
      { slots := fun i => if i.val = 0 then some ⟨false, List.replicate 32 0 ++ storedName ++ [3], noObjects⟩ else none
        rps := fun _ => none } }

theorem naming_loads (hash : Data) : Loads namingSetting hash := by
  refine ⟨?_, ?_, rfl⟩
  · intro id hload hlen
    cases id with
    | nil => cases hload
    | cons b rest =>
      have hnone : namingSetting.device.load (b :: rest) hash = none := if_pos (.inl hlen)
      rw [hnone] at hload
      cases hload
  · intro id cred hload
    cases id with
    | nil => cases hload
    | cons b rest =>
      dsimp only [namingSetting, namingDevice] at hload
      split_ifs at hload
      cases hload
      exact ⟨rfl, rfl⟩

/-- A request for these ids. -/
def namingRequest (ids : List Data) (options : Option Options) : Request :=
  { rpId := some [], clientDataHash := some [], allowList := ids.map fun id => ⟨some id, some true⟩, options := options }

def namingBody (id : Data) (signature : Data) : Body :=
  { id := id
    authData := List.replicate 32 0 ++ [1, 0, 0, 0, 0]
    signature := signature
    user := none
    numberOfCredentials := none
    largeBlobKey := none }

/-- Of three ids one does not open, and the newer one of the others is answered. -/
theorem listed_among : Genuine namingSetting (namingRequest [[20], [3], [7]] none)
    { namingBody [7] [7] with numberOfCredentials := some 2 } := by
  refine (genuine_iff (naming_loads _) (by decide) rfl (by rfl)).mpr ?_
  intro _
  refine ⟨fun _ => by decide, ?_⟩
  intro id cred _
  exact .inr (.inl (by rfl))

/-- An id with a silent tag that does not open. -/
def taggedName : Data := [0xf1, 0xd0, 0x02, 0x02] ++ List.replicate 44 0

/-- Beside a resident credential, a newer one is answered by an id that nobody has listed; and a request without
options for an id that only verifies silently is answered with the placeholder. -/
theorem mixed_list_misnamed :
    ((getAssertion namingSetting (namingRequest [storedName, [7]] (some {}))).result = .ok (namingBody [0xff, 7] [7]) ∧
      ¬ Genuine namingSetting (namingRequest [storedName, [7]] (some {})) (namingBody [0xff, 7] [7])) ∧
    ((getAssertion namingSetting (namingRequest [taggedName] none)).result = .ok
        (namingBody [0, 1, 0, 1, 0, 1, 0, 1, 0, 1, 0, 1, 0, 1, 0, 1] (List.replicate 64 0x0b)) ∧
      ∀ body, ¬ Genuine namingSetting (namingRequest [taggedName] none) body) := by
  refine ⟨⟨by rfl, ?_⟩, ⟨by rfl, ?_⟩⟩
  · intro hgenuine
    obtain ⟨cred, key, -, -, -, own, -, hnamed⟩ := hgenuine
    rw [if_neg (by decide)] at hnamed
    exact absurd hnamed.1 (by decide)
  · intro body hgenuine
    obtain ⟨cred, key, hselected, -⟩ := hgenuine
    have hnone : selected namingSetting (namingRequest [taggedName] none) = none := by rfl
    rw [hnone] at hselected
    cases hselected

end Assert

end Cred

end KeyWallet
