import KeyWallet.Assertion

/-! The walk of getNextAssertion over the credentials that a getAssertion without allowList has
found. -/
namespace KeyWallet

namespace Cred

namespace Assert

/-- The request passes the checks, the person is there when asked, and largeBlobKey is not refused. -/
structure Granted (e : Setting) (req : Request) : Prop where
  checks : checks e req = none
  present : presenceFails e req = false
  largeBlobKey : req.largeBlobKey ≠ some false

/-- The credentials of the RP that can be loaded, in the order of their files. -/
def allLoadable (e : Setting) (req : Request) : List Credential :=
  (rpSlots e (rpIdHash e req)).filterMap fun s =>
    (loadResident e.device s (rpIdHash e req)).toOption

/-- Those that credProtect admits without allowList. -/
def allUsable (e : Setting) (req : Request) : List Credential :=
  (allLoadable e req).filter (admitted (startFlags req) false)

/-- The search stops at the size of the list. -/
def loadable (e : Setting) (req : Request) : List Credential :=
  (allLoadable e req).take maxCredentialCountInList

/-- Those of them that credProtect admits: the filter comes after the search. -/
def usable (e : Setting) (req : Request) : List Credential :=
  (loadable e req).filter (admitted (startFlags req) false)

/-- The order of the walk: by the time that was recorded at the creation, the latest first. -/
def walkOrder (e : Setting) (req : Request) : List Credential :=
  ExchangeSort.sort (·.boardCreation) (usable e req)

/-- Responses with this credential can be built. -/
def Signs (e : Setting) (req : Request) (cred : Credential) : Prop :=
  ∀ next number flags, ∃ body, respond e req next cred true number flags = .ok body

theorem usable_length (e : Setting) (req : Request) :
    (usable e req).length ≤ maxCredentialCountInList :=
  (List.length_filter_le _ _).trans (List.length_take_le _ _)

theorem walkOrder_length (e : Setting) (req : Request) :
    (walkOrder e req).length = (usable e req).length := ExchangeSort.sort_length _ _

theorem locate_resident {e : Setting} {req : Request} (hlist : req.allowList = []) :
    locate e (rpIdHash e req) (startSilent req) req.allowList =
      .ok ⟨loadable e req, true, startSilent req && (loadable e req).isEmpty⟩ := by
  rw [hlist]
  rfl

/-- Up to the size of the list the number is that of the credentials. -/
theorem numberShown_eq {req : Request} {resident : Bool} {n : Nat}
    (halone : ¬ (resident = true ∧ 1 < req.allowList.length)) (hn : n ≤ maxCredentialCountInList) :
    numberShown req resident n = n := by
  unfold numberShown
  rw [if_neg halone]
  exact min_eq_left hn

theorem getAssertion_resident {e : Setting} {req : Request} (hlist : req.allowList = [])
    (hg : Granted e req) :
    getAssertion e req =
      match walkOrder e req with
      | [] => ⟨.error .noCredentials, .reset, pinAfter e req⟩
      | cred :: _ =>
        match respond e req false cred true (walkOrder e req).length (flagsAfter req) with
        | .error status => ⟨.error status, .reset, pinAfter e req⟩
        | .ok body => ⟨.ok body,
            if 1 < (walkOrder e req).length then
              beginWalk e req (walkOrder e req) true (walkOrder e req).length
            else .reset, pinAfter e req⟩ := by
  have hfilter : (loadable e req).filter (admitted (startFlags req) (req.allowList ≠ [])) =
      usable e req := by
    rw [hlist]
    rfl
  have hfound : ∀ l, numberFound e req l (usable e req) = (usable e req).length := by
    intro l
    unfold numberFound
    rw [if_neg (fun h => h.2.2 hlist)]
  have hshown : numberShown req true (usable e req).length = (walkOrder e req).length := by
    rw [walkOrder_length]
    exact numberShown_eq (by rw [hlist]; simp) (usable_length e req)
  unfold getAssertion
  simp only [hg.checks, locate_resident hlist, hfilter, hfound, hg.present, Bool.false_eq_true, if_false,
    hg.largeBlobKey, hshown, Bool.true_eq_false, and_false]
  cases hsilent : startSilent req && (loadable e req).isEmpty with
  | true =>
    -- nothing was loaded
    rw [Bool.and_eq_true, List.isEmpty_iff] at hsilent
    have hnone : usable e req = [] := by
      rw [usable, hsilent.2]
      rfl
    have horder : walkOrder e req = [] := by
      rw [walkOrder, hnone]
      rfl
    rw [hnone, horder, List.length_nil, if_pos rfl]
  | false =>
    simp only [Bool.false_eq_true, if_false]
    rw [show ExchangeSort.sort (·.boardCreation) (usable e req) = walkOrder e req from rfl]
    cases horder : walkOrder e req with
    | nil =>
      have hzero : (usable e req).length = 0 := by
        rw [← walkOrder_length, horder]
        rfl
      rw [if_pos hzero]
    | cons cred rest =>
      have hpos : (usable e req).length ≠ 0 := by
        rw [← walkOrder_length, horder]
        exact Nat.succ_ne_zero _
      exact if_neg hpos

/-- The walk before its `k`-th credential. -/
def walkAt (e : Setting) (req : Request) (k : Nat) (timer : BitVec 32) : Walk :=
  { beginWalk e req (walkOrder e req) true (walkOrder e req).length with counter := k, timer := timer }

/-- The response is that of this credential. -/
def AnswersWith (req : Request) (next : Bool) (number : Nat) (e : Setting) (cred : Credential)
    (r : Except Status Body) : Prop :=
  ∃ body, r = .ok body ∧ respond e req next cred true number (flagsAfter req) = .ok body ∧
    body.id = responseId e cred true

/-- A response names the credential and, where it is the first of several, their number. -/
theorem respond_fields {e : Setting} {req : Request} {next resident : Bool} {cred : Credential}
    {number : Nat} {flags : BitVec 8} {body : Body}
    (h : respond e req next cred resident number flags = .ok body) :
    body.id = responseId e cred resident ∧
      body.numberOfCredentials = totalOf req next resident number := by
  unfold respond at h
  dsimp only at h
  split_ifs at h
  all_goals
    split at h
    · cases h
    · split at h
      · cases h
      · split at h
        · cases h
        · cases h
          exact ⟨rfl, rfl⟩

theorem Signs.answers {e : Setting} {req : Request} {cred : Credential} (h : Signs e req cred)
    (next : Bool) (number : Nat) :
    AnswersWith req next number e cred (respond e req next cred true number (flagsAfter req)) := by
  obtain ⟨body, hbody⟩ := h next number (flagsAfter req)
  exact ⟨body, hbody, hbody, (respond_fields hbody).1⟩

theorem getNextAssertion_walkAt {e e' : Setting} {req : Request} {k : Nat} {timer : BitVec 32}
    (hpre : precheck req = none) (hk : k < (walkOrder e req).length) (hcid : e'.cid = e.cid)
    (hidle : Mgmt.idle e'.now timer = false) (hsigns : Signs e' req (walkOrder e req)[k]) :
    AnswersWith req true (walkOrder e req).length e' (walkOrder e req)[k]
        (getNextAssertion e' (walkAt e req k timer)).result ∧
      (getNextAssertion e' (walkAt e req k timer)).walk =
        if k + 1 = (walkOrder e req).length then .reset else walkAt e req (k + 1) e'.now := by
  obtain ⟨body, hbody, -, hid⟩ := hsigns.answers true (walkOrder e req).length
  have hnext : nextAssertion e' (walkAt e req k timer) req = .ok body := by
    unfold nextAssertion
    rw [hpre]
    dsimp only [walkAt, beginWalk]
    rw [List.take_of_length_le (Nat.le_refl _), List.getElem?_eq_getElem hk]
    exact hbody
  have hcall : getNextAssertion e' (walkAt e req k timer) = ⟨.ok body,
      if k + 1 = (walkOrder e req).length then .reset
      else { walkAt e req k timer with timer := e'.now, counter := k + 1 }, e'.pin⟩ := by
    unfold getNextAssertion
    dsimp only
    rw [if_neg (show ¬ (walkAt e req k timer).channel ≠ e'.cid from fun h => h hcid.symm),
      if_neg (show ¬ (walkAt e req k timer).number ≤ (walkAt e req k timer).counter from
        Nat.not_le.mpr hk), if_neg (show ¬ (walkAt e req k timer).idle e'.now = true by
        rw [Walk.idle, show (walkAt e req k timer).timer = timer from rfl, hidle]; simp)]
    dsimp only [walkAt, beginWalk] at hnext ⊢
    rw [hnext]
    rfl
  rw [hcall]
  exact ⟨⟨body, rfl, hbody, hid⟩, rfl⟩

theorem getNextAssertion_refused {e : Setting} {w : Walk}
    (h : w.channel ≠ e.cid ∨ w.number ≤ w.counter ∨ w.idle e.now = true) :
    getNextAssertion e w = ⟨.error .notAllowed, .reset, e.pin⟩ := by
  unfold getNextAssertion
  dsimp only
  by_cases hchannel : w.channel ≠ e.cid
  · rw [if_pos hchannel]
  · rw [if_neg hchannel]
    by_cases hcounter : w.number ≤ w.counter
    · rw [if_pos hcounter]
    · rw [if_neg hcounter, if_pos ((h.resolve_left hchannel).resolve_left hcounter)]

theorem getNextAssertion_reset (e : Setting) :
    getNextAssertion e .reset = ⟨.error .notAllowed, .reset, e.pin⟩ :=
  getNextAssertion_refused (.inr (.inl (Nat.le_refl 0)))

/-- The answers to getNextAssertion, one for each call, and the walk after them. -/
def answers : Walk → List Setting → List (Except Status Body) × Walk
  | w, [] => ([], w)
  | w, e :: es =>
    ((getNextAssertion e w).result :: (answers (getNextAssertion e w).walk es).1,
      (answers (getNextAssertion e w).walk es).2)

/-- Calls on one channel, none of them too long after the one before. -/
def Continues (cid : BitVec 32) : BitVec 32 → List Setting → Prop
  | _, [] => True
  | timer, e :: es => e.cid = cid ∧ Mgmt.idle e.now timer = false ∧ Continues cid e.now es

theorem answers_walkAt {e : Setting} {req : Request} (hpre : precheck req = none) :
    ∀ (es : List Setting) (k : Nat) (timer : BitVec 32), k < (walkOrder e req).length →
      k + es.length = (walkOrder e req).length → Continues e.cid timer es →
      (∀ e' ∈ es, ∀ cred ∈ walkOrder e req, Signs e' req cred) →
      List.Forall₂ (fun p r => AnswersWith req true (walkOrder e req).length p.1 p.2 r)
          (es.zip ((walkOrder e req).drop k)) (answers (walkAt e req k timer) es).1 ∧
        (answers (walkAt e req k timer) es).2 = .reset := by
  intro es
  induction es with
  | nil =>
    intro k timer hk hlen
    exact absurd hlen (Nat.ne_of_lt hk)
  | cons e' es ih =>
    intro k timer hk hlen hcont hsigns
    obtain ⟨hcid, hidle, hcont⟩ := hcont
    have hsign := hsigns e' List.mem_cons_self _ (List.getElem_mem hk)
    obtain ⟨hanswer, hwalk⟩ := getNextAssertion_walkAt hpre hk hcid hidle hsign
    rw [List.drop_eq_getElem_cons hk, List.zip_cons_cons]
    dsimp only [answers]
    rw [hwalk]
    rw [List.length_cons] at hlen
    by_cases hlast : k + 1 = (walkOrder e req).length
    · -- the last one: no calls are left
      have hnil : es = [] := List.length_eq_zero_iff.mp (by omega)
      subst hnil
      rw [if_pos hlast]
      exact ⟨.cons hanswer .nil, rfl⟩
    · rw [if_neg hlast]
      obtain ⟨hrest, hend⟩ := ih (k + 1) e'.now (by omega) (by omega) hcont
        (fun e'' he'' => hsigns e'' (List.mem_cons_of_mem _ he''))
      exact ⟨.cons hanswer hrest, hend⟩

theorem Granted.precheck {e : Setting} {req : Request} (hg : Granted e req) :
    precheck req = none :=
  (Option.or_eq_none_iff.mp (Option.or_eq_none_iff.mp hg.checks).1).1

theorem getAssertion_first {e : Setting} {req : Request} (hlist : req.allowList = [])
    (hg : Granted e req) (hsigns : ∀ cred ∈ usable e req, Signs e req cred) {first : Credential}
    {rest : List Credential} (horder : walkOrder e req = first :: rest) :
    AnswersWith req false (walkOrder e req).length e first (getAssertion e req).result ∧
      (getAssertion e req).walk =
        if 1 < (walkOrder e req).length then walkAt e req 1 e.now else .reset := by
  have hmem : first ∈ usable e req := by
    apply (ExchangeSort.sort_perm (·.boardCreation) (usable e req)).subset
    rw [show ExchangeSort.sort (·.boardCreation) (usable e req) = first :: rest from horder]
    exact List.mem_cons_self
  have hanswer := (hsigns first hmem).answers false (walkOrder e req).length
  obtain ⟨body, hbody, -, -⟩ := hanswer
  have hcall := getAssertion_resident hlist hg
  simp only [horder] at hcall hbody
  rw [hbody] at hcall
  rw [hcall, horder]
  refine ⟨⟨body, rfl, hbody, (respond_fields hbody).1⟩, ?_⟩
  unfold walkAt
  rw [horder]
  rfl

/-! A device with records of the old format, one in each of its first slots. -/

def plainCrypto : Crypto where
  sha256 _ := List.replicate 32 0
  verify _ _ _ _ := false
  silentTag _ _ := List.replicate 32 0
  derive _ seed := some seed
  deriveU2f _ _ := none
  readKey _ privateKey := some privateKey
  hash _ message := message
  ecdsa key _ _ := some key.secret
  eddsa key _ := some key.secret
  largeBlobKey seed := some seed
  encodeExt _ := []
  ecdh _ _ _ := none
  verifyHmacSecret _ _ _ _ := false
  decrypt _ _ _ := none
  encrypt _ _ data := data
  hmacKey _ := none
  hmac _ data := data

/-- No container: only the data of the file counts. -/
def noObjects : Objects where
  rpIdHash := .error .fileNotFound
  clientId := .error .fileNotFound
  credential := .error .fileNotFound
  publicKey := .error .fileNotFound
  metadata := .error .fileNotFound
  privateKey := .error .fileNotFound
  state := .error .fileNotFound

/-- The credential in slot `i` has the id `i` and was created at time `i`. -/
def recordDevice : Device where
  load id _ := some { id := id, boardCreation := (id.getD 0 0).toNat, curve := 1 }
  parseMetadata _ := none
  deriveResident id := id
  openRp _ _ := none

/-- `n` credentials of one RP. -/
def recordSetting (n : Nat) : Setting where
  crypto := plainCrypto
  device := recordDevice
  storage :=
    { slots := fun i => if i.val < n then
        some ⟨false, List.replicate 32 0 ++ [BitVec.ofNat 8 i.val], noObjects⟩ else none
      rps := fun _ => none }
  pin := ⟨⟨[], 0, false, []⟩, false, false, false⟩
  pinSet := false
  present := true
  now := 0
  cid := 7
  counter := 0

def plainRequest : Request := { rpId := some [], clientDataHash := some [] }

theorem recordSetting_signs (n : Nat) {cred : Credential} (hcurve : cred.curve = 1)
    (hkey : cred.privateKey = none) : Signs (recordSetting n) plainRequest cred := by
  intro next number flags
  have hsigning : signingKey (recordSetting n) (rpIdHash (recordSetting n) plainRequest) cred =
      some ⟨.secp256r1, Mgmt.keySeed cred⟩ := by
    unfold signingKey loadKey
    rw [hkey, hcurve]
    rfl
  unfold respond
  rw [hsigning]
  exact ⟨_, rfl⟩

end Assert

end Cred

end KeyWallet
