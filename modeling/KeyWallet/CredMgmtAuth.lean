import KeyWallet.CredMgmt

/-! Who may use credential management, over every run of requests. The tokens, the files and what the
storage answers may change between two requests in any way. -/
namespace KeyWallet

open StepSystem

namespace Cred

namespace Mgmt

/-- The request is an enumerateRPsBegin that is authorized. -/
def beginsRps (e : Setting) (req : Request) : Bool :=
  precheck req = none && req.subcommand = 0x02 && mayRead e req e.paut.hasRpId

/-- The RP ID hash of an enumerateCredentialsBegin that is authorized. -/
def beginsCreds (e : Setting) (req : Request) : Option Data :=
  if precheck req = none ∧ req.subcommand = 0x04 then
    req.rpIdHash.filter fun hash => mayRead e req (boundElsewhere e hash)
  else none

/-- The request goes on with the walk over the credentials. -/
def resumes (e : Setting) (req : Request) (w : Walk) : Bool :=
  precheck req = none && req.subcommand = 0x05 && w.credChannel = e.cid &&
    w.credCounter ≤ w.credTotal

/-- The response that ends a walk early. A large blob key that cannot be derived does not. -/
def breaksOff : Reply → Bool
  | .credential _ => false
  | .error .processing => false
  | _ => true

/-- The variables, and what has been seen of the requests: the channel of the last enumerateRPsBegin
that was authorized, the channel and the RP of the last such enumerateCredentialsBegin, and whether
its walk has broken off. -/
structure Session where
  walk : Walk := {}
  rpBegin : Option (BitVec 32) := none
  credBegin : Option (BitVec 32 × Data) := none
  broken : Bool := false
  deriving DecidableEq, Repr

/-- A request, or another command at this time. -/
inductive Input where
  | request (e : Setting) (req : Request)
  | other (now : BitVec 32)

/-- The response to a request in this state. -/
def Session.reply (s : Session) (e : Setting) (req : Request) : Reply :=
  (credMgmt e req (tick e.now s.walk)).1

/-- The files after it. -/
def Session.files (s : Session) (e : Setting) (req : Request) : Storage :=
  (credMgmt e req (tick e.now s.walk)).2.2

def step (s : Session) : Input → Session
  | .other now => { s with walk := tick now s.walk }
  | .request e req =>
    { walk := (credMgmt e req (tick e.now s.walk)).2.1
      rpBegin := if beginsRps e req then some req.channel else s.rpBegin
      credBegin := ((beginsCreds e req).map fun hash => (req.channel, hash)).or s.credBegin
      broken :=
        if (beginsCreds e req).isSome then breaksOff (s.reply e req)
        else if resumes e req (tick e.now s.walk) then s.broken || breaksOff (s.reply e req)
        else s.broken }

/-- The request would delete or update a credential of the RP that the token is bound to, and the
storage does its part. -/
def Serviceable (e : Setting) (req : Request) : Prop :=
  req.preview = false ∧ precheck req = none ∧ macVerifies e req e.paut.data = true ∧
  hasCm e = true ∧ e.paut.hasRpId = true ∧
  ∃ id i s, req.credentialId = some id ∧ findById e.device e.storage id = some (i, s) ∧
    residentRpIdHash s = .ok e.paut.rpIdHash ∧
    ((req.subcommand = 0x06 ∧ (deleteFound e i s e.paut.rpIdHash).1 = .done) ∨
      (req.subcommand = 0x07 ∧ ∃ cred, loadResident e.device s e.paut.rpIdHash = .ok cred ∧
        req.userId = some (cred.userId.getD []) ∧ (updateFound e req i s cred).1 = .done))

/-- The entry shows a credential of this RP. -/
def Shows (e : Setting) (hash : Data) (entry : Entry) : Prop :=
  ∃ i s cred key blob total, e.storage.slots i = some s ∧ residentRpIdHash s = .ok hash ∧
    loadResident e.device s hash = .ok cred ∧ entry = entryOf e cred key blob total

/-- The files change only at one slot, whose RP the token may manage. -/
def Permitted (e : Setting) (req : Request) (st : Storage) : Prop :=
  st ≠ e.storage → ∃ i f hash, e.storage.slots i = some f ∧ residentRpIdHash f = .ok hash ∧
    (∀ j ≠ i, st.slots j = e.storage.slots j) ∧ macVerifies e req e.paut.data = true ∧
    hasCm e = true ∧ (e.paut.hasRpId = false ∨ e.paut.rpIdHash = hash)

/-- What is asked of the response to a request. -/
structure Lawful (s : Session) (e : Setting) (req : Request) : Prop where
  written : Permitted e req (s.files e req)
  served : Serviceable e req → s.reply e req = .done
  rps : ∀ id idHash total, s.reply e req = .rp id idHash total →
    beginsRps e req = true ∨ (req.subcommand = 0x03 ∧ s.rpBegin = some req.channel)
  creds : ∀ entry, s.reply e req = .credential entry → ∃ hash, Shows e hash entry ∧
    (beginsCreds e req = some hash ∨
      (req.subcommand = 0x05 ∧ s.credBegin = some (req.channel, hash)))

def law (s : Session) : Input → Prop
  | .other _ => True
  | .request e req => req.preview = false → Lawful s e req

/-- A request that would be serviced names the RP of the token, the receive buffer still holds the
request while its walk is looked up, and a walk that has broken off is not resumed. -/
def sound (s : Session) : Input → Prop
  | .other _ => True
  | .request e req =>
    (Serviceable e req → req.rpIdHash = some e.paut.rpIdHash) ∧
    (0x02 ≤ req.subcommand → req.subcommand ≤ 0x05 → e.cid = req.channel) ∧
    (resumes e req (tick e.now s.walk) = true → s.broken = false)

/-! What the calls do with the variables. -/

/-- The variables of the walk over the relying parties are the same. -/
structure SameRps (w w' : Walk) : Prop where
  counter : w'.rpCounter = w.rpCounter
  total : w'.rpTotal = w.rpTotal
  channel : w'.rpChannel = w.rpChannel

/-- The variables of the walk over the credentials are the same. -/
structure SameCreds (w w' : Walk) : Prop where
  counter : w'.credCounter = w.credCounter
  total : w'.credTotal = w.credTotal
  channel : w'.credChannel = w.credChannel
  buffer : w'.rpIdHashx = w.rpIdHashx

section Calls

variable {e : Setting} {req : Request} {w : Walk}

theorem SameCreds.refl (w : Walk) : SameCreds w w := ⟨rfl, rfl, rfl, rfl⟩

theorem answerRp_creds (first : Bool) : SameCreds w (answerRp e w first).2 := by
  unfold answerRp
  split
  · exact .refl w
  · dsimp only
    split <;> exact ⟨rfl, rfl, rfl, rfl⟩

theorem answerRp_rps (first : Bool) : (answerRp e w first).2.rpChannel = w.rpChannel ∧
    (answerRp e w first).2.rpTotal = w.rpTotal ∧ w.rpCounter ≤ (answerRp e w first).2.rpCounter := by
  unfold answerRp
  split
  · exact ⟨rfl, rfl, Nat.le_refl _⟩
  · dsimp only
    split <;> exact ⟨rfl, rfl, Nat.le_succ _⟩

theorem seek_file {d : Device} {st : Storage} {hash : Option Data} {counter : Nat} {first : Bool}
    {is : List SlotIndex} {skip total : Nat} {file : Option SlotFile} {s : SlotFile}
    (hstart : ∀ f, file = some f → ∃ i, st.slots i = some f ∧ matchesRp f hash = true)
    (h : (seek d st hash counter first is skip total file).file = some s) :
    ∃ i, st.slots i = some s ∧ matchesRp s hash = true := by
  induction is generalizing skip total file with
  | nil => exact hstart s h
  | cons i is ih =>
    rw [seek] at h
    cases hi : st.slots i with
    | none =>
      simp only [hi] at h
      exact ih hstart h
    | some f =>
      simp only [hi] at h
      by_cases hm : matchesRp f hash = false
      · rw [if_pos hm] at h
        exact ih hstart h
      · rw [if_neg hm] at h
        -- the slot is of the RP, so it may be the one that is found
        have hor : ∀ g, file.or (some f) = some g →
            ∃ i, st.slots i = some g ∧ matchesRp g hash = true := by
          intro g hg
          cases file with
          | none => exact ⟨i, Option.some.inj hg ▸ hi, Option.some.inj hg ▸ eq_true_of_ne_false hm⟩
          | some f' => exact hstart g hg
        split at h
        · exact ih hstart h
        · exact hstart s h
        · split at h
          · exact hor s h
          · apply ih _ h
            intro g hg
            split at hg
            · exact hor g hg
            · exact hstart g hg

theorem matchesRp_eq {s : SlotFile} {hash : Option Data} (h : matchesRp s hash = true) :
    ∃ own, hash = some own ∧ residentRpIdHash s = .ok own := by
  unfold matchesRp at h
  split at h
  · next own own' hown =>
    exact ⟨own, rfl, of_decide_eq_true h ▸ hown⟩
  · exact absurd h (by decide)

/-- What the common part of the walk over the credentials does. -/
structure Answered (e : Setting) (hash : Option Data) (w : Walk) (r : Reply × Walk × Bool) : Prop where
  rps : SameRps w r.2.1
  channel : r.2.1.credChannel = w.credChannel
  buffer : r.2.1.rpIdHashx = w.rpIdHashx
  kept : breaksOff r.1 = false → r.2.1.credCounter ≤ r.2.1.credTotal → r.2.2 = true
  shows : ∀ entry, r.1 = .credential entry → ∃ own, hash = some own ∧ Shows e own entry
  no_rp : ∀ id idHash total, r.1 ≠ .rp id idHash total

theorem Answered.broken {hash : Option Data} {w' : Walk} {status : Status} (h : SameRps w w')
    (hchannel : w'.credChannel = w.credChannel) (hhash : w'.rpIdHashx = w.rpIdHashx)
    (hs : breaksOff (.error status) = true) : Answered e hash w (.error status, w', false) := by
  refine ⟨h, hchannel, hhash, fun hb => ?_, fun entry he => ?_, fun _ _ _ => by simp⟩
  · exact absurd (hb.symm.trans hs) (by decide)
  · exact absurd he (by simp)

theorem answerCredential_answered {own : Data} {s : SlotFile} {i : SlotIndex} (first : Bool)
    (hi : e.storage.slots i = some s) (hown : residentRpIdHash s = .ok own) :
    Answered e (some own) w (answerCredential e own s w first) := by
  unfold answerCredential
  cases hload : loadResident e.device s own with
  | error err => exact .broken ⟨rfl, rfl, rfl⟩ rfl rfl rfl
  | ok cred =>
    dsimp only
    cases publicKeyOf e s cred with
    | none => exact .broken ⟨rfl, rfl, rfl⟩ rfl rfl rfl
    | some key =>
      dsimp only
      cases encodeKey e cred key with
      | none => exact .broken ⟨rfl, rfl, rfl⟩ rfl rfl rfl
      | some publicKey =>
        dsimp only
        by_cases hk : w.credCounter + 1 ≤ w.credTotal
        · simp only [hk, if_true, decide_true]
          split
          · exact ⟨⟨rfl, rfl, rfl⟩, rfl, rfl, fun _ _ => rfl, fun entry he => absurd he (by simp),
              fun _ _ _ => by simp⟩
          · refine ⟨⟨rfl, rfl, rfl⟩, rfl, rfl, fun _ _ => rfl, fun entry he => ?_, fun _ _ _ => by simp⟩
            exact ⟨own, rfl, i, s, cred, _, _, _, hi, hown, hload, (Reply.credential.inj he).symm⟩
        · simp only [hk, if_false, decide_false]
          split
          · exact ⟨⟨rfl, rfl, rfl⟩, rfl, rfl, fun _ hle => absurd hle hk,
              fun entry he => absurd he (by simp), fun _ _ _ => by simp⟩
          · refine ⟨⟨rfl, rfl, rfl⟩, rfl, rfl, fun _ hle => absurd hle hk, fun entry he => ?_,
              fun _ _ _ => by simp⟩
            exact ⟨own, rfl, i, s, cred, _, _, _, hi, hown, hload, (Reply.credential.inj he).symm⟩

theorem answerPosition_answered (hash : Option Data) (first : Bool) :
    Answered e hash w (answerPosition e hash w first) := by
  unfold answerPosition
  dsimp only
  split
  · exact .broken ⟨rfl, rfl, rfl⟩ rfl rfl rfl
  · split
    · exact .broken ⟨rfl, rfl, rfl⟩ rfl rfl rfl
    · next s hs =>
      obtain ⟨i, hi, hm⟩ := seek_file (by simp) hs
      obtain ⟨own, rfl, hown⟩ := matchesRp_eq hm
      have h := answerCredential_answered (e := e)
        (w := { w with credTotal := (seek e.device e.storage (some own) w.credCounter first
          (List.finRange 256) 0 w.credTotal none).total }) first hi hown
      exact ⟨⟨h.rps.counter, h.rps.total, h.rps.channel⟩, h.channel, h.buffer, h.kept, h.shows,
        h.no_rp⟩

theorem credMgmt_rpsBegin (hp : precheck req = none) (hsub : req.subcommand = 0x02) :
    credMgmt e req w = ((enumerateRPsBegin e req w).1, (enumerateRPsBegin e req w).2, e.storage) := by
  simp only [credMgmt, hp, hsub]

theorem credMgmt_rpsNext (hp : precheck req = none) (hsub : req.subcommand = 0x03) :
    credMgmt e req w =
      ((enumerateRPsGetNextRP e w).1, (enumerateRPsGetNextRP e w).2, e.storage) := by
  simp only [credMgmt, hp, hsub]

theorem credMgmt_credsBegin (hp : precheck req = none) (hsub : req.subcommand = 0x04) :
    credMgmt e req w =
      ((enumerateCredentialsBegin e req w).1, (enumerateCredentialsBegin e req w).2, e.storage) := by
  simp only [credMgmt, hp, hsub]

theorem credMgmt_credsNext (hp : precheck req = none) (hsub : req.subcommand = 0x05) :
    credMgmt e req w = ((enumerateCredentialsGetNextCredential e w).1,
      (enumerateCredentialsGetNextCredential e w).2, e.storage) := by
  simp only [credMgmt, hp, hsub]

theorem credMgmt_delete (hp : precheck req = none) (hsub : req.subcommand = 0x06) :
    credMgmt e req w = ((deleteCredential e req).1, w, (deleteCredential e req).2) := by
  simp only [credMgmt, hp, hsub]

theorem credMgmt_update (hp : precheck req = none) (hsub : req.subcommand = 0x07) :
    credMgmt e req w = ((updateUserInformation e req).1, w, (updateUserInformation e req).2) := by
  simp only [credMgmt, hp, hsub]

/-- The request is none of those that walk. -/
def Plain (req : Request) : Prop :=
  precheck req ≠ none ∨ (req.subcommand ≠ 0x02 ∧ req.subcommand ≠ 0x03 ∧ req.subcommand ≠ 0x04 ∧
    req.subcommand ≠ 0x05)

theorem plain_cases (req : Request) : Plain req ∨ (precheck req = none ∧
    (req.subcommand = 0x02 ∨ req.subcommand = 0x03 ∨ req.subcommand = 0x04 ∨
      req.subcommand = 0x05)) := by
  unfold Plain
  tauto

theorem Plain.walk (h : Plain req) : (credMgmt e req w).2.1 = w := by
  unfold credMgmt
  split
  · rfl
  · next hp =>
    obtain ⟨h2, h3, h4, h5⟩ := h.resolve_left (not_not.mpr hp)
    split <;> first | rfl | contradiction

theorem Plain.begins (h : Plain req) : beginsRps e req = false ∧ beginsCreds e req = none ∧
    resumes e req w = false := by
  rcases h with hp | ⟨h2, h3, h4, h5⟩
  · simp [beginsRps, beginsCreds, resumes, hp]
  · simp [beginsRps, beginsCreds, resumes, h2, h4, h5]

/-! The subcommands that write. -/

theorem findById_slot {d : Device} {st : Storage} {id : Data} {i : SlotIndex} {s : SlotFile}
    (h : findById d st id = some (i, s)) : st.slots i = some s := by
  obtain ⟨j, -, hj⟩ := List.exists_of_findSome?_eq_some h
  obtain ⟨f, hf, hfound⟩ := Option.bind_eq_some_iff.mp hj
  split at hfound
  · obtain ⟨rfl, rfl⟩ := Prod.mk.inj (Option.some.inj hfound)
    exact hf
  · exact absurd hfound (by simp)

theorem setSlot_other {st : Storage} {i j : SlotIndex} (s : Option SlotFile) (h : j ≠ i) :
    (setSlot st i s).slots j = st.slots j :=
  Function.update_of_ne h _ _

theorem rpLegacyDecrement_slots (st : Storage) (hash : Data) :
    (rpLegacyDecrement e st hash).2.slots = st.slots := by
  unfold rpLegacyDecrement
  split
  · rfl
  · split <;> rfl

theorem deleteFound_other {i j : SlotIndex} (s : SlotFile) (hash : Data) (h : j ≠ i) :
    (deleteFound e i s hash).2.slots j = e.storage.slots j := by
  unfold deleteFound
  split
  · exact setSlot_other _ h
  · dsimp only
    split
    · exact setSlot_other _ h
    · rw [rpLegacyDecrement_slots]
      exact setSlot_other _ h

theorem updateFound_other {i j : SlotIndex} (s : SlotFile) (cred : Credential) (h : j ≠ i) :
    (updateFound e req i s cred).2.slots j = e.storage.slots j := by
  unfold updateFound
  split
  · rfl
  · split
    · rfl
    · exact setSlot_other _ h
    · exact setSlot_other _ h

theorem refuseWrite_none (h : refuseWrite e req = none) (hpreview : req.preview = false) :
    macVerifies e req e.paut.data = true ∧ hasCm e = true ∧
      (e.paut.hasRpId = true → req.rpIdHash = some e.paut.rpIdHash) := by
  unfold refuseWrite at h
  simp only [hpreview, Bool.false_eq_true, if_false] at h
  by_cases hmac : macVerifies e req e.paut.data = false
  · simp [hmac] at h
  · by_cases hcm : hasCm e = false
    · simp [hmac, hcm] at h
    · rw [if_neg hmac, if_neg hcm] at h
      refine ⟨eq_true_of_ne_false hmac, eq_true_of_ne_false hcm, fun hbound => ?_⟩
      rw [if_pos hbound] at h
      cases hhash : req.rpIdHash with
      | none => simp [hhash] at h
      | some hash =>
        by_cases hne : e.paut.rpIdHash ≠ hash
        · simp [hhash, hne] at h
        · rw [not_not.mp hne]

theorem refuseWrite_pass (hmac : macVerifies e req e.paut.data = true) (hcm : hasCm e = true)
    (hhash : req.rpIdHash = some e.paut.rpIdHash) : refuseWrite e req = none := by
  simp [refuseWrite, hmac, hcm, hhash]

theorem boundElsewhere_false {hash : Data} (h : ¬ (req.preview = false ∧ boundElsewhere e hash = true))
    (hpreview : req.preview = false) : e.paut.hasRpId = false ∨ e.paut.rpIdHash = hash := by
  by_cases hbound : e.paut.hasRpId = true
  · refine .inr (by_contra fun hne => h ⟨hpreview, ?_⟩)
    simp [boundElsewhere, hbound, hne]
  · exact .inl (eq_false_of_ne_true hbound)

theorem deleteCredential_permitted (hpreview : req.preview = false) :
    Permitted e req (deleteCredential e req).2 := by
  intro hchanged
  unfold deleteCredential at hchanged ⊢
  split at hchanged
  · exact absurd rfl hchanged
  · split at hchanged
    · exact absurd rfl hchanged
    · next hchecks =>
      obtain ⟨hmac, hcm, -⟩ := refuseWrite_none hchecks hpreview
      split at hchanged
      · exact absurd rfl hchanged
      · next i s hfound =>
        split at hchanged
        · exact absurd rfl hchanged
        · next hash hhash =>
          split at hchanged
          · exact absurd rfl hchanged
          · next hbound =>
            refine ⟨i, s, hash, findById_slot hfound, hhash, fun j hj => ?_, hmac, hcm,
              boundElsewhere_false hbound hpreview⟩
            rw [if_neg hbound]
            exact deleteFound_other s hash hj

theorem updateUserInformation_permitted (hpreview : req.preview = false) :
    Permitted e req (updateUserInformation e req).2 := by
  intro hchanged
  unfold updateUserInformation at hchanged ⊢
  split at hchanged
  · exact absurd rfl hchanged
  · exact absurd rfl hchanged
  · split at hchanged
    · exact absurd rfl hchanged
    · next hchecks =>
      obtain ⟨hmac, hcm, -⟩ := refuseWrite_none hchecks hpreview
      split at hchanged
      · exact absurd rfl hchanged
      · next i s hfound =>
        split at hchanged
        · exact absurd rfl hchanged
        · next hash hhash =>
          split at hchanged
          · exact absurd rfl hchanged
          · next cred hload =>
            split at hchanged
            · exact absurd rfl hchanged
            · next hbound =>
              refine ⟨i, s, hash, findById_slot hfound, hhash, fun j hj => ?_, hmac, hcm,
                boundElsewhere_false hbound hpreview⟩
              rw [if_neg hbound]
              split
              · rfl
              · exact updateFound_other s cred hj

theorem deleteCredential_done (h : Serviceable e req) (hsub : req.subcommand = 0x06)
    (hhash : req.rpIdHash = some e.paut.rpIdHash) : (deleteCredential e req).1 = .done := by
  obtain ⟨-, -, hmac, hcm, -, id, i, s, hid, hfound, hrp, hdone⟩ := h
  have hdelete : (deleteFound e i s e.paut.rpIdHash).1 = .done := by
    rcases hdone with ⟨-, hdone⟩ | ⟨h7, -⟩
    · exact hdone
    · omega
  simp [deleteCredential, hid, refuseWrite_pass hmac hcm hhash, hfound, hrp, boundElsewhere, hdelete]

theorem updateUserInformation_done (h : Serviceable e req) (hsub : req.subcommand = 0x07)
    (hhash : req.rpIdHash = some e.paut.rpIdHash) : (updateUserInformation e req).1 = .done := by
  obtain ⟨-, -, hmac, hcm, -, id, i, s, hid, hfound, hrp, hdone⟩ := h
  rcases hdone with ⟨h6, -⟩ | ⟨-, cred, hload, huser, hupdate⟩
  · omega
  · simp [updateUserInformation, hid, huser, refuseWrite_pass hmac hcm hhash, hfound, hrp, hload,
      boundElsewhere, hupdate]

/-- The response holds a relying party or a credential. -/
def enumerates : Reply → Bool
  | .rp _ _ _ => true
  | .credential _ => true
  | _ => false

theorem refuseWrite_enumerates {reply : Reply} (h : refuseWrite e req = some reply) :
    enumerates reply = false := by
  unfold refuseWrite at h
  split_ifs at h
  all_goals first
    | exact Option.some.inj h ▸ rfl
    | skip
  split at h
  · exact Option.some.inj h ▸ rfl
  · split_ifs at h
    exact Option.some.inj h ▸ rfl

theorem deleteFound_enumerates (i : SlotIndex) (s : SlotFile) (hash : Data) :
    enumerates (deleteFound e i s hash).1 = false := by
  unfold deleteFound
  split
  · rfl
  · dsimp only
    split
    · rfl
    · split <;> rfl

theorem updateFound_enumerates (i : SlotIndex) (s : SlotFile) (cred : Credential) :
    enumerates (updateFound e req i s cred).1 = false := by
  unfold updateFound
  split
  · rfl
  · split <;> rfl

theorem deleteCredential_enumerates : enumerates (deleteCredential e req).1 = false := by
  unfold deleteCredential
  split
  · rfl
  · split
    · next hr => exact refuseWrite_enumerates hr
    · split
      · rfl
      · split
        · rfl
        · split
          · rfl
          · exact deleteFound_enumerates _ _ _

theorem updateUserInformation_enumerates : enumerates (updateUserInformation e req).1 = false := by
  unfold updateUserInformation
  split
  · rfl
  · rfl
  · split
    · next hr => exact refuseWrite_enumerates hr
    · split
      · rfl
      · split
        · rfl
        · split
          · rfl
          · split_ifs
            · rfl
            · rfl
            · exact updateFound_enumerates _ _ _

theorem Plain.enumerates (h : Plain req) : enumerates (credMgmt e req w).1 = false := by
  unfold credMgmt
  split
  · rfl
  · next hp =>
    obtain ⟨h2, h3, h4, h5⟩ := h.resolve_left (not_not.mpr hp)
    split
    · unfold getCredsMetadata
      split <;> rfl
    · contradiction
    · contradiction
    · contradiction
    · contradiction
    · exact deleteCredential_enumerates
    · exact updateUserInformation_enumerates
    · rfl

theorem credMgmt_permitted (hpreview : req.preview = false) :
    Permitted e req (credMgmt e req w).2.2 := by
  unfold credMgmt
  split
  · exact fun h => absurd rfl h
  · split
    · exact fun h => absurd rfl h
    · exact fun h => absurd rfl h
    · exact fun h => absurd rfl h
    · exact fun h => absurd rfl h
    · exact fun h => absurd rfl h
    · exact deleteCredential_permitted hpreview
    · exact updateUserInformation_permitted hpreview
    · exact fun h => absurd rfl h

theorem credMgmt_served (h : Serviceable e req) (hhash : req.rpIdHash = some e.paut.rpIdHash) :
    (credMgmt e req w).1 = .done := by
  obtain ⟨-, hp, -, -, -, _, _, _, -, -, -, hdone⟩ := id h
  rcases hdone with ⟨hsub, -⟩ | ⟨hsub, -⟩
  · rw [credMgmt_delete hp hsub]
    exact deleteCredential_done h hsub hhash
  · rw [credMgmt_update hp hsub]
    exact updateUserInformation_done h hsub hhash

/-! The subcommands that walk. -/

theorem answerRp_no_credential (first : Bool) (entry : Entry) :
    (answerRp e w first).1 ≠ .credential entry := by
  unfold answerRp
  split <;> simp

theorem enumerateRPsBegin_refused (h : mayRead e req e.paut.hasRpId = false) :
    enumerateRPsBegin e req w = (.error .pinAuthInvalid, w) := by
  simp only [enumerateRPsBegin, h, if_true]

theorem enumerateRPsBegin_channel (h : mayRead e req e.paut.hasRpId = true) :
    (enumerateRPsBegin e req w).2.rpChannel = e.cid := by
  simp only [enumerateRPsBegin, h, Bool.true_eq_false, if_false]
  split
  · rfl
  · exact (answerRp_rps true).1

theorem enumerateRPsBegin_creds : SameCreds w (enumerateRPsBegin e req w).2 := by
  unfold enumerateRPsBegin
  split
  · exact .refl w
  · dsimp only
    split
    · exact ⟨rfl, rfl, rfl, rfl⟩
    · have h := answerRp_creds (e := e) (w := { w with
        rpCounter := 0, rpChannel := e.cid, index := (rpCount e.storage).1,
        rpTotal := (rpCount e.storage).1.length }) true
      exact ⟨h.counter, h.total, h.channel, h.buffer⟩

theorem enumerateRPsGetNextRP_creds : SameCreds w (enumerateRPsGetNextRP e w).2 := by
  unfold enumerateRPsGetNextRP
  split
  · exact .refl w
  · exact answerRp_creds false

theorem enumerateRPsGetNextRP_rps : (enumerateRPsGetNextRP e w).2.rpChannel = w.rpChannel ∧
    (enumerateRPsGetNextRP e w).2.rpTotal = w.rpTotal ∧
    w.rpCounter ≤ (enumerateRPsGetNextRP e w).2.rpCounter := by
  unfold enumerateRPsGetNextRP
  split
  · exact ⟨rfl, rfl, Nat.le_refl _⟩
  · exact answerRp_rps false

theorem enumerateRPsGetNextRP_admits (h : enumerates (enumerateRPsGetNextRP e w).1 = true) :
    w.rpChannel = e.cid ∧ w.rpCounter < w.rpTotal := by
  unfold enumerateRPsGetNextRP at h
  split at h
  · exact absurd h (by simp [enumerates])
  · next hadmit =>
    push Not at hadmit
    exact hadmit

theorem enumerateCredentialsBegin_refused {hash : Data} (hhash : req.rpIdHash = some hash)
    (h : mayRead e req (boundElsewhere e hash) = false) :
    enumerateCredentialsBegin e req w = (.error .pinAuthInvalid, w) := by
  simp only [enumerateCredentialsBegin, hhash, h, if_true]

theorem enumerateCredentialsBegin_no_rp (id idHash : Data) (total : Option Nat) :
    (enumerateCredentialsBegin e req w).1 ≠ .rp id idHash total := by
  unfold enumerateCredentialsBegin
  split
  · simp
  · split
    · simp
    · exact (answerPosition_answered _ true).no_rp id idHash total

theorem enumerateCredentialsGetNextCredential_no_rp (id idHash : Data) (total : Option Nat) :
    (enumerateCredentialsGetNextCredential e w).1 ≠ .rp id idHash total := by
  unfold enumerateCredentialsGetNextCredential
  split
  · simp
  · exact (answerPosition_answered _ false).no_rp id idHash total

theorem enumerateRPsBegin_no_credential (entry : Entry) :
    (enumerateRPsBegin e req w).1 ≠ .credential entry := by
  unfold enumerateRPsBegin
  split
  · simp
  · dsimp only
    split
    · simp
    · exact answerRp_no_credential true entry

theorem enumerateRPsGetNextRP_no_credential (entry : Entry) :
    (enumerateRPsGetNextRP e w).1 ≠ .credential entry := by
  unfold enumerateRPsGetNextRP
  split
  · simp
  · exact answerRp_no_credential false entry

theorem enumerateCredentialsBegin_spec {hash : Data} (hhash : req.rpIdHash = some hash)
    (h : mayRead e req (boundElsewhere e hash) = true) :
    SameRps w (enumerateCredentialsBegin e req w).2 ∧
    (enumerateCredentialsBegin e req w).2.credChannel = e.cid ∧
    (breaksOff (enumerateCredentialsBegin e req w).1 = false →
      (enumerateCredentialsBegin e req w).2.credCounter ≤
        (enumerateCredentialsBegin e req w).2.credTotal →
      (enumerateCredentialsBegin e req w).2.rpIdHashx = .live hash) ∧
    ∀ entry, (enumerateCredentialsBegin e req w).1 = .credential entry → Shows e hash entry := by
  have hans := answerPosition_answered (e := e)
    (w := { w with credCounter := 1, credTotal := 0, credChannel := e.cid }) (some hash) true
  simp only [enumerateCredentialsBegin, hhash, h, Bool.true_eq_false, if_false]
  generalize answerPosition e (some hash) _ true = r at hans ⊢
  have hshows : ∀ entry, r.1 = .credential entry → Shows e hash entry := by
    intro entry he
    obtain ⟨own, hown, hs⟩ := hans.shows entry he
    exact Option.some.inj hown ▸ hs
  by_cases hk : r.2.2 = true
  · simp only [hk, if_true]
    exact ⟨⟨hans.rps.counter, hans.rps.total, hans.rps.channel⟩, hans.channel, fun _ _ => trivial,
      hshows⟩
  · simp only [hk, if_false, Bool.false_eq_true]
    exact ⟨⟨hans.rps.counter, hans.rps.total, hans.rps.channel⟩, hans.channel,
      fun hb hle => absurd (hans.kept hb hle) hk, hshows⟩

theorem enumerateCredentialsGetNextCredential_refused
    (h : w.credChannel ≠ e.cid ∨ w.credTotal < w.credCounter) :
    enumerateCredentialsGetNextCredential e w = (.error .notAllowed, w) := by
  simp only [enumerateCredentialsGetNextCredential, h, if_true]

theorem enumerateCredentialsGetNextCredential_spec {hash : Data} (hhash : w.rpIdHashx = .live hash)
    (h : w.credChannel = e.cid ∧ w.credCounter ≤ w.credTotal) :
    SameRps w (enumerateCredentialsGetNextCredential e w).2 ∧
    (enumerateCredentialsGetNextCredential e w).2.credChannel = w.credChannel ∧
    (breaksOff (enumerateCredentialsGetNextCredential e w).1 = false →
      (enumerateCredentialsGetNextCredential e w).2.credCounter ≤
        (enumerateCredentialsGetNextCredential e w).2.credTotal →
      (enumerateCredentialsGetNextCredential e w).2.rpIdHashx = .live hash) ∧
    ∀ entry, (enumerateCredentialsGetNextCredential e w).1 = .credential entry →
      Shows e hash entry := by
  have hans := answerPosition_answered (e := e) (w := w) (some hash) false
  have hadmit : ¬ (w.credChannel ≠ e.cid ∨ w.credTotal < w.credCounter) := by
    rintro (hc | hc)
    · exact hc h.1
    · exact absurd h.2 (Nat.not_le.mpr hc)
  simp only [enumerateCredentialsGetNextCredential, if_neg hadmit, hhash, Buffer.read]
  generalize answerPosition e (some hash) w false = r at hans ⊢
  have hlive : r.2.1.rpIdHashx = .live hash := hans.buffer.trans hhash
  have hshows : ∀ entry, r.1 = .credential entry → Shows e hash entry := by
    intro entry he
    obtain ⟨own, hown, hs⟩ := hans.shows entry he
    exact Option.some.inj hown ▸ hs
  by_cases hk : r.2.2 = true
  · simp only [hk, true_or, if_true]
    exact ⟨hans.rps, hans.channel, fun _ _ => hlive, hshows⟩
  · simp only [hk, hlive, Bool.false_eq_true, false_or, reduceCtorEq, if_false]
    exact ⟨⟨hans.rps.counter, hans.rps.total, hans.rps.channel⟩, hans.channel,
      fun hb hle => absurd (hans.kept hb hle) hk, hshows⟩

end Calls

/-- A walk that has anything left belongs to the last Begin that was authorized. -/
structure Inv (s : Session) : Prop where
  rps : s.walk.rpCounter < s.walk.rpTotal → s.rpBegin = some s.walk.rpChannel
  creds : s.walk.credCounter ≤ s.walk.credTotal →
    ∃ hash, s.credBegin = some (s.walk.credChannel, hash) ∧
      (s.broken = false → s.walk.rpIdHashx = .live hash)

theorem Inv.start : Inv {} := ⟨fun h => absurd h (by decide), fun h => absurd h (by decide)⟩

theorem Inv.tick {s : Session} (h : Inv s) (now : BitVec 32) :
    Inv { s with walk := tick now s.walk } := by
  by_cases hr : (s.walk.rpWalkActive && idle now s.walk.rpTimer) = true
  · by_cases hc : (s.walk.credWalkActive && idle now s.walk.credTimer) = true
    · simp only [Mgmt.tick, hr, hc, if_true]
      exact ⟨fun hlt => absurd hlt (Nat.lt_irrefl _), fun hle => absurd hle (Nat.not_succ_le_self _)⟩
    · simp only [Mgmt.tick, hr, hc, if_true, if_false, Bool.false_eq_true]
      exact ⟨fun hlt => absurd hlt (Nat.lt_irrefl _), h.creds⟩
  · by_cases hc : (s.walk.credWalkActive && idle now s.walk.credTimer) = true
    · simp only [Mgmt.tick, hr, hc, if_true, if_false, Bool.false_eq_true]
      exact ⟨h.rps, fun hle => absurd hle (Nat.not_succ_le_self _)⟩
    · simp only [Mgmt.tick, hr, hc, if_false, Bool.false_eq_true]
      exact h

section Steps

variable {s : Session} {e : Setting} {req : Request}

theorem Inv.same_creds {w' : Walk} {rpBegin : Option (BitVec 32)} (h : Inv s)
    (hsame : SameCreds s.walk w') (hrps : w'.rpCounter < w'.rpTotal → rpBegin = some w'.rpChannel) :
    Inv { s with walk := w', rpBegin := rpBegin } := by
  refine ⟨hrps, fun hle => ?_⟩
  dsimp only at hle ⊢
  rw [hsame.counter, hsame.total] at hle
  obtain ⟨hash, hbegin, hlive⟩ := h.creds hle
  exact ⟨hash, hsame.channel ▸ hbegin, fun hb => hsame.buffer.trans (hlive hb)⟩

theorem Inv.same_rps {w' : Walk} {credBegin : Option (BitVec 32 × Data)} {broken : Bool} (h : Inv s)
    (hsame : SameRps s.walk w') (hcreds : w'.credCounter ≤ w'.credTotal →
      ∃ hash, credBegin = some (w'.credChannel, hash) ∧
        (broken = false → w'.rpIdHashx = .live hash)) :
    Inv { s with walk := w', credBegin := credBegin, broken := broken } := by
  refine ⟨fun hlt => ?_, hcreds⟩
  dsimp only at hlt ⊢
  rw [hsame.counter, hsame.total] at hlt
  rw [hsame.channel]
  exact h.rps hlt

theorem beginsRps_eq (hp : precheck req = none) (hsub : req.subcommand = 0x02) :
    beginsRps e req = mayRead e req e.paut.hasRpId := by
  simp [beginsRps, hp, hsub]

theorem beginsRps_other (hsub : req.subcommand ≠ 0x02) : beginsRps e req = false := by
  simp [beginsRps, hsub]

theorem beginsCreds_other (hsub : req.subcommand ≠ 0x04) : beginsCreds e req = none := by
  simp [beginsCreds, hsub]

theorem resumes_other {w : Walk} (hsub : req.subcommand ≠ 0x05) : resumes e req w = false := by
  simp [resumes, hsub]

theorem step_rpsBegin (h : Inv { s with walk := tick e.now s.walk }) (hp : precheck req = none)
    (hsub : req.subcommand = 0x02) (hcid : e.cid = req.channel) : Inv (step s (.request e req)) := by
  simp only [step, credMgmt_rpsBegin hp hsub, beginsRps_eq hp hsub,
    beginsCreds_other (e := e) (show req.subcommand ≠ 0x04 by omega), Option.map_none, Option.none_or,
    Option.isSome_none, resumes_other (e := e) (show req.subcommand ≠ 0x05 by omega),
    Bool.false_eq_true, if_false]
  cases hmay : mayRead e req e.paut.hasRpId with
  | false =>
    rw [enumerateRPsBegin_refused hmay]
    exact h
  | true =>
    apply h.same_creds enumerateRPsBegin_creds
    intro _
    rw [enumerateRPsBegin_channel hmay, hcid]
    rfl

theorem step_rpsNext (h : Inv { s with walk := tick e.now s.walk }) (hp : precheck req = none)
    (hsub : req.subcommand = 0x03) : Inv (step s (.request e req)) := by
  simp only [step, credMgmt_rpsNext hp hsub,
    beginsRps_other (e := e) (show req.subcommand ≠ 0x02 by omega),
    beginsCreds_other (e := e) (show req.subcommand ≠ 0x04 by omega), Option.map_none, Option.none_or,
    Option.isSome_none, resumes_other (e := e) (show req.subcommand ≠ 0x05 by omega),
    Bool.false_eq_true, if_false]
  apply h.same_creds enumerateRPsGetNextRP_creds
  intro hlt
  dsimp only at hlt ⊢
  obtain ⟨hchannel, htotal, hcounter⟩ :=
    enumerateRPsGetNextRP_rps (e := e) (w := tick e.now s.walk)
  rw [hchannel]
  apply h.rps
  show (tick e.now s.walk).rpCounter < (tick e.now s.walk).rpTotal
  omega

theorem step_credsBegin (h : Inv { s with walk := tick e.now s.walk }) (hp : precheck req = none)
    (hsub : req.subcommand = 0x04) (hcid : e.cid = req.channel) : Inv (step s (.request e req)) := by
  simp only [step, Session.reply, credMgmt_credsBegin hp hsub,
    beginsRps_other (e := e) (show req.subcommand ≠ 0x02 by omega),
    resumes_other (e := e) (show req.subcommand ≠ 0x05 by omega), Bool.false_eq_true, if_false]
  cases hhash : req.rpIdHash with
  | none =>
    have hnone : beginsCreds e req = none := by simp [beginsCreds, hhash]
    have hsame : (enumerateCredentialsBegin e req (tick e.now s.walk)).2 = tick e.now s.walk := by
      simp [enumerateCredentialsBegin, hhash]
    simp only [hnone, hsame, Option.map_none, Option.none_or, Option.isSome_none, Bool.false_eq_true,
      if_false]
    exact h
  | some hash =>
    cases hmay : mayRead e req (boundElsewhere e hash) with
    | false =>
      have hnone : beginsCreds e req = none := by simp [beginsCreds, hhash, hmay, Option.filter]
      simp only [hnone, enumerateCredentialsBegin_refused hhash hmay, Option.map_none, Option.none_or,
        Option.isSome_none, Bool.false_eq_true, if_false]
      exact h
    | true =>
      have hsome : beginsCreds e req = some hash := by
        simp [beginsCreds, hp, hsub, hhash, hmay, Option.filter]
      obtain ⟨hrps, hchannel, hlive, -⟩ :=
        enumerateCredentialsBegin_spec (w := tick e.now s.walk) hhash hmay
      simp only [hsome, Option.map_some, Option.some_or, Option.isSome_some, if_true]
      refine h.same_rps hrps fun hle => ⟨hash, ?_, fun hb => hlive hb hle⟩
      rw [hchannel, hcid]

theorem step_credsNext (h : Inv { s with walk := tick e.now s.walk }) (hp : precheck req = none)
    (hsub : req.subcommand = 0x05)
    (hgo : resumes e req (tick e.now s.walk) = true → s.broken = false) :
    Inv (step s (.request e req)) := by
  simp only [step, Session.reply, credMgmt_credsNext hp hsub,
    beginsRps_other (e := e) (show req.subcommand ≠ 0x02 by omega),
    beginsCreds_other (e := e) (show req.subcommand ≠ 0x04 by omega), Option.map_none, Option.none_or,
    Option.isSome_none, Bool.false_eq_true, if_false]
  by_cases hadmit : (tick e.now s.walk).credChannel = e.cid ∧
      (tick e.now s.walk).credCounter ≤ (tick e.now s.walk).credTotal
  · have hres : resumes e req (tick e.now s.walk) = true := by
      simp [resumes, hp, hsub, hadmit.1, hadmit.2]
    have hb := hgo hres
    obtain ⟨hash, hbegin, hlive⟩ := h.creds hadmit.2
    obtain ⟨hrps, hchannel, hnext, -⟩ :=
      enumerateCredentialsGetNextCredential_spec (e := e) (hlive hb) hadmit
    simp only [hres, if_true, hb, Bool.false_or]
    refine h.same_rps hrps fun hle => ⟨hash, ?_, fun hbroken => hnext hbroken hle⟩
    rw [hchannel]
    exact hbegin
  · have hres : resumes e req (tick e.now s.walk) = false := by
      simpa [resumes, hp, hsub] using hadmit
    have hrefused : (tick e.now s.walk).credChannel ≠ e.cid ∨
        (tick e.now s.walk).credTotal < (tick e.now s.walk).credCounter := by
      by_cases hc : (tick e.now s.walk).credChannel = e.cid
      · exact .inr (Nat.not_le.mp fun hle => hadmit ⟨hc, hle⟩)
      · exact .inl hc
    simp only [hres, enumerateCredentialsGetNextCredential_refused hrefused, Bool.false_eq_true,
      if_false]
    exact h

theorem step_inv (h : Inv s) (i : Input) (hs : sound s i) : Inv (step s i) := by
  cases i with
  | other now => exact h.tick now
  | request e req =>
    have htick := h.tick e.now
    obtain ⟨-, hcid, hgo⟩ := hs
    rcases plain_cases req with hplain | ⟨hp, hsub | hsub | hsub | hsub⟩
    · obtain ⟨h1, h2, h3⟩ := hplain.begins (e := e) (w := tick e.now s.walk)
      simp only [step, hplain.walk, h1, h2, h3, Option.map_none, Option.none_or, Option.isSome_none,
        Bool.false_eq_true, if_false]
      exact htick
    · exact step_rpsBegin htick hp hsub (hcid (by omega) (by omega))
    · exact step_rpsNext htick hp hsub
    · exact step_credsBegin htick hp hsub (hcid (by omega) (by omega))
    · exact step_credsNext htick hp hsub hgo

theorem reply_rps (h : Inv { s with walk := tick e.now s.walk }) {id idHash : Data}
    {total : Option Nat} (hreply : s.reply e req = .rp id idHash total)
    (hcid : 0x02 ≤ req.subcommand → req.subcommand ≤ 0x05 → e.cid = req.channel) :
    beginsRps e req = true ∨ (req.subcommand = 0x03 ∧ s.rpBegin = some req.channel) := by
  have hrp : enumerates (s.reply e req) = true := by
    rw [hreply]
    rfl
  unfold Session.reply at hreply hrp
  rcases plain_cases req with hplain | ⟨hp, hsub | hsub | hsub | hsub⟩
  · exact absurd (hrp.symm.trans hplain.enumerates) (by decide)
  · rw [credMgmt_rpsBegin hp hsub] at hreply
    rw [beginsRps_eq hp hsub]
    cases hmay : mayRead e req e.paut.hasRpId with
    | false =>
      rw [enumerateRPsBegin_refused hmay] at hreply
      exact absurd hreply (by simp)
    | true => exact .inl rfl
  · rw [credMgmt_rpsNext hp hsub] at hrp
    obtain ⟨hchannel, hlt⟩ := enumerateRPsGetNextRP_admits hrp
    refine .inr ⟨hsub, ?_⟩
    calc s.rpBegin = some (tick e.now s.walk).rpChannel := h.rps hlt
      _ = some e.cid := by rw [hchannel]
      _ = some req.channel := by rw [hcid (by omega) (by omega)]
  · -- a walk over the credentials answers with no relying party
    rw [credMgmt_credsBegin hp hsub] at hreply
    exact absurd hreply (enumerateCredentialsBegin_no_rp _ _ _)
  · rw [credMgmt_credsNext hp hsub] at hreply
    exact absurd hreply (enumerateCredentialsGetNextCredential_no_rp _ _ _)

theorem reply_creds (h : Inv { s with walk := tick e.now s.walk }) {entry : Entry}
    (hreply : s.reply e req = .credential entry)
    (hcid : 0x02 ≤ req.subcommand → req.subcommand ≤ 0x05 → e.cid = req.channel)
    (hgo : resumes e req (tick e.now s.walk) = true → s.broken = false) :
    ∃ hash, Shows e hash entry ∧ (beginsCreds e req = some hash ∨
      (req.subcommand = 0x05 ∧ s.credBegin = some (req.channel, hash))) := by
  have hany : enumerates (s.reply e req) = true := by
    rw [hreply]
    rfl
  unfold Session.reply at hreply hany
  rcases plain_cases req with hplain | ⟨hp, hsub | hsub | hsub | hsub⟩
  · exact absurd (hany.symm.trans hplain.enumerates) (by decide)
  · rw [credMgmt_rpsBegin hp hsub] at hreply
    exact absurd hreply (enumerateRPsBegin_no_credential _)
  · rw [credMgmt_rpsNext hp hsub] at hreply
    exact absurd hreply (enumerateRPsGetNextRP_no_credential _)
  · rw [credMgmt_credsBegin hp hsub] at hreply
    cases hhash : req.rpIdHash with
    | none => simp [enumerateCredentialsBegin, hhash] at hreply
    | some hash =>
      cases hmay : mayRead e req (boundElsewhere e hash) with
      | false =>
        rw [enumerateCredentialsBegin_refused hhash hmay] at hreply
        exact absurd hreply (by simp)
      | true =>
        refine ⟨hash, (enumerateCredentialsBegin_spec hhash hmay).2.2.2 entry hreply, .inl ?_⟩
        simp [beginsCreds, hp, hsub, hhash, hmay, Option.filter]
  · rw [credMgmt_credsNext hp hsub] at hreply
    by_cases hrefused : (tick e.now s.walk).credChannel ≠ e.cid ∨
        (tick e.now s.walk).credTotal < (tick e.now s.walk).credCounter
    · rw [enumerateCredentialsGetNextCredential_refused hrefused] at hreply
      exact absurd hreply (by simp)
    · push Not at hrefused
      have hres : resumes e req (tick e.now s.walk) = true := by
        simp [resumes, hp, hsub, hrefused.1, hrefused.2]
      obtain ⟨hash, hbegin, hlive⟩ := h.creds hrefused.2
      refine ⟨hash, ?_, .inr ⟨hsub, ?_⟩⟩
      · exact (enumerateCredentialsGetNextCredential_spec (hlive (hgo hres)) hrefused).2.2.2 entry
          hreply
      · calc s.credBegin = some ((tick e.now s.walk).credChannel, hash) := hbegin
          _ = some (req.channel, hash) := by rw [hrefused.1, hcid (by omega) (by omega)]

theorem step_law (h : Inv s) (i : Input) (hs : sound s i) : law s i := by
  cases i with
  | other now => exact trivial
  | request e req =>
    intro hpreview
    obtain ⟨hnamed, hcid, hgo⟩ := hs
    have htick := h.tick e.now
    refine ⟨credMgmt_permitted hpreview, fun hserv => credMgmt_served hserv (hnamed hserv), ?_, ?_⟩
    · exact fun id idHash total hreply => reply_rps htick hreply hcid
    · exact fun entry hreply => reply_creds htick hreply hcid hgo

end Steps

/-- In every run that keeps to `sound`, a credential is written only with its authorization, every
request for it that has one is served, and what is enumerated goes to the channel that began the
walk. -/
theorem management_authorized (is : List Input) (h : Along step sound {} is) :
    Along step law {} is :=
  along_law (P := Inv) (fun _ i hs hinv => ⟨step_inv hinv i hs, step_law hinv i hs⟩) {} is h .start

/-! A token that is bound to the RP of both credentials. -/

def sampleHash : Data := List.replicate 32 7

def sampleId (n : BitVec 8) : Data := List.replicate 42 n

def sampleSlot (n : BitVec 8) : SlotFile where
  marker := true
  data := []
  objects :=
    { rpIdHash := .ok sampleHash
      clientId := .ok (sampleId n)
      credential := .ok [n]
      publicKey := .ok [2]
      metadata := .ok []
      privateKey := .error .fileNotFound
      state := .ok ⟨0, 0, 0⟩ }

def sampleDevice : Device where
  load := fun credId _ => some { rpId := some [3], userId := some [4], id := credId }
  parseMetadata := fun _ => none
  deriveResident := id
  openRp := fun _ _ => none

/-- The MAC is the key with the message. -/
def sampleSetting : Setting where
  device := sampleDevice
  storage :=
    { slots := fun i =>
        if i.val = 0 then some (sampleSlot 8) else if i.val = 1 then some (sampleSlot 9) else none
      rps := fun _ => none }
  paut := ⟨[5], permissionCm, true, sampleHash⟩
  ppaut := ⟨[6], 0⟩
  cid := 1
  verify := fun _ key message param => param = key ++ message

def sampleRequest (hash : Option Data) (subcommand : Nat) : Request where
  channel := 1
  subcommand := subcommand
  rpIdHash := hash
  credentialId := some (sampleId 9)
  pinUvAuthProtocol := some 2
  pinUvAuthParam := some [5, BitVec.ofNat 8 subcommand]

/-- A walk over both credentials, and the deletion of the second one. -/
def sampleRun : List Input :=
  [.request sampleSetting (sampleRequest (some sampleHash) 0x04),
    .request sampleSetting (sampleRequest none 0x05),
    .request sampleSetting (sampleRequest (some sampleHash) 0x06)]

theorem walk_then_delete : Along step sound {} sampleRun ∧ Along step law {} sampleRun ∧
    enumerates ((run step {} (sampleRun.take 1)).reply sampleSetting (sampleRequest none 0x05)) = true ∧
    (run step {} (sampleRun.take 2)).reply sampleSetting (sampleRequest (some sampleHash) 0x06) =
      .done := by
  have hsound : Along step sound {} sampleRun := by
    refine ⟨⟨fun _ => rfl, fun _ _ => rfl, fun h => ?_⟩, ⟨fun h => ?_, fun _ _ => rfl, fun _ => ?_⟩,
      ⟨fun _ => rfl, fun _ h => ?_, fun h => ?_⟩, trivial⟩
    · exact absurd h (by decide +kernel)
    · obtain ⟨-, -, -, -, -, _, _, _, -, -, -, ⟨hsub, -⟩ | ⟨hsub, -⟩⟩ := h
      · exact absurd hsub (by decide)
      · exact absurd hsub (by decide)
    · decide +kernel
    · exact absurd h (by decide)
    · exact absurd h (by decide +kernel)
  exact ⟨hsound, management_authorized sampleRun hsound, by decide +kernel, by decide +kernel⟩

/-- Without an RP ID hash in the request there is nothing to compare the token with. -/
theorem delete_own_credential_faults :
    ¬ Along step law {} [.request sampleSetting (sampleRequest none 0x06)] := by
  intro h
  have hserved := (h.1 rfl).served
  have hslot : findById sampleSetting.device sampleSetting.storage (sampleId 9) =
      some (1, sampleSlot 9) := rfl
  have hfault : ({} : Session).reply sampleSetting (sampleRequest none 0x06) = .fault := by
    decide +kernel
  rw [hfault] at hserved
  have hserviceable : Serviceable sampleSetting (sampleRequest none 0x06) :=
    ⟨rfl, by decide +kernel, by decide +kernel, by decide +kernel, rfl, sampleId 9, 1, sampleSlot 9,
      rfl, hslot, rfl, .inl ⟨rfl, rfl⟩⟩
  exact absurd (hserved hserviceable) (by decide)

end Mgmt

end Cred

end KeyWallet
