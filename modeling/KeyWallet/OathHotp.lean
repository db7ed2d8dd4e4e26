import KeyWallet.CrashProgram
import KeyWallet.RecordIds
import KeyWallet.OathMap

/-! The counters of HOTP credentials: CALCULATE and RENAME with the storage under them. A container
is durable when its write succeeds, a legacy file when the cache is written back. -/
namespace KeyWallet.Oath.Store

open CrashProgram StepSystem
open CrashProgram.Prog (look put commit done fail)
open Tlv (findItem findTag valueOffset Place LengthBytes)
open Txn (getUint64 putUint64 uint64Max)

/-- A response to the host: a code of the slot, with the counter if it is of the HOTP kind. -/
inductive Response
  | hotp (k : Index) (counter : Nat) (code : Data)
  | totp (k : Index) (code : Data)
  deriving DecidableEq, Repr

abbrev OathMachine := Machine Index (Option Entry) Unit Response
abbrev OathProg := Prog Index (Option Entry) Unit Response Sw

/-- oath_credential_write. -/
def writeCred (c : Crypto) (k : Index) (data : Data) : OathProg Bool :=
  look fun _ view =>
    match credentialWrite c (view k) data with
    | none => done false
    | some e =>
      put k (some e) fun stored =>
        if stored then if e.legacy then commit fun _ => done true else commit done
        else done false

/-- The counter of a credential, what the code is computed from, and the data with the counter
advanced. The eight bytes are taken where the value starts. -/
def countedData (data : Data) : Option (Nat × Data × Data) :=
  (findItem data tagImf).map fun i =>
    let at' := valueOffset data i
    let v := getUint64 ((data.drop at').take 8)
    (v, i.1.value,
      (data.take at' ++ putUint64 ((v + 1) % 2 ^ 64) ++ data.drop (at' + 8)).take data.length)

/-- CALCULATE; `pressed` is the answer of check_user_presence, `opened` whether the credential can be
read. -/
structure Calculate where
  validated : Bool := true
  p2 : Nat := 1
  data : Data
  pressed : Bool := true
  opened : Bool := true
  deriving DecidableEq, Repr

/-- cmd_calculate behind the search for the credential. -/
def calculateEntry (c : Crypto) (hmac : Nat → Data → Data → Data) (r : Calculate) (challenge : Data)
    (k : Index) (e : Entry) : OathProg Unit :=
  match findTag e.data tagKey with
  | none => fail .incorrectParams
  | some key =>
    match plainKey c key with
    | none => fail .execError
    | some plain =>
      let untouched := needsTouch (findTag e.data tagProperty) && !r.pressed
      if plain.length < 2 then fail .execError
      else if isHotp plain then
        match countedData e.data with
        | none => fail .incorrectParams
        | some (counter, imf, new) =>
          if untouched then fail .conditionsNotSatisfied
          else
            match calculateOath hmac (r.p2 == 1) plain imf with
            | none => fail .execError
            | some code =>
              (writeCred c k new).bind fun stored =>
                if stored then event (.hotp k counter code) else fail .execError
      else if untouched then fail .conditionsNotSatisfied
      else
        match calculateOath hmac (r.p2 == 1) plain challenge with
        | none => fail .execError
        | some code => event (.totp k code)

def cmdCalculate (c : Crypto) (hmac : Nat → Data → Data → Data) (r : Calculate) : OathProg Unit :=
  if r.p2 ≠ 0 ∧ r.p2 ≠ 1 then fail .incorrectP1P2
  else if r.validated = false then fail .securityStatusNotSatisfied
  else
    match findTag r.data tagChallenge, findTag r.data tagName with
    | some challenge, some name =>
      look fun _ view =>
        match findCred view name with
        | none => fail .dataInvalid
        | some k =>
          match view k with
          | none => fail .execError
          | some e =>
            if r.opened = false ∨ 65535 < e.data.length then fail .execError
            else calculateEntry c hmac r challenge k e
    | _, _ => fail .incorrectParams

/-- cmd_rename over the storage. -/
def renameProg (c : Crypto) (validated : Bool) (data : Data) : OathProg Unit :=
  if validated = false then fail .securityStatusNotSatisfied
  else
    match renameNames data with
    | .error sw => fail sw
    | .ok (name, newName) =>
      look fun _ view =>
        match findCred view name with
        | none => fail .dataInvalid
        | some k =>
          match (view k).bind fun e => renameData e.data newName with
          | none => fail .wrongData
          | some new =>
            (writeCred c k (new.take (new.length % 65536))).bind fun stored =>
              if stored then done () else fail .execError

/-- A command with the replies of the storage, the cache being written back, or the power going. -/
inductive Input
  | calculate (r : Calculate) (replies : List Reply)
  | rename (validated : Bool) (data : Data) (replies : List Reply)
  | drain
  | powerCycle

/-- After a power loss the device starts from the flash. -/
def afterCommand (r : Outcome Sw Unit × OathMachine × List Reply) : OathMachine :=
  match r.1 with
  | .lost => r.2.1.reboot ()
  | _ => r.2.1

def inputStep (c : Crypto) (hmac : Nat → Data → Data → Data) (m : OathMachine) : Input → OathMachine
  | .calculate r replies => afterCommand (exec (cmdCalculate c hmac r) m replies)
  | .rename validated data replies => afterCommand (exec (renameProg c validated data) m replies)
  | .drain => m.sync
  | .powerCycle => m.reboot ()

/-! The counter of a credential. -/

/-- The key of these data says HOTP. -/
def hotpData (c : Crypto) (data : Data) : Bool :=
  ((findTag data tagKey).bind (plainKey c)).any isHotp

/-- The counter, if the credential is of the HOTP kind. -/
def counterOf (c : Crypto) (data : Data) : Option Nat :=
  if hotpData c data then (findTag data tagImf).map fun imf => getUint64 (imf.take 8) else none

section Counting

variable {c : Crypto} {data : Data}

theorem countedData_spec {imf : Data} (himf : findTag data tagImf = some imf) (hlen : 8 ≤ imf.length) :
    ∃ new, countedData data = some (getUint64 (imf.take 8), imf, new) ∧
      findTag new tagImf =
        some (putUint64 ((getUint64 (imf.take 8) + 1) % 2 ^ 64) ++ imf.drop 8) ∧
      ∀ tag, tag ≠ tagImf → findTag new tag = findTag data tag := by
  have hne : imf ≠ [] := by
    rintro rfl
    cases hlen
  obtain ⟨front, lb, post, hp, hdata⟩ := place_of_ne_nil himf hne
  have hfound : findItem data tagImf = some (⟨tagImf, imf⟩, post) := by
    rw [hdata]
    exact hp.findItem_self
  have hat : valueOffset data (⟨tagImf, imf⟩, post) = front.length + lb.length :=
    valueOffset_place hdata
  have hdrop : data.drop (front.length + lb.length) = imf ++ post := by
    rw [hdata, drop_front]
  have hdrop8 : data.drop (front.length + lb.length + 8) = imf.drop 8 ++ post := by
    rw [← List.drop_drop, hdrop, List.drop_append_of_le_length hlen]
  have htake8 : (data.drop (front.length + lb.length)).take 8 = imf.take 8 := by
    rw [hdrop, List.take_append_of_le_length hlen]
  have htake : data.take (front.length + lb.length) = front ++ lb := by
    rw [hdata, ← List.length_append, List.append_assoc (front ++ lb), List.take_left]
  generalize hv : getUint64 (imf.take 8) = v
  -- the new value has the length of the old one
  have hnewLen : (putUint64 ((v + 1) % 2 ^ 64) ++ imf.drop 8).length = imf.length := by
    have h8 : (putUint64 ((v + 1) % 2 ^ 64)).length = 8 := rfl
    rw [List.length_append, h8, List.length_drop]
    omega
  have hl : LengthBytes (putUint64 ((v + 1) % 2 ^ 64) ++ imf.drop 8).length lb := by
    rw [hnewLen]
    exact hp.length_bytes
  have hres : countedData data = some (v, imf,
      front ++ lb ++ (putUint64 ((v + 1) % 2 ^ 64) ++ imf.drop 8) ++ post) := by
    have hfull : (front ++ lb ++ putUint64 ((v + 1) % 2 ^ 64) ++ (imf.drop 8 ++ post)).take
        data.length = front ++ lb ++ (putUint64 ((v + 1) % 2 ^ 64) ++ imf.drop 8) ++ post := by
      have hsame : (front ++ lb ++ putUint64 ((v + 1) % 2 ^ 64) ++ (imf.drop 8 ++ post)) =
          front ++ lb ++ (putUint64 ((v + 1) % 2 ^ 64) ++ imf.drop 8) ++ post := by
        simp only [List.append_assoc]
      rw [hsame]
      apply List.take_of_length_le
      rw [hdata]
      simp only [List.length_append] at hnewLen ⊢
      omega
    unfold countedData
    rw [hfound]
    show some (getUint64 ((data.drop (valueOffset data (⟨tagImf, imf⟩, post))).take 8), imf, _) = _
    rw [hat, htake8, hv, htake, hdrop8, hfull]
  refine ⟨_, hres, (hp.replace hl post).findTag_append post, ?_⟩
  intro tag htag
  rw [hp.findTag_other hl htag, ← hdata]

theorem hotpData_congr {new : Data} (h : findTag new tagKey = findTag data tagKey) :
    hotpData c new = hotpData c data := by
  unfold hotpData
  rw [h]

end Counting

/-! What a write leaves of the counter. -/

/-- A key that a legacy file can take. -/
def KeyFits (data : Data) : Prop :=
  ∀ key, findTag data tagKey = some key → keyIsSecure key = false →
    key ≠ [] ∧ key.length + secureKeyOverhead < 65536

/-- Every command can work with this file: its counter has eight bytes at least, as PUT makes it. -/
structure Ready (c : Crypto) (e : Entry) : Prop where
  wide : hotpData c e.data = true → ∀ imf, findTag e.data tagImf = some imf → 8 ≤ imf.length
  fits : e.legacy = true → KeyFits e.data

section Written

variable {c : Crypto} {data : Data}

theorem legacyData_spec (h : KeyFits data) :
    (∀ tag, tag ≠ tagKey → findTag (legacyData c data) tag = findTag data tag) ∧
      hotpData c (legacyData c data) = hotpData c data ∧ KeyFits (legacyData c data) := by
  cases hkey : findTag data tagKey with
  | none =>
    have hsame : legacyData c data = data := by
      unfold legacyData
      rw [hkey]
    rw [hsame]
    exact ⟨fun _ _ => rfl, rfl, h⟩
  | some key =>
    have hsize : keyIsSecure key = false → key.length + secureKeyOverhead < 65536 :=
      fun hs => (h key hkey hs).2
    have hnew := findTag_legacyData_key (c := c) hkey hsize
    refine ⟨fun tag htag => findTag_legacyData hkey hsize htag, ?_, ?_⟩
    · unfold hotpData
      rw [hnew, hkey]
      by_cases hs : keyIsSecure key = true
      · rw [if_pos hs]
      · have hs' : keyIsSecure key = false := Bool.eq_false_of_not_eq_true hs
        have hplain := plainKey_sealed c (h key hkey hs').1
        show (plainKey c _).any isHotp = (plainKey c key).any isHotp
        rw [hplain]
    · intro key' hkey' hs'
      rw [hnew, Option.some.injEq] at hkey'
      by_cases hs : keyIsSecure key = true
      · rw [if_pos hs] at hkey'
        rw [← hkey', hs] at hs'
        cases hs'
      · rw [if_neg hs] at hkey'
        have hne := (h key hkey (Bool.eq_false_of_not_eq_true hs)).1
        rw [← hkey', c.secure key hne] at hs'
        cases hs'

theorem credentialWrite_spec {old : Option Entry} {e : Entry} (h : credentialWrite c old data = some e)
    (hfits : old.any Entry.legacy = true → KeyFits data) :
    findTag e.data tagImf = findTag data tagImf ∧ hotpData c e.data = hotpData c data ∧
      (e.legacy = true → KeyFits e.data) := by
  unfold credentialWrite at h
  split_ifs at h with hold
  · obtain rfl := Option.some.inj h
    obtain ⟨hother, hhotp, hnew⟩ := legacyData_spec (c := c) (hfits hold)
    exact ⟨hother tagImf (by decide), hhotp, fun _ => hnew⟩
  · obtain ⟨index, -, rfl⟩ := Option.map_eq_some_iff.mp h
    refine ⟨rfl, rfl, ?_⟩
    intro hl
    cases hl

theorem credentialWrite_legacy {old e : Entry} (h : credentialWrite c (some old) data = some e) :
    e.legacy = old.legacy := by
  unfold credentialWrite at h
  split_ifs at h with hold
  · obtain rfl := Option.some.inj h
    exact hold.symm
  · obtain ⟨index, -, rfl⟩ := Option.map_eq_some_iff.mp h
    exact (Bool.eq_false_of_not_eq_true hold).symm

theorem credentialWrite_ready {old : Option Entry} {e : Entry} (h : credentialWrite c old data = some e)
    (hfits : old.any Entry.legacy = true → KeyFits data)
    (hwide : hotpData c data = true → ∀ imf, findTag data tagImf = some imf → 8 ≤ imf.length) :
    Ready c e ∧ counterOf c e.data = counterOf c data := by
  obtain ⟨himf, hhotp, hkey⟩ := credentialWrite_spec h hfits
  refine ⟨⟨?_, hkey⟩, ?_⟩
  · rw [himf, hhotp]
    exact hwide
  · unfold counterOf
    rw [himf, hhotp]

end Written

/-! The invariant. -/

abbrev Log := List (Response × Slots)

/-- This counter of a slot has gone out. -/
def Logged (log : Log) (k : Index) (v : Nat) : Prop := ∃ e ∈ log, ∃ code, e.1 = .hotp k v code

/-- The counters of a slot only go up. -/
def Increasing (log : Log) : Prop :=
  log.Pairwise fun a b => ∀ k v w code code', a.1 = .hotp k v code → b.1 = .hotp k w code' → v < w

/-- All counters that have gone out are below the stored ones. -/
structure Covers (c : Crypto) (s : Slots) (log : Log) : Prop where
  ready : ∀ k e, s k = some e → Ready c e
  above : ∀ k e v x, s k = some e → Logged log k v → counterOf c e.data = some x → v < x

/-- What has to be true when the power goes. -/
structure Durable (c : Crypto) (m : OathMachine) : Prop where
  flash : Covers c m.flash m.log
  increasing : Increasing m.log

structure Inv (c : Crypto) (m : OathMachine) : Prop where
  durable : Durable c m
  view : Covers c m.view m.log

section Invariant

variable {c : Crypto} {m : OathMachine}

theorem Covers.update {s : Slots} {log : Log} (h : Covers c s log) {k : Index} {e : Entry}
    (hready : Ready c e) (habove : ∀ v x, Logged log k v → counterOf c e.data = some x → v < x) :
    Covers c (Function.update s k (some e)) log := by
  constructor
  · intro j e' he'
    by_cases hjk : j = k
    · subst hjk
      rw [Function.update_self, Option.some.injEq] at he'
      exact he' ▸ hready
    · rw [Function.update_of_ne hjk] at he'
      exact h.ready j e' he'
  · intro j e' v x he' hlogged hx
    by_cases hjk : j = k
    · subst hjk
      rw [Function.update_self, Option.some.injEq] at he'
      rw [← he'] at hx
      exact habove v x hlogged hx
    · rw [Function.update_of_ne hjk] at he'
      exact h.above j e' v x he' hlogged hx

theorem Inv.sync (h : Inv c m) : Inv c m.sync := ⟨⟨h.view, h.durable.increasing⟩, h.view⟩

theorem Durable.reboot (h : Durable c m) : Inv c (m.reboot ()) := ⟨⟨h.flash, h.increasing⟩, h.flash⟩

theorem Inv.write (h : Inv c m) {k : Index} {e : Entry} (hready : Ready c e)
    (habove : ∀ v x, Logged m.log k v → counterOf c e.data = some x → v < x) :
    Inv c (m.write k (some e)) := ⟨⟨h.durable.flash, h.durable.increasing⟩, h.view.update hready habove⟩

theorem Inv.record (h : Inv c m) {k : Index} {v : Nat} {code : Data}
    (hold : ∀ u, Logged m.log k u → u < v)
    (hview : ∀ e x, m.view k = some e → counterOf c e.data = some x → v < x)
    (hflash : m.flash = m.view) : Inv c (m.record (.hotp k v code)) := by
  have hlogged : ∀ j u, Logged (m.log ++ [(Response.hotp k v code, m.flash)]) j u →
      Logged m.log j u ∨ (j = k ∧ u = v) := by
    rintro j u ⟨e, he, code', hcode⟩
    rcases List.mem_append.mp he with he | he
    · exact .inl ⟨e, he, code', hcode⟩
    · rw [List.mem_singleton] at he
      rw [he] at hcode
      injection hcode with hk hv
      exact .inr ⟨hk.symm, hv.symm⟩
  have hcovers : Covers c m.view (m.log ++ [(Response.hotp k v code, m.flash)]) := by
    refine ⟨h.view.ready, ?_⟩
    intro j e u x he hl hx
    rcases hlogged j u hl with hl | ⟨rfl, rfl⟩
    · exact h.view.above j e u x he hl hx
    · exact hview e x he hx
  have hincreasing : Increasing (m.log ++ [(Response.hotp k v code, m.flash)]) := by
    refine List.pairwise_append.mpr ⟨h.durable.increasing, List.pairwise_singleton _ _, ?_⟩
    intro a ha b hb j u w code1 code2 ha' hb'
    rw [List.mem_singleton] at hb
    rw [hb] at hb'
    injection hb' with hk hv
    subst hk
    rw [← hv]
    exact hold u ⟨a, ha, code1, ha'⟩
  refine ⟨⟨?_, hincreasing⟩, hcovers⟩
  show Covers c m.flash (m.log ++ [(Response.hotp k v code, m.flash)])
  rw [hflash] at hcovers ⊢
  exact hcovers

theorem Inv.recordTotp (h : Inv c m) (k : Index) (code : Data) : Inv c (m.record (.totp k code)) := by
  have hlogged : ∀ j u, Logged (m.log ++ [(Response.totp k code, m.flash)]) j u → Logged m.log j u := by
    rintro j u ⟨e, he, code', hcode⟩
    rcases List.mem_append.mp he with he | he
    · exact ⟨e, he, code', hcode⟩
    · rw [List.mem_singleton] at he
      rw [he] at hcode
      cases hcode
  have hcovers : ∀ s, Covers c s m.log → Covers c s (m.log ++ [(Response.totp k code, m.flash)]) := by
    intro s hs
    exact ⟨hs.ready, fun j e u x he hl hx => hs.above j e u x he (hlogged j u hl) hx⟩
  have hincreasing : Increasing (m.log ++ [(Response.totp k code, m.flash)]) := by
    refine List.pairwise_append.mpr ⟨h.durable.increasing, List.pairwise_singleton _ _, ?_⟩
    intro a ha b hb j u w code1 code2 ha' hb'
    rw [List.mem_singleton] at hb
    rw [hb] at hb'
    cases hb'
  exact ⟨⟨hcovers m.flash h.durable.flash, hincreasing⟩, hcovers m.view h.view⟩

/-- oath_credential_write keeps the invariant; where it succeeds, a container is in the flash, and so
is a legacy file if no commit is left open. -/
theorem writeCred_spec {f : Faults} {k : Index} {data : Data} {Q : Bool → OathMachine → Prop}
    {R : Sw → OathMachine → Prop} (h : Inv c m)
    (hnew : ∀ e, credentialWrite c (m.view k) data = some e →
      Ready c e ∧ ∀ v x, Logged m.log k v → counterOf c e.data = some x → v < x)
    (hfalse : ∀ m', Inv c m' → Q false m')
    (htrue : ∀ e m', credentialWrite c (m.view k) data = some e → Inv c m' → m'.log = m.log →
      m'.view k = some e → (e.legacy = false ∨ ¬ f.noticed → m'.flash = m'.view) → Q true m') :
    wp f (writeCred c k data) Q R (Durable c) m := by
  unfold writeCred
  dsimp only [wp]
  cases he : credentialWrite c (m.view k) data with
  | none => exact hfalse m h
  | some e =>
    obtain ⟨hready, habove⟩ := hnew e he
    have hw : Inv c (m.write k (some e)) := h.write hready habove
    have hview : (m.write k (some e)).view k = some e := Function.update_self ..
    refine ⟨h.durable, ?_, fun _ => ⟨hfalse m h, hfalse _ hw⟩⟩
    dsimp only
    rw [if_pos rfl]
    by_cases hl : e.legacy = true
    · rw [if_pos hl]
      refine ⟨hw.durable, htrue e _ he hw.sync rfl hview fun _ => rfl, ?_⟩
      intro hf
      refine ⟨htrue e _ he hw rfl hview ?_, htrue e _ he hw.sync rfl hview fun _ => rfl⟩
      -- the commit is still open, and this file needs it
      rintro (hno | hno)
      · rw [hl] at hno
        cases hno
      · exact absurd hf hno
    · rw [if_neg hl]
      exact ⟨hw.durable, htrue e _ he hw.sync rfl hview fun _ => rfl,
        fun _ => ⟨hfalse _ hw, hfalse _ hw.sync⟩⟩

end Invariant

/-! CALCULATE. -/

section Calculating

variable {c : Crypto} {m : OathMachine}

theorem countedData_ready {e : Entry} (he : Ready c e) (hhotp : hotpData c e.data = true)
    {counter : Nat} {imf new : Data} (hcounted : countedData e.data = some (counter, imf, new))
    (hlimit : ∀ v, counterOf c e.data = some v → v < uint64Max) :
    counterOf c e.data = some counter ∧ counterOf c new = some (counter + 1) ∧
      (hotpData c new = true → ∀ imf, findTag new tagImf = some imf → 8 ≤ imf.length) ∧
      (e.legacy = true → KeyFits new) := by
  obtain ⟨old, hold⟩ : ∃ old, findTag e.data tagImf = some old := by
    obtain ⟨i, hi, -⟩ := Option.map_eq_some_iff.mp hcounted
    exact ⟨i.1.value, by rw [Tlv.findTag_eq_findItem, hi, Option.map_some]⟩
  have hwide := he.wide hhotp old hold
  obtain ⟨new', hspec, himf, hother⟩ := countedData_spec hold hwide
  have hsame := Option.some.inj (hspec.symm.trans hcounted)
  obtain ⟨hcounter, hrest⟩ := Prod.mk.inj hsame
  obtain ⟨-, rfl⟩ := Prod.mk.inj hrest
  have hnow : counterOf c e.data = some counter := by
    unfold counterOf
    rw [if_pos hhotp, hold, Option.map_some, hcounter]
  have hlt : counter < uint64Max := hlimit counter hnow
  have hkey : findTag new' tagKey = findTag e.data tagKey := hother tagKey (by decide)
  have hhotp' : hotpData c new' = true := (hotpData_congr hkey).trans hhotp
  have h8 : ∀ n, (putUint64 n).length = 8 := fun _ => rfl
  refine ⟨hnow, ?_, ?_, ?_⟩
  · unfold counterOf
    rw [if_pos hhotp', himf, Option.map_some, List.take_append_of_le_length (Nat.le_of_eq (h8 _).symm),
      List.take_of_length_le (Nat.le_of_eq (h8 _)), hcounter,
      Nat.mod_eq_of_lt (by unfold uint64Max at hlt; omega), Txn.getUint64_put (by omega)]
  · intro _ imf' himf'
    rw [himf, Option.some.injEq] at himf'
    rw [← himf', List.length_append, h8]
    omega
  · intro hl key hkey' hs
    rw [hkey] at hkey'
    exact he.fits hl key hkey' hs

theorem calculateEntry_spec (hmac : Nat → Data → Data → Data) {r : Calculate} {challenge : Data} {k : Index}
    {e : Entry} {f : Faults} (h : Inv c m) (hk : m.view k = some e)
    (hlimit : ∀ v, counterOf c e.data = some v → v < uint64Max)
    (hkind : hotpData c e.data = true → e.legacy = false ∨ ¬ f.noticed) :
    wp f (calculateEntry c hmac r challenge k e) (fun _ => Inv c) (fun _ => Inv c) (Durable c) m := by
  have he : Ready c e := h.view.ready k e hk
  unfold calculateEntry
  cases hkey : findTag e.data tagKey with
  | none => exact h
  | some key =>
    dsimp only
    cases hplain : plainKey c key with
    | none => exact h
    | some plain =>
      dsimp only
      by_cases htwo : plain.length < 2
      · rw [if_pos htwo]
        exact h
      rw [if_neg htwo]
      by_cases hhotp : isHotp plain = true
      · rw [if_pos hhotp]
        have hhotp' : hotpData c e.data = true := by
          unfold hotpData
          rw [hkey, Option.bind_some, hplain]
          exact hhotp
        cases hcounted : countedData e.data with
        | none => exact h
        | some counted =>
          obtain ⟨counter, imf, new⟩ := counted
          obtain ⟨hnow, hnext, hwide, hfits⟩ := countedData_ready he hhotp' hcounted hlimit
          dsimp only
          by_cases htouch : (needsTouch (findTag e.data tagProperty) && !r.pressed) = true
          · rw [if_pos htouch]
            exact h
          rw [if_neg htouch]
          cases calculateOath hmac (r.p2 == 1) plain imf with
          | none => exact h
          | some code =>
            dsimp only
            rw [wp_bind]
            have hfits' : (m.view k).any Entry.legacy = true → KeyFits new := by
              rw [hk]
              exact hfits
            have hold : ∀ u, Logged m.log k u → u < counter :=
              fun u hu => h.view.above k e u counter hk hu hnow
            -- the file that is written is past the counter of this code
            have hwritten : ∀ e', credentialWrite c (m.view k) new = some e' →
                Ready c e' ∧ counterOf c e'.data = some (counter + 1) := by
              intro e' he'
              obtain ⟨hready, hcount⟩ := credentialWrite_ready he' hfits' hwide
              exact ⟨hready, hcount.trans hnext⟩
            apply writeCred_spec h
            · intro e' he'
              obtain ⟨hready, hcount⟩ := hwritten e' he'
              refine ⟨hready, ?_⟩
              intro v x hv hx
              have hx' := Option.some.inj (hcount.symm.trans hx)
              have hlt := hold v hv
              omega
            · intro m' hm'
              exact hm'
            · intro e' m' he' hm' hlog hview hflash
              obtain ⟨-, hcount⟩ := hwritten e' he'
              apply hm'.record
              · rw [hlog]
                exact hold
              · intro e'' x he'' hx
                rw [hview, Option.some.injEq] at he''
                rw [← he''] at hx
                have hx' := Option.some.inj (hcount.symm.trans hx)
                omega
              · apply hflash
                -- the kind of the file does not change
                have hlegacy : e'.legacy = e.legacy := by
                  rw [hk] at he'
                  exact credentialWrite_legacy he'
                rw [hlegacy]
                exact hkind hhotp'
      · rw [if_neg hhotp]
        by_cases htouch : (needsTouch (findTag e.data tagProperty) && !r.pressed) = true
        · rw [if_pos htouch]
          exact h
        rw [if_neg htouch]
        cases calculateOath hmac (r.p2 == 1) plain challenge with
        | none => exact h
        | some code => exact h.recordTotp k code

theorem cmdCalculate_spec (hmac : Nat → Data → Data → Data) {r : Calculate} {f : Faults} (h : Inv c m)
    (hsafe : ∀ k e, m.view k = some e → (findTag r.data tagName).bind (findCred m.view) = some k →
      hotpData c e.data = true →
        (∀ v, counterOf c e.data = some v → v < uint64Max) ∧ (e.legacy = false ∨ ¬ f.noticed)) :
    wp f (cmdCalculate c hmac r) (fun _ => Inv c) (fun _ => Inv c) (Durable c) m := by
  unfold cmdCalculate
  by_cases hp2 : r.p2 ≠ 0 ∧ r.p2 ≠ 1
  · rw [if_pos hp2]
    exact h
  rw [if_neg hp2]
  by_cases hval : r.validated = false
  · rw [if_pos hval]
    exact h
  rw [if_neg hval]
  cases findTag r.data tagChallenge with
  | none => exact h
  | some challenge =>
    cases hname : findTag r.data tagName with
    | none => exact h
    | some name =>
      dsimp only [wp]
      cases hfound : findCred m.view name with
      | none => exact h
      | some k =>
        dsimp only
        cases hk : m.view k with
        | none => exact h
        | some e =>
          dsimp only
          have hthis : (findTag r.data tagName).bind (findCred m.view) = some k := by
            rw [hname, Option.bind_some, hfound]
          by_cases hread : r.opened = false ∨ 65535 < e.data.length
          · rw [if_pos hread]
            exact h
          rw [if_neg hread]
          apply calculateEntry_spec hmac h hk
          · intro v hv
            have hhotp : hotpData c e.data = true := by
              by_contra hno
              unfold counterOf at hv
              rw [if_neg hno] at hv
              cases hv
            exact (hsafe k e hk hthis hhotp).1 v hv
          · exact fun hhotp => (hsafe k e hk hthis hhotp).2

end Calculating

/-! RENAME, and whole runs. -/

/-- Nothing is refused. -/
def Obliging (replies : List Reply) : Prop := ∀ happened, .refused happened ∉ replies

/-- The steps after which no counter can come again. A code of a legacy file goes out while its
counter may still be in the cache only; a new name may be longer than its length byte can say. -/
def Safe (c : Crypto) (m : OathMachine) : Input → Prop
  | .calculate r replies => ∀ k e, m.view k = some e →
      (findTag r.data tagName).bind (findCred m.view) = some k → hotpData c e.data = true →
        (∀ v, counterOf c e.data = some v → v < uint64Max) ∧ (e.legacy = false ∨ Obliging replies)
  | .rename _ data _ => ∀ name newName k e, renameNames data = .ok (name, newName) →
      findCred m.view name = some k → m.view k = some e → newName.length ≤ 255 ∧
        Fits e.data newName.length ∧ ∀ new, renameData e.data newName = some new → new.length < 65536
  | .drain => True
  | .powerCycle => True

section Runs

variable {c : Crypto} {m : OathMachine}

theorem renameProg_spec {validated : Bool} {data : Data} {replies : List Reply} {f : Faults} (h : Inv c m)
    (hsafe : Safe c m (.rename validated data replies)) :
    wp f (renameProg c validated data) (fun _ => Inv c) (fun _ => Inv c) (Durable c) m := by
  unfold renameProg
  by_cases hval : validated = false
  · rw [if_pos hval]
    exact h
  rw [if_neg hval]
  cases hnames : renameNames data with
  | error sw => exact h
  | ok names =>
    obtain ⟨name, newName⟩ := names
    dsimp only [wp]
    cases hfound : findCred m.view name with
    | none => exact h
    | some k =>
      dsimp only
      cases hk : m.view k with
      | none => exact h
      | some e =>
        have he : Ready c e := h.view.ready k e hk
        obtain ⟨hshort, hfits, hsize⟩ := hsafe name newName k e hnames hfound hk
        obtain ⟨new, hrename, -, hother⟩ := renameData_fits hfits hshort
        have hsmall := hsize new hrename
        have hkey : findTag new tagKey = findTag e.data tagKey := hother tagKey (by decide)
        have himf : findTag new tagImf = findTag e.data tagImf := hother tagImf (by decide)
        have hhotp : hotpData c new = hotpData c e.data := hotpData_congr hkey
        have hcount : counterOf c new = counterOf c e.data := by
          unfold counterOf
          rw [hhotp, himf]
        have hfits' : (m.view k).any Entry.legacy = true → KeyFits new := by
          rw [hk]
          intro hl key hkey' hs
          rw [hkey] at hkey'
          exact he.fits hl key hkey' hs
        have hwide : hotpData c new = true → ∀ imf, findTag new tagImf = some imf → 8 ≤ imf.length := by
          rw [hhotp, himf]
          exact he.wide
        rw [Option.bind_some, hrename]
        dsimp only
        rw [Nat.mod_eq_of_lt hsmall, List.take_length, wp_bind]
        apply writeCred_spec h
        · intro e' he'
          obtain ⟨hready, hcount'⟩ := credentialWrite_ready he' hfits' hwide
          refine ⟨hready, ?_⟩
          intro v x hv hx
          rw [hcount', hcount] at hx
          exact h.view.above k e v x hk hv hx
        · exact fun m' hm' => hm'
        · exact fun _ m' _ hm' _ _ _ => hm'

theorem inv_afterCommand {r : Outcome Sw Unit × OathMachine × List Reply}
    (h : Ends (fun _ => Inv c) (fun _ => Inv c) (Durable c) r) : Inv c (afterCommand r) := by
  unfold Ends at h
  unfold afterCommand
  split at h
  · next hr =>
    rw [hr]
    exact h
  · next hr =>
    rw [hr]
    exact h
  · next hr =>
    rw [hr]
    exact h.reboot

theorem inv_inputStep (hmac : Nat → Data → Data → Data) (m : OathMachine) (i : Input) (hsafe : Safe c m i)
    (h : Inv c m) : Inv c (inputStep c hmac m i) := by
  cases i with
  | calculate r replies =>
    apply inv_afterCommand
    apply ends_of_faults
    intro f hf
    apply cmdCalculate_spec hmac h
    intro k e hk hfound hhotp
    obtain ⟨hlimit, hkind⟩ := hsafe k e hk hfound hhotp
    exact ⟨hlimit, hkind.imp_right hf⟩
  | rename validated data replies =>
    apply inv_afterCommand
    apply ends_of_faults
    intro f _
    exact renameProg_spec h hsafe
  | drain => exact h.sync
  | powerCycle => exact h.durable.reboot

/-- No code has gone out yet. -/
structure Fresh (c : Crypto) (m : OathMachine) : Prop where
  log : m.log = []
  view : ∀ k e, m.view k = some e → Ready c e
  flash : ∀ k e, m.flash k = some e → Ready c e

theorem Fresh.inv (h : Fresh c m) : Inv c m := by
  have hnone : ∀ k v, ¬ Logged m.log k v := by
    intro k v hlogged
    obtain ⟨e, he, -⟩ := hlogged
    rw [h.log] at he
    cases he
  have hincreasing : Increasing m.log := by
    rw [h.log]
    exact List.Pairwise.nil
  exact ⟨⟨⟨h.flash, fun k e v x _ hv => absurd hv (hnone k v)⟩, hincreasing⟩,
    h.view, fun k e v x _ hv => absurd hv (hnone k v)⟩

/-- Along every run of such steps the codes of a credential come from ever larger counters. -/
theorem hotp_counters_increase (c : Crypto) (hmac : Nat → Data → Data → Data) (m : OathMachine)
    (h : Fresh c m) (inputs : List Input) (hrun : Along (inputStep c hmac) (Safe c) m inputs) :
    Increasing (run (inputStep c hmac) m inputs).log :=
  (run_invariant (inv_inputStep hmac) m inputs hrun h.inv).durable.increasing

end Runs

/-! A HOTP credential that has given five codes, in a container or in a legacy file. -/

def plainHmac (md : Nat) (_ data : Data) : Data := (data ++ List.replicate 64 0).take (mdSize md)

def hotpEntry (legacy : Bool) : Entry where
  legacy := legacy
  data := [0x71, 1, 0x61, 0x73, 4, 0x11, 6, 7, 7, 0x7a, 8, 0, 0, 0, 0, 0, 0, 0, 5]
  metadata := if legacy then [] else [0x71, 1, 0x61, 0x73, 2, 0x11, 6]

def hotpSlots (legacy : Bool) : Slots := fun k => if k.val = 0 then some (hotpEntry legacy) else none

def hotpDevice (legacy : Bool) : OathMachine := ⟨hotpSlots legacy, hotpSlots legacy, (), [], []⟩

def askCode : Calculate where
  data := [0x71, 1, 0x61, 0x74, 0]

theorem hotpDevice_fresh (legacy : Bool) : Fresh plainCrypto (hotpDevice legacy) := by
  have hready : ∀ k e, hotpSlots legacy k = some e → Ready plainCrypto e := by
    intro k e he
    unfold hotpSlots at he
    split_ifs at he
    obtain rfl := Option.some.inj he
    constructor
    · intro _ imf himf
      have himf' : findTag (hotpEntry legacy).data tagImf = some [0, 0, 0, 0, 0, 0, 0, 5] := by
        cases legacy <;> decide
      obtain rfl := Option.some.inj (himf'.symm.trans himf)
      decide
    · intro _ key hkey _
      have hkey' : findTag (hotpEntry legacy).data tagKey = some [0x11, 6, 7, 7] := by
        cases legacy <;> decide
      obtain rfl := Option.some.inj (hkey'.symm.trans hkey)
      exact ⟨List.cons_ne_nil _ _, by decide⟩
  exact ⟨rfl, hready, hready⟩

theorem safe_calculate {c : Crypto} {m : OathMachine} {r : Calculate} {replies : List Reply} {k : Index}
    {e : Entry} {v : Nat} (hfound : (findTag r.data tagName).bind (findCred m.view) = some k)
    (hk : m.view k = some e) (hcount : counterOf c e.data = some v) (hv : v < uint64Max)
    (hkind : e.legacy = false ∨ Obliging replies) : Safe c m (.calculate r replies) := by
  intro k' e' hk' hfound' _
  obtain rfl := Option.some.inj (hfound.symm.trans hfound')
  obtain rfl := Option.some.inj (hk.symm.trans hk')
  refine ⟨?_, hkind⟩
  intro v' hv'
  obtain rfl := Option.some.inj (hcount.symm.trans hv')
  exact hv

/-- Two codes from a container with a power loss between them. -/
theorem hotp_counters_over_restart :
    Along (inputStep plainCrypto plainHmac) (Safe plainCrypto) (hotpDevice false)
      [.calculate askCode [], .powerCycle, .calculate askCode []] ∧
    Increasing (run (inputStep plainCrypto plainHmac) (hotpDevice false)
      [.calculate askCode [], .powerCycle, .calculate askCode []]).log := by
  have hfirst : Safe plainCrypto (hotpDevice false) (.calculate askCode []) :=
    safe_calculate (k := ⟨0, by decide⟩) (e := hotpEntry false) (v := 5) rfl rfl (by decide) (by decide)
      (.inl rfl)
  have hsecond : Safe plainCrypto (run (inputStep plainCrypto plainHmac) (hotpDevice false)
      [.calculate askCode [], .powerCycle]) (.calculate askCode []) :=
    safe_calculate (k := ⟨0, by decide⟩)
      (e := ⟨false, [0x71, 1, 0x61, 0x73, 4, 0x11, 6, 7, 7, 0x7a, 8, 0, 0, 0, 0, 0, 0, 0, 6],
        [0x71, 1, 0x61, 0x73, 2, 0x11, 6]⟩) (v := 6) rfl rfl (by decide) (by decide) (.inl rfl)
  have hrun : Along (inputStep plainCrypto plainHmac) (Safe plainCrypto) (hotpDevice false)
      [.calculate askCode [], .powerCycle, .calculate askCode []] :=
    ⟨hfirst, trivial, hsecond, trivial⟩
  exact ⟨hrun, hotp_counters_increase plainCrypto plainHmac _ (hotpDevice_fresh false) _ hrun⟩

/-- The commit of a legacy file is still open when its code goes out: after a power loss the same
counter is used again. -/
theorem legacy_counter_repeats :
    Fresh plainCrypto (hotpDevice true) ∧
    (run (inputStep plainCrypto plainHmac) (hotpDevice true)
      [.calculate askCode [.ok, .refused false], .powerCycle, .calculate askCode []]).log.map Prod.fst =
      [.hotp ⟨0, by decide⟩ 5 [0, 0, 0, 0], .hotp ⟨0, by decide⟩ 5 [0, 0, 0, 0]] ∧
    ¬ Increasing (run (inputStep plainCrypto plainHmac) (hotpDevice true)
      [.calculate askCode [.ok, .refused false], .powerCycle, .calculate askCode []]).log := by
  have hcodes : (run (inputStep plainCrypto plainHmac) (hotpDevice true)
      [.calculate askCode [.ok, .refused false], .powerCycle, .calculate askCode []]).log.map Prod.fst =
      [.hotp ⟨0, by decide⟩ 5 [0, 0, 0, 0], .hotp ⟨0, by decide⟩ 5 [0, 0, 0, 0]] := by
    decide +kernel
  refine ⟨hotpDevice_fresh true, hcodes, ?_⟩
  intro hincreasing
  obtain ⟨a, rest, hlog, ha, hrest⟩ := List.map_eq_cons_iff.mp hcodes
  obtain ⟨b, rest', rfl, hb, -⟩ := List.map_eq_cons_iff.mp hrest
  rw [hlog] at hincreasing
  have hlater := List.rel_of_pairwise_cons hincreasing List.mem_cons_self _ _ _ _ _ ha hb
  exact absurd hlater (Nat.lt_irrefl 5)

end KeyWallet.Oath.Store
