import KeyWallet.KeyDevice
import KeyWallet.Hkdf

/-! The key derivation of the vault's HPKE, vault.c: HKDF and its labeled forms. The local arrays have their sizes,
and a copy beyond them is an error of its own. HMAC-SHA512 is a parameter, which may fail. -/
namespace KeyWallet.Hpke

open Hkdf (Mac)

/-- VAULT_HPKE_NH. -/
def nh : Nat := 64

/-- VAULT_HPKE_EXPAND_INFO_MAX. -/
def expandInfoMax : Nat := 256

/-- VAULT_HPKE_LABELED_INPUT_MAX. -/
def labeledInputMax : Nat := 256

/-- The values of size_t. -/
def sizeValues : Nat := 4294967296

inductive Status
  | ok
  | wrongData
  | execError
  deriving DecidableEq, Repr

/-- A copy went beyond its array, or the fuel did not last. -/
inductive Fault
  | outside
  | fuel
  deriving DecidableEq, Repr

/-- A pointer with a length. -/
inductive Arg
  | null (len : Nat)
  | data (xs : Bytes)
  deriving DecidableEq, Repr

namespace Arg

def len : Arg → Nat
  | .null len => len
  | .data xs => xs.length

def bytes : Arg → Bytes
  | .null _ => []
  | .data xs => xs

def isNull : Arg → Bool
  | .null _ => true
  | .data _ => false

/-- There is a length, but nothing that it is of. -/
def bad (a : Arg) : Bool := a.isNull && decide (0 < a.len)

end Arg

/-- memcpy into an array. -/
def put (array : Bytes) (at' : Nat) (xs : Bytes) : Except Fault Bytes :=
  if at' + xs.length ≤ array.length then .ok (array.take at' ++ xs ++ array.drop (at' + xs.length))
  else .error .outside

/-- memcpy under a condition. -/
def putWhen (c : Bool) (array : Bytes) (at' : Nat) (xs : Bytes) : Except Fault Bytes :=
  if c then put array at' xs else .ok array

section Functions

variable (h : Mac nh)

/-- vault_hpke_hkdf_extract. -/
def hkdfExtract (salt ikm : Arg) (prk : Bytes) : Status × Bytes :=
  if salt.bad ∨ ikm.bad ∨ nh < salt.len then (.wrongData, prk)
  else
    match h.run (if salt.len = 0 then List.replicate nh 0 else salt.bytes) ikm.bytes with
    | some t => (.ok, t)
    | none => (.execError, prk)

/-- The variables of vault_hpke_hkdf_expand. -/
structure Work where
  input : Bytes
  previous : Bytes
  output : Bytes
  written : Nat
  counter : Byte

/-- The input of a block: the block before it but for the first, the info and the counter. -/
def blockInput (info : Bytes) (w : Work) : Except Fault (Bytes × Nat) := do
  let input ← putWhen (1 < w.counter.toNat) w.input 0 w.previous
  let inputLen := if 1 < w.counter.toNat then w.previous.length else 0
  let input ← putWhen (0 < info.length) input inputLen info
  let input ← put input (inputLen + info.length) [w.counter]
  return (input, inputLen + info.length + 1)

/-- The body of the loop; nothing when HMAC fails. -/
def expandBlock (prk info : Bytes) (outputLen : Nat) (w : Work) : Except Fault (Option Work) := do
  let (input, inputLen) ← blockInput info w
  match h.run prk (input.take inputLen) with
  | none => return none
  | some t =>
    let copyLen := min (outputLen - w.written) nh
    let output ← put w.output w.written (t.take copyLen)
    return some ⟨input, t, output, w.written + copyLen, w.counter + 1⟩

/-- The loop. -/
def expandLoop (prk info : Bytes) (outputLen : Nat) : Nat → Work → Except Fault (Status × Bytes)
  | 0, _ => .error .fuel
  | fuel + 1, w =>
    if w.written < outputLen then
      match expandBlock h prk info outputLen w with
      | .error fault => .error fault
      | .ok none => .ok (.execError, w.output)
      | .ok (some w') => expandLoop prk info outputLen fuel w'
    else .ok (.ok, w.output)

/-- vault_hpke_hkdf_expand, with the array that it writes to. -/
def hkdfExpand (prk : Bytes) (info : Arg) (output : Bytes) (outputLen fuel : Nat) :
    Except Fault (Status × Bytes) :=
  if info.bad ∨ expandInfoMax < info.len ∨ 255 * nh < outputLen then .ok (.wrongData, output)
  else
    expandLoop h prk info.bytes outputLen fuel
      ⟨List.replicate (nh + expandInfoMax + 1) 0, List.replicate nh 0, output, 0, 1⟩

/-- "HPKE-v1". -/
def version : Bytes := [0x48, 0x50, 0x4b, 0x45, 0x2d, 0x76, 0x31]

/-- vault_hpke_labeled_extract. -/
def labeledExtract (suiteId salt label ikm : Arg) (output : Bytes) : Except Fault (Status × Bytes) :=
  let labeledLen := (version.length + suiteId.len + label.len + ikm.len) % sizeValues
  if suiteId.isNull ∨ suiteId.len = 0 ∨ label.bad ∨ ikm.bad ∨ labeledInputMax < labeledLen then
    .ok (.wrongData, output)
  else do
    let labeled ← put (List.replicate labeledInputMax 0) 0 version
    let labeled ← put labeled version.length suiteId.bytes
    let labeled ← put labeled (version.length + suiteId.len) label.bytes
    let labeled ← put labeled (version.length + suiteId.len + label.len) ikm.bytes
    return hkdfExtract h salt (.data (labeled.take labeledLen)) output

/-- The length of the output in two bytes. -/
def lengthBytes (outputLen : Nat) : Bytes := [BitVec.ofNat 8 (outputLen / 256), BitVec.ofNat 8 outputLen]

/-- vault_hpke_labeled_expand. -/
def labeledExpand (suiteId : Arg) (prk : Bytes) (label info : Arg) (output : Bytes) (outputLen fuel : Nat) :
    Except Fault (Status × Bytes) :=
  let labeledLen := (2 + version.length + suiteId.len + label.len + info.len) % sizeValues
  if suiteId.isNull ∨ suiteId.len = 0 ∨ label.bad ∨ info.bad ∨ 0xffff < outputLen ∨ expandInfoMax < labeledLen then
    .ok (.wrongData, output)
  else do
    let labeled ← put (List.replicate expandInfoMax 0) 0 (lengthBytes outputLen)
    let labeled ← put labeled 2 version
    let labeled ← put labeled (2 + version.length) suiteId.bytes
    let labeled ← put labeled (2 + version.length + suiteId.len) label.bytes
    let labeled ← put labeled (2 + version.length + suiteId.len + label.len) info.bytes
    hkdfExpand h prk (.data (labeled.take labeledLen)) output outputLen fuel

end Functions

/-! What RFC 5869 and RFC 9180 ask for. -/

section Meaning

variable (h : Mac nh)

/-- The result for `len` bytes of output in `output`: the output keying material in its first `len` bytes, with
the others left as they are. -/
structure Expanded (prk info output : Bytes) (len : Nat) (r : Status × Bytes) : Prop where
  ok : ∀ okm, Hkdf.expand h prk info len = some okm → okm.length = len ∧ r = (.ok, okm ++ output.drop len)
  failed : Hkdf.expand h prk info len = none → r.1 = .execError ∧ r.2.length = output.length ∧
    r.2.drop len = output.drop len

/-- vault_hpke_hkdf_expand ends, and with the output of HKDF-Expand. -/
def ExpandMeets (prk : Bytes) : Prop :=
  ∀ info output outputLen, info.bad = false → info.len ≤ expandInfoMax → outputLen ≤ 255 * nh →
    outputLen ≤ output.length → ∃ r, (∀ fuel, 255 < fuel → hkdfExpand h prk info output outputLen fuel = .ok r) ∧
      Expanded h prk info.bytes output outputLen r

def labeledIkm (suiteId label ikm : Arg) : Bytes := version ++ suiteId.bytes ++ label.bytes ++ ikm.bytes

def labeledInfo (suiteId label info : Arg) (outputLen : Nat) : Bytes :=
  lengthBytes outputLen ++ version ++ suiteId.bytes ++ label.bytes ++ info.bytes

/-- What both labeled forms ask of their arguments. -/
structure Labeled (suiteId label input : Arg) : Prop where
  suited : suiteId.bytes ≠ []
  labelGiven : label.bad = false
  inputGiven : input.bad = false

/-- The salt has at most the size of the hash, and the labeled key material fits. -/
structure ExtractAccepts (suiteId salt label ikm : Arg) : Prop extends Labeled suiteId label ikm where
  saltFits : salt.bad = false ∧ salt.len ≤ nh
  fits : (labeledIkm suiteId label ikm).length ≤ labeledInputMax

/-- The output is not longer than 255 blocks, and the labeled info fits. -/
structure ExpandAccepts (suiteId label info : Arg) (outputLen : Nat) : Prop extends Labeled suiteId label info where
  outputFits : outputLen ≤ 255 * nh
  fits : (labeledInfo suiteId label info outputLen).length ≤ expandInfoMax

/-- LabeledExtract, for arguments whose lengths do not add up to more than a size_t holds. -/
def LabeledExtractMeets : Prop :=
  ∀ suiteId salt label ikm output, version.length + suiteId.len + label.len + ikm.len < sizeValues →
    (ExtractAccepts suiteId salt label ikm → labeledExtract h suiteId salt label ikm output =
      .ok ((Hkdf.extract h salt.bytes (labeledIkm suiteId label ikm)).elim (.execError, output) fun t => (.ok, t))) ∧
    (¬ ExtractAccepts suiteId salt label ikm →
      labeledExtract h suiteId salt label ikm output = .ok (.wrongData, output))

/-- LabeledExpand, for such arguments. -/
def LabeledExpandMeets (prk : Bytes) : Prop :=
  ∀ suiteId label info output outputLen,
    2 + version.length + suiteId.len + label.len + info.len < sizeValues → outputLen ≤ output.length →
    (ExpandAccepts suiteId label info outputLen →
      ∃ r, (∀ fuel, 255 < fuel → labeledExpand h suiteId prk label info output outputLen fuel = .ok r) ∧
        Expanded h prk (labeledInfo suiteId label info outputLen) output outputLen r) ∧
    (¬ ExpandAccepts suiteId label info outputLen → ∀ fuel,
      labeledExpand h suiteId prk label info output outputLen fuel = .ok (.wrongData, output))

end Meaning

/-! Copies. -/

section Copies

theorem put_behind {front rest xs : Bytes} {n : Nat} (hn : front.length = n) (hle : xs.length ≤ rest.length) :
    put (front ++ rest) n xs = .ok (front ++ xs ++ rest.drop xs.length) := by
  unfold put
  have hfits : n + xs.length ≤ (front ++ rest).length := by
    rw [List.length_append]
    omega
  rw [if_pos hfits, List.take_left' hn, ← hn, List.drop_append, List.drop_eq_nil_of_le (Nat.le_add_right ..),
    List.nil_append, Nat.add_sub_cancel_left]

/-- The array has `size` bytes, and `front` is what has been copied to its beginning. -/
def Holds (size : Nat) (front array : Bytes) : Prop := ∃ rest, array = front ++ rest ∧ array.length = size

namespace Holds

variable {size n : Nat} {front array xs : Bytes}

theorem start (size : Nat) : Holds size [] (List.replicate size 0) :=
  ⟨List.replicate size 0, rfl, List.length_replicate⟩

theorem put (hh : Holds size front array) (xs : Bytes) (hn : front.length = n) (hle : n + xs.length ≤ size) :
    ∃ array', put array n xs = .ok array' ∧ Holds size (front ++ xs) array' := by
  obtain ⟨rest, rfl, hsize⟩ := hh
  rw [List.length_append] at hsize
  have hrest : xs.length ≤ rest.length := by omega
  refine ⟨_, put_behind hn hrest, rest.drop xs.length, rfl, ?_⟩
  rw [List.length_append, List.length_append, List.length_drop]
  omega

theorem taken (hh : Holds size front array) : array.take front.length = front := by
  obtain ⟨rest, rfl, -⟩ := hh
  exact List.take_left' rfl

end Holds

theorem Arg.len_bytes {a : Arg} (h : a.bad = false) : a.bytes.length = a.len := by
  cases a with
  | null len =>
    have hzero : ¬ 0 < len := of_decide_eq_false h
    exact (Nat.eq_zero_of_not_pos hzero).symm
  | data xs => rfl

end Copies

/-! HKDF-Expand. -/

section Expand

variable {h : Mac nh} {prk info output : Bytes} {outputLen : Nat}

theorem blockInput_eq {w : Work} (hinput : w.input.length = nh + expandInfoMax + 1) (hprevious : w.previous.length = nh)
    (hinfo : info.length ≤ expandInfoMax) : ∃ input inputLen, blockInput info w = .ok (input, inputLen) ∧
      input.length = nh + expandInfoMax + 1 ∧
      input.take inputLen = (if 1 < w.counter.toNat then w.previous else []) ++ info ++ [w.counter] := by
  have hnh : nh = 64 := rfl
  have hmax : expandInfoMax = 256 := rfl
  -- the first copy
  obtain ⟨head, rest, hhead, hcopied, hcount, htotal, hsmall⟩ : ∃ head rest,
      (if 1 < w.counter.toNat then w.previous else []) = head ∧
      putWhen (1 < w.counter.toNat) w.input 0 w.previous = .ok (head ++ rest) ∧
      (if 1 < w.counter.toNat then w.previous.length else 0) = head.length ∧
      head.length + rest.length = nh + expandInfoMax + 1 ∧ head.length ≤ nh := by
    unfold putWhen
    by_cases hlater : 1 < w.counter.toNat
    · have hput : put ([] ++ w.input) 0 w.previous =
          .ok ([] ++ w.previous ++ w.input.drop w.previous.length) := put_behind rfl (by omega)
      refine ⟨w.previous, w.input.drop w.previous.length, if_pos hlater, ?_, if_pos hlater, ?_, by omega⟩
      · rw [if_pos (decide_eq_true hlater)]
        exact hput
      · rw [List.length_drop]
        omega
    · have hfalse : ¬ decide (1 < w.counter.toNat) = true := fun hyes => hlater (of_decide_eq_true hyes)
      refine ⟨[], w.input, if_neg hlater, if_neg hfalse, if_neg hlater, ?_, Nat.zero_le nh⟩
      rw [List.length_nil, hinput, Nat.zero_add]
  -- the second one
  have hsecond : putWhen (0 < info.length) (head ++ rest) head.length info =
      .ok (head ++ info ++ rest.drop info.length) := by
    unfold putWhen
    by_cases hany : 0 < info.length
    · rw [if_pos (decide_eq_true hany), put_behind rfl (by omega)]
    · have hnil : info = [] := List.length_eq_zero_iff.mp (by omega)
      subst hnil
      rw [List.append_nil]
      rfl
  have hboth : (head ++ info).length = head.length + info.length := List.length_append
  have hroom : [w.counter].length ≤ (rest.drop info.length).length := by
    rw [List.length_drop, List.length_singleton]
    omega
  refine ⟨head ++ info ++ [w.counter] ++ (rest.drop info.length).drop 1, head.length + info.length + 1, ?_, ?_, ?_⟩
  · unfold blockInput
    rw [hcopied]
    dsimp only [bind, Except.bind]
    rw [hcount, hsecond]
    dsimp only
    rw [put_behind hboth hroom]
    rfl
  · rw [List.length_append, List.length_append, hboth, List.length_drop, List.length_drop, List.length_singleton]
    omega
  · rw [hhead]
    apply List.take_left'
    rw [List.length_append, hboth, List.length_singleton]

/-- After `i` blocks, which make up `ts`. -/
structure Turned (h : Mac nh) (prk info output : Bytes) (outputLen i : Nat) (ts : Bytes) (w : Work) : Prop where
  blocks : Hkdf.blocks h prk info i = some ts
  last : 0 < i → Hkdf.block h prk info i = some w.previous
  inputSize : w.input.length = nh + expandInfoMax + 1
  previousSize : w.previous.length = nh
  written : w.written = min outputLen (i * nh)
  output : w.output = ts.take outputLen ++ output.drop (min outputLen (i * nh))
  counter : w.counter = BitVec.ofNat 8 (i + 1)

namespace Turned

variable {i : Nat} {ts : Bytes} {w : Work}

theorem counter_toNat (hw : Turned h prk info output outputLen i ts w) (hi : i < 255) : w.counter.toNat = i + 1 := by
  rw [hw.counter, BitVec.toNat_ofNat]
  exact Nat.mod_eq_of_lt (by omega)

theorem output_short (hw : Turned h prk info output outputLen i ts w) (hlt : i * nh < outputLen) :
    w.output = ts ++ output.drop (i * nh) := by
  have hlen := Hkdf.blocks_length hw.blocks
  rw [hw.output, List.take_of_length_le (by omega), Nat.min_eq_right (by omega)]

theorem message (hw : Turned h prk info output outputLen i ts w) (hi : i < 255) :
    Hkdf.block h prk info (i + 1) =
      h.run prk ((if 1 < w.counter.toNat then w.previous else []) ++ info ++ [w.counter]) := by
  have hdef : Hkdf.block h prk info (i + 1) =
      (Hkdf.block h prk info i).bind fun t => h.run prk (t ++ info ++ [BitVec.ofNat 8 (i + 1)]) := rfl
  have hcounter := hw.counter_toNat hi
  have hbefore : Hkdf.block h prk info i = some (if 1 < w.counter.toNat then w.previous else []) := by
    by_cases hfirst : i = 0
    · subst hfirst
      rw [if_neg (by omega)]
      rfl
    · rw [if_pos (by omega)]
      exact hw.last (by omega)
  rw [hdef, hbefore, ← hw.counter]
  rfl

end Turned

theorem expandBlock_turns {i : Nat} {ts : Bytes} {w : Work} (hw : Turned h prk info output outputLen i ts w)
    (hinfo : info.length ≤ expandInfoMax) (hi : i < 255) (hlt : i * nh < outputLen)
    (hroom : outputLen ≤ output.length) :
    (∃ t w', Hkdf.block h prk info (i + 1) = some t ∧ expandBlock h prk info outputLen w = .ok (some w') ∧
      Turned h prk info output outputLen (i + 1) (ts ++ t) w') ∨
    (Hkdf.block h prk info (i + 1) = none ∧ expandBlock h prk info outputLen w = .ok none) := by
  have hnh : nh = 64 := rfl
  obtain ⟨input, inputLen, hblock, hsize, htake⟩ := blockInput_eq hw.inputSize hw.previousSize hinfo
  have hmessage := hw.message hi
  rw [← htake] at hmessage
  cases hrun : h.run prk (input.take inputLen) with
  | none =>
    refine Or.inr ⟨hmessage.trans hrun, ?_⟩
    unfold expandBlock
    rw [hblock]
    dsimp only [bind, Except.bind]
    rw [hrun]
    rfl
  | some t =>
    have ht := h.length _ _ _ hrun
    have hts := Hkdf.blocks_length hw.blocks
    have hwritten : w.written = i * nh := by
      rw [hw.written]
      omega
    -- the bytes that are still wanted of this block
    have hcopied : (t.take (min (outputLen - w.written) nh)).length = min (outputLen - w.written) nh := by
      rw [List.length_take]
      omega
    have hput : put w.output w.written (t.take (min (outputLen - w.written) nh)) =
        .ok (ts ++ t.take (min (outputLen - w.written) nh) ++
          (output.drop (i * nh)).drop (min (outputLen - w.written) nh)) := by
      have hfits : (t.take (min (outputLen - w.written) nh)).length ≤ (output.drop (i * nh)).length := by
        rw [hcopied, List.length_drop]
        omega
      rw [hw.output_short hlt, put_behind (hts.trans hwritten.symm) hfits, hcopied]
    refine Or.inl ⟨t, ⟨input, t, ts ++ t.take (min (outputLen - w.written) nh) ++
      (output.drop (i * nh)).drop (min (outputLen - w.written) nh),
      w.written + min (outputLen - w.written) nh, w.counter + 1⟩, hmessage.trans hrun, ?_, ?_⟩
    · unfold expandBlock
      rw [hblock]
      dsimp only [bind, Except.bind]
      rw [hrun]
      dsimp only
      rw [hput]
      rfl
    · have hsucc : (i + 1) * nh = i * nh + nh := Nat.succ_mul i nh
      have hend : w.written + min (outputLen - w.written) nh = min outputLen ((i + 1) * nh) := by
        rw [hwritten, hsucc]
        omega
      have hall : ts ++ t.take (min (outputLen - w.written) nh) = (ts ++ t).take outputLen := by
        rw [List.take_append, List.take_of_length_le (by omega : ts.length ≤ outputLen), hts, hwritten]
        rcases Nat.le_total (outputLen - i * nh) nh with hle | hge
        · rw [Nat.min_eq_left hle]
        · rw [Nat.min_eq_right hge, List.take_of_length_le (by omega), List.take_of_length_le (by omega)]
      constructor
      · rw [Hkdf.blocks_succ hw.blocks, hmessage, hrun]
        rfl
      · intro _
        exact hmessage.trans hrun
      · exact hsize
      · exact ht
      · exact hend
      · dsimp only
        rw [hall, List.drop_drop, ← hend, hwritten]
      · dsimp only
        rw [hw.counter]
        exact (BitVec.ofNat_add (i + 1) 1).symm

theorem expandLoop_runs (hinfo : info.length ≤ expandInfoMax) (hlong : outputLen ≤ 255 * nh)
    (hroom : outputLen ≤ output.length) (left : Nat) : ∀ (i : Nat) (ts : Bytes) (w : Work),
    i + left = Hkdf.count nh outputLen → Turned h prk info output outputLen i ts w →
    ∃ r, (∀ fuel, left < fuel → expandLoop h prk info outputLen fuel w = .ok r) ∧
      Expanded h prk info output outputLen r := by
  have hnh : 0 < nh := by decide
  have hblocks := Hkdf.count_le hnh hlong
  induction left with
  | zero =>
    intro i ts w hi hw
    rw [Nat.add_zero] at hi
    have hall : outputLen ≤ i * nh := by
      rw [hi]
      exact Hkdf.count_mul hnh outputLen
    have hwritten : w.written = outputLen := by
      rw [hw.written]
      omega
    have hokm : Hkdf.expand h prk info outputLen = some (ts.take outputLen) := by
      unfold Hkdf.expand
      rw [← hi, hw.blocks]
      rfl
    refine ⟨(.ok, w.output), ?_, ?_⟩
    · intro fuel hfuel
      obtain ⟨n, rfl⟩ := Nat.exists_eq_succ_of_ne_zero (Nat.ne_of_gt hfuel)
      unfold expandLoop
      rw [if_neg (by omega)]
    · constructor
      · intro okm hsome
        have hlen := Hkdf.expand_length (by omega) hsome
        obtain rfl := Option.some.inj (hokm.symm.trans hsome)
        refine ⟨hlen, ?_⟩
        rw [hw.output, Nat.min_eq_left hall]
      · intro hnone
        rw [hokm] at hnone
        cases hnone
  | succ left ih =>
    intro i ts w hi hw
    have hlt : i * nh < outputLen := (Hkdf.lt_count_iff hnh).mp (by omega)
    have hwritten : w.written < outputLen := by
      rw [hw.written]
      omega
    rcases expandBlock_turns hw hinfo (by omega) hlt hroom with ⟨t, w', -, hturn, hw'⟩ | ⟨hnone, hturn⟩
    · obtain ⟨r, hruns, hmeets⟩ := ih (i + 1) (ts ++ t) w' (by omega) hw'
      refine ⟨r, ?_, hmeets⟩
      intro fuel hfuel
      obtain ⟨n, rfl⟩ := Nat.exists_eq_succ_of_ne_zero (Nat.ne_of_gt (Nat.lt_of_le_of_lt (Nat.zero_le _) hfuel))
      have hrest := hruns n (by omega)
      unfold expandLoop
      rw [if_pos hwritten, hturn]
      exact hrest
    · -- HMAC fails here, and HKDF-Expand has no value
      have hmissing : Hkdf.blocks h prk info (i + 1) = none := by
        rw [Hkdf.blocks_succ hw.blocks, hnone]
        rfl
      have hexpand : Hkdf.expand h prk info outputLen = none := by
        unfold Hkdf.expand
        rw [Hkdf.blocks_none hmissing (by omega)]
        rfl
      have hts := Hkdf.blocks_length hw.blocks
      have houtput := hw.output_short hlt
      refine ⟨(.execError, w.output), ?_, ?_⟩
      · intro fuel hfuel
        obtain ⟨n, rfl⟩ := Nat.exists_eq_succ_of_ne_zero (Nat.ne_of_gt (Nat.lt_of_le_of_lt (Nat.zero_le _) hfuel))
        unfold expandLoop
        rw [if_pos hwritten, hturn]
      · constructor
        · intro okm hsome
          rw [hexpand] at hsome
          cases hsome
        · intro _
          refine ⟨rfl, ?_, ?_⟩
          · rw [houtput, List.length_append, List.length_drop]
            omega
          · rw [houtput, List.drop_append, List.drop_eq_nil_of_le (by omega : ts.length ≤ outputLen), List.nil_append,
              List.drop_drop]
            apply congrArg (output.drop ·)
            omega

theorem turned_start (h : Mac nh) (prk : Bytes) : Turned h prk info output outputLen 0 []
    ⟨List.replicate (nh + expandInfoMax + 1) 0, List.replicate nh 0, output, 0, 1⟩ := by
  constructor
  · rfl
  · intro hpos
    exact absurd hpos (Nat.lt_irrefl 0)
  · exact List.length_replicate
  · exact List.length_replicate
  · dsimp only
    rw [Nat.zero_mul, Nat.min_zero]
  · dsimp only
    rw [Nat.zero_mul, Nat.min_zero, List.drop_zero, List.take_nil, List.nil_append]
  · rfl

theorem hkdfExpand_meets (h : Mac nh) (prk : Bytes) : ExpandMeets h prk := by
  intro info output outputLen hgiven hinfo hlong hroom
  have hnh : 0 < nh := by decide
  have hblocks := Hkdf.count_le hnh hlong
  have hbytes : info.bytes.length ≤ expandInfoMax := by
    rw [Arg.len_bytes hgiven]
    exact hinfo
  obtain ⟨r, hruns, hmeets⟩ := expandLoop_runs hbytes hlong hroom (Hkdf.count nh outputLen) 0 []
    _ (Nat.zero_add _) (turned_start h prk)
  refine ⟨r, ?_, hmeets⟩
  intro fuel hfuel
  have haccepted : ¬ (info.bad = true ∨ expandInfoMax < info.len ∨ 255 * nh < outputLen) := by
    rw [hgiven]
    rintro (hbad | hinfo' | hlong')
    · cases hbad
    · omega
    · omega
  unfold hkdfExpand
  rw [if_neg haccepted]
  exact hruns fuel (by omega)

end Expand

/-! The labeled forms. -/

section LabeledForms

variable {suiteId salt label ikm info : Arg}

theorem labeled_iff {input : Arg} {rest : Prop} :
    ¬ (suiteId.isNull = true ∨ suiteId.len = 0 ∨ label.bad = true ∨ input.bad = true ∨ rest) ↔
      Labeled suiteId label input ∧ ¬ rest := by
  constructor
  · intro hn
    refine ⟨⟨?_, ?_, ?_⟩, ?_⟩
    · intro hempty
      cases suiteId with
      | null len => exact hn (Or.inl rfl)
      | data xs => exact hn (Or.inr (Or.inl (List.length_eq_zero_iff.mpr hempty)))
    · apply Bool.eq_false_iff.mpr
      intro hbad
      exact hn (Or.inr (Or.inr (Or.inl hbad)))
    · apply Bool.eq_false_iff.mpr
      intro hbad
      exact hn (Or.inr (Or.inr (Or.inr (Or.inl hbad))))
    · intro hrest
      exact hn (Or.inr (Or.inr (Or.inr (Or.inr hrest))))
  · intro ⟨hl, hn⟩
    rintro (hnull | hempty | hlabel | hinput | hrest)
    · cases suiteId with
      | null len => exact hl.suited rfl
      | data xs => cases hnull
    · cases suiteId with
      | null len => exact hl.suited rfl
      | data xs => exact hl.suited (List.length_eq_zero_iff.mp hempty)
    · rw [hl.labelGiven] at hlabel
      cases hlabel
    · rw [hl.inputGiven] at hinput
      cases hinput
    · exact hn hrest

theorem Labeled.suiteId_len {input : Arg} (hl : Labeled suiteId label input) : suiteId.bytes.length = suiteId.len := by
  cases suiteId with
  | null len => exact absurd rfl hl.suited
  | data xs => rfl

theorem Labeled.copied {input : Arg} {size n : Nat} {front array : Bytes} (hl : Labeled suiteId label input)
    (hh : Holds size front array) (hn : front.length = n) (hle : n + suiteId.len + label.len + input.len ≤ size) :
    ∃ b c d, put array n suiteId.bytes = .ok b ∧ put b (n + suiteId.len) label.bytes = .ok c ∧
      put c (n + suiteId.len + label.len) input.bytes = .ok d ∧
      d.take (n + suiteId.len + label.len + input.len) = front ++ suiteId.bytes ++ label.bytes ++ input.bytes := by
  have hsuite := hl.suiteId_len
  have hlabel := Arg.len_bytes hl.labelGiven
  have hinput := Arg.len_bytes hl.inputGiven
  have hone : (front ++ suiteId.bytes).length = n + suiteId.len := by
    rw [List.length_append, hn, hsuite]
  have htwo : (front ++ suiteId.bytes ++ label.bytes).length = n + suiteId.len + label.len := by
    rw [List.length_append, hone, hlabel]
  have hthree : (front ++ suiteId.bytes ++ label.bytes ++ input.bytes).length =
      n + suiteId.len + label.len + input.len := by
    rw [List.length_append, htwo, hinput]
  obtain ⟨b, hb, hholds⟩ := hh.put suiteId.bytes hn (by omega)
  obtain ⟨c, hc, hholds⟩ := hholds.put label.bytes hone (by omega)
  obtain ⟨d, hd, hholds⟩ := hholds.put input.bytes htwo (by omega)
  refine ⟨b, c, d, hb, hc, hd, ?_⟩
  rw [← hthree]
  exact hholds.taken

theorem labeledIkm_length (hl : Labeled suiteId label ikm) :
    (labeledIkm suiteId label ikm).length = version.length + suiteId.len + label.len + ikm.len := by
  unfold labeledIkm
  rw [List.length_append, List.length_append, List.length_append, hl.suiteId_len, Arg.len_bytes hl.labelGiven,
    Arg.len_bytes hl.inputGiven]

theorem lengthBytes_length (outputLen : Nat) : (lengthBytes outputLen).length = 2 := rfl

theorem labeledInfo_length (hl : Labeled suiteId label info) (outputLen : Nat) :
    (labeledInfo suiteId label info outputLen).length =
      2 + version.length + suiteId.len + label.len + info.len := by
  unfold labeledInfo
  rw [List.length_append, List.length_append, List.length_append, List.length_append, lengthBytes_length, hl.suiteId_len,
    Arg.len_bytes hl.labelGiven, Arg.len_bytes hl.inputGiven]

/-- vault_hpke_labeled_extract hands the labeled key material on. -/
theorem labeledExtract_eq (h : Mac nh) (output : Bytes) (hl : Labeled suiteId label ikm)
    (hfits : (labeledIkm suiteId label ikm).length ≤ labeledInputMax) :
    labeledExtract h suiteId salt label ikm output =
      .ok (hkdfExtract h salt (.data (labeledIkm suiteId label ikm)) output) := by
  rw [labeledIkm_length hl] at hfits
  have hmax : labeledInputMax < sizeValues := by decide
  have hmod : (version.length + suiteId.len + label.len + ikm.len) % sizeValues =
      version.length + suiteId.len + label.len + ikm.len := Nat.mod_eq_of_lt (by omega)
  have hguard : ¬ (suiteId.isNull = true ∨ suiteId.len = 0 ∨ label.bad = true ∨ ikm.bad = true ∨
      labeledInputMax < version.length + suiteId.len + label.len + ikm.len) := by
    apply labeled_iff.mpr
    exact ⟨hl, Nat.not_lt.mpr hfits⟩
  obtain ⟨a, ha, hholds⟩ := (Holds.start labeledInputMax).put version (n := 0) rfl (by decide)
  rw [List.nil_append] at hholds
  obtain ⟨b, c, d, hb, hc, hd, htaken⟩ := hl.copied hholds rfl hfits
  unfold labeledExtract
  dsimp only
  rw [hmod, if_neg hguard, ha]
  dsimp only [bind, Except.bind]
  rw [hb]
  dsimp only
  rw [hc]
  dsimp only
  rw [hd]
  dsimp only
  rw [htaken]
  rfl

theorem labeledExtract_refused (h : Mac nh) (output : Bytes)
    (hsmall : version.length + suiteId.len + label.len + ikm.len < sizeValues)
    (hn : ¬ (Labeled suiteId label ikm ∧ (labeledIkm suiteId label ikm).length ≤ labeledInputMax)) :
    labeledExtract h suiteId salt label ikm output = .ok (.wrongData, output) := by
  have hguard : suiteId.isNull = true ∨ suiteId.len = 0 ∨ label.bad = true ∨ ikm.bad = true ∨
      labeledInputMax < (version.length + suiteId.len + label.len + ikm.len) % sizeValues := by
    rw [Nat.mod_eq_of_lt hsmall]
    by_contra hpasses
    obtain ⟨hl, hshort⟩ := labeled_iff.mp hpasses
    apply hn
    refine ⟨hl, ?_⟩
    rw [labeledIkm_length hl]
    exact Nat.not_lt.mp hshort
  unfold labeledExtract
  dsimp only
  rw [if_pos hguard]

theorem hkdfExtract_eq (h : Mac nh) (xs output : Bytes) (hgiven : salt.bad = false) (hfits : salt.len ≤ nh) :
    hkdfExtract h salt (.data xs) output =
      (Hkdf.extract h salt.bytes xs).elim (.execError, output) fun t => (.ok, t) := by
  have hlen := Arg.len_bytes hgiven
  have hkey : (if salt.len = 0 then List.replicate nh 0 else salt.bytes) =
      if salt.bytes = [] then List.replicate nh 0 else salt.bytes := by
    by_cases hnone : salt.bytes = []
    · rw [hnone, List.length_nil] at hlen
      rw [if_pos hlen.symm, if_pos hnone]
    · have hsome : salt.len ≠ 0 := by
        intro hzero
        exact hnone (List.length_eq_zero_iff.mp (hlen.trans hzero))
      rw [if_neg hsome, if_neg hnone]
  have hguard : ¬ (salt.bad = true ∨ (Arg.data xs).bad = true ∨ nh < salt.len) := by
    rw [hgiven]
    rintro (hc | hc | hc)
    · cases hc
    · cases hc
    · omega
  have hdata : (Arg.data xs).bytes = xs := rfl
  unfold hkdfExtract Hkdf.extract
  rw [if_neg hguard, hkey, hdata]
  cases h.run (if salt.bytes = [] then List.replicate nh 0 else salt.bytes) xs with
  | none => rfl
  | some t => rfl

theorem hkdfExtract_refused (h : Mac nh) (xs output : Bytes) (hn : ¬ (salt.bad = false ∧ salt.len ≤ nh)) :
    hkdfExtract h salt (.data xs) output = (.wrongData, output) := by
  have hguard : salt.bad = true ∨ (Arg.data xs).bad = true ∨ nh < salt.len := by
    by_contra hpasses
    apply hn
    constructor
    · apply Bool.eq_false_iff.mpr
      intro hbad
      exact hpasses (Or.inl hbad)
    · apply Nat.not_lt.mp
      intro hlong
      exact hpasses (Or.inr (Or.inr hlong))
  unfold hkdfExtract
  rw [if_pos hguard]

theorem labeledExtract_meets (h : Mac nh) : LabeledExtractMeets h := by
  intro suiteId salt label ikm output hsmall
  constructor
  · intro hacc
    rw [labeledExtract_eq h output hacc.toLabeled hacc.fits,
      hkdfExtract_eq h _ output hacc.saltFits.1 hacc.saltFits.2]
  · intro hrefused
    by_cases hreaches : Labeled suiteId label ikm ∧ (labeledIkm suiteId label ikm).length ≤ labeledInputMax
    · have hsalt : ¬ (salt.bad = false ∧ salt.len ≤ nh) := by
        intro hfits
        exact hrefused ⟨hreaches.1, hfits, hreaches.2⟩
      rw [labeledExtract_eq h output hreaches.1 hreaches.2, hkdfExtract_refused h _ output hsalt]
    · exact labeledExtract_refused h output hsmall hreaches

/-- vault_hpke_labeled_expand hands the labeled info on. -/
theorem labeledExpand_eq (h : Mac nh) (prk output : Bytes) {outputLen : Nat} (hl : Labeled suiteId label info)
    (hfits : (labeledInfo suiteId label info outputLen).length ≤ expandInfoMax) (hlong : outputLen ≤ 0xffff)
    (fuel : Nat) : labeledExpand h suiteId prk label info output outputLen fuel =
      hkdfExpand h prk (.data (labeledInfo suiteId label info outputLen)) output outputLen fuel := by
  rw [labeledInfo_length hl] at hfits
  have hmax : expandInfoMax < sizeValues := by decide
  have hmod : (2 + version.length + suiteId.len + label.len + info.len) % sizeValues =
      2 + version.length + suiteId.len + label.len + info.len := Nat.mod_eq_of_lt (by omega)
  have hguard : ¬ (suiteId.isNull = true ∨ suiteId.len = 0 ∨ label.bad = true ∨ info.bad = true ∨ 0xffff < outputLen ∨
      expandInfoMax < 2 + version.length + suiteId.len + label.len + info.len) := by
    apply labeled_iff.mpr
    refine ⟨hl, ?_⟩
    omega
  obtain ⟨z, hz, hholds⟩ := (Holds.start expandInfoMax).put (lengthBytes outputLen) (n := 0) rfl
    (by rw [lengthBytes_length]; decide)
  rw [List.nil_append] at hholds
  obtain ⟨a, ha, hholds⟩ := hholds.put version (lengthBytes_length outputLen) (by decide)
  have hfront : (lengthBytes outputLen ++ version).length = 2 + version.length := by
    rw [List.length_append, lengthBytes_length]
  obtain ⟨b, c, d, hb, hc, hd, htaken⟩ := hl.copied hholds hfront hfits
  unfold labeledExpand
  dsimp only
  rw [hmod, if_neg hguard, hz]
  dsimp only [bind, Except.bind]
  rw [ha]
  dsimp only
  rw [hb]
  dsimp only
  rw [hc]
  dsimp only
  rw [hd]
  dsimp only
  rw [htaken]
  rfl

theorem labeledExpand_refused (h : Mac nh) (prk output : Bytes) {outputLen : Nat}
    (hsmall : 2 + version.length + suiteId.len + label.len + info.len < sizeValues)
    (hn : ¬ (Labeled suiteId label info ∧ (labeledInfo suiteId label info outputLen).length ≤ expandInfoMax ∧
      outputLen ≤ 0xffff)) (fuel : Nat) :
    labeledExpand h suiteId prk label info output outputLen fuel = .ok (.wrongData, output) := by
  have hguard : suiteId.isNull = true ∨ suiteId.len = 0 ∨ label.bad = true ∨ info.bad = true ∨ 0xffff < outputLen ∨
      expandInfoMax < (2 + version.length + suiteId.len + label.len + info.len) % sizeValues := by
    rw [Nat.mod_eq_of_lt hsmall]
    by_contra hpasses
    obtain ⟨hl, hshort⟩ := labeled_iff.mp hpasses
    apply hn
    refine ⟨hl, ?_⟩
    rw [labeledInfo_length hl]
    omega
  unfold labeledExpand
  dsimp only
  rw [if_pos hguard]

theorem labeledExpand_meets (h : Mac nh) (prk : Bytes) : LabeledExpandMeets h prk := by
  intro suiteId label info output outputLen hsmall hroom
  have hcap : 255 * nh ≤ 0xffff := by decide
  constructor
  · intro hacc
    obtain ⟨r, hruns, hmeets⟩ := hkdfExpand_meets h prk (.data (labeledInfo suiteId label info outputLen)) output
      outputLen rfl hacc.fits hacc.outputFits hroom
    refine ⟨r, ?_, hmeets⟩
    intro fuel hfuel
    rw [labeledExpand_eq h prk output hacc.toLabeled hacc.fits (Nat.le_trans hacc.outputFits hcap)]
    exact hruns fuel hfuel
  · intro hrefused fuel
    by_cases hreaches : Labeled suiteId label info ∧
        (labeledInfo suiteId label info outputLen).length ≤ expandInfoMax ∧ outputLen ≤ 0xffff
    · have hlong : 255 * nh < outputLen := by
        apply Nat.not_le.mp
        intro hfits
        exact hrefused ⟨hreaches.1, hfits, hreaches.2.1⟩
      rw [labeledExpand_eq h prk output hreaches.1 hreaches.2.1 hreaches.2.2]
      unfold hkdfExpand
      rw [if_pos (Or.inr (Or.inr hlong))]
    · exact labeledExpand_refused h prk output hsmall hreaches fuel

end LabeledForms

/-- The key derivation is HKDF, and its labeled forms are those of HPKE where their arguments are accepted. -/
theorem hpke_derives_keys (h : Mac nh) (prk : Bytes) :
    ExpandMeets h prk ∧ LabeledExtractMeets h ∧ LabeledExpandMeets h prk :=
  ⟨hkdfExpand_meets h prk, labeledExtract_meets h, labeledExpand_meets h prk⟩

theorem plain_length (_key _message t : Hkdf.Bytes) (ht : some (List.replicate nh (0 : BitVec 8)) = some t) :
    t.length = nh := by
  rw [← Option.some.inj ht, List.length_replicate]

/-- A hash with one result. -/
def plainMac : Mac nh where
  run _ _ := some (List.replicate nh 0)
  length := plain_length

/-- Encodings that fit are refused: without a suite id, with a salt of 65 bytes and for 16321 bytes of output. -/
theorem fitting_refused :
    ((labeledIkm (.data []) (.data []) (.data [])).length = 7 ∧
      labeledExtract plainMac (.data []) (.data []) (.data []) (.data []) [] = .ok (.wrongData, [])) ∧
    ((labeledIkm (.data [1]) (.data []) (.data [])).length = 8 ∧
      labeledExtract plainMac (.data [1]) (.data (List.replicate 65 0)) (.data []) (.data []) [] =
        .ok (.wrongData, [])) ∧
    ((labeledInfo (.data [1]) (.data []) (.data []) 16321).length = 10 ∧
      labeledExpand plainMac (.data [1]) (List.replicate nh 0) (.data []) (.data []) (List.replicate 16321 0) 16321 256 =
        .ok (.wrongData, List.replicate 16321 0)) := by
  have hl : Labeled (.data [1]) (.data []) (.data []) := ⟨by decide, rfl, rfl⟩
  have hlong : 255 * nh < 16321 := by decide
  refine ⟨by decide +kernel, by decide +kernel, by decide, ?_⟩
  rw [labeledExpand_eq plainMac _ _ hl (by decide) (by decide)]
  unfold hkdfExpand
  rw [if_pos (Or.inr (Or.inr hlong))]

end KeyWallet.Hpke
