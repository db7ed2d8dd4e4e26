import KeyWallet.FlashStore

/-! What a write promises: afterwards the file holds what was meant, the other files what they held, and after
an error every file holds what it held. -/
namespace KeyWallet.FlashFile

open StepSystem (Along run)

/-- What an operation is to do to the contents of the files. -/
def Op.Lawful (l : Layout) (s : State) (op : Op) : Prop :=
  (∀ g ≠ op.fid, contents (step l s op) g = contents s g) ∧
    match op with
    | .put fid bytes _ =>
      ((op.call l s).1 = true → contents (step l s op) fid = bytes) ∧
        ((op.call l s).1 = false → contents (step l s op) fid = contents s fid)
    | .putOffset fid bytes offset _ =>
      ((op.call l s).1 = true → contents (step l s op) fid = splice (contents s fid) offset bytes) ∧
        ((op.call l s).1 = false → contents (step l s op) fid = contents s fid)
    | .clear fid _ => (op.call l s).1 = true → contents (step l s op) fid = []

/-- All calls of a write in place succeed. -/
structure Overwrites (rs : WriteReplies) (m : Memory) (d : Nat) (bytes : Bytes) (partly : Bool) : Prop where
  length : partly = true ∨ rs.lengthInPlace = none
  data : bytes = [] ∨ rs.dataInPlace = none
  commit : fileSize m d ≤ flashSectorSize ∨ rs.commitInPlace = true

/-- A write in place is done, or has not begun to change the file. -/
def AllOrNothing (rs : WriteReplies) (m : Memory) (d : Nat) (bytes : Bytes) (partly : Bool) : Prop :=
  Overwrites rs m d bytes partly ∨ Unwritten rs m d bytes partly

/-- The answers with which an operation does what it is to do. -/
def Op.Meets (l : Layout) (s : State) (op : Op) : Prop := op.Safe AllOrNothing l s

section InPlace

variable {m : Memory} {d offset : Nat} {rs : WriteReplies} {bytes : Bytes} {partly : Bool}

theorem lengthInPlaceOf_done (h : Overwrites rs m d bytes partly) :
    (lengthInPlaceOf rs m d bytes.length partly).1 = true := by
  rcases h.length with rfl | hnone
  · rfl
  · rw [lengthInPlaceOf, hnone]
    split
    · rfl
    · split
      · rfl
      · rfl

theorem Overwrites.done (h : Overwrites rs m d bytes partly) :
    (writeInPlace rs m d bytes offset partly).1 = true := by
  rw [writeInPlace_eq, andThen_second (lengthInPlaceOf_done h)]
  have hcommit : (decide (fileSize m d ≤ flashSectorSize) || rs.commitInPlace) = true := by
    rcases h.commit with hc | hc
    · simp [hc]
    · simp [hc]
  have hdata : (if bytes = [] then (true, (lengthInPlaceOf rs m d bytes.length partly).2)
      else program (lengthInPlaceOf rs m d bytes.length partly).2 (d + lengthSize m d + offset) bytes
        rs.dataInPlace).1 = true := by
    by_cases hb : bytes = []
    · rw [if_pos hb]
    · rw [if_neg hb, h.data.resolve_left hb]
      rfl
  rw [andThen_second hdata]
  exact hcommit

theorem AllOrNothing.within (h : AllOrNothing rs m d bytes partly) (hf : Fits m d bytes offset partly) :
    LengthWithin rs m d bytes.length partly := by
  have hroom := hf.room
  rw [LengthWithin]
  rcases h with h | h
  · obtain ⟨hlen, hfile⟩ := lengthInPlaceOf_ok hf (lengthInPlaceOf_done h)
    rw [hlen, hfile]
    split
    · exact Nat.le_refl _
    · omega
  · have hlen := h.length.1
    have hfile := h.length.2
    omega

theorem AllOrNothing.stored {r : Bool × Memory} (h : AllOrNothing rs m d bytes partly)
    (hf : Fits m d bytes offset partly) (hr : r = writeInPlace rs m d bytes offset partly) :
    (r.1 = true → stored r.2 (some d) = written (stored m (some d)) offset bytes partly) ∧
      (r.1 = false → stored r.2 (some d) = stored m (some d)) := by
  rcases h with h | h
  · have hdone : r.1 = true := by
      rw [hr]
      exact h.done
    refine ⟨fun _ => writeInPlace_ok hf hr hdone, ?_⟩
    intro hfail
    rw [hdone] at hfail
    cases hfail
  · obtain ⟨hfail, hsame⟩ := writeInPlace_unwritten hf h hr
    refine ⟨?_, fun _ => hsame⟩
    intro hdone
    rw [hfail] at hdone
    cases hdone

end InPlace

section Run

variable {l : Layout} {s s' : State} {chains : Bool → List Nat} {fid : Fid} {rs : WriteReplies} {bytes : Bytes}
  {offset : Nat} {partly : Bool}

theorem write_contents {r : Bool × File × Memory} (h : Sound l s chains) (hoff : partly = false → offset = 0)
    (hsafe : ¬ Refused s.mem (s.files fid) bytes offset partly →
      WriteSafe (fun d => AllOrNothing rs s.mem d bytes partly) l rs (s.files fid) fid s.mem bytes offset partly)
    (hr : r = writeFile l rs (s.files fid) fid s.mem bytes offset partly) (ha : After s s' fid r.2.1 r.2.2) :
    (r.1 = true → contents s' fid = written (contents s fid) offset bytes partly) ∧
      (r.1 = false → contents s' fid = contents s fid) := by
  rcases writeFile_cases h hoff hsafe hr with ⟨hfail, hfile, hl, hkept, _⟩ |
    ⟨q, b, hb, hd, hp, hin, hfile, hrun⟩ | ⟨hdone, addr, hfile, _, hw⟩
  · rw [hfile] at ha
    obtain ⟨_, hsame⟩ := h.same ha.files (by rw [ha.mem]; exact hl) (by rw [ha.mem]; exact hkept)
    refine ⟨?_, fun _ => (hsame fid).contents_eq h⟩
    intro hdone
    rw [hfail] at hdone
    cases hdone
  · rw [hfile] at ha
    have hstored := hp.stored (hin.fits hoff) hrun
    rw [contents, contents, ha.files, hd, ha.mem]
    exact hstored
  · rw [hfile] at ha
    obtain ⟨_, hbytes, _⟩ := h.rewritten hw ha
    refine ⟨fun _ => hbytes, ?_⟩
    intro hfail
    rw [hdone] at hfail
    cases hfail

theorem step_lawful (l : Layout) (s : State) (op : Op) (hsafe : op.Meets l s)
    (h : ∃ chains, Sound l s chains) : (∃ chains, Sound l (step l s op) chains) ∧ op.Lawful l s := by
  obtain ⟨chains, h⟩ := h
  have ha := after_step l s op
  cases op with
  | put fid bytes rs =>
    have hoff : false = false → (0 : Nat) = 0 := fun _ => rfl
    obtain ⟨hsound, hothers⟩ := write_sound h hoff hsafe (fun _ hf hp => hp.within hf) rfl ha
    have hcontents := write_contents h hoff hsafe rfl ha
    exact ⟨hsound, fun g hg => (hothers g hg).contents_eq h, hcontents⟩
  | putOffset fid bytes offset rs =>
    have hoff : true = false → offset = 0 := fun hbad => by cases hbad
    obtain ⟨hsound, hothers⟩ := write_sound h hoff hsafe (fun _ hf hp => hp.within hf) rfl ha
    have hcontents := write_contents h hoff hsafe rfl ha
    exact ⟨hsound, fun g hg => (hothers g hg).contents_eq h, hcontents⟩
  | clear fid rs =>
    cases hf : (s.files fid).data with
    | none =>
      rw [call_clear_none hf] at ha
      obtain ⟨hsound, hsame⟩ := h.same ha.files (by rw [ha.mem]; exact h.linked)
        (by rw [ha.mem]; exact fun q b _ => Kept.refl s.mem b)
      refine ⟨⟨chains, hsound⟩, fun g _ => (hsame g).contents_eq h, fun _ => ?_⟩
      rw [(hsame fid).contents_eq h, contents, hf]
      rfl
    | some d =>
      obtain ⟨q, b, hb, rfl⟩ := h.old fid d hf
      have hrs : rs.Safe := hsafe (by rw [hf]; exact Option.some_ne_none _)
      rw [h.call_clear hrs hf] at ha
      obtain ⟨hsound, hothers, _⟩ := h.cleared hrs hf ha
      refine ⟨hsound, fun g hg => (hothers g hg).contents_eq h, fun _ => ?_⟩
      have hself : (step l s (.clear fid rs)).files fid = { s.files fid with data := none } := ha.self
      rw [contents, hself]
      rfl

end Run

/-! Where every call succeeds, so does a run. -/

theorem writeSafe_done (l : Layout) (f : File) (fid : Fid) (m : Memory) (bytes : Bytes) (offset : Nat)
    (partly : Bool) : WriteSafe (fun d => AllOrNothing {} m d bytes partly) l {} f fid m bytes offset partly := by
  refine ⟨fun _ _ _ => .inl ⟨.inr rfl, .inr rfl, .inr rfl⟩, ?_⟩
  intro _ addr base hplace
  exact anewSafe_done fid hplace

theorem put_meets (l : Layout) (s : State) (fid : Fid) (bytes : Bytes) : Op.Meets l s (.put fid bytes {}) :=
  fun _ => writeSafe_done l (s.files fid) fid s.mem bytes 0 false

theorem putOffset_meets (l : Layout) (s : State) (fid : Fid) (bytes : Bytes) (offset : Nat) :
    Op.Meets l s (.putOffset fid bytes offset {}) :=
  fun _ => writeSafe_done l (s.files fid) fid s.mem bytes offset true

theorem clear_meets (l : Layout) (s : State) (fid : Fid) : Op.Meets l s (.clear fid {}) :=
  fun _ => clearReplies_safe

/-- The payload of this file crosses from one sector to the next behind its byte 23. -/
def longPut : Op := .put 1 (List.replicate 4100 0) {}

/-- The cached page of the first of the two sectors takes its byte, and for the other one there is none. -/
def tornPut : Op := .putOffset 1 [1, 1] 23 { dataInPlace := some 1 }

end KeyWallet.FlashFile
