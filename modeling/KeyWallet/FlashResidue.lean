import KeyWallet.FlashStore

/-! What stays of a file in the flash. A byte that held payload of a file counts as its own until another
record covers it or another byte is written there; flash_clear_file is to leave all of these zero. -/
namespace KeyWallet.FlashFile

open StepSystem (Along run)

/-- The file has payload at `a`. -/
def PayloadAt (s : State) (f : Fid) (a : Nat) : Prop :=
  ∃ d, (s.files f).data = some d ∧ d + lengthSize s.mem d ≤ a ∧ a < d + lengthSize s.mem d + fileSize s.mem d

/-- The byte at `a` belongs to the record of a file. -/
def InRecord (s : State) (a : Nat) : Prop :=
  ∃ f d, (s.files f).data = some d ∧ d - 10 ≤ a ∧ a < d + lengthSize s.mem d + fileSize s.mem d

/-- The operation writes payload of the file to a new record, at `a`. -/
def Op.Copies (l : Layout) (s : State) (f : Fid) (a : Nat) : Op → Prop
  | .put fid bytes rs => f = fid ∧ CopiesAt l rs (s.files fid) fid s.mem bytes 0 false a
  | .putOffset fid bytes offset rs => f = fid ∧ CopiesAt l rs (s.files fid) fid s.mem bytes offset true a
  | .clear _ _ => False

/-- A state with the addresses that each file has held so far, and that are not overwritten since. -/
structure Trace where
  state : State
  held : Fid → Nat → Prop

def Trace.step (l : Layout) (t : Trace) (op : Op) : Trace where
  state := FlashFile.step l t.state op
  held f a := PayloadAt (FlashFile.step l t.state op) f a ∨
    ¬ InRecord (FlashFile.step l t.state op) a ∧ (op.Copies l t.state f a ∨
      t.held f a ∧ ((FlashFile.step l t.state op).mem a = t.state.mem a ∨
        (FlashFile.step l t.state op).mem a = 0))

/-- A file that was cleared has left nothing but zeros. -/
def Op.NoResidue (l : Layout) (t : Trace) (op : Op) : Prop :=
  ∀ fid rs, op = .clear fid rs → (op.call l t.state).1 = true →
    ∀ a, (t.step l op).held fid a → (t.step l op).state.mem a = 0

/-- The length field is after a write in place what it was. -/
def LengthStays (rs : WriteReplies) (m : Memory) (d : Nat) (bytes : Bytes) (partly : Bool) : Prop :=
  lengthSize (lengthInPlaceOf rs m d bytes.length partly).2 d = lengthSize m d ∧
    fileSize (lengthInPlaceOf rs m d bytes.length partly).2 d = fileSize m d

/-- No write in place makes a file shorter, and the failures are made up for. -/
def Op.KeepsLength (l : Layout) (t : Trace) (op : Op) : Prop := op.Safe LengthStays l t.state

section Step

variable {l : Layout} {s s' : State} {chains : Bool → List Nat} {fid f : Fid} {rs : WriteReplies} {bytes : Bytes}
  {offset a : Nat} {partly : Bool}

theorem LengthStays.within {d : Nat} (h : LengthStays rs s.mem d bytes partly) :
    LengthWithin rs s.mem d bytes.length partly := by
  have hlen := h.1
  have hfile := h.2
  rw [LengthWithin]
  omega

theorem KeptFile.payload (hk : KeptFile s s' f) (h : Sound l s chains) (hp : PayloadAt s f a) :
    PayloadAt s' f a := by
  obtain ⟨d, hd, hlow, hupp⟩ := hp
  obtain ⟨b, _, rfl, _⟩ := h.placed f d hd
  obtain ⟨hlen, hsize⟩ := (hk.record b hd).length_eq
  refine ⟨b + 10, ?_, ?_, ?_⟩
  · rw [hk.file, hd]
  · rw [hlen]
    exact hlow
  · rw [hlen, hsize]
    exact hupp

/-- What a step is to leave: payload that is given up is zero, and so is what was copied and taken back. -/
structure Wiped (l : Layout) (s s' : State) (op : Op) : Prop where
  payload : ∀ f a, PayloadAt s f a → PayloadAt s' f a ∨ s'.mem a = 0
  copied : ∀ f a, op.Copies l s f a → InRecord s' a ∨ s'.mem a = 0

theorem write_wiped {r : Bool × File × Memory} (h : Sound l s chains) (hoff : partly = false → offset = 0)
    (hsafe : ¬ Refused s.mem (s.files fid) bytes offset partly →
      WriteSafe (fun d => LengthStays rs s.mem d bytes partly) l rs (s.files fid) fid s.mem bytes offset partly)
    (hr : r = writeFile l rs (s.files fid) fid s.mem bytes offset partly) (ha : After s s' fid r.2.1 r.2.2) :
    (∀ f a, PayloadAt s f a → PayloadAt s' f a ∨ s'.mem a = 0) ∧
      ∀ a, CopiesAt l rs (s.files fid) fid s.mem bytes offset partly a → InRecord s' a ∨ s'.mem a = 0 := by
  rcases writeFile_cases h hoff hsafe hr with ⟨_, hfile, hl, hkept, hzero⟩ |
    ⟨q, b, hb, hd, hp, hin, hfile, hrun⟩ | ⟨_, addr, hfile, hplace, hw⟩
  · rw [hfile] at ha
    obtain ⟨_, hsame⟩ := h.same ha.files (by rw [ha.mem]; exact hl) (by rw [ha.mem]; exact hkept)
    refine ⟨fun f a hp => .inl ((hsame f).payload h hp), fun a hc => .inr ?_⟩
    rw [ha.mem]
    exact hzero a hc
  · rw [hfile] at ha
    have hfits := hin.fits hoff
    have hmem : s'.mem = (writeInPlace rs s.mem (b + 10) bytes offset partly).2 := by
      rw [ha.mem, ← hrun]
    obtain ⟨_, hothers⟩ := h.overwritten hb hd hfits hp.within hmem ha.files
    obtain ⟨_, hls, hfs⟩ := writeInPlace_frame hfits rfl
    rw [← hmem, hp.1] at hls
    rw [← hmem, hp.2] at hfs
    refine ⟨?_, fun a hc => absurd hin (hc.2.1 _ hd)⟩
    intro f a hpay
    left
    by_cases hf : f = fid
    · subst hf
      obtain ⟨d, hd', hlow, hupp⟩ := hpay
      obtain rfl : b + 10 = d := Option.some.inj (hd.symm.trans hd')
      refine ⟨b + 10, ?_, ?_, ?_⟩
      · rw [ha.files, hd]
      · rw [hls]
        exact hlow
      · rw [hls, hfs]
        exact hupp
    · exact (hothers f hf).payload h hpay
  · rw [hfile] at ha
    obtain ⟨_, _, hothers⟩ := h.rewritten hw ha
    refine ⟨?_, ?_⟩
    · intro f a hpay
      by_cases hf : f = fid
      · subst hf
        right
        obtain ⟨d, hd, hlow, hupp⟩ := hpay
        have hcell := hw.zero d hd (a - (d + lengthSize s.mem d)) (by omega)
        rw [Nat.add_sub_cancel' hlow] at hcell
        rw [ha.mem]
        exact hcell
      · exact .inl ((hothers f hf).payload h hpay)
    · intro a hc
      left
      obtain ⟨hnot, _, addr', base, hplace', _, _, hlow, hupp⟩ := hc
      obtain ⟨rfl, rfl⟩ := Prod.mk.inj (Option.some.inj (hplace'.symm.trans hplace))
      have hlen := (newSizeOf_sized hnot hoff).written_length
      have hsize := hw.size
      rw [contents, hlen, recordSize] at hsize
      refine ⟨fid, addr' + 10, ?_, by omega, ?_⟩
      · rw [ha.self]
      · rw [ha.mem]
        omega

theorem step_wiped (l : Layout) (s : State) (op : Op) (hsafe : op.Safe LengthStays l s) (h : Sound l s chains) :
    (∃ chains, Sound l (step l s op) chains) ∧ Wiped l s (step l s op) op := by
  have ha := after_step l s op
  cases op with
  | put fid bytes rs =>
    have hoff : false = false → (0 : Nat) = 0 := fun _ => rfl
    obtain ⟨hsound, _⟩ := write_sound h hoff hsafe (fun _ _ hp => hp.within) rfl ha
    obtain ⟨hpayload, hcopied⟩ := write_wiped h hoff hsafe rfl ha
    exact ⟨hsound, hpayload, fun f a hc => hcopied a hc.2⟩
  | putOffset fid bytes offset rs =>
    have hoff : true = false → offset = 0 := fun hbad => by cases hbad
    obtain ⟨hsound, _⟩ := write_sound h hoff hsafe (fun _ _ hp => hp.within) rfl ha
    obtain ⟨hpayload, hcopied⟩ := write_wiped h hoff hsafe rfl ha
    exact ⟨hsound, hpayload, fun f a hc => hcopied a hc.2⟩
  | clear fid rs =>
    cases hf : (s.files fid).data with
    | none =>
      rw [call_clear_none hf] at ha
      obtain ⟨hsound, hsame⟩ := h.same ha.files (by rw [ha.mem]; exact h.linked)
        (by rw [ha.mem]; exact fun q b _ => Kept.refl s.mem b)
      exact ⟨⟨chains, hsound⟩, fun f a hp => .inl ((hsame f).payload h hp), fun f a hc => hc.elim⟩
    | some d =>
      obtain ⟨q, b, hb, rfl⟩ := h.old fid d hf
      have hrs : rs.Safe := hsafe (by rw [hf]; exact Option.some_ne_none _)
      rw [h.call_clear hrs hf] at ha
      obtain ⟨hsound, hothers, hzero⟩ := h.cleared hrs hf ha
      refine ⟨hsound, ?_, fun f a hc => hc.elim⟩
      intro f a hpay
      by_cases hff : f = fid
      · subst hff
        right
        obtain ⟨d, hd, hlow, hupp⟩ := hpay
        obtain rfl : b + 10 = d := Option.some.inj (hf.symm.trans hd)
        have hcell := hzero (a - (b + 10 + lengthSize s.mem (b + 10))) (by omega)
        rw [Nat.add_sub_cancel' hlow] at hcell
        exact hcell
      · exact .inl ((hothers f hff).payload h hpay)

/-- What a file has held is zero, or is its payload still. -/
def Trace.Clean (l : Layout) (t : Trace) : Prop :=
  (∃ chains, Sound l t.state chains) ∧ ∀ f a, t.held f a → t.state.mem a = 0 ∨ PayloadAt t.state f a

theorem trace_step (l : Layout) (t : Trace) (op : Op) (hsafe : op.KeepsLength l t) (ht : t.Clean l) :
    (t.step l op).Clean l ∧ op.NoResidue l t := by
  obtain ⟨⟨chains, h⟩, hheld⟩ := ht
  obtain ⟨hsound, hwiped⟩ := step_wiped l t.state op hsafe h
  have hclean : ∀ f a, (t.step l op).held f a →
      (t.step l op).state.mem a = 0 ∨ PayloadAt (t.step l op).state f a := by
    rintro f a (hpay | ⟨hout, hc | ⟨hold, hbyte | hbyte⟩⟩)
    · exact .inr hpay
    · exact .inl ((hwiped.copied f a hc).resolve_left hout)
    · -- the byte is the old one: it was zero, or payload that the step gave up or kept
      rcases hheld f a hold with hz | hpay
      · exact .inl (hbyte.trans hz)
      · exact (hwiped.payload f a hpay).symm
    · exact .inl hbyte
  refine ⟨⟨hsound, hclean⟩, ?_⟩
  intro fid rs hop hok a ha
  subst hop
  rcases hclean fid a ha with hz | ⟨d, hd, _⟩
  · exact hz
  · -- a cleared file has no data
    have hnone : ((step l t.state (.clear fid rs)).files fid).data = none := by
      have hself := (after_step l t.state (.clear fid rs)).self
      rw [Op.fid] at hself
      rw [hself]
      cases hf : (t.state.files fid).data with
      | none =>
        rw [call_clear_none hf]
        exact hf
      | some d =>
        obtain ⟨q, b, hb, rfl⟩ := h.old fid d hf
        rw [h.call_clear (hsafe (by rw [hf]; exact Option.some_ne_none _)) hf]
    rw [Trace.step] at hd
    rw [hnone] at hd
    cases hd

end Step

/-- In every run in which no write in place makes a file shorter, a file that is cleared leaves only zeros. -/
theorem cleared_leaves_zeros (l : Layout) (s : State) (ops : List Op) (hs : Fresh l s)
    (hok : Along (Trace.step l) (fun t op => op.KeepsLength l t) ⟨s, fun _ _ => False⟩ ops) :
    Along (Trace.step l) (fun t op => op.NoResidue l t) ⟨s, fun _ _ => False⟩ ops := by
  apply StepSystem.along_law (trace_step l) _ ops hok
  exact ⟨⟨_, hs.sound⟩, fun _ _ hf => hf.elim⟩

theorem put_keepsLength (l : Layout) (t : Trace) (fid : Fid) (bytes : Bytes)
    (h : (t.state.files fid).size t.state.mem < bytes.length) : Op.KeepsLength l t (.put fid bytes {}) := by
  intro _
  refine ⟨?_, fun _ addr base hplace => anewSafe_done fid hplace⟩
  intro d hd hin
  obtain ⟨hbad, _⟩ | ⟨_, hlen, _⟩ := hin
  · cases hbad
  · rw [size_eq, hd, stored_some_length] at h
    omega

theorem putOffset_keepsLength (l : Layout) (t : Trace) (fid : Fid) (bytes : Bytes) (offset : Nat) :
    Op.KeepsLength l t (.putOffset fid bytes offset {}) :=
  fun _ => ⟨fun _ _ _ => ⟨rfl, rfl⟩, fun _ _ _ hplace => anewSafe_done fid hplace⟩

theorem clear_keepsLength (l : Layout) (t : Trace) (fid : Fid) : Op.KeepsLength l t (.clear fid {}) :=
  fun _ => clearReplies_safe

/-- A file that moves once, and is then cleared. -/
theorem cleared_leaves_zeros_sample :
    Along (Trace.step sampleLayout) (fun t op => op.NoResidue sampleLayout t) ⟨emptyFlash, fun _ _ => False⟩
      [.put 1 [1, 2] {}, .putOffset 1 [3] 1 {}, .put 1 [4, 5, 6] {}, .clear 1 {}] := by
  refine cleared_leaves_zeros sampleLayout emptyFlash _ emptyFlash_fresh ⟨?_, ?_, ?_, ?_, trivial⟩
  · apply put_keepsLength
    decide +kernel
  · exact putOffset_keepsLength _ _ _ _ _
  · apply put_keepsLength
    decide +kernel
  · exact clear_keepsLength _ _ _

/-- A file of three bytes. -/
def residueFirst : State := step sampleLayout emptyFlash (.put 1 [7, 8, 9] {})

/-- It is written again, with one byte. -/
def residueShort : State := step sampleLayout residueFirst (.put 1 [1] {})

def residueLast : State := step sampleLayout residueShort (.clear 1 {})

theorem residue_others {f : Fid} (hf : f ≠ 1) :
    (residueShort.files f).data = none ∧ (residueLast.files f).data = none := by
  have hfirst : residueFirst.files f = emptyFlash.files f := (after_step sampleLayout emptyFlash _).rest f hf
  have hshort : residueShort.files f = residueFirst.files f := (after_step sampleLayout residueFirst _).rest f hf
  have hlast : residueLast.files f = residueShort.files f := (after_step sampleLayout residueShort _).rest f hf
  rw [hlast, hshort, hfirst]
  exact ⟨rfl, rfl⟩

theorem residue_short_out : ¬ InRecord residueShort 16362 := by
  rintro ⟨f, d, hd, _, hupp⟩
  by_cases hf : f = 1
  · subst hf
    have hdata : (residueShort.files 1).data = some 16359 := by decide +kernel
    obtain rfl : 16359 = d := Option.some.inj (hdata.symm.trans hd)
    have hsizes : lengthSize residueShort.mem 16359 = 2 ∧ fileSize residueShort.mem 16359 = 1 := by decide +kernel
    omega
  · rw [(residue_others hf).1] at hd
    cases hd

theorem residue_last_out : ¬ InRecord residueLast 16362 := by
  rintro ⟨f, d, hd, _, _⟩
  by_cases hf : f = 1
  · subst hf
    have hdata : (residueLast.files 1).data = none := by decide +kernel
    rw [hdata] at hd
    cases hd
  · rw [(residue_others hf).2] at hd
    cases hd

/-- The second byte of the first write stands there after the file was cleared. -/
theorem residue_stays : ¬ ∀ (l : Layout) (s : State) (ops : List Op), Fresh l s →
    Along (Trace.step l) (fun t op => op.NoResidue l t) ⟨s, fun _ _ => False⟩ ops := by
  intro h
  have hrun := h sampleLayout emptyFlash [.put 1 [7, 8, 9] {}, .put 1 [1] {}, .clear 1 {}] emptyFlash_fresh
  have hok : (Op.call sampleLayout residueShort (.clear 1 {})).1 = true := by decide +kernel
  have hfirst : PayloadAt residueFirst 1 16362 := by
    refine ⟨16359, ?_, ?_, ?_⟩
    · decide +kernel
    · decide +kernel
    · decide +kernel
  have hshort : residueShort.mem 16362 = residueFirst.mem 16362 := by decide +kernel
  have hlast : residueLast.mem 16362 = residueShort.mem 16362 := by decide +kernel
  have hzero : residueLast.mem 16362 = 0 := by
    apply hrun.2.2.1 1 {} rfl hok 16362
    refine .inr ⟨residue_last_out, .inr ⟨?_, .inl hlast⟩⟩
    exact .inr ⟨residue_short_out, .inr ⟨.inl hfirst, .inl hshort⟩⟩
  have hbyte : residueLast.mem 16362 = 8 := by decide +kernel
  rw [hzero] at hbyte
  exact absurd hbyte (by decide)

end KeyWallet.FlashFile
