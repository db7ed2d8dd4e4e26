import KeyWallet.FlashWrites
import KeyWallet.StepSystem

/-! The files over the records: each file with data has a record of its own, and every record is that of a
file. -/
namespace KeyWallet.FlashFile

open ByteBuffer (blit window)

section Write

variable {l : Layout} {m : Memory} {rs : WriteReplies} {f : File} {fid : Fid} {bytes : Bytes} {offset : Nat}
  {partly : Bool}

theorem size_eq (m : Memory) (f : File) : f.size m = (stored m f.data).length := by
  obtain ⟨data, persistent⟩ := f
  cases data with
  | none => rfl
  | some d => exact (stored_some_length m d).symm

/-- The write is refused before anything else. -/
def Refused (m : Memory) (f : File) (bytes : Bytes) (offset : Nat) (partly : Bool) : Prop :=
  4294967296 ≤ bytes.length ∨ 4294967296 ≤ offset + bytes.length ∨ partly = true ∧ f.size m < offset

/-- The write goes over the record at `d`. -/
def InPlaceAt (m : Memory) (d : Nat) (bytes : Bytes) (offset : Nat) (partly : Bool) : Prop :=
  partly = true ∧ offset + bytes.length ≤ fileSize m d ∨
    ¬ partly = true ∧ bytes.length ≤ fileSize m d ∧
      (readU16 m d = extendedLength ∨ bytes.length < extendedLength)

/-- The size of the file after the write. -/
def newSizeOf (m : Memory) (f : File) (bytes : Bytes) (offset : Nat) (partly : Bool) : Nat :=
  if partly then max (f.size m) (offset + bytes.length) else bytes.length

theorem newSizeOf_sized (hr : ¬ Refused m f bytes offset partly) (hoff : partly = false → offset = 0) :
    Sized (stored m f.data) offset bytes (newSizeOf m f bytes offset partly) partly := by
  rw [Refused] at hr
  refine ⟨?_, ?_⟩
  · intro hp
    rw [newSizeOf, if_pos hp, size_eq]
    rw [size_eq] at hr
    refine ⟨?_, rfl⟩
    by_contra hlt
    exact hr (.inr (.inr ⟨hp, by omega⟩))
  · intro hp
    refine ⟨hoff hp, ?_⟩
    rw [newSizeOf, hp, if_neg Bool.false_ne_true]

theorem writeFile_refused (hr : Refused m f bytes offset partly) :
    writeFile l rs f fid m bytes offset partly = (false, f, m) := by
  rw [writeFile]
  exact if_pos hr

theorem writeFile_inPlace {d : Nat} (hr : ¬ Refused m f bytes offset partly) (hf : f.data = some d)
    (hp : InPlaceAt m d bytes offset partly) :
    writeFile l rs f fid m bytes offset partly =
      ((writeInPlace rs m d bytes offset partly).1, f, (writeInPlace rs m d bytes offset partly).2) := by
  have hsize : f.size m = fileSize m d := by
    rw [size_eq, hf, stored_some_length]
  rw [Refused] at hr
  rw [writeFile, if_neg hr]
  simp only [hf, hsize]
  exact if_pos hp

theorem writeFile_anew (hr : ¬ Refused m f bytes offset partly)
    (hp : ∀ d, f.data = some d → ¬ InPlaceAt m d bytes offset partly) :
    writeFile l rs f fid m bytes offset partly =
      writeAnew l rs f fid m bytes offset (newSizeOf m f bytes offset partly) partly := by
  rw [Refused] at hr
  rw [writeFile, if_neg hr]
  cases hf : f.data with
  | none => rfl
  | some d =>
    have hsize : f.size m = fileSize m d := by
      rw [size_eq, hf, stored_some_length]
    have hnot := hp d hf
    rw [InPlaceAt, ← hsize] at hnot
    exact if_neg hnot

theorem InPlaceAt.fits {d : Nat} (hp : InPlaceAt m d bytes offset partly) (hoff : partly = false → offset = 0) :
    Fits m d bytes offset partly := by
  cases partly with
  | false =>
    obtain ⟨hbad, _⟩ | ⟨_, hlen, hkind⟩ := hp
    · cases hbad
    · obtain rfl := hoff rfl
      exact ⟨by omega, fun _ => ⟨rfl, hkind⟩⟩
  | true =>
    obtain ⟨_, hroom⟩ | ⟨hbad, _⟩ := hp
    · exact ⟨hroom, fun h => by cases h⟩
    · exact absurd rfl hbad

/-- The calls of a write answer so that its failures are made up for; in place, `inPlace` says so. -/
structure WriteSafe (inPlace : Nat → Prop) (l : Layout) (rs : WriteReplies) (f : File) (fid : Fid) (m : Memory)
    (bytes : Bytes) (offset : Nat) (partly : Bool) : Prop where
  inPlace : ∀ d, f.data = some d → InPlaceAt m d bytes offset partly → inPlace d
  anew : (∀ d, f.data = some d → ¬ InPlaceAt m d bytes offset partly) →
    ∀ addr base, place l m (newSizeOf m f bytes offset partly) f.persistent = some (addr, base) →
      AnewSafe rs f fid m (newSizeOf m f bytes offset partly) addr base

end Write

/-- The records of the files. -/
structure Sound (l : Layout) (s : State) (chains : Bool → List Nat) : Prop where
  linked : Linked l s.mem chains
  -- of a persistent file in the one pool, of any other in the other
  placed : ∀ f d, (s.files f).data = some d →
    ∃ b ∈ chains (s.files f).persistent, d = b + 10 ∧ readU16 s.mem (b + 8) = f.toNat
  owned : ∀ q, ∀ b ∈ chains q, ∃ f, (s.files f).data = some (b + 10)

section Sound

variable {l : Layout} {s s' : State} {chains : Bool → List Nat} {fid : Fid}

theorem Sound.inj (h : Sound l s chains) {f g : Fid} {d : Nat} (hf : (s.files f).data = some d)
    (hg : (s.files g).data = some d) : f = g := by
  obtain ⟨b, _, hb, hfb⟩ := h.placed f d hf
  obtain ⟨c, _, hc, hgc⟩ := h.placed g d hg
  have heq : b = c := by omega
  rw [heq, hgc] at hfb
  exact BitVec.eq_of_toNat_eq hfb.symm

theorem Sound.old (h : Sound l s chains) (f : Fid) : Placed chains (s.files f).data := by
  intro d hd
  obtain ⟨b, hb, hdb, _⟩ := h.placed f d hd
  exact ⟨_, b, hb, hdb⟩

/-- The file and its record stay what they are. -/
structure KeptFile (s s' : State) (g : Fid) : Prop where
  file : s'.files g = s.files g
  record : ∀ b, (s.files g).data = some (b + 10) → Kept s.mem s'.mem b

theorem KeptFile.contents_eq {g : Fid} (hk : KeptFile s s' g) (h : Sound l s chains) :
    contents s' g = contents s g := by
  rw [contents, contents, hk.file]
  cases hd : (s.files g).data with
  | none => rfl
  | some d =>
    obtain ⟨b, _, rfl, _⟩ := h.placed g d hd
    exact (hk.record b hd).stored_eq

theorem Sound.same (h : Sound l s chains) (hfiles : s'.files = s.files) (hl : Linked l s'.mem chains)
    (hk : ∀ q, ∀ b ∈ chains q, Kept s.mem s'.mem b) : Sound l s' chains ∧ ∀ g, KeptFile s s' g := by
  refine ⟨⟨hl, ?_, ?_⟩, ?_⟩
  · intro f d hd
    rw [hfiles] at hd
    obtain ⟨b, hb, hdb, hfid⟩ := h.placed f d hd
    rw [hfiles]
    exact ⟨b, hb, hdb, by rw [(hk _ b hb).fid_eq, hfid]⟩
  · rw [hfiles]
    exact h.owned
  · intro g
    refine ⟨by rw [hfiles], ?_⟩
    intro b hd
    obtain ⟨c, hc, hbc, _⟩ := h.placed g _ hd
    obtain rfl : b = c := by omega
    exact hk _ b hc

theorem Sound.inPlace (h : Sound l s chains) {b : Nat} (hfiles : s'.files = s.files)
    (hf : (s.files fid).data = some (b + 10)) (hl : Linked l s'.mem chains)
    (hk : ∀ q, ∀ c ∈ chains q, c ≠ b → Kept s.mem s'.mem c)
    (hfid : readU16 s'.mem (b + 8) = readU16 s.mem (b + 8)) :
    Sound l s' chains ∧ ∀ g ≠ fid, KeptFile s s' g := by
  refine ⟨⟨hl, ?_, ?_⟩, ?_⟩
  · intro f d hd
    rw [hfiles] at hd
    obtain ⟨c, hc, hdc, hfc⟩ := h.placed f d hd
    rw [hfiles]
    refine ⟨c, hc, hdc, ?_⟩
    by_cases hcb : c = b
    · rw [hcb, hfid, ← hcb, hfc]
    · rw [(hk _ c hc hcb).fid_eq, hfc]
  · rw [hfiles]
    exact h.owned
  · intro g hg
    refine ⟨by rw [hfiles], ?_⟩
    intro c hd
    obtain ⟨c', hc, hcc, _⟩ := h.placed g _ hd
    obtain rfl : c = c' := by omega
    have hne : c ≠ b := by
      intro heq
      rw [heq] at hd
      exact hg (h.inj hd hf)
    exact hk _ c hc hne

theorem Sound.update (h : Sound l s chains) {chains' : Bool → List Nat} (new : Option (Bool × Nat))
    (hself : (s'.files fid).data = new.map fun a => a.2 + 10)
    (hpool : ∀ q c, new = some (q, c) → (s'.files fid).persistent = q) (hrest : ∀ g ≠ fid, s'.files g = s.files g)
    (hl : Linked l s'.mem chains')
    (hmem : ∀ q c, c ∈ chains' q ↔ (c ∈ chains q ∧ (s.files fid).data ≠ some (c + 10)) ∨ new = some (q, c))
    (hk : ∀ q, ∀ c ∈ chains q, (s.files fid).data ≠ some (c + 10) → Kept s.mem s'.mem c)
    (hfid : ∀ q c, new = some (q, c) → readU16 s'.mem (c + 8) = fid.toNat) :
    Sound l s' chains' ∧ ∀ g ≠ fid, KeptFile s s' g := by
  have hother : ∀ g c, g ≠ fid → (s.files g).data = some (c + 10) → (s.files fid).data ≠ some (c + 10) := by
    intro g c hg hgc hfc
    exact hg (h.inj hgc hfc)
  refine ⟨⟨hl, ?_, ?_⟩, ?_⟩
  · intro f d hd
    by_cases hf : f = fid
    · subst hf
      rw [hself] at hd
      obtain ⟨⟨q, c⟩, hnew, rfl⟩ := Option.map_eq_some_iff.mp hd
      refine ⟨c, ?_, rfl, hfid q c hnew⟩
      rw [hpool q c hnew]
      exact (hmem q c).mpr (.inr hnew)
    · rw [hrest f hf] at hd
      obtain ⟨c, hc, rfl, hfc⟩ := h.placed f d hd
      have hne := hother f c hf hd
      rw [hrest f hf]
      exact ⟨c, (hmem _ c).mpr (.inl ⟨hc, hne⟩), rfl, by rw [(hk _ c hc hne).fid_eq, hfc]⟩
  · intro q c hc
    rcases (hmem q c).mp hc with ⟨hc, hne⟩ | hnew
    · obtain ⟨f, hf⟩ := h.owned q c hc
      refine ⟨f, ?_⟩
      have hff : f ≠ fid := by
        intro heq
        rw [heq] at hf
        exact hne hf
      rw [hrest f hff]
      exact hf
    · refine ⟨fid, ?_⟩
      rw [hself, hnew, Option.map_some]
  · intro g hg
    refine ⟨hrest g hg, ?_⟩
    intro c hd
    obtain ⟨c', hc, hcc, _⟩ := h.placed g _ hd
    obtain rfl : c = c' := by omega
    exact hk _ c hc (hother g c hg hd)

end Sound

/-! One call. -/

/-- The calls of an operation answer so that its failures are made up for; `inPlace` says so of a write over
the record that is there, which begins at `d`. -/
def Op.Safe (inPlace : WriteReplies → Memory → Nat → Bytes → Bool → Prop) (l : Layout) (s : State) : Op → Prop
  | .put fid bytes rs => ¬ Refused s.mem (s.files fid) bytes 0 false →
      WriteSafe (fun d => inPlace rs s.mem d bytes false) l rs (s.files fid) fid s.mem bytes 0 false
  | .putOffset fid bytes offset rs => ¬ Refused s.mem (s.files fid) bytes offset true →
      WriteSafe (fun d => inPlace rs s.mem d bytes true) l rs (s.files fid) fid s.mem bytes offset true
  | .clear fid rs => (s.files fid).data ≠ none → rs.Safe

/-- A write that is not refused makes a new record, whose payload lies at `a`. -/
def CopiesAt (l : Layout) (rs : WriteReplies) (f : File) (fid : Fid) (m : Memory) (bytes : Bytes) (offset : Nat)
    (partly : Bool) (a : Nat) : Prop :=
  ¬ Refused m f bytes offset partly ∧ (∀ d, f.data = some d → ¬ InPlaceAt m d bytes offset partly) ∧
    CopiedAt l rs f fid m (newSizeOf m f bytes offset partly) a

section Step

variable {l : Layout} {s s' : State} {chains : Bool → List Nat} {fid : Fid} {rs : WriteReplies} {bytes : Bytes}
  {offset : Nat} {partly : Bool} {P : Nat → Prop}

/-- What a write comes to: nothing, a write over the record of the file, or a new record for it. -/
theorem writeFile_cases {r : Bool × File × Memory} (h : Sound l s chains) (hoff : partly = false → offset = 0)
    (hsafe : ¬ Refused s.mem (s.files fid) bytes offset partly →
      WriteSafe P l rs (s.files fid) fid s.mem bytes offset partly)
    (hr : r = writeFile l rs (s.files fid) fid s.mem bytes offset partly) :
    (r.1 = false ∧ r.2.1 = s.files fid ∧ Linked l r.2.2 chains ∧ (∀ q, ∀ b ∈ chains q, Kept s.mem r.2.2 b) ∧
      ∀ a, CopiesAt l rs (s.files fid) fid s.mem bytes offset partly a → r.2.2 a = 0) ∨
    (∃ q, ∃ b ∈ chains q, (s.files fid).data = some (b + 10) ∧ P (b + 10) ∧
      InPlaceAt s.mem (b + 10) bytes offset partly ∧ r.2.1 = s.files fid ∧
      (r.1, r.2.2) = writeInPlace rs s.mem (b + 10) bytes offset partly) ∨
    (r.1 = true ∧ ∃ addr, r.2.1 = ⟨some (addr + 10), (s.files fid).persistent⟩ ∧
      place l s.mem (newSizeOf s.mem (s.files fid) bytes offset partly) (s.files fid).persistent =
        some (addr, addr + realSizeOf (newSizeOf s.mem (s.files fid) bytes offset partly)) ∧
      Rewritten l s.mem r.2.2 chains (s.files fid).data fid (written (contents s fid) offset bytes partly)
        (s.files fid).persistent addr) := by
  by_cases href : Refused s.mem (s.files fid) bytes offset partly
  · left
    rw [writeFile_refused href] at hr
    subst hr
    exact ⟨rfl, rfl, h.linked, fun q b _ => Kept.refl s.mem b, fun a ha => absurd href ha.1⟩
  · by_cases hin : ∃ d, (s.files fid).data = some d ∧ InPlaceAt s.mem d bytes offset partly
    · obtain ⟨d, hd, hin⟩ := hin
      obtain ⟨q, b, hb, rfl⟩ := h.old fid d hd
      rw [writeFile_inPlace href hd hin] at hr
      subst hr
      exact .inr (.inl ⟨q, b, hb, hd, (hsafe href).inPlace _ hd hin, hin, rfl, rfl⟩)
    · have hnot : ∀ d, (s.files fid).data = some d → ¬ InPlaceAt s.mem d bytes offset partly := by
        intro d hd hp
        exact hin ⟨d, hd, hp⟩
      rw [writeFile_anew href hnot] at hr
      have hanew := writeAnew_spec h.linked (h.old fid) (newSizeOf_sized href hoff) ((hsafe href).anew hnot) hr
      rcases hanew with hdone | ⟨hfail, hfile, hlinked, hkept, hzero⟩
      · exact .inr (.inr hdone)
      · exact .inl ⟨hfail, hfile, hlinked, hkept, fun a ha => hzero a ha.2.2⟩

/-- The state after a write. -/
structure After (s s' : State) (fid : Fid) (f : File) (m : Memory) : Prop where
  mem : s'.mem = m
  self : s'.files fid = f
  rest : ∀ g ≠ fid, s'.files g = s.files g

theorem After.files {m : Memory} (ha : After s s' fid (s.files fid) m) : s'.files = s.files := by
  funext g
  by_cases hg : g = fid
  · rw [hg]
    exact ha.self
  · exact ha.rest g hg

theorem after_step (l : Layout) (s : State) (op : Op) :
    After s (step l s op) op.fid (op.call l s).2.1 (op.call l s).2.2 :=
  ⟨rfl, Function.update_self _ _ _, fun _ hg => Function.update_of_ne hg _ _⟩

theorem run_files (l : Layout) (s : State) (ops : List Op) {f : Fid} (hf : ∀ op ∈ ops, f ≠ op.fid) :
    (StepSystem.run (step l) s ops).files f = s.files f := by
  induction ops generalizing s with
  | nil => rfl
  | cons op ops ih =>
    have hrest : ∀ op' ∈ ops, f ≠ op'.fid := fun op' hop => hf op' (List.mem_cons_of_mem op hop)
    have hfirst : (step l s op).files f = s.files f := (after_step l s op).rest f (hf op List.mem_cons_self)
    rw [StepSystem.run_cons, ih _ hrest, hfirst]

theorem Sound.rewritten (h : Sound l s chains) {addr : Nat} {m : Memory}
    (hw : Rewritten l s.mem m chains (s.files fid).data fid bytes (s.files fid).persistent addr)
    (ha : After s s' fid ⟨some (addr + 10), (s.files fid).persistent⟩ m) :
    (∃ chains', Sound l s' chains') ∧ contents s' fid = bytes ∧ ∀ g ≠ fid, KeptFile s s' g := by
  obtain ⟨chains', hl, hmem⟩ := hw.linked
  obtain ⟨rfl, hself, hrest⟩ := ha
  obtain ⟨hsound, hothers⟩ := h.update (some ((s.files fid).persistent, addr)) (by rw [hself, Option.map_some])
    (by
      intro q c hnew
      obtain ⟨rfl, _⟩ := Prod.mk.inj (Option.some.inj hnew)
      rw [hself])
    hrest hl
    (by
      intro q c
      rw [hmem q c, Option.some.injEq, Prod.mk.injEq, eq_comm (a := q), eq_comm (a := c)])
    hw.kept
    (by
      intro q c hnew
      obtain ⟨_, rfl⟩ := Prod.mk.inj (Option.some.inj hnew)
      exact hw.fid)
  refine ⟨⟨chains', hsound⟩, ?_, hothers⟩
  rw [contents, hself]
  exact hw.bytes

theorem Sound.cleared (h : Sound l s chains) {rs : ClearReplies} {b : Nat} (hrs : rs.Safe)
    (hf : (s.files fid).data = some (b + 10))
    (ha : After s s' fid { s.files fid with data := none } (clearFile rs s.mem (b + 10)).2) :
    (∃ chains', Sound l s' chains') ∧ (∀ g ≠ fid, KeptFile s s' g) ∧
      ∀ i < fileSize s.mem (b + 10), s'.mem (b + 10 + lengthSize s.mem (b + 10) + i) = 0 := by
  obtain ⟨c, hc, hbc, _⟩ := h.placed fid _ hf
  obtain rfl : b = c := by omega
  obtain ⟨_, ⟨chains', hl, hmem'⟩, hkept, hzero⟩ := clearFile_linked hrs h.linked hc
  rw [← ha.mem] at hl hkept hzero
  have hself : (s'.files fid).data = none := by rw [ha.self]
  have hne : ∀ c, (s.files fid).data ≠ some (c + 10) ↔ c ≠ b := by
    intro c
    rw [hf]
    simp only [ne_eq, Option.some.injEq, Nat.add_right_cancel_iff]
    exact not_congr eq_comm
  obtain ⟨hsound, hothers⟩ := h.update none (by rw [hself, Option.map_none])
    (by
      intro q c hnew
      cases hnew)
    ha.rest hl
    (by
      intro q c
      rw [hmem' q c, hne c]
      simp)
    (by
      intro q c hc' hcb
      exact hkept q c hc' ((hne c).mp hcb))
    (by
      intro q c hnew
      cases hnew)
  exact ⟨⟨chains', hsound⟩, hothers, hzero⟩

theorem call_clear_none {rs : ClearReplies} (hf : (s.files fid).data = none) :
    Op.call l s (.clear fid rs) = (true, s.files fid, s.mem) := by
  simp only [Op.call, hf]

theorem Sound.call_clear (h : Sound l s chains) {rs : ClearReplies} {b : Nat} (hrs : rs.Safe)
    (hf : (s.files fid).data = some (b + 10)) :
    Op.call l s (.clear fid rs) = (true, { s.files fid with data := none }, (clearFile rs s.mem (b + 10)).2) := by
  obtain ⟨c, hc, hbc, _⟩ := h.placed fid _ hf
  obtain rfl : b = c := by omega
  have hok := (clearFile_linked hrs h.linked hc).1
  simp only [Op.call, hf, hok, if_true]

theorem Sound.overwritten (h : Sound l s chains) {b : Nat} {q : Bool} (hb : b ∈ chains q)
    (hf : (s.files fid).data = some (b + 10)) (hfits : Fits s.mem (b + 10) bytes offset partly)
    (hw : LengthWithin rs s.mem (b + 10) bytes.length partly)
    (hmem : s'.mem = (writeInPlace rs s.mem (b + 10) bytes offset partly).2) (hfiles : s'.files = s.files) :
    Sound l s' chains ∧ ∀ g ≠ fid, KeptFile s s' g := by
  obtain ⟨hl, hkept, hfid⟩ := writeInPlace_linked h.linked hb hfits hw rfl
  rw [← hmem] at hl hkept hfid
  exact h.inPlace hfiles hf hl hkept hfid

/-- A write keeps the records and the other files, where the length that a write in place leaves stays within
the record. -/
theorem write_sound {r : Bool × File × Memory} (h : Sound l s chains) (hoff : partly = false → offset = 0)
    (hsafe : ¬ Refused s.mem (s.files fid) bytes offset partly →
      WriteSafe P l rs (s.files fid) fid s.mem bytes offset partly)
    (hP : ∀ d, Fits s.mem d bytes offset partly → P d → LengthWithin rs s.mem d bytes.length partly)
    (hr : r = writeFile l rs (s.files fid) fid s.mem bytes offset partly) (ha : After s s' fid r.2.1 r.2.2) :
    (∃ chains', Sound l s' chains') ∧ ∀ g ≠ fid, KeptFile s s' g := by
  rcases writeFile_cases h hoff hsafe hr with ⟨_, hfile, hl, hkept, _⟩ |
    ⟨q, b, hb, hd, hp, hin, hfile, hrun⟩ | ⟨_, addr, hfile, _, hw⟩
  · rw [hfile] at ha
    obtain ⟨hsound, hsame⟩ := h.same ha.files (by rw [ha.mem]; exact hl) (by rw [ha.mem]; exact hkept)
    exact ⟨⟨chains, hsound⟩, fun g _ => hsame g⟩
  · rw [hfile] at ha
    have hfits := hin.fits hoff
    have hmem : s'.mem = (writeInPlace rs s.mem (b + 10) bytes offset partly).2 := by
      rw [ha.mem, ← hrun]
    obtain ⟨hsound, hothers⟩ := h.overwritten hb hd hfits (hP _ hfits hp) hmem ha.files
    exact ⟨⟨chains, hsound⟩, hothers⟩
  · rw [hfile] at ha
    obtain ⟨hsound, _, hothers⟩ := h.rewritten hw ha
    exact ⟨hsound, hothers⟩

end Step

/-- Nothing is stored: both heads are null, and no file has data. -/
structure Fresh (l : Layout) (s : State) : Prop where
  heads : ∀ p, readU32 s.mem (l.endp p) = 0
  files : ∀ f, (s.files f).data = none

theorem Fresh.sound {l : Layout} {s : State} (h : Fresh l s) : Sound l s fun _ => [] := by
  refine ⟨h.heads, ?_, ?_⟩
  · intro f d hd
    rw [h.files f] at hd
    cases hd
  · intro q b hb
    cases hb

/-! Calls that all succeed. -/

theorem place_lt {l : Layout} {m : Memory} {size addr base : Nat} {p : Bool}
    (h : place l m size p = some (addr, base)) : realSizeOf size < 4294967296 := by
  by_cases hlarge : 4294967296 ≤ realSizeOf size ∨ l.endp p - l.startp p < realSizeOf size
  · rw [place, if_pos hlarge] at h
    cases h
  · omega

theorem headerWithin_done (m : Memory) (fid : Fid) (addr newSize : Nat) (hlt : newSize < 4294967296) :
    HeaderWithin {} m fid addr newSize := by
  have hok : (writeHeader {} m fid addr newSize).1 = true := by
    rw [writeHeader, andThen_second rfl, writeFileLength]
    split
    · rfl
    · rfl
  obtain ⟨_, hlen, hsize⟩ := writeHeader_ok hlt hok
  have hreal : realSizeOf newSize = 10 + lengthSizeOf newSize + newSize := rfl
  rw [HeaderWithin, recordSize]
  omega

theorem clearReplies_safe : ClearReplies.Safe {} := ⟨rfl, fun _ => rfl, rfl⟩

theorem anewSafe_done {l : Layout} {m : Memory} {f : File} {newSize addr base : Nat} (fid : Fid)
    (h : place l m newSize f.persistent = some (addr, base)) : AnewSafe {} f fid m newSize addr base := by
  have hlt := place_lt h
  rw [realSizeOf] at hlt
  exact ⟨.inr (.inl rfl), headerWithin_done m fid addr newSize (by omega), clearReplies_safe,
    fun _ => clearReplies_safe, fun _ _ => rfl⟩

theorem sample_room : 4096 + (flashPermanentRegion + 20) ≤ 32768 := by decide

theorem sample_fits : 32768 ≤ 4294967296 := by decide

def sampleLayout : Layout := ⟨4096, 32768, Nat.zero_lt_succ 4095, sample_room, sample_fits⟩

/-- EF_PHY, the persistent file. -/
def efPhy : Fid := 0xe020

/-- A flash of zeros. -/
def emptyFlash : State := ⟨fun _ => 0, fun fid => { persistent := decide (fid = efPhy) }⟩

theorem emptyFlash_fresh : Fresh sampleLayout emptyFlash := ⟨fun _ => rfl, fun _ => rfl⟩

end KeyWallet.FlashFile
