import KeyWallet.FlashStore

/-! What the chains of the records are after any run, and that scan_region finds the same files in them. -/
namespace KeyWallet.FlashFile

open StepSystem (Along run)

/-- The fid of the record at `base`. -/
def recordFid (m : Memory) (base : Nat) : Fid := BitVec.ofNat 16 (readU16 m (base + 8))

/-- scan_region from `base` on; the files found so far have their data pointers. No answer when the fuel runs out. -/
def scanRegion (m : Memory) (startp : Nat) : (fuel base : Nat) → (Fid → Option Nat) → Option (Fid → Option Nat)
  | 0, _, _ => none
  | fuel + 1, base, found =>
    if base < startp ∨ base = 0 then some found
    else
      let found := Function.update found (recordFid m base) (some (base + 10))
      if readU32 m base = 0 then some found else scanRegion m startp fuel (readU32 m base) found

/-- The scans of file_scan_flash. -/
def scanFlash (l : Layout) (m : Memory) (fuel : Nat) : Option (Fid → Option Nat) :=
  (scanRegion m (l.startp true) fuel (readU32 m (l.endp true)) fun _ => none).bind
    (scanRegion m (l.startp false) fuel (readU32 m (l.endp false)))

/-- The records of a pool lie inside it, each below the one before it. -/
structure InPool (l : Layout) (m : Memory) (p : Bool) (bs : List Nat) : Prop where
  inside : ∀ b ∈ bs, l.startp p ≤ b ∧ b + recordSize m b ≤ l.endp p
  below : bs.Pairwise fun b c => c + recordSize m c ≤ b

/-- The records of both pools are linked lists of the files with data, and a scan finds these. -/
structure Rescannable (l : Layout) (s : State) (chains : Bool → List Nat) : Prop where
  sound : Sound l s chains
  inPool : ∀ p, InPool l s.mem p (chains p)
  scan : ∃ fuel found, scanFlash l s.mem fuel = some found ∧ ∀ f, found f = (s.files f).data

/-- The length that a write in place leaves stays within the record, and the failures are made up for. -/
def Op.StaysWithin (l : Layout) (s : State) (op : Op) : Prop :=
  op.Safe (fun rs m d bytes partly => LengthWithin rs m d bytes.length partly) l s

section Scan

variable {l : Layout} {m : Memory} {s : State} {chains : Bool → List Nat} {lo base : Nat} {bs : List Nat}

theorem scanRegion_chain (hlo : 0 < lo) (hc : Chain m lo base bs) {fuel : Nat} (hfuel : bs.length < fuel)
    (found : Fid → Option Nat) :
    scanRegion m lo fuel (readU32 m base) found =
      some (bs.foldl (fun found b => Function.update found (recordFid m b) (some (b + 10))) found) := by
  -- on the list: each round takes its first record
  induction bs generalizing base fuel found with
  | nil =>
    have hend : readU32 m base = 0 := hc
    cases fuel with
    | zero => cases hfuel
    | succ fuel =>
      rw [scanRegion, hend, if_pos (.inr rfl)]
      rfl
  | cons b bs ih =>
    obtain ⟨hnext, hnode, hrest⟩ := hc
    have hlow := hnode.low
    cases fuel with
    | zero => cases hfuel
    | succ fuel =>
      have hgo : ¬ (b < lo ∨ b = 0) := by omega
      rw [hnext, scanRegion, if_neg hgo, List.foldl_cons]
      cases bs with
      | nil =>
        have hend : readU32 m b = 0 := hrest
        simp only [hend, if_true, List.foldl_nil]
      | cons c bs =>
        have hc : readU32 m b = c := hrest.1
        have hne : ¬ readU32 m b = 0 := by
          have hlow' := hrest.2.1.low
          omega
        simp only [hne, if_false]
        exact ih hrest (Nat.lt_of_succ_lt_succ hfuel) _

theorem foldl_found (f : Fid) (bs : List Nat) (found : Fid → Option Nat) (data : Option Nat)
    (hdata : ∀ b ∈ bs, recordFid m b = f → data = some (b + 10))
    (hfound : found f = data ∨ found f = none) (hsome : found f = none → data = none ∨ ∃ b ∈ bs, recordFid m b = f) :
    bs.foldl (fun found b => Function.update found (recordFid m b) (some (b + 10))) found f = data := by
  induction bs generalizing found with
  | nil =>
    rcases hfound with h | h
    · exact h
    · rcases hsome h with hd | ⟨b, hb, _⟩
      · rw [hd]
        exact h
      · cases hb
  | cons b bs ih =>
    rw [List.foldl_cons]
    apply ih
    · intro c hc hcf
      exact hdata c (List.mem_cons_of_mem b hc) hcf
    · by_cases hb : recordFid m b = f
      · left
        rw [hb, Function.update_self]
        exact (hdata b List.mem_cons_self hb).symm
      · rw [Function.update_of_ne (Ne.symm hb)]
        exact hfound
    · intro hnone
      by_cases hb : recordFid m b = f
      · rw [hb, Function.update_self] at hnone
        cases hnone
      · rw [Function.update_of_ne (Ne.symm hb)] at hnone
        rcases hsome hnone with hd | ⟨c, hc, hcf⟩
        · exact .inl hd
        · rcases List.mem_cons.mp hc with rfl | hc
          · exact absurd hcf hb
          · exact .inr ⟨c, hc, hcf⟩

theorem Sound.recordFid_eq (h : Sound l s chains) {f : Fid} {b : Nat} (hd : (s.files f).data = some (b + 10)) :
    recordFid s.mem b = f := by
  obtain ⟨c, _, hbc, hfid⟩ := h.placed f _ hd
  obtain rfl : b = c := by omega
  rw [recordFid, hfid]
  apply BitVec.eq_of_toNat_eq
  rw [BitVec.toNat_ofNat]
  exact Nat.mod_eq_of_lt f.isLt

theorem Sound.data_eq (h : Sound l s chains) {p : Bool} {b : Nat} (hb : b ∈ chains p) {f : Fid}
    (hf : recordFid s.mem b = f) : (s.files f).data = some (b + 10) := by
  obtain ⟨g, hg⟩ := h.owned p b hb
  have hgf := h.recordFid_eq hg
  rw [← hf, hgf]
  exact hg

theorem Sound.scan (h : Sound l s chains) :
    ∃ fuel found, scanFlash l s.mem fuel = some found ∧ ∀ f, found f = (s.files f).data := by
  let fuel := (chains true).length + (chains false).length + 1
  have htrue : (chains true).length < fuel := by omega
  have hfalse : (chains false).length < fuel := by omega
  let note := fun (found : Fid → Option Nat) (b : Nat) => Function.update found (recordFid s.mem b) (some (b + 10))
  have hscan : scanFlash l s.mem fuel = some ((chains true ++ chains false).foldl note fun _ => none) := by
    rw [scanFlash, scanRegion_chain (l.startp_pos true) (h.linked true) htrue, Option.bind_some,
      scanRegion_chain (l.startp_pos false) (h.linked false) hfalse, List.foldl_append]
  refine ⟨fuel, _, hscan, ?_⟩
  intro f
  apply foldl_found
  · intro b hb hbf
    rcases List.mem_append.mp hb with hb | hb
    · exact h.data_eq hb hbf
    · exact h.data_eq hb hbf
  · exact .inr rfl
  · intro _
    cases hd : (s.files f).data with
    | none => exact .inl rfl
    | some d =>
      right
      obtain ⟨b, hb, rfl, _⟩ := h.placed f d hd
      refine ⟨b, ?_, h.recordFid_eq hd⟩
      cases hp : (s.files f).persistent with
      | false =>
        rw [hp] at hb
        exact List.mem_append.mpr (.inr hb)
      | true =>
        rw [hp] at hb
        exact List.mem_append.mpr (.inl hb)

theorem Sound.rescannable (h : Sound l s chains) : Rescannable l s chains := by
  refine ⟨h, fun p => ⟨fun b hb => h.linked.mem hb, (h.linked p).sorted⟩, h.scan⟩

theorem step_sound (l : Layout) (s : State) (op : Op) (hsafe : op.StaysWithin l s)
    (h : ∃ chains, Sound l s chains) : ∃ chains, Sound l (step l s op) chains := by
  obtain ⟨chains, h⟩ := h
  have ha := after_step l s op
  cases op with
  | put fid bytes rs =>
    have hoff : false = false → (0 : Nat) = 0 := fun _ => rfl
    exact (write_sound h hoff hsafe (fun _ _ hp => hp) rfl ha).1
  | putOffset fid bytes offset rs =>
    have hoff : true = false → offset = 0 := fun hbad => by cases hbad
    exact (write_sound h hoff hsafe (fun _ _ hp => hp) rfl ha).1
  | clear fid rs =>
    cases hf : (s.files fid).data with
    | none =>
      rw [call_clear_none hf] at ha
      obtain ⟨hsound, _⟩ := h.same ha.files (by rw [ha.mem]; exact h.linked)
        (by rw [ha.mem]; exact fun q b _ => Kept.refl s.mem b)
      exact ⟨chains, hsound⟩
    | some d =>
      obtain ⟨q, b, hb, rfl⟩ := h.old fid d hf
      have hrs : rs.Safe := hsafe (by rw [hf]; exact Option.some_ne_none _)
      rw [h.call_clear hrs hf] at ha
      exact (h.cleared hrs hf ha).1

end Scan

/-- After every run from an empty flash whose calls answer so, the records are what the files say. -/
theorem chains_hold (l : Layout) (s : State) (ops : List Op) (hs : Fresh l s)
    (hok : Along (step l) (Op.StaysWithin l) s ops) : ∃ chains, Rescannable l (run (step l) s ops) chains := by
  obtain ⟨chains, h⟩ := StepSystem.run_invariant (step_sound l) s ops hok ⟨_, hs.sound⟩
  exact ⟨chains, h.rescannable⟩

/-! A pointer that is not written. -/

theorem put_staysWithin (l : Layout) (s : State) (fid : Fid) (bytes : Bytes) :
    Op.StaysWithin l s (.put fid bytes {}) := by
  intro _
  refine ⟨?_, fun _ addr base hplace => anewSafe_done fid hplace⟩
  intro d _ hin
  have hfits := hin.fits (fun _ => rfl)
  have hroom := hfits.room
  have hok : (lengthInPlaceOf {} s.mem d bytes.length false).1 = true := by
    rw [lengthInPlaceOf, if_neg Bool.false_ne_true]
    split
    · rfl
    · rfl
  obtain ⟨hlen, hsize⟩ := lengthInPlaceOf_ok hfits hok
  rw [if_neg Bool.false_ne_true] at hsize
  have hwithin : LengthWithin {} s.mem d bytes.length false := by
    rw [LengthWithin]
    omega
  exact hwithin

theorem clear_staysWithin (l : Layout) (s : State) (fid : Fid) : Op.StaysWithin l s (.clear fid {}) :=
  fun _ => clearReplies_safe

/-- Two files, the first of which is written shorter and then cleared, and the persistent one, which grows. -/
theorem chains_hold_sample :
    ∃ chains, Rescannable sampleLayout
      (run (step sampleLayout) emptyFlash
        [.put 1 [1, 2, 3] {}, .put 2 [4] {}, .put 1 [5] {}, .clear 1 {}, .put efPhy [1] {}, .put efPhy [1, 2] {}])
      chains :=
  chains_hold sampleLayout emptyFlash _ emptyFlash_fresh
    ⟨put_staysWithin _ _ _ _, put_staysWithin _ _ _ _, put_staysWithin _ _ _ _, clear_staysWithin _ _ _,
      put_staysWithin _ _ _ _, put_staysWithin _ _ _ _, trivial⟩

/-- Two files; the first one is cleared, and the pointer to its record is not written. -/
def unlinkedRun : List Op := [.put 1 [1] {}, .put 2 [2] {}, .clear 1 { unlink := some 0 }]

theorem unlinked_others {f : Fid} (h1 : f ≠ 1) (h2 : f ≠ 2) :
    ((run (step sampleLayout) emptyFlash unlinkedRun).files f).data = none := by
  have hrun : (run (step sampleLayout) emptyFlash unlinkedRun).files f = emptyFlash.files f := by
    apply run_files
    intro op hop
    simp only [unlinkedRun, List.mem_cons, List.not_mem_nil, or_false] at hop
    rcases hop with rfl | rfl | rfl
    · exact h1
    · exact h2
    · exact h1
  rw [hrun]
  rfl

/-- The cleared record is in the list still, and ends it: the other file is lost to a scan. -/
theorem unlinked_breaks_chain : ¬ ∀ (l : Layout) (s : State) (ops : List Op), Fresh l s →
    ∃ chains, Rescannable l (run (step l) s ops) chains := by
  intro h
  obtain ⟨chains, hsound, _⟩ := h sampleLayout emptyFlash unlinkedRun emptyFlash_fresh
  have hhead : readU32 (run (step sampleLayout) emptyFlash unlinkedRun).mem (sampleLayout.endp false) = 16351 := by
    decide +kernel
  have hone : ((run (step sampleLayout) emptyFlash unlinkedRun).files 1).data = none := by decide +kernel
  have htwo : ((run (step sampleLayout) emptyFlash unlinkedRun).files 2).data = some 16348 := by decide +kernel
  have hchain := hsound.linked false
  have hmem : 16351 ∈ chains false := by
    cases hbs : chains false with
    | nil =>
      rw [hbs] at hchain
      have hend : readU32 (run (step sampleLayout) emptyFlash unlinkedRun).mem (sampleLayout.endp false) = 0 := hchain
      omega
    | cons b bs =>
      rw [hbs] at hchain
      have hfirst := hchain.1
      have hb : b = 16351 := by omega
      rw [hb]
      exact List.mem_cons_self
  obtain ⟨f, hf⟩ := hsound.owned false 16351 hmem
  by_cases h1 : f = 1
  · rw [h1, hone] at hf
    cases hf
  · by_cases h2 : f = 2
    · rw [h2, htwo] at hf
      exact absurd hf (by decide)
    · rw [unlinked_others h1 h2] at hf
      cases hf

end KeyWallet.FlashFile
