import KeyWallet.StepSystem
import Mathlib.Data.Fintype.Card
import Mathlib.Data.Finset.Card
import Mathlib.Tactic.Common

/-! The write-back cache of `low_flash.c`: six sectors in RAM in front of the flash. The task that
drains it runs on the other core, between any two sections under `mtx_flash`. Addresses lie in the
partition. -/
namespace KeyWallet

namespace FlashCache

/-- Bytes by their address. -/
abbrev Memory := Nat → UInt8

/-- FLASH_SECTOR_SIZE. -/
def sectorSize : Nat := 4096

/-- `addr & -FLASH_SECTOR_SIZE`. -/
def sectorOf (addr : Nat) : Nat := addr / sectorSize * sectorSize

/-- TOTAL_FLASH_PAGES. -/
abbrev PageIndex := Fin 6

/-- The value of an erased byte. -/
def erased : UInt8 := 0xff

/-- page_flash_t. -/
structure Page where
  page : Memory := fun _ => 0
  address : Nat := 0
  ready : Bool := false
  erase : Bool := false
  pageSize : Nat := 0

/-- The statics of `low_flash.c` and the flash behind them. -/
structure Cache where
  flash : Memory
  pages : PageIndex → Page := fun _ => {}
  readyPages : Nat := 0
  available : Bool := false
  lockedOut : Bool := true

/-- memcpy of these bytes to an address. -/
def patch (m : Memory) (addr : Nat) (data : List UInt8) : Memory := fun a =>
  if addr ≤ a then (data[a - addr]?).getD (m a) else m a

/-- The first page with the property, as the loops find it. -/
def findPage (pages : PageIndex → Page) (found : Page → Bool) : Option PageIndex :=
  (List.finRange 6).find? fun r => found (pages r)

def Page.active (p : Page) : Bool := p.ready || p.erase

def findFreePage (addr : Nat) (c : Cache) : Option (PageIndex × Cache) :=
  match findPage c.pages fun p => p.active && p.address == sectorOf addr with
  | some r =>
    let p := c.pages r
    let reused := if p.erase then { p with erase := false, ready := true, pageSize := 0 } else p
    some (r, { c with pages := Function.update c.pages r reused })
  | none =>
    match findPage c.pages fun p => !p.ready && !p.erase with
    | none => none
    | some r =>
      let loaded : Page :=
        { page := fun i => c.flash (sectorOf addr + i)
          address := sectorOf addr
          ready := true }
      some (r, { c with pages := Function.update c.pages r loaded, readyPages := c.readyPages + 1 })

/-- One section under the mutex of flash_program_block: the part of the data in the sector of the
address. -/
def programChunk (addr : Nat) (chunk : List UInt8) (c : Cache) : Option Cache :=
  (findFreePage addr c).map fun found =>
    let p := found.2.pages found.1
    let filled := { p with page := patch p.page (addr % sectorSize) chunk }
    { found.2 with pages := Function.update found.2.pages found.1 filled }

/-- Whether the other core let itself be stopped for a page, and started again after it. -/
structure Lockout where
  start : Bool := true
  finish : Bool := true

/-- What a run of low_flash_task meets: the mutex, and the lockout at each page. -/
structure TaskRun where
  entered : Bool := true
  lockout : PageIndex → Lockout := fun _ => {}

/-- The bytes a pending erase covers; a size below a sector covers none. -/
def Page.eraseSize (p : Page) : Nat :=
  if p.pageSize = 0 then sectorSize else p.pageSize / sectorSize * sectorSize

/-- The sector as a memory range. -/
def sectorBytes (p : Page) : List UInt8 := (List.range sectorSize).map p.page

/-- The body of the loop of low_flash_task. -/
def flushPage (t : TaskRun) (c : Cache) (r : PageIndex) : Cache :=
  let p := c.pages r
  if p.ready then
    if !(t.lockout r).start then c
    else
      let written := { c with flash := patch c.flash p.address (sectorBytes p) }
      if !(t.lockout r).finish then written
      else { written with
        pages := Function.update c.pages r { p with ready := false }
        readyPages := c.readyPages - 1 }
  else if p.erase then
    if !(t.lockout r).start then c
    else
      let cleared := { c with flash := patch c.flash p.address (List.replicate p.eraseSize erased) }
      if !(t.lockout r).finish then cleared
      else { cleared with
        pages := Function.update c.pages r { p with erase := false }
        readyPages := c.readyPages - 1 }
  else c

def lowFlashTask (t : TaskRun) (c : Cache) : Cache :=
  if !t.entered then c
  else
    let flushed := if c.lockedOut && c.available && c.readyPages > 0 then
        (List.finRange 6).foldl (flushPage t) c else c
    if flushed.readyPages = 0 then { flushed with available := false } else flushed

def lowFlashCommit (c : Cache) : Cache := { c with available := true }

/-- The other core while this one is outside the mutex. -/
def idle (ts : List TaskRun) (c : Cache) : Cache := ts.foldl (fun c t => lowFlashTask t c) c

/-- flash_program_block, with what the other core does before each section under the mutex and in
each wait for a drain. The number says how many bytes were programmed; a wait in which the cache is
not drained is a timeout, and the call then fails. -/
def programBlock (others : List (List TaskRun)) (addr : Nat) (data : List UInt8) (c : Cache) :
    Bool × Nat × Cache :=
  if data = [] then (true, 0, c)
  else
    let chunk := min data.length (sectorSize - addr % sectorSize)
    match programChunk addr (data.take chunk) (idle (others.headD []) c) with
    | some next =>
      let rest := programBlock others.tail (addr + chunk) (data.drop chunk) next
      (rest.1, chunk + rest.2.1, rest.2.2)
    | none =>
      let waited := idle (others.tail.headD []) (lowFlashCommit (idle (others.headD []) c))
      if waited.available then (false, 0, waited)
      else programBlock others.tail.tail addr data waited
termination_by data.length + others.length
decreasing_by
  · have hpos : 0 < sectorSize - addr % sectorSize := by
      have := Nat.mod_lt addr (show sectorSize > 0 by decide)
      omega
    have hlen : 0 < data.length := List.length_pos_iff.mpr ‹_›
    simp only [List.length_drop, List.length_tail]
    omega
  · rename_i hwait
    have hlen : 0 < others.length := by
      apply List.length_pos_iff.mpr
      rintro rfl
      exact hwait rfl
    simp only [List.length_tail]
    omega

/-- One section under the mutex of flash_read_block. -/
def readChunk (addr count : Nat) (c : Cache) : List UInt8 :=
  match findPage c.pages fun p => p.ready && p.address == sectorOf addr with
  | some r => (List.range count).map fun i => (c.pages r).page (addr % sectorSize + i)
  | none => (List.range count).map fun i => c.flash (addr + i)

/-- flash_read_block, with the other core as above. -/
def readBlock (others : List (List TaskRun)) (addr count : Nat) (c : Cache) : List UInt8 × Cache :=
  if count = 0 then ([], c)
  else
    let chunk := min count (sectorSize - addr % sectorSize)
    let now := idle (others.headD []) c
    let rest := readBlock others.tail (addr + chunk) (count - chunk) now
    (readChunk addr chunk now ++ rest.1, rest.2)
termination_by count
decreasing_by
  have := Nat.mod_lt addr (show sectorSize > 0 by decide)
  omega

/-- flash_erase_page. -/
def erasePage (addr pageSize : Nat) (c : Cache) : Bool × Cache :=
  if c.readyPages = 6 then (false, c)
  else
    match findFreePage addr c with
    | none => (false, c)
    | some (r, found) =>
      let marked := { found.pages r with erase := true, ready := false, pageSize := pageSize }
      (true, { found with pages := Function.update found.pages r marked })

/-! The bookkeeping of the pages. -/

/-- The pages in use. -/
def inUse (pages : PageIndex → Page) : Finset PageIndex := Finset.univ.filter fun r => (pages r).active

/-- The pages are counted, aligned and told apart by their addresses. -/
structure Sound (pages : PageIndex → Page) (n : Nat) : Prop where
  count : n = (inUse pages).card
  aligned : ∀ r, (pages r).active = true → sectorOf (pages r).address = (pages r).address
  exclusive : ∀ r, ¬ ((pages r).ready = true ∧ (pages r).erase = true)
  distinct : ∀ r s, (pages r).active = true → (pages s).active = true →
    (pages r).address = (pages s).address → r = s

theorem sectorOf_sectorOf (addr : Nat) : sectorOf (sectorOf addr) = sectorOf addr := by
  simp only [sectorOf, sectorSize]
  omega

theorem sectorOf_add_mod (addr : Nat) : sectorOf addr + addr % sectorSize = addr := by
  simp only [sectorOf, sectorSize]
  omega

theorem mem_inUse {pages : PageIndex → Page} {r : PageIndex} :
    r ∈ inUse pages ↔ (pages r).active = true := by
  simp [inUse]

theorem findPage_some {pages : PageIndex → Page} {found : Page → Bool} {r : PageIndex}
    (h : findPage pages found = some r) : found (pages r) = true := by
  have hfound := List.find?_some h
  exact hfound

theorem findPage_none {pages : PageIndex → Page} {found : Page → Bool}
    (h : findPage pages found = none) (r : PageIndex) : found (pages r) = false := by
  have hall := List.find?_eq_none.mp h r (List.mem_finRange r)
  simpa using hall

section Bookkeeping

variable {pages : PageIndex → Page} {n : Nat} {r : PageIndex} {p : Page}

theorem inUse_update_active (hp : p.active = true) :
    inUse (Function.update pages r p) = insert r (inUse pages) := by
  ext s
  rw [Finset.mem_insert, mem_inUse, mem_inUse, Function.update_apply]
  by_cases hs : s = r
  · simp [hs, hp]
  · simp [hs]

theorem inUse_update_free (hp : p.active = false) :
    inUse (Function.update pages r p) = (inUse pages).erase r := by
  ext s
  rw [Finset.mem_erase, mem_inUse, mem_inUse, Function.update_apply]
  by_cases hs : s = r
  · simp [hs, hp]
  · simp [hs]

theorem exclusive_update (h : ∀ s, ¬ ((pages s).ready = true ∧ (pages s).erase = true))
    (hx : ¬ (p.ready = true ∧ p.erase = true)) (s : PageIndex) :
    ¬ ((Function.update pages r p s).ready = true ∧ (Function.update pages r p s).erase = true) := by
  by_cases hs : s = r
  · rw [hs, Function.update_self]
    exact hx
  · rw [Function.update_of_ne hs]
    exact h s

theorem Sound.replace (h : Sound pages n) (hr : (pages r).active = true) (hp : p.active = true)
    (hx : ¬ (p.ready = true ∧ p.erase = true)) (haddr : p.address = (pages r).address) :
    Sound (Function.update pages r p) n := by
  have haddress : ∀ s, (Function.update pages r p s).address = (pages s).address := by
    intro s
    by_cases hs : s = r
    · rw [hs, Function.update_self, haddr]
    · rw [Function.update_of_ne hs]
  have hactive : ∀ s, (Function.update pages r p s).active = (pages s).active := by
    intro s
    by_cases hs : s = r
    · rw [hs, Function.update_self, hp, hr]
    · rw [Function.update_of_ne hs]
  refine ⟨?_, ?_, exclusive_update h.exclusive hx, ?_⟩
  · rw [inUse_update_active hp, Finset.insert_eq_of_mem (mem_inUse.mpr hr), h.count]
  · intro s hs
    rw [haddress]
    exact h.aligned s (hactive s ▸ hs)
  · intro s t hs ht heq
    rw [haddress, haddress] at heq
    exact h.distinct s t (hactive s ▸ hs) (hactive t ▸ ht) heq

theorem Sound.take (h : Sound pages n) (hr : (pages r).active = false) (hp : p.active = true)
    (hx : ¬ (p.ready = true ∧ p.erase = true)) (haligned : sectorOf p.address = p.address)
    (hnew : ∀ s, (pages s).active = true → (pages s).address ≠ p.address) :
    Sound (Function.update pages r p) (n + 1) := by
  refine ⟨?_, ?_, exclusive_update h.exclusive hx, ?_⟩
  · have hnot : r ∉ inUse pages := by
      rw [mem_inUse, hr]
      exact Bool.false_ne_true
    rw [inUse_update_active hp, Finset.card_insert_of_notMem hnot, h.count]
  · intro s hs
    by_cases hsr : s = r
    · subst hsr
      simpa using haligned
    · rw [Function.update_of_ne hsr] at hs ⊢
      exact h.aligned s hs
  · intro s t hs ht heq
    by_cases hsr : s = r <;> by_cases htr : t = r
    · rw [hsr, htr]
    · subst hsr
      rw [Function.update_of_ne htr] at ht heq
      rw [Function.update_self] at heq
      exact absurd heq.symm (hnew t ht)
    · subst htr
      rw [Function.update_of_ne hsr] at hs heq
      rw [Function.update_self] at heq
      exact absurd heq (hnew s hs)
    · rw [Function.update_of_ne hsr] at hs heq
      rw [Function.update_of_ne htr] at ht heq
      exact h.distinct s t hs ht heq

theorem Sound.free (h : Sound pages n) (hr : (pages r).active = true) (hp : p.active = false)
    (hx : ¬ (p.ready = true ∧ p.erase = true)) : Sound (Function.update pages r p) (n - 1) := by
  have hne : ∀ s, (Function.update pages r p s).active = true → s ≠ r := by
    rintro s hs rfl
    rw [Function.update_self, hp] at hs
    cases hs
  refine ⟨?_, ?_, exclusive_update h.exclusive hx, ?_⟩
  · rw [inUse_update_free hp, Finset.card_erase_of_mem (mem_inUse.mpr hr), h.count]
  · intro s hs
    have hsr := hne s hs
    rw [Function.update_of_ne hsr] at hs ⊢
    exact h.aligned s hs
  · intro s t hs ht heq
    have hsr := hne s hs
    have htr := hne t ht
    rw [Function.update_of_ne hsr] at hs heq
    rw [Function.update_of_ne htr] at ht heq
    exact h.distinct s t hs ht heq

end Bookkeeping

/-! Bytes and ranges. -/

/-- The address is one of the `size` bytes from `start` on. -/
def Within (start size a : Nat) : Prop := start ≤ a ∧ a < start + size

theorem patch_outside {m : Memory} {addr a : Nat} {data : List UInt8}
    (h : ¬ Within addr data.length a) : patch m addr data a = m a := by
  unfold patch
  by_cases hle : addr ≤ a
  · have hlen : data.length ≤ a - addr := by
      unfold Within at h
      omega
    rw [if_pos hle, List.getElem?_eq_none hlen, Option.getD_none]
  · rw [if_neg hle]

theorem patch_shift {f m : Memory} {base offset : Nat} (data : List UInt8) {i : Nat}
    (h : f i = m (base + i)) : patch f offset data i = patch m (base + offset) data (base + i) := by
  unfold patch
  have hsub : base + i - (base + offset) = i - offset := by omega
  by_cases hle : offset ≤ i
  · rw [if_pos hle, if_pos (by omega), hsub, h]
  · rw [if_neg hle, if_neg (by omega), h]

theorem patch_nil (m : Memory) (addr : Nat) : patch m addr [] = m := by
  funext a
  exact patch_outside fun h => by
    unfold Within at h
    simp only [List.length_nil] at h
    omega

theorem patch_append (m : Memory) (addr : Nat) (first second : List UInt8) :
    patch (patch m addr first) (addr + first.length) second = patch m addr (first ++ second) := by
  funext a
  unfold patch
  by_cases hsecond : addr + first.length ≤ a
  · have hle : addr ≤ a := by omega
    have hsub : a - (addr + first.length) = a - addr - first.length := by omega
    have hnone : first[a - addr]? = none := List.getElem?_eq_none (by omega)
    rw [if_pos hsecond, if_pos hle, if_pos hle, List.getElem?_append_right (by omega), hsub, hnone,
      Option.getD_none]
  · rw [if_neg hsecond]
    by_cases hle : addr ≤ a
    · rw [if_pos hle, if_pos hle, List.getElem?_append_left (by omega)]
    · rw [if_neg hle, if_neg hle]

theorem patch_sector {m : Memory} {p : Page} {i : Nat} (hi : i < sectorSize) :
    patch m p.address (sectorBytes p) (p.address + i) = p.page i := by
  unfold patch sectorBytes
  rw [if_pos (Nat.le_add_right _ _), Nat.add_sub_cancel_left, List.getElem?_map,
    List.getElem?_range hi, Option.map_some, Option.getD_some]

theorem patch_replicate {m : Memory} {start size a : Nat} {b : UInt8} (h : Within start size a) :
    patch m start (List.replicate size b) a = b := by
  unfold patch
  unfold Within at h
  rw [if_pos h.1, List.getElem?_replicate, if_pos (by omega), Option.getD_some]

theorem sectorOf_eq_iff {a start : Nat} (h : sectorOf start = start) :
    sectorOf a = start ↔ Within start sectorSize a := by
  unfold Within
  simp only [sectorOf, sectorSize] at *
  omega

/-! The memory that the cache stands for. -/

/-- The flat memory: a sector with a page has the bytes of the page, an erase that is pending has
taken place, and the rest is in the flash. -/
structure Shows (c : Cache) (flat : Memory) : Prop where
  ready : ∀ r, (c.pages r).ready = true → ∀ i < sectorSize,
    (c.pages r).page i = flat ((c.pages r).address + i)
  erase : ∀ r, (c.pages r).erase = true → ∀ a,
    Within (c.pages r).address (c.pages r).eraseSize a → flat a = erased
  whole : ∀ r, (c.pages r).erase = true → sectorSize ≤ (c.pages r).eraseSize
  apart : ∀ r s, (c.pages r).ready = true → (c.pages s).erase = true →
    ¬ Within (c.pages s).address (c.pages s).eraseSize (c.pages r).address
  plain : ∀ a, (∀ r, (c.pages r).ready = true → sectorOf a ≠ (c.pages r).address) →
    (∀ r, (c.pages r).erase = true → ¬ Within (c.pages r).address (c.pages r).eraseSize a) →
    c.flash a = flat a

/-- No pending erase covers any of these bytes. -/
def Untouched (c : Cache) (start size : Nat) : Prop :=
  ∀ r, (c.pages r).erase = true → ∀ a, Within (c.pages r).address (c.pages r).eraseSize a →
    ¬ Within start size a

/-- The pending erases of one cache are among those of another. -/
def Fewer (c c' : Cache) : Prop :=
  ∀ r, (c'.pages r).erase = true → (c.pages r).erase = true ∧ (c'.pages r).address =
    (c.pages r).address ∧ (c'.pages r).eraseSize = (c.pages r).eraseSize

theorem Untouched.of_fewer {c c' : Cache} {start size : Nat} (h : Untouched c start size)
    (hf : Fewer c c') : Untouched c' start size := by
  intro r hr a ha
  obtain ⟨he, haddr, hsize⟩ := hf r hr
  rw [haddr, hsize] at ha
  exact h r he a ha

theorem Untouched.mono {c : Cache} {start size start' size' : Nat} (h : Untouched c start size)
    (hfrom : start ≤ start') (hto : start' + size' ≤ start + size) : Untouched c start' size' := by
  intro r hr a ha hin
  refine h r hr a ha ?_
  unfold Within at hin ⊢
  omega

theorem Fewer.refl (c : Cache) : Fewer c c := fun _ hr => ⟨hr, rfl, rfl⟩

theorem Fewer.trans {c c' c'' : Cache} (h : Fewer c c') (h' : Fewer c' c'') : Fewer c c'' := by
  intro r hr
  obtain ⟨he', haddr', hsize'⟩ := h' r hr
  obtain ⟨he, haddr, hsize⟩ := h r he'
  exact ⟨he, haddr'.trans haddr, hsize'.trans hsize⟩

theorem Fewer.update {c : Cache} {r : PageIndex} {p : Page} (hp : p.erase = false) (flash : Memory)
    (n : Nat) : Fewer c { c with flash := flash, pages := Function.update c.pages r p, readyPages := n } := by
  intro s hs
  by_cases heq : s = r
  · simp only [heq, Function.update_self, hp, Bool.false_eq_true] at hs
  · simp only [Function.update_of_ne heq] at hs
    simp only [Function.update_of_ne heq, hs, and_self]

theorem findFreePage_cases {addr : Nat} {c c' : Cache} {r : PageIndex}
    (h : findFreePage addr c = some (r, c')) :
    (c.pages r).active = true ∧ (c.pages r).address = sectorOf addr ∧ c' = { c with
      pages := Function.update c.pages r (if (c.pages r).erase then
        { c.pages r with erase := false, ready := true, pageSize := 0 } else c.pages r) } ∨
    (∀ s, (c.pages s).active = true → (c.pages s).address ≠ sectorOf addr) ∧
      (c.pages r).active = false ∧ c' = { c with
        pages := Function.update c.pages r
          { page := fun i => c.flash (sectorOf addr + i), address := sectorOf addr, ready := true }
        readyPages := c.readyPages + 1 } := by
  unfold findFreePage at h
  cases hsame : findPage c.pages fun p => p.active && p.address == sectorOf addr with
  | some s =>
    have hfound := findPage_some hsame
    rw [Bool.and_eq_true, beq_iff_eq] at hfound
    simp only [hsame, Option.some.injEq, Prod.mk.injEq] at h
    obtain ⟨rfl, rfl⟩ := h
    exact .inl ⟨hfound.1, hfound.2, rfl⟩
  | none =>
    have hnone : ∀ s, (c.pages s).active = true → (c.pages s).address ≠ sectorOf addr := by
      intro s hs heq
      have := findPage_none hsame s
      simp [hs, heq] at this
    simp only [hsame] at h
    cases hfree : findPage c.pages fun p => !p.ready && !p.erase with
    | none => simp [hfree] at h
    | some s =>
      have hfound := findPage_some hfree
      rw [Bool.and_eq_true, Bool.not_eq_true', Bool.not_eq_true'] at hfound
      simp only [hfree, Option.some.injEq, Prod.mk.injEq] at h
      obtain ⟨rfl, rfl⟩ := h
      exact .inr ⟨hnone, by simp [Page.active, hfound], rfl⟩

section Steps

variable {c c' : Cache} {flat : Memory}

theorem Page.active_of_ready {p : Page} (h : p.ready = true) : p.active = true := by
  rw [active, h, Bool.true_or]

theorem Page.active_of_erase {p : Page} (h : p.erase = true) : p.active = true := by
  rw [active, h, Bool.or_true]

theorem eraseSize_dvd (p : Page) : ∃ k, p.eraseSize = k * sectorSize := by
  unfold Page.eraseSize
  split
  · exact ⟨1, (Nat.one_mul _).symm⟩
  · exact ⟨_, rfl⟩

theorem within_sectorOf {p : Page} (h : sectorOf p.address = p.address) (a : Nat) :
    Within p.address p.eraseSize (sectorOf a) ↔ Within p.address p.eraseSize a := by
  obtain ⟨k, hk⟩ := eraseSize_dvd p
  unfold Within
  rw [hk]
  simp only [sectorOf, sectorSize] at *
  omega

theorem sectorOf_within {addr a : Nat} {chunk : List UInt8}
    (hfit : addr % sectorSize + chunk.length ≤ sectorSize) (h : Within addr chunk.length a) :
    sectorOf a = sectorOf addr := by
  unfold Within at h
  simp only [sectorOf, sectorSize] at *
  omega

theorem Shows.fill (hs : Sound c.pages c.readyPages) (h : Shows c flat) {r : PageIndex} {p : Page}
    {addr : Nat} {chunk : List UInt8} (hfit : addr % sectorSize + chunk.length ≤ sectorSize)
    (hpos : 0 < chunk.length) (hfree : Untouched c addr chunk.length)
    (hother : ∀ s, s ≠ r → (c.pages s).active = true → (c.pages s).address ≠ sectorOf addr)
    (hr : (c.pages r).erase = false)
    (hold : (c.pages r).ready = true → (c.pages r).address = sectorOf addr)
    (hready : p.ready = true) (herase : p.erase = false) (haddress : p.address = sectorOf addr)
    (hpage : ∀ i < sectorSize, p.page i = patch flat addr chunk (sectorOf addr + i)) (n : Nat) :
    Shows { c with pages := Function.update c.pages r p, readyPages := n }
      (patch flat addr chunk) := by
  -- The pages other than `r` are as they were, and `r` is not an erase.
  have hne : ∀ s, (Function.update c.pages r p s).erase = true → s ≠ r := by
    rintro s hse rfl
    rw [Function.update_self, herase] at hse
    cases hse
  constructor
  · intro s hsr i hi
    by_cases heq : s = r
    · simp only [heq, Function.update_self, haddress]
      exact hpage i hi
    · simp only [Function.update_of_ne heq] at hsr ⊢
      have hact := Page.active_of_ready hsr
      have halign := hs.aligned s hact
      rw [h.ready s hsr i hi, patch_outside]
      intro hin
      apply hother s heq hact
      rw [← sectorOf_within hfit hin]
      exact ((sectorOf_eq_iff halign).mpr ⟨Nat.le_add_right _ _, by omega⟩).symm
  · intro s hse a ha
    have heq := hne s hse
    simp only [Function.update_of_ne heq] at hse ha
    rw [patch_outside (hfree s hse a ha)]
    exact h.erase s hse a ha
  · intro s hse
    have heq := hne s hse
    simp only [Function.update_of_ne heq] at hse ⊢
    exact h.whole s hse
  · intro s t hsr hte hin
    have htr := hne t hte
    simp only [Function.update_of_ne htr] at hte hin
    by_cases heq : s = r
    · simp only [heq, Function.update_self, haddress] at hin
      rw [within_sectorOf (hs.aligned t (Page.active_of_erase hte))] at hin
      exact hfree t hte addr hin ⟨Nat.le_refl _, by omega⟩
    · simp only [Function.update_of_ne heq] at hsr hin
      exact h.apart s t hsr hte hin
  · intro a hready' herase'
    have hsector : sectorOf a ≠ sectorOf addr := by
      have := hready' r (by simp only [Function.update_self, hready])
      simpa only [Function.update_self, haddress] using this
    rw [patch_outside fun hin => hsector (sectorOf_within hfit hin)]
    apply h.plain a
    · intro s hsr
      by_cases heq : s = r
      · subst heq
        rw [hold hsr]
        exact hsector
      · have := hready' s
        simp only [Function.update_of_ne heq] at this
        exact this hsr
    · intro s hse
      by_cases heq : s = r
      · subst heq
        rw [hr] at hse
        cases hse
      · have := herase' s
        simp only [Function.update_of_ne heq] at this
        exact this hse

theorem Shows.programChunk (hs : Sound c.pages c.readyPages) (h : Shows c flat) {addr : Nat}
    {chunk : List UInt8} (hfit : addr % sectorSize + chunk.length ≤ sectorSize)
    (hpos : 0 < chunk.length) (hfree : Untouched c addr chunk.length)
    (hprog : programChunk addr chunk c = some c') :
    Sound c'.pages c'.readyPages ∧ Shows c' (patch flat addr chunk) ∧ Fewer c c' := by
  unfold FlashCache.programChunk at hprog
  rw [Option.map_eq_some_iff] at hprog
  obtain ⟨⟨r, found⟩, hfind, rfl⟩ := hprog
  have hshift : ∀ {f : Memory} {i : Nat}, f i = flat (sectorOf addr + i) →
      patch f (addr % sectorSize) chunk i = patch flat addr chunk (sectorOf addr + i) := by
    intro f i hf
    have hpatch : patch f (addr % sectorSize) chunk i =
        patch flat (sectorOf addr + addr % sectorSize) chunk (sectorOf addr + i) :=
      patch_shift chunk hf
    rwa [sectorOf_add_mod] at hpatch
  rcases findFreePage_cases hfind with ⟨hact, haddress, rfl⟩ | ⟨hnone, hact, rfl⟩
  · -- The sector has a page. It is no pending erase, because nothing pending covers the chunk.
    have hr : (c.pages r).erase = false := by
      by_contra herase
      rw [Bool.not_eq_false] at herase
      refine hfree r herase addr ?_ ⟨Nat.le_refl _, by omega⟩
      rw [← within_sectorOf (hs.aligned r hact), ← haddress]
      have := h.whole r herase
      exact ⟨Nat.le_refl _, by simp only [sectorSize] at this; omega⟩
    have hready : (c.pages r).ready = true := by
      rw [Page.active, hr, Bool.or_false] at hact
      exact hact
    simp only [hr, Bool.false_eq_true, if_false, Function.update_eq_self]
    refine ⟨hs.replace hact (Page.active_of_ready hready) (fun hx => Bool.false_ne_true hx.2) rfl, ?_,
      .update rfl _ _⟩
    refine Shows.fill hs h hfit hpos hfree ?_ hr (fun _ => haddress) ?_ ?_ ?_ ?_ _
    · intro s hsr hsact heq
      exact hsr (hs.distinct s r hsact hact (heq.trans haddress.symm))
    · exact hready
    · rfl
    · exact haddress
    · intro i hi
      exact hshift (haddress ▸ h.ready r hready i hi)
  · -- A free page takes the sector over from the flash, which has its bytes.
    rw [Page.active, Bool.or_eq_false_iff] at hact
    have hflash : ∀ i < sectorSize, c.flash (sectorOf addr + i) = flat (sectorOf addr + i) := by
      intro i hi
      have hsector : sectorOf (sectorOf addr + i) = sectorOf addr :=
        (sectorOf_eq_iff (sectorOf_sectorOf addr)).mpr ⟨Nat.le_add_right _ _, by omega⟩
      apply h.plain
      · intro s hsr
        rw [hsector]
        exact (hnone s (Page.active_of_ready hsr)).symm
      · intro s hse hin
        have halign := hs.aligned s (Page.active_of_erase hse)
        rw [← within_sectorOf halign, hsector, within_sectorOf halign] at hin
        exact hfree s hse addr hin ⟨Nat.le_refl _, by omega⟩
    simp only [Function.update_self, Function.update_idem]
    have hfresh : (c.pages r).active = false := by rw [Page.active, hact.1, hact.2]; rfl
    refine ⟨hs.take hfresh rfl (fun hx => Bool.false_ne_true hx.2) (sectorOf_sectorOf addr) hnone, ?_,
      .update rfl _ _⟩
    refine Shows.fill hs h hfit hpos hfree (fun s _ => hnone s) hact.2 ?_ rfl rfl rfl ?_ _
    · intro hready
      rw [hact.1] at hready
      cases hready
    · intro i hi
      exact hshift (f := fun i => c.flash (sectorOf addr + i)) (hflash i hi)

/-- What the flash must hold where no page but `r` says otherwise. -/
def Settled (c : Cache) (flat : Memory) (r : PageIndex) (flash : Memory) : Prop :=
  ∀ a, (∀ s, s ≠ r → (c.pages s).ready = true → sectorOf a ≠ (c.pages s).address) →
    (∀ s, s ≠ r → (c.pages s).erase = true →
      ¬ Within (c.pages s).address (c.pages s).eraseSize a) → flash a = flat a

theorem Shows.keep (h : Shows c flat) {r : PageIndex} {flash : Memory}
    (hflash : Settled c flat r flash) : Shows { c with flash := flash } flat := by
  refine ⟨h.ready, h.erase, h.whole, h.apart, ?_⟩
  intro a hready herase
  exact hflash a (fun s _ => hready s) (fun s _ => herase s)

theorem Shows.release (h : Shows c flat) {r : PageIndex} {p : Page} {flash : Memory}
    (hflash : Settled c flat r flash) (hr : p.ready = false) (he : p.erase = false) (n : Nat) :
    Shows { c with flash := flash, pages := Function.update c.pages r p, readyPages := n } flat := by
  have hready : ∀ s, (Function.update c.pages r p s).ready = true → s ≠ r := by
    rintro s hs rfl
    rw [Function.update_self, hr] at hs
    cases hs
  have herase : ∀ s, (Function.update c.pages r p s).erase = true → s ≠ r := by
    rintro s hs rfl
    rw [Function.update_self, he] at hs
    cases hs
  constructor
  · intro s hs i hi
    have hne := hready s hs
    simp only [Function.update_of_ne hne] at hs ⊢
    exact h.ready s hs i hi
  · intro s hs a ha
    have hne := herase s hs
    simp only [Function.update_of_ne hne] at hs ha
    exact h.erase s hs a ha
  · intro s hs
    have hne := herase s hs
    simp only [Function.update_of_ne hne] at hs ⊢
    exact h.whole s hs
  · intro s t hs ht
    have hnes := hready s hs
    have hnet := herase t ht
    simp only [Function.update_of_ne hnes, Function.update_of_ne hnet] at hs ht ⊢
    exact h.apart s t hs ht
  · intro a hreadys herases
    apply hflash a
    · intro s hne hs
      have := hreadys s
      simp only [Function.update_of_ne hne] at this
      exact this hs
    · intro s hne hs
      have := herases s
      simp only [Function.update_of_ne hne] at this
      exact this hs

theorem settled_ready (hs : Sound c.pages c.readyPages) (h : Shows c flat) {r : PageIndex}
    (hready : (c.pages r).ready = true) :
    Settled c flat r (patch c.flash (c.pages r).address (sectorBytes (c.pages r))) := by
  have halign := hs.aligned r (Page.active_of_ready hready)
  intro a hreadys herases
  by_cases ha : sectorOf a = (c.pages r).address
  · obtain ⟨hle, hlt⟩ := (sectorOf_eq_iff halign).mp ha
    obtain ⟨i, rfl⟩ := Nat.exists_eq_add_of_le hle
    rw [patch_sector (by omega), h.ready r hready i (by omega)]
  · have hout : ¬ Within (c.pages r).address (sectorBytes (c.pages r)).length a := by
      rw [sectorBytes, List.length_map, List.length_range]
      exact fun hin => ha ((sectorOf_eq_iff halign).mpr hin)
    rw [patch_outside hout]
    apply h.plain a
    · intro s hsr
      by_cases heq : s = r
      · rw [heq]
        exact ha
      · exact hreadys s heq hsr
    · intro s hse
      by_cases heq : s = r
      · rw [heq] at hse
        exact absurd ⟨hready, hse⟩ (hs.exclusive r)
      · exact herases s heq hse

theorem settled_erase (hs : Sound c.pages c.readyPages) (h : Shows c flat) {r : PageIndex}
    (herase : (c.pages r).erase = true) : Settled c flat r
      (patch c.flash (c.pages r).address (List.replicate (c.pages r).eraseSize erased)) := by
  intro a hreadys herases
  by_cases ha : Within (c.pages r).address (c.pages r).eraseSize a
  · rw [patch_replicate ha, h.erase r herase a ha]
  · rw [patch_outside (by rwa [List.length_replicate])]
    apply h.plain a
    · intro s hsr
      by_cases heq : s = r
      · rw [heq] at hsr
        exact absurd ⟨hsr, herase⟩ (hs.exclusive r)
      · exact hreadys s heq hsr
    · intro s hse
      by_cases heq : s = r
      · rw [heq]
        exact ha
      · exact herases s heq hse

/-- What holds of the cache between two sections under the mutex. -/
structure Stands (c : Cache) (flat : Memory) : Prop where
  sound : Sound c.pages c.readyPages
  shows : Shows c flat

theorem Stands.flush (h : Stands c flat) (t : TaskRun) (r : PageIndex) :
    Stands (flushPage t c r) flat ∧ Fewer c (flushPage t c r) := by
  obtain ⟨hs, hm⟩ := h
  unfold flushPage
  dsimp only
  by_cases hready : (c.pages r).ready = true
  · rw [if_pos hready]
    have herase : (c.pages r).erase = false := by
      by_contra he
      exact hs.exclusive r ⟨hready, Bool.not_eq_false _ ▸ he⟩
    have hflash := settled_ready hs hm hready
    split_ifs
    · exact ⟨⟨hs, hm⟩, .refl c⟩
    · exact ⟨⟨hs, hm.keep hflash⟩, .refl c⟩
    · have hfree := hs.free (p := { c.pages r with ready := false }) (Page.active_of_ready hready)
        (by simp only [Page.active, herase, Bool.or_self]) (fun hx => Bool.false_ne_true hx.1)
      refine ⟨⟨hfree, Shows.release hm hflash ?_ ?_ _⟩, .update ?_ _ _⟩
      · rfl
      · exact herase
      · exact herase
  · rw [if_neg hready]
    rw [Bool.not_eq_true] at hready
    by_cases herase : (c.pages r).erase = true
    · rw [if_pos herase]
      have hflash := settled_erase hs hm herase
      split_ifs
      · exact ⟨⟨hs, hm⟩, .refl c⟩
      · exact ⟨⟨hs, hm.keep hflash⟩, .refl c⟩
      · have hfree := hs.free (p := { c.pages r with erase := false }) (Page.active_of_erase herase)
          (by simp only [Page.active, hready, Bool.or_self]) (fun hx => Bool.false_ne_true hx.2)
        refine ⟨⟨hfree, Shows.release hm hflash ?_ ?_ _⟩, .update ?_ _ _⟩
        · exact hready
        · rfl
        · rfl
    · rw [if_neg herase]
      exact ⟨⟨hs, hm⟩, .refl c⟩

theorem Stands.flush_all (h : Stands c flat) (t : TaskRun) (rs : List PageIndex) :
    Stands (rs.foldl (flushPage t) c) flat ∧ Fewer c (rs.foldl (flushPage t) c) := by
  induction rs generalizing c with
  | nil => exact ⟨h, .refl c⟩
  | cons r rs ih =>
    obtain ⟨hone, hfewer⟩ := h.flush t r
    obtain ⟨hall, hrest⟩ := ih hone
    exact ⟨hall, hfewer.trans hrest⟩

theorem Stands.task (h : Stands c flat) (t : TaskRun) :
    Stands (lowFlashTask t c) flat ∧ Fewer c (lowFlashTask t c) := by
  have havailable : ∀ {d : Cache}, Stands d flat → Stands { d with available := false } flat :=
    fun hd => ⟨hd.sound, hd.shows.ready, hd.shows.erase, hd.shows.whole, hd.shows.apart,
      hd.shows.plain⟩
  obtain ⟨hall, hfewer⟩ := h.flush_all t (List.finRange 6)
  unfold lowFlashTask
  dsimp only
  split_ifs
  · exact ⟨h, .refl c⟩
  · exact ⟨havailable hall, hfewer⟩
  · exact ⟨hall, hfewer⟩
  · exact ⟨havailable h, .refl c⟩
  · exact ⟨h, .refl c⟩

theorem Stands.idle (h : Stands c flat) (ts : List TaskRun) :
    Stands (idle ts c) flat ∧ Fewer c (FlashCache.idle ts c) := by
  unfold FlashCache.idle
  induction ts generalizing c with
  | nil => exact ⟨h, .refl c⟩
  | cons t ts ih =>
    obtain ⟨hone, hfewer⟩ := h.task t
    obtain ⟨hall, hrest⟩ := ih hone
    exact ⟨hall, hfewer.trans hrest⟩

/-- Nothing got in the way of the task. -/
def TaskRun.Undisturbed (t : TaskRun) : Prop :=
  t.entered = true ∧ ∀ r, (t.lockout r).start = true ∧ (t.lockout r).finish = true

instance (t : TaskRun) : Decidable t.Undisturbed :=
  inferInstanceAs (Decidable (_ ∧ ∀ _, _))

theorem flushPage_frees {t : TaskRun} (ht : t.Undisturbed) (hs : Sound c.pages c.readyPages)
    (r s : PageIndex) : ((flushPage t c r).pages s).active =
      if s = r then false else (c.pages s).active := by
  have hexclusive := hs.exclusive r
  unfold flushPage
  simp only [ht.2 r, Bool.not_true, Bool.false_eq_true, if_false]
  by_cases hs : s = r
  · subst hs
    rw [if_pos rfl]
    split_ifs with hready herase
    · simp only [Function.update_self, Page.active, Bool.false_or]
      rw [hready] at hexclusive
      simpa using hexclusive
    · simp only [Function.update_self, Page.active, Bool.or_false]
      exact Bool.not_eq_true _ ▸ hready
    · simp only [Page.active, Bool.or_eq_false_iff]
      exact ⟨Bool.not_eq_true _ ▸ hready, Bool.not_eq_true _ ▸ herase⟩
  · rw [if_neg hs]
    split_ifs
    · simp only [Function.update_of_ne hs]
    · simp only [Function.update_of_ne hs]
    · rfl

theorem flush_all_frees {t : TaskRun} (ht : t.Undisturbed) (h : Stands c flat)
    (rs : List PageIndex) (s : PageIndex) (hs : s ∈ rs ∨ (c.pages s).active = false) :
    ((rs.foldl (flushPage t) c).pages s).active = false := by
  induction rs generalizing c with
  | nil => exact hs.resolve_left List.not_mem_nil
  | cons r rs ih =>
    refine ih (h.flush t r).1 ?_
    rw [flushPage_frees ht h.sound r s]
    by_cases hr : s = r
    · exact .inr (if_pos hr)
    · rw [if_neg hr]
      exact hs.imp_left fun hmem => (List.mem_cons.mp hmem).resolve_left hr

theorem Stands.task_drains (h : Stands c flat) {t : TaskRun} (ht : t.Undisturbed)
    (havailable : c.available = true) (hlocked : c.lockedOut = true) :
    (lowFlashTask t c).readyPages = 0 := by
  have hzero : ((List.finRange 6).foldl (flushPage t) c).readyPages = 0 := by
    rw [(h.flush_all t (List.finRange 6)).1.sound.count, Finset.card_eq_zero,
      Finset.eq_empty_iff_forall_notMem]
    intro r hr
    have hfree := flush_all_frees ht h (List.finRange 6) r (.inl (List.mem_finRange r))
    rw [mem_inUse, hfree] at hr
    cases hr
  unfold lowFlashTask
  rw [ht.1, havailable, hlocked]
  by_cases hpos : 0 < c.readyPages
  · simp [hpos, hzero]
  · simp [Nat.eq_zero_of_not_pos hpos]

theorem Stands.commit (h : Stands c flat) : Stands (lowFlashCommit c) flat :=
  ⟨h.sound, h.shows.ready, h.shows.erase, h.shows.whole, h.shows.apart, h.shows.plain⟩

theorem chunk_fits (addr n : Nat) :
    addr % sectorSize + min n (sectorSize - addr % sectorSize) ≤ sectorSize := by
  have := Nat.mod_lt addr (show sectorSize > 0 by decide)
  omega

theorem chunk_pos {addr n : Nat} (h : 0 < n) : 0 < min n (sectorSize - addr % sectorSize) := by
  have := Nat.mod_lt addr (show sectorSize > 0 by decide)
  omega

theorem Stands.program {others : List (List TaskRun)} {addr : Nat} {data : List UInt8}
    (h : Stands c flat) (hfree : Untouched c addr data.length) :
    Stands (programBlock others addr data c).2.2
        (patch flat addr (data.take (programBlock others addr data c).2.1)) ∧
      ((programBlock others addr data c).1 = true →
        (programBlock others addr data c).2.1 = data.length) := by
  fun_induction programBlock others addr data c generalizing flat with
  | case1 others addr c =>
    refine ⟨?_, fun _ => rfl⟩
    rw [List.take_zero, patch_nil]
    exact h
  | case2 others addr data c hdata chunk next hprog rest =>
    rename_i ih
    obtain ⟨hidle, hfewer⟩ := h.idle (others.headD [])
    have hlen : 0 < data.length := List.length_pos_iff.mpr hdata
    have hchunk : chunk ≤ data.length := Nat.min_le_left _ _
    have htake : (data.take chunk).length = chunk := List.length_take_of_le hchunk
    have hnow := hfree.of_fewer hfewer
    obtain ⟨hsound, hshows, hless⟩ := Shows.programChunk hidle.sound hidle.shows
      (by rw [htake]; exact chunk_fits addr _) (by rw [htake]; exact chunk_pos hlen)
      (hnow.mono (Nat.le_refl _) (by omega)) hprog
    have hrest : Untouched next (addr + chunk) (data.drop chunk).length :=
      (hnow.of_fewer hless).mono (Nat.le_add_right _ _) (by rw [List.length_drop]; omega)
    obtain ⟨hstands, hall⟩ := ih ⟨hsound, hshows⟩ hrest
    constructor
    · -- The two parts follow one another in the data.
      have happend := patch_append flat addr (data.take chunk) ((data.drop chunk).take rest.2.1)
      rw [htake] at happend
      rw [happend, ← List.take_add] at hstands
      exact hstands
    · intro hok
      have hsame : rest.2.1 = (data.drop chunk).length := hall hok
      rw [List.length_drop] at hsame
      show chunk + rest.2.1 = data.length
      omega
  | case3 others addr data c hdata chunk hnone waited =>
    obtain ⟨hidle, -⟩ := h.idle (others.headD [])
    obtain ⟨hwaited, -⟩ := hidle.commit.idle (others.tail.headD [])
    refine ⟨?_, fun hok => absurd hok Bool.false_ne_true⟩
    rw [List.take_zero, patch_nil]
    exact hwaited
  | case4 others addr data c hdata chunk hnone waited hwait =>
    rename_i ih
    obtain ⟨hidle, hfewer⟩ := h.idle (others.headD [])
    obtain ⟨hwaited, hless⟩ := hidle.commit.idle (others.tail.headD [])
    exact ih hwaited ((hfree.of_fewer hfewer).of_fewer hless)

theorem Stands.readChunk {addr count : Nat} (h : Stands c flat) (hfree : Untouched c addr count)
    (hfit : addr % sectorSize + count ≤ sectorSize) :
    readChunk addr count c = (List.range count).map fun i => flat (addr + i) := by
  unfold FlashCache.readChunk
  cases hfind : findPage c.pages fun p => p.ready && p.address == sectorOf addr with
  | some r =>
    have hfound := findPage_some hfind
    rw [Bool.and_eq_true, beq_iff_eq] at hfound
    apply List.map_congr_left
    intro i hi
    rw [List.mem_range] at hi
    rw [h.shows.ready r hfound.1 _ (by omega), hfound.2, ← Nat.add_assoc, sectorOf_add_mod]
  | none =>
    apply List.map_congr_left
    intro i hi
    rw [List.mem_range] at hi
    apply h.shows.plain
    · intro r hr heq
      have hsector : sectorOf (addr + i) = sectorOf addr := by
        simp only [sectorOf, sectorSize] at *
        omega
      have := findPage_none hfind r
      simp [hr, ← heq, hsector] at this
    · intro r hr hin
      exact hfree r hr _ hin ⟨Nat.le_add_right _ _, by omega⟩

theorem Stands.read {others : List (List TaskRun)} {addr count : Nat} (h : Stands c flat)
    (hfree : Untouched c addr count) :
    (readBlock others addr count c).1 = ((List.range count).map fun i => flat (addr + i)) ∧
      Stands (readBlock others addr count c).2 flat := by
  induction others, addr, count, c using readBlock.induct with
  | case1 others addr c =>
    rw [readBlock, if_pos rfl]
    exact ⟨rfl, h⟩
  | case2 others addr count c hcount chunk now ih =>
    obtain ⟨hidle, hfewer⟩ := h.idle (others.headD [])
    have hnow := hfree.of_fewer hfewer
    have hchunk : chunk ≤ count := Nat.min_le_left _ _
    have hfirst := hidle.readChunk (hnow.mono (Nat.le_refl addr) (by omega)) (chunk_fits addr count)
    obtain ⟨hbytes, hstands⟩ := ih hidle
      (hnow.mono (Nat.le_add_right addr chunk) (by omega))
    rw [readBlock, if_neg hcount]
    refine ⟨?_, hstands⟩
    obtain ⟨n, hn⟩ := Nat.exists_eq_add_of_le hchunk
    have hrest : count - chunk = n := by omega
    simp only [show min count (sectorSize - addr % sectorSize) = chunk from rfl,
      show FlashCache.idle (others.headD []) c = now from rfl] at hfirst ⊢
    rw [hbytes, hfirst, hrest, hn, List.range_add, List.map_append, List.map_map]
    simp only [Function.comp_def, Nat.add_assoc]

/-- The whole sectors that an erase is asked for, one at the least. -/
def span (pageSize : Nat) : Nat := max sectorSize (pageSize / sectorSize * sectorSize)

theorem eraseSize_eq_span {p : Page} (h : p.pageSize = 0 ∨ sectorSize ≤ p.pageSize) :
    p.eraseSize = span p.pageSize := by
  unfold Page.eraseSize span
  rcases h with h | h
  · rw [if_pos h, h]
    rfl
  · have hne : p.pageSize ≠ 0 := by
      simp only [sectorSize] at h
      omega
    rw [if_neg hne]
    simp only [sectorSize] at *
    omega

theorem Shows.mark (hs : Sound c.pages c.readyPages) (h : Shows c flat) {r : PageIndex} {p : Page}
    {addr size : Nat} (hp : p.eraseSize = size) (hwhole : sectorSize ≤ size) (hready : p.ready = false)
    (herase : p.erase = true) (haddress : p.address = sectorOf addr)
    (hother : ∀ s, s ≠ r → (c.pages s).active = true → (c.pages s).address ≠ sectorOf addr)
    (hold : (c.pages r).active = true → (c.pages r).address = sectorOf addr)
    (hown : (c.pages r).erase = true → (c.pages r).eraseSize ≤ size)
    (hspan : ∀ s, s ≠ r → (c.pages s).ready = true →
      ¬ Within (sectorOf addr) size (c.pages s).address) (n : Nat) :
    Shows { c with pages := Function.update c.pages r p, readyPages := n }
      (patch flat (sectorOf addr) (List.replicate size erased)) := by
  subst hp
  have hne : ∀ s, (Function.update c.pages r p s).ready = true → s ≠ r := by
    rintro s hsr rfl
    rw [Function.update_self, hready] at hsr
    cases hsr
  have halign : sectorOf p.address = p.address := by rw [haddress, sectorOf_sectorOf]
  constructor
  · intro s hsr i hi
    have heq := hne s hsr
    simp only [Function.update_of_ne heq] at hsr ⊢
    have hsector := (sectorOf_eq_iff (a := (c.pages s).address + i)
      (hs.aligned s (Page.active_of_ready hsr))).mpr ⟨Nat.le_add_right _ _, by omega⟩
    rw [h.ready s hsr i hi, patch_outside]
    rw [List.length_replicate, ← haddress, ← within_sectorOf halign, hsector, haddress]
    exact hspan s heq hsr
  · intro s hse a ha
    by_cases hin : Within (sectorOf addr) p.eraseSize a
    · exact patch_replicate hin
    · by_cases heq : s = r
      · simp only [heq, Function.update_self, haddress] at ha
        exact absurd ha hin
      · simp only [Function.update_of_ne heq] at hse ha
        rw [patch_outside (by rwa [List.length_replicate])]
        exact h.erase s hse a ha
  · intro s hse
    by_cases heq : s = r
    · simp only [heq, Function.update_self]
      exact hwhole
    · simp only [Function.update_of_ne heq] at hse ⊢
      exact h.whole s hse
  · intro s t hsr hte
    have hsne := hne s hsr
    simp only [Function.update_of_ne hsne] at hsr ⊢
    by_cases heq : t = r
    · simp only [heq, Function.update_self, haddress]
      exact hspan s hsne hsr
    · simp only [Function.update_of_ne heq] at hte ⊢
      exact h.apart s t hsr hte
  · intro a hreadys herases
    have hout : ¬ Within (sectorOf addr) p.eraseSize a := by
      have := herases r
      simp only [Function.update_self, haddress] at this
      exact this herase
    rw [patch_outside (by rwa [List.length_replicate])]
    -- What the page was before lies in the span of the new erase.
    apply h.plain a
    · intro s hsr
      by_cases heq : s = r
      · subst heq
        intro ha
        rw [hold (Page.active_of_ready hsr)] at ha
        obtain ⟨hle, hlt⟩ := (sectorOf_eq_iff (sectorOf_sectorOf addr)).mp ha
        exact hout ⟨hle, by omega⟩
      · have := hreadys s
        simp only [Function.update_of_ne heq] at this
        exact this hsr
    · intro s hse
      by_cases heq : s = r
      · subst heq
        rw [hold (Page.active_of_erase hse)]
        have hle := hown hse
        intro hin
        exact hout ⟨hin.1, by unfold Within at hin; omega⟩
      · have := herases s
        simp only [Function.update_of_ne heq] at this
        exact this hse

theorem Stands.erase {addr pageSize : Nat} (h : Stands c flat)
    (hsize : pageSize = 0 ∨ sectorSize ≤ pageSize)
    (hown : ∀ r, (c.pages r).erase = true → (c.pages r).address = sectorOf addr →
      (c.pages r).eraseSize ≤ span pageSize)
    (hspan : ∀ r, (c.pages r).ready = true → (c.pages r).address ≠ sectorOf addr →
      ¬ Within (sectorOf addr) (span pageSize) (c.pages r).address) :
    Stands (erasePage addr pageSize c).2 (if (erasePage addr pageSize c).1 then
      patch flat (sectorOf addr) (List.replicate (span pageSize) erased) else flat) := by
  obtain ⟨hs, hm⟩ := h
  unfold erasePage
  by_cases hfull : c.readyPages = 6
  · rw [if_pos hfull]
    exact ⟨hs, hm⟩
  rw [if_neg hfull]
  cases hfind : findFreePage addr c with
  | none => exact ⟨hs, hm⟩
  | some found =>
    obtain ⟨r, found⟩ := found
    dsimp only
    rw [if_pos rfl]
    have hsize' : ∀ p : Page, p.pageSize = pageSize → p.eraseSize = span pageSize := by
      rintro p rfl
      exact eraseSize_eq_span hsize
    have hwhole : sectorSize ≤ span pageSize := Nat.le_max_left _ _
    rcases findFreePage_cases hfind with ⟨hact, haddress, rfl⟩ | ⟨hnone, hact, rfl⟩
    · -- The sector has a page, and what it was is given up.
      have hother : ∀ s, s ≠ r → (c.pages s).active = true → (c.pages s).address ≠ sectorOf addr := by
        intro s hsr hsact heq
        exact hsr (hs.distinct s r hsact hact (heq.trans haddress.symm))
      simp only [Function.update_self, Function.update_idem]
      have hkept : (if (c.pages r).erase then { c.pages r with
          erase := false, ready := true, pageSize := 0 } else c.pages r).address = sectorOf addr := by
        split_ifs
        · exact haddress
        · exact haddress
      refine ⟨hs.replace hact rfl (fun hx => Bool.false_ne_true hx.1) (hkept.trans haddress.symm), ?_⟩
      refine Shows.mark hs hm ?_ hwhole ?_ ?_ ?_ hother (fun _ => haddress)
        (fun herase => hown r herase haddress) ?_ _
      · exact hsize' _ rfl
      · rfl
      · rfl
      · exact hkept
      · intro s hsr hready
        exact hspan s hready (hother s hsr (Page.active_of_ready hready))
    · -- A free page is taken; what it read from the flash plays no part.
      simp only [Function.update_self, Function.update_idem]
      refine ⟨hs.take hact rfl (fun hx => Bool.false_ne_true hx.1) (sectorOf_sectorOf addr) hnone, ?_⟩
      refine Shows.mark hs hm ?_ hwhole ?_ ?_ ?_ (fun s _ => hnone s) ?_ ?_ ?_ _
      · exact hsize' _ rfl
      · rfl
      · rfl
      · rfl
      · intro hr
        rw [hact] at hr
        cases hr
      · intro hr
        rw [Page.active_of_erase hr] at hact
        cases hact
      · intro s _ hready
        exact hspan s hready (hnone s (Page.active_of_ready hready))

end Steps

/-! Runs of calls, with the drains in between. -/

/-- A call into `low_flash.c`, or the task of the other core between two of them. -/
inductive Input where
  | program (others : List (List TaskRun)) (addr : Nat) (data : List UInt8)
  | erase (addr pageSize : Nat)
  | read (others : List (List TaskRun)) (addr count : Nat)
  | commit
  | task (run : TaskRun)

/-- The cache, and beside it the memory that the calls describe. -/
structure World where
  cache : Cache
  flat : Memory

/-- What a call leaves behind. In the flat memory each byte is what the call last put there: the
bytes a program got through, or the erased value in the sectors of an erase that was accepted. -/
def step (w : World) : Input → World
  | .program others addr data =>
    let out := programBlock others addr data w.cache
    { cache := out.2.2, flat := patch w.flat addr (data.take out.2.1) }
  | .erase addr pageSize =>
    let out := erasePage addr pageSize w.cache
    { cache := out.2
      flat := if out.1 then patch w.flat (sectorOf addr) (List.replicate (span pageSize) erased)
        else w.flat }
  | .read others addr count => { w with cache := (readBlock others addr count w.cache).2 }
  | .commit => { w with cache := lowFlashCommit w.cache }
  | .task run => { w with cache := lowFlashTask run w.cache }

/-- The flash behind an empty cache. -/
def begin (flash : Memory) (available lockedOut : Bool) : World where
  cache := { flash := flash, available := available, lockedOut := lockedOut }
  flat := flash

/-- A read gives the bytes of the flat memory, a program that succeeds got through its data, and a
task that was asked to drain the cache and not disturbed has done so. -/
def Answers (w : World) : Input → Prop
  | .program others addr data => (programBlock others addr data w.cache).1 = true →
      (programBlock others addr data w.cache).2.1 = data.length
  | .read others addr count => (readBlock others addr count w.cache).1 =
      (List.range count).map fun i => w.flat (addr + i)
  | .task run => run.Undisturbed → w.cache.available = true → w.cache.lockedOut = true →
      (lowFlashTask run w.cache).readyPages = 0
  | _ => True

/-- What is expected of a call: the answer, the count of the pages, their addresses, and the flash
once there is nothing left to drain. -/
structure Transparent (w : World) (i : Input) : Prop where
  answers : Answers w i
  count : (step w i).cache.readyPages = (inUse (step w i).cache.pages).card
  distinct : ∀ r s, ((step w i).cache.pages r).active = true →
    ((step w i).cache.pages s).active = true →
    ((step w i).cache.pages r).address = ((step w i).cache.pages s).address → r = s
  drained : (step w i).cache.readyPages = 0 → (step w i).cache.flash = (step w i).flat

/-- Nothing happens to a sector between its erase and the drain: no byte of it is read or
programmed, and it is not erased anew with fewer sectors. An erase is asked for whole sectors, and
there is no data in the cache for a sector behind its first. -/
def KeepsOff (w : World) : Input → Prop
  | .program _ addr data => Untouched w.cache addr data.length
  | .read _ addr count => Untouched w.cache addr count
  | .erase addr pageSize => (pageSize = 0 ∨ sectorSize ≤ pageSize) ∧
      (∀ r, (w.cache.pages r).erase = true → (w.cache.pages r).address = sectorOf addr →
        (w.cache.pages r).eraseSize ≤ span pageSize) ∧
      ∀ r, (w.cache.pages r).ready = true → (w.cache.pages r).address ≠ sectorOf addr →
        ¬ Within (sectorOf addr) (span pageSize) (w.cache.pages r).address
  | _ => True

theorem Stands.step {w : World} (h : Stands w.cache w.flat) (i : Input) (hok : KeepsOff w i) :
    Stands (step w i).cache (FlashCache.step w i).flat ∧ Answers w i := by
  cases i with
  | program others addr data => exact h.program hok
  | erase addr pageSize => exact ⟨h.erase hok.1 hok.2.1 hok.2.2, trivial⟩
  | read others addr count =>
    obtain ⟨hbytes, hstands⟩ := h.read hok
    exact ⟨hstands, hbytes⟩
  | commit => exact ⟨h.commit, trivial⟩
  | task run =>
    exact ⟨(h.task run).1, fun ht havailable hlocked => h.task_drains ht havailable hlocked⟩

theorem Stands.drained {c : Cache} {flat : Memory} (h : Stands c flat) (hzero : c.readyPages = 0) :
    c.flash = flat := by
  have hfree : ∀ r, (c.pages r).active = false := by
    intro r
    by_contra hact
    have hmem : r ∈ inUse c.pages := mem_inUse.mpr (Bool.not_eq_false _ ▸ hact)
    have hpos := Finset.card_pos.mpr ⟨r, hmem⟩
    have := h.sound.count
    omega
  funext a
  apply h.shows.plain a
  · intro r hr
    have := hfree r
    rw [Page.active_of_ready hr] at this
    cases this
  · intro r hr
    have := hfree r
    rw [Page.active_of_erase hr] at this
    cases this

theorem stands_begin (flash : Memory) (available lockedOut : Bool) :
    Stands (begin flash available lockedOut).cache (begin flash available lockedOut).flat := by
  refine ⟨⟨rfl, ?_, ?_, ?_⟩, ⟨?_, ?_, ?_, ?_, ?_⟩⟩
  · intro r hr
    cases hr
  · intro r hr
    cases hr.1
  · intro r s hr
    cases hr
  · intro r hr
    cases hr
  · intro r hr
    cases hr
  · intro r hr
    cases hr
  · intro r s hr
    cases hr
  · intro a _ _
    rfl

/-- As long as the sectors of a pending erase are kept off, the cache is transparent. -/
theorem cache_transparent (flash : Memory) (available lockedOut : Bool) (is : List Input)
    (h : StepSystem.Along step KeepsOff (begin flash available lockedOut) is) :
    StepSystem.Along step Transparent (begin flash available lockedOut) is := by
  refine StepSystem.along_law (P := fun w => Stands w.cache w.flat) ?_ _ is h
    (stands_begin flash available lockedOut)
  intro w i hok hw
  obtain ⟨hnext, hanswers⟩ := Stands.step hw i hok
  exact ⟨hnext, hanswers, hnext.sound.count, hnext.sound.distinct, hnext.drained⟩

/-- A sector is programmed, erased, drained and read. -/
def erasedThenRead : List Input :=
  [.program [] 4094 [1, 2, 3], .erase 0 0, .commit, .task {}, .read [] 4094 4]

theorem erased_then_read : StepSystem.Along step Transparent (begin (fun _ => 7) false true)
      erasedThenRead ∧
    (readBlock [] 4094 4 (StepSystem.run step (begin (fun _ => 7) false true)
      (erasedThenRead.take 4)).cache).1 = [255, 255, 3, 7] := by
  refine ⟨cache_transparent _ _ _ _ ⟨?_, ⟨.inl rfl, ?_, ?_⟩, trivial, trivial, ?_, trivial⟩, ?_⟩
  · intro r hr
    cases hr
  · intro r hr
    revert r
    decide +kernel
  · unfold Within
    decide +kernel
  · have hnone : ∀ r, ((StepSystem.run step (begin (fun _ => 7) false true)
        (erasedThenRead.take 4)).cache.pages r).erase = false := by
      decide +kernel
    intro r hr
    exact absurd hr (Bool.eq_false_iff.mp (hnone r))
  · decide +kernel

/-- A sector with data that was erased still gives the data until the drain. -/
theorem read_before_drain : ¬ ∀ (flash : Memory) (available lockedOut : Bool) (is : List Input),
    StepSystem.Along step Transparent (begin flash available lockedOut) is := by
  intro h
  have hread := (h (fun _ => 7) false true [.erase 0 0, .read [] 0 1]).2.1.answers
  revert hread
  unfold Answers
  decide +kernel

end FlashCache

end KeyWallet
