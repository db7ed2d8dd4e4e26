import Mathlib.Data.List.Basic

/-! A list given out in pages of a limited size. An item asks for room before it is written, and what
is written may depend on the place. Nothing here names a particular system. -/
namespace Pages

/-- What an item contributes: nothing, the end of it all, or a line that asks for `len` and reads `l n`
when `n` is taken before it. -/
inductive Piece (L : Type*)
  | skip
  | tooLong
  | line (len : Nat) (l : Nat → L)

section Walk

variable {A L : Type*} (limit : Nat) (width : L → Nat) (f : A → Piece L)

/-- One page behind `size`: its lines, and the items that are left. -/
def nextPage : Nat → List A → Option (List L × List A)
  | _, [] => some ([], [])
  | size, a :: rest =>
    match f a with
    | .skip => nextPage size rest
    | .tooLong => none
    | .line len l =>
      if limit < size + len then some ([], a :: rest)
      else (nextPage (size + width (l size)) rest).map fun r => (l size :: r.1, r.2)

/-- Pages until nothing is left. -/
def allPages : Nat → List A → Option (List (List L))
  | 0, _ => none
  | fuel + 1, es =>
    (nextPage limit width f 0 es).bind fun r =>
      if r.2 = [] then some [r.1] else (allPages fuel r.2).map fun more => r.1 :: more

/-- Where the next line stands when `size` is taken and the line asks for `len`. -/
def place (size len : Nat) : Nat := if limit < size + len then 0 else size

/-- The lines of all pages. -/
def lines : Nat → List A → Option (List L)
  | _, [] => some []
  | size, a :: rest =>
    match f a with
    | .skip => lines size rest
    | .tooLong => none
    | .line len l =>
      let at' := place limit size len
      (lines (at' + width (l at')) rest).map fun ls => l at' :: ls

/-- What some lines take. -/
def taken : List L → Nat
  | [] => 0
  | l :: ls => width l + taken ls

/-- Every line fits a page of its own. -/
def Fits (es : List A) : Prop := ∀ a ∈ es, ∀ len l, f a = .line len l → len ≤ limit

/-- No line is longer than it asked for. -/
def Kept (es : List A) : Prop :=
  ∀ a ∈ es, ∀ len l, f a = .line len l → ∀ size, size + len ≤ limit → width (l size) ≤ len

variable {limit width f} {es rest : List A} {a : A}

theorem Fits.tail (h : Fits limit f (a :: rest)) : Fits limit f rest :=
  fun x hx => h x (List.mem_cons_of_mem a hx)

theorem Kept.tail (h : Kept limit width f (a :: rest)) : Kept limit width f rest :=
  fun x hx => h x (List.mem_cons_of_mem a hx)

theorem Fits.suffix {left : List A} (h : Fits limit f es) (hs : left <:+ es) : Fits limit f left :=
  fun a ha => h a (hs.subset ha)

theorem Kept.suffix {left : List A} (h : Kept limit width f es) (hs : left <:+ es) :
    Kept limit width f left :=
  fun a ha => h a (hs.subset ha)

theorem place_room {size len : Nat} (h : size + len ≤ limit) : place limit size len = size :=
  if_neg (Nat.not_lt.mpr h)

theorem place_full {size len : Nat} (h : limit < size + len) : place limit size len = 0 := if_pos h

theorem place_le {len : Nat} (size : Nat) (h : len ≤ limit) : place limit size len + len ≤ limit := by
  unfold place
  split_ifs <;> omega

theorem lines_eq (h : Fits limit f es) (size : Nat) :
    lines limit width f size es =
      (nextPage limit width f size es).bind fun r =>
        (lines limit width f 0 r.2).map fun ls => r.1 ++ ls := by
  induction es generalizing size with
  | nil => rfl
  | cons a rest ih =>
    unfold nextPage
    cases ha : f a with
    | skip =>
      have hskip : lines limit width f size (a :: rest) = lines limit width f size rest := by
        rw [lines, ha]
      rw [hskip]
      exact ih h.tail size
    | tooLong => rw [lines, ha, Option.bind_none]
    | line len l =>
      have hline : ∀ n, lines limit width f n (a :: rest) =
          (lines limit width f (place limit n len + width (l (place limit n len))) rest).map
            fun ls => l (place limit n len) :: ls := by
        intro n
        rw [lines, ha]
      have hlen : len ≤ limit := h a (List.mem_cons_self ..) len l ha
      dsimp only
      by_cases hroom : limit < size + len
      · rw [if_pos hroom, Option.bind_some]
        dsimp only
        -- the line opens the next page, where it finds the same place
        have hsame : place limit size len = place limit 0 len := by
          rw [place_full hroom, place_room (by omega)]
        rw [hline size, hline 0, hsame, Option.map_map]
        rfl
      · rw [if_neg hroom, hline, place_room (by omega), ih h.tail]
        cases nextPage limit width f (size + width (l size)) rest with
        | none => rfl
        | some r =>
          rw [Option.map_some, Option.bind_some, Option.bind_some, Option.map_map]
          rfl

theorem nextPage_suffix {size : Nat} {r : List L × List A} (h : nextPage limit width f size es = some r) :
    r.2 <:+ es := by
  induction es generalizing size r with
  | nil =>
    obtain rfl := Option.some.inj h
    exact List.suffix_refl _
  | cons a rest ih =>
    unfold nextPage at h
    cases ha : f a with
    | skip =>
      rw [ha] at h
      exact (ih h).trans (List.suffix_cons a rest)
    | tooLong =>
      rw [ha] at h
      cases h
    | line len l =>
      rw [ha] at h
      dsimp only at h
      by_cases hroom : limit < size + len
      · rw [if_pos hroom] at h
        obtain rfl := Option.some.inj h
        exact List.suffix_refl _
      · rw [if_neg hroom] at h
        obtain ⟨r', hr', rfl⟩ := Option.map_eq_some_iff.mp h
        exact (ih hr').trans (List.suffix_cons a rest)

theorem nextPage_progress {r : List L × List A} (hfit : Fits limit f es)
    (h : nextPage limit width f 0 es = some r) (hr : r.2 ≠ []) : r.2.length < es.length := by
  induction es generalizing r with
  | nil =>
    obtain rfl := Option.some.inj h
    exact absurd rfl hr
  | cons a rest ih =>
    unfold nextPage at h
    cases ha : f a with
    | skip =>
      rw [ha] at h
      have hlt := ih hfit.tail h hr
      exact Nat.lt_succ_of_lt hlt
    | tooLong =>
      rw [ha] at h
      cases h
    | line len l =>
      rw [ha] at h
      have hlen : len ≤ limit := hfit a (List.mem_cons_self ..) len l ha
      dsimp only at h
      rw [if_neg (by omega)] at h
      obtain ⟨r', hr', rfl⟩ := Option.map_eq_some_iff.mp h
      have hle := (nextPage_suffix hr').length_le
      exact Nat.lt_succ_of_le hle

theorem nextPage_size {size : Nat} {r : List L × List A} (hkept : Kept limit width f es)
    (hsize : size ≤ limit) (h : nextPage limit width f size es = some r) :
    size + taken width r.1 ≤ limit := by
  induction es generalizing size r with
  | nil =>
    obtain rfl := Option.some.inj h
    exact hsize
  | cons a rest ih =>
    unfold nextPage at h
    cases ha : f a with
    | skip =>
      rw [ha] at h
      exact ih hkept.tail hsize h
    | tooLong =>
      rw [ha] at h
      cases h
    | line len l =>
      rw [ha] at h
      dsimp only at h
      by_cases hroom : limit < size + len
      · rw [if_pos hroom] at h
        obtain rfl := Option.some.inj h
        exact hsize
      · rw [if_neg hroom] at h
        obtain ⟨r', hr', rfl⟩ := Option.map_eq_some_iff.mp h
        have hw := hkept a (List.mem_cons_self ..) len l ha size (by omega)
        have hrest := ih hkept.tail (by omega) hr'
        rw [taken]
        omega

/-- The pages hold the lines, in their order. -/
theorem allPages_flatten (fuel : Nat) (h : Fits limit f es) (hfuel : es.length < fuel) :
    (allPages limit width f fuel es).map List.flatten = lines limit width f 0 es := by
  induction fuel generalizing es with
  | zero => exact absurd hfuel (Nat.not_lt_zero _)
  | succ fuel ih =>
    rw [lines_eq h, allPages]
    cases hp : nextPage limit width f 0 es with
    | none => rfl
    | some r =>
      rw [Option.bind_some, Option.bind_some]
      by_cases hr : r.2 = []
      · rw [if_pos hr, hr]
        rfl
      · have hlt := nextPage_progress h hp hr
        rw [if_neg hr, ← ih (h.suffix (nextPage_suffix hp)) (by omega), Option.map_map, Option.map_map]
        rfl

theorem allPages_lines (fuel : Nat) {pages : List (List L)} (h : Fits limit f es)
    (hp : allPages limit width f fuel es = some pages) :
    lines limit width f 0 es = some pages.flatten := by
  induction fuel generalizing es pages with
  | zero => cases hp
  | succ fuel ih =>
    rw [allPages] at hp
    obtain ⟨r, hr, hrest⟩ := Option.bind_eq_some_iff.mp hp
    rw [lines_eq h, hr, Option.bind_some]
    by_cases hend : r.2 = []
    · rw [if_pos hend] at hrest
      obtain rfl := Option.some.inj hrest
      rw [hend]
      rfl
    · rw [if_neg hend] at hrest
      obtain ⟨more, hmore, rfl⟩ := Option.map_eq_some_iff.mp hrest
      rw [ih (h.suffix (nextPage_suffix hr)) hmore]
      rfl

theorem allPages_size (fuel : Nat) {pages : List (List L)} (h : Kept limit width f es)
    (hp : allPages limit width f fuel es = some pages) : ∀ p ∈ pages, taken width p ≤ limit := by
  induction fuel generalizing es pages with
  | zero => cases hp
  | succ fuel ih =>
    rw [allPages] at hp
    obtain ⟨r, hr, hrest⟩ := Option.bind_eq_some_iff.mp hp
    have hfirst := nextPage_size h (Nat.zero_le limit) hr
    rw [Nat.zero_add] at hfirst
    by_cases hend : r.2 = []
    · rw [if_pos hend] at hrest
      obtain rfl := Option.some.inj hrest
      intro p hmem
      rw [List.mem_singleton.mp hmem]
      exact hfirst
    · rw [if_neg hend] at hrest
      obtain ⟨more, hmore, rfl⟩ := Option.map_eq_some_iff.mp hrest
      intro p hmem
      rcases List.mem_cons.mp hmem with rfl | hmem
      · exact hfirst
      · exact ih (h.suffix (nextPage_suffix hr)) hmore p hmem

theorem lines_some {size : Nat} {ls : List L} (h : lines limit width f size es = some ls) :
    ∀ a ∈ es, f a ≠ .tooLong := by
  induction es generalizing size ls with
  | nil =>
    intro a ha
    cases ha
  | cons a rest ih =>
    rw [lines] at h
    intro x hx
    rcases List.mem_cons.mp hx with rfl | hx
    · intro hlong
      rw [hlong] at h
      cases h
    · cases ha : f a with
      | skip =>
        rw [ha] at h
        exact ih h x hx
      | tooLong =>
        rw [ha] at h
        cases h
      | line len l =>
        rw [ha] at h
        obtain ⟨ls', hls', -⟩ := Option.map_eq_some_iff.mp h
        exact ih hls' x hx

theorem lines_map {K : Type*} {key : L → K} {due : A → K} (size : Nat)
    (h : ∀ a ∈ es, ∃ len l, f a = .line len l ∧ ∀ n, key (l n) = due a) :
    ∃ ls, lines limit width f size es = some ls ∧ ls.map key = es.map due := by
  induction es generalizing size with
  | nil => exact ⟨[], rfl, rfl⟩
  | cons a rest ih =>
    obtain ⟨len, l, ha, hkey⟩ := h a (List.mem_cons_self ..)
    obtain ⟨ls, hls, hmap⟩ := ih (place limit size len + width (l (place limit size len)))
      fun x hx => h x (List.mem_cons_of_mem a hx)
    refine ⟨l (place limit size len) :: ls, ?_, ?_⟩
    · rw [lines, ha]
      dsimp only
      rw [hls, Option.map_some]
    · rw [List.map_cons, List.map_cons, hkey, hmap]

end Walk

/-! What the lines should be, when an item may lose some of its line at its place. -/

section Whole

variable {A L : Type*} (limit : Nat) (width : L → Nat) (f : A → Piece L) (whole : A → Option L)

/-- An item says nothing where nothing is due, or ends it all, or gives the line that is due or a shorter
one in the room that it asks for. -/
def Sound (a : A) : Prop :=
  (f a = .skip ∧ whole a = none) ∨ f a = .tooLong ∨
    ∃ len l x, f a = .line len l ∧ whole a = some x ∧ len ≤ limit ∧ ∀ size, size + len ≤ limit →
      width (l size) ≤ len ∧ (l size = x ∨ width (l size) < width x)

variable {limit width f whole} {es : List A}

theorem Sound.fits (h : ∀ a ∈ es, Sound limit width f whole a) : Fits limit f es := by
  intro a ha len l hl
  rcases h a ha with ⟨hf, -⟩ | hf | ⟨len', l', x, hf, -, hle, -⟩
  · cases hf.symm.trans hl
  · cases hf.symm.trans hl
  · obtain ⟨rfl, -⟩ := Piece.line.inj (hf.symm.trans hl)
    exact hle

theorem Sound.kept (h : ∀ a ∈ es, Sound limit width f whole a) : Kept limit width f es := by
  intro a ha len l hl size hsize
  rcases h a ha with ⟨hf, -⟩ | hf | ⟨len', l', x, hf, -, -, hroom⟩
  · cases hf.symm.trans hl
  · cases hf.symm.trans hl
  · obtain ⟨rfl, rfl⟩ := Piece.line.inj (hf.symm.trans hl)
    exact (hroom size hsize).1

theorem lines_sound (h : ∀ a ∈ es, Sound limit width f whole a) {size : Nat} {ls : List L}
    (hls : lines limit width f size es = some ls) :
    taken width ls ≤ taken width (es.filterMap whole) ∧
      (taken width ls = taken width (es.filterMap whole) → ls = es.filterMap whole) := by
  induction es generalizing size ls with
  | nil =>
    obtain rfl := Option.some.inj hls
    exact ⟨Nat.le_refl _, fun _ => rfl⟩
  | cons a rest ih =>
    have hrest : ∀ x ∈ rest, Sound limit width f whole x := fun x hx => h x (List.mem_cons_of_mem a hx)
    rw [lines] at hls
    rcases h a (List.mem_cons_self ..) with ⟨ha, hw⟩ | ha | ⟨len, l, x, ha, hw, hlen, hroom⟩
    · rw [ha] at hls
      rw [List.filterMap_cons_none hw]
      exact ih hrest hls
    · rw [ha] at hls
      cases hls
    · rw [ha] at hls
      obtain ⟨ls', hls', rfl⟩ := Option.map_eq_some_iff.mp hls
      obtain ⟨-, hat⟩ := hroom (place limit size len) (place_le size hlen)
      obtain ⟨hle, heq⟩ := ih hrest hls'
      rw [List.filterMap_cons_some hw, taken, taken]
      rcases hat with hat | hat
      · rw [hat]
        refine ⟨by omega, ?_⟩
        intro hsum
        rw [heq (by omega)]
      · exact ⟨by omega, fun hsum => by omega⟩

theorem lines_exact (size : Nat)
    (h : ∀ a ∈ es, (f a = .skip ∧ whole a = none) ∨
      ∃ len l x, f a = .line len l ∧ whole a = some x ∧ len ≤ limit ∧
        ∀ size, size + len ≤ limit → l size = x) :
    lines limit width f size es = some (es.filterMap whole) := by
  induction es generalizing size with
  | nil => rfl
  | cons a rest ih =>
    have hih := ih (h := fun x hx => h x (List.mem_cons_of_mem a hx))
    rw [lines]
    rcases h a (List.mem_cons_self ..) with ⟨ha, hw⟩ | ⟨len, l, x, ha, hw, hlen, hroom⟩
    · rw [ha, List.filterMap_cons_none hw]
      exact hih size
    · rw [ha, List.filterMap_cons_some hw]
      dsimp only
      rw [hroom _ (place_le size hlen), hih, Option.map_some]

end Whole

end Pages
