import Mathlib.Logic.Function.Iterate
import Mathlib.Algebra.Order.Ring.Nat

/-! The Gregorian calendar with the time of day: the next second, the order of instants, and the
count of seconds between two of them. -/
namespace Calendar

def isLeap (year : Nat) : Bool := decide (year % 4 = 0 ∧ (year % 100 = 0 → year % 400 = 0))

def yearLength (year : Nat) : Nat := if isLeap year then 366 else 365

def monthLength (year month : Nat) : Nat :=
  if month = 2 then (if isLeap year then 29 else 28)
  else if month = 4 ∨ month = 6 ∨ month = 9 ∨ month = 11 then 30
  else 31

/-- A date and a time of day. -/
structure Instant where
  year : Nat
  month : Nat
  day : Nat
  hour : Nat
  minute : Nat
  second : Nat
  deriving DecidableEq, Repr

namespace Instant

/-- The instant is in the calendar. -/
structure Valid (t : Instant) : Prop where
  month_pos : 1 ≤ t.month
  month_le : t.month ≤ 12
  day_pos : 1 ≤ t.day
  day_le : t.day ≤ monthLength t.year t.month
  hour_lt : t.hour < 24
  minute_lt : t.minute < 60
  second_lt : t.second < 60

/-- The start of a year. -/
def newYear (year : Nat) : Instant := ⟨year, 1, 1, 0, 0, 0⟩

/-- The midnight after this instant. -/
def nextDay (t : Instant) : Instant :=
  if t.day < monthLength t.year t.month then ⟨t.year, t.month, t.day + 1, 0, 0, 0⟩
  else if t.month < 12 then ⟨t.year, t.month + 1, 1, 0, 0, 0⟩
  else newYear (t.year + 1)

/-- One second later. -/
def tick (t : Instant) : Instant :=
  if t.second < 59 then { t with second := t.second + 1 }
  else if t.minute < 59 then { t with minute := t.minute + 1, second := 0 }
  else if t.hour < 23 then { t with hour := t.hour + 1, minute := 0, second := 0 }
  else t.nextDay

/-- The order of instants. -/
def Before (t u : Instant) : Prop :=
  t.year < u.year ∨ t.year = u.year ∧ (t.month < u.month ∨ t.month = u.month ∧
    (t.day < u.day ∨ t.day = u.day ∧ (t.hour < u.hour ∨ t.hour = u.hour ∧
      (t.minute < u.minute ∨ t.minute = u.minute ∧ t.second < u.second))))

theorem before_trichotomy (t u : Instant) : t = u ∨ t.Before u ∨ u.Before t := by
  obtain ⟨y, mo, d, h, mi, s⟩ := t
  obtain ⟨y', mo', d', h', mi', s'⟩ := u
  unfold Before
  rw [Instant.mk.injEq]
  dsimp only
  omega

end Instant

/-- The days of the years from `base` on, before this one. -/
def daysBeforeYear (base : Nat) : Nat → Nat
  | 0 => 0
  | n + 1 => daysBeforeYear base n + yearLength (base + n)

/-- The days of the first `n` months. -/
def daysBeforeMonth (year : Nat) : Nat → Nat
  | 0 => 0
  | n + 1 => daysBeforeMonth year n + monthLength year (n + 1)

/-- The seconds from the start of the year `base`. -/
def secondsSince (base : Nat) (t : Instant) : Nat :=
  (((daysBeforeYear base (t.year - base) + daysBeforeMonth t.year (t.month - 1) + (t.day - 1)) * 24 +
    t.hour) * 60 + t.minute) * 60 + t.second

theorem monthLength_pos (year month : Nat) : 0 < monthLength year month := by
  unfold monthLength
  split_ifs <;> omega

theorem daysBeforeMonth_twelve (year : Nat) : daysBeforeMonth year 12 = yearLength year := by
  unfold yearLength
  cases h : isLeap year <;> simp [daysBeforeMonth, monthLength, h]

theorem daysBeforeMonth_mono (year : Nat) {m n : Nat} (h : m ≤ n) :
    daysBeforeMonth year m ≤ daysBeforeMonth year n := by
  induction h with
  | refl => exact Nat.le_refl _
  | step _ ih => exact Nat.le_trans ih (Nat.le_add_right _ _)

theorem daysBeforeYear_mono (base : Nat) {m n : Nat} (h : m ≤ n) :
    daysBeforeYear base m ≤ daysBeforeYear base n := by
  induction h with
  | refl => exact Nat.le_refl _
  | step _ ih => exact Nat.le_trans ih (Nat.le_add_right _ _)

section Count

variable {base : Nat} {t u : Instant}

theorem Instant.Valid.day_in_month (h : t.Valid) :
    daysBeforeMonth t.year (t.month - 1) + (t.day - 1) < daysBeforeMonth t.year t.month := by
  have hmonth : t.month - 1 + 1 = t.month := Nat.sub_add_cancel h.month_pos
  have hsum : daysBeforeMonth t.year t.month =
      daysBeforeMonth t.year (t.month - 1) + monthLength t.year t.month := by
    conv_lhs => rw [← hmonth]
    show _ + monthLength t.year (t.month - 1 + 1) = _
    rw [hmonth]
  have hday := h.day_le
  have hpos := h.day_pos
  omega

theorem Instant.Valid.day_in_year (h : t.Valid) :
    daysBeforeMonth t.year (t.month - 1) + (t.day - 1) < yearLength t.year := by
  have hin := h.day_in_month
  have hle := daysBeforeMonth_mono t.year h.month_le
  rw [daysBeforeMonth_twelve] at hle
  omega

/-- The days before the date of an instant. -/
def dayNumber (base : Nat) (t : Instant) : Nat :=
  daysBeforeYear base (t.year - base) + daysBeforeMonth t.year (t.month - 1) + (t.day - 1)

theorem secondsSince_eq (base : Nat) (t : Instant) :
    secondsSince base t = ((dayNumber base t * 24 + t.hour) * 60 + t.minute) * 60 + t.second := rfl

theorem dayNumber_lt (ht : t.Valid) (hbase : base ≤ t.year)
    (h : t.year < u.year ∨ t.year = u.year ∧ (t.month < u.month ∨ t.month = u.month ∧ t.day < u.day)) :
    dayNumber base t < dayNumber base u := by
  unfold dayNumber
  rcases h with hyear | ⟨hyear, hmonth | ⟨hmonth, hday⟩⟩
  · -- the whole year of `t` is over
    have hin := ht.day_in_year
    have hnext : daysBeforeYear base (t.year - base + 1) =
        daysBeforeYear base (t.year - base) + yearLength t.year := by
      show _ + yearLength (base + (t.year - base)) = _
      rw [Nat.add_sub_cancel' hbase]
    have hle := daysBeforeYear_mono base (show t.year - base + 1 ≤ u.year - base by omega)
    omega
  · have hin := ht.day_in_month
    have hle := daysBeforeMonth_mono u.year (show t.month ≤ u.month - 1 by omega)
    rw [hyear] at hin ⊢
    omega
  · have hpos := ht.day_pos
    rw [hyear, hmonth]
    omega

theorem secondsSince_lt (ht : t.Valid) (hbase : base ≤ t.year) (h : t.Before u) :
    secondsSince base t < secondsSince base u := by
  have hth := ht.hour_lt
  have htm := ht.minute_lt
  have hts := ht.second_lt
  rw [secondsSince_eq, secondsSince_eq]
  by_cases hdate : t.year < u.year ∨
      t.year = u.year ∧ (t.month < u.month ∨ t.month = u.month ∧ t.day < u.day)
  · have hday := dayNumber_lt ht hbase hdate
    omega
  · unfold Instant.Before at h
    have hsame : t.year = u.year ∧ t.month = u.month ∧ t.day = u.day := by omega
    have hday : dayNumber base t = dayNumber base u := by
      unfold dayNumber
      rw [hsame.1, hsame.2.1, hsame.2.2]
    omega

theorem secondsSince_inj (ht : t.Valid) (hu : u.Valid) (htbase : base ≤ t.year) (hubase : base ≤ u.year)
    (h : secondsSince base t = secondsSince base u) : t = u := by
  rcases t.before_trichotomy u with heq | hlt | hlt
  · exact heq
  · have := secondsSince_lt ht htbase hlt
    omega
  · have := secondsSince_lt hu hubase hlt
    omega

theorem Instant.newYear_valid (year : Nat) : (newYear year).Valid := by
  refine ⟨Nat.le_refl 1, ?_, Nat.le_refl 1, monthLength_pos _ _, Nat.zero_lt_succ _, Nat.zero_lt_succ _,
    Nat.zero_lt_succ _⟩
  show 1 ≤ 12
  omega

theorem nextDay_spec (ht : t.Valid) (hbase : base ≤ t.year) :
    t.nextDay.Valid ∧ base ≤ t.nextDay.year ∧ t.nextDay.hour = 0 ∧ t.nextDay.minute = 0 ∧
      t.nextDay.second = 0 ∧ dayNumber base t.nextDay = dayNumber base t + 1 := by
  have hmonth : t.month - 1 + 1 = t.month := Nat.sub_add_cancel ht.month_pos
  have hday := ht.day_le
  have hpos := ht.day_pos
  unfold Instant.nextDay
  by_cases hlast : t.day < monthLength t.year t.month
  · rw [if_pos hlast]
    refine ⟨⟨ht.month_pos, ht.month_le, Nat.le_add_left _ _, hlast, ?_, ?_, ?_⟩, hbase, rfl, rfl, rfl, ?_⟩
    · exact Nat.zero_lt_succ _
    · exact Nat.zero_lt_succ _
    · exact Nat.zero_lt_succ _
    · unfold dayNumber
      dsimp only
      omega
  rw [if_neg hlast]
  have hend : t.day = monthLength t.year t.month := by omega
  have hsum : daysBeforeMonth t.year t.month =
      daysBeforeMonth t.year (t.month - 1) + monthLength t.year t.month := by
    conv_lhs => rw [← hmonth]
    show _ + monthLength t.year (t.month - 1 + 1) = _
    rw [hmonth]
  by_cases hdec : t.month < 12
  · rw [if_pos hdec]
    refine ⟨⟨Nat.le_add_left _ _, hdec, Nat.le_refl _, monthLength_pos _ _, ?_, ?_, ?_⟩, hbase, rfl, rfl,
      rfl, ?_⟩
    · exact Nat.zero_lt_succ _
    · exact Nat.zero_lt_succ _
    · exact Nat.zero_lt_succ _
    · unfold dayNumber
      dsimp only
      rw [Nat.add_sub_cancel, hsum]
      omega
  · rw [if_neg hdec]
    refine ⟨Instant.newYear_valid _, Nat.le_succ_of_le hbase, rfl, rfl, rfl, ?_⟩
    -- the last month ends with its year
    have htwelve : t.month = 12 := by
      have := ht.month_le
      omega
    have hyear : daysBeforeMonth t.year t.month = yearLength t.year := by
      rw [htwelve, daysBeforeMonth_twelve]
    have hnext : daysBeforeYear base (t.year + 1 - base) =
        daysBeforeYear base (t.year - base) + yearLength t.year := by
      rw [Nat.sub_add_comm hbase]
      show _ + yearLength (base + (t.year - base)) = _
      rw [Nat.add_sub_cancel' hbase]
    unfold dayNumber Instant.newYear
    dsimp only
    rw [hnext]
    show _ + daysBeforeMonth (t.year + 1) 0 + 0 = _
    have hzero : daysBeforeMonth (t.year + 1) 0 = 0 := rfl
    omega

theorem tick_spec (ht : t.Valid) (hbase : base ≤ t.year) :
    t.tick.Valid ∧ base ≤ t.tick.year ∧ secondsSince base t.tick = secondsSince base t + 1 := by
  obtain ⟨hm1, hm2, hd1, hd2, hh, hmi, hs⟩ := ht
  have ht : t.Valid := ⟨hm1, hm2, hd1, hd2, hh, hmi, hs⟩
  unfold Instant.tick
  by_cases hsec : t.second < 59
  · rw [if_pos hsec]
    refine ⟨⟨hm1, hm2, hd1, hd2, hh, hmi, ?_⟩, hbase, rfl⟩
    show t.second + 1 < 60
    omega
  rw [if_neg hsec]
  by_cases hmin : t.minute < 59
  · rw [if_pos hmin]
    refine ⟨⟨hm1, hm2, hd1, hd2, hh, ?_, Nat.zero_lt_succ _⟩, hbase, ?_⟩
    · show t.minute + 1 < 60
      omega
    · unfold secondsSince
      dsimp only
      omega
  rw [if_neg hmin]
  by_cases hhour : t.hour < 23
  · rw [if_pos hhour]
    refine ⟨⟨hm1, hm2, hd1, hd2, ?_, Nat.zero_lt_succ _, Nat.zero_lt_succ _⟩, hbase, ?_⟩
    · show t.hour + 1 < 24
      omega
    · unfold secondsSince
      dsimp only
      omega
  rw [if_neg hhour]
  obtain ⟨hvalid, hyear, hh0, hm0, hs0, hday⟩ := nextDay_spec ht hbase
  refine ⟨hvalid, hyear, ?_⟩
  rw [secondsSince_eq, secondsSince_eq, hh0, hm0, hs0, hday]
  omega

theorem iterate_tick_spec (base n : Nat) :
    (Instant.tick^[n] (.newYear base)).Valid ∧ base ≤ (Instant.tick^[n] (.newYear base)).year ∧
      secondsSince base (Instant.tick^[n] (.newYear base)) = n := by
  induction n with
  | zero =>
    refine ⟨Instant.newYear_valid base, Nat.le_refl _, ?_⟩
    have hyears : daysBeforeYear base (base - base) = 0 := by
      rw [Nat.sub_self]
      rfl
    have hmonths : daysBeforeMonth base 0 = 0 := rfl
    show (((daysBeforeYear base (base - base) + daysBeforeMonth base 0 + 0) * 24 + 0) * 60 + 0) * 60 + 0 = 0
    omega
  | succ n ih =>
    rw [Function.iterate_succ_apply']
    obtain ⟨hvalid, hyear, hcount⟩ := ih
    obtain ⟨hvalid', hyear', hcount'⟩ := tick_spec hvalid hyear
    exact ⟨hvalid', hyear', hcount'.trans (congrArg (· + 1) hcount)⟩

theorem iterate_tick_eq_iff (ht : t.Valid) (hbase : base ≤ t.year) (n : Nat) :
    Instant.tick^[n] (.newYear base) = t ↔ secondsSince base t = n := by
  obtain ⟨hvalid, hyear, hcount⟩ := iterate_tick_spec base n
  constructor
  · intro h
    rw [← h, hcount]
  · intro h
    exact secondsSince_inj hvalid ht hyear hbase (hcount.trans h.symm)

end Count

end Calendar
