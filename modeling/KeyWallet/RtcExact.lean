import KeyWallet.Calendar
import KeyWallet.RtcClock
import Mathlib.Data.Nat.Bitwise

/-! What `rtc_seconds` makes of a register image: it accepts the images of the instants of 2020 to
2099, and counts the seconds from the start of 2000. -/
namespace KeyWallet

open Calendar

/-- Two decimal digits in one byte. -/
def bcd (n : Nat) : Nat := n / 10 * 16 + n % 10

/-- The hour register. Bit 6 marks the 12-hour form, in which bit 5 is set from noon on. -/
def HourEncodes (reg : UInt8) (hour : Nat) : Prop :=
  if reg.toNat / 64 % 2 = 1 then
    reg.toNat % 32 = bcd (if hour % 12 = 0 then 12 else hour % 12) ∧ (reg.toNat / 32 % 2 = 1 ↔ 12 ≤ hour)
  else reg.toNat % 64 = bcd hour

/-- The registers stand for this instant. The bits above a field are unused, except for the century
bit of the month; the weekday is not looked at. -/
structure Encodes (raw : List UInt8) (t : Instant) : Prop where
  second : (raw.getD 0 0).toNat % 128 = bcd t.second
  minute : (raw.getD 1 0).toNat % 128 = bcd t.minute
  hour : HourEncodes (raw.getD 2 0) t.hour
  day : (raw.getD 4 0).toNat % 64 = bcd t.day
  month : (raw.getD 5 0).toNat % 32 = bcd t.month
  century : (raw.getD 5 0).toNat < 128
  year : (raw.getD 6 0).toNat = bcd (t.year - 2000)

/-- The image of a date and a time that the clock can have been set to. -/
structure Shows (raw : List UInt8) (t : Instant) : Prop where
  encodes : Encodes raw t
  valid : t.Valid
  first : 2020 ≤ t.year
  last : t.year ≤ 2099

theorem bcd_inj {m n : Nat} (h : bcd m = bcd n) : m = n := by
  unfold bcd at h
  omega

section Fields

variable {reg : UInt8} {n : Nat}

theorem bcdRead_eq_some {maximum : Nat} :
    bcdRead reg maximum = some n ↔ n ≤ maximum ∧ n ≤ 99 ∧ reg.toNat = bcd n := by
  have hhigh : (reg >>> 4).toNat = reg.toNat / 16 := by
    rw [UInt8.toNat_shiftRight]
    exact Nat.shiftRight_eq_div_pow _ 4
  have hlow : (reg &&& 15).toNat = reg.toNat % 16 := by
    rw [UInt8.toNat_and]
    exact Nat.and_two_pow_sub_one_eq_mod _ 4
  unfold bcdRead bcd
  dsimp only
  rw [hhigh, hlow]
  by_cases hbad : (decide (reg.toNat / 16 > 9) || decide (reg.toNat % 16 > 9) ||
      decide (reg.toNat / 16 * 10 + reg.toNat % 16 > maximum)) = true
  · rw [if_pos hbad]
    simp only [Bool.or_eq_true, decide_eq_true_eq] at hbad
    constructor
    · intro h
      cases h
    · intro h
      omega
  · rw [if_neg hbad, Option.some.injEq]
    simp only [Bool.or_eq_true, decide_eq_true_eq] at hbad
    omega

theorem toNat_and_0x7f (reg : UInt8) : (reg &&& 0x7f).toNat = reg.toNat % 128 := by
  rw [UInt8.toNat_and]
  exact Nat.and_two_pow_sub_one_eq_mod _ 7

theorem toNat_and_0x3f (reg : UInt8) : (reg &&& 0x3f).toNat = reg.toNat % 64 := by
  rw [UInt8.toNat_and]
  exact Nat.and_two_pow_sub_one_eq_mod _ 6

theorem toNat_and_0x1f (reg : UInt8) : (reg &&& 0x1f).toNat = reg.toNat % 32 := by
  rw [UInt8.toNat_and]
  exact Nat.and_two_pow_sub_one_eq_mod _ 5

theorem bit_iff (reg mask : UInt8) (k : Nat) (hmask : mask.toNat = 2 ^ k) :
    (reg &&& mask != 0) = true ↔ reg.toNat / 2 ^ k % 2 = 1 := by
  have hval : (reg &&& mask).toNat = 2 ^ k * (reg.toNat / 2 ^ k % 2) := by
    rw [UInt8.toNat_and, hmask, Nat.and_two_pow, Nat.testBit_eq_decide_div_mod_eq]
    rcases Nat.mod_two_eq_zero_or_one (reg.toNat / 2 ^ k) with h | h
    · rw [h]
      simp
    · rw [h]
      simp
  have hpos : 0 < 2 ^ k := Nat.two_pow_pos k
  rw [bne_iff_ne, ne_eq, ← UInt8.toNat_inj, hval]
  show ¬ 2 ^ k * (reg.toNat / 2 ^ k % 2) = 0 ↔ _
  rcases Nat.mod_two_eq_zero_or_one (reg.toNat / 2 ^ k) with h | h
  · rw [h]
    simp
  · rw [h]
    simp

theorem rtcHour_eq_some : rtcHour reg = some n ↔ n < 24 ∧ HourEncodes reg n := by
  have hform : (reg &&& 0x40 != 0) = true ↔ reg.toNat / 64 % 2 = 1 := bit_iff reg 0x40 6 rfl
  have hnoon : (reg &&& 0x20 != 0) = true ↔ reg.toNat / 32 % 2 = 1 := bit_iff reg 0x20 5 rfl
  unfold rtcHour HourEncodes
  by_cases hbit : (reg &&& 0x40 != 0) = true
  · rw [if_pos hbit, if_pos (hform.mp hbit)]
    cases hread : bcdRead (reg &&& 0x1f) 12 with
    | none =>
      constructor
      · intro h
        cases h
      · rintro ⟨hn, hdigits, -⟩
        have hsome : bcdRead (reg &&& 0x1f) 12 = some (if n % 12 = 0 then 12 else n % 12) := by
          rw [bcdRead_eq_some, toNat_and_0x1f]
          refine ⟨?_, ?_, hdigits⟩
          · split_ifs <;> omega
          · split_ifs <;> omega
        rw [hread] at hsome
        cases hsome
    | some k =>
      rw [bcdRead_eq_some, toNat_and_0x1f] at hread
      obtain ⟨hk, -, hdigits⟩ := hread
      dsimp only
      by_cases hzero : k = 0
      · -- the zero hour is not a 12-hour time
        rw [if_pos (beq_iff_eq.mpr hzero)]
        constructor
        · intro h
          cases h
        · rintro ⟨-, hsame, -⟩
          have := bcd_inj (hdigits.symm.trans hsame)
          split_ifs at this <;> omega
      · rw [if_neg (by simpa using hzero), Option.some.injEq]
        by_cases hpm : (reg &&& 0x20 != 0) = true
        · rw [if_pos hpm]
          have hpm' := hnoon.mp hpm
          constructor
          · intro h
            refine ⟨by omega, ?_, ?_⟩
            · rw [hdigits]
              congr 1
              split_ifs <;> omega
            · exact ⟨fun _ => by omega, fun _ => hpm'⟩
          · rintro ⟨hn, hsame, hafter⟩
            have hkn := bcd_inj (hdigits.symm.trans hsame)
            have hlate := hafter.mp hpm'
            split_ifs at hkn <;> omega
        · rw [if_neg hpm]
          have hpm' := mt hnoon.mpr hpm
          constructor
          · intro h
            refine ⟨by omega, ?_, ?_⟩
            · rw [hdigits]
              congr 1
              split_ifs <;> omega
            · exact ⟨fun h1 => absurd h1 hpm', fun h12 => by omega⟩
          · rintro ⟨hn, hsame, hafter⟩
            have hkn := bcd_inj (hdigits.symm.trans hsame)
            have hearly := mt hafter.mpr hpm'
            split_ifs at hkn <;> omega
  · rw [if_neg hbit, if_neg (mt hform.mpr hbit), bcdRead_eq_some, toNat_and_0x3f]
    omega

end Fields

/-! The calendar of the source is the Gregorian one. -/

theorem leapYear_eq (year : Nat) : leapYear year = isLeap year := by
  unfold leapYear isLeap
  by_cases h4 : year % 4 = 0 <;> by_cases h100 : year % 100 = 0 <;> by_cases h400 : year % 400 = 0 <;>
    simp [h4, h100, h400]

theorem daysThisMonth_eq (year : Nat) {month : Nat} (h1 : 1 ≤ month) (h12 : month ≤ 12) :
    daysThisMonth year month = monthLength year month := by
  unfold daysThisMonth monthLength
  rw [leapYear_eq]
  obtain rfl | rfl | rfl | rfl | rfl | rfl | rfl | rfl | rfl | rfl | rfl | rfl :
      month = 1 ∨ month = 2 ∨ month = 3 ∨ month = 4 ∨ month = 5 ∨ month = 6 ∨ month = 7 ∨ month = 8 ∨
        month = 9 ∨ month = 10 ∨ month = 11 ∨ month = 12 := by omega
  all_goals cases isLeap year <;> rfl

theorem years_sum (n : Nat) :
    ((List.range n).map fun y => if leapYear (2000 + y) then 366 else 365).sum =
      daysBeforeYear 2000 n := by
  induction n with
  | zero => rfl
  | succ n ih =>
    rw [List.range_succ, List.map_append, List.sum_append, ih, daysBeforeYear, yearLength, ← leapYear_eq]
    rfl

theorem months_sum (year n : Nat) (h : n ≤ 12) :
    ((List.range n).map fun m => daysThisMonth year (m + 1)).sum = daysBeforeMonth year n := by
  induction n with
  | zero => rfl
  | succ n ih =>
    rw [List.range_succ, List.map_append, List.sum_append, ih (Nat.le_of_succ_le h), daysBeforeMonth,
      ← daysThisMonth_eq year (Nat.le_add_left _ _) h]
    rfl

theorem rtcDays_eq (year : Nat) {month : Nat} (h12 : month ≤ 12) :
    rtcDays year month = daysBeforeYear 2000 (year - 2000) + daysBeforeMonth year (month - 1) := by
  unfold rtcDays
  rw [years_sum, months_sum year (month - 1) (by omega)]

theorem rtcDecode_eq_some {raw : List UInt8} {s : Nat} :
    rtcDecode raw = some s ↔ ∃ t, Shows raw t ∧ secondsSince 2000 t = s := by
  have hcentury : (raw.getD 5 0 &&& 0x80 != 0) = true ↔ (raw.getD 5 0).toNat / 128 % 2 = 1 :=
    bit_iff (raw.getD 5 0) 0x80 7 rfl
  have hlt : (raw.getD 5 0).toNat < 256 := UInt8.toNat_lt _
  unfold rtcDecode
  dsimp only
  simp only [Option.bind_eq_bind, Option.bind_eq_some_iff]
  constructor
  · rintro ⟨sec, hsec, min, hmin, day, hday, month, hmonth, year, hyear, h⟩
    by_cases hc : (raw.getD 5 0 &&& 0x80 != 0) = true
    · rw [if_pos hc] at h
      cases h
    rw [if_neg hc] at h
    obtain ⟨hour, hhour, h⟩ := Option.bind_eq_some_iff.mp h
    rw [bcdRead_eq_some, toNat_and_0x7f] at hsec hmin
    rw [bcdRead_eq_some, toNat_and_0x3f] at hday
    rw [bcdRead_eq_some, toNat_and_0x1f] at hmonth
    rw [bcdRead_eq_some] at hyear
    rw [rtcHour_eq_some] at hhour
    by_cases hrange : (decide (year + 2000 < 2020) || month == 0 || day == 0) = true
    · rw [if_pos hrange] at h
      cases h
    rw [if_neg hrange] at h
    simp only [Bool.or_eq_true, decide_eq_true_eq, beq_iff_eq] at hrange
    have hmonth1 : 1 ≤ month := by omega
    rw [daysThisMonth_eq _ hmonth1 hmonth.1] at h
    by_cases hlong : day > monthLength (year + 2000) month
    · rw [if_pos hlong] at h
      cases h
    rw [if_neg hlong, Option.some.injEq, rtcDays_eq _ hmonth.1] at h
    refine ⟨⟨year + 2000, month, day, hour, min, sec⟩, ⟨⟨hsec.2.2, hmin.2.2, hhour.2, hday.2.2, hmonth.2.2,
      ?_, ?_⟩, ⟨hmonth1, hmonth.1, ?_, ?_, hhour.1, ?_, ?_⟩, ?_, ?_⟩, h⟩
    · have := mt hcentury.mpr hc
      omega
    · rw [Nat.add_sub_cancel]
      exact hyear.2.2
    all_goals (dsimp only; omega)
  · rintro ⟨t, ⟨henc, hvalid, hfirst, hlast⟩, hcount⟩
    have hc : ¬ (raw.getD 5 0 &&& 0x80 != 0) = true := by
      intro hc
      have hbit := hcentury.mp hc
      have hsmall := henc.century
      omega
    have hyear : t.year - 2000 + 2000 = t.year := by omega
    have hmonthLe := hvalid.month_le
    have hday31 : t.day ≤ 31 := by
      have hle := hvalid.day_le
      unfold monthLength at hle
      split_ifs at hle <;> omega
    refine ⟨t.second, ?_, t.minute, ?_, t.day, ?_, t.month, ?_, t.year - 2000, ?_, ?_⟩
    · rw [bcdRead_eq_some, toNat_and_0x7f]
      have hs := hvalid.second_lt
      exact ⟨by omega, by omega, henc.second⟩
    · rw [bcdRead_eq_some, toNat_and_0x7f]
      have hm := hvalid.minute_lt
      exact ⟨by omega, by omega, henc.minute⟩
    · rw [bcdRead_eq_some, toNat_and_0x3f]
      exact ⟨hday31, by omega, henc.day⟩
    · rw [bcdRead_eq_some, toNat_and_0x1f]
      exact ⟨hmonthLe, by omega, henc.month⟩
    · rw [bcdRead_eq_some]
      exact ⟨by omega, by omega, henc.year⟩
    · have hpos := hvalid.month_pos
      have hdpos := hvalid.day_pos
      rw [if_neg hc]
      refine Option.bind_eq_some_iff.mpr ⟨t.hour, rtcHour_eq_some.mpr ⟨hvalid.hour_lt, henc.hour⟩, ?_⟩
      rw [hyear]
      have hrange : ¬ (decide (t.year < 2020) || t.month == 0 || t.day == 0) = true := by
        simp only [Bool.or_eq_true, decide_eq_true_eq, beq_iff_eq]
        omega
      have hshort : ¬ t.day > daysThisMonth t.year t.month := by
        rw [daysThisMonth_eq _ hpos hmonthLe]
        exact Nat.not_lt_of_le hvalid.day_le
      rw [if_neg hrange, if_neg hshort, rtcDays_eq _ hmonthLe]
      exact congrArg some hcount

/-- While the oscillator runs, `rtc_seconds` takes exactly the images of an instant from 2020 to 2099,
gives the number of ticks from the start of 2000, and keeps the order of instants. -/
theorem rtcSeconds_exact (status : UInt8) (hstatus : status &&& 0x80 = 0) :
    (∀ raw s, rtcSeconds true ⟨some status, some raw⟩ = some s ↔
      ∃ t, Shows raw t ∧ Instant.tick^[s] (.newYear 2000) = t) ∧
    ∀ raw raw' t t' s s', Shows raw t → Shows raw' t' → rtcSeconds true ⟨some status, some raw⟩ = some s →
      rtcSeconds true ⟨some status, some raw'⟩ = some s' → (t.Before t' ↔ s < s') ∧ (s = s' ↔ t = t') := by
  have hread : ∀ raw, rtcSeconds true ⟨some status, some raw⟩ = rtcDecode raw := by
    intro raw
    unfold rtcSeconds
    dsimp only
    rw [if_neg (by decide), hstatus, if_neg (by decide)]
    rfl
  have hyear : ∀ {raw t}, Shows raw t → 2000 ≤ t.year := fun h => Nat.le_trans (by decide) h.first
  refine ⟨?_, ?_⟩
  · intro raw s
    rw [hread, rtcDecode_eq_some]
    constructor
    · rintro ⟨t, ht, hcount⟩
      exact ⟨t, ht, (iterate_tick_eq_iff ht.valid (hyear ht) s).mpr hcount⟩
    · rintro ⟨t, ht, htick⟩
      exact ⟨t, ht, (iterate_tick_eq_iff ht.valid (hyear ht) s).mp htick⟩
  · intro raw raw' t t' s s' ht ht' hs hs'
    -- an image has only one count
    have hcount : secondsSince 2000 t = s := by
      have hdec := rtcDecode_eq_some.mpr ⟨t, ht, rfl⟩
      rw [hread, hdec] at hs
      exact Option.some.inj hs
    have hcount' : secondsSince 2000 t' = s' := by
      have hdec := rtcDecode_eq_some.mpr ⟨t', ht', rfl⟩
      rw [hread, hdec] at hs'
      exact Option.some.inj hs'
    rw [← hcount, ← hcount']
    have hlt : t.Before t' → secondsSince 2000 t < secondsSince 2000 t' :=
      secondsSince_lt ht.valid (hyear ht)
    refine ⟨⟨hlt, ?_⟩, secondsSince_inj ht.valid ht'.valid (hyear ht) (hyear ht'), congrArg _⟩
    intro hless
    rcases t.before_trichotomy t' with rfl | hbefore | hafter
    · omega
    · exact hbefore
    · have := secondsSince_lt ht'.valid (hyear ht') hafter
      omega

/-- The last second of a leap day, in the 12-hour form. -/
theorem rtcSeconds_leap_day :
    rtcSeconds true ⟨some 0, some [0x59, 0x59, 0x71, 5, 0x29, 0x02, 0x24]⟩ = some 762566399 ∧
      ∃ t, Shows [0x59, 0x59, 0x71, 5, 0x29, 0x02, 0x24] t ∧
        Instant.tick^[762566399] (.newYear 2000) = t := by
  have hread : rtcSeconds true ⟨some 0, some [0x59, 0x59, 0x71, 5, 0x29, 0x02, 0x24]⟩ =
      some 762566399 := by decide
  exact ⟨hread, ((rtcSeconds_exact 0 (by decide)).1 _ _).mp hread⟩

end KeyWallet
