import Mathlib.Data.UInt

/-! The DS3231 reading behind the PIN lock: binary-coded register fields, the calendar check and
the count of seconds since 2000. -/
namespace KeyWallet

/-- `bcd_read`: two decimal digits, at most `maximum`. -/
def bcdRead (encoded : UInt8) (maximum : Nat) : Option Nat :=
  let high := (encoded >>> 4).toNat
  let low := (encoded &&& 15).toNat
  if high > 9 || low > 9 || high * 10 + low > maximum then none else some (high * 10 + low)

def leapYear (year : Nat) : Bool :=
  year % 4 == 0 && (year % 100 != 0 || year % 400 == 0)

/-- `days_in_month`, indexed from zero. -/
def daysInMonth : List Nat := [31, 28, 31, 30, 31, 30, 31, 31, 30, 31, 30, 31]

def daysThisMonth (year month : Nat) : Nat :=
  daysInMonth.getD (month - 1) 0 + (if month == 2 && leapYear year then 1 else 0)

/-- The answers of the two I2C transfers of `rtc_seconds`: the status byte at register 0x0f and
the seven time registers. A failed transfer is `none`. -/
structure RtcBus where
  statusByte : Option UInt8
  raw : Option (List UInt8)
deriving DecidableEq

/-- The hour field, in its 12-hour or its 24-hour form. -/
def rtcHour (reg : UInt8) : Option Nat :=
  if reg &&& 0x40 != 0 then
    match bcdRead (reg &&& 0x1f) 12 with
    | none => none
    | some hour =>
      if hour == 0 then none else some (hour % 12 + (if reg &&& 0x20 != 0 then 12 else 0))
  else bcdRead (reg &&& 0x3f) 23

/-- Days from 2000-01-01 to the first of the month. -/
def rtcDays (year month : Nat) : Nat :=
  ((List.range (year - 2000)).map fun y => if leapYear (2000 + y) then 366 else 365).sum +
    ((List.range (month - 1)).map fun m => daysThisMonth year (m + 1)).sum

/-- The decoding of the seven registers in `rtc_seconds`. -/
def rtcDecode (raw : List UInt8) : Option Nat := do
  let reg (i : Nat) : UInt8 := raw.getD i 0
  let sec ← bcdRead (reg 0 &&& 0x7f) 59
  let min ← bcdRead (reg 1 &&& 0x7f) 59
  let day ← bcdRead (reg 4 &&& 0x3f) 31
  let month ← bcdRead (reg 5 &&& 0x1f) 12
  let year ← bcdRead (reg 6) 99
  if reg 5 &&& 0x80 != 0 then none else
  let hour ← rtcHour (reg 2)
  let year := year + 2000
  if year < 2020 || month == 0 || day == 0 then none else
  if day > daysThisMonth year month then none else
  some ((((rtcDays year month + (day - 1)) * 24 + hour) * 60 + min) * 60 + sec)

/-- `rtc_seconds`. The oscillator-stop flag and a failed transfer are both refusals. -/
def rtcSeconds (present : Bool) (bus : RtcBus) : Option Nat :=
  if !present then none else
  match bus.statusByte with
  | none => none
  | some statusByte =>
    if statusByte &&& 0x80 != 0 then none else bus.raw.bind rtcDecode

end KeyWallet
