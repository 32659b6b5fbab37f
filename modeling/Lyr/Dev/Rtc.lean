import Mathlib.Algebra.Order.Group.Nat
import Mathlib.Tactic.IntervalCases

set_option autoImplicit false

namespace Lyr.Dev

inductive RtcErrno where
  | eagain
  | einval
  deriving DecidableEq, Repr

structure RtcRegisters where
  second : UInt8
  minute : UInt8
  hour : UInt8
  day : UInt8
  month : UInt8
  year : UInt8
  deriving DecidableEq, Repr

def RTC_STATUS_B_24H : UInt8 := 0x02
def RTC_STATUS_B_BINARY : UInt8 := 0x04

def bcdToBin (v : UInt8) : UInt8 := (v &&& 0x0f) + (v >>> (4 : UInt8)) * 10

def isLeapYear (year : Nat) : Bool := year % 4 == 0 && (year % 100 != 0 || year % 400 == 0)

def daysBeforeYear (year : Nat) : Nat :=
  (List.range' 1970 (year - 1970)).foldl (fun days y => days + if isLeapYear y then 366 else 365) 0

def daysNorm : List Nat := [0, 31, 59, 90, 120, 151, 181, 212, 243, 273, 304, 334]

def daysBeforeMonth (year month : Nat) : Nat := daysNorm.getD (month - 1) 0 + if 2 < month ∧ isLeapYear year then 1 else 0

def rtcToUnix (year month day hour minute second : Nat) : Nat :=
  (daysBeforeYear year + daysBeforeMonth year month + (day - 1)) * 86400 + hour * 3600 + minute * 60 + second

def RtcRegisters.fromBcd (r : RtcRegisters) : RtcRegisters :=
  ⟨bcdToBin r.second, bcdToBin r.minute, (r.hour &&& 0x80) ||| bcdToBin (r.hour &&& 0x7f), bcdToBin r.day, bcdToBin r.month,
    bcdToBin r.year⟩

-- The registers, status B, and the registers once more.
structure RtcSample where
  first : RtcRegisters
  statusB : UInt8
  second : RtcRegisters

def rtcReadConsistent (sample : RtcSample) : Except RtcErrno Nat :=
  if sample.first ≠ sample.second then .error .eagain else
    let r := if sample.statusB &&& RTC_STATUS_B_BINARY = 0 then sample.first.fromBcd else sample.first
    let hour := if sample.statusB &&& RTC_STATUS_B_24H = 0 ∧ r.hour &&& 0x80 ≠ 0 then ((r.hour &&& 0x7f).toNat + 12) % 24 else
      r.hour.toNat
    let fullYear := if 70 ≤ r.year.toNat then 1900 + r.year.toNat else 2000 + r.year.toNat
    if r.month.toNat < 1 ∨ 12 < r.month.toNat ∨ r.day.toNat < 1 ∨ 31 < r.day.toNat ∨ 23 < hour ∨ 59 < r.minute.toNat ∨
      60 < r.second.toNat ∨
        fullYear < 1970 then .error .einval
    else .ok (rtcToUnix fullYear r.month.toNat r.day.toNat hour r.minute.toNat r.second.toNat)

def rtcAttempts (cmos : Nat → RtcSample) : Nat → Nat → Except RtcErrno Nat
  | 0, _ => .error .eagain
  | left + 1, attempt => match rtcReadConsistent (cmos attempt) with
    | .error .eagain => rtcAttempts cmos left (attempt + 1)
    | result => result

def rtcReadTime (cmos : Nat → RtcSample) : Except RtcErrno Nat := rtcAttempts cmos 4 0

-- The calendar and the formats of the chip

def monthLength (year month : Nat) : Nat :=
  if month = 2 then if 4 ∣ year ∧ (100 ∣ year → 400 ∣ year) then 29 else 28 else if month = 4 ∨ month = 6 ∨ month = 9 ∨ month = 11
    then 30 else 31

structure Moment where
  year : Nat
  month : Nat
  day : Nat
  hour : Nat
  minute : Nat
  second : Nat
  inYears : 1970 ≤ year ∧ year ≤ 2069
  inMonths : 1 ≤ month ∧ month ≤ 12
  inDays : 1 ≤ day ∧ day ≤ monthLength year month
  inTime : hour < 24 ∧ minute < 60 ∧ second < 60

def monthsBefore (year month : Nat) : Nat := ((List.range' 1 (month - 1)).map (monthLength year)).sum

def yearsBefore (year : Nat) : Nat := ((List.range' 1970 (year - 1970)).map (fun y => monthsBefore y 13)).sum

-- Whole years, months and days, and the time of day.
def Moment.sinceEpoch (m : Moment) : Nat :=
  (yearsBefore m.year + monthsBefore m.year m.month + (m.day - 1)) * 86400 + m.hour * 3600 + m.minute * 60 + m.second

def rtcField (statusB : UInt8) (n : Nat) : UInt8 :=
  .ofNat (if statusB &&& RTC_STATUS_B_BINARY = 0 then n / 10 * 16 + n % 10 else n)

-- Twelve is hour 0 or 12 of the 12-hour formats; the top bit is the afternoon.
def rtcHour (statusB : UInt8) (hour : Nat) : UInt8 :=
  if statusB &&& RTC_STATUS_B_24H = 0 then
    rtcField statusB (if hour % 12 = 0 then 12 else hour % 12) ||| if 12 ≤ hour then 0x80 else 0
  else rtcField statusB hour

def Moment.registers (m : Moment) (statusB : UInt8) : RtcRegisters :=
  ⟨rtcField statusB m.second, rtcField statusB m.minute, rtcHour statusB m.hour, rtcField statusB m.day, rtcField statusB m.month,
    rtcField statusB (m.year % 100)⟩

variable (m : Moment) (statusB : UInt8)

def Moment.held : Nat → RtcSample := fun _ => ⟨m.registers statusB, statusB, m.registers statusB⟩

def decodedHour (hour : Nat) : Nat := if statusB &&& RTC_STATUS_B_24H = 0 ∧ hour % 12 = 0 then (hour + 12) % 24 else hour

theorem leap_year_iff (year : Nat) : (4 ∣ year ∧ (100 ∣ year → 400 ∣ year)) ↔ isLeapYear year = true := by
  simp only [isLeapYear, Bool.and_eq_true, Bool.or_eq_true, beq_iff_eq, bne_iff_ne]
  omega

theorem months_before_eq (year : Nat) {month : Nat} (inside : 1 ≤ month ∧ month ≤ 12) :
    daysBeforeMonth year month = monthsBefore year month := by
  obtain ⟨low, high⟩ := inside
  unfold daysBeforeMonth monthsBefore
  interval_cases month <;> cases leap : isLeapYear year <;> simp [daysNorm, List.range', monthLength, leap_year_iff, leap]

theorem year_length (year : Nat) : (if isLeapYear year then 366 else 365) = monthsBefore year 13 := by
  cases leap : isLeapYear year <;> simp [monthsBefore, List.range', monthLength, leap_year_iff, leap]

theorem years_before_eq (year : Nat) : daysBeforeYear year = yearsBefore year := by
  simp only [daysBeforeYear, yearsBefore, year_length, List.sum_eq_foldl, List.foldl_map]

theorem bcd_field : ∀ n < 100, (bcdToBin (.ofNat (n / 10 * 16 + n % 10))).toNat = n := by decide

theorem field_read {n : Nat} (small : n < 100) :
    (if statusB &&& RTC_STATUS_B_BINARY = 0 then bcdToBin (rtcField statusB n) else rtcField statusB n).toNat = n := by
  unfold rtcField
  split
  · exact bcd_field n small
  · exact UInt8.toNat_ofNat_of_lt' (by simp only [UInt8.size]; omega)

theorem hour_read : ∀ hour < 24,
    let r := if statusB &&& RTC_STATUS_B_BINARY = 0 then
      (rtcHour statusB hour &&& 0x80) ||| bcdToBin (rtcHour statusB hour &&& 0x7f) else rtcHour statusB hour
    (if statusB &&& RTC_STATUS_B_24H = 0 ∧ r &&& 0x80 ≠ 0 then ((r &&& 0x7f).toNat + 12) % 24 else r.toNat) =
      decodedHour statusB hour := by
  unfold rtcHour rtcField decodedHour
  by_cases bcd : statusB &&& RTC_STATUS_B_BINARY = 0 <;> by_cases half : statusB &&& RTC_STATUS_B_24H = 0 <;> simp only [bcd, half]
  all_goals decide

theorem month_length_le (year month : Nat) : monthLength year month ≤ 31 := by
  unfold monthLength
  split_ifs <;> decide

theorem read_consistent_held : rtcReadConsistent (m.held statusB 0) =
    .ok (rtcToUnix m.year m.month m.day (decodedHour statusB m.hour) m.minute m.second) := by
  obtain ⟨year, month, day, hour, minute, second, inYears, inMonths, inDays, inTime⟩ := m
  have days := inDays.2.trans (month_length_le year month)
  have hours := hour_read statusB hour inTime.1
  have seconds := field_read statusB (n := second) (by omega)
  have minutes := field_read statusB (n := minute) (by omega)
  have monthDays := field_read statusB (n := day) (by omega)
  have months := field_read statusB (n := month) (by omega)
  have years := field_read statusB (n := year % 100) (by omega)
  have small : decodedHour statusB hour < 24 := by
    unfold decodedHour
    split_ifs <;> omega
  have century : (if 70 ≤ year % 100 then 1900 + year % 100 else 2000 + year % 100) = year := by
    split_ifs <;> omega
  unfold rtcReadConsistent Moment.held Moment.registers
  simp only [ne_eq, not_true_eq_false, if_false, apply_ite RtcRegisters.hour, apply_ite RtcRegisters.second,
    apply_ite RtcRegisters.minute,
    apply_ite RtcRegisters.day, apply_ite RtcRegisters.month, apply_ite RtcRegisters.year, RtcRegisters.fromBcd, hours, seconds,
      minutes, monthDays,
    months, years, century]
  rw [if_neg (by omega)]

theorem rtc_read_time_iff : rtcReadTime (m.held statusB) = .ok m.sinceEpoch ↔ statusB &&& RTC_STATUS_B_24H ≠ 0 ∨ m.hour % 12 ≠ 0 := by
  have read : rtcReadTime (m.held statusB) = .ok (rtcToUnix m.year m.month m.day (decodedHour statusB m.hour) m.minute m.second) := by
    rw [rtcReadTime, rtcAttempts, read_consistent_held]
  rw [read, Except.ok.injEq, rtcToUnix, Moment.sinceEpoch, years_before_eq, months_before_eq m.year m.inMonths, decodedHour]
  have inside := m.inTime.1
  split_ifs with twelve
  · simp only [twelve, not_true_eq_false, ne_eq, or_self, iff_false]
    omega
  · simp only [ne_eq, ← not_and_or, twelve, not_false_eq_true]

-- In a 12-hour format noon reads as midnight.
theorem noon_reads_midnight : ∃ m : Moment, m.sinceEpoch = 43200 ∧ rtcReadTime (m.held 0) = .ok 0 :=
  ⟨⟨1970, 1, 1, 12, 0, 0, by decide, by decide, by decide, by decide⟩, by decide, by decide⟩

end Lyr.Dev
