import Gd32Firmware.Lib.Gregorian
import Gd32Firmware.Lib.Loop

/-!
# The time of the RTC

`tkl_rtc_time_set` breaks the seconds of an instant down to a date and a time of day in the zone UTC+8
and programs these, in BCD, into the RTC; `tkl_rtc_time_get` goes the other way.

The two are inverse to each other (`Tkl.mktimeSecond_secondsToGmt`), and the date is the Gregorian
one (`Tkl.exists_secondsToGmt`), of the seconds plus those of the zone in 32 bits.
`Tkl.rtcRight_iff` says where all of it is right from the year 2000 on: up to the last eight hours
of 32 bits, in which the sum wraps.
-/

namespace Gd32

open UInt32

variable {n : ℕ} {timeSec : UInt32}

namespace Tkl

open Gregorian

/-! ### The code -/

/-- `localtimeinfo_t`. -/
structure LocalTimeInfo where
  year : ℕ
  month : ℕ
  day : ℕ
  week : ℕ
  hour : ℕ
  minute : ℕ
  second : ℕ

/-- The fields of `rtc_parameter_struct`. -/
structure RtcParameter where
  year : UInt8
  month : UInt8
  date : UInt8
  /-- `RTC_MONDAY` is 1. -/
  dayOfWeek : UInt8
  hour : UInt8
  minute : UInt8
  second : UInt8
  factorAsyn : UInt16
  factorSyn : UInt16
  /-- `RTC_AM` is 0. -/
  amPm : UInt32
  /-- `RTC_24HOUR` is 0. -/
  displayFormat : UInt32

def monthDays : List ℕ := [31, 28, 31, 30, 31, 30, 31, 31, 30, 31, 30, 31]

/-- The body of the loop of `seconds_to_gmt` that looks for the year; when it leaves, the leap years
are taken off the days. -/
def yearBody (s : ℕ × ℕ) : ℕ × ℕ ⊕ ℕ × ℕ :=
  let leapYears := s.1 / 4 - s.1 / 100 + s.1 / 400
  if s.2 < leapYears then .inl (s.1 - 1, s.2 + 365) else .inr (s.1, s.2 - leapYears)

/-- The loop of `seconds_to_gmt` that looks for the month, over the rest of `month_days`. -/
def monthLoop : List ℕ → ℕ → ℕ → ℕ × ℕ
  | [], month, days => (month, days)
  | l :: ls, month, days => if days ≤ l then (month, days) else monthLoop ls (month + 1) (days - l)

/-- `seconds_to_gmt`, up to a number of passes of the first loop. -/
def secondsToGmt (passes : ℕ) (gmtTime : UInt32) : Option LocalTimeInfo :=
  let gmttime := gmtTime + 8 * 3600
  let second := gmttime % 60
  let gmttime := gmttime / 60
  let minute := gmttime % 60
  let gmttime := gmttime / 60
  let hour := gmttime % 24
  let gmttime := gmttime / 24
  let week := (gmttime % 7 + 3) % 7 + 1
  let gmttime := gmttime + 719162
  (Loop.runFor yearBody passes ((gmttime / 365).toNat, (gmttime % 365).toNat)).map fun s =>
    let year := s.1 + 1
    let days := s.2 + 1
    let leap := (year % 4 = 0 ∧ year % 100 ≠ 0) ∨ year % 400 = 0
    let r := monthLoop (if leap then monthDays.set 1 29 else monthDays) 1 days
    ⟨year, r.1, r.2, week.toNat, hour.toNat, minute.toNat, second.toNat⟩

def mktimeSecond (t : LocalTimeInfo) : UInt32 :=
  let year := t.year - 1
  let leapYears := year / 4 - year / 100 + year / 400
  let days := year * 365 + leapYears
  let days := days + (monthDays.take (t.month - 1)).sum
  let leap := (t.year % 4 = 0 ∧ t.year % 100 ≠ 0) ∨ t.year % 400 = 0
  let days := if 2 < t.month ∧ leap then days + 1 else days
  let days := days + t.day - 1
  (UInt32.ofNat days - 719162) * 24 * 3600 +
    UInt32.ofNat (t.hour * 3600 + t.minute * 60 + t.second) - 8 * 3600

def int2Bcd (bcd : ℤ) : ℤ := bcd + bcd.tdiv 10 * 6

/-- `bcd_2_int`, for what is in a register. -/
def bcd2Int (decimal : UInt8) : ℕ := decimal.toNat - (decimal.toNat >>> 4) * 6

/-- What `tkl_rtc_time_set` makes of a time. -/
def rtcPara (time : LocalTimeInfo) (rtc : RtcParameter) : RtcParameter :=
  { rtc with
    second := UInt8.ofInt (int2Bcd time.second)
    minute := UInt8.ofInt (int2Bcd time.minute)
    hour := UInt8.ofInt (int2Bcd time.hour)
    dayOfWeek := UInt8.ofInt time.week
    date := UInt8.ofInt (int2Bcd time.day)
    month := UInt8.ofInt (int2Bcd time.month)
    year := UInt8.ofInt (int2Bcd (time.year - 2000))
    amPm := 0
    displayFormat := 0 }

/-- `tkl_rtc_time_set`, with what `rtc_current_time_get` gives before and `rtc_init` stores. -/
def tklRtcTimeSet (passes : ℕ) (timeSec : UInt32) (rtc : RtcParameter) : Option RtcParameter :=
  (secondsToGmt passes timeSec).map fun time => rtcPara time rtc

/-- `tkl_rtc_time_get`, with what `rtc_current_time_get` gives. -/
def tklRtcTimeGet (rtc : RtcParameter) : UInt32 :=
  mktimeSecond
    { second := bcd2Int rtc.second
      minute := bcd2Int rtc.minute
      hour := bcd2Int rtc.hour
      week := rtc.dayOfWeek.toNat
      day := bcd2Int rtc.date
      month := bcd2Int rtc.month
      year := bcd2Int rtc.year + 2000 }

/-! ### What is to be so -/

/-- The first of January 1970. -/
def epoch : Date := ⟨1970, 0, 1, by decide, by decide, by decide⟩

/-- The first of January 2000. -/
def y2000 : Date := ⟨2000, 0, 1, by decide, by decide, by decide⟩

/-- The seconds in the zone UTC+8, from the beginning of the calendar on. -/
def localSeconds (timeSec : UInt32) : ℕ := 86400 * epoch.dayNumber + timeSec.toNat + 8 * 3600

/-- A number in BCD. -/
def bcd (n : ℕ) : ℕ := 16 * (n / 10) + n % 10

/-- The RTC shows a date and a time of day, which are those of an instant. -/
structure Shows (timeSec : UInt32) (rtc : RtcParameter) (d : Date) (hour minute second : ℕ) :
    Prop where
  hour_lt : hour < 24
  minute_lt : minute < 60
  second_lt : second < 60
  instant : 86400 * d.dayNumber + 3600 * hour + 60 * minute + second = localSeconds timeSec
  from2000 : 2000 ≤ d.year
  date : rtc.year.toNat = bcd (d.year - 2000) ∧ rtc.month.toNat = bcd d.month ∧
    rtc.date.toNat = bcd d.day ∧ rtc.dayOfWeek.toNat = d.weekday
  time : rtc.hour.toNat = bcd hour ∧ rtc.minute.toNat = bcd minute ∧ rtc.second.toNat = bcd second ∧
    rtc.amPm = 0 ∧ rtc.displayFormat = 0

/-- **The time goes round**: the loop ends, the RTC shows the date and the time of day of the instant,
and the instant is got back. -/
def RtcRight (timeSec : UInt32) (rtc : RtcParameter) : Prop :=
  ∃ passes rtc', tklRtcTimeSet passes timeSec rtc = some rtc' ∧
    (∃ d hour minute second, Shows timeSec rtc' d hour minute second) ∧
    tklRtcTimeGet rtc' = timeSec

/-! ### Dates -/

/-- What `month_days` is for a year. -/
theorem monthDays_eq (year : ℕ) :
    (if (year % 4 = 0 ∧ year % 100 ≠ 0) ∨ year % 400 = 0 then monthDays.set 1 29 else monthDays) =
      monthLengths year := by
  by_cases h : IsLeap year
  · rw [if_pos (show _ ∨ _ from h), monthLengths, if_pos h]
    rfl
  · rw [if_neg (show ¬ (_ ∨ _) from h), monthLengths, if_neg h]
    rfl

/-- The year is found. -/
theorem exists_yearLoop (g : ℕ) : ∃ passes r,
    Loop.runFor yearBody passes (g / 365, g % 365) = some r ∧
      daysUpTo r.1 + r.2 = g ∧ g < daysUpTo (r.1 + 1) := by
  refine Loop.exists_runFor (P := fun s => 365 * s.1 + s.2 = g ∧ g < daysUpTo (s.1 + 1)) Prod.fst
    ?_ ⟨Nat.div_add_mod g 365, ?_⟩
  · rintro ⟨year, days⟩ ⟨hg, hlt⟩
    by_cases hdays : days < leapYears year
    · -- Up to year 0 there is no leap year.
      have hyear : year - 1 + 1 = year := by
        cases year with
        | zero => exact absurd hdays (Nat.not_lt_zero _)
        | succ year => rfl
      refine .inr ⟨(year - 1, days + 365), if_pos hdays, ⟨?_, ?_⟩, ?_⟩
      · omega
      · rw [hyear, daysUpTo, ← hg]
        omega
      · omega
    · refine .inl ⟨(year, days - leapYears year), if_neg hdays, ?_, hlt⟩
      dsimp only at hg ⊢
      rw [daysUpTo]
      omega
  · rw [daysUpTo]
    omega

/-- The month is found. -/
theorem monthLoop_spec (ls : List ℕ) (month : ℕ) {days : ℕ} (hpos : 1 ≤ days)
    (hle : days ≤ ls.sum) : ∃ k, ∃ hk : k < ls.length, (monthLoop ls month days).1 = month + k ∧
      (monthLoop ls month days).2 ∈ Finset.Icc 1 ls[k] ∧
      (ls.take k).sum + (monthLoop ls month days).2 = days := by
  induction ls generalizing month days with
  | nil => exact absurd hle (by rw [List.sum_nil]; omega)
  | cons l ls ih =>
    rw [List.sum_cons] at hle
    rw [monthLoop]
    by_cases hl : days ≤ l
    · rw [if_pos hl]
      exact ⟨0, Nat.succ_pos _, rfl, Finset.mem_Icc.mpr ⟨hpos, hl⟩, Nat.zero_add _⟩
    · rw [if_neg hl]
      obtain ⟨k, hk, hmonth, hday, hsum⟩ := @ih (month + 1) (days - l) (by omega) (by omega)
      refine ⟨k + 1, Nat.succ_lt_succ hk, hmonth.trans (by omega), hday, ?_⟩
      rw [List.take_succ_cons, List.sum_cons]
      omega

/-- The date is found. -/
theorem exists_date {year days : ℕ} (hlt : daysUpTo year + days < daysUpTo (year + 1)) :
    ∃ d : Date, d.dayNumber = daysUpTo year + days ∧ d.year = year + 1 ∧
      d.month = (monthLoop (monthLengths (year + 1)) 1 (days + 1)).1 ∧
      d.day = (monthLoop (monthLengths (year + 1)) 1 (days + 1)).2 := by
  have hle : days + 1 ≤ (monthLengths (year + 1)).sum := by
    rw [sum_monthLengths]
    rw [daysUpTo_succ] at hlt
    omega
  obtain ⟨k, hk, hmonth, hday, hsum⟩ :=
    monthLoop_spec (monthLengths (year + 1)) 1 (Nat.le_add_left 1 days) hle
  refine ⟨⟨year + 1, k, _, Nat.le_add_left 1 year, hk, hday⟩, ?_, rfl, ?_, rfl⟩
  · have hpos := (Finset.mem_Icc.mp hday).1
    rw [Date.dayNumber_eq]
    dsimp only
    rw [Nat.add_sub_cancel]
    omega
  · rw [hmonth]
    exact Nat.add_comm k 1

/-- The seconds since 1970 in the zone, in 32 bits. -/
def zoneSeconds (timeSec : UInt32) : ℕ := (timeSec + 8 * 3600).toNat

section Parts

variable (z : UInt32)

theorem toNat_minute : (z / 60 % 60).toNat = z.toNat / 60 % 60 := by
  simp only [UInt32.toNat_mod, UInt32.toNat_div, UInt32.reduceToNat]

theorem toNat_hour : (z / 60 / 60 % 24).toNat = z.toNat / 3600 % 24 := by
  simp only [UInt32.toNat_mod, UInt32.toNat_div, UInt32.reduceToNat, Nat.div_div_eq_div_mul]

theorem toNat_days : (z / 60 / 60 / 24).toNat = z.toNat / 86400 := by
  simp only [UInt32.toNat_div, UInt32.reduceToNat, Nat.div_div_eq_div_mul]

theorem toNat_daysUpTo : (z / 60 / 60 / 24 + 719162).toNat = z.toNat / 86400 + 719162 := by
  have hlt := z.toNat_lt
  have hconst : UInt32.toNat 719162 = 719162 := rfl
  rw [UInt32.toNat_add, toNat_days, hconst]
  exact Nat.mod_eq_of_lt (by omega)

theorem toNat_week : ((z / 60 / 60 / 24 % 7 + 3) % 7 + 1).toNat =
    (z.toNat / 86400 + 719162) % 7 + 1 := by
  simp only [UInt32.toNat_mod, UInt32.toNat_add, toNat_days, UInt32.reduceToNat]
  omega

end Parts

/-- **`seconds_to_gmt` finds the Gregorian date** and the time of day. -/
theorem exists_secondsToGmt (timeSec : UInt32) : ∃ passes, ∃ d : Date,
    d.dayNumber = zoneSeconds timeSec / 86400 + 719162 ∧
      secondsToGmt passes timeSec = some ⟨d.year, d.month, d.day, d.weekday,
        zoneSeconds timeSec / 3600 % 24, zoneSeconds timeSec / 60 % 60, zoneSeconds timeSec % 60⟩ := by
  obtain ⟨passes, r, hrun, hr, hlt⟩ := exists_yearLoop (zoneSeconds timeSec / 86400 + 719162)
  obtain ⟨d, hd, hyear, hmonth, hday⟩ := exists_date (hr ▸ hlt)
  refine ⟨passes, d, hd.trans hr, ?_⟩
  have hweek : d.weekday = (zoneSeconds timeSec / 86400 + 719162) % 7 + 1 := by
    rw [Date.weekday, hd, hr]
  have h365 : UInt32.toNat 365 = 365 := rfl
  rw [secondsToGmt]
  dsimp only
  rw [toNat_minute, toNat_hour, toNat_week, UInt32.toNat_div, UInt32.toNat_mod, UInt32.toNat_mod,
    toNat_daysUpTo, ← zoneSeconds, h365, hrun, Option.map_some, monthDays_eq, hweek, hyear, hmonth,
    hday]
  rfl

/-- More passes do not change what is found. -/
theorem secondsToGmt_unique {m : ℕ} {a b : LocalTimeInfo}
    (ha : secondsToGmt m timeSec = some a) (hb : secondsToGmt n timeSec = some b) : a = b := by
  obtain ⟨r, hr, rfl⟩ := Option.map_eq_some_iff.mp ha
  obtain ⟨r', hr', rfl⟩ := Option.map_eq_some_iff.mp hb
  rw [Loop.runFor_unique hr hr']

/-- The days of the months before, with the leap day added at the end. -/
theorem sum_take_monthDays (year : ℕ) {k : ℕ} (hk : k < 12) :
    (monthDays.take k).sum + (if 2 < k + 1 ∧ IsLeap year then 1 else 0) =
      ((monthLengths year).take k).sum := by
  unfold monthLengths monthDays
  by_cases h : IsLeap year
  · interval_cases k <;> simp [h]
  · interval_cases k <;> simp [h]

/-- The days that `mktime_second` counts. -/
theorem mktimeDays_eq (d : Date) {k : ℕ} (hk : k = (d.year - 1) * 365 +
      ((d.year - 1) / 4 - (d.year - 1) / 100 + (d.year - 1) / 400) +
        (monthDays.take (d.month - 1)).sum) :
    (if 2 < d.month ∧ IsLeap d.year then k + 1 else k) + d.day - 1 = d.dayNumber := by
  have hsum := sum_take_monthDays d.year d.month_lt
  have hpos := (Finset.mem_Icc.mp d.day_mem).1
  have hbefore : d.month - 1 = d.monthsBefore := Nat.add_sub_cancel d.monthsBefore 1
  rw [hbefore] at hk
  rw [Date.dayNumber_eq, daysUpTo, leapYears, ← hsum, Date.month]
  split
  · omega
  · omega

/-- `mktime_second` of a date. -/
theorem mktimeSecond_eq (d : Date) (week hour minute second : ℕ) :
    mktimeSecond ⟨d.year, d.month, d.day, week, hour, minute, second⟩ =
      (UInt32.ofNat d.dayNumber - 719162) * 24 * 3600 +
        UInt32.ofNat (hour * 3600 + minute * 60 + second) - 8 * 3600 := by
  rw [← mktimeDays_eq d rfl]
  rfl

/-- **`mktime_second` undoes `seconds_to_gmt`.** -/
theorem mktimeSecond_secondsToGmt {passes : ℕ} {time : LocalTimeInfo}
    (h : secondsToGmt passes timeSec = some time) : mktimeSecond time = timeSec := by
  obtain ⟨n, d, hd, htime⟩ := exists_secondsToGmt timeSec
  obtain rfl := secondsToGmt_unique htime h
  have hparts : zoneSeconds timeSec / 86400 * 24 * 3600 + (zoneSeconds timeSec / 3600 % 24 * 3600 +
      zoneSeconds timeSec / 60 % 60 * 60 + zoneSeconds timeSec % 60) = zoneSeconds timeSec := by
    omega
  have hdays : UInt32.ofNat d.dayNumber - 719162 = UInt32.ofNat (zoneSeconds timeSec / 86400) := by
    rw [hd, ofNat_add]
    exact UInt32.add_sub_cancel _ _
  have hseconds : UInt32.ofNat (zoneSeconds timeSec / 86400) * 24 * 3600 =
      UInt32.ofNat (zoneSeconds timeSec / 86400 * 24 * 3600) := by
    rw [ofNat_mul, ofNat_mul]
    rfl
  rw [mktimeSecond_eq, hdays, hseconds, ← ofNat_add, hparts, zoneSeconds, UInt32.ofNat_toNat]
  exact UInt32.add_sub_cancel _ _

/-! ### Registers -/

/-- A number that fits into a register. -/
theorem toNat_ofInt (hn : n < 256) : (UInt8.ofInt n).toNat = n := by
  have hmod : ((n : ℤ) % 2 ^ 8).toNat = n := by omega
  rw [UInt8.ofInt, hmod, UInt8.toNat_ofNat', Nat.mod_eq_of_lt hn]

/-- `int_2_bcd` into a register. -/
theorem toNat_int2Bcd (hn : n < 160) : (UInt8.ofInt (int2Bcd n)).toNat = bcd n := by
  have hcast : int2Bcd n = (n + n / 10 * 6 : ℕ) := rfl
  rw [hcast, toNat_ofInt (by omega), bcd]
  omega

/-- `bcd_2_int` undoes it. -/
theorem bcd2Int_of_bcd {v : UInt8} (hv : v.toNat = bcd n) : bcd2Int v = n := by
  rw [bcd2Int, hv, Nat.shiftRight_eq_div_pow, bcd]
  omega

theorem dayNumber_epoch : epoch.dayNumber = 719162 := by
  rw [Date.dayNumber_eq]
  rfl

theorem dayNumber_y2000 : y2000.dayNumber = 730119 := by
  rw [Date.dayNumber_eq]
  rfl

/-- What the RTC shows is what `mktime_second` gets. -/
theorem tklRtcTimeGet_of_shows {rtc : RtcParameter} {d : Date}
    {hour minute second : ℕ} (h : Shows timeSec rtc d hour minute second) :
    tklRtcTimeGet rtc = mktimeSecond ⟨d.year, d.month, d.day, d.weekday, hour, minute, second⟩ := by
  obtain ⟨hyear, hmonth, hday, hweek⟩ := h.date
  obtain ⟨hhour, hminute, hsecond, -⟩ := h.time
  rw [tklRtcTimeGet, bcd2Int_of_bcd hyear, bcd2Int_of_bcd hmonth, bcd2Int_of_bcd hday,
    bcd2Int_of_bcd hhour, bcd2Int_of_bcd hminute, bcd2Int_of_bcd hsecond, hweek,
    Nat.sub_add_cancel h.from2000]

/-- The time goes round as long as the seconds in the zone do not wrap. -/
theorem rtcRight_of_lt (h2000 : 86400 * y2000.dayNumber ≤ localSeconds timeSec)
    (hlt : timeSec.toNat < 2 ^ 32 - 8 * 3600) (rtc : RtcParameter) : RtcRight timeSec rtc := by
  obtain ⟨passes, d, hd, htime⟩ := exists_secondsToGmt timeSec
  have hzone : zoneSeconds timeSec = timeSec.toNat + 8 * 3600 := by
    rw [zoneSeconds, UInt32.toNat_add]
    exact Nat.mod_eq_of_lt (show timeSec.toNat + 8 * 3600 < 2 ^ 32 by omega)
  rw [localSeconds, dayNumber_epoch, dayNumber_y2000] at h2000
  have hyear : 1999 < d.year := Date.lt_year (show 730119 ≤ d.dayNumber by omega)
  have hyear' : d.year ≤ 2107 := Date.year_le (show d.dayNumber < 769565 by omega)
  have hset := congrArg (Option.map fun time => rtcPara time rtc) htime
  have hinstant : 86400 * d.dayNumber + 3600 * (zoneSeconds timeSec / 3600 % 24) +
      60 * (zoneSeconds timeSec / 60 % 60) + zoneSeconds timeSec % 60 = localSeconds timeSec := by
    rw [localSeconds, dayNumber_epoch]
    omega
  have hhour : zoneSeconds timeSec / 3600 % 24 < 24 := Nat.mod_lt _ (Nat.succ_pos _)
  have hminute : zoneSeconds timeSec / 60 % 60 < 60 := Nat.mod_lt _ (Nat.succ_pos _)
  have hsecond : zoneSeconds timeSec % 60 < 60 := Nat.mod_lt _ (Nat.succ_pos _)
  have hfrom : ((d.year : ℤ) - 2000) = (d.year - 2000 : ℕ) := by omega
  have hmonth := d.month_le
  have hday := d.day_le
  have hweek : d.weekday < 8 := Nat.succ_lt_succ (Nat.mod_lt _ (Nat.succ_pos 6))
  have hdate : (UInt8.ofInt (int2Bcd ((d.year : ℤ) - 2000))).toNat = bcd (d.year - 2000) ∧
      (UInt8.ofInt (int2Bcd d.month)).toNat = bcd d.month ∧
      (UInt8.ofInt (int2Bcd d.day)).toNat = bcd d.day ∧
      (UInt8.ofInt d.weekday).toNat = d.weekday := by
    rw [hfrom]
    exact ⟨toNat_int2Bcd (by omega), toNat_int2Bcd (by omega), toNat_int2Bcd (by omega),
      toNat_ofInt (by omega)⟩
  generalize htime' : LocalTimeInfo.mk d.year d.month d.day d.weekday _ _ _ = time at hset
  have hshows : Shows timeSec (rtcPara time rtc) d (zoneSeconds timeSec / 3600 % 24)
      (zoneSeconds timeSec / 60 % 60) (zoneSeconds timeSec % 60) := htime' ▸
    ⟨hhour, hminute, hsecond, hinstant, hyear, hdate, toNat_int2Bcd (hhour.trans (by omega)),
      toNat_int2Bcd (hminute.trans (by omega)), toNat_int2Bcd (hsecond.trans (by omega)), rfl, rfl⟩
  refine ⟨passes, _, hset, ⟨d, _, _, _, hshows⟩, ?_⟩
  rw [tklRtcTimeGet_of_shows hshows]
  exact mktimeSecond_secondsToGmt htime

/-- Where they wrap it does not. -/
theorem not_rtcRight_of_le (hle : 2 ^ 32 - 8 * 3600 ≤ timeSec.toNat)
    (rtc : RtcParameter) : ¬ RtcRight timeSec rtc := by
  rintro ⟨n, rtc', hset, ⟨d', hour, minute, second, hshows⟩, -⟩
  obtain ⟨passes, d, hd, htime⟩ := exists_secondsToGmt timeSec
  obtain ⟨time, htime', rfl⟩ := Option.map_eq_some_iff.mp hset
  obtain rfl := secondsToGmt_unique htime htime'
  have hbound := timeSec.toNat_lt
  have hzone : zoneSeconds timeSec = timeSec.toNat + 8 * 3600 - 2 ^ 32 := by
    rw [zoneSeconds, UInt32.toNat_add]
    exact (Nat.mod_eq_sub_mod (show 2 ^ 32 ≤ timeSec.toNat + 8 * 3600 by omega)).trans
      (Nat.mod_eq_of_lt (by omega))
  -- The date is found in 1970, and the year does not fit into two digits from 2000 on.
  have hyear : d.year = 1970 := by
    have hlow : 1969 < d.year := Date.lt_year (show 719162 ≤ d.dayNumber by omega)
    have hhigh : d.year ≤ 1970 := Date.year_le (show d.dayNumber < 719527 by omega)
    omega
  have hinstant := hshows.instant
  rw [localSeconds, dayNumber_epoch] at hinstant
  have hyear' : d'.year ≤ 2107 := Date.year_le (show d'.dayNumber < 769565 by omega)
  have hregister : (208 : ℕ) = bcd (d'.year - 2000) := by
    have hshown := hshows.date.1
    rw [rtcPara, hyear] at hshown
    exact hshown
  rw [bcd] at hregister
  omega

/-- **The time goes round**, for an instant from the beginning of the year 2000 on in the zone,
exactly where its seconds in the zone fit into 32 bits. -/
theorem rtcRight_iff {timeSec : UInt32} (h : 86400 * y2000.dayNumber ≤ localSeconds timeSec)
    (rtc : RtcParameter) : RtcRight timeSec rtc ↔ timeSec.toNat < 2 ^ 32 - 8 * 3600 := by
  constructor
  · intro hright
    by_contra hnot
    exact not_rtcRight_of_le (Nat.le_of_not_lt hnot) rtc hright
  · intro hlt
    exact rtcRight_of_lt h hlt rtc

/-- The RTC after `tkl_rtc_init`, with some prescalers. -/
def rtcStart : RtcParameter := ⟨0x23, 1, 1, 7, 0, 0, 0, 0x7F, 0xFF, 0, 0⟩

/-- The time goes round in the first second of the year 2000 in the zone, and in the last second that
fits. -/
theorem rtcRight_iff_twoTimes :
    (RtcRight 946656000 rtcStart ↔ (946656000 : UInt32).toNat < 2 ^ 32 - 8 * 3600) ∧
      (RtcRight 4294938495 rtcStart ↔ (4294938495 : UInt32).toNat < 2 ^ 32 - 8 * 3600) :=
  ⟨rtcRight_iff (by rw [localSeconds, dayNumber_epoch, dayNumber_y2000]; decide) rtcStart,
    rtcRight_iff (by rw [localSeconds, dayNumber_epoch, dayNumber_y2000]; decide) rtcStart⟩

/-- In the last second of 32 bits it does not. -/
theorem not_rtcRight_last :
    86400 * y2000.dayNumber ≤ localSeconds 0xFFFFFFFF ∧ ¬ RtcRight 0xFFFFFFFF rtcStart := by
  refine ⟨?_, not_rtcRight_of_le (by decide) rtcStart⟩
  rw [localSeconds, dayNumber_epoch, dayNumber_y2000]
  decide

end Tkl

end Gd32
