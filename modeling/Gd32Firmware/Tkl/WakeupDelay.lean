import Gd32Firmware.Config
import Gd32Firmware.Tkl.Rtc
import Mathlib.Data.Nat.ModEq

/-!
# The delay of the wake-up alarm

`rtc_wakeup_set` takes a delay in milliseconds, adds its seconds to the time of day that the RTC shows
and programs the alarm for the sum, with the date masked: the alarm goes off at this time of any day.

The hours of the sum are taken modulo 24, so the alarm is for the right time of day whatever the delay
is; but it goes off when this time of day comes first, which is within a day. A longer delay is not
refused, as one below a second is (`Wakeup.rightDelay_iff`).
-/

namespace Gd32.Tkl

open UInt32

namespace Wakeup

/-! ### The code -/

/-- `int_2_bcd`, for what is not negative. -/
def int2Bcd (val : ℕ) : ℕ := (val / 10) <<< 4 ||| val % 10

/-- `bcd_2_int`, for what is in a register. -/
def bcd2Int (bcd : UInt8) : ℕ := (bcd.toNat >>> 4) * 10 + (bcd.toNat &&& 0x0F)

/-- `rtc_alarm_struct`. -/
structure RtcAlarm where
  alarmMask : UInt32
  /-- `RTC_ALARM_DATE_SELECTED` is 0. -/
  weekdayOrDate : UInt32
  alarmDay : UInt8
  alarmHour : UInt8
  alarmMinute : UInt8
  alarmSecond : UInt8
  /-- `RTC_AM` is 0. -/
  amPm : UInt32

def rtcAlarmDateMask : UInt32 := 0x80000000

def rtcAlarmHourMask : UInt32 := 0x00800000

def rtcAlarmMinuteMask : UInt32 := 0x00008000

def rtcAlarmSecondMask : UInt32 := 0x00000080

/-- What `rtc_wakeup_set` reads of `TUYA_WAKEUP_SOURCE_RTC_T`. -/
structure RtcCfg where
  rtcNum : ℕ
  ms : UInt32
  cb : Option ℕ
  args : ℕ

/-- The alarm, and the variables of `tkl_wakeup.c` for it. -/
structure RtcWakeup where
  /-- `RTC_ALARM0`, as it is programmed. -/
  alarm : RtcAlarm
  /-- The alarm is enabled, with its interrupt. -/
  enabled : Bool
  rtcWakeupCb : Option ℕ
  rtcWakeupArgs : ℕ
  rtcWakeupPort : ℕ

/-- The alarm for a delay in seconds. -/
def rtcAlarm (now : RtcParameter) (delayS : UInt32) : RtcAlarm :=
  let sec := UInt32.ofNat (bcd2Int now.second) + delayS
  let min := UInt32.ofNat (bcd2Int now.minute) + sec / 60
  let sec := sec % 60
  let hour := UInt32.ofNat (bcd2Int now.hour) + min / 60
  let min := min % 60
  let hour := hour % 24
  { alarmMask := rtcAlarmDateMask
    weekdayOrDate := 0
    alarmDay := now.date
    alarmHour := UInt8.ofNat (int2Bcd hour.toNat)
    alarmMinute := UInt8.ofNat (int2Bcd min.toNat)
    alarmSecond := UInt8.ofNat (int2Bcd sec.toNat)
    amPm := 0 }

/-- `rtc_wakeup_set`, with what `rtc_current_time_get` gives. -/
def rtcWakeupSet (cfg : RtcCfg) (now : RtcParameter) (s : RtcWakeup) :
    Option OprtErr × RtcWakeup :=
  if cfg.rtcNum ≠ 0 then (some .invalidParm, s)
  else if cfg.ms < 1000 then (some .notSupported, s)
  else
    (none,
      { alarm := rtcAlarm now (cfg.ms / 1000)
        enabled := true
        rtcWakeupCb := cfg.cb
        rtcWakeupArgs := cfg.args
        rtcWakeupPort := cfg.rtcNum })

/-! ### What is to be so -/

/-- A time of day. -/
@[ext]
structure TimeOfDay where
  hour : ℕ
  minute : ℕ
  second : ℕ
  hour_lt : hour < 24
  minute_lt : minute < 60
  second_lt : second < 60

/-- The seconds from midnight on. -/
def TimeOfDay.seconds (t : TimeOfDay) : ℕ := 3600 * t.hour + 60 * t.minute + t.second

/-- The time of day some seconds after a midnight. -/
def timeOfDay (n : ℕ) : TimeOfDay where
  hour := n / 3600 % 24
  minute := n / 60 % 60
  second := n % 60
  hour_lt := Nat.mod_lt _ (by omega)
  minute_lt := Nat.mod_lt _ (by omega)
  second_lt := Nat.mod_lt _ (by omega)

/-- The time of day some seconds later. -/
def TimeOfDay.later (t : TimeOfDay) (n : ℕ) : TimeOfDay := timeOfDay (t.seconds + n)

/-- The RTC shows a time of day. -/
structure ShowsTime (now : RtcParameter) (t : TimeOfDay) : Prop where
  hour : now.hour.toNat = bcd t.hour
  minute : now.minute.toNat = bcd t.minute
  second : now.second.toNat = bcd t.second

/-- The fields are a time of day. -/
def RtcAlarm.Valid (a : RtcAlarm) : Prop :=
  ∃ t : TimeOfDay, a.alarmHour.toNat = bcd t.hour ∧ a.alarmMinute.toNat = bcd t.minute ∧
    a.alarmSecond.toNat = bcd t.second ∧ a.amPm = 0

/-- The alarm is for a date and a time of day: what is not masked is equal. -/
structure RtcAlarm.Matches (a : RtcAlarm) (date : ℕ) (t : TimeOfDay) : Prop where
  date : a.alarmMask &&& rtcAlarmDateMask = 0 → a.alarmDay.toNat = date
  hour : a.alarmMask &&& rtcAlarmHourMask = 0 → a.alarmHour.toNat = bcd t.hour ∧ a.amPm = 0
  minute : a.alarmMask &&& rtcAlarmMinuteMask = 0 → a.alarmMinute.toNat = bcd t.minute
  second : a.alarmMask &&& rtcAlarmSecondMask = 0 → a.alarmSecond.toNat = bcd t.second

/-- It is so for the first time after some seconds; what is so now does not count. -/
def FirstAfter (P : ℕ → Prop) (n : ℕ) : Prop := 0 < n ∧ P n ∧ ∀ k, 0 < k → k < n → ¬ P k

/-- **The delay is kept**: if it is accepted, the alarm is one and goes off first after the whole
seconds of the delay, whatever the dates are. -/
def RightDelay (cfg : RtcCfg) (now : RtcParameter) (t : TimeOfDay) : Prop :=
  ∀ s s', rtcWakeupSet cfg now s = (none, s') →
    s'.alarm.Valid ∧ ∀ dates : ℕ → ℕ,
      FirstAfter (fun k => s'.alarm.Matches (dates k) (t.later k)) (cfg.ms.toNat / 1000)

/-! ### BCD -/

theorem bcd_inj {m n : ℕ} (h : bcd m = bcd n) : m = n := by
  unfold bcd at h
  omega

theorem int2Bcd_eq (n : ℕ) : int2Bcd n = bcd n := by
  rw [int2Bcd, ← Nat.shiftLeft_add_eq_or_of_lt (show n % 10 < 2 ^ 4 by omega), Nat.shiftLeft_eq, bcd]
  omega

/-- `int_2_bcd` into a register. -/
theorem toNat_int2Bcd {n : ℕ} (hn : n < 100) : (UInt8.ofNat (int2Bcd n)).toNat = bcd n := by
  rw [int2Bcd_eq, UInt8.toNat_ofNat_of_lt']
  unfold bcd
  exact show _ < 256 by omega

/-- `bcd_2_int` undoes it. -/
theorem bcd2Int_of_bcd {v : UInt8} {n : ℕ} (hv : v.toNat = bcd n) : bcd2Int v = n := by
  rw [bcd2Int, hv, Nat.shiftRight_eq_div_pow, show (0x0F : ℕ) = 2 ^ 4 - 1 from rfl,
    Nat.and_two_pow_sub_one_eq_mod, bcd]
  omega

/-! ### The first time in a cycle -/

/-- What comes back with a period comes first within one. -/
theorem firstAfter_mod_iff {N : ℕ} (hN : 0 < N) (s n : ℕ) :
    FirstAfter (fun k => (s + k) % N = (s + n) % N) n ↔ 0 < n ∧ n ≤ N := by
  refine and_congr_right fun hpos => ⟨?_, ?_⟩
  · rintro ⟨-, hfirst⟩
    -- A period before, it is so already.
    by_contra hlt
    rw [not_le] at hlt
    refine hfirst (n - N) (Nat.sub_pos_of_lt hlt) (Nat.sub_lt hpos hN) ?_
    have hsum : s + n = s + (n - N) + N := by omega
    rw [hsum, Nat.add_mod_right]
  · intro hle
    refine ⟨rfl, ?_⟩
    intro k hk hlt heq
    have hmod : k ≡ n [MOD N] := Nat.ModEq.add_left_cancel' s heq
    have hdvd : N ∣ n - k := (Nat.modEq_iff_dvd' hlt.le).mp hmod
    have hle' := Nat.le_of_dvd (Nat.sub_pos_of_lt hlt) hdvd
    omega

theorem timeOfDay_eq_iff (m n : ℕ) : timeOfDay m = timeOfDay n ↔ m % 86400 = n % 86400 := by
  rw [TimeOfDay.ext_iff]
  simp only [timeOfDay]
  omega

/-! ### The alarm -/

section Alarm

variable {now : RtcParameter} {t : TimeOfDay} {delayS : UInt32}

/-- The alarm is for the time of day after the delay. -/
theorem rtcAlarm_fields (hnow : ShowsTime now t) (hdelay : delayS.toNat < 2 ^ 31) :
    (rtcAlarm now delayS).alarmHour.toNat = bcd (t.later delayS.toNat).hour ∧
      (rtcAlarm now delayS).alarmMinute.toNat = bcd (t.later delayS.toNat).minute ∧
      (rtcAlarm now delayS).alarmSecond.toNat = bcd (t.later delayS.toNat).second := by
  obtain ⟨hour, minute, second, hhour, hminute, hsecond⟩ := t
  have hsec : (UInt32.ofNat second + delayS).toNat = second + delayS.toNat := by
    rw [UInt32.toNat_add, toNat_ofNat_of_lt' (show second < 2 ^ 32 by omega)]
    exact Nat.mod_eq_of_lt (by omega)
  have hmin : (UInt32.ofNat minute + (UInt32.ofNat second + delayS) / 60).toNat =
      minute + (second + delayS.toNat) / 60 := by
    rw [UInt32.toNat_add, toNat_ofNat_of_lt' (show minute < 2 ^ 32 by omega),
      UInt32.toNat_div, hsec]
    exact Nat.mod_eq_of_lt (by simp only [UInt32.reduceToNat]; omega)
  have hhr : (UInt32.ofNat hour +
      (UInt32.ofNat minute + (UInt32.ofNat second + delayS) / 60) / 60).toNat =
      hour + (minute + (second + delayS.toNat) / 60) / 60 := by
    rw [UInt32.toNat_add, toNat_ofNat_of_lt' (show hour < 2 ^ 32 by omega),
      UInt32.toNat_div, hmin]
    exact Nat.mod_eq_of_lt (by simp only [UInt32.reduceToNat]; omega)
  simp only [rtcAlarm, bcd2Int_of_bcd hnow.hour, bcd2Int_of_bcd hnow.minute,
    bcd2Int_of_bcd hnow.second, TimeOfDay.later, timeOfDay, TimeOfDay.seconds, UInt32.toNat_mod,
    UInt32.reduceToNat, hsec, hmin, hhr]
  refine ⟨?_, ?_, ?_⟩
  · rw [toNat_int2Bcd (by omega)]
    congr 1
    omega
  · rw [toNat_int2Bcd (by omega)]
    congr 1
    omega
  · rw [toNat_int2Bcd (by omega)]
    congr 1
    omega

theorem rtcAlarm_valid (hnow : ShowsTime now t) (hdelay : delayS.toNat < 2 ^ 31) :
    (rtcAlarm now delayS).Valid := by
  obtain ⟨hhour, hminute, hsecond⟩ := rtcAlarm_fields hnow hdelay
  exact ⟨_, hhour, hminute, hsecond, rfl⟩

/-- The alarm goes off at the time of day after the delay, on any day. -/
theorem matches_rtcAlarm_iff (hnow : ShowsTime now t) (hdelay : delayS.toNat < 2 ^ 31) (date : ℕ)
    (u : TimeOfDay) : (rtcAlarm now delayS).Matches date u ↔ u = t.later delayS.toNat := by
  obtain ⟨hhour, hminute, hsecond⟩ := rtcAlarm_fields hnow hdelay
  have hmask : rtcAlarmDateMask ≠ 0 ∧ rtcAlarmDateMask &&& rtcAlarmHourMask = 0 ∧
      rtcAlarmDateMask &&& rtcAlarmMinuteMask = 0 ∧
      rtcAlarmDateMask &&& rtcAlarmSecondMask = 0 := by decide
  constructor
  · intro h
    have hu := (h.hour hmask.2.1).1
    have hu' := h.minute hmask.2.2.1
    have hu'' := h.second hmask.2.2.2
    exact TimeOfDay.ext (bcd_inj (hu.symm.trans hhour)) (bcd_inj (hu'.symm.trans hminute))
      (bcd_inj (hu''.symm.trans hsecond))
  · rintro rfl
    constructor
    · intro hzero
      exact absurd ((UInt32.and_self).symm.trans hzero) hmask.1
    · exact fun _ => ⟨hhour, rfl⟩
    · exact fun _ => hminute
    · exact fun _ => hsecond

/-- The alarm goes off first after the delay if that is no longer than a day. -/
theorem firstAfter_rtcAlarm_iff (hnow : ShowsTime now t) (hdelay : delayS.toNat < 2 ^ 31)
    (dates : ℕ → ℕ) :
    FirstAfter (fun k => (rtcAlarm now delayS).Matches (dates k) (t.later k)) delayS.toNat ↔
      0 < delayS.toNat ∧ delayS.toNat ≤ 86400 := by
  rw [← firstAfter_mod_iff (show 0 < 86400 by omega) t.seconds delayS.toNat]
  simp only [matches_rtcAlarm_iff hnow hdelay, TimeOfDay.later, timeOfDay_eq_iff]

end Alarm

/-- **The delay is kept up to a day**: a port that there is not and a delay below a second are
refused, no other delay is, and from a day and a second on the alarm goes off too early. -/
theorem rightDelay_iff (cfg : RtcCfg) {now : RtcParameter} {t : TimeOfDay}
    (hnow : ShowsTime now t) :
    RightDelay cfg now t ↔ cfg.rtcNum ≠ 0 ∨ cfg.ms.toNat < 86401000 := by
  have hdiv : (cfg.ms / 1000).toNat = cfg.ms.toNat / 1000 := UInt32.toNat_div _ _
  have hms := cfg.ms.toNat_lt
  have hdelay : (cfg.ms / 1000).toNat < 2 ^ 31 := by omega
  by_cases hport : cfg.rtcNum = 0
  swap
  · refine iff_of_true ?_ (.inl hport)
    intro s s' h
    rw [rtcWakeupSet, if_pos hport] at h
    cases h
  by_cases hshort : cfg.ms < 1000
  · have hlt : cfg.ms.toNat < 1000 := lt_iff_toNat_lt.mp hshort
    refine iff_of_true ?_ (.inr (by omega))
    intro s s' h
    rw [rtcWakeupSet, if_neg (not_not_intro hport), if_pos hshort] at h
    cases h
  have hlong : 1000 ≤ cfg.ms.toNat := not_lt.mp fun h => hshort (lt_iff_toNat_lt.mpr h)
  have hset : ∀ s, ∃ s', rtcWakeupSet cfg now s = (none, s') ∧
      s'.alarm = rtcAlarm now (cfg.ms / 1000) := by
    intro s
    rw [rtcWakeupSet, if_neg (not_not_intro hport), if_neg hshort]
    exact ⟨_, rfl, rfl⟩
  constructor
  · intro h
    obtain ⟨s', hs', halarm⟩ := hset ⟨rtcAlarm now 0, false, none, 0, 0⟩
    have hfirst := (h _ s' hs').2 (fun _ => 0)
    rw [halarm, ← hdiv, firstAfter_rtcAlarm_iff hnow hdelay] at hfirst
    exact .inr (by omega)
  · rintro (h | h)
    · exact absurd hport h
    intro s s' hs
    obtain ⟨s'', hs'', halarm⟩ := hset s
    obtain rfl : s'' = s' := congrArg Prod.snd (hs''.symm.trans hs)
    rw [halarm]
    refine ⟨rtcAlarm_valid hnow hdelay, ?_⟩
    intro dates
    rw [← hdiv, firstAfter_rtcAlarm_iff hnow hdelay]
    omega

/-- An RTC that shows 23:59:58. -/
def lateEvening : RtcParameter := ⟨0x26, 1, 1, 4, 0x23, 0x59, 0x58, 0x7F, 0xFF, 0, 0⟩

/-- A delay of five seconds over midnight. -/
theorem rightDelay_iff_fiveSeconds :
    RightDelay ⟨0, 5000, none, 0⟩ lateEvening (timeOfDay 86398) :=
  (rightDelay_iff ⟨0, 5000, none, 0⟩ ⟨by decide, by decide, by decide⟩).mpr (.inr (by decide))

/-- A delay of a day and a second is one of a second. -/
theorem not_rightDelay_dayAndSecond :
    ¬ RightDelay ⟨0, 86401000, none, 0⟩ lateEvening (timeOfDay 86398) := by
  intro h
  have hfirst := (h ⟨rtcAlarm lateEvening 0, false, none, 0, 0⟩ _ rfl).2 (fun _ => 0)
  -- A second later it is 23:59:59, which is what the alarm is for.
  refine hfirst.2.2 1 Nat.one_pos (by decide) ?_
  exact ⟨fun h => absurd h (by decide), fun _ => by decide, fun _ => by decide, fun _ => by decide⟩

end Wakeup

end Gd32.Tkl
