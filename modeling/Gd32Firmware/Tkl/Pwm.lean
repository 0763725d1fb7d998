import Mathlib.Algebra.Group.Nat.Defs
import Mathlib.Data.List.Basic
import Mathlib.Data.Nat.Notation
import Mathlib.Logic.Function.Basic
import Mathlib.Tactic.Common

/-!
# The periods of the PWM channels

`tkl_pwm_start` makes a prescaler and a number of ticks of a frequency, and a compare value of the duty
ratio. A timer that counts up from 0 and starts again above its reload value has a period of one tick
more than that value; one that counts up and down, of twice the value.

The code programs both with the ticks less one. Counting up, the frequency is met to less than a tick
and the active time is the ratio of the period, rounded down; counting up and down, the period is about
twice as long as it should be, and the active time half of what it should be
(`pwmRight_iff`). Only the first channel counts up and down: the timers of the other two have
no such mode, and `timer_init` does not give it to them.
-/

namespace Gd32.Tkl

open List Function UInt32

/-! ### The code -/

/-- `TUYA_PWM_POLARITY_E`. -/
inductive PwmPolarity where
  | negative
  | positive

/-- `TUYA_PWM_COUNT_E`. -/
inductive PwmCount where
  | up
  | upAndDown
  deriving DecidableEq

/-- `TUYA_PWM_BASE_CFG_T`. -/
structure PwmCfg where
  polarity : PwmPolarity
  countMode : PwmCount
  /-- The active part of `cycle`. -/
  duty : UInt32
  /-- The whole, which is `PWM_DUTY_FULL_SCALE` if this is 0. -/
  cycle : UInt32
  frequency : UInt32

/-- The timers of `pwm_dev`. -/
inductive PwmTimer where
  | timer0
  | timer15
  | timer16
  deriving DecidableEq

/-- The registers of a timer with one channel, as far as `tkl_pwm_start` writes them. -/
structure TimerRegs where
  psc : UInt16
  car : UInt32
  ch0cv : UInt32
  /-- `TIMER_CTL0_CAM`: the timer counts up and down. -/
  cam : Bool
  ch0p : PwmPolarity
  cen : Bool

/-- After `timer_deinit`. -/
def timerDeinit : TimerRegs := ⟨0, 0, 0, false, .positive, false⟩

/-- `timer_init`, for an aligned mode, a prescaler and a period. -/
def timerInit (timer : PwmTimer) (alignedmode : Bool) (prescaler period : UInt32) (r : TimerRegs) :
    TimerRegs :=
  { r with
    psc := prescaler.toUInt16
    cam := if timer = .timer0 then alignedmode else r.cam
    car := period }

def pwmDutyFullScale : UInt32 := 10000

def pwmPeriodTicksMax : UInt32 := 0x10000

/-- `pwm_period_ticks`: the divisor and the ticks, unless these would be 0. -/
def pwmPeriodTicks (systemCoreClock frequency : UInt32) : Option (UInt32 × UInt32) :=
  if frequency = 0 ∨ systemCoreClock < frequency then none
  else
    let div := systemCoreClock / frequency / pwmPeriodTicksMax + 1
    if pwmPeriodTicksMax < div then none
    else
      let ticks := systemCoreClock / div / frequency
      if ticks = 0 then none else some (div, ticks)

/-- What `duty` is a part of. -/
def PwmCfg.scale (cfg : PwmCfg) : UInt32 := if cfg.cycle ≠ 0 then cfg.cycle else pwmDutyFullScale

def pwmPulseTicks (cfg : PwmCfg) (periodTicks : UInt32) : UInt32 :=
  let den := cfg.scale
  if den = 0 then 0
  else
    let num := if den < cfg.duty then den else cfg.duty
    (periodTicks.toUInt64 * num.toUInt64 / den.toUInt64).toUInt32

/-- The timers of the channels. -/
def pwmTimer : List PwmTimer := [.timer0, .timer15, .timer16]

/-- `pwm_dev`, with the registers of the timers and `pwm_vote`. -/
structure Pwm where
  cfg : ℕ → PwmCfg
  regs : ℕ → TimerRegs
  vote : ℕ → Bool

/-- `tkl_pwm_init`; no result is `OPRT_OS_ADAPTER_PWM_INVALID_PARM`. -/
def tklPwmInit (systemCoreClock : UInt32) (chId : ℕ) (cfg : PwmCfg) (s : Pwm) : Option Pwm :=
  if pwmTimer.length ≤ chId then none
  else
    match pwmPeriodTicks systemCoreClock cfg.frequency with
    | none => none
    | some _ =>
      if cfg.scale < cfg.duty then none
      else some { s with cfg := update s.cfg chId cfg }

/-- `tkl_pwm_start`; the registers that are left when it fails are not needed. -/
def tklPwmStart (systemCoreClock : UInt32) (chId : ℕ) (s : Pwm) : Option Pwm :=
  match pwmTimer[chId]? with
  | none => none
  | some timer =>
    let cfg := s.cfg chId
    match pwmPeriodTicks systemCoreClock cfg.frequency with
    | none => none
    | some (psc, periodTicks) =>
      let r := timerInit timer (cfg.countMode == .upAndDown) (psc - 1) (periodTicks - 1) timerDeinit
      some { s with
        regs := update s.regs chId
          { r with ch0p := cfg.polarity, ch0cv := pwmPulseTicks cfg periodTicks, cen := true }
        vote := update s.vote chId true }

/-! ### What is to be so -/

/-- The values of the counter in one period, a tick each. -/
def TimerRegs.counts (r : TimerRegs) : List ℕ :=
  if r.cam then List.range r.car.toNat ++ (List.range r.car.toNat).map (r.car.toNat - ·)
  else List.range (r.car.toNat + 1)

/-- The cycles of the clock in a tick. -/
def TimerRegs.tick (r : TimerRegs) : ℕ := r.psc.toNat + 1

/-- The ticks of a period. -/
def TimerRegs.period (r : TimerRegs) : ℕ := r.counts.length

/-- The ticks of a period in which the output is active: the counter is below the compare value. -/
def TimerRegs.active (r : TimerRegs) : ℕ := r.counts.countP (· < r.ch0cv.toNat)

/-- Both calls accept the configuration, and these are the registers then. -/
def Drives (systemCoreClock : UInt32) (chId : ℕ) (cfg : PwmCfg) (r : TimerRegs) : Prop :=
  ∃ s s' s'', tklPwmInit systemCoreClock chId cfg s = some s' ∧
    tklPwmStart systemCoreClock chId s' = some s'' ∧ s''.regs chId = r

/-- The output is the one of the configuration. -/
structure Output (systemCoreClock : UInt32) (cfg : PwmCfg) (r : TimerRegs) : Prop where
  /-- The reload value and the compare value fit, as the prescaler does. -/
  fits : r.car.toNat < 2 ^ 16 ∧ r.ch0cv.toNat < 2 ^ 16
  /-- The period is shorter than a period of the frequency and a tick. -/
  notSlow : r.period * r.tick * cfg.frequency.toNat <
    systemCoreClock.toNat + r.tick * cfg.frequency.toNat
  /-- It is longer than a period of the frequency less a tick. -/
  notFast : systemCoreClock.toNat <
    r.period * r.tick * cfg.frequency.toNat + r.tick * cfg.frequency.toNat
  active : r.active = r.period * cfg.duty.toNat / cfg.scale.toNat
  zero : cfg.duty = 0 → r.active = 0
  full : cfg.duty = cfg.scale → r.active = r.period

/-- **The output matches the request**, and a smaller duty makes no longer active time. -/
def PwmRight (systemCoreClock : UInt32) (chId : ℕ) (cfg : PwmCfg) : Prop :=
  ∀ r, Drives systemCoreClock chId cfg r →
    Output systemCoreClock cfg r ∧
    ∀ duty r', duty ≤ cfg.duty → Drives systemCoreClock chId { cfg with duty := duty } r' →
      r'.active ≤ r.active

/-- The configuration is accepted. -/
def Accepted (systemCoreClock : UInt32) (chId : ℕ) (cfg : PwmCfg) : Prop :=
  chId < 3 ∧ cfg.frequency ≠ 0 ∧ cfg.frequency ≤ systemCoreClock ∧ cfg.duty ≤ cfg.scale

/-- So few ticks that the two ways to count are alike enough. -/
def FewTicks (systemCoreClock : UInt32) (cfg : PwmCfg) : Prop :=
  systemCoreClock.toNat / cfg.frequency.toNat = 2 ∨
    systemCoreClock.toNat / cfg.frequency.toNat = 3 ∧
      ¬ cfg.frequency.toNat ∣ systemCoreClock.toNat ∧
      (4 * cfg.duty.toNat < cfg.scale.toNat ∨
        cfg.scale.toNat ≤ 3 * cfg.duty.toNat ∧ 2 * cfg.duty.toNat < cfg.scale.toNat ∨
        3 * cfg.scale.toNat ≤ 4 * cfg.duty.toNat)

/-! ### The ticks -/

theorem countP_range_lt (n c : ℕ) : (List.range n).countP (· < c) = min n c := by
  induction n with
  | zero => exact (Nat.zero_min c).symm
  | succ n ih =>
    rw [range_succ, countP_append, ih, countP_singleton]
    by_cases h : n < c
    · rw [if_pos (decide_eq_true h)]
      omega
    · rw [if_neg (by simpa using h)]
      omega

/-- The way down, from the reload value to 1. -/
theorem countP_down (n c : ℕ) :
    ((List.range n).map (n - ·)).countP (· < c) = min n (c - 1) := by
  induction n with
  | zero => exact (Nat.zero_min _).symm
  | succ n ih =>
    have hmap : (List.range (n + 1)).map (n + 1 - ·) = (n + 1) :: (List.range n).map (n - ·) := by
      rw [range_succ_eq_map, map_cons, map_map]
      refine congrArg _ (map_congr_left fun i _ => ?_)
      exact Nat.add_sub_add_right n 1 i
    rw [hmap, countP_cons, ih]
    by_cases h : n + 1 < c
    · rw [if_pos (decide_eq_true h)]
      omega
    · rw [if_neg (by simpa using h)]
      omega

section Counts

variable {r : TimerRegs}

theorem period_up (h : r.cam = false) : r.period = r.car.toNat + 1 := by
  rw [TimerRegs.period, TimerRegs.counts, h, if_neg Bool.false_ne_true, length_range]

theorem active_up (h : r.cam = false) : r.active = min (r.car.toNat + 1) r.ch0cv.toNat := by
  rw [TimerRegs.active, TimerRegs.counts, h, if_neg Bool.false_ne_true, countP_range_lt]

theorem period_upAndDown (h : r.cam = true) : r.period = 2 * r.car.toNat := by
  rw [TimerRegs.period, TimerRegs.counts, h, if_pos rfl, length_append, length_map,
    length_range]
  omega

theorem active_upAndDown (h : r.cam = true) :
    r.active = min r.car.toNat r.ch0cv.toNat + min r.car.toNat (r.ch0cv.toNat - 1) := by
  rw [TimerRegs.active, TimerRegs.counts, h, if_pos rfl, countP_append, countP_range_lt,
    countP_down]

end Counts

/-! ### The registers -/

/-- The divisor. -/
def divisor (systemCoreClock frequency : UInt32) : ℕ :=
  systemCoreClock.toNat / frequency.toNat / 65536 + 1

/-- The ticks. -/
def ticks (systemCoreClock frequency : UInt32) : ℕ :=
  systemCoreClock.toNat / frequency.toNat / divisor systemCoreClock frequency

section Ticks

variable {systemCoreClock frequency : UInt32}

theorem one_le_quotient (hpos : frequency ≠ 0) (hle : frequency ≤ systemCoreClock) :
    1 ≤ systemCoreClock.toNat / frequency.toNat := by
  have hpos' : 0 < frequency.toNat := Nat.pos_of_ne_zero fun h => hpos (UInt32.toNat_inj.mp h)
  exact (Nat.one_le_div_iff hpos').mpr (UInt32.le_iff_toNat_le.mp hle)

/-- There is a tick at least, and the ticks fit. -/
theorem ticks_bounds (hpos : frequency ≠ 0) (hle : frequency ≤ systemCoreClock) :
    1 ≤ ticks systemCoreClock frequency ∧ ticks systemCoreClock frequency < 65536 := by
  have hq := one_le_quotient hpos hle
  unfold ticks divisor
  set q := systemCoreClock.toNat / frequency.toNat
  constructor
  · rw [Nat.one_le_div_iff (Nat.succ_pos _)]
    omega
  · rw [Nat.div_lt_iff_lt_mul (Nat.succ_pos _)]
    omega

/-- The divisor fits. -/
theorem divisor_le : divisor systemCoreClock frequency ≤ 65536 := by
  have hlt := systemCoreClock.toNat_lt
  have hle : systemCoreClock.toNat / frequency.toNat ≤ systemCoreClock.toNat := Nat.div_le_self _ _
  unfold divisor
  omega

/-- A period of the frequency is as long as the ticks or longer, by less than one. -/
theorem ticks_spec (hpos : frequency ≠ 0) :
    ticks systemCoreClock frequency * divisor systemCoreClock frequency * frequency.toNat ≤
        systemCoreClock.toNat ∧
      systemCoreClock.toNat < (ticks systemCoreClock frequency + 1) *
        divisor systemCoreClock frequency * frequency.toNat := by
  have hpos' : 0 < frequency.toNat := Nat.pos_of_ne_zero fun h => hpos (UInt32.toNat_inj.mp h)
  have hdiv : 0 < divisor systemCoreClock frequency := Nat.succ_pos _
  have heq : ticks systemCoreClock frequency =
      systemCoreClock.toNat / (divisor systemCoreClock frequency * frequency.toNat) := by
    rw [ticks, Nat.div_div_eq_div_mul, mul_comm frequency.toNat]
  rw [mul_assoc, mul_assoc, heq]
  exact ⟨Nat.div_mul_le_self _ _, Nat.lt_mul_of_div_lt (Nat.lt_succ_self _) (Nat.mul_pos hdiv hpos')⟩

/-- What `pwm_period_ticks` computes. -/
theorem exists_pwmPeriodTicks (hpos : frequency ≠ 0) (hle : frequency ≤ systemCoreClock) :
    ∃ div n, pwmPeriodTicks systemCoreClock frequency = some (div, n) ∧
      div.toNat = divisor systemCoreClock frequency ∧ n.toNat = ticks systemCoreClock frequency := by
  have hdivisor := @divisor_le systemCoreClock frequency
  have hdiv : (systemCoreClock / frequency / pwmPeriodTicksMax + 1).toNat =
      divisor systemCoreClock frequency := by
    exact Nat.mod_eq_of_lt (show divisor systemCoreClock frequency < 2 ^ 32 by omega)
  have hticks : (systemCoreClock / (systemCoreClock / frequency / pwmPeriodTicksMax + 1) /
      frequency).toNat = ticks systemCoreClock frequency := by
    rw [UInt32.toNat_div, UInt32.toNat_div, hdiv, ticks, Nat.div_div_eq_div_mul,
      Nat.div_div_eq_div_mul, mul_comm]
  have hbounds := ticks_bounds hpos hle
  refine ⟨_, _, ?_, hdiv, hticks⟩
  rw [pwmPeriodTicks, if_neg (by
    rw [not_or, UInt32.not_lt]
    exact ⟨hpos, hle⟩)]
  rw [if_neg, if_neg]
  · intro hzero
    rw [hzero] at hticks
    exact absurd hticks.symm (by simp only [UInt32.toNat_zero]; omega)
  · rw [UInt32.not_lt, UInt32.le_iff_toNat_le, hdiv]
    exact hdivisor

/-- The frequencies that are refused. -/
theorem pwmPeriodTicks_eq_none (h : frequency = 0 ∨ systemCoreClock < frequency) :
    pwmPeriodTicks systemCoreClock frequency = none := if_pos h

end Ticks

/-- What `pwm_pulse_ticks` computes of a duty that is accepted. -/
theorem toNat_pwmPulseTicks {cfg : PwmCfg} (hduty : cfg.duty ≤ cfg.scale) {n : UInt32}
    (hn : n.toNat < 65536) :
    (pwmPulseTicks cfg n).toNat = n.toNat * cfg.duty.toNat / cfg.scale.toNat := by
  have hle := UInt32.le_iff_toNat_le.mp hduty
  have hlt := cfg.duty.toNat_lt
  have hscale : cfg.scale ≠ 0 := by
    rw [PwmCfg.scale]
    split_ifs with h
    · exact h
    · decide
  have hproduct : n.toNat * cfg.duty.toNat ≤ 65536 * cfg.duty.toNat :=
    Nat.mul_le_mul_right _ (Nat.le_of_lt hn)
  have hquotient : n.toNat * cfg.duty.toNat / cfg.scale.toNat ≤ n.toNat :=
    Nat.div_le_of_le_mul (by
      rw [mul_comm cfg.scale.toNat]
      exact Nat.mul_le_mul_left _ hle)
  rw [pwmPulseTicks]
  rw [if_neg hscale, if_neg (UInt32.not_lt.mpr hduty), UInt64.toNat_toUInt32, UInt64.toNat_div,
    UInt64.toNat_mul, toNat_toUInt64, toNat_toUInt64, toNat_toUInt64,
    Nat.mod_eq_of_lt (show n.toNat * cfg.duty.toNat < 2 ^ 64 by omega)]
  exact Nat.mod_eq_of_lt (by omega)

/-- What the registers are, for a configuration that is accepted. -/
structure Programmed (systemCoreClock : UInt32) (chId : ℕ) (cfg : PwmCfg) (r : TimerRegs) : Prop where
  tick : r.tick = divisor systemCoreClock cfg.frequency
  car : r.car.toNat + 1 = ticks systemCoreClock cfg.frequency
  ch0cv : r.ch0cv.toNat =
    ticks systemCoreClock cfg.frequency * cfg.duty.toNat / cfg.scale.toNat
  cam : r.cam = true ↔ cfg.countMode = .upAndDown ∧ chId = 0

section Registers

variable {systemCoreClock : UInt32} {chId : ℕ} {cfg : PwmCfg}

/-- `tkl_pwm_start` after `tkl_pwm_init`. -/
theorem exists_drives (h : Accepted systemCoreClock chId cfg) (s : Pwm) :
    ∃ s' s'', tklPwmInit systemCoreClock chId cfg s = some s' ∧
      tklPwmStart systemCoreClock chId s' = some s'' ∧
      Programmed systemCoreClock chId cfg (s''.regs chId) := by
  obtain ⟨hch, hpos, hle, hduty⟩ := h
  obtain ⟨div, n, hticks, hdiv, hn⟩ := exists_pwmPeriodTicks hpos hle
  have hbounds := ticks_bounds hpos hle
  have hdivisor := @divisor_le systemCoreClock cfg.frequency
  have hone : UInt32.toNat 1 = 1 := rfl
  have hdivpos : 0 < divisor systemCoreClock cfg.frequency := Nat.succ_pos _
  have hinit : tklPwmInit systemCoreClock chId cfg s =
      some { s with cfg := update s.cfg chId cfg } := by
    rw [tklPwmInit, if_neg (show ¬ pwmTimer.length ≤ chId from Nat.not_le_of_lt hch)]
    simp only [hticks]
    exact if_neg (UInt32.not_lt.mpr hduty)
  have htimer : ∃ timer, pwmTimer[chId]? = some timer ∧ (timer = .timer0 ↔ chId = 0) := by
    obtain rfl | rfl | rfl : chId = 0 ∨ chId = 1 ∨ chId = 2 := by omega
    · exact ⟨_, rfl, by decide⟩
    · exact ⟨_, rfl, by decide⟩
    · exact ⟨_, rfl, by decide⟩
  obtain ⟨timer, htimer, hzero⟩ := htimer
  obtain ⟨s'', hstart, hregs⟩ : ∃ s'',
      tklPwmStart systemCoreClock chId { s with cfg := update s.cfg chId cfg } = some s'' ∧
      s''.regs chId =
        { timerInit timer (cfg.countMode == .upAndDown) (div - 1) (n - 1) timerDeinit with
          ch0p := cfg.polarity, ch0cv := pwmPulseTicks cfg n, cen := true } := by
    rw [tklPwmStart, htimer]
    simp only [update_self, hticks]
    exact ⟨_, rfl, update_self _ _ _⟩
  have hdiv1 : (div - 1).toNat = div.toNat - 1 := by
    rw [UInt32.toNat_sub_of_le _ _ (UInt32.le_iff_toNat_le.mpr (by omega)), hone]
  have hn1 : (n - 1).toNat = n.toNat - 1 := by
    rw [UInt32.toNat_sub_of_le _ _ (UInt32.le_iff_toNat_le.mpr (by omega)), hone]
  refine ⟨_, s'', hinit, hstart, ?_⟩
  rw [hregs]
  constructor
  · simp only [TimerRegs.tick, timerInit, toNat_toUInt16, hdiv1]
    omega
  · simp only [timerInit, hn1]
    omega
  · simp only [toNat_pwmPulseTicks hduty (show n.toNat < 65536 by omega), hn]
  · by_cases htimer0 : timer = .timer0
    · simp [timerInit, htimer0, hzero.mp htimer0]
    · have hne : chId ≠ 0 := fun h => htimer0 (hzero.mpr h)
      simp [timerInit, timerDeinit, htimer0, hne]

/-- What is driven is accepted. -/
theorem accepted_of_drives {r : TimerRegs} (h : Drives systemCoreClock chId cfg r) :
    Accepted systemCoreClock chId cfg := by
  obtain ⟨s, s', -, hinit, -⟩ := h
  rw [tklPwmInit] at hinit
  by_cases hch : pwmTimer.length ≤ chId
  · rw [if_pos hch] at hinit
    cases hinit
  rw [if_neg hch] at hinit
  by_cases hfreq : cfg.frequency = 0 ∨ systemCoreClock < cfg.frequency
  · simp only [pwmPeriodTicks_eq_none hfreq] at hinit
    cases hinit
  rw [not_or, UInt32.not_lt] at hfreq
  obtain ⟨div, n, hticks, -⟩ := exists_pwmPeriodTicks hfreq.1 hfreq.2
  simp only [hticks] at hinit
  by_cases hduty : cfg.scale < cfg.duty
  · rw [if_pos hduty] at hinit
    cases hinit
  · exact ⟨Nat.lt_of_not_le hch, hfreq.1, hfreq.2, UInt32.not_lt.mp hduty⟩

/-- The registers that are driven. -/
theorem programmed_of_drives {r : TimerRegs} (h : Drives systemCoreClock chId cfg r) :
    Programmed systemCoreClock chId cfg r := by
  have haccepted := accepted_of_drives h
  obtain ⟨s, s', s'', hinit, hstart, rfl⟩ := h
  obtain ⟨t', t'', hinit', hstart', hprogrammed⟩ := exists_drives haccepted s
  obtain rfl : s' = t' := Option.some.inj (hinit.symm.trans hinit')
  obtain rfl : s'' = t'' := Option.some.inj (hstart.symm.trans hstart')
  exact hprogrammed

end Registers

/-! ### The two ways to count -/

section Modes

variable {systemCoreClock : UInt32} {chId : ℕ} {cfg : PwmCfg} {r : TimerRegs}

/-- The compare value is at most the ticks. -/
theorem compare_le (hduty : cfg.duty ≤ cfg.scale) (n : ℕ) :
    n * cfg.duty.toNat / cfg.scale.toNat ≤ n :=
  Nat.div_le_of_le_mul (by
    rw [mul_comm cfg.scale.toNat]
    exact Nat.mul_le_mul_left _ (UInt32.le_iff_toNat_le.mp hduty))

theorem scale_pos (cfg : PwmCfg) : 0 < cfg.scale.toNat := by
  refine Nat.pos_of_ne_zero fun h => ?_
  have hzero : cfg.scale = 0 := UInt32.toNat_inj.mp h
  rw [PwmCfg.scale] at hzero
  split_ifs at hzero with h'
  · exact h' hzero
  · exact absurd hzero (by decide)

/-- The whole is compared with the ticks. -/
theorem compare_full (h : cfg.duty = cfg.scale) (n : ℕ) :
    n * cfg.duty.toNat / cfg.scale.toNat = n := by
  rw [h]
  exact Nat.mul_div_cancel _ (scale_pos cfg)

/-- No duty is compared with nothing. -/
theorem compare_zero (h : cfg.duty = 0) (n : ℕ) :
    n * cfg.duty.toNat / cfg.scale.toNat = 0 := by
  rw [h, UInt32.toNat_zero, Nat.mul_zero, Nat.zero_div]

/-- Counting up, the output matches. -/
theorem output_up (h : Drives systemCoreClock chId cfg r) (hcam : r.cam = false) :
    Output systemCoreClock cfg r := by
  obtain ⟨-, hpos, hle, hduty⟩ := accepted_of_drives h
  have hr := programmed_of_drives h
  have hbounds := ticks_bounds hpos hle
  obtain ⟨hlow, hhigh⟩ := @ticks_spec systemCoreClock _ hpos
  have hperiod : r.period = ticks systemCoreClock cfg.frequency := by rw [period_up hcam, hr.car]
  have hcompare := compare_le hduty (ticks systemCoreClock cfg.frequency)
  have hactive : r.active = r.ch0cv.toNat := by
    rw [active_up hcam, hr.car, hr.ch0cv]
    exact Nat.min_eq_right hcompare
  have hcar := hr.car
  have hcv := hr.ch0cv
  rw [Nat.succ_mul, Nat.add_mul] at hhigh
  refine ⟨⟨by omega, by omega⟩, ?_, ?_, by rw [hactive, hcv, hperiod], ?_, ?_⟩
  · rw [hperiod, hr.tick]
    omega
  · rw [hperiod, hr.tick]
    exact hhigh
  · intro hzero
    rw [hactive, hcv, compare_zero hzero]
  · intro hfull
    rw [hactive, hcv, compare_full hfull, hperiod]

/-- So few ticks that the divisor is 1. -/
theorem ticks_eq_iff {k : ℕ} (hk : k ≤ 3) :
    ticks systemCoreClock cfg.frequency = k ↔
      systemCoreClock.toNat / cfg.frequency.toNat = k := by
  unfold ticks divisor
  generalize systemCoreClock.toNat / cfg.frequency.toNat = q
  constructor
  · intro h
    by_cases hq : q < 65536
    · rw [Nat.div_eq_of_lt hq, zero_add, Nat.div_one] at h
      exact h
    · -- Then the ticks are half of 16 bits at least.
      have hhalf : 32768 ≤ q / (q / 65536 + 1) := by
        rw [Nat.le_div_iff_mul_le (Nat.succ_pos _)]
        omega
      omega
  · rintro rfl
    rw [Nat.div_eq_of_lt (show q < 65536 by omega), zero_add, Nat.div_one]

/-- The frequency is met by twice the ticks less one, in two cases. -/
theorem near_iff {n k s : ℕ} (hlow : n * k ≤ s) (hhigh : s < n * k + k)
    (hn : 1 ≤ n) :
    (2 * (n - 1) * k < s + k ∧ s < 2 * (n - 1) * k + k) ↔ n = 2 ∨ n = 3 ∧ s ≠ 3 * k := by
  obtain rfl | rfl | rfl | hn : n = 1 ∨ n = 2 ∨ n = 3 ∨ 4 ≤ n := by omega
  · omega
  · omega
  · omega
  · -- There are too many.
    have hmany := Nat.mul_le_mul_right k (show n + 2 ≤ 2 * (n - 1) by omega)
    rw [Nat.add_mul] at hmany
    omega

/-- The active time with three ticks. -/
theorem active_three {d c : ℕ} (hc : 0 < c) (hd : d ≤ c) :
    min 2 (3 * d / c) + min 2 (3 * d / c - 1) = 4 * d / c ↔
      4 * d < c ∨ c ≤ 3 * d ∧ 2 * d < c ∨ 3 * c ≤ 4 * d := by
  have hlow := Nat.div_mul_le_self (3 * d) c
  have hhigh := Nat.lt_div_mul_add hc (a := 3 * d)
  have hlow' := Nat.div_mul_le_self (4 * d) c
  have hhigh' := Nat.lt_div_mul_add hc (a := 4 * d)
  have hle : 3 * d / c ≤ 3 := Nat.div_le_of_le_mul (by omega)
  have hle' : 4 * d / c ≤ 4 := Nat.div_le_of_le_mul (by omega)
  generalize 3 * d / c = x at *
  generalize 4 * d / c = y at *
  obtain rfl | rfl | rfl | rfl : x = 0 ∨ x = 1 ∨ x = 2 ∨ x = 3 := by omega
  all_goals obtain rfl | rfl | rfl | rfl | rfl : y = 0 ∨ y = 1 ∨ y = 2 ∨ y = 3 ∨ y = 4 := by omega
  all_goals omega

/-- Counting up and down, it does with few ticks only. -/
theorem output_upAndDown_iff (h : Drives systemCoreClock chId cfg r) (hcam : r.cam = true) :
    Output systemCoreClock cfg r ↔ FewTicks systemCoreClock cfg := by
  obtain ⟨-, hpos, hle, hduty⟩ := accepted_of_drives h
  have hr := programmed_of_drives h
  have hbounds := ticks_bounds hpos hle
  obtain ⟨hlow, hhigh⟩ := @ticks_spec systemCoreClock _ hpos
  have hcompare := compare_le hduty (ticks systemCoreClock cfg.frequency)
  have hcar : r.car.toNat = ticks systemCoreClock cfg.frequency - 1 := by
    have := hr.car
    omega
  have hcv := hr.ch0cv
  have hperiod : r.period = 2 * (ticks systemCoreClock cfg.frequency - 1) := by
    rw [period_upAndDown hcam, hcar]
  have hactive := active_upAndDown hcam
  rw [hcar, hcv] at hactive
  rw [Nat.succ_mul, Nat.add_mul, mul_assoc] at hhigh
  rw [mul_assoc] at hlow
  have hnear := near_iff hlow hhigh hbounds.1
  have hthree : ticks systemCoreClock cfg.frequency = 3 →
      (systemCoreClock.toNat ≠ 3 * (divisor systemCoreClock cfg.frequency * cfg.frequency.toNat) ↔
        ¬ cfg.frequency.toNat ∣ systemCoreClock.toNat) := by
    intro h3
    have hq := (ticks_eq_iff (Nat.le_refl 3)).mp h3
    rw [divisor, hq, Nat.one_mul, not_iff_not]
    exact ⟨fun heq => heq ▸ Nat.dvd_mul_left _ _, fun hdvd => hq ▸ (Nat.div_mul_cancel hdvd).symm⟩
  rw [FewTicks, ← @ticks_eq_iff _ cfg _ (show 2 ≤ 3 by omega),
    ← @ticks_eq_iff _ cfg _ (Nat.le_refl 3)]
  generalize ticks systemCoreClock cfg.frequency = n at *
  constructor
  · intro hout
    have hslow := hout.notSlow
    have hfast := hout.notFast
    rw [hperiod, hr.tick, mul_assoc] at hslow hfast
    rcases hnear.mp ⟨hslow, hfast⟩ with rfl | ⟨rfl, hne⟩
    · exact .inl rfl
    · refine .inr ⟨rfl, (hthree rfl).mp hne, ?_⟩
      have heq := hout.active
      rw [hactive, hperiod] at heq
      exact (active_three (scale_pos cfg) (UInt32.le_iff_toNat_le.mp hduty)).mp heq
  · intro hfew
    have hnear' := hnear.mpr (hfew.imp_right fun h => ⟨h.1, (hthree h.1).mpr h.2.1⟩)
    refine ⟨⟨by omega, by omega⟩, ?_, ?_, ?_, ?_, ?_⟩
    · rw [hperiod, hr.tick, mul_assoc]
      exact hnear'.1
    · rw [hperiod, hr.tick, mul_assoc]
      exact hnear'.2
    · rw [hactive, hperiod]
      rcases hfew with rfl | ⟨rfl, -, hduties⟩
      · rw [show 2 * (2 - 1) = 2 from rfl]
        omega
      · exact (active_three (scale_pos cfg) (UInt32.le_iff_toNat_le.mp hduty)).mpr hduties
    · intro hzero
      rw [hactive, compare_zero hzero]
      omega
    · intro hfull
      rw [hactive, compare_full hfull, hperiod]
      omega

/-- The active time is monotone in the compare value. -/
theorem active_mono {r r' : TimerRegs} (hcam : r'.cam = r.cam) (hcar : r'.car = r.car)
    (hcv : r'.ch0cv.toNat ≤ r.ch0cv.toNat) : r'.active ≤ r.active := by
  have hcounts : r'.counts = r.counts := by rw [TimerRegs.counts, TimerRegs.counts, hcam, hcar]
  rw [TimerRegs.active, TimerRegs.active, hcounts]
  refine countP_mono_left fun v _ hv => ?_
  rw [decide_eq_true_iff] at hv ⊢
  exact Nat.lt_of_lt_of_le hv hcv

/-- A smaller duty makes no longer active time. -/
theorem active_le_of_duty_le {duty : UInt32} {r' : TimerRegs}
    (h : Drives systemCoreClock chId cfg r) (hduty : duty ≤ cfg.duty)
    (h' : Drives systemCoreClock chId { cfg with duty := duty } r') : r'.active ≤ r.active := by
  have hr := programmed_of_drives h
  have hr' := programmed_of_drives h'
  refine active_mono ?_ ?_ ?_
  · exact Bool.eq_iff_iff.mpr (hr'.cam.trans hr.cam.symm)
  · exact UInt32.toNat_inj.mp (Nat.succ.inj (hr'.car.trans hr.car.symm))
  · rw [hr.ch0cv, hr'.ch0cv]
    exact Nat.div_le_div_right (Nat.mul_le_mul_left _ (UInt32.le_iff_toNat_le.mp hduty))

end Modes

/-- **The output matches the request** exactly when the channel does not count up and down, or the
period is of two ticks, or of three with few exceptions. -/
theorem pwmRight_iff (systemCoreClock : UInt32) (chId : ℕ) (cfg : PwmCfg) :
    PwmRight systemCoreClock chId cfg ↔
      ¬ Accepted systemCoreClock chId cfg ∨ cfg.countMode = .up ∨ chId ≠ 0 ∨
        FewTicks systemCoreClock cfg := by
  by_cases haccepted : Accepted systemCoreClock chId cfg
  swap
  · refine iff_of_true ?_ (.inl haccepted)
    intro r h
    exact absurd (accepted_of_drives h) haccepted
  by_cases hmode : cfg.countMode = .upAndDown ∧ chId = 0
  · constructor
    · intro h
      obtain ⟨s', s'', hinit, hstart, hr⟩ := exists_drives haccepted
        ⟨fun _ => cfg, fun _ => timerDeinit, fun _ => false⟩
      have hdrives : Drives systemCoreClock chId cfg (s''.regs chId) :=
        ⟨_, s', s'', hinit, hstart, rfl⟩
      exact .inr (.inr (.inr
        ((output_upAndDown_iff hdrives (hr.cam.mpr hmode)).mp (h _ hdrives).1)))
    · rintro (h | h | h | hfew)
      · exact absurd haccepted h
      · exact absurd (hmode.1.symm.trans h) (by decide)
      · exact absurd hmode.2 h
      · intro r h
        have hcam := (programmed_of_drives h).cam.mpr hmode
        exact ⟨(output_upAndDown_iff h hcam).mpr hfew,
          fun _ _ hduty h' => active_le_of_duty_le h hduty h'⟩
  · refine iff_of_true ?_ ?_
    · intro r h
      have hcam : r.cam = false :=
        Bool.eq_false_iff.mpr fun hcam => hmode ((programmed_of_drives h).cam.mp hcam)
      exact ⟨output_up h hcam, fun _ _ hduty h' => active_le_of_duty_le h hduty h'⟩
    · by_cases hch : chId = 0
      · refine .inr (.inl ?_)
        cases hcount : cfg.countMode with
        | up => rfl
        | upAndDown => exact absurd ⟨hcount, hch⟩ hmode
      · exact .inr (.inr (.inl hch))

/-- A kilohertz at half of the time, up and down, with the clock of 160 MHz. -/
def centred : PwmCfg := ⟨.positive, .upAndDown, 5000, 10000, 1000⟩

/-- The period is twice as long. -/
theorem not_pwmRight_centred : ¬ PwmRight 160000000 0 centred := by
  intro h
  obtain ⟨s', s'', hinit, hstart, hr⟩ := exists_drives
    (show Accepted 160000000 0 centred from ⟨by decide, by decide, by decide, by decide⟩)
    ⟨fun _ => centred, fun _ => timerDeinit, fun _ => false⟩
  have hout := (h _ ⟨_, s', s'', hinit, hstart, rfl⟩).1.notSlow
  have hcar := hr.car
  have hticks : ticks 160000000 centred.frequency = 53333 := by decide
  have hdiv : divisor 160000000 centred.frequency = 3 := by decide
  have hfreq : centred.frequency.toNat = 1000 := rfl
  have hclock : UInt32.toNat 160000000 = 160000000 := rfl
  rw [period_upAndDown (hr.cam.mpr ⟨rfl, rfl⟩), hr.tick, hdiv, hfreq, hclock] at hout
  omega

end Gd32.Tkl
