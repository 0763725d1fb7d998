import Gd32Firmware.Config
import Gd32Firmware.Lib.Machine
import Mathlib.Data.List.Basic
import Mathlib.Logic.Function.Basic

/-!
# The hardware timers

`tkl_timer_start` programs a timer of 160 MHz with a prescaler of 159 and a period of the microseconds
that are asked for. The timer has an update after `(prescaler + 1) * (period + 1)` cycles, and then
again and again; at each of them `timer_irq_hdl` runs the callback.

So the callback runs once every microsecond more than it should, and it runs again and again also for a
timer that is to run it once: the mode that `tkl_timer_init` stores is not looked at by anything. What
stops a timer is only a call (`timersRight_iff`).
-/

namespace Gd32.Tkl

open Function List

/-! ### The code -/

/-- `TUYA_TIMER_MODE_E`. -/
inductive TimerMode where
  | once
  | period
  deriving DecidableEq

/-- `TUYA_TIMER_BASE_CFG_T`. -/
structure TimerCfg where
  mode : TimerMode
  cb : ℕ
  args : ℕ

/-- The timers that `timer_map` hands out. -/
inductive HwTimer where
  | timer1
  | timer2
  deriving DecidableEq

/-- The registers of a timer that counts up, and where the count is. -/
structure CountRegs where
  /-- `TIMER_PSC`. -/
  prescaler : ℕ
  /-- `TIMER_CAR`. -/
  period : ℕ
  cen : Bool
  upie : Bool
  /-- The cycles since it was started or updated. -/
  cycles : ℕ

/-- An entry of `timer_map`, with its vote. -/
structure TimerItem where
  used : Bool
  timerInterval : UInt32
  timerCfg : TimerCfg
  vote : Bool

/-- The last start of a timer that was not stopped since. -/
structure TimerStart where
  time : ℕ
  us : ℕ
  /-- The mode that the timer was configured for. -/
  mode : TimerMode
  deriving DecidableEq

/-- What is seen of a timer from outside. -/
structure Watch where
  since : Option TimerStart
  /-- When its callback ran since the last call that started or stopped it. -/
  runs : List ℕ

/-- The timers, the cycles of the clock that have gone by, and what is seen. -/
structure Timers where
  /-- `timer_map`. -/
  items : ℕ → TimerItem
  regs : HwTimer → CountRegs
  now : ℕ
  watch : ℕ → Watch

/-- The timers of `timer_map`. -/
def timerMap : List HwTimer := [.timer1, .timer2]

/-- After `timer_deinit`. -/
def CountRegs.reset : CountRegs := ⟨0, 0, false, false, 0⟩

def tklTimerInit (timerId : ℕ) (cfg : TimerCfg) (s : Timers) : Timers :=
  if timerMap.length ≤ timerId then s
  else
    { s with
      items := update s.items timerId
        { s.items timerId with timerCfg := cfg, used := true } }

def tklTimerStart (timerId : ℕ) (us : UInt32) (s : Timers) : Timers :=
  if us < 1000 then s
  else
    match timerMap[timerId]? with
    | none => s
    | some timer =>
      if (s.items timerId).used then
        { s with
          items := update s.items timerId
            { s.items timerId with timerInterval := us, vote := true }
          regs := update s.regs timer ⟨159, us.toNat, true, true, 0⟩
          watch := update s.watch timerId
            ⟨some ⟨s.now, us.toNat, (s.items timerId).timerCfg.mode⟩, []⟩ }
      else s

def tklTimerStop (timerId : ℕ) (s : Timers) : Timers :=
  match timerMap[timerId]? with
  | none => s
  | some timer =>
    { s with
      items := update s.items timerId { s.items timerId with vote := false }
      regs := update s.regs timer { s.regs timer with cen := false }
      watch := update s.watch timerId ⟨none, []⟩ }

def tklTimerDeinit (timerId : ℕ) (s : Timers) : Timers :=
  match timerMap[timerId]? with
  | none => s
  | some timer =>
    { s with
      items := update s.items timerId { s.items timerId with vote := false, used := false }
      regs := update s.regs timer .reset
      watch := update s.watch timerId ⟨none, []⟩ }

/-- `timer_irq_hdl`, for a timer whose flag is set: the callback of the entry that has the timer
runs. -/
def timerIrqHdl (timer : HwTimer) (s : Timers) : Timers :=
  let i := timerMap.idxOf timer
  if i < timerMap.length then
    { s with
      watch := update s.watch i
        { s.watch i with runs := (s.watch i).runs ++ [s.now] } }
  else s

/-- A cycle of a timer, and its interrupt. -/
def clockTimer (s : Timers) (timer : HwTimer) : Timers :=
  let r := s.regs timer
  if r.cen then
    if r.cycles + 1 = (r.prescaler + 1) * (r.period + 1) then
      let s := { s with regs := update s.regs timer { r with cycles := 0 } }
      if r.upie then timerIrqHdl timer s else s
    else { s with regs := update s.regs timer { r with cycles := r.cycles + 1 } }
  else s

/-- What happens. -/
inductive TimerEvent where
  | init (timerId : ℕ) (cfg : TimerCfg)
  | start (timerId : ℕ) (us : UInt32)
  | stop (timerId : ℕ)
  | deinit (timerId : ℕ)
  | cycle

/-- One event. -/
def timersStep (e : TimerEvent) (s : Timers) : Option Timers :=
  some <| match e with
    | .init timerId cfg => tklTimerInit timerId cfg s
    | .start timerId us => tklTimerStart timerId us s
    | .stop timerId => tklTimerStop timerId s
    | .deinit timerId => tklTimerDeinit timerId s
    | .cycle => timerMap.foldl clockTimer { s with now := s.now + 1 }

/-- The start of the firmware. -/
def timersStart : Timers where
  items _ := ⟨false, 0, ⟨.once, 0, 0⟩, false⟩
  regs _ := .reset
  now := 0
  watch _ := ⟨none, []⟩

/-! ### What is to be so -/

/-- The cycles in a number of microseconds. -/
def cyclesOf (us : ℕ) : ℕ := 160 * us

/-- What has run since a start: for a periodic timer, at the multiples of the interval; for the other,
once when the interval is over, and not twice. -/
def TimerStart.Right (st : TimerStart) (now : ℕ) (runs : List ℕ) : Prop :=
  match st.mode with
  | .period =>
    runs = (List.range ((now - st.time) / cyclesOf st.us)).map fun k =>
      st.time + (k + 1) * cyclesOf st.us
  | .once => runs.length ≤ 1 ∧ (cyclesOf (st.us + 1) ≤ now - st.time → runs.length = 1)

/-- What is seen of a timer is right; one that is stopped runs nothing. -/
def Watch.Right (w : Watch) (now : ℕ) : Prop :=
  match w.since with
  | none => w.runs = []
  | some st => st.Right now w.runs

/-- **The timers run their callbacks when they should.** -/
def TimersRight (s : Timers) : Prop := ∀ i, (s.watch i).Right s.now

/-- How long after a start nothing is wrong yet. -/
def TimerStart.limit (st : TimerStart) : ℕ :=
  match st.mode with
  | .period => cyclesOf st.us
  | .once => cyclesOf (2 * (st.us + 1))

/-- The clock does not bring a timer to where it goes wrong. -/
def StoppedBefore (s : Timers) : TimerEvent → Prop
  | .cycle => ∀ i, ∀ st ∈ (s.watch i).since, s.now + 1 - st.time < st.limit
  | _ => True

/-! ### What the timers keep -/

/-- What holds of a timer and what is seen of it: it is off, or its cycles and its runs are those since
the start, in periods of a microsecond more than asked for. -/
def TimerKept (w : Watch) (r : CountRegs) (now : ℕ) : Prop :=
  match w.since with
  | none => r.cen = false ∧ w.runs = []
  | some st =>
    r = ⟨159, st.us, true, true, (now - st.time) % cyclesOf (st.us + 1)⟩ ∧ st.time ≤ now ∧
      0 < st.us ∧
      w.runs = (List.range ((now - st.time) / cyclesOf (st.us + 1))).map fun k =>
        st.time + (k + 1) * cyclesOf (st.us + 1)

/-- All timers, and there are no others. -/
structure TimersKept (s : Timers) : Prop where
  timer : ∀ i timer, timerMap[i]? = some timer → TimerKept (s.watch i) (s.regs timer) s.now
  other : ∀ i, timerMap[i]? = none → s.watch i = ⟨none, []⟩

theorem idxOf_timerMap {i : ℕ} {timer : HwTimer} (hi : timerMap[i]? = some timer) :
    timerMap.idxOf timer = i := by
  have hnodup : timerMap.Nodup := by decide
  obtain ⟨hlt, rfl⟩ := List.getElem?_eq_some_iff.mp hi
  exact hnodup.idxOf_getElem i hlt

/-- The timers of the map are different. -/
theorem timerMap_inj {i j : ℕ} {timer : HwTimer} (hi : timerMap[i]? = some timer)
    (hj : timerMap[j]? = some timer) : i = j :=
  (idxOf_timerMap hi).symm.trans (idxOf_timerMap hj)

/-- One more is at the end of a period, or is not. -/
theorem succ_div_mod {e p : ℕ} (hp : 0 < p) :
    if e % p + 1 = p then (e + 1) / p = e / p + 1 ∧ (e + 1) % p = 0
    else (e + 1) / p = e / p ∧ (e + 1) % p = e % p + 1 := by
  have hdiv := Nat.mod_add_div e p
  have hlt := Nat.mod_lt e hp
  split_ifs with h
  · rw [Nat.div_mod_unique hp]
    refine ⟨?_, hp⟩
    rw [Nat.mul_succ]
    omega
  · rw [Nat.div_mod_unique hp]
    omega

section Clock

variable {s : Timers} {timer : HwTimer} {i : ℕ}

/-- A cycle of a timer of the map, if it is on. -/
theorem clockTimer_eq (hi : timerMap[i]? = some timer) (s : Timers) :
    clockTimer s timer =
      if (s.regs timer).cen then
        if (s.regs timer).cycles + 1 = ((s.regs timer).prescaler + 1) * ((s.regs timer).period + 1)
        then
          { s with
            regs := update s.regs timer { s.regs timer with cycles := 0 }
            watch :=
              if (s.regs timer).upie then
                update s.watch i
                  { s.watch i with runs := (s.watch i).runs ++ [s.now] }
              else s.watch }
        else
          { s with
            regs := update s.regs timer
              { s.regs timer with cycles := (s.regs timer).cycles + 1 } }
      else s := by
  have hlt : i < timerMap.length := (List.getElem?_eq_some_iff.mp hi).1
  rw [clockTimer]
  simp only [timerIrqHdl, idxOf_timerMap hi, if_pos hlt]
  split_ifs <;> rfl

/-- The time goes on elsewhere. -/
theorem now_clockTimer (hi : timerMap[i]? = some timer) : (clockTimer s timer).now = s.now := by
  rw [clockTimer_eq hi]
  split_ifs <;> rfl

/-- A timer leaves the others alone. -/
theorem regs_clockTimer_of_ne (hi : timerMap[i]? = some timer) {timer' : HwTimer}
    (hne : timer' ≠ timer) : (clockTimer s timer).regs timer' = s.regs timer' := by
  rw [clockTimer_eq hi]
  split_ifs <;> simp only [update_of_ne hne]

theorem watch_clockTimer_of_ne (hi : timerMap[i]? = some timer) {j : ℕ} (hne : j ≠ i) :
    (clockTimer s timer).watch j = s.watch j := by
  rw [clockTimer_eq hi]
  split_ifs <;> simp only [update_of_ne hne]

/-- The start is not touched. -/
theorem since_clockTimer (hi : timerMap[i]? = some timer) (j : ℕ) :
    ((clockTimer s timer).watch j).since = (s.watch j).since := by
  by_cases hne : j = i
  · subst hne
    rw [clockTimer_eq hi]
    split_ifs <;> simp only [update_self]
  · rw [watch_clockTimer_of_ne hi hne]

/-- **A cycle** keeps what holds of a timer. -/
theorem kept_clockTimer {now : ℕ} (hi : timerMap[i]? = some timer)
    (h : TimerKept (s.watch i) (s.regs timer) now) (hnow : s.now = now + 1) :
    TimerKept ((clockTimer s timer).watch i) ((clockTimer s timer).regs timer) s.now := by
  have hsince := since_clockTimer (s := s) hi i
  rw [TimerKept] at h ⊢
  rw [hsince]
  cases hw : (s.watch i).since with
  | none =>
    simp only [hw] at h ⊢
    have heq : clockTimer s timer = s := by rw [clockTimer_eq hi, h.1, if_neg Bool.false_ne_true]
    rw [heq]
    exact h
  | some st =>
    simp only [hw] at h ⊢
    obtain ⟨hr, hle, hus, hruns⟩ := h
    have hpos : 0 < cyclesOf (st.us + 1) := by
      rw [cyclesOf]
      omega
    have helapsed : s.now - st.time = now - st.time + 1 := by omega
    have hperiod : (159 + 1) * (st.us + 1) = cyclesOf (st.us + 1) := rfl
    have hnext := @succ_div_mod (now - st.time) _ hpos
    rw [clockTimer_eq hi, hr, helapsed]
    simp only [if_true, hperiod]
    by_cases hend : (now - st.time) % cyclesOf (st.us + 1) + 1 = cyclesOf (st.us + 1)
    · rw [if_pos hend] at hnext
      simp only [if_pos hend, update_self, hnext.1, hnext.2, hruns]
      refine ⟨trivial, by omega, hus, ?_⟩
      -- The run is at the end of the period.
      have htime : s.now = st.time + ((now - st.time) / cyclesOf (st.us + 1) + 1) *
          cyclesOf (st.us + 1) := by
        have hdiv := Nat.mod_add_div (now - st.time) (cyclesOf (st.us + 1))
        rw [Nat.succ_mul, Nat.mul_comm]
        omega
      rw [range_succ, map_append, map_singleton, ← htime]
    · rw [if_neg hend] at hnext
      simp only [if_neg hend, update_self, hnext.1, hnext.2, hruns]
      exact ⟨trivial, by omega, hus, trivial⟩

end Clock

section Steps

variable {s s' : Timers} {timer : HwTimer} {i : ℕ}

/-- A call for a timer. -/
theorem TimersKept.update (h : TimersKept s) (hi : timerMap[i]? = some timer) {r : CountRegs}
    {w : Watch} (items : ℕ → TimerItem) (hkept : TimerKept w r s.now) :
    TimersKept
      { s with
        items := items
        regs := update s.regs timer r
        watch := update s.watch i w } := by
  constructor
  · intro j timer' hj
    by_cases hne : j = i
    · subst hne
      obtain rfl := Option.some.inj (hi.symm.trans hj)
      simpa only [update_self] using hkept
    · have hne' : timer' ≠ timer := fun heq => hne (timerMap_inj hj (heq ▸ hi))
      simpa only [update_of_ne hne, update_of_ne hne'] using h.timer j timer' hj
  · intro j hj
    have hne : j ≠ i := by
      rintro rfl
      rw [hi] at hj
      cases hj
    simpa only [update_of_ne hne] using h.other j hj

theorem now_cycle (s : Timers) :
    (timerMap.foldl clockTimer { s with now := s.now + 1 }).now = s.now + 1 := by
  have h0 : timerMap[0]? = some .timer1 := rfl
  have h1 : timerMap[1]? = some .timer2 := rfl
  exact (now_clockTimer h1).trans (now_clockTimer h0)

theorem since_cycle (s : Timers) (i : ℕ) :
    ((timerMap.foldl clockTimer { s with now := s.now + 1 }).watch i).since =
      (s.watch i).since := by
  have h0 : timerMap[0]? = some .timer1 := rfl
  have h1 : timerMap[1]? = some .timer2 := rfl
  exact (since_clockTimer h1 i).trans (since_clockTimer h0 i)

/-- A cycle of all timers. -/
theorem TimersKept.cycle (h : TimersKept s) :
    TimersKept (timerMap.foldl clockTimer { s with now := s.now + 1 }) := by
  have h0 : timerMap[0]? = some .timer1 := rfl
  have h1 : timerMap[1]? = some .timer2 := rfl
  have hne : HwTimer.timer2 ≠ .timer1 := by decide
  set u : Timers := { s with now := s.now + 1 } with hu
  have hfold : timerMap.foldl clockTimer u = clockTimer (clockTimer u .timer1) .timer2 := rfl
  rw [hfold]
  have hnow : (clockTimer (clockTimer u .timer1) .timer2).now = s.now + 1 := by
    rw [now_clockTimer h1, now_clockTimer h0]
  have hfirst := kept_clockTimer h0 (s := u) (h.timer 0 _ h0) rfl
  have hsecond := @kept_clockTimer (clockTimer u .timer1) _ 1 s.now h1 (by
    rw [watch_clockTimer_of_ne h0 (by decide), regs_clockTimer_of_ne h0 hne]
    exact h.timer 1 _ h1) (now_clockTimer h0)
  rw [now_clockTimer h0] at hsecond
  constructor
  · intro j timer hj
    rw [hnow]
    obtain rfl | rfl : j = 0 ∨ j = 1 := by
      have hlt : j < 2 := (List.getElem?_eq_some_iff.mp hj).1
      omega
    · obtain rfl := Option.some.inj (h0.symm.trans hj)
      rw [watch_clockTimer_of_ne h1 (by decide), regs_clockTimer_of_ne h1 hne.symm]
      exact hfirst
    · obtain rfl := Option.some.inj (h1.symm.trans hj)
      exact hsecond
  · intro j hj
    have hge : 2 ≤ j := List.getElem?_eq_none_iff.mp hj
    rw [watch_clockTimer_of_ne h1 (by omega), watch_clockTimer_of_ne h0 (by omega)]
    exact h.other j hj

/-- What is kept is kept by everything that happens. -/
theorem TimersKept.step (h : TimersKept s) {e : TimerEvent} (hs : timersStep e s = some s') :
    TimersKept s' := by
  obtain rfl := Option.some.inj hs
  cases e with
  | init timerId cfg =>
    simp only [tklTimerInit]
    split_ifs
    · exact h
    · exact ⟨h.timer, h.other⟩
  | start timerId us =>
    simp only [tklTimerStart]
    by_cases hus : us < 1000
    · rw [if_pos hus]
      exact h
    rw [if_neg hus]
    split
    · exact h
    next timer htimer =>
      by_cases hused : (s.items timerId).used
      · rw [if_pos hused]
        have hpos : 0 < us.toNat := by
          have hge : 1000 ≤ us.toNat := UInt32.le_iff_toNat_le.mp (UInt32.not_lt.mp hus)
          omega
        refine h.update htimer _ ?_
        simp only [TimerKept, Nat.sub_self, Nat.zero_mod, Nat.zero_div]
        exact ⟨trivial, Nat.le_refl _, hpos, rfl⟩
      · rw [if_neg hused]
        exact h
  | stop timerId =>
    simp only [tklTimerStop]
    split
    · exact h
    next timer htimer => exact h.update htimer _ ⟨rfl, rfl⟩
  | deinit timerId =>
    simp only [tklTimerDeinit]
    split
    · exact h
    next timer htimer => exact h.update htimer _ ⟨rfl, rfl⟩
  | cycle => exact h.cycle

theorem kept_timersStart : TimersKept timersStart := ⟨fun _ _ _ => ⟨rfl, rfl⟩, fun _ _ => rfl⟩

end Steps

/-! ### How long it is right -/

/-- A timer that runs is right until its first mistake. -/
theorem right_iff {w : Watch} {r : CountRegs} {now : ℕ} (h : TimerKept w r now) :
    w.Right now ↔ ∀ st ∈ w.since, now - st.time < st.limit := by
  rw [TimerKept] at h
  rw [Watch.Right]
  cases hw : w.since with
  | none =>
    simp only [hw] at h ⊢
    exact iff_of_true h.2 nofun
  | some st =>
    simp only [hw] at h
    obtain ⟨-, -, hus, hruns⟩ := h
    simp only [Option.mem_some_iff, forall_eq']
    rw [TimerStart.Right, TimerStart.limit]
    generalize now - st.time = e at *
    have hlt : cyclesOf st.us < cyclesOf (st.us + 1) := by
      rw [cyclesOf, cyclesOf]
      omega
    have hpos : 0 < cyclesOf st.us := Nat.mul_pos (by omega) hus
    have htwice : cyclesOf (2 * (st.us + 1)) = 2 * cyclesOf (st.us + 1) := by
      rw [cyclesOf, cyclesOf]
      omega
    rw [htwice]
    cases st.mode with
    | period =>
      constructor
      · intro heq
        by_contra hge
        -- The first run is missing, or late.
        obtain ⟨k, hk⟩ : ∃ k, e / cyclesOf st.us = k + 1 :=
          ⟨_, (Nat.succ_pred_eq_of_pos (Nat.div_pos (Nat.le_of_not_lt hge) hpos)).symm⟩
        have hhead := congrArg List.head? (hruns.symm.trans heq)
        rw [hk, range_succ_eq_map] at hhead
        cases hn : e / cyclesOf (st.us + 1) with
        | zero => simp [hn] at hhead
        | succ n =>
          rw [hn, range_succ_eq_map] at hhead
          simp only [map_cons, List.head?_cons, Option.some.injEq] at hhead
          omega
      · intro hsoon
        rw [hruns, Nat.div_eq_of_lt hsoon, Nat.div_eq_of_lt (Nat.lt_trans hsoon hlt)]
        rfl
    | once =>
      have hlength : w.runs.length = e / cyclesOf (st.us + 1) := by
        rw [hruns, length_map, length_range]
      have hpos' := Nat.lt_trans hpos hlt
      constructor
      · rintro ⟨hle, -⟩
        exact (Nat.div_lt_iff_lt_mul hpos').mp (by omega)
      · intro hsoon
        have hle : e / cyclesOf (st.us + 1) < 2 := (Nat.div_lt_iff_lt_mul hpos').mpr hsoon
        refine ⟨by omega, fun hge => ?_⟩
        have := Nat.div_pos hge hpos'
        omega

/-- All of them. -/
theorem timersRight_iff_soon {s : Timers} (h : TimersKept s) :
    TimersRight s ↔ ∀ i, ∀ st ∈ (s.watch i).since, s.now - st.time < st.limit := by
  refine forall_congr' fun i => ?_
  cases hi : timerMap[i]? with
  | some timer => exact right_iff (h.timer i timer hi)
  | none =>
    rw [h.other i hi]
    exact iff_of_true rfl nofun

/-- An event keeps the timers right exactly when it does not bring one to its first mistake. -/
theorem timersRight_step_iff {s s' : Timers} (h : TimersKept s) (hright : TimersRight s)
    {e : TimerEvent} (hs : timersStep e s = some s') :
    TimersRight s' ↔ StoppedBefore s e := by
  have h' := h.step hs
  have hsoon := (timersRight_iff_soon h).mp hright
  rw [timersRight_iff_soon h']
  have hcall : ∀ i w, (∀ st ∈ w.since, s.now - st.time < st.limit) →
      ∀ j, ∀ st ∈ (update s.watch i w j).since, s.now - st.time < st.limit := by
    intro i w hw j
    by_cases hne : j = i
    · subst hne
      rw [update_self]
      exact hw
    · rw [update_of_ne hne]
      exact hsoon j
  obtain rfl := Option.some.inj hs
  cases e with
  | init timerId cfg =>
    refine iff_of_true ?_ trivial
    simp only [tklTimerInit]
    split_ifs
    · exact hsoon
    · exact hsoon
  | start timerId us =>
    refine iff_of_true ?_ trivial
    simp only [tklTimerStart]
    by_cases hus : us < 1000
    · rw [if_pos hus]
      exact hsoon
    rw [if_neg hus]
    split
    · exact hsoon
    by_cases hused : (s.items timerId).used
    · rw [if_pos hused]
      have hge : 1000 ≤ us.toNat := UInt32.le_iff_toNat_le.mp (UInt32.not_lt.mp hus)
      refine hcall _ _ ?_
      simp only [Option.mem_some_iff, forall_eq', Nat.sub_self, TimerStart.limit, cyclesOf]
      split
      · omega
      · omega
    · rw [if_neg hused]
      exact hsoon
  | stop timerId =>
    refine iff_of_true ?_ trivial
    simp only [tklTimerStop]
    split
    · exact hsoon
    · exact hcall _ _ nofun
  | deinit timerId =>
    refine iff_of_true ?_ trivial
    simp only [tklTimerDeinit]
    split
    · exact hsoon
    · exact hcall _ _ nofun
  | cycle =>
    simp only [now_cycle, since_cycle]
    rfl

/-- **The timers are right** all the way exactly when every timer that is started is stopped or started
again before its first mistake: a periodic one before its interval is over, the other before two
intervals and two microseconds are. -/
theorem timersRight_iff {s : Timers} (es : List TimerEvent)
    (h : Machine.run timersStep es timersStart = some s) :
    Machine.Always timersStep TimersRight es timersStart ↔
      Machine.Meets timersStep StoppedBefore es timersStart :=
  Machine.always_iff_meets_of_kept h kept_timersStart (fun _ => rfl)
    fun hK hI hi => ⟨hK.step hi, timersRight_step_iff hK hI hi⟩

/-- A periodic timer of a millisecond that is stopped after a cycle. -/
theorem timersRight_iff_stopped :
    Machine.Always timersStep TimersRight
      [.init 0 ⟨.period, 1, 0⟩, .start 0 1000, .cycle, .stop 0, .cycle] timersStart := by
  refine (timersRight_iff [.init 0 ⟨.period, 1, 0⟩, .start 0 1000, .cycle, .stop 0, .cycle] rfl).mpr
    ⟨trivial, ?_⟩
  intro t ht
  obtain rfl := Option.some.inj ht
  refine ⟨trivial, ?_⟩
  intro t ht
  obtain rfl := Option.some.inj ht
  constructor
  · rintro (_ | i) st hst
    · obtain rfl : _ = st := Option.some.inj hst
      decide
    · cases hst
  intro t ht
  obtain rfl := Option.some.inj ht
  refine ⟨trivial, ?_⟩
  intro t ht
  obtain rfl := Option.some.inj ht
  constructor
  · rintro (_ | i) st hst
    · cases hst
    · cases hst
  intro t ht
  obtain rfl := Option.some.inj ht
  trivial

/-- Cycles without a call. -/
theorem run_cycles (n : ℕ) (s : Timers) :
    ∃ t, Machine.run timersStep (List.replicate n .cycle) s = some t ∧ t.now = s.now + n ∧
      ∀ i, (t.watch i).since = (s.watch i).since := by
  induction n generalizing s with
  | zero => exact ⟨s, rfl, rfl, fun _ => rfl⟩
  | succ n ih =>
    obtain ⟨t, ht, hnow, hsince⟩ := ih (timerMap.foldl clockTimer { s with now := s.now + 1 })
    refine ⟨t, ht, ?_, fun i => (hsince i).trans (since_cycle s i)⟩
    rw [hnow, now_cycle]
    omega

/-- A periodic timer of a millisecond does not run its callback when the millisecond is over. -/
theorem not_timersRight_oneMillisecond :
    ¬ ∀ es s, Machine.run timersStep es timersStart = some s → TimersRight s := by
  intro h
  obtain ⟨start, hstart⟩ : ∃ start,
      tklTimerStart 0 1000 (tklTimerInit 0 ⟨.period, 1, 0⟩ timersStart) = start := ⟨_, rfl⟩
  have hzero : start.now = 0 := hstart ▸ rfl
  have hwatch : (start.watch 0).since = some ⟨0, 1000, .period⟩ := by
    rw [← hstart]
    decide
  obtain ⟨n, hn⟩ : ∃ n, n = cyclesOf 1000 := ⟨_, rfl⟩
  obtain ⟨u, hu, hnow, hsince⟩ := run_cycles n start
  have hrun : Machine.run timersStep
      (.init 0 ⟨.period, 1, 0⟩ :: .start 0 1000 :: List.replicate n .cycle) timersStart = some u := by
    rw [← hstart] at hu
    exact hu
  have hkept : TimersKept u := (Machine.Reach.of_run hrun).invariant kept_timersStart
    fun hK _ hi => hK.step hi
  have hlt := (timersRight_iff_soon hkept).mp (h _ u hrun) 0 ⟨0, 1000, .period⟩
    ((hsince 0).trans hwatch)
  rw [hnow, hzero, hn, TimerStart.limit, Nat.zero_add, Nat.sub_zero] at hlt
  exact absurd hlt (Nat.lt_irrefl _)

end Gd32.Tkl
