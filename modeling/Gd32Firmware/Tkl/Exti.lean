import Gd32Firmware.Config
import Gd32Firmware.Lib.Machine
import Mathlib.Data.List.GetD
import Mathlib.Data.List.TakeWhile
import Mathlib.Logic.Function.Basic

/-!
# Pins that share interrupt lines

The pins of the ports A, B and C share sixteen lines: pin `n` of each port has line `n`, and a
selector says whose edges the line sees. `tkl_gpio.c` arms a line for the callback of a pin, and
`tkl_wakeup.c` for waking the chip; the alarm of the clock has line 17. Both address lines and keep
no record of whose they are.

The lines are as `gd32vw55x_exti.c` has them. Whether the flag of a line that is masked is set by an
edge is not said there, so both are considered (`latchesMasked`). The pulls and the clocks of the
pins are left out, and so is the time of the alarm.
-/

namespace Gd32.Tkl

open Function List Option

/-! ### The lines -/

/-- The ports, sources of `syscfg_exti_line_config`. -/
inductive GpioPort where
  | a
  | b
  | c
  deriving DecidableEq, Repr

/-- `exti_trig_type_enum`, those that are used. -/
inductive ExtiTrig where
  | rising
  | falling
  | both
  deriving DecidableEq, Repr

/-- The trigger has rising edges. -/
def ExtiTrig.rises : ExtiTrig → Bool
  | .falling => false
  | _ => true

/-- The trigger has falling edges. -/
def ExtiTrig.falls : ExtiTrig → Bool
  | .rising => false
  | _ => true

/-- The registers of the lines, by line. -/
structure Exti where
  /-- The selector of `SYSCFG`. -/
  source : ℕ → GpioPort
  inten : ℕ → Bool
  even : ℕ → Bool
  rten : ℕ → Bool
  ften : ℕ → Bool
  pd : ℕ → Bool

/-- `syscfg_exti_line_config`. -/
def Exti.lineConfig (e : Exti) (port : GpioPort) (line : ℕ) : Exti :=
  { e with source := update e.source line port }

/-- `exti_init`, for an event or else for an interrupt. -/
def Exti.init (e : Exti) (line : ℕ) (event : Bool) (trig : ExtiTrig) : Exti :=
  { e with
    inten := update e.inten line !event
    even := update e.even line event
    rten := update e.rten line trig.rises
    ften := update e.ften line trig.falls }

/-- `exti_interrupt_enable`. -/
def Exti.interruptEnable (e : Exti) (line : ℕ) : Exti :=
  { e with inten := update e.inten line true }

/-- `exti_interrupt_disable`. -/
def Exti.interruptDisable (e : Exti) (line : ℕ) : Exti :=
  { e with inten := update e.inten line false }

/-- `exti_interrupt_flag_clear`. -/
def Exti.flagClear (e : Exti) (line : ℕ) : Exti :=
  { e with pd := update e.pd line false }

/-- `exti_deinit`. -/
def Exti.deinit (e : Exti) : Exti :=
  { e with
    inten := fun _ => false
    even := fun _ => false
    rten := fun _ => false
    ften := fun _ => false }

/-- An edge on a line. -/
def Exti.edge (e : Exti) (latchesMasked : Bool) (line : ℕ) (rising : Bool) : Exti :=
  if (if rising then e.rten line else e.ften line) = true ∧
      (latchesMasked = true ∨ e.inten line = true) then
    { e with pd := update e.pd line true }
  else e

/-! ### The pins -/

def gpioNum : ℕ := 29

/-- `pin_id_2_gpio_port`: the port of a pin and its number there. `pin_id_to_gpio` of `tkl_wakeup.c`
is the same. -/
def pinId2GpioPort (pinId : ℕ) : Option (GpioPort × ℕ) :=
  if pinId ≤ 15 then some (.a, pinId)
  else if pinId ≤ 20 then some (.b, pinId - 16)
  else if pinId ≤ 24 then some (.b, if pinId = 24 then 15 else pinId - 10)
  else if pinId < gpioNum then some (.c, if pinId = 25 then 8 else pinId - 13)
  else none

/-- `exti_line` of `gpio_pin_map`. -/
def extiLine (pinId : ℕ) : ℕ :=
  [0, 1, 2, 3, 4, 5, 6, 7, 8, 9, 10, 11, 12, 13, 14, 15, 0, 1, 2, 3, 4, 11, 12, 13, 15, 8, 13, 14,
    15].getD pinId 0

/-- The vector of a line, as `tkl_gpio_irq_enable` has it and the handlers of `gd32vw55x_it.c`. -/
def extiVector (line : ℕ) : ℕ := if line < 5 then line else if line < 10 then 5 else 6

/-- `exti_pin_index_map` of `gpio_irq_hdl`, as far as `exti_pin_num` has it. -/
def extiPinIndexMap (vector : ℕ) : List ℕ :=
  [[0, 16], [1, 17], [2, 18], [3, 19], [4, 20], [5, 6, 7, 8, 9, 25],
    [10, 11, 12, 13, 14, 15, 21, 22, 23, 24, 26, 27, 28]].getD vector []

/-- `TUYA_GPIO_IRQ_E`. -/
inductive GpioIrqMode where
  | rise
  | fall
  | riseFall
  | low
  | high

/-- The trigger of a mode; levels have none. -/
def GpioIrqMode.trig : GpioIrqMode → Option ExtiTrig
  | .rise => some .rising
  | .fall => some .falling
  | .riseFall => some .both
  | .low => none
  | .high => none

/-- `TUYA_GPIO_WAKEUP_LEVEL_E`. -/
inductive GpioWakeupLevel where
  | low
  | high
  | rise
  | fall

/-- `wkup_pin_map`: the pins the power unit watches by itself. -/
def wkupPinFind (pinId : ℕ) : Option ℕ :=
  if pinId = 0 then some 0
  else if pinId = 15 then some 1
  else if pinId = 7 then some 2
  else if pinId = 12 then some 3
  else none

/-- `pin_dev_map_t`, apart from the line. -/
structure PinDevMap where
  isIrq : Bool
  cb : Option ℕ
  args : ℕ

/-- A callback that has been run, and for which pin. -/
structure Ran where
  /-- The index in `gpio_pin_map`. -/
  pin : ℕ
  cb : ℕ
  args : ℕ
  deriving DecidableEq, Repr

/-- What `tkl_gpio_irq_init` was asked for. -/
structure Arm where
  trig : ExtiTrig
  cb : Option ℕ
  args : ℕ
  deriving DecidableEq, Repr

/-- The pin that a line was given to last, and what has been asked for since: an interrupt, that
it be enabled, a wake-up. -/
structure Holder where
  pin : ℕ
  /-- The last `tkl_gpio_irq_init`. -/
  arm : Option Arm
  /-- A `tkl_gpio_irq_enable` has followed. -/
  enabled : Bool
  /-- The last `tkl_wakeup_source_set`. -/
  wake : Option ExtiTrig

/-- An edge: the pin, what the pin was armed for if the edge is one of these, and the callbacks
that were run. -/
structure Edge where
  pin : ℕ
  arm : Option Arm
  ran : List Ran
  deriving DecidableEq, Repr

/-- The alarm of the clock. -/
structure RtcAlarm where
  /-- `rtc_alarm_enable`. -/
  alarm : Bool
  /-- `RTC_INT_ALARM0`. -/
  interrupt : Bool
  /-- The vector `RTC_Alarm_IRQn`. -/
  vector : Bool
  cb : Option ℕ
  args : ℕ

/-- The pins, the lines and the clock, and what has been asked for. -/
structure Pins where
  exti : Exti
  pinMap : ℕ → PinDevMap
  vectors : ℕ → Bool
  /-- The wake-up pins of the power unit that are enabled. -/
  pmu : ℕ → Bool
  rtc : RtcAlarm
  /-- The callbacks that have been run, oldest first. -/
  ran : List Ran
  holder : ℕ → Holder
  /-- The pins of the power unit that are to wake the chip. -/
  wkup : ℕ → Bool
  rtcSet : Option (Option ℕ × ℕ)
  /-- The callbacks that alarms have run, with their arguments. -/
  alarms : List (ℕ × ℕ)
  edges : List Edge

/-! ### The handler -/

/-- The body of the loop of `gpio_irq_hdl`. -/
def gpioIrqStep (s : Pins) (index : ℕ) : Pins :=
  if s.exti.pd (extiLine index) = false then s
  else
    { s with
      ran := s.ran ++ (if (s.pinMap index).isIrq = true then
        (s.pinMap index).cb.toList.map fun cb => ⟨index, cb, (s.pinMap index).args⟩ else [])
      exti := s.exti.flagClear (extiLine index) }

def gpioIrqHdl (vector : ℕ) (s : Pins) : Pins := (extiPinIndexMap vector).foldl gpioIrqStep s

/-- The handler runs if its vector is enabled and the interrupt of one of its lines is pending. -/
def Pins.deliver (s : Pins) (vector : ℕ) : Pins :=
  if s.vectors vector = true ∧ ((List.range 16).any fun line =>
      extiVector line == vector && s.exti.pd line && s.exti.inten line) = true then
    gpioIrqHdl vector s
  else s

/-! ### The calls -/

/-- A line is given to a pin. -/
def Pins.give (s : Pins) (pinId : ℕ) (port : GpioPort) (line : ℕ) : Pins :=
  { s with
    exti := s.exti.lineConfig port line
    holder := update s.holder line
      (if (s.holder line).pin = pinId then s.holder line else ⟨pinId, none, false, none⟩) }

/-- The holder of the line of a pin is told something that concerns the pin. -/
def Pins.tell (s : Pins) (pinId : ℕ) (f : Holder → Holder) : Pins :=
  { s with
    holder := update s.holder (extiLine pinId)
      (if (s.holder (extiLine pinId)).pin = pinId then f (s.holder (extiLine pinId))
        else s.holder (extiLine pinId)) }

def tklGpioDeinit (pinId : ℕ) (s : Pins) : Option OprtErr × Pins :=
  if gpioNum ≤ pinId then (some .invalidParm, s)
  else if (s.pinMap pinId).isIrq = true then
    (none, { s.tell pinId fun h => { h with arm := none, enabled := false } with
      exti := (s.exti.interruptDisable (extiLine pinId)).flagClear (extiLine pinId)
      pinMap := update s.pinMap pinId ⟨false, none, 0⟩ })
  else (none, s)

def tklGpioIrqInit (pinId : ℕ) (mode : GpioIrqMode) (cb : Option ℕ) (args : ℕ) (s : Pins) :
    Option OprtErr × Pins :=
  match pinId2GpioPort pinId with
  | none => (some .invalidParm, s)
  | some (port, line) =>
    let s := s.give pinId port line
    match mode.trig with
    | none => (some .invalidParm, s)
    | some trig =>
      let s := { s with exti := s.exti.init (extiLine pinId) false trig }
      let s := s.deliver (extiVector (extiLine pinId))
      (none, { s.tell pinId fun h => { h with arm := some ⟨trig, cb, args⟩, wake := none } with
        pinMap := update s.pinMap pinId ⟨true, cb, args⟩ })

def tklGpioIrqEnable (pinId : ℕ) (s : Pins) : Option OprtErr × Pins :=
  if gpioNum ≤ pinId then (some .invalidParm, s)
  else if (s.pinMap pinId).isIrq = false then (some .invalidParm, s)
  else
    let line := extiLine pinId
    let s := { s with vectors := update s.vectors (extiVector line) true }
    let s := s.deliver (extiVector line)
    let s := { s with exti := (s.exti.flagClear line).interruptEnable line }
    (none, s.tell pinId fun h => { h with enabled := h.arm.isSome })

def tklGpioIrqDisable (pinId : ℕ) (s : Pins) : Option OprtErr × Pins :=
  if gpioNum ≤ pinId then (some .invalidParm, s)
  else
    (none, { s.tell pinId fun h => { h with enabled := false } with
      exti := (s.exti.interruptDisable (extiLine pinId)).flagClear (extiLine pinId) })

/-- How `gpio_wakeup_set` has a pin wake the chip. -/
inductive WakeupRoute where
  | pmu (wkup : ℕ)
  | exti (trig : ExtiTrig)
  deriving DecidableEq, Repr

/-- The route, if the level is supported. -/
def wakeupRoute (pinId : ℕ) : GpioWakeupLevel → Option WakeupRoute
  | .high => (wkupPinFind pinId).map .pmu
  | .rise => some (((wkupPinFind pinId).map .pmu).getD (.exti .rising))
  | .fall => some (.exti .falling)
  | .low => none

def gpioWakeupSet (pinId : ℕ) (level : GpioWakeupLevel) (s : Pins) : Option OprtErr × Pins :=
  match pinId2GpioPort pinId with
  | none => (some .invalidParm, s)
  | some (port, line) =>
    match wakeupRoute pinId level with
    | none => (some .notSupported, s)
    | some (.pmu wkup) =>
      (none, { s with
        pmu := update s.pmu wkup true
        wkup := update s.wkup pinId true })
    | some (.exti trig) =>
      let s := s.give pinId port line
      (none, { s.tell pinId fun h => { h with wake := some trig } with
        exti := (s.exti.init line true trig).flagClear line })

def gpioWakeupClear (pinId : ℕ) (s : Pins) : Option OprtErr × Pins :=
  match pinId2GpioPort pinId with
  | none => (some .invalidParm, s)
  | some (_, line) =>
    (none, { s.tell pinId fun h => { h with wake := none } with
      pmu := match wkupPinFind pinId with
        | none => s.pmu
        | some wkup => update s.pmu wkup false
      wkup := update s.wkup pinId false
      exti := (s.exti.flagClear line).deinit })

/-- The line of the alarm, `EXTI_17`. -/
def rtcLine : ℕ := 17

/-- `rtc_wakeup_set`; `rtcNum` is `TUYA_RTC_NUM_0` when it is 0. -/
def rtcWakeupSet (rtcNum ms : ℕ) (cb : Option ℕ) (args : ℕ) (s : Pins) : Option OprtErr × Pins :=
  if rtcNum ≠ 0 then (some .invalidParm, s)
  else if ms < 1000 then (some .notSupported, s)
  else
    (none, { s with
      rtc := ⟨true, true, true, cb, args⟩
      exti := (s.exti.init rtcLine false .rising).flagClear rtcLine
      rtcSet := some (cb, args) })

def rtcWakeupClear (rtcNum : ℕ) (s : Pins) : Option OprtErr × Pins :=
  if rtcNum ≠ 0 then (some .invalidParm, s)
  else
    (none, { s with
      rtc := ⟨false, false, false, none, 0⟩
      exti := s.exti.flagClear rtcLine
      rtcSet := none })

/-- An alarm, with what `RTC_Alarm_IRQHandler` does if it is run. -/
def rtcAlarm (latchesMasked : Bool) (s : Pins) : Pins :=
  if s.rtc.alarm = true ∧ s.rtc.interrupt = true then
    let exti := s.exti.edge latchesMasked rtcLine true
    if s.rtc.vector = true ∧ exti.pd rtcLine = true ∧ exti.inten rtcLine = true then
      { s with
        exti := exti.flagClear rtcLine
        alarms := s.alarms ++ s.rtc.cb.toList.map fun cb => (cb, s.rtc.args) }
    else { s with exti := exti }
  else s

/-! ### Runs -/

/-- What a pin is armed for, if an edge of this kind is part of it: `tkl_gpio_irq_init` and
`tkl_gpio_irq_enable` have been called for it, and the line has not been given to another pin. -/
def Pins.armedFor (s : Pins) (pinId : ℕ) (rising : Bool) : Option Arm :=
  if (s.holder (extiLine pinId)).pin = pinId ∧ (s.holder (extiLine pinId)).enabled = true then
    (s.holder (extiLine pinId)).arm.filter fun a => if rising then a.trig.rises else a.trig.falls
  else none

/-- An edge on a pin. -/
def pinEdge (latchesMasked : Bool) (pinId : ℕ) (rising : Bool) (s : Pins) : Pins :=
  match pinId2GpioPort pinId with
  | none => s
  | some (port, line) =>
    let t := if s.exti.source line = port then
      Pins.deliver { s with exti := s.exti.edge latchesMasked line rising } (extiVector line) else s
    { t with edges := s.edges ++ [⟨pinId, s.armedFor pinId rising, t.ran.drop s.ran.length⟩] }

/-- What can happen. -/
inductive PinEvent where
  /-- `tkl_gpio_irq_init`. -/
  | irqInit (pinId : ℕ) (mode : GpioIrqMode) (cb : Option ℕ) (args : ℕ)
  /-- `tkl_gpio_irq_enable`. -/
  | irqEnable (pinId : ℕ)
  /-- `tkl_gpio_irq_disable`. -/
  | irqDisable (pinId : ℕ)
  /-- `tkl_gpio_deinit`. -/
  | deinit (pinId : ℕ)
  /-- `tkl_wakeup_source_set` for a pin. -/
  | wakeupSet (pinId : ℕ) (level : GpioWakeupLevel)
  /-- `tkl_wakeup_source_clear` for a pin. -/
  | wakeupClear (pinId : ℕ)
  /-- `tkl_wakeup_source_set` for the alarm. -/
  | rtcSet (rtcNum ms : ℕ) (cb : Option ℕ) (args : ℕ)
  /-- `tkl_wakeup_source_clear` for the alarm. -/
  | rtcClear (rtcNum : ℕ)
  | edge (pinId : ℕ) (rising : Bool)
  | alarm

/-- One event. -/
def pinStep (latchesMasked : Bool) (i : PinEvent) (s : Pins) : Option Pins :=
  some <| match i with
    | .irqInit pinId mode cb args => (tklGpioIrqInit pinId mode cb args s).2
    | .irqEnable pinId => (tklGpioIrqEnable pinId s).2
    | .irqDisable pinId => (tklGpioIrqDisable pinId s).2
    | .deinit pinId => (tklGpioDeinit pinId s).2
    | .wakeupSet pinId level => (gpioWakeupSet pinId level s).2
    | .wakeupClear pinId => (gpioWakeupClear pinId s).2
    | .rtcSet rtcNum ms cb args => (rtcWakeupSet rtcNum ms cb args s).2
    | .rtcClear rtcNum => (rtcWakeupClear rtcNum s).2
    | .edge pinId rising => pinEdge latchesMasked pinId rising s
    | .alarm => rtcAlarm latchesMasked s

/-- After a reset no pin has a line and nothing is armed. -/
def pinsInit : Pins where
  exti := ⟨fun _ => .a, fun _ => false, fun _ => false, fun _ => false, fun _ => false,
    fun _ => false⟩
  pinMap _ := ⟨false, none, 0⟩
  vectors _ := false
  pmu _ := false
  rtc := ⟨false, false, false, none, 0⟩
  ran := []
  holder _ := ⟨gpioNum, none, false, none⟩
  wkup _ := false
  rtcSet := none
  alarms := []
  edges := []

/-! ### What is to be so -/

/-- The callbacks that a pin is armed for. -/
def Arm.calls (a : Arm) (pinId : ℕ) : List Ran := a.cb.toList.map fun cb => ⟨pinId, cb, a.args⟩

/-- A line sees the edges of a pin. -/
structure Triggered (e : Exti) (line pinId : ℕ) (trig : ExtiTrig) : Prop where
  source : pinId2GpioPort pinId = some (e.source line, line)
  rten : e.rten line = trig.rises
  ften : e.ften line = trig.falls

/-- **The lines are shared safely**: an edge on a pin that is armed has run its callback and no
other one, and what is armed, for an interrupt or for waking the chip, stays so in the registers:
of the pin that has the line, of the power unit and of the alarm. -/
structure ExtiRight (s : Pins) : Prop where
  served : ∀ e ∈ s.edges, ∀ a, e.arm = some a → e.ran = a.calls e.pin
  armed : ∀ line < 16, ∀ a, (s.holder line).arm = some a → (s.holder line).enabled = true →
    Triggered s.exti line (s.holder line).pin a.trig ∧ s.exti.inten line = true ∧
      s.vectors (extiVector line) = true
  woken : ∀ line < 16, ∀ t, (s.holder line).wake = some t →
    Triggered s.exti line (s.holder line).pin t ∧ s.exti.even line = true
  wkup : ∀ pinId, s.wkup pinId = true → ∃ w, wkupPinFind pinId = some w ∧ s.pmu w = true
  rtc : ∀ cb args, s.rtcSet = some (cb, args) → s.rtc = ⟨true, true, true, cb, args⟩ ∧
    s.exti.inten rtcLine = true ∧ s.exti.rten rtcLine = true

/-- The line of a pin is not one that another pin is armed on. -/
def Pins.OwnLine (s : Pins) (pinId : ℕ) : Prop :=
  (s.holder (extiLine pinId)).pin = pinId ∨ (s.holder (extiLine pinId)).arm = none ∨
    (s.holder (extiLine pinId)).enabled = false

instance (s : Pins) (pinId : ℕ) : Decidable (s.OwnLine pinId) :=
  inferInstanceAs (Decidable (_ ∨ _ ∨ _))

/-- Nothing is armed on any line, for an interrupt or for waking the chip, but the pin's own
wake-up. -/
def Pins.OnlyWakes (s : Pins) (pinId : ℕ) : Prop :=
  (∀ line < 16, (s.holder line).arm = none ∧
    ((s.holder line).wake = none ∨ (s.holder line).pin = pinId)) ∧ s.rtcSet = none

instance (s : Pins) (pinId : ℕ) : Decidable (s.OnlyWakes pinId) :=
  inferInstanceAs (Decidable ((∀ _ < 16, _) ∧ _))

/-- An edge on a pin that is armed is on one of port A, and no other line of its vector has its flag
set; a call that masks a line is for the pin that has it, or for a line nobody is armed on; a
wake-up is set for a pin without an interrupt, and cleared when nothing else is armed. -/
def PinEvent.Calm (s : Pins) : PinEvent → Prop
  | .irqDisable pinId => pinId < gpioNum → s.OwnLine pinId
  | .deinit pinId => pinId < gpioNum → (s.pinMap pinId).isIrq = true → s.OwnLine pinId
  | .wakeupSet pinId level => pinId < gpioNum →
    wakeupRoute pinId level = some (.exti .rising) ∨ wakeupRoute pinId level = some (.exti .falling) →
    (s.holder (extiLine pinId)).pin = pinId → (s.holder (extiLine pinId)).arm = none
  | .wakeupClear pinId => pinId < gpioNum → s.OnlyWakes pinId
  | .edge pinId rising => (s.armedFor pinId rising).isSome = true → pinId < 16 ∧
    ∀ line < 16, line ≠ extiLine pinId → extiVector line = extiVector (extiLine pinId) →
      s.exti.pd line = false
  | _ => True

instance PinEvent.decidableCalm (s : Pins) (i : PinEvent) : Decidable (i.Calm s) :=
  match i with
  | .irqInit .. => inferInstanceAs (Decidable True)
  | .irqEnable _ => inferInstanceAs (Decidable True)
  | .irqDisable pinId => inferInstanceAs (Decidable (pinId < gpioNum → s.OwnLine pinId))
  | .deinit pinId => inferInstanceAs (Decidable (pinId < gpioNum → _ = true → s.OwnLine pinId))
  | .wakeupSet pinId level =>
    inferInstanceAs (Decidable (pinId < gpioNum → wakeupRoute pinId level = _ ∨ _ → _ = _ → _ = none))
  | .wakeupClear pinId => inferInstanceAs (Decidable (pinId < gpioNum → s.OnlyWakes pinId))
  | .rtcSet .. => inferInstanceAs (Decidable True)
  | .rtcClear _ => inferInstanceAs (Decidable True)
  | .edge pinId rising => inferInstanceAs (Decidable ((s.armedFor pinId rising).isSome = true → _ ∧
    ∀ line < 16, line ≠ _ → _ → _))
  | .alarm => inferInstanceAs (Decidable True)

/-! ### The pins and their lines -/

/-- The two tables of the pins agree. -/
theorem extiLine_of_port {pinId line : ℕ} {port : GpioPort}
    (h : pinId2GpioPort pinId = some (port, line)) :
    extiLine pinId = line ∧ pinId < gpioNum ∧ line < 16 := by
  have hall : ∀ p < 29, ∀ r, pinId2GpioPort p = some r → extiLine p = r.2 ∧ r.2 < 16 := by
    intro p hp r hr
    have htable : ∀ q < 29, (pinId2GpioPort q).any fun r => extiLine q == r.2 && r.2 < 16 := by
      decide
    have := htable p hp
    simpa [hr] using this
  have hp : pinId < 29 := by
    rw [pinId2GpioPort] at h
    have hnum : gpioNum = 29 := rfl
    split_ifs at h <;> omega
  exact ⟨(hall pinId hp _ h).1, hp, (hall pinId hp _ h).2⟩

/-- The port of a pin there is. -/
theorem port_of_lt {pinId : ℕ} (h : pinId < gpioNum) :
    ∃ port, pinId2GpioPort pinId = some (port, extiLine pinId) := by
  have htable : ∀ q < 29, (pinId2GpioPort q).any fun r => extiLine q == r.2 := by decide
  have hp := htable pinId h
  cases hr : pinId2GpioPort pinId with
  | none => simp [hr] at hp
  | some r => exact ⟨r.1, congrArg some (Prod.ext rfl (extiLine_of_port hr).1.symm)⟩

/-! ### What the handler does -/

/-- Two states that differ in the pending flags and the callbacks run. -/
structure SameArmed (s s' : Pins) : Prop where
  source : s'.exti.source = s.exti.source
  inten : s'.exti.inten = s.exti.inten
  even : s'.exti.even = s.exti.even
  rten : s'.exti.rten = s.exti.rten
  ften : s'.exti.ften = s.exti.ften
  pinMap : s'.pinMap = s.pinMap
  vectors : s'.vectors = s.vectors
  pmu : s'.pmu = s.pmu
  rtc : s'.rtc = s.rtc
  holder : s'.holder = s.holder
  wkup : s'.wkup = s.wkup
  rtcSet : s'.rtcSet = s.rtcSet
  edges : s'.edges = s.edges

theorem SameArmed.refl (s : Pins) : SameArmed s s :=
  ⟨rfl, rfl, rfl, rfl, rfl, rfl, rfl, rfl, rfl, rfl, rfl, rfl, rfl⟩

theorem SameArmed.trans {s t u : Pins} (h : SameArmed s t) (h' : SameArmed t u) : SameArmed s u :=
  ⟨h'.source.trans h.source, h'.inten.trans h.inten, h'.even.trans h.even, h'.rten.trans h.rten,
    h'.ften.trans h.ften, h'.pinMap.trans h.pinMap, h'.vectors.trans h.vectors,
    h'.pmu.trans h.pmu, h'.rtc.trans h.rtc, h'.holder.trans h.holder, h'.wkup.trans h.wkup,
    h'.rtcSet.trans h.rtcSet, h'.edges.trans h.edges⟩

theorem sameArmed_gpioIrqStep (s : Pins) (index : ℕ) : SameArmed s (gpioIrqStep s index) := by
  rw [gpioIrqStep]
  split
  · exact .refl s
  · exact ⟨rfl, rfl, rfl, rfl, rfl, rfl, rfl, rfl, rfl, rfl, rfl, rfl, rfl⟩

theorem sameArmed_foldl (l : List ℕ) (s : Pins) : SameArmed s (l.foldl gpioIrqStep s) := by
  induction l generalizing s with
  | nil => exact .refl s
  | cons i l ih => exact (sameArmed_gpioIrqStep s i).trans (ih _)

/-- **The handler arms and disarms nothing.** -/
theorem sameArmed_deliver (s : Pins) (vector : ℕ) : SameArmed s (s.deliver vector) := by
  rw [Pins.deliver]
  split
  · exact sameArmed_foldl _ s
  · exact .refl s

/-- Pins whose lines have no flag set are passed over. -/
theorem foldl_gpioIrqStep_of_clear {l : List ℕ} {s : Pins}
    (h : ∀ i ∈ l, s.exti.pd (extiLine i) = false) : l.foldl gpioIrqStep s = s := by
  induction l with
  | nil => rfl
  | cons i l ih =>
    rw [foldl_cons, gpioIrqStep, if_pos (h i mem_cons_self)]
    exact ih fun j hj => h j (mem_cons_of_mem i hj)

/-- The pins of port A come before the others of their lines. -/
theorem extiPinIndexMap_split {pinId : ℕ} (h : pinId < 16) :
    ∃ before after, extiPinIndexMap (extiVector pinId) = before ++ pinId :: after ∧
      ∀ i ∈ before, extiLine i ≠ pinId := by
  have htable : ∀ p < 16, extiPinIndexMap (extiVector p) =
      (extiPinIndexMap (extiVector p)).takeWhile (fun i => extiLine i != p) ++
        p :: ((extiPinIndexMap (extiVector p)).dropWhile (fun i => extiLine i != p)).tail := by
    decide
  refine ⟨_, _, htable pinId h, fun i hi => ?_⟩
  have hne := mem_takeWhile_imp hi
  exact bne_iff_ne.mp hne

/-- Every pin of a vector has its line there. -/
theorem extiVector_of_mem {vector i : ℕ} (h : i ∈ extiPinIndexMap vector) :
    extiVector (extiLine i) = vector ∧ extiLine i < 16 := by
  have htable : ∀ v < 7, ∀ j ∈ extiPinIndexMap v, extiVector (extiLine j) = v ∧ extiLine j < 16 := by
    decide
  rcases Nat.lt_or_ge vector 7 with hv | hv
  · exact htable vector hv i h
  · rw [extiPinIndexMap, getD_eq_default _ _ hv] at h
    cases h

/-- A pin of port A has the line of its number. -/
theorem extiLine_of_lt {pinId : ℕ} (h : pinId < 16) : extiLine pinId = pinId := by
  have htable : ∀ p < 16, extiLine p = p := by decide
  exact htable pinId h

/-- **The handler serves a pin of port A** whose line is the only one of its vector with its flag
set: the first pin of the line is this one, and its pass clears the flag for the others. -/
theorem ran_deliver {s : Pins} {pinId : ℕ} {a : Arm} (hp : pinId < 16)
    (hmap : s.pinMap pinId = ⟨true, a.cb, a.args⟩) (hvec : s.vectors (extiVector pinId) = true)
    (hpd : s.exti.pd pinId = true) (hin : s.exti.inten pinId = true)
    (hother : ∀ line < 16, line ≠ pinId → extiVector line = extiVector pinId →
      s.exti.pd line = false) :
    (s.deliver (extiVector pinId)).ran = s.ran ++ a.calls pinId := by
  have hany : ((List.range 16).any fun line => extiVector line == extiVector pinId &&
      s.exti.pd line && s.exti.inten line) = true := by
    refine any_eq_true.mpr ⟨pinId, mem_range.mpr hp, ?_⟩
    simp [hpd, hin]
  rw [Pins.deliver, if_pos ⟨hvec, hany⟩, gpioIrqHdl]
  obtain ⟨before, after, hsplit, hbefore⟩ := extiPinIndexMap_split hp
  have hmem : ∀ i ∈ before ++ pinId :: after, extiVector (extiLine i) = extiVector pinId ∧
      extiLine i < 16 := by
    rw [← hsplit]
    exact fun i hi => extiVector_of_mem hi
  have hstep : gpioIrqStep s pinId = { s with
      ran := s.ran ++ a.calls pinId
      exti := s.exti.flagClear pinId } := by
    rw [gpioIrqStep, extiLine_of_lt hp, hpd, if_neg nofun, hmap, if_pos rfl]
    rfl
  have hfirst : before.foldl gpioIrqStep s = s := by
    refine foldl_gpioIrqStep_of_clear fun i hi => ?_
    obtain ⟨hv, hlt⟩ := hmem i (mem_append_left _ hi)
    exact hother _ hlt (hbefore i hi) hv
  rw [hsplit, foldl_append, hfirst, foldl_cons, hstep]
  -- after the pass nothing of the vector is pending
  refine congrArg Pins.ran (foldl_gpioIrqStep_of_clear fun i hi => ?_)
  obtain ⟨hv, hlt⟩ := hmem i (mem_append_right _ (mem_cons_of_mem _ hi))
  dsimp only [Exti.flagClear]
  by_cases hline : extiLine i = pinId
  · rw [hline, update_self]
  · rw [update_of_ne hline]
    exact hother _ hlt hline hv

/-! ### What is kept -/

/-- What the pin that holds a line has asked for is in the registers. -/
structure LineOk (s : Pins) (line : ℕ) (h : Holder) : Prop where
  arm : ∀ a, h.arm = some a → Triggered s.exti line h.pin a.trig ∧
    s.pinMap h.pin = ⟨true, a.cb, a.args⟩
  enabled : ∀ a, h.arm = some a → h.enabled = true → s.exti.inten line = true
  vector : h.enabled = true → s.vectors (extiVector line) = true
  wake : ∀ t, h.wake = some t → Triggered s.exti line h.pin t ∧ s.exti.even line = true

/-- The alarm is armed as it was set. -/
def RtcOk (s : Pins) : Prop :=
  ∀ cb args, s.rtcSet = some (cb, args) → s.rtc = ⟨true, true, true, cb, args⟩ ∧
    s.exti.inten rtcLine = true ∧ s.exti.rten rtcLine = true

/-- The pins of the power unit that are to wake the chip can. -/
def WkupOk (s : Pins) : Prop :=
  ∀ pinId, s.wkup pinId = true → ∃ w, wkupPinFind pinId = some w ∧ s.pmu w = true

/-- **The pins as the calls have left them.** -/
structure PinsKept (s : Pins) : Prop where
  served : ∀ e ∈ s.edges, ∀ a, e.arm = some a → e.ran = a.calls e.pin
  lines : ∀ line < 16, LineOk s line (s.holder line)
  wkup : WkupOk s
  rtc : RtcOk s

variable {s s' : Pins}

theorem PinsKept.right (h : PinsKept s) : ExtiRight s where
  served := h.served
  armed := by
    intro line hline a ha he
    have hok := h.lines line hline
    exact ⟨(hok.arm a ha).1, hok.enabled a ha he, hok.vector he⟩
  woken := fun line hline t ht => (h.lines line hline).wake t ht
  wkup := h.wkup
  rtc := h.rtc

/-- What is armed is so in the registers of the line. -/
structure SameLine (s s' : Pins) (line : ℕ) : Prop where
  source : s'.exti.source line = s.exti.source line
  inten : s'.exti.inten line = s.exti.inten line
  even : s'.exti.even line = s.exti.even line
  rten : s'.exti.rten line = s.exti.rten line
  ften : s'.exti.ften line = s.exti.ften line
  vectors : s.vectors (extiVector line) = true → s'.vectors (extiVector line) = true

theorem Triggered.congr {e e' : Exti} {line pinId : ℕ} {t : ExtiTrig} (h : Triggered e line pinId t)
    (hsource : e'.source line = e.source line) (hrten : e'.rten line = e.rten line)
    (hften : e'.ften line = e.ften line) : Triggered e' line pinId t :=
  ⟨by rw [hsource]; exact h.source, hrten.trans h.rten, hften.trans h.ften⟩

theorem Triggered.line {e : Exti} {line pinId : ℕ} {t : ExtiTrig} (h : Triggered e line pinId t) :
    extiLine pinId = line := (extiLine_of_port h.source).1

/-- A line whose registers stay as they are. -/
theorem LineOk.congr {line : ℕ} {hd : Holder} (h : LineOk s line hd) (hs : SameLine s s' line)
    (hmap : ∀ p, extiLine p = line → s'.pinMap p = s.pinMap p) : LineOk s' line hd where
  arm := by
    intro a ha
    obtain ⟨ht, hm⟩ := h.arm a ha
    exact ⟨ht.congr hs.source hs.rten hs.ften, (hmap _ ht.line).trans hm⟩
  enabled := fun a ha he => hs.inten.trans (h.enabled a ha he)
  vector := fun he => hs.vectors (h.vector he)
  wake := by
    intro t ht
    obtain ⟨htr, he⟩ := h.wake t ht
    exact ⟨htr.congr hs.source hs.rten hs.ften, hs.even.trans he⟩

/-- The pins are kept by the handler. -/
theorem PinsKept.sameArmed (h : PinsKept s) (hs : SameArmed s s') : PinsKept s' where
  served := hs.edges ▸ h.served
  lines := by
    intro line hline
    rw [hs.holder]
    exact (h.lines line hline).congr ⟨congrFun hs.source _, congrFun hs.inten _,
      congrFun hs.even _, congrFun hs.rten _, congrFun hs.ften _,
      fun hv => (congrFun hs.vectors _).trans hv⟩ fun p _ => congrFun hs.pinMap p
  wkup := by
    intro p hp
    rw [hs.wkup] at hp
    rw [hs.pmu]
    exact h.wkup p hp
  rtc := by
    intro cb args hset
    rw [hs.rtcSet] at hset
    rw [hs.rtc, hs.inten, hs.rten]
    exact h.rtc cb args hset

/-- **A call for one line**: if the other lines are left alone, and the line is right afterwards,
the pins are kept. -/
theorem PinsKept.at_line (h : PinsKept s) {line : ℕ} (hline : line < 16)
    (hedges : s'.edges = s.edges) (hwkup : s'.wkup = s.wkup) (hpmu : s'.pmu = s.pmu)
    (hset : s'.rtcSet = s.rtcSet) (hrtc : s'.rtc = s.rtc)
    (hother : ∀ l, l ≠ line → SameLine s s' l ∧ s'.holder l = s.holder l)
    (hmap : ∀ p, extiLine p ≠ line → s'.pinMap p = s.pinMap p)
    (hok : LineOk s' line (s'.holder line)) : PinsKept s' where
  served := hedges ▸ h.served
  lines := by
    intro l hl
    by_cases hne : l = line
    · rw [hne]
      exact hok
    · obtain ⟨hsame, hholder⟩ := hother l hne
      rw [hholder]
      exact (h.lines l hl).congr hsame fun p hp => hmap p (by rw [hp]; exact hne)
  wkup := by
    intro p hp
    rw [hwkup] at hp
    rw [hpmu]
    exact h.wkup p hp
  rtc := by
    intro cb args hs
    rw [hset] at hs
    obtain ⟨hregs, hi, hr⟩ := h.rtc cb args hs
    have hne : rtcLine ≠ line := by
      rw [rtcLine]
      omega
    exact ⟨hrtc.trans hregs, (hother _ hne).1.inten.trans hi, (hother _ hne).1.rten.trans hr⟩

/-- A line is masked that nobody is armed on. -/
theorem LineOk.masked {line : ℕ} {hd : Holder} (h : LineOk s line hd)
    (hsource : s'.exti.source line = s.exti.source line)
    (heven : s'.exti.even line = s.exti.even line) (hrten : s'.exti.rten line = s.exti.rten line)
    (hften : s'.exti.ften line = s.exti.ften line) (hvec : s'.vectors = s.vectors)
    (hmap : hd.arm ≠ none → s'.pinMap hd.pin = s.pinMap hd.pin)
    (hoff : hd.arm = none ∨ hd.enabled = false) : LineOk s' line hd where
  arm := by
    intro a ha
    obtain ⟨ht, hm⟩ := h.arm a ha
    exact ⟨ht.congr hsource hrten hften, (hmap (by rw [ha]; nofun)).trans hm⟩
  enabled := by
    intro a ha he
    rcases hoff with hoff | hoff
    · rw [ha] at hoff
      cases hoff
    · rw [he] at hoff
      cases hoff
  vector := fun he => hvec ▸ h.vector he
  wake := by
    intro t ht
    obtain ⟨htr, he⟩ := h.wake t ht
    exact ⟨htr.congr hsource hrten hften, heven.trans he⟩

/-- A holder that asks for less. -/
theorem LineOk.less {line : ℕ} {hd hd' : Holder} (h : LineOk s line hd) (hpin : hd'.pin = hd.pin)
    (harm : hd'.arm = none ∨ hd'.arm = hd.arm) (henabled : hd'.enabled = true → hd.enabled = true)
    (hwake : hd'.wake = hd.wake) : LineOk s line hd' where
  arm := by
    intro a ha
    rcases harm with harm | harm
    · rw [ha] at harm
      cases harm
    · rw [hpin]
      exact h.arm a (harm.symm.trans ha)
  enabled := by
    intro a ha he
    rcases harm with harm | harm
    · rw [ha] at harm
      cases harm
    · exact h.enabled a (harm.symm.trans ha) (henabled he)
  vector := fun he => h.vector (henabled he)
  wake := by
    intro t ht
    rw [hpin]
    exact h.wake t (hwake.symm.trans ht)

/-! ### The calls keep the pins -/

/-- A pin's line is one of the sixteen. -/
theorem extiLine_lt {pinId : ℕ} (h : pinId < gpioNum) : extiLine pinId < 16 := by
  obtain ⟨port, hport⟩ := port_of_lt h
  exact (extiLine_of_port hport).2.2

/-- The registers of the other lines are as they were. -/
theorem sameLine_update {line l : ℕ} (hne : l ≠ line) {port : GpioPort} {a b c d : Bool}
    (hsource : s'.exti.source = update s.exti.source line port)
    (hinten : s'.exti.inten = update s.exti.inten line a)
    (heven : s'.exti.even = update s.exti.even line b)
    (hrten : s'.exti.rten = update s.exti.rten line c)
    (hften : s'.exti.ften = update s.exti.ften line d)
    (hvec : s.vectors (extiVector l) = true → s'.vectors (extiVector l) = true) :
    SameLine s s' l where
  source := by rw [hsource, update_of_ne hne]
  inten := by rw [hinten, update_of_ne hne]
  even := by rw [heven, update_of_ne hne]
  rten := by rw [hrten, update_of_ne hne]
  ften := by rw [hften, update_of_ne hne]
  vectors := hvec

theorem kept_deinit (h : PinsKept s) (pinId : ℕ)
    (hok : PinEvent.Calm s (.deinit pinId)) : PinsKept (tklGpioDeinit pinId s).2 := by
  rw [tklGpioDeinit]
  split_ifs with hnum hirq
  · exact h
  · have hown := hok (not_le.mp hnum) hirq
    have hline := extiLine_lt (not_le.mp hnum)
    refine h.at_line hline rfl rfl rfl rfl rfl (fun l hne => ⟨⟨rfl, ?_, rfl, rfl, rfl, id⟩, ?_⟩)
      (fun p hp => ?_) ?_
    · exact update_of_ne hne _ _
    · exact update_of_ne hne _ _
    · exact update_of_ne (fun he => hp (congrArg extiLine he)) _ _
    dsimp only [Pins.tell]
    rw [update_self]
    split_ifs with hpin
    · have hless : LineOk s (extiLine pinId)
          { s.holder (extiLine pinId) with arm := none, enabled := false } :=
        (h.lines _ hline).less rfl (.inl rfl) nofun rfl
      exact hless.masked rfl rfl rfl rfl rfl (fun hne => absurd rfl hne) (.inl rfl)
    · exact (h.lines _ hline).masked rfl rfl rfl rfl rfl
        (fun _ => update_of_ne hpin _ _) (hown.resolve_left hpin)
  · exact h

theorem kept_irqDisable (h : PinsKept s) (pinId : ℕ)
    (hok : PinEvent.Calm s (.irqDisable pinId)) : PinsKept (tklGpioIrqDisable pinId s).2 := by
  rw [tklGpioIrqDisable]
  split_ifs with hnum
  · exact h
  have hown := hok (not_le.mp hnum)
  have hline := extiLine_lt (not_le.mp hnum)
  refine h.at_line hline rfl rfl rfl rfl rfl (fun l hne => ⟨⟨rfl, ?_, rfl, rfl, rfl, id⟩, ?_⟩)
    (fun _ _ => rfl) ?_
  · exact update_of_ne hne _ _
  · exact update_of_ne hne _ _
  dsimp only [Pins.tell]
  rw [update_self]
  split_ifs with hpin
  · have hless : LineOk s (extiLine pinId) { s.holder (extiLine pinId) with enabled := false } :=
      (h.lines _ hline).less rfl (.inr rfl) nofun rfl
    exact hless.masked rfl rfl rfl rfl rfl (fun _ => rfl) (.inr rfl)
  · exact (h.lines _ hline).masked rfl rfl rfl rfl rfl (fun _ => rfl) (hown.resolve_left hpin)

/-- The line sees the edges of the port. -/
theorem source_give (s : Pins) (pinId : ℕ) (port : GpioPort) (line : ℕ) :
    (s.give pinId port line).exti.source line = port := update_self _ _ _

/-- The pin that a line is given to is its holder. -/
theorem holder_give_pin (s : Pins) (pinId : ℕ) (port : GpioPort) (line : ℕ) :
    ((s.give pinId port line).holder line).pin = pinId := by
  dsimp only [Pins.give]
  rw [update_self]
  split_ifs with hpin
  · exact hpin
  · rfl

/-- A pin that had the line has it enabled if it was so before. -/
theorem enabled_of_give {pinId line : ℕ} {port : GpioPort}
    (h : ((s.give pinId port line).holder line).enabled = true) :
    (s.holder line).pin = pinId ∧ (s.holder line).enabled = true := by
  dsimp only [Pins.give] at h
  rw [update_self] at h
  split_ifs at h with hpin
  exact ⟨hpin, h⟩

/-- The other lines stay with their holders. -/
theorem holder_give_of_ne {pinId line l : ℕ} {port : GpioPort} (hne : l ≠ line) :
    (s.give pinId port line).holder l = s.holder l := update_of_ne hne _ _

/-- **A line is given to a pin and armed for its callback.** -/
theorem kept_irqInit (h : PinsKept s) (pinId : ℕ) (mode : GpioIrqMode) (cb : Option ℕ)
    (args : ℕ) : PinsKept (tklGpioIrqInit pinId mode cb args s).2 := by
  rw [tklGpioIrqInit]
  cases hport : pinId2GpioPort pinId with
  | none => exact h
  | some r =>
  obtain ⟨port, line⟩ := r
  obtain ⟨hextil, hnum, hline⟩ := extiLine_of_port hport
  have hpin := holder_give_pin s pinId port line
  cases hmode : mode.trig with
  | none =>
    -- the source is switched before the mode is refused
    refine h.at_line hline rfl rfl rfl rfl rfl
      (fun l hne => ⟨⟨update_of_ne hne _ _, rfl, rfl, rfl, rfl, id⟩,
        holder_give_of_ne hne⟩) (fun _ _ => rfl) ?_
    dsimp only [Pins.give]
    rw [update_self]
    split_ifs with hold
    · have hsource : ∀ t, Triggered s.exti line (s.holder line).pin t →
          Triggered (s.exti.lineConfig port line) line (s.holder line).pin t := by
        intro t ht
        refine ⟨?_, ht.rten, ht.ften⟩
        rw [hold, hport]
        exact congrArg some (Prod.ext (source_give s pinId port line).symm rfl)
      have hl := h.lines line hline
      exact ⟨fun a ha => ⟨hsource _ (hl.arm a ha).1, (hl.arm a ha).2⟩, hl.enabled, hl.vector,
        fun t ht => ⟨hsource _ (hl.wake t ht).1, (hl.wake t ht).2⟩⟩
    · exact ⟨nofun, nofun, nofun, nofun⟩
  | some trig =>
    obtain ⟨t, ht⟩ : ∃ t : Pins, t = { s.give pinId port line with
      exti := (s.give pinId port line).exti.init (extiLine pinId) false trig } := ⟨_, rfl⟩
    have hsame := sameArmed_deliver t (extiVector (extiLine pinId))
    dsimp only
    rw [← ht]
    obtain ⟨u, hu⟩ : ∃ u, t.deliver (extiVector (extiLine pinId)) = u := ⟨_, rfl⟩
    rw [hu] at hsame ⊢
    subst ht
    subst hextil
    refine h.at_line hline hsame.edges hsame.wkup hsame.pmu hsame.rtcSet hsame.rtc
      (fun l hne => ⟨sameLine_update hne hsame.source hsame.inten hsame.even hsame.rten hsame.ften
        fun hv => (congrFun hsame.vectors _).trans hv, ?_⟩) (fun p hp => ?_) ?_
    · dsimp only [Pins.tell]
      rw [update_of_ne hne, hsame.holder]
      exact update_of_ne hne _ _
    · refine (update_of_ne (fun he => hp (congrArg extiLine he)) _ _).trans ?_
      exact congrFun hsame.pinMap p
    have hheld : (u.holder (extiLine pinId)).pin = pinId := by
      rw [hsame.holder]
      exact hpin
    dsimp only [Pins.tell]
    rw [update_self, if_pos hheld]
    refine ⟨fun a ha => ?_, fun a ha he => ?_, fun he => ?_, nofun⟩
    · cases ha
      refine ⟨⟨?_, ?_, ?_⟩, ?_⟩
      · rw [hheld, hport, hsame.source]
        exact congrArg some (Prod.ext (source_give s pinId port (extiLine pinId)).symm rfl)
      · rw [hsame.rten]
        exact update_self _ _ _
      · rw [hsame.ften]
        exact update_self _ _ _
      · rw [hheld]
        exact update_self _ _ _
    · rw [hsame.inten]
      exact update_self _ _ _
    · have hgive : ((s.give pinId port (extiLine pinId)).holder (extiLine pinId)).enabled =
        true := congrFun hsame.holder (extiLine pinId) ▸ he
      rw [hsame.vectors]
      exact (h.lines _ hline).vector (enabled_of_give hgive).2

/-- A line is enabled, for whoever has it. -/
theorem kept_irqEnable (h : PinsKept s) (pinId : ℕ) : PinsKept (tklGpioIrqEnable pinId s).2 := by
  rw [tklGpioIrqEnable]
  split_ifs with hnum hirq
  · exact h
  · exact h
  have hline := extiLine_lt (not_le.mp hnum)
  have hl := h.lines _ hline
  dsimp only
  obtain ⟨t, ht⟩ : ∃ t : Pins, t =
    { s with vectors := update s.vectors (extiVector (extiLine pinId)) true } := ⟨_, rfl⟩
  have hsame := sameArmed_deliver t (extiVector (extiLine pinId))
  rw [← ht]
  obtain ⟨u, hu⟩ : ∃ u, t.deliver (extiVector (extiLine pinId)) = u := ⟨_, rfl⟩
  rw [hu] at hsame ⊢
  subst ht
  have hvec : ∀ v, s.vectors v = true → u.vectors v = true := by
    intro v hv
    rw [hsame.vectors]
    by_cases he : v = extiVector (extiLine pinId)
    · rw [he]
      exact update_self _ _ _
    · exact (update_of_ne he _ _).trans hv
  refine h.at_line hline hsame.edges hsame.wkup hsame.pmu hsame.rtcSet hsame.rtc
    (fun l hne => ⟨⟨congrFun hsame.source l, ?_, congrFun hsame.even l, congrFun hsame.rten l,
      congrFun hsame.ften l, hvec _⟩, ?_⟩) (fun p _ => congrFun hsame.pinMap p) ?_
  · exact (update_of_ne hne _ _).trans (congrFun hsame.inten l)
  · exact (update_of_ne hne _ _).trans (congrFun hsame.holder l)
  -- whoever has the line, only the enable bit and the vector are set
  have hon : ∀ v : Pins, v.exti = (u.exti.flagClear (extiLine pinId)).interruptEnable
      (extiLine pinId) → v.pinMap = u.pinMap → v.vectors = u.vectors → ∀ hd : Holder,
      hd.pin = (s.holder (extiLine pinId)).pin → hd.arm = (s.holder (extiLine pinId)).arm →
      hd.wake = (s.holder (extiLine pinId)).wake → LineOk v (extiLine pinId) hd := by
    intro v hexti hmap hvecs hd hpin harm hwake
    refine ⟨fun a ha => ?_, fun _ _ _ => ?_, fun _ => ?_, fun t ht => ?_⟩
    · obtain ⟨htr, hm⟩ := hl.arm a (harm.symm.trans ha)
      rw [hpin, hexti, hmap]
      exact ⟨htr.congr (congrFun hsame.source _) (congrFun hsame.rten _) (congrFun hsame.ften _),
        (congrFun hsame.pinMap _).trans hm⟩
    · rw [hexti]
      exact update_self _ _ _
    · rw [hvecs, hsame.vectors]
      exact update_self _ _ _
    · obtain ⟨htr, he⟩ := hl.wake t (hwake.symm.trans ht)
      rw [hpin, hexti]
      exact ⟨htr.congr (congrFun hsame.source _) (congrFun hsame.rten _) (congrFun hsame.ften _),
        (congrFun hsame.even _).trans he⟩
  refine hon _ ?_ ?_ ?_ _ ?_ ?_ ?_
  · rfl
  · rfl
  · rfl
  all_goals
    dsimp only [Pins.tell]
    rw [update_self, hsame.holder]
    split_ifs <;> rfl

/-- The routes by a line. -/
theorem wakeupRoute_exti {pinId : ℕ} {level : GpioWakeupLevel} {trig : ExtiTrig}
    (h : wakeupRoute pinId level = some (.exti trig)) : trig = .rising ∨ trig = .falling := by
  cases level with
  | low => cases h
  | high =>
    obtain ⟨w, -, hw⟩ := map_eq_some_iff.mp h
    cases hw
  | rise =>
    cases hfind : wkupPinFind pinId with
    | none =>
      simp only [wakeupRoute, hfind, map_none, getD_none, Option.some.injEq,
        WakeupRoute.exti.injEq] at h
      exact Or.inl h.symm
    | some w => simp [wakeupRoute, hfind] at h
  | fall =>
    simp only [wakeupRoute, Option.some.injEq, WakeupRoute.exti.injEq] at h
    exact Or.inr h.symm

/-- The routes by a pin of the power unit. -/
theorem wakeupRoute_pmu {pinId w : ℕ} {level : GpioWakeupLevel}
    (h : wakeupRoute pinId level = some (.pmu w)) : wkupPinFind pinId = some w := by
  cases level with
  | low => cases h
  | high =>
    obtain ⟨w', hfind, hw⟩ := map_eq_some_iff.mp h
    cases hw
    exact hfind
  | rise =>
    cases hfind : wkupPinFind pinId with
    | none => simp [wakeupRoute, hfind] at h
    | some w' => simpa [wakeupRoute, hfind] using h
  | fall => cases h

/-- Each pin of the power unit is that of one pin. -/
theorem wkupPinFind_inj {p q w : ℕ} (hp : wkupPinFind p = some w) (hq : wkupPinFind q = some w) :
    p = q := by
  rw [wkupPinFind] at hp hq
  split_ifs at hp hq <;> simp only [Option.some.injEq] at hp hq <;> omega

/-- **A line is given to a pin to wake the chip.** -/
theorem kept_wakeupSet (h : PinsKept s) (pinId : ℕ) (level : GpioWakeupLevel)
    (hok : PinEvent.Calm s (.wakeupSet pinId level)) :
    PinsKept (gpioWakeupSet pinId level s).2 := by
  rw [gpioWakeupSet]
  cases hport : pinId2GpioPort pinId with
  | none => exact h
  | some r =>
  obtain ⟨port, line⟩ := r
  obtain ⟨rfl, hnum, hline⟩ := extiLine_of_port hport
  cases hroute : wakeupRoute pinId level with
  | none => exact h
  | some route =>
  cases route with
  | pmu w =>
    have hfind := wakeupRoute_pmu hroute
    refine ⟨h.served, fun l hl => (h.lines l hl).congr ⟨rfl, rfl, rfl, rfl, rfl, id⟩ fun _ _ => rfl,
      fun p hp => ?_, h.rtc⟩
    by_cases hp' : p = pinId
    · exact ⟨w, hp' ▸ hfind, update_self _ _ _⟩
    · obtain ⟨w', hw', hset⟩ := h.wkup p ((update_of_ne hp' _ _).symm.trans hp)
      refine ⟨w', hw', ?_⟩
      by_cases he : w' = w
      · rw [he]
        exact update_self _ _ _
      · exact (update_of_ne he _ _).trans hset
  | exti trig =>
    have hheld := holder_give_pin s pinId port (extiLine pinId)
    have harm : ((s.give pinId port (extiLine pinId)).holder (extiLine pinId)).arm = none := by
      dsimp only [Pins.give]
      rw [update_self]
      split_ifs with hpin
      · refine hok hnum ?_ hpin
        rcases wakeupRoute_exti hroute with rfl | rfl
        · exact Or.inl hroute
        · exact Or.inr hroute
      · rfl
    refine h.at_line hline rfl rfl rfl rfl rfl
      (fun l hne => ⟨sameLine_update hne rfl rfl rfl rfl rfl id, ?_⟩) (fun _ _ => rfl) ?_
    · dsimp only [Pins.tell]
      rw [update_of_ne hne]
      exact update_of_ne hne _ _
    dsimp only [Pins.tell]
    rw [update_self, if_pos hheld]
    refine ⟨fun a ha => ?_, fun a ha => ?_, fun he => ?_, fun t ht => ?_⟩
    · exact absurd (harm.symm.trans ha) nofun
    · exact absurd (harm.symm.trans ha) nofun
    · exact (h.lines _ hline).vector (enabled_of_give he).2
    · cases ht
      refine ⟨⟨?_, update_self _ _ _, update_self _ _ _⟩,
        update_self _ _ _⟩
      rw [hheld, hport]
      exact congrArg some (Prod.ext (source_give s pinId port (extiLine pinId)).symm rfl)

/-- **All lines are reset**, when nothing else is armed. -/
theorem kept_wakeupClear (h : PinsKept s) (pinId : ℕ)
    (hok : PinEvent.Calm s (.wakeupClear pinId)) : PinsKept (gpioWakeupClear pinId s).2 := by
  rw [gpioWakeupClear]
  cases hport : pinId2GpioPort pinId with
  | none => exact h
  | some r =>
  obtain ⟨port, line⟩ := r
  obtain ⟨rfl, hnum, hline⟩ := extiLine_of_port hport
  obtain ⟨honly, hrtc⟩ := hok hnum
  refine ⟨h.served, fun l hl => ?_, fun p hp => ?_, fun cb args hs => ?_⟩
  · obtain ⟨harm, hwake⟩ := honly l hl
    dsimp only [Pins.tell]
    by_cases hne : l = extiLine pinId
    · subst hne
      rw [update_self]
      split_ifs with hpin
      · exact ⟨fun a ha => absurd (harm.symm.trans ha) nofun,
          fun a ha => absurd (harm.symm.trans ha) nofun, (h.lines _ hl).vector, nofun⟩
      · exact ⟨fun a ha => absurd (harm.symm.trans ha) nofun,
          fun a ha => absurd (harm.symm.trans ha) nofun, (h.lines _ hl).vector,
          fun t ht => absurd ((hwake.resolve_right hpin).symm.trans ht) nofun⟩
    · rw [update_of_ne hne]
      refine ⟨fun a ha => absurd (harm.symm.trans ha) nofun,
        fun a ha => absurd (harm.symm.trans ha) nofun, (h.lines _ hl).vector, fun t ht => ?_⟩
      -- a wake-up of the pin is on its own line
      have htr := ((h.lines l hl).wake t ht).1
      have hpin := hwake.resolve_left (by rw [ht]; nofun)
      rw [hpin] at htr
      exact absurd htr.line.symm hne
  · by_cases hp' : p = pinId
    · subst hp'
      exact absurd ((update_self p false s.wkup).symm.trans hp) nofun
    · obtain ⟨w, hw, hset⟩ := h.wkup p ((update_of_ne hp' _ _).symm.trans hp)
      refine ⟨w, hw, ?_⟩
      cases hfind : wkupPinFind pinId with
      | none => exact hset
      | some w' =>
        have hww : w ≠ w' := fun he => hp' (wkupPinFind_inj hw (he ▸ hfind))
        exact (update_of_ne hww _ _).trans hset
  · exact absurd (hrtc.symm.trans hs) nofun

/-- The alarm has a line of its own. -/
theorem ne_rtcLine {line : ℕ} (h : line < 16) : line ≠ rtcLine := by
  rw [rtcLine]
  omega

theorem kept_rtcSet (h : PinsKept s) (rtcNum ms : ℕ) (cb : Option ℕ) (args : ℕ) :
    PinsKept (rtcWakeupSet rtcNum ms cb args s).2 := by
  rw [rtcWakeupSet]
  split_ifs
  · exact h
  · exact h
  · refine ⟨h.served, fun l hl => (h.lines l hl).congr ?_ fun _ _ => rfl, h.wkup, ?_⟩
    · have hne := ne_rtcLine hl
      exact ⟨rfl, update_of_ne hne _ _, update_of_ne hne _ _,
        update_of_ne hne _ _, update_of_ne hne _ _, id⟩
    · rintro cb' args' hset
      cases hset
      have hi : update s.exti.inten rtcLine true rtcLine = true :=
        update_self _ _ _
      have hr : update s.exti.rten rtcLine true rtcLine = true :=
        update_self _ _ _
      exact ⟨rfl, hi, hr⟩

theorem kept_rtcClear (h : PinsKept s) (rtcNum : ℕ) : PinsKept (rtcWakeupClear rtcNum s).2 := by
  rw [rtcWakeupClear]
  split_ifs
  · exact h
  · exact ⟨h.served, fun l hl => (h.lines l hl).congr ⟨rfl, rfl, rfl, rfl, rfl, id⟩ fun _ _ => rfl,
      h.wkup, nofun⟩

/-! ### The edges -/

/-- An edge changes the flag of its line at most. -/
theorem sameArmed_edge (s : Pins) (latchesMasked : Bool) (line : ℕ) (rising : Bool) :
    SameArmed s { s with exti := s.exti.edge latchesMasked line rising } := by
  rw [Exti.edge]
  split_ifs <;> exact ⟨rfl, rfl, rfl, rfl, rfl, rfl, rfl, rfl, rfl, rfl, rfl, rfl, rfl⟩

/-- An edge that a line sees sets its flag. -/
theorem edge_of_seen {e : Exti} {latchesMasked rising : Bool} {line : ℕ}
    (hseen : (if rising then e.rten line else e.ften line) = true) (hin : e.inten line = true) :
    e.edge latchesMasked line rising = { e with pd := update e.pd line true } :=
  if_pos ⟨hseen, Or.inr hin⟩

/-- What an armed pin has asked for. -/
theorem armedFor_eq_some {pinId : ℕ} {rising : Bool} {a : Arm}
    (h : s.armedFor pinId rising = some a) : (s.holder (extiLine pinId)).pin = pinId ∧
      (s.holder (extiLine pinId)).enabled = true ∧ (s.holder (extiLine pinId)).arm = some a ∧
        (if rising then a.trig.rises else a.trig.falls) = true := by
  rw [Pins.armedFor] at h
  by_cases hheld : (s.holder (extiLine pinId)).pin = pinId ∧
      (s.holder (extiLine pinId)).enabled = true
  · rw [if_pos hheld] at h
    obtain ⟨harm, hkind⟩ := filter_eq_some_iff.mp h
    exact ⟨hheld.1, hheld.2, harm, hkind⟩
  · rw [if_neg hheld] at h
    cases h

/-- **An edge runs the callback of the pin it is armed for**, and no other one. -/
theorem kept_edge (h : PinsKept s) (latchesMasked : Bool) (pinId : ℕ) (rising : Bool)
    (hok : PinEvent.Calm s (.edge pinId rising)) :
    PinsKept (pinEdge latchesMasked pinId rising s) := by
  rw [pinEdge]
  cases hport : pinId2GpioPort pinId with
  | none => exact h
  | some r =>
  obtain ⟨port, line⟩ := r
  obtain ⟨rfl, hnum, hline⟩ := extiLine_of_port hport
  have hedge := sameArmed_edge s latchesMasked (extiLine pinId) rising
  have hsame : SameArmed s (if s.exti.source (extiLine pinId) = port then
      Pins.deliver { s with exti := s.exti.edge latchesMasked (extiLine pinId) rising }
        (extiVector (extiLine pinId)) else s) := by
    split_ifs
    · exact hedge.trans (sameArmed_deliver _ _)
    · exact .refl s
  have hkept := h.sameArmed hsame
  refine ⟨fun e he a ha => ?_, fun l hl => (hkept.lines l hl).congr ⟨rfl, rfl, rfl, rfl, rfl, id⟩
    fun _ _ => rfl, hkept.wkup, hkept.rtc⟩
  rcases mem_append.mp he with he | he
  · exact h.served e he a ha
  rw [mem_singleton.mp he] at ha ⊢
  change s.armedFor pinId rising = some a at ha
  obtain ⟨hpin, henabled, harm, hkind⟩ := armedFor_eq_some ha
  obtain ⟨hA, hother⟩ := hok (by rw [ha]; rfl)
  have hl := h.lines _ hline
  obtain ⟨htr, hmap⟩ := hl.arm a harm
  have hin := hl.enabled a harm henabled
  rw [hpin] at htr hmap
  have hsource : s.exti.source (extiLine pinId) = port := by
    have hp := hport.symm.trans htr.source
    rw [Option.some.injEq, Prod.mk.injEq] at hp
    exact hp.1.symm
  have hseen : (if rising then s.exti.rten (extiLine pinId) else s.exti.ften (extiLine pinId)) =
      true := by
    rw [htr.rten, htr.ften]
    exact hkind
  rw [if_pos hsource, edge_of_seen hseen hin]
  have hself := extiLine_of_lt hA
  rw [hself] at hin hother ⊢
  have hran := ran_deliver (s := { s with exti := { s.exti with
      pd := update s.exti.pd pinId true } }) hA hmap (hself ▸ hl.vector henabled)
    (update_self _ _ _) hin fun l hl' hne hv =>
      (update_of_ne hne _ _).trans (hother l hl' hne hv)
  rw [hran, drop_left]

theorem kept_alarm (h : PinsKept s) (latchesMasked : Bool) :
    PinsKept (rtcAlarm latchesMasked s) := by
  have hedge := sameArmed_edge s latchesMasked rtcLine true
  rw [rtcAlarm]
  dsimp only
  split_ifs
  · exact h.sameArmed (hedge.trans
      ⟨rfl, rfl, rfl, rfl, rfl, rfl, rfl, rfl, rfl, rfl, rfl, rfl, rfl⟩)
  · exact h.sameArmed hedge
  · exact h

/-- **The pins are kept** by every event that meets the condition. -/
theorem kept_step {latchesMasked : Bool} {i : PinEvent} (h : PinsKept s) (hok : i.Calm s)
    (hstep : pinStep latchesMasked i s = some s') : PinsKept s' := by
  obtain rfl := Option.some.inj hstep
  cases i with
  | irqInit pinId mode cb args => exact kept_irqInit h pinId mode cb args
  | irqEnable pinId => exact kept_irqEnable h pinId
  | irqDisable pinId => exact kept_irqDisable h pinId hok
  | deinit pinId => exact kept_deinit h pinId hok
  | wakeupSet pinId level => exact kept_wakeupSet h pinId level hok
  | wakeupClear pinId => exact kept_wakeupClear h pinId hok
  | rtcSet rtcNum ms cb args => exact kept_rtcSet h rtcNum ms cb args
  | rtcClear rtcNum => exact kept_rtcClear h rtcNum
  | edge pinId rising => exact kept_edge h latchesMasked pinId rising hok
  | alarm => exact kept_alarm h latchesMasked

theorem kept_init : PinsKept pinsInit where
  served := nofun
  lines := fun _ _ => ⟨nofun, nofun, nofun, nofun⟩
  wkup := nofun
  rtc := nofun

end Gd32.Tkl
