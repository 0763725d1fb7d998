import Gd32Firmware.Tkl.SoftI2c

/-!
# A write and a read as one transaction

`tkl_i2c_master_send` with `xfer_pending` and then `tkl_i2c_master_receive` are to be one transaction on
the bus: the second call starts again without a stop. A port is driven by the controller or, where its
pins are not the controller's, from GPIO pins.

The controller is a parameter: what is written to its registers, and what comes of a wait for one of
its flags (`Controller`). `Obeys` says that it does what it is told; without automatic
end it holds the clock after the last byte.

`restart_iff` says when the two calls are one transaction: where the lines are driven from
GPIO pins and something is read, and never with the controller. Before it begins the second call finds
the clock held, takes this for a bus that is stuck, and clocks it free.
-/

open List

namespace Gd32.Tkl

open OpenDrain

/-! ### The controller -/

/-- The flags that are waited for. -/
inductive I2cFlag where
  | tbe
  | rbne
  | tc
  | stpdet

/-- What comes of a wait. -/
inductive Waited where
  | set
  /-- `I2C_FLAG_NACK` is. -/
  | nack
  /-- Neither, up to `I2C_HW_WAIT_LIMIT`. -/
  | timeout

/-- An I2C controller. -/
structure Controller (σ : Type) where
  lines : σ → Lines
  /-- The state after a reset, with the timing registers loaded and the controller enabled. -/
  reset : σ
  disable : σ → σ
  /-- `i2c_enable`, and `i2c_error_flags_clear`. -/
  enable : σ → σ
  /-- `I2C_FLAG_I2CBSY` after it has been waited for to be clear. -/
  waitIdle : Slave → σ → Wire → Bool × σ × Wire
  /-- The address, the number of bytes, the direction and automatic end; `i2c_start_on_bus`. -/
  start : (devAddr size : ℕ) → (read autoEnd : Bool) → σ → σ
  transmit : UInt8 → σ → σ
  receive : σ → UInt8 × σ
  /-- The loop of `I2C_WAIT_OR_NACK`. -/
  wait : Slave → I2cFlag → σ → Wire → Waited × σ × Wire
  /-- `i2c_flag_clear` for `I2C_FLAG_NACK`, and `i2c_stop_on_bus`. -/
  stop : Slave → σ → Wire → σ × Wire
  /-- `i2c_flag_clear` for `I2C_FLAG_STPDET`. -/
  clearStop : σ → σ

/-- A port. -/
structure I2cPort (σ : Type) where
  soft : Bool
  addrWidth : ℕ
  needRecover : Bool
  xferCount : ℕ
  /-- The GPIO output registers of the two pins. -/
  latch : Lines
  ctl : σ
  wire : Wire

section Code

variable {σ : Type} (ctl : Controller σ) (slave : Slave)

/-! ### The pins as GPIO pins -/

/-- `tkl_gpio_init` for the clock: the pin takes the level of its output register. -/
def I2cPort.initScl (p : I2cPort σ) : I2cPort σ :=
  { p with wire := p.wire.setScl slave p.latch.scl }

/-- `tkl_gpio_init` for the data. -/
def I2cPort.initSda (p : I2cPort σ) : I2cPort σ :=
  { p with wire := p.wire.setSda slave p.latch.sda }

/-- `tkl_gpio_write` for the clock. -/
def I2cPort.writeScl (b : Bool) (p : I2cPort σ) : I2cPort σ :=
  { p with latch := { p.latch with scl := b }, wire := p.wire.setScl slave b }

/-- `tkl_gpio_write` for the data. -/
def I2cPort.writeSda (b : Bool) (p : I2cPort σ) : I2cPort σ :=
  { p with latch := { p.latch with sda := b }, wire := p.wire.setSda slave b }

/-- `sys_us_delay`. -/
def I2cPort.delay (p : I2cPort σ) : I2cPort σ := { p with wire := p.wire.tick slave }

/-- `i2c0_gpio_config` and `i2c1_gpio_config`. -/
def i2cGpioConfig (p : I2cPort σ) : I2cPort σ :=
  { p with wire := (p.wire.setSda slave (ctl.lines p.ctl).sda).setScl slave (ctl.lines p.ctl).scl }

/-- The controller does something else to the lines at once. -/
def I2cPort.load (c : σ) (p : I2cPort σ) : I2cPort σ :=
  { p with
    ctl := c
    wire := Wire.tick slave { p.wire with scl := (ctl.lines c).scl, sda := (ctl.lines c).sda } }

/-! ### Before a transfer -/

/-- The loop of `i2c_bus_recover`, with the number of clocks that are left. -/
def i2cRecoverClocks : ℕ → I2cPort σ → I2cPort σ
  | 0, p => p
  | n + 1, p =>
    if p.wire.sdaLevel then p
    else i2cRecoverClocks n ((((p.writeScl slave false).delay slave).writeScl slave true).delay slave)

def i2cBusRecover (p : I2cPort σ) : I2cPort σ :=
  let p := (p.initScl slave).initSda slave
  let p := ((p.writeSda slave true).writeScl slave true).delay slave
  let p := i2cRecoverClocks slave 9 p
  let p := ((p.writeScl slave false).writeSda slave false).delay slave
  let p := (p.writeScl slave true).delay slave
  i2cGpioConfig ctl slave ((p.writeSda slave true).delay slave)

def hwI2cPeriphReset (p : I2cPort σ) : I2cPort σ := p.load ctl slave ctl.reset

def i2cBusIsIdle (p : I2cPort σ) : Bool := p.wire.sclLevel && p.wire.sdaLevel

/-- An attempt to find the controller idle: whether it is still busy. -/
def i2cAttempt (p : I2cPort σ) : Bool × I2cPort σ :=
  let p := p.load ctl slave (ctl.disable p.ctl)
  let p := p.load ctl slave (ctl.enable p.ctl)
  let r := ctl.waitIdle slave p.ctl p.wire
  (r.1, { p with ctl := r.2.1, wire := r.2.2 })

/-- The beginning of `i2c_master_xfer_setup`: after a failed transfer, and where a line is low. -/
def i2cFreeBus (p : I2cPort σ) : I2cPort σ :=
  if p.needRecover || !i2cBusIsIdle p then
    { hwI2cPeriphReset ctl slave (i2cBusRecover ctl slave p) with needRecover := false }
  else p

/-- The end of `i2c_master_xfer_setup`. -/
def i2cArm (devAddr size : ℕ) (read xferPending : Bool) (p : I2cPort σ) : I2cPort σ :=
  { p with ctl := ctl.start devAddr size read (!xferPending) p.ctl }

def i2cMasterXferSetup (devAddr size : ℕ) (read xferPending : Bool) (p : I2cPort σ) :
    I2cResult × I2cPort σ :=
  if 0xFF < size then (.invalidParm, p)
  else
    let r := i2cAttempt ctl slave (i2cFreeBus ctl slave p)
    if r.1 then
      let s := i2cAttempt ctl slave (hwI2cPeriphReset ctl slave (i2cBusRecover ctl slave r.2))
      if s.1 then (.busy, s.2) else (.ok, i2cArm ctl devAddr size read xferPending s.2)
    else (.ok, i2cArm ctl devAddr size read xferPending r.2)

/-! ### Transfers -/

/-- `I2C_WAIT_OR_NACK`; `OPRT_OK` if what follows it is reached. -/
def i2cWaitOrNack (flag : I2cFlag) (err : I2cResult) (p : I2cPort σ) : I2cResult × I2cPort σ :=
  let r := ctl.wait slave flag p.ctl p.wire
  match r.1 with
  | .set => (.ok, { p with ctl := r.2.1, wire := r.2.2 })
  | .nack =>
    let s := ctl.stop slave r.2.1 r.2.2
    (.addrNoAck, { p with ctl := s.1, wire := s.2 })
  | .timeout => (err, { p with ctl := r.2.1, wire := r.2.2 })

def i2cMasterXferFinish (xferPending : Bool) (err : I2cResult) (p : I2cPort σ) :
    I2cResult × I2cPort σ :=
  if xferPending then i2cWaitOrNack ctl slave .tc err p
  else
    let r := i2cWaitOrNack ctl slave .stpdet err p
    if r.1 = .ok then (.ok, { r.2 with ctl := ctl.clearStop r.2.ctl }) else r

/-- The loop of `hw_i2c_master_send`, and what follows it. -/
def hwSendBytes (xferPending : Bool) : List UInt8 → I2cPort σ → I2cResult × I2cPort σ
  | [], p => i2cMasterXferFinish ctl slave xferPending .writeFailed p
  | b :: bs, p =>
    let r := i2cWaitOrNack ctl slave .tbe .writeFailed p
    if r.1 = .ok then
      hwSendBytes xferPending bs
        { r.2 with ctl := ctl.transmit b r.2.ctl, xferCount := r.2.xferCount + 1 }
    else r

def hwI2cMasterSend (devAddr : ℕ) (data : List UInt8) (xferPending : Bool) (p : I2cPort σ) :
    I2cResult × I2cPort σ :=
  if p.addrWidth ≠ 7 then (.notSupported, p)
  else
    let r := i2cMasterXferSetup ctl slave devAddr data.length false xferPending p
    if r.1 = .ok then hwSendBytes ctl slave xferPending data { r.2 with xferCount := 0 } else r

/-- The loop of `hw_i2c_master_receive`, with the number of bytes that are left, and what follows it. -/
def hwReceiveBytes (xferPending : Bool) : ℕ → I2cPort σ → I2cResult × List UInt8 × I2cPort σ
  | 0, p =>
    let r := i2cMasterXferFinish ctl slave xferPending .readFailed p
    (r.1, [], r.2)
  | n + 1, p =>
    let r := i2cWaitOrNack ctl slave .rbne .readFailed p
    if r.1 = .ok then
      let b := ctl.receive r.2.ctl
      let s := hwReceiveBytes xferPending n { r.2 with ctl := b.2, xferCount := r.2.xferCount + 1 }
      (s.1, b.1 :: s.2.1, s.2.2)
    else (r.1, [], r.2)

def hwI2cMasterReceive (devAddr size : ℕ) (xferPending : Bool) (p : I2cPort σ) :
    I2cResult × List UInt8 × I2cPort σ :=
  if p.addrWidth ≠ 7 then (.notSupported, [], p)
  else
    let r := i2cMasterXferSetup ctl slave devAddr size true xferPending p
    if r.1 = .ok then hwReceiveBytes ctl slave xferPending size { r.2 with xferCount := 0 }
    else (r.1, [], r.2)

def tklI2cMasterSend (devAddr : ℕ) (data : List UInt8) (xferPending : Bool) (p : I2cPort σ) :
    I2cResult × I2cPort σ :=
  if p.soft then
    let r := swI2cMasterSend slave devAddr data xferPending p.wire
    (r.result, { p with xferCount := r.xferCount, wire := r.wire })
  else
    let r := hwI2cMasterSend ctl slave devAddr data xferPending p
    if r.1 = .ok then r else (r.1, { r.2 with needRecover := true })

def tklI2cMasterReceive (devAddr size : ℕ) (xferPending : Bool) (p : I2cPort σ) :
    I2cResult × List UInt8 × I2cPort σ :=
  if p.soft then
    let r := swI2cMasterReceive slave devAddr size xferPending p.wire
    (r.result, r.data, { p with xferCount := r.xferCount, wire := r.wire })
  else
    let r := hwI2cMasterReceive ctl slave devAddr size xferPending p
    if r.1 = .ok then r else (r.1, r.2.1, { r.2.2 with needRecover := true })

end Code

/-! ### What is to be so -/

section Spec

variable {σ : Type}

/-- **The two calls are one transaction on the bus**: if the first one returns `OPRT_OK`, there is a
start, the address and the data, another start, the address and, if the slave acknowledges it, as many
bytes as are asked for, which are returned, and a stop; and nothing else. -/
def RestartRight (ctl : Controller σ) (slave : Slave) (devAddr : ℕ) (data : List UInt8) (size : ℕ)
    (p : I2cPort σ) : Prop :=
  let s := tklI2cMasterSend ctl slave devAddr data true p
  let r := tklI2cMasterReceive ctl slave devAddr size false s.2
  s.1 = .ok → ∃ answer,
    (exchange slave r.2.2.wire.hist).out = (exchange slave p.wire.hist).out ++
      ((.start, true) :: (addressByte devAddr false :: data).flatMap (written false)) ++
        ((.start, true) :: answer ++ [(.stop, true)]) ∧
    ((r.1 = .ok ∧ r.2.1.length = size ∧
        answer = written false (addressByte devAddr true) ++ bytesRead r.2.1) ∨
      (r.1 = .addrNoAck ∧ answer = written true (addressByte devAddr true)))

/-- The slave acknowledges everything. -/
def Acknowledges (slave : Slave) : Prop :=
  ∀ w out, Down slave w out → (phaseOf out = .writeAck ∨ ∃ read, phaseOf out = .addressAck read) →
    (slave w.hist).sda = false

/-- **The controller does what it is told**, as far as it is to send without automatic end to a slave
that acknowledges everything. While it is `free` it has let go of the lines; while it is `sending`, some
bytes are still to come, and what it has been told comes to some exchange. -/
structure Obeys (ctl : Controller σ) (free : σ → Prop)
    (sending : Slave → σ → Wire → ℕ → List (Symbol × Bool) → Prop) : Prop where
  /-- To disable the controller releases both lines. -/
  disabled : ∀ c, ctl.lines (ctl.disable c) = ⟨true, true⟩
  enabled : ∀ c, free (ctl.enable (ctl.disable c))
  released : ∀ c, free c → ctl.lines c = ⟨true, true⟩
  idle : ∀ {slave c w}, Follows slave i2cSoftStretchLimit → free c → Idle slave w →
    ∃ c' w', ctl.waitIdle slave c w = (false, c', w') ∧ free c' ∧ Idle slave w' ∧
      (exchange slave w'.hist).out = (exchange slave w.hist).out
  start : ∀ {slave c w n} devAddr, Follows slave i2cSoftStretchLimit → Acknowledges slave →
    free c → Idle slave w → n ≤ 255 →
      sending slave (ctl.start devAddr n false false c) w n ((exchange slave w.hist).out ++
        ((.start, true) :: written false (addressByte devAddr false)))
  tbe : ∀ {slave c w n out}, Follows slave i2cSoftStretchLimit → Acknowledges slave →
    sending slave c w (n + 1) out →
      ∃ c' w', ctl.wait slave .tbe c w = (.set, c', w') ∧ sending slave c' w' (n + 1) out
  transmit : ∀ {slave c w n out} b, Follows slave i2cSoftStretchLimit → Acknowledges slave →
    sending slave c w (n + 1) out →
      sending slave (ctl.transmit b c) w n (out ++ written false b)
  /-- After the last byte it holds the clock. -/
  tc : ∀ {slave c w out}, Follows slave i2cSoftStretchLimit → Acknowledges slave →
    sending slave c w 0 out →
      ∃ c' w', ctl.wait slave .tc c w = (.set, c', w') ∧ Low slave w' out
  /-- Whatever it does, what has been on the lines stays. -/
  laterIdle : ∀ slave c w, Wire.Later w (ctl.waitIdle slave c w).2.2
  /-- Whatever it does, what has been on the lines stays. -/
  laterWait : ∀ slave flag c w, Wire.Later w (ctl.wait slave flag c w).2.2
  /-- Whatever it does, what has been on the lines stays. -/
  laterStop : ∀ slave c w, Wire.Later w (ctl.stop slave c w).2

/-- A port as `tkl_i2c_init` leaves it, on an idle bus. -/
structure Fresh (free : σ → Prop) (slave : Slave) (p : I2cPort σ) : Prop where
  addrWidth : p.addrWidth = 7
  noted : p.needRecover = false
  free : free p.ctl
  idle : Idle slave p.wire

end Spec

/-! ### The controller sends -/

section Send

variable {σ : Type} {ctl : Controller σ} {free : σ → Prop}
  {sending : Slave → σ → Wire → ℕ → List (Symbol × Bool) → Prop} {slave : Slave} {p : I2cPort σ}
  {out : List (Symbol × Bool)}

/-- An idle bus stays idle. -/
theorem Idle.tick {w : Wire} (hf : Follows slave i2cSoftStretchLimit) (h : Idle slave w) :
    Idle slave (w.tick slave) ∧
      (exchange slave (w.tick slave).hist).out = (exchange slave w.hist).out := by
  obtain ⟨t, hhist⟩ := h.level
  have hhigh : High slave w (exchange slave w.hist).out (exchange slave w.hist).sample true :=
    ⟨h.scl, ⟨t, by rw [hhist, h.sda]; rfl⟩, h.drive, rfl⟩
  have hnext := hhigh.tick hf
  obtain ⟨t', hhist'⟩ := hnext.level
  refine ⟨⟨h.scl, h.sda, ⟨t', ?_⟩, hnext.drive⟩, congrArg Decoded.out hnext.exchanged⟩
  rw [hhist', Bool.and_true]
  exact congrArg (fun b => Lines.mk true b :: t') h.sda

theorem Idle.load (hf : Follows slave i2cSoftStretchLimit) (h : Idle slave p.wire) {c : σ}
    (hc : ctl.lines c = ⟨true, true⟩) :
    Idle slave (p.load ctl slave c).wire ∧
      (exchange slave (p.load ctl slave c).wire.hist).out = (exchange slave p.wire.hist).out := by
  have hsame : { p.wire with scl := (ctl.lines c).scl, sda := (ctl.lines c).sda } = p.wire := by
    obtain ⟨hscl, hsda, -, -⟩ := h
    rw [hc]
    generalize p.wire = w at hscl hsda ⊢
    cases w
    cases hscl
    cases hsda
    rfl
  rw [I2cPort.load, hsame]
  exact h.tick hf

theorem i2cBusIsIdle_of_idle (h : Idle slave p.wire) : i2cBusIsIdle p = true := by
  obtain ⟨t, hhist⟩ := h.level
  rw [i2cBusIsIdle, Wire.sclLevel, Wire.sdaLevel, hhist]
  rfl

/-- The first attempt, on an idle bus. -/
theorem i2cAttempt_of_idle (hctl : Obeys ctl free sending)
    (hf : Follows slave i2cSoftStretchLimit) (h : Idle slave p.wire) : ∃ c w, free c ∧
      Idle slave w ∧ (exchange slave w.hist).out = (exchange slave p.wire.hist).out ∧
      i2cAttempt ctl slave p = (false, { p with ctl := c, wire := w }) := by
  have hdisabled := h.load (p := p) hf (hctl.disabled p.ctl)
  have hfree := hctl.enabled p.ctl
  have henabled := hdisabled.1.load (p := p.load ctl slave (ctl.disable p.ctl)) hf
    (hctl.released _ hfree)
  obtain ⟨c, w, hwait, hc, hw, hout⟩ := hctl.idle hf hfree henabled.1
  refine ⟨c, w, hc, hw, hout.trans (henabled.2.trans hdisabled.2), ?_⟩
  exact congrArg (fun r : Bool × σ × Wire => (r.1, { p with ctl := r.2.1, wire := r.2.2 })) hwait

/-- `i2c_master_xfer_setup` on an idle bus. -/
theorem i2cMasterXferSetup_of_idle (hctl : Obeys ctl free sending)
    (hf : Follows slave i2cSoftStretchLimit) (hp : Fresh free slave p) (devAddr : ℕ) {n : ℕ}
    (hn : n ≤ 255) : ∃ c w, free c ∧ Idle slave w ∧
      (exchange slave w.hist).out = (exchange slave p.wire.hist).out ∧
      i2cMasterXferSetup ctl slave devAddr n false true p =
        (.ok, { p with ctl := ctl.start devAddr n false false c, wire := w }) := by
  obtain ⟨c, w, hc, hw, hout, hattempt⟩ := i2cAttempt_of_idle hctl hf hp.idle
  refine ⟨c, w, hc, hw, hout, ?_⟩
  have hfree : i2cFreeBus ctl slave p = p := by
    rw [i2cFreeBus, hp.noted, i2cBusIsIdle_of_idle hp.idle, if_neg nofun]
  rw [i2cMasterXferSetup, if_neg (by omega), hfree, hattempt, if_neg nofun, i2cArm, Bool.not_true]

/-- The loop of `hw_i2c_master_send`. -/
theorem hwSendBytes_of_sending (hctl : Obeys ctl free sending)
    (hf : Follows slave i2cSoftStretchLimit) (hack : Acknowledges slave) (data : List UInt8)
    (h : sending slave p.ctl p.wire data.length out) :
    ∃ c w n, hwSendBytes ctl slave true data p =
        (.ok, { p with ctl := c, wire := w, xferCount := n }) ∧
      Low slave w (out ++ data.flatMap (written false)) := by
  induction data generalizing p out with
  | nil =>
    obtain ⟨c, w, hwait, hlow⟩ := hctl.tc hf hack h
    refine ⟨c, w, p.xferCount, ?_, ?_⟩
    · rw [hwSendBytes, i2cMasterXferFinish, if_pos rfl, i2cWaitOrNack, hwait]
    · rw [flatMap_nil, append_nil]
      exact hlow
  | cons b bs ih =>
    obtain ⟨c, w, hwait, hsending⟩ := hctl.tbe hf hack h
    have hnext := hctl.transmit b hf hack hsending
    obtain ⟨c', w', n, hrest, hlow⟩ :=
      ih (p := { p with ctl := ctl.transmit b c, wire := w, xferCount := p.xferCount + 1 }) hnext
    refine ⟨c', w', n, ?_, ?_⟩
    · rw [hwSendBytes, i2cWaitOrNack, hwait]
      exact hrest
    · rw [flatMap_cons, ← append_assoc]
      exact hlow

/-- A call that sends without a stop leaves the clock low. -/
theorem tklI2cMasterSend_of_fresh (hctl : Obeys ctl free sending)
    (hf : Follows slave i2cSoftStretchLimit) (hack : Acknowledges slave) (hp : Fresh free slave p)
    (hsoft : p.soft = false) (devAddr : ℕ) {data : List UInt8} (hdata : data.length ≤ 255) :
    ∃ c w n, tklI2cMasterSend ctl slave devAddr data true p =
        (.ok, { p with ctl := c, wire := w, xferCount := n }) ∧
      Low slave w ((exchange slave p.wire.hist).out ++
        ((.start, true) :: (addressByte devAddr false :: data).flatMap (written false))) := by
  obtain ⟨c, w, hc, hw, hout, hsetup⟩ := i2cMasterXferSetup_of_idle hctl hf hp devAddr hdata
  have hsending := hctl.start devAddr hf hack hc hw hdata
  obtain ⟨c', w', n, hsend, hlow⟩ := hwSendBytes_of_sending hctl hf hack data hsending
    (p := { p with ctl := ctl.start devAddr data.length false false c, wire := w, xferCount := 0 })
  refine ⟨c', w', n, ?_, ?_⟩
  · rw [tklI2cMasterSend, if_neg (Bool.eq_false_iff.mp hsoft), hwI2cMasterSend,
      if_neg (not_not.mpr hp.addrWidth), hsetup, if_pos rfl, hsend, if_pos rfl]
  · rw [← hout, flatMap_cons]
    rw [append_assoc] at hlow
    exact hlow

end Send

/-! ### A clock that is held -/

section Recover

variable {σ : Type} {ctl : Controller σ} {slave : Slave} {p : I2cPort σ}
  {out : List (Symbol × Bool)}

theorem later_writeScl (b : Bool) (p : I2cPort σ) : Wire.Later p.wire (p.writeScl slave b).wire :=
  Wire.later_setScl slave b p.wire

theorem later_writeSda (b : Bool) (p : I2cPort σ) : Wire.Later p.wire (p.writeSda slave b).wire :=
  Wire.later_setSda slave b p.wire

theorem later_delay (p : I2cPort σ) : Wire.Later p.wire (p.delay slave).wire :=
  Wire.later_tick slave p.wire

theorem later_load (c : σ) (p : I2cPort σ) : Wire.Later p.wire (p.load ctl slave c).wire :=
  Wire.later_tick slave ⟨p.wire.hist, (ctl.lines c).scl, (ctl.lines c).sda⟩

theorem later_i2cGpioConfig (p : I2cPort σ) : Wire.Later p.wire (i2cGpioConfig ctl slave p).wire :=
  (Wire.later_setSda slave _ p.wire).trans (Wire.later_setScl slave _ _)

theorem later_i2cRecoverClocks (n : ℕ) (p : I2cPort σ) :
    Wire.Later p.wire (i2cRecoverClocks slave n p).wire := by
  induction n generalizing p with
  | zero => exact suffix_rfl
  | succ n ih =>
    rw [i2cRecoverClocks]
    split
    · exact suffix_rfl
    · exact (((later_writeScl false p).trans (later_delay _)).trans
        ((later_writeScl true _).trans (later_delay _))).trans (ih _)

/-- A stop by hand. -/
theorem later_stop (p : I2cPort σ) : Wire.Later p.wire
    (i2cGpioConfig ctl slave (((((((p.writeSda slave false).delay slave).writeScl slave true).delay
      slave).writeSda slave true).delay slave))).wire :=
  ((((later_writeSda false p).trans (later_delay _)).trans
    ((later_writeScl true _).trans (later_delay _))).trans
      ((later_writeSda true _).trans (later_delay _))).trans (later_i2cGpioConfig _)

theorem later_i2cBusRecover (p : I2cPort σ) : Wire.Later p.wire (i2cBusRecover ctl slave p).wire := by
  have hinit : Wire.Later p.wire ((p.initScl slave).initSda slave).wire :=
    (Wire.later_setScl slave _ p.wire).trans (Wire.later_setSda slave _ _)
  exact (hinit.trans (((later_writeSda true _).trans (later_writeScl true _)).trans
    (later_delay _))).trans ((later_i2cRecoverClocks 9 _).trans
      ((later_writeScl false _).trans (later_stop _)))

/-- `i2c_bus_recover` with the clock held gives a clock pulse to a slave that does not hold it. -/
theorem i2cBusRecover_of_low (ctl : Controller σ) (hf : Follows slave i2cSoftStretchLimit)
    (hfast : ∀ h, (slave h).scl = true) (h : Low slave p.wire out)
    (hturn : (phaseOf out).slaveMay = false) (hlatch : p.latch.scl = false) :
    out ++ [(.bit true, true)] <+: (exchange slave (i2cBusRecover ctl slave p).wire.hist).out := by
  have hlow : Low slave (((p.initScl slave).initSda slave).writeSda slave true).wire out := by
    have hscl : Low slave (p.initScl slave).wire out := by
      rw [I2cPort.initScl, hlatch]
      exact ⟨Down.tick ⟨h.down.low, h.down.exchanged⟩ rfl, rfl⟩
    exact (hscl.swSda _).swSda true
  rw [i2cBusRecover]
  generalize hq : ((p.initScl slave).initSda slave).writeSda slave true = q at hlow
  have hsda : q.wire.sda = true := by rw [← hq]; rfl
  have hrises := Rises.of_tick hf ⟨hlow.down.low, hlow.down.exchanged⟩ rfl (hfast q.wire.hist)
    (w := { q.wire with scl := true })
  have hx : (slave q.wire.hist).sda = true := hrises.turn hf hturn
  have hsample : (q.wire.sda && (slave q.wire.hist).sda) = true := by rw [hsda, hx]; rfl
  have hhigh : High slave ((q.writeScl slave true).delay slave).wire out
    (some (q.wire.sda && (slave q.wire.hist).sda)) (slave q.wire.hist).sda := hrises.high.tick hf
  have hhold : ((q.writeScl slave true).delay slave).wire.sda = true := hsda
  rw [hsample, hx] at hhigh
  generalize (q.writeScl slave true).delay slave = r at hhigh hhold
  have hlevel : r.wire.sdaLevel = true := by
    rw [sdaLevel_of_high hhigh, hhold]
    rfl
  rw [i2cRecoverClocks, if_pos hlevel]
  have hpulse : (exchange slave (r.writeScl slave false).wire.hist).out =
    out ++ [(.bit true, true)] := congrArg Decoded.out hhigh.fallen
  rw [← hpulse]
  exact decode_of_suffix _ (later_stop _)

end Recover

/-! ### The second call -/

section Second

variable {σ : Type} {ctl : Controller σ} {free : σ → Prop}
  {sending : Slave → σ → Wire → ℕ → List (Symbol × Bool) → Prop} (slave : Slave) {p : I2cPort σ}
  {out : List (Symbol × Bool)}

theorem later_i2cAttempt (hctl : Obeys ctl free sending) (p : I2cPort σ) :
    Wire.Later p.wire (i2cAttempt ctl slave p).2.wire :=
  ((later_load _ p).trans (later_load _ _)).trans (hctl.laterIdle slave _ _)

theorem later_i2cWaitOrNack (hctl : Obeys ctl free sending) (flag : I2cFlag) (err : I2cResult)
    (p : I2cPort σ) : Wire.Later p.wire (i2cWaitOrNack ctl slave flag err p).2.wire := by
  have hwait := hctl.laterWait slave flag p.ctl p.wire
  rw [i2cWaitOrNack]
  cases (ctl.wait slave flag p.ctl p.wire).1 with
  | set => exact hwait
  | nack => exact hwait.trans (hctl.laterStop slave _ _)
  | timeout => exact hwait

theorem later_i2cMasterXferFinish (hctl : Obeys ctl free sending) (xferPending : Bool)
    (err : I2cResult) (p : I2cPort σ) :
    Wire.Later p.wire (i2cMasterXferFinish ctl slave xferPending err p).2.wire := by
  rw [i2cMasterXferFinish]
  split
  · exact later_i2cWaitOrNack slave hctl _ _ p
  · dsimp only
    split
    · exact later_i2cWaitOrNack slave hctl .stpdet err p
    · exact later_i2cWaitOrNack slave hctl .stpdet err p

theorem later_hwReceiveBytes (hctl : Obeys ctl free sending) (xferPending : Bool) (n : ℕ) {w : Wire}
    {p : I2cPort σ} (h : Wire.Later w p.wire) :
    Wire.Later w (hwReceiveBytes ctl slave xferPending n p).2.2.wire := by
  induction n generalizing p with
  | zero => exact h.trans (later_i2cMasterXferFinish slave hctl xferPending .readFailed p)
  | succ n ih =>
    have hwait := h.trans (later_i2cWaitOrNack slave hctl .rbne .readFailed p)
    rw [hwReceiveBytes]
    split
    · exact ih hwait
    · exact hwait

/-- After the bus has been freed it is not as before. -/
theorem later_hwI2cMasterReceive (hctl : Obeys ctl free sending) (devAddr : ℕ) {size : ℕ}
    (hsize : size ≤ 0xFF) (xferPending : Bool) (haddr : p.addrWidth = 7) :
    Wire.Later (i2cFreeBus ctl slave p).wire
      (hwI2cMasterReceive ctl slave devAddr size xferPending p).2.2.wire := by
  have hsetup : Wire.Later (i2cFreeBus ctl slave p).wire
      (i2cMasterXferSetup ctl slave devAddr size true xferPending p).2.wire := by
    rw [i2cMasterXferSetup, if_neg (by omega)]
    have hfirst := later_i2cAttempt slave hctl (i2cFreeBus ctl slave p)
    dsimp only
    generalize i2cAttempt ctl slave (i2cFreeBus ctl slave p) = r at hfirst ⊢
    split
    · have hsecond := ((hfirst.trans (later_i2cBusRecover _)).trans (later_load ctl.reset _)).trans
        (later_i2cAttempt slave hctl (hwI2cPeriphReset ctl slave (i2cBusRecover ctl slave r.2)))
      split
      · exact hsecond
      · exact hsecond
    · exact hfirst
  rw [hwI2cMasterReceive, if_neg (not_not.mpr haddr)]
  dsimp only
  split
  · exact later_hwReceiveBytes slave hctl _ _ hsetup
  · exact hsetup

variable {slave}

/-- With the clock held the second call does not start next. -/
theorem not_restart_of_low (hctl : Obeys ctl free sending)
    (hf : Follows slave i2cSoftStretchLimit) (hfast : ∀ h, (slave h).scl = true)
    (h : Low slave p.wire out) (hturn : (phaseOf out).slaveMay = false)
    (hlatch : p.latch.scl = false) (haddr : p.addrWidth = 7) (devAddr : ℕ) {size : ℕ}
    (hsize : size ≤ 0xFF) :
    ¬ out ++ [(.start, true)] <+:
      (exchange slave (hwI2cMasterReceive ctl slave devAddr size false p).2.2.wire.hist).out := by
  have hfreed : i2cFreeBus ctl slave p =
      { hwI2cPeriphReset ctl slave (i2cBusRecover ctl slave p) with needRecover := false } := by
    have hbusy : i2cBusIsIdle p = false := by
      rw [i2cBusIsIdle, sclLevel_of_down h.down, Bool.false_and]
    rw [i2cFreeBus, hbusy, Bool.not_false, Bool.or_true, if_pos rfl]
  have hlater := later_hwI2cMasterReceive slave hctl devAddr hsize false haddr
  rw [hfreed] at hlater
  have hpulse := (i2cBusRecover_of_low ctl hf hfast h hturn hlatch).trans
    (decode_of_suffix _ ((later_load ctl.reset _).trans hlater))
  intro hstart
  have heq := List.IsPrefix.eq_of_length (prefix_of_prefix_length_le hpulse hstart (by simp))
    (by simp)
  rw [append_cancel_left_eq] at heq
  exact nomatch heq

end Second

/-! ### A slave that acknowledges everything -/

section Acknowledged

variable {slave : Slave} {w : Wire} {out : List (Symbol × Bool)}

theorem zeros_acknowledges : Acknowledges zeros := by
  rintro w out h hphase
  rw [zeros_of_down h]
  rcases hphase with hphase | ⟨read, hphase⟩
  · rw [hphase]
    rfl
  · rw [hphase]
    rfl

theorem swWriteByte_acked (hf : Follows slave i2cSoftStretchLimit) (hack : Acknowledges slave)
    (b : UInt8) (h : Low slave w out)
    (hphase : phaseOf out = .write 0 ∨ phaseOf out = .address 0) :
    (swWriteByte slave b w).1 = true ∧
      Low slave (swWriteByte slave b w).2 (out ++ written false b) := by
  have hquiet : Phase.quiet 8 (phaseOf out) = true := by
    rcases hphase with hphase | hphase
    · rw [hphase]
      rfl
    · rw [hphase]
      rfl
  obtain ⟨nack, hnack, hlow, v, hv, hdrive⟩ := swWriteByte_of_low hf b h hquiet
  have hanswer := hack v _ hv (by
    rw [phaseOf_append]
    rcases hphase with hphase | hphase
    · exact .inl (by rw [hphase]; rfl)
    · exact .inr ⟨b.toNat.testBit 0, by rw [hphase]; rfl⟩)
  rw [hdrive] at hanswer
  obtain rfl : nack = false := hanswer
  exact ⟨hnack, hlow⟩

theorem swSendBytes_acked (hf : Follows slave i2cSoftStretchLimit) (hack : Acknowledges slave)
    (data : List UInt8) (count : ℕ) (h : Low slave w out) (hphase : phaseOf out = .write 0) :
    (swSendBytes slave data count w).result = .ok := by
  induction data generalizing count w out with
  | nil => rfl
  | cons b bs ih =>
    obtain ⟨hacked, hlow⟩ := swWriteByte_acked hf hack b h (.inl hphase)
    rw [swSendBytes, hacked, if_pos rfl]
    exact ih _ hlow (phaseOf_written hphase false b)

theorem swI2cMasterSend_acked (hf : Follows slave i2cSoftStretchLimit) (hack : Acknowledges slave)
    (devAddr : ℕ) (data : List UInt8) (xferPending : Bool) (h : Ready slave w out) :
    (swI2cMasterSend slave devAddr data xferPending w).result = .ok := by
  obtain ⟨hacked, hlow⟩ := swWriteByte_acked hf hack (addressByte devAddr false)
    (swStart_of_ready hf h) (.inr (phaseOf_start out))
  have hphase := phaseOf_address out false (addressByte devAddr false)
  rw [testBit_addressByte] at hphase
  rw [swI2cMasterSend, addressByte_false, hacked, if_pos rfl]
  exact (finish_result slave xferPending _).1.trans (swSendBytes_acked hf hack data 0 hlow hphase)

/-- A call that sends and returns `OPRT_OK` without a stop. -/
theorem swI2cMasterSend_ok (hf : Follows slave i2cSoftStretchLimit) (devAddr : ℕ)
    (data : List UInt8) (h : Ready slave w out)
    (hok : (swI2cMasterSend slave devAddr data true w).result = .ok) :
    Ready slave (swI2cMasterSend slave devAddr data true w).wire (out ++
      ((.start, true) :: (addressByte devAddr false :: data).flatMap (written false))) := by
  obtain ⟨out', hready, acked, rest, hdata, -, hrest⟩ :=
    swI2cMasterSend_right hf devAddr data true h
  cases rest with
  | nil =>
    rw [hdata, append_nil]
    have hout := hrest.2
    rw [stopUnless, if_pos rfl, append_nil] at hout
    rw [← hout]
    exact hready
  | cons b bs =>
    have hnot := hrest.1
    rw [hok] at hnot
    split at hnot
    · cases hnot
    · cases hnot

end Acknowledged

/-! ### A controller that obeys -/

/-- A controller that moves the lines as `sw_start` and the functions after it do. -/
structure Twin where
  lines : Lines
  fresh : Bool
  queue : List UInt8
  left : ℕ
  rdata : UInt8

namespace Twin

/-- The start, if it is to come. -/
def begun (slave : Slave) (c : Twin) (w : Wire) : Wire :=
  match c.fresh with
  | true => swStart slave w
  | false => w

/-- What it has been told is done. -/
def flush (slave : Slave) (c : Twin) (w : Wire) : I2cCall :=
  swSendBytes slave c.queue 0 (begun slave c w)

/-- The lines are as on the bus from now on. -/
def settle (left : ℕ) (rdata : UInt8) (w : Wire) : Twin × Wire :=
  (⟨⟨w.scl, w.sda⟩, false, [], left, rdata⟩, w)

/-- What belongs to a flag is done. -/
def done (slave : Slave) (c : Twin) (w : Wire) : I2cFlag → Twin × Wire
  | .tbe => settle c.left c.rdata w
  | .rbne =>
    let b := swReadByte slave (1 < c.left) w
    settle (c.left - 1) b.1 b.2
  | .tc => settle c.left c.rdata w
  | .stpdet => settle c.left c.rdata (swStop slave w)

/-- What it has been told is done, and then what belongs to the flag. -/
def wait (slave : Slave) (flag : I2cFlag) (c : Twin) (w : Wire) : Waited × Twin × Wire :=
  let r := flush slave c w
  if r.result = .ok then (.set, done slave c r.wire flag) else (.nack, settle c.left c.rdata r.wire)

/-- The controller. -/
def controller : Controller Twin where
  lines c := c.lines
  reset := ⟨⟨true, true⟩, false, [], 0, 0⟩
  disable _ := ⟨⟨true, true⟩, false, [], 0, 0⟩
  enable c := c
  waitIdle slave c w := (!((w.tick slave).sclLevel && (w.tick slave).sdaLevel), c, w.tick slave)
  start devAddr size read _ c := { c with fresh := true, queue := [addressByte devAddr read], left := size }
  transmit b c := { c with queue := c.queue ++ [b] }
  receive c := (c.rdata, c)
  wait := wait
  stop _ c w := (c, w)
  clearStop c := c

/-- It has been told what comes to an exchange. -/
def Told (slave : Slave) (c : Twin) (w : Wire) (_ : ℕ) (out : List (Symbol × Bool)) : Prop :=
  (flush slave c w).result = .ok ∧ Low slave (flush slave c w).wire out ∧ phaseOf out = .write 0

/-- What is added to the queue is done after the rest. -/
theorem swSendBytes_append {slave : Slave} (xs ys : List UInt8) (count : ℕ) (w : Wire)
    (hok : (swSendBytes slave xs count w).result = .ok) : ∃ count',
    swSendBytes slave (xs ++ ys) count w =
      swSendBytes slave ys count' (swSendBytes slave xs count w).wire := by
  induction xs generalizing count w with
  | nil => exact ⟨count, rfl⟩
  | cons x xs ih =>
    rw [swSendBytes] at hok ⊢
    rw [cons_append, swSendBytes]
    cases hacked : (swWriteByte slave x w).1 with
    | true =>
      rw [hacked, if_pos rfl] at hok
      exact ih _ _ hok
    | false =>
      rw [hacked, if_neg Bool.false_ne_true] at hok
      cases hok

theorem later_flush (slave : Slave) (c : Twin) (w : Wire) :
    Wire.Later w (flush slave c w).wire := by
  refine Wire.Later.trans ?_ (later_swSendBytes slave (begun slave c w) c.queue 0)
  rw [begun]
  cases c.fresh with
  | true =>
    exact (((later_swSda slave w true).trans (later_swSclHigh slave _)).trans
      ((later_swSda slave _ false).trans (later_swDelay slave _))).trans (later_swSclLow slave _)
  | false => exact suffix_rfl

theorem later_wait (slave : Slave) (flag : I2cFlag) (c : Twin) (w : Wire) :
    Wire.Later w (wait slave flag c w).2.2 := by
  have hflush := later_flush slave c w
  rw [wait]
  split
  · cases flag with
    | tbe => exact hflush
    | rbne => exact hflush.trans (later_swReadByte slave _ _)
    | tc => exact hflush
    | stpdet => exact hflush.trans (later_swStop slave _)
  · exact hflush

/-- The controller does what it is told. -/
theorem obeys : Obeys controller (fun c => c.lines = ⟨true, true⟩) Told where
  disabled _ := rfl
  enabled _ := rfl
  released _ h := h
  idle := by
    intro slave c w hf hc hw
    obtain ⟨hnext, hout⟩ := hw.tick hf
    obtain ⟨t, hhist⟩ := hnext.level
    refine ⟨c, w.tick slave, ?_, hc, hnext, hout⟩
    dsimp only [controller]
    rw [Wire.sclLevel, Wire.sdaLevel, hhist]
    rfl
  start := by
    intro slave c w n devAddr hf hack hc hw _
    have hlow := swStart_of_ready hf (.of_idle hw)
    obtain ⟨hacked, hnext⟩ := swWriteByte_acked hf hack (addressByte devAddr false) hlow
      (.inr (phaseOf_start _))
    have hphase := phaseOf_address (exchange slave w.hist).out false (addressByte devAddr false)
    have hflush : swSendBytes slave [addressByte devAddr false] 0 (swStart slave w) =
        ⟨.ok, 1, [], (swWriteByte slave (addressByte devAddr false) (swStart slave w)).2⟩ := by
      rw [swSendBytes, hacked, if_pos rfl, swSendBytes]
    rw [testBit_addressByte] at hphase
    rw [append_assoc] at hphase hnext
    refine ⟨congrArg I2cCall.result hflush, ?_, hphase⟩
    exact (congrArg I2cCall.wire hflush).symm ▸ hnext
  tbe := by
    rintro slave c w n out hf hack ⟨hok, hlow, hphase⟩
    refine ⟨_, _, if_pos hok, rfl, hlow, hphase⟩
  transmit := by
    rintro slave c w n out b hf hack ⟨hok, hlow, hphase⟩
    obtain ⟨count, happend⟩ := swSendBytes_append c.queue [b] 0 (begun slave c w) hok
    obtain ⟨hacked, hnext⟩ := swWriteByte_acked hf hack b hlow (.inl hphase)
    have hflush : flush slave (controller.transmit b c) w =
        ⟨.ok, count + 1, [], (swWriteByte slave b (flush slave c w).wire).2⟩ := by
      refine happend.trans ?_
      rw [swSendBytes, ← flush, hacked, if_pos rfl, swSendBytes]
    rw [Told, hflush]
    exact ⟨rfl, hnext, phaseOf_written hphase false b⟩
  tc := by
    rintro slave c w out hf hack ⟨hok, hlow, hphase⟩
    exact ⟨_, _, if_pos hok, hlow⟩
  laterIdle slave c w := Wire.later_tick slave w
  laterWait := later_wait
  laterStop _ _ _ := suffix_rfl

end Twin

/-! ### Both calls -/

section Both

variable {σ : Type} {ctl : Controller σ} {free : σ → Prop}
  {sending : Slave → σ → Wire → ℕ → List (Symbol × Bool) → Prop} {slave : Slave} {p : I2cPort σ}

theorem tklI2cMasterSend_of_soft (hsoft : p.soft = true) (devAddr : ℕ) (data : List UInt8)
    (xferPending : Bool) : tklI2cMasterSend ctl slave devAddr data xferPending p =
      ((swI2cMasterSend slave devAddr data xferPending p.wire).result,
        { p with
          xferCount := (swI2cMasterSend slave devAddr data xferPending p.wire).xferCount
          wire := (swI2cMasterSend slave devAddr data xferPending p.wire).wire }) :=
  if_pos hsoft

theorem tklI2cMasterReceive_of_soft (hsoft : p.soft = true) (devAddr size : ℕ)
    (xferPending : Bool) : tklI2cMasterReceive ctl slave devAddr size xferPending p =
      ((swI2cMasterReceive slave devAddr size xferPending p.wire).result,
        (swI2cMasterReceive slave devAddr size xferPending p.wire).data,
        { p with
          xferCount := (swI2cMasterReceive slave devAddr size xferPending p.wire).xferCount
          wire := (swI2cMasterReceive slave devAddr size xferPending p.wire).wire }) :=
  if_pos hsoft

theorem tklI2cMasterReceive_of_hw (ctl : Controller σ) (slave : Slave) (hsoft : p.soft = false)
    (devAddr size : ℕ) (xferPending : Bool) :
    (tklI2cMasterReceive ctl slave devAddr size xferPending p).1 =
        (hwI2cMasterReceive ctl slave devAddr size xferPending p).1 ∧
      (tklI2cMasterReceive ctl slave devAddr size xferPending p).2.2.wire =
        (hwI2cMasterReceive ctl slave devAddr size xferPending p).2.2.wire := by
  rw [tklI2cMasterReceive, if_neg (Bool.eq_false_iff.mp hsoft)]
  dsimp only
  split
  · exact ⟨rfl, rfl⟩
  · exact ⟨rfl, rfl⟩

/-- From GPIO pins the two calls are one transaction if something is read. -/
theorem restartRight_of_soft (hf : Follows slave i2cSoftStretchLimit) (h : Idle slave p.wire)
    (hsoft : p.soft = true) (devAddr : ℕ) (data : List UInt8) {size : ℕ} (hsize : size ≠ 0) :
    RestartRight ctl slave devAddr data size p := by
  rw [RestartRight, tklI2cMasterSend_of_soft hsoft]
  rw [tklI2cMasterReceive_of_soft]
  case hsoft => exact hsoft
  intro hok
  have hready := swI2cMasterSend_ok hf devAddr data (.of_idle h) hok
  obtain ⟨out', hright, hexchanged, -⟩ :=
    swI2cMasterReceive_right hf devAddr false (.inl hsize) hready
  rw [hexchanged]
  rcases hright with ⟨hres, hlength, -, hout⟩ | ⟨hres, -, hout⟩
  · refine ⟨_, ?_, .inl ⟨hres, hlength, rfl⟩⟩
    rw [hout, stopUnless, if_neg Bool.false_ne_true]
    simp only [append_assoc, cons_append]
  · refine ⟨_, ?_, .inr ⟨hres, rfl⟩⟩
    rw [hout]
    simp only [append_assoc, cons_append]

/-- From GPIO pins they are not if nothing is read. -/
theorem not_restartRight_of_zero (hsoft : p.soft = true) (h : Idle zeros p.wire) (devAddr : ℕ)
    (data : List UInt8) : ¬ RestartRight ctl zeros devAddr data 0 p := by
  have hok := swI2cMasterSend_acked zeros_follows zeros_acknowledges devAddr data true (.of_idle h)
  have hready := swI2cMasterSend_ok zeros_follows devAddr data (.of_idle h) hok
  obtain ⟨hres, hdata, hout⟩ := exchange_of_zero devAddr hready
  rw [RestartRight, tklI2cMasterSend_of_soft hsoft]
  rw [tklI2cMasterReceive_of_soft]
  case hsoft => exact hsoft
  rw [hres, hdata, hout]
  intro hright
  obtain ⟨answer, heq, ⟨-, -, rfl⟩ | ⟨hrefused, -⟩⟩ := hright hok
  · exact absurd (congrArg List.length heq) (by simp [written, bytesRead])
  · cases hrefused

/-- Where a transfer is after the bytes that were sent. -/
theorem phaseOf_sent {out : List (Symbol × Bool)} (hphase : phaseOf out = .write 0)
    (data : List UInt8) : phaseOf (out ++ data.flatMap (written false)) = .write 0 := by
  induction data generalizing out with
  | nil =>
    rw [flatMap_nil, append_nil]
    exact hphase
  | cons b bs ih =>
    rw [flatMap_cons, ← append_assoc]
    exact ih (phaseOf_written hphase false b)

/-- With the controller they are not, as the second call takes the held clock for a stuck one. -/
theorem not_restartRight_of_hw (hctl : Obeys ctl free sending) (hp : Fresh free zeros p)
    (hsoft : p.soft = false) (hlatch : p.latch.scl = false) (devAddr : ℕ) {data : List UInt8}
    (hdata : data.length ≤ 255) (size : ℕ) : ¬ RestartRight ctl zeros devAddr data size p := by
  obtain ⟨c, w, n, hsend, hlow⟩ :=
    tklI2cMasterSend_of_fresh hctl zeros_follows zeros_acknowledges hp hsoft devAddr hdata
  have hphase : phaseOf ((exchange zeros p.wire.hist).out ++
      ((.start, true) :: (addressByte devAddr false :: data).flatMap (written false))) =
        .write 0 := by
    have hfirst := phaseOf_address (exchange zeros p.wire.hist).out false
      (addressByte devAddr false)
    rw [testBit_addressByte] at hfirst
    have hsent := phaseOf_sent hfirst data
    rw [append_assoc, append_assoc] at hsent
    exact hsent
  rw [RestartRight, hsend]
  intro hright
  obtain ⟨answer, hout, hanswer⟩ := hright rfl
  obtain ⟨hres, hwire⟩ := tklI2cMasterReceive_of_hw ctl zeros
    (p := { p with ctl := c, wire := w, xferCount := n }) hsoft devAddr size false
  by_cases hsize : size ≤ 0xFF
  · refine not_restart_of_low hctl zeros_follows zeros_scl hlow (by rw [hphase]; rfl) hlatch
      hp.addrWidth devAddr hsize
      (p := { p with ctl := c, wire := w, xferCount := n }) ?_
    rw [← hwire, hout]
    exact prefix_append_right_inj _ |>.mpr (prefix_append [_] _)
  · have hlong : (hwI2cMasterReceive ctl zeros devAddr size false
        { p with ctl := c, wire := w, xferCount := n }).1 = .invalidParm := by
      rw [hwI2cMasterReceive, if_neg (not_not.mpr hp.addrWidth), i2cMasterXferSetup,
        if_pos (Nat.lt_of_not_le hsize), if_neg nofun]
    rw [hlong] at hres
    rcases hanswer with ⟨hok, -⟩ | ⟨hrefused, -⟩
    · exact nomatch hres.symm.trans hok
    · exact nomatch hres.symm.trans hrefused

/-- **A write and a read are one transaction** on the bus, for every slave that follows the protocol,
exactly where the lines are driven from GPIO pins and something is read. -/
theorem restart_iff (hctl : Obeys ctl free sending) (soft : Bool) (devAddr : ℕ) {data : List UInt8}
    (hdata : data.length ≤ 255) (size : ℕ) :
    (∀ slave, Follows slave i2cSoftStretchLimit → ∀ p : I2cPort σ, p.soft = soft →
        Fresh free slave p → RestartRight ctl slave devAddr data size p) ↔
      soft = true ∧ size ≠ 0 := by
  constructor
  · intro h
    have hfresh : Fresh free zeros ⟨soft, 7, false, 0, ⟨false, false⟩,
        ctl.enable (ctl.disable ctl.reset), ⟨[⟨true, true⟩], true, true⟩⟩ :=
      ⟨rfl, rfl, hctl.enabled _, ⟨rfl, rfl, ⟨[], rfl⟩, rfl⟩⟩
    have hright := h zeros zeros_follows _ rfl hfresh
    cases soft with
    | false => exact absurd hright (not_restartRight_of_hw hctl hfresh rfl rfl devAddr hdata size)
    | true =>
      refine ⟨rfl, ?_⟩
      rintro rfl
      exact not_restartRight_of_zero rfl hfresh.idle devAddr data hright
  · rintro ⟨rfl, hsize⟩ slave hf p hsoft hp
    exact restartRight_of_soft hf hp.idle hsoft devAddr data hsize

end Both

/-- From GPIO pins a register is written and two bytes are read in one transaction; with the controller
they are not. -/
theorem restart_iff_twin :
    (∀ slave, Follows slave i2cSoftStretchLimit → ∀ p : I2cPort Twin, p.soft = true →
        Fresh (fun c => c.lines = ⟨true, true⟩) slave p →
          RestartRight Twin.controller slave 0x50 [0x10] 2 p) ∧
      ¬ ∀ slave, Follows slave i2cSoftStretchLimit → ∀ p : I2cPort Twin, p.soft = false →
        Fresh (fun c => c.lines = ⟨true, true⟩) slave p →
          RestartRight Twin.controller slave 0x50 [0x10] 2 p := by
  constructor
  · exact (restart_iff Twin.obeys true 0x50 (by decide) 2).mpr ⟨rfl, by decide⟩
  · intro h
    exact nomatch ((restart_iff Twin.obeys false 0x50 (by decide) 2).mp h).1

/-- A port after `tkl_i2c_init` with the pins of the controller. -/
def hwPort : I2cPort Twin :=
  ⟨false, 7, false, 0, ⟨false, false⟩, Twin.controller.reset, ⟨[⟨true, true⟩], true, true⟩⟩

/-- With the controller a register is written and two bytes are read, but not in one transaction. -/
theorem hwPort_not_restart : Follows zeros i2cSoftStretchLimit ∧
    Fresh (fun c => c.lines = ⟨true, true⟩) zeros hwPort ∧
      ¬ RestartRight Twin.controller zeros 0x50 [0x10] 2 hwPort := by
  have hfresh : Fresh (fun c : Twin => c.lines = ⟨true, true⟩) zeros hwPort :=
    ⟨rfl, rfl, rfl, ⟨rfl, rfl, ⟨[], rfl⟩, rfl⟩⟩
  exact ⟨zeros_follows, hfresh, not_restartRight_of_hw Twin.obeys hfresh rfl rfl 0x50 (by decide) 2⟩

end Gd32.Tkl
