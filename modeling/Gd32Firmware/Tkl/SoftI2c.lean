import Gd32Firmware.Lib.OpenDrain
import Mathlib.Data.Nat.Bitwise

/-!
# The bit-banged I2C master

`tkl_i2c.c` drives the two lines of an I2C port from GPIO pins when these are not the pins of a
controller. Both lines are open-drain: what is on them is what this side and the slave do to them
together.

`swCalls_iff` says which lists of calls are right on the bus for every slave that follows the
protocol: those without a call that is to receive nothing. Such a call gives the slave the data line
and takes it back without a clock pulse.
-/

namespace Gd32.Tkl

open OpenDrain List

/-! ### The lines -/

section Code

variable (slave : Slave)

def i2cSoftStretchLimit : ℕ := 1000

/-- The loop of `sw_scl_high`. -/
def swSclWait : ℕ → Wire → Wire
  | 0, w => w
  | guard + 1, w => if w.sclLevel then w else swSclWait guard (w.tick slave)

def swSclHigh (w : Wire) : Wire :=
  swSclWait slave i2cSoftStretchLimit ((w.setScl slave true).tick slave)

def swSclLow (w : Wire) : Wire := (w.setScl slave false).tick slave

def swSda (high : Bool) (w : Wire) : Wire := w.setSda slave high

def swDelay (w : Wire) : Wire := w.tick slave

def swStart (w : Wire) : Wire :=
  swSclLow slave (swDelay slave (swSda slave false (swSclHigh slave (swSda slave true w))))

def swStop (w : Wire) : Wire :=
  swDelay slave (swSda slave true (swSclHigh slave (swDelay slave (swSda slave false w))))

/-! ### Bytes -/

/-- The loop of `sw_write_byte`, with the number of bits that are left. -/
def swWriteBits : ℕ → UInt8 → Wire → Wire
  | 0, _, w => w
  | n + 1, data, w =>
    swWriteBits n (data <<< 1)
      (swSclLow slave (swSclHigh slave (swDelay slave (swSda slave (data &&& 0x80 ≠ 0) w))))

/-- `sw_write_byte`: whether the slave acknowledged. -/
def swWriteByte (data : UInt8) (w : Wire) : Bool × Wire :=
  let w := swSclHigh slave (swDelay slave (swSda slave true (swWriteBits slave 8 data w)))
  (!w.sdaLevel, swSclLow slave w)

/-- The loop of `sw_read_byte`, with the number of bits that are left. -/
def swReadBits : ℕ → UInt8 → Wire → UInt8 × Wire
  | 0, data, w => (data, w)
  | n + 1, data, w =>
    let w := swSclHigh slave w
    swReadBits n (if w.sdaLevel then data <<< 1 ||| 1 else data <<< 1) (swSclLow slave w)

def swReadByte (ack : Bool) (w : Wire) : UInt8 × Wire :=
  let r := swReadBits slave 8 0 (swSda slave true w)
  (r.1, swSda slave true
    (swSclLow slave (swSclHigh slave (swDelay slave (swSda slave (!ack) r.2)))))

/-! ### Calls -/

/-- What a call returns. -/
inductive I2cResult where
  | ok
  | addrNoAck
  | writeFailed
  | readFailed
  | busy
  | invalidParm
  | notSupported
  deriving DecidableEq

/-- What comes of a call. -/
structure I2cCall where
  result : I2cResult
  xferCount : ℕ
  data : List UInt8
  wire : Wire

/-- The loop of `sw_i2c_master_send`, with the number of bytes sent so far. -/
def swSendBytes : List UInt8 → ℕ → Wire → I2cCall
  | [], count, w => ⟨.ok, count, [], w⟩
  | b :: bs, count, w =>
    let r := swWriteByte slave b w
    if r.1 then swSendBytes bs (count + 1) r.2 else ⟨.writeFailed, count, [], swStop slave r.2⟩

/-- A call that has gone well stops, unless another one is to follow. -/
def I2cCall.finish (xferPending : Bool) (r : I2cCall) : I2cCall :=
  if r.result = .ok ∧ xferPending = false then { r with wire := swStop slave r.wire } else r

def swI2cMasterSend (devAddr : ℕ) (data : List UInt8) (xferPending : Bool) (w : Wire) : I2cCall :=
  let r := swWriteByte slave (UInt8.ofNat ((devAddr <<< 1) &&& 0xFE)) (swStart slave w)
  if r.1 then (swSendBytes slave data 0 r.2).finish slave xferPending
  else ⟨.addrNoAck, 0, [], swStop slave r.2⟩

/-- The loop of `sw_i2c_master_receive`, with the number of bytes that are left. -/
def swReceiveBytes : ℕ → Wire → List UInt8 × Wire
  | 0, w => ([], w)
  | n + 1, w =>
    let r := swReadByte slave (0 < n) w
    let s := swReceiveBytes n r.2
    (r.1 :: s.1, s.2)

def swI2cMasterReceive (devAddr size : ℕ) (xferPending : Bool) (w : Wire) : I2cCall :=
  let r := swWriteByte slave (UInt8.ofNat (((devAddr <<< 1) &&& 0xFE) ||| 0x01)) (swStart slave w)
  if r.1 then
    let s := swReceiveBytes slave size r.2
    (I2cCall.mk .ok s.1.length s.1 s.2).finish slave xferPending
  else ⟨.addrNoAck, 0, [], swStop slave r.2⟩

/-- A call. -/
inductive I2cOp where
  /-- `sw_i2c_master_send`. -/
  | send (devAddr : ℕ) (data : List UInt8) (xferPending : Bool)
  /-- `sw_i2c_master_receive`. -/
  | receive (devAddr size : ℕ) (xferPending : Bool)

/-- What comes of it. -/
def I2cOp.call (w : Wire) : I2cOp → I2cCall
  | .send devAddr data xferPending => swI2cMasterSend slave devAddr data xferPending w
  | .receive devAddr size xferPending => swI2cMasterReceive slave devAddr size xferPending w

end Code

/-! ### What is to be so -/

/-- The bits of a byte, the highest first. -/
def byteBits (b : UInt8) : List Bool := (List.range 8).map fun i => b.toNat.testBit (7 - i)

/-- A byte from the master and the answer of the slave, which leaves the data line alone before. -/
def written (nack : Bool) (b : UInt8) : List (Symbol × Bool) :=
  (byteBits b).map (fun v => (.bit v, true)) ++ [(.bit nack, nack)]

/-- A byte from the slave and the answer of the master. -/
def readFrom (ack : Bool) (b : UInt8) : List (Symbol × Bool) :=
  (byteBits b).map (fun v => (.bit v, v)) ++ [(.bit (!ack), true)]

/-- Bytes from the slave, all but the last one acknowledged. -/
def bytesRead : List UInt8 → List (Symbol × Bool)
  | [] => []
  | b :: bs => readFrom (!bs.isEmpty) b ++ bytesRead bs

/-- The byte with an address of 7 bits and the direction. -/
def addressByte (devAddr : ℕ) (read : Bool) : UInt8 := UInt8.ofNat (2 * devAddr + read.toNat)

/-- The stop, unless it is left out. -/
def stopUnless (xferPending : Bool) : List (Symbol × Bool) :=
  if xferPending then [] else [(.stop, true)]

/-- **A call that sends is right**: after a start come the address and the data, up to the first byte
that is not acknowledged, and a stop, which is left out if another call is to follow and all bytes
were acknowledged; the call returns `OPRT_OK` exactly in this case, and the number of bytes of the data
that were acknowledged is noted. -/
def SendRight (devAddr : ℕ) (data : List UInt8) (xferPending : Bool)
    (out out' : List (Symbol × Bool)) (r : I2cCall) : Prop :=
  ∃ acked rest, addressByte devAddr false :: data = acked ++ rest ∧
    r.xferCount = acked.length - 1 ∧
    match rest with
    | [] => r.result = .ok ∧
      out' = out ++ ((.start, true) :: acked.flatMap (written false)) ++ stopUnless xferPending
    | b :: _ => r.result = (if acked = [] then .addrNoAck else .writeFailed) ∧
      out' = out ++ ((.start, true) :: acked.flatMap (written false)) ++ written true b ++
        [(.stop, true)]

/-- **A call that receives is right**: after a start come the address and, if this is acknowledged, the
bytes that the slave gives, as many as are asked for, all but the last one acknowledged; these are
returned. -/
def ReceiveRight (devAddr size : ℕ) (xferPending : Bool) (out out' : List (Symbol × Bool))
    (r : I2cCall) : Prop :=
  (r.result = .ok ∧ r.data.length = size ∧ r.xferCount = size ∧
      out' = out ++ ((.start, true) :: written false (addressByte devAddr true)) ++
        bytesRead r.data ++ stopUnless xferPending) ∨
    (r.result = .addrNoAck ∧ r.xferCount = 0 ∧
      out' = out ++ ((.start, true) :: written true (addressByte devAddr true)) ++ [(.stop, true)])

/-- A call is right on the bus. -/
def I2cOp.Right (slave : Slave) (w : Wire) (op : I2cOp) : Prop :=
  let out := (exchange slave w.hist).out
  let out' := (exchange slave (op.call slave w).wire.hist).out
  match op with
  | .send devAddr data xferPending =>
    SendRight devAddr data xferPending out out' (op.call slave w)
  | .receive devAddr size xferPending =>
    ReceiveRight devAddr size xferPending out out' (op.call slave w)

/-- Each of some calls, one after the other. -/
def CallsRight (slave : Slave) : Wire → List I2cOp → Prop
  | _, [] => True
  | w, op :: ops => op.Right slave w ∧ CallsRight slave (op.call slave w).wire ops

/-- The bus is idle, as `sw_i2c_init` leaves it: both sides have let go of both lines. -/
structure Idle (slave : Slave) (w : Wire) : Prop where
  scl : w.scl = true
  sda : w.sda = true
  level : ∃ h, w.hist = ⟨true, true⟩ :: h
  drive : slave w.hist = ⟨true, true⟩

/-! ### The lines -/

section Lines

variable {slave : Slave} {w : Wire} {out : List (Symbol × Bool)} {smp : Option Bool} {x : Bool}
  {n limit : ℕ}

theorem sclLevel_of_high (h : High slave w out smp x) : w.sclLevel = true := by
  obtain ⟨t, hhist⟩ := h.level
  rw [Wire.sclLevel, hhist]
  rfl

theorem sdaLevel_of_high (h : High slave w out smp x) : w.sdaLevel = (w.sda && x) := by
  obtain ⟨t, hhist⟩ := h.level
  rw [Wire.sdaLevel, hhist]
  rfl

theorem sclLevel_of_down (h : Down slave w out) : w.sclLevel = false := by
  obtain ⟨l, l', t, hhist, hl, -⟩ := h.low
  rw [Wire.sclLevel, hhist]
  exact hl

theorem swSclWait_of_high (h : High slave w out smp x) : swSclWait slave n w = w := by
  cases n with
  | zero => rfl
  | succ n => rw [swSclWait, if_pos (sclLevel_of_high h)]

/-- The clock is high after a while, with what the slave did to the data just before. -/
structure Rises (slave : Slave) (w w' : Wire) (out : List (Symbol × Bool)) (x : Bool) : Prop where
  high : High slave w' out (some (w.sda && x)) x
  sda : w'.sda = w.sda
  source : ∃ v, Down slave v out ∧ slave v.hist = ⟨true, x⟩

/-- Where it is not its turn the slave lets the data go. -/
theorem Rises.turn {w' : Wire} (h : Rises slave w w' out x) (hf : Follows slave limit)
    (hphase : (phaseOf out).slaveMay = false) : x = true := by
  obtain ⟨v, hv, hdrive⟩ := h.source
  have hsda := hv.turn hf (by rw [hdrive]) hphase
  rwa [hdrive] at hsda

/-- The clock rises at the next instant. -/
theorem Rises.of_tick (hf : Follows slave limit) (h : Down slave w out) (hscl : w.scl = true)
    (hslave : (slave w.hist).scl = true) :
    Rises slave w (w.tick slave) out (slave w.hist).sda :=
  ⟨h.rise hf hscl hslave, rfl, w, h, congrArg (Lines.mk · _) hslave⟩

/-- The slave holds the clock for some time, but not as long as the loop waits. -/
theorem swSclWait_of_down (hf : Follows slave i2cSoftStretchLimit) (h : Down slave w out)
    (hscl : w.scl = true) (hheld : i2cSoftStretchLimit ≤ held slave w.hist + n) :
    ∃ x, Rises slave w (swSclWait slave n w) out x := by
  induction n generalizing w with
  | zero => exact absurd (hf.patient w.hist) (by omega)
  | succ n ih =>
    rw [swSclWait, if_neg (by rw [sclLevel_of_down h]; exact nofun)]
    cases hslave : (slave w.hist).scl with
    | true =>
      have hrises := Rises.of_tick hf h hscl hslave
      rw [swSclWait_of_high hrises.high]
      exact ⟨_, hrises⟩
    | false =>
      have hdown := h.tick (by rw [hslave, Bool.and_false])
      obtain ⟨x, hx⟩ := ih hdown hscl (by rw [Down.held_tick hslave]; omega)
      exact ⟨x, hx.high, hx.sda, hx.source⟩

/-- `sw_scl_high` with the clock low. -/
theorem swSclHigh_of_down (hf : Follows slave i2cSoftStretchLimit) (h : Down slave w out) :
    ∃ x, Rises slave w (swSclHigh slave w) out x := by
  have hfree : Down slave { w with scl := true } out := ⟨h.low, h.exchanged⟩
  rw [swSclHigh, Wire.setScl]
  cases hslave : (slave w.hist).scl with
  | true =>
    have hrises := Rises.of_tick hf hfree rfl hslave
    have hhigh := hrises.high.tick hf
    rw [swSclWait_of_high hhigh]
    exact ⟨_, hhigh, rfl, hrises.source⟩
  | false =>
    have hdown := hfree.tick (by dsimp only; rw [hslave, Bool.and_false])
    generalize hv : Wire.tick slave { w with scl := true } = v at hdown ⊢
    have hvscl : v.scl = true := by rw [← hv]; rfl
    have hvsda : v.sda = w.sda := by rw [← hv]; rfl
    cases hslave' : (slave v.hist).scl with
    | true =>
      have hrises := Rises.of_tick hf hdown hvscl hslave'
      rw [swSclWait_of_high hrises.high]
      exact ⟨_, hvsda ▸ hrises.high, hvsda, hrises.source⟩
    | false =>
      obtain ⟨x, hx⟩ := swSclWait_of_down hf (hdown.tick (by rw [hslave', Bool.and_false])) hvscl
        (Nat.le_add_left _ _)
      exact ⟨x, hvsda ▸ hx.high, hx.sda.trans hvsda, hx.source⟩

/-- `sw_scl_high` with the clock high. -/
theorem swSclHigh_of_high (hf : Follows slave i2cSoftStretchLimit) (h : High slave w out smp x) :
    High slave (swSclHigh slave w) out smp x ∧ (swSclHigh slave w).sda = w.sda := by
  have hset : w.setScl slave true = w.tick slave := by
    rw [Wire.setScl, ← h.scl]
  have hhigh := (h.tick hf).tick hf
  rw [swSclHigh, hset, swSclWait_of_high hhigh]
  exact ⟨hhigh, rfl⟩

/-- The master holds the clock low. -/
structure Low (slave : Slave) (w : Wire) (out : List (Symbol × Bool)) : Prop where
  down : Down slave w out
  scl : w.scl = false

namespace Low

theorem swSda (h : Low slave w out) (b : Bool) : Low slave (swSda slave b w) out :=
  ⟨Down.tick ⟨h.down.low, h.down.exchanged⟩ (by dsimp only; rw [h.scl, Bool.false_and]), h.scl⟩

theorem swDelay (h : Low slave w out) : Low slave (swDelay slave w) out :=
  ⟨h.down.tick (by rw [h.scl, Bool.false_and]), h.scl⟩

/-- A clock pulse. -/
theorem pulse (hf : Follows slave i2cSoftStretchLimit) (h : Low slave w out) :
    ∃ x, Rises slave w (swSclHigh slave w) out x ∧
      Low slave (swSclLow slave (swSclHigh slave w)) (out ++ [(.bit (w.sda && x), x)]) := by
  obtain ⟨x, hx⟩ := swSclHigh_of_down hf h.down
  exact ⟨x, hx, hx.high.fall, rfl⟩

end Low

/-- Where a call may begin: the lines are high, or the master holds the clock and it is not the
slave's turn. -/
inductive Ready (slave : Slave) (w : Wire) (out : List (Symbol × Bool)) : Prop where
  | idle (smp : Option Bool) (high : High slave w out smp true) (sda : w.sda = true)
  /-- After a call with another one to follow. -/
  | pending (low : Low slave w out) (turn : (phaseOf out).slaveMay = false)

theorem Ready.exchanged (h : Ready slave w out) : (exchange slave w.hist).out = out := by
  cases h with
  | idle smp high sda => rw [high.exchanged]
  | pending low turn => exact low.down.exchanged

/-- `sw_start`. -/
theorem swStart_of_ready (hf : Follows slave i2cSoftStretchLimit) (h : Ready slave w out) :
    Low slave (swStart slave w) (out ++ [(.start, true)]) := by
  have hrisen : ∃ smp, High slave (swSclHigh slave (swSda slave true w)) out smp true ∧
      (swSclHigh slave (swSda slave true w)).sda = true := by
    cases h with
    | idle smp high sda =>
      have hhigh := high.setSda hf (b := true) (by rw [sda])
      have hrisen := swSclHigh_of_high hf hhigh
      exact ⟨smp, hrisen⟩
    | pending low turn =>
      obtain ⟨x, hx⟩ := swSclHigh_of_down hf (low.swSda true).down
      obtain rfl := hx.turn hf turn
      exact ⟨_, hx.high, hx.sda⟩
  obtain ⟨smp, hhigh, hsda⟩ := hrisen
  have hfallen := ((hhigh.start hf hsda).tick hf).fall
  rw [Option.map_none, Option.toList_none, append_nil] at hfallen
  exact ⟨hfallen, rfl⟩

/-- `sw_stop`. -/
theorem swStop_of_low (hf : Follows slave i2cSoftStretchLimit) (h : Low slave w out)
    (hturn : (phaseOf out).slaveMay = false) :
    Ready slave (swStop slave w) (out ++ [(.stop, true)]) := by
  obtain ⟨x, hx⟩ := swSclHigh_of_down hf (h.swSda false).swDelay.down
  obtain rfl := hx.turn hf hturn
  exact .idle none ((hx.high.stop hf hx.sda).tick hf) rfl

end Lines

/-! ### Bytes on the bus -/

section Bytes

variable {slave : Slave} {w : Wire} {out : List (Symbol × Bool)} {n : ℕ}

/-- The highest bit of a byte is looked at. -/
theorem and_0x80_ne_zero (data : UInt8) :
    decide (data &&& 0x80 ≠ 0) = data.toNat.testBit 7 := by
  have hzero : data &&& 0x80 = 0 ↔ data.toNat &&& 2 ^ 7 = 0 := UInt8.toNat_inj.symm
  have hand := Nat.and_two_pow data.toNat 7
  cases hbit : data.toNat.testBit 7 with
  | true =>
    rw [hbit] at hand
    rw [decide_eq_true_iff, Ne, hzero, hand]
    exact nofun
  | false =>
    rw [hbit] at hand
    rw [decide_eq_false_iff_not, not_not, hzero, hand]
    rfl

/-- The next bit moves up. -/
theorem testBit_shiftLeft_one (data : UInt8) {i : ℕ} (hi : i < 7) :
    (data <<< 1).toNat.testBit (7 - i) = data.toNat.testBit (7 - (i + 1)) := by
  have hshift : (data <<< 1).toNat = data.toNat <<< 1 % 2 ^ 8 := UInt8.toNat_shiftLeft data 1
  have hlt : 7 - i < 8 := by omega
  have hle : 7 - i ≥ 1 := by omega
  rw [hshift, Nat.testBit_mod_two_pow, Nat.testBit_shiftLeft, decide_eq_true hlt,
    decide_eq_true hle, Bool.true_and, Bool.true_and, Nat.sub_sub]

/-- The loop of `sw_write_byte`. -/
theorem swWriteBits_of_low (hf : Follows slave i2cSoftStretchLimit) (data : UInt8) (hn : n ≤ 8)
    (h : Low slave w out) (hquiet : Phase.quiet n (phaseOf out) = true) :
    Low slave (swWriteBits slave n data w)
      (out ++ (List.range n).map fun i => (.bit (data.toNat.testBit (7 - i)), true)) := by
  induction n generalizing data w out with
  | zero => simpa only [swWriteBits, range_zero, map_nil, append_nil] using h
  | succ n ih =>
    obtain ⟨hturn, hquiet⟩ := Phase.quiet_succ hquiet
    obtain ⟨x, hx, hlow⟩ := Low.pulse hf (h.swSda (data &&& 0x80 ≠ 0)).swDelay
    obtain rfl := hx.turn hf hturn
    have hbit : (swDelay slave (swSda slave (data &&& 0x80 ≠ 0) w)).sda =
      data.toNat.testBit 7 := and_0x80_ne_zero data
    rw [Bool.and_true, hbit] at hlow
    have hrest := ih (data <<< 1) (by omega) hlow (by rw [phaseOf_append]; exact hquiet _)
    rw [append_assoc] at hrest
    rw [swWriteBits, range_succ_eq_map, map_cons, map_map]
    convert hrest using 2
    refine congrArg (List.cons _) (map_congr_left fun i hi => ?_)
    rw [mem_range] at hi
    rw [testBit_shiftLeft_one data (by omega)]
    rfl

/-- A byte is written and answered. -/
theorem swWriteByte_of_low (hf : Follows slave i2cSoftStretchLimit) (b : UInt8)
    (h : Low slave w out) (hquiet : Phase.quiet 8 (phaseOf out) = true) :
    ∃ nack, (swWriteByte slave b w).1 = !nack ∧
      Low slave (swWriteByte slave b w).2 (out ++ written nack b) ∧
      ∃ v, Down slave v (out ++ (byteBits b).map fun v => (.bit v, true)) ∧
        slave v.hist = ⟨true, nack⟩ := by
  have hbits := swWriteBits_of_low hf b le_rfl h hquiet
  obtain ⟨nack, hrises, hlow⟩ := Low.pulse hf (hbits.swSda true).swDelay
  have hlevel := sdaLevel_of_high hrises.high
  rw [hrises.sda] at hlevel
  refine ⟨nack, congrArg not hlevel, ?_, ?_⟩
  · rw [append_assoc] at hlow
    exact hlow
  · exact hrises.source

/-- A bit moves into a byte from below. -/
def pushBit (data : UInt8) (v : Bool) : UInt8 := if v then data <<< 1 ||| 1 else data <<< 1

theorem toNat_pushBit (data : UInt8) (v : Bool) (i : ℕ) :
    (pushBit data v).toNat.testBit i =
      ((data <<< 1).toNat.testBit i || (v && Nat.testBit 1 i)) := by
  cases v with
  | false => rw [pushBit, if_neg nofun, Bool.false_and, Bool.or_false]
  | true =>
    rw [pushBit, if_pos rfl, UInt8.toNat_or, Nat.testBit_or, Bool.true_and]
    rfl

theorem byteBits_pushBit (data : UInt8) (v : Bool) :
    byteBits (pushBit data v) = (byteBits data).tail ++ [v] := by
  have hhigh : ∀ i < 7, (pushBit data v).toNat.testBit (7 - i) =
      data.toNat.testBit (7 - (i + 1)) := by
    intro i hi
    have hone : Nat.testBit 1 (7 - i) = false := Bool.eq_false_iff.mpr fun h => by
      have hzero := Nat.testBit_one_eq_true_iff_self_eq_zero.mp h
      omega
    rw [toNat_pushBit, testBit_shiftLeft_one data hi, hone, Bool.and_false, Bool.or_false]
  have hlow : (pushBit data v).toNat.testBit (7 - 7) = v := by
    have hshift : (data <<< 1).toNat = data.toNat <<< 1 % 2 ^ 8 := UInt8.toNat_shiftLeft data 1
    rw [toNat_pushBit, hshift, Nat.testBit_mod_two_pow, Nat.testBit_shiftLeft]
    exact Bool.and_true v
  have hleft : byteBits (pushBit data v) =
      (List.range 7).map (fun i => (pushBit data v).toNat.testBit (7 - i)) ++ [v] := by
    rw [byteBits, range_succ, map_append, map_singleton, hlow]
  have hright : (byteBits data).tail =
      (List.range 7).map fun i => data.toNat.testBit (7 - (i + 1)) := by
    rfl
  rw [hleft, hright]
  exact congrArg (· ++ [v]) (map_congr_left fun i hi => hhigh i (mem_range.mp hi))

theorem byteBits_foldl_pushBit (data : UInt8) (bits : List Bool) :
    byteBits (bits.foldl pushBit data) = (byteBits data ++ bits).drop bits.length := by
  induction bits generalizing data with
  | nil => rw [foldl_nil, append_nil, length_nil, drop_zero]
  | cons v bits ih =>
    have hcons : byteBits data ≠ [] := cons_ne_nil _ _
    rw [foldl_cons, ih, byteBits_pushBit, append_assoc, singleton_append,
      length_cons, Nat.add_comm, ← drop_drop, drop_one,
      tail_append_of_ne_nil hcons]

/-- The loop of `sw_read_byte`. -/
theorem swReadBits_of_low (hf : Follows slave i2cSoftStretchLimit) (data : UInt8)
    (h : Low slave w out) (hsda : w.sda = true) :
    ∃ bits : List Bool, bits.length = n ∧ (swReadBits slave n data w).1 = bits.foldl pushBit data ∧
      Low slave (swReadBits slave n data w).2 (out ++ bits.map fun v => (.bit v, v)) := by
  induction n generalizing data w out with
  | zero => exact ⟨[], rfl, rfl, by rw [map_nil, append_nil]; exact h⟩
  | succ n ih =>
    obtain ⟨v, hrises, hlow⟩ := Low.pulse hf h
    have hlevel := sdaLevel_of_high hrises.high
    rw [hrises.sda, hsda, Bool.true_and] at hlevel
    rw [hsda, Bool.true_and] at hlow
    obtain ⟨bits, hlength, hdata, hrest⟩ := ih (pushBit data v) hlow (hrises.sda.trans hsda)
    rw [append_assoc] at hrest
    rw [swReadBits, hlevel]
    exact ⟨v :: bits, congrArg (· + 1) hlength, hdata, hrest⟩

/-- A byte is read and answered. -/
theorem swReadByte_of_low (hf : Follows slave i2cSoftStretchLimit) (ack : Bool)
    (h : Low slave w out) (hphase : phaseOf out = .read 0) :
    Low slave (swReadByte slave ack w).2 (out ++ readFrom ack (swReadByte slave ack w).1) := by
  obtain ⟨bits, hlength, hdata, hlow⟩ := swReadBits_of_low (n := 8) hf 0 (h.swSda true) rfl
  have hbits : byteBits (swReadByte slave ack w).1 = bits := by
    rw [swReadByte]
    rw [hdata, byteBits_foldl_pushBit, hlength]
    rfl
  have hturn : (phaseOf (out ++ bits.map fun v => (.bit v, v))).slaveMay = false := by
    rw [phaseOf_append, hphase, ← hbits]
    rfl
  obtain ⟨x, hrises, hanswer⟩ := Low.pulse hf (hlow.swSda (!ack)).swDelay
  obtain rfl := hrises.turn hf hturn
  rw [append_assoc] at hanswer
  rw [readFrom, hbits]
  have hend := hanswer.swSda true
  rw [Bool.and_true] at hend
  exact hend

end Bytes

/-! ### Calls on the bus -/

section Calls

variable {slave : Slave} {w : Wire} {out : List (Symbol × Bool)} {n : ℕ}

/-- Where a transfer is after a byte of it. -/
theorem phaseOf_written (hphase : phaseOf out = .write 0) (nack : Bool) (b : UInt8) :
    phaseOf (out ++ written nack b) = if nack then .free else .write 0 := by
  rw [phaseOf_append, hphase]
  rfl

/-- Where a transfer is after a start and the first byte. -/
theorem phaseOf_start (out : List (Symbol × Bool)) :
    phaseOf (out ++ [(.start, true)]) = .address 0 := by
  rw [phaseOf_append]
  rfl

theorem phaseOf_address (out : List (Symbol × Bool)) (nack : Bool) (b : UInt8) :
    phaseOf (out ++ [(.start, true)] ++ written nack b) =
      if nack then .free else if b.toNat.testBit 0 then .read 0 else .write 0 := by
  rw [phaseOf_append, phaseOf_start]
  rfl

theorem phaseOf_readFrom (hphase : phaseOf out = .read 0) (ack : Bool) (b : UInt8) :
    phaseOf (out ++ readFrom ack b) = if ack then .read 0 else .free := by
  rw [phaseOf_append, hphase]
  cases ack <;> rfl

/-- A call that has gone well so far. -/
theorem finish_ready (hf : Follows slave i2cSoftStretchLimit) (xferPending : Bool) {r : I2cCall}
    (hok : r.result = .ok) (h : Low slave r.wire out) (hturn : (phaseOf out).slaveMay = false) :
    Ready slave (r.finish slave xferPending).wire (out ++ stopUnless xferPending) := by
  cases xferPending with
  | false =>
    rw [I2cCall.finish, if_pos ⟨hok, rfl⟩]
    exact swStop_of_low hf h hturn
  | true =>
    rw [I2cCall.finish, if_neg (fun h => nomatch h.2), stopUnless, if_pos rfl, append_nil]
    exact .pending h hturn

theorem finish_result (slave : Slave) (xferPending : Bool) (r : I2cCall) :
    (r.finish slave xferPending).result = r.result ∧
      (r.finish slave xferPending).xferCount = r.xferCount ∧
      (r.finish slave xferPending).data = r.data := by
  rw [I2cCall.finish]
  split
  · exact ⟨rfl, rfl, rfl⟩
  · exact ⟨rfl, rfl, rfl⟩

/-- What the loop of `sw_i2c_master_send` leaves behind. -/
def Sent (slave : Slave) (out : List (Symbol × Bool)) (count : ℕ) (data : List UInt8)
    (r : I2cCall) : Prop :=
  ∃ acked rest, data = acked ++ rest ∧ r.xferCount = count + acked.length ∧
    match rest with
    | [] => r.result = .ok ∧ Low slave r.wire (out ++ acked.flatMap (written false)) ∧
      phaseOf (out ++ acked.flatMap (written false)) = .write 0
    | b :: _ => r.result = .writeFailed ∧
      Ready slave r.wire (out ++ acked.flatMap (written false) ++ written true b ++ [(.stop, true)])

theorem swSendBytes_sent (hf : Follows slave i2cSoftStretchLimit) (data : List UInt8) (count : ℕ)
    (h : Low slave w out) (hphase : phaseOf out = .write 0) :
    Sent slave out count data (swSendBytes slave data count w) := by
  induction data generalizing count w out with
  | nil =>
    refine ⟨[], [], rfl, rfl, rfl, ?_⟩
    rw [flatMap_nil, append_nil]
    exact ⟨h, hphase⟩
  | cons b bs ih =>
    obtain ⟨nack, hack, hlow, -⟩ := swWriteByte_of_low hf b h (by rw [hphase]; rfl)
    have hnext := phaseOf_written hphase nack b
    rw [swSendBytes]
    cases nack with
    | true =>
      rw [hack, if_neg nofun]
      refine ⟨[], b :: bs, rfl, rfl, rfl, ?_⟩
      rw [flatMap_nil, append_nil]
      exact swStop_of_low hf hlow (by rw [hnext]; rfl)
    | false =>
      obtain ⟨acked, rest, hdata, hcount, hrest⟩ := ih (count + 1) hlow hnext
      rw [hack, Bool.not_false, if_pos rfl]
      refine ⟨b :: acked, rest, congrArg (List.cons b) hdata, ?_, ?_⟩
      · rw [hcount, length_cons, Nat.add_assoc, Nat.add_comm 1]
      · rw [flatMap_cons, ← append_assoc]
        exact hrest

theorem shiftLeft_and_0xFE (devAddr : ℕ) : (devAddr <<< 1) &&& 0xFE = 2 * (devAddr % 2 ^ 7) := by
  have hmask : (0xFE : ℕ) = (2 ^ 7 - 1) <<< 1 := rfl
  rw [hmask, ← Nat.shiftLeft_and_distrib, Nat.and_two_pow_sub_one_eq_mod, Nat.shiftLeft_eq]
  exact Nat.mul_comm _ _

/-- The first byte of a call that sends. -/
theorem addressByte_false (devAddr : ℕ) :
    UInt8.ofNat ((devAddr <<< 1) &&& 0xFE) = addressByte devAddr false := by
  refine UInt8.toNat_inj.mp ?_
  rw [shiftLeft_and_0xFE, addressByte, UInt8.toNat_ofNat', UInt8.toNat_ofNat', Bool.toNat_false]
  omega

/-- The first byte of a call that receives. -/
theorem addressByte_true (devAddr : ℕ) :
    UInt8.ofNat (((devAddr <<< 1) &&& 0xFE) ||| 0x01) = addressByte devAddr true := by
  have hor : 2 * (devAddr % 2 ^ 7) + 1 = 2 * (devAddr % 2 ^ 7) ||| 1 :=
    Nat.two_pow_add_eq_or_of_lt (i := 1) (b := 1) (by omega) (devAddr % 2 ^ 7)
  refine UInt8.toNat_inj.mp ?_
  rw [shiftLeft_and_0xFE, ← hor, addressByte, UInt8.toNat_ofNat', UInt8.toNat_ofNat',
    Bool.toNat_true]
  omega

theorem testBit_addressByte (devAddr : ℕ) (read : Bool) :
    (addressByte devAddr read).toNat.testBit 0 = read := by
  rw [addressByte, UInt8.toNat_ofNat', Nat.testBit_mod_two_pow, Nat.testBit_zero]
  cases read with
  | false => rw [Bool.toNat_false]; simp
  | true => rw [Bool.toNat_true]; simp

/-- What comes of a call that sends. -/
theorem swI2cMasterSend_right (hf : Follows slave i2cSoftStretchLimit) (devAddr : ℕ)
    (data : List UInt8) (xferPending : Bool) (h : Ready slave w out) :
    ∃ out', Ready slave (swI2cMasterSend slave devAddr data xferPending w).wire out' ∧
      SendRight devAddr data xferPending out out'
        (swI2cMasterSend slave devAddr data xferPending w) := by
  obtain ⟨nack, hack, hlow, -⟩ := swWriteByte_of_low hf (addressByte devAddr false)
    (swStart_of_ready hf h) (by rw [phaseOf_start]; rfl)
  have hphase := phaseOf_address out nack (addressByte devAddr false)
  rw [testBit_addressByte] at hphase
  rw [swI2cMasterSend, addressByte_false]
  cases nack with
  | true =>
    rw [hack, if_neg nofun]
    refine ⟨_, swStop_of_low hf hlow (by rw [hphase]; rfl), [], _, rfl, rfl, rfl, ?_⟩
    rw [flatMap_nil]
  | false =>
    rw [hack, Bool.not_false, if_pos rfl]
    have hsent := swSendBytes_sent hf data 0 hlow hphase
    generalize swSendBytes slave data 0
      (swWriteByte slave (addressByte devAddr false) (swStart slave w)).2 = r at hsent ⊢
    obtain ⟨acked, rest, rfl, hcount, hrest⟩ := hsent
    obtain ⟨hresult, hxfer, -⟩ := finish_result slave xferPending r
    have hacked : (r.finish slave xferPending).xferCount =
        (addressByte devAddr false :: acked).length - 1 := by
      rw [hxfer, hcount, length_cons, Nat.zero_add, Nat.add_sub_cancel]
    cases rest with
    | nil =>
      obtain ⟨hok, hlow, hphase⟩ := hrest
      refine ⟨_, finish_ready hf xferPending hok hlow (by rw [hphase]; rfl),
        addressByte devAddr false :: acked, [], rfl, hacked, hresult.trans hok, ?_⟩
      rw [flatMap_cons]
      simp only [append_assoc, cons_append, nil_append]
    | cons b bs =>
      obtain ⟨hfailed, hready⟩ := hrest
      have hfinish : r.finish slave xferPending = r := by
        rw [I2cCall.finish, if_neg (fun h => by rw [hfailed] at h; exact nomatch h.1)]
      refine ⟨_, by rw [hfinish]; exact hready, addressByte devAddr false :: acked, b :: bs, rfl,
        hacked, hresult.trans hfailed, ?_⟩
      rw [flatMap_cons]
      simp only [append_assoc, cons_append, nil_append]

/-- The loop of `sw_i2c_master_receive`. -/
theorem swReceiveBytes_of_low (hf : Follows slave i2cSoftStretchLimit) (h : Low slave w out)
    (hphase : phaseOf out = .read 0) :
    (swReceiveBytes slave n w).1.length = n ∧
      Low slave (swReceiveBytes slave n w).2 (out ++ bytesRead (swReceiveBytes slave n w).1) ∧
      (n ≠ 0 → phaseOf (out ++ bytesRead (swReceiveBytes slave n w).1) = .free) := by
  induction n generalizing w out with
  | zero =>
    refine ⟨rfl, ?_, fun h => absurd rfl h⟩
    rw [swReceiveBytes, bytesRead, append_nil]
    exact h
  | succ n ih =>
    have hlow := swReadByte_of_low hf (0 < n) h hphase
    have hnext := phaseOf_readFrom hphase (0 < n) (swReadByte slave (0 < n) w).1
    rw [swReceiveBytes]
    generalize swReadByte slave (0 < n) w = r at hlow hnext ⊢
    cases n with
    | zero =>
      refine ⟨rfl, ?_, fun _ => ?_⟩
      · exact hlow
      · exact hnext
    | succ n =>
      obtain ⟨hlength, hlow, hfree⟩ := ih hlow hnext
      have hmore : (swReceiveBytes slave (n + 1) r.2).1.isEmpty = false :=
        isEmpty_eq_false_iff.mpr (ne_nil_of_length_eq_add_one hlength)
      refine ⟨congrArg (· + 1) hlength, ?_, fun _ => ?_⟩
      · rw [bytesRead, hmore, ← append_assoc]
        exact hlow
      · rw [bytesRead, hmore, ← append_assoc]
        exact hfree (Nat.succ_ne_zero n)

/-- What comes of a call that receives, if it is to receive something or is not the last. -/
theorem swI2cMasterReceive_right (hf : Follows slave i2cSoftStretchLimit) (devAddr : ℕ)
    (xferPending : Bool) (hn : n ≠ 0 ∨ xferPending = true) (h : Ready slave w out) :
    ∃ out', ReceiveRight devAddr n xferPending out out'
        (swI2cMasterReceive slave devAddr n xferPending w) ∧
      (exchange slave (swI2cMasterReceive slave devAddr n xferPending w).wire.hist).out = out' ∧
      (n ≠ 0 → Ready slave (swI2cMasterReceive slave devAddr n xferPending w).wire out') := by
  obtain ⟨nack, hack, hlow, -⟩ := swWriteByte_of_low hf (addressByte devAddr true)
    (swStart_of_ready hf h) (by rw [phaseOf_start]; rfl)
  have hphase := phaseOf_address out nack (addressByte devAddr true)
  rw [testBit_addressByte] at hphase
  rw [swI2cMasterReceive, addressByte_true]
  cases nack with
  | true =>
    rw [hack, if_neg nofun]
    have hready := swStop_of_low hf hlow (by rw [hphase]; rfl)
    refine ⟨_, .inr ⟨rfl, rfl, ?_⟩, hready.exchanged, fun _ => hready⟩
    simp only [append_assoc, cons_append, nil_append]
  | false =>
    rw [hack, Bool.not_false, if_pos rfl]
    obtain ⟨hlength, hlow, hfree⟩ := swReceiveBytes_of_low (n := n) hf hlow hphase
    generalize swReceiveBytes slave n
      (swWriteByte slave (addressByte devAddr true) (swStart slave w)).2 = s at hlength hlow hfree ⊢
    have hready : n ≠ 0 → Ready slave
        ((I2cCall.mk .ok s.1.length s.1 s.2).finish slave xferPending).wire _ := fun hn =>
      finish_ready (r := .mk .ok s.1.length s.1 s.2) hf xferPending rfl hlow (by rw [hfree hn]; rfl)
    obtain ⟨hresult, hxfer, hdata⟩ :=
      finish_result slave xferPending (.mk .ok s.1.length s.1 s.2)
    refine ⟨_, .inl ⟨hresult, ?_, hxfer.trans hlength, ?_⟩, ?_, hready⟩
    · rw [hdata]
      exact hlength
    · rw [hdata]
      simp only [append_assoc, cons_append, nil_append]
    · rcases hn with hn | rfl
      · exact (hready hn).exchanged
      · rw [stopUnless, if_pos rfl, append_nil]
        exact hlow.down.exchanged

theorem Ready.of_idle (h : Idle slave w) : Ready slave w (exchange slave w.hist).out := by
  obtain ⟨t, hhist⟩ := h.level
  refine .idle (exchange slave w.hist).sample ⟨h.scl, ⟨t, ?_⟩, h.drive, rfl⟩ h.sda
  rw [hhist, h.sda]
  rfl

/-- A call that is to receive something or nothing, and in the second case is not the last, is right;
in the first case it leaves the bus to the next one. -/
theorem I2cOp.right_of_ready (hf : Follows slave i2cSoftStretchLimit) (h : Ready slave w out)
    (op : I2cOp) (hop : ∀ devAddr, op ≠ .receive devAddr 0 false) :
    op.Right slave w ∧ ((∀ devAddr, op ≠ .receive devAddr 0 true) →
      ∃ out', Ready slave (op.call slave w).wire out') := by
  cases op with
  | send devAddr data xferPending =>
    obtain ⟨out', hready, hright⟩ := swI2cMasterSend_right hf devAddr data xferPending h
    refine ⟨?_, fun _ => ⟨out', hready⟩⟩
    rw [I2cOp.Right, h.exchanged]
    dsimp only [I2cOp.call]
    rw [hready.exchanged]
    exact hright
  | receive devAddr size xferPending =>
    have hsize : size ≠ 0 ∨ xferPending = true := by
      by_contra! hzero
      exact hop devAddr (by rw [hzero.1, Bool.eq_false_iff.mpr hzero.2])
    obtain ⟨out', hright, hexchanged, hready⟩ :=
      swI2cMasterReceive_right hf devAddr xferPending hsize h
    refine ⟨?_, fun hnot => ⟨out', hready fun hzero => ?_⟩⟩
    · rw [I2cOp.Right, h.exchanged]
      dsimp only [I2cOp.call]
      rw [hexchanged]
      exact hright
    · rcases hsize with hsize | rfl
      · exact hsize hzero
      · exact hnot devAddr (by rw [hzero])

/-- A call that is right begins with a start. -/
theorem I2cOp.Right.start {op : I2cOp} (h : op.Right slave w) :
    (exchange slave w.hist).out ++ [(.start, true)] <+:
      (exchange slave (op.call slave w).wire.hist).out := by
  cases op with
  | send devAddr data xferPending =>
    obtain ⟨acked, rest, -, -, hrest⟩ := h
    cases rest with
    | nil =>
      rw [hrest.2, append_assoc]
      exact prefix_append_right_inj _ |>.mpr (prefix_append [_] _)
    | cons b bs =>
      rw [hrest.2, append_assoc, append_assoc]
      exact prefix_append_right_inj _ |>.mpr (prefix_append [_] _)
  | receive devAddr size xferPending =>
    rcases h with ⟨-, -, -, hout⟩ | ⟨-, -, hout⟩
    · rw [hout, append_assoc, append_assoc]
      exact prefix_append_right_inj _ |>.mpr (prefix_append [_] _)
    · rw [hout, append_assoc]
      exact prefix_append_right_inj _ |>.mpr (prefix_append [_] _)

end Calls

/-! ### Nothing is taken back -/

section Later

variable (slave : Slave) (w : Wire)

theorem later_swSclWait (n : ℕ) : Wire.Later w (swSclWait slave n w) := by
  induction n generalizing w with
  | zero => exact suffix_rfl
  | succ n ih =>
    rw [swSclWait]
    split
    · exact suffix_rfl
    · exact (Wire.later_tick slave w).trans (ih _)

theorem later_swSclHigh : Wire.Later w (swSclHigh slave w) :=
  ((Wire.later_setScl slave true w).trans (Wire.later_tick slave _)).trans
    (later_swSclWait slave _ _)

theorem later_swSclLow : Wire.Later w (swSclLow slave w) :=
  (Wire.later_setScl slave false w).trans (Wire.later_tick slave _)

theorem later_swSda (b : Bool) : Wire.Later w (swSda slave b w) := Wire.later_setSda slave b w

theorem later_swDelay : Wire.Later w (swDelay slave w) := Wire.later_tick slave w

theorem later_swStop : Wire.Later w (swStop slave w) :=
  (((later_swSda slave w false).trans (later_swDelay slave _)).trans (later_swSclHigh slave _)).trans
    ((later_swSda slave _ true).trans (later_swDelay slave _))

theorem later_swWriteBits (n : ℕ) (data : UInt8) : Wire.Later w (swWriteBits slave n data w) := by
  induction n generalizing data w with
  | zero => exact suffix_rfl
  | succ n ih =>
    exact (((later_swSda slave w _).trans (later_swDelay slave _)).trans
      ((later_swSclHigh slave _).trans (later_swSclLow slave _))).trans (ih _ _)

theorem later_swWriteByte (data : UInt8) : Wire.Later w (swWriteByte slave data w).2 :=
  (later_swWriteBits slave w 8 data).trans <|
    ((later_swSda slave _ true).trans (later_swDelay slave _)).trans
      ((later_swSclHigh slave _).trans (later_swSclLow slave _))

theorem later_swReadBits (n : ℕ) (data : UInt8) : Wire.Later w (swReadBits slave n data w).2 := by
  induction n generalizing data w with
  | zero => exact suffix_rfl
  | succ n ih =>
    exact ((later_swSclHigh slave w).trans (later_swSclLow slave _)).trans (ih _ _)

theorem later_swReadByte (ack : Bool) : Wire.Later w (swReadByte slave ack w).2 :=
  ((later_swSda slave w true).trans (later_swReadBits slave _ 8 0)).trans <|
    ((later_swSda slave _ _).trans (later_swDelay slave _)).trans
      (((later_swSclHigh slave _).trans (later_swSclLow slave _)).trans (later_swSda slave _ true))

theorem later_swSendBytes (data : List UInt8) (count : ℕ) :
    Wire.Later w (swSendBytes slave data count w).wire := by
  induction data generalizing count w with
  | nil => exact suffix_rfl
  | cons b bs ih =>
    rw [swSendBytes]
    split
    · exact (later_swWriteByte slave w b).trans (ih _ _)
    · exact (later_swWriteByte slave w b).trans (later_swStop slave _)

theorem later_swReceiveBytes (n : ℕ) : Wire.Later w (swReceiveBytes slave n w).2 := by
  induction n generalizing w with
  | zero => exact suffix_rfl
  | succ n ih => exact (later_swReadByte slave w _).trans (ih _)

theorem later_finish (xferPending : Bool) (r : I2cCall) :
    Wire.Later r.wire (r.finish slave xferPending).wire := by
  rw [I2cCall.finish]
  split
  · exact later_swStop slave r.wire
  · exact suffix_rfl

/-- What is exchanged in the start of a call stays. -/
theorem later_call (op : I2cOp) : Wire.Later (swStart slave w) (op.call slave w).wire := by
  cases op with
  | send devAddr data xferPending =>
    rw [I2cOp.call, swI2cMasterSend]
    split
    · exact ((later_swWriteByte slave _ _).trans (later_swSendBytes slave _ _ _)).trans
        (later_finish slave _ _)
    · exact (later_swWriteByte slave _ _).trans (later_swStop slave _)
  | receive devAddr size xferPending =>
    rw [I2cOp.call, swI2cMasterReceive]
    split
    · exact ((later_swWriteByte slave _ _).trans (later_swReceiveBytes slave _ _)).trans
        (later_finish slave xferPending (.mk .ok _ _ _))
    · exact (later_swWriteByte slave _ _).trans (later_swStop slave _)

end Later

/-! ### To receive nothing -/

/-- A slave that acknowledges everything and gives zeros. -/
def zeros : Slave
  | [] => ⟨true, true⟩
  | l :: h =>
    if l.scl then zeros h
    else ⟨true, !(phase ((decode (fun _ => ()) (l :: h)).out.map Prod.fst)).slaveMay⟩

theorem zeros_scl (h : List Lines) : (zeros h).scl = true := by
  induction h with
  | nil => rfl
  | cons l h ih =>
    rw [zeros]
    split
    · exact ih
    · rfl

theorem zeros_follows : Follows zeros i2cSoftStretchLimit where
  steady l h hl := by rw [zeros, if_pos hl]
  turn l l' h hl hl' hslave hphase := by
    rw [zeros, hl, if_neg nofun, hphase]
    rfl
  patient h := by
    have hheld : held zeros h = 0 := by
      cases h with
      | nil => rfl
      | cons l h => rw [held, if_pos (zeros_scl h)]
    rw [hheld]
    exact Nat.succ_pos 999

section Zeros

variable {w : Wire} {out : List (Symbol × Bool)} {x : Bool}

theorem zeros_of_down (h : Down zeros w out) :
    zeros w.hist = ⟨true, !(phaseOf out).slaveMay⟩ := by
  have hsymbols := h.symbols
  obtain ⟨l, l', t, hhist, hl, -⟩ := h.low
  rw [hhist] at hsymbols ⊢
  rw [zeros, hl, if_neg nofun, hsymbols]
  rfl

theorem zeros_of_rises {w' : Wire} (h : Rises zeros w w' out x) :
    x = !(phaseOf out).slaveMay := by
  obtain ⟨v, hv, hdrive⟩ := h.source
  have hzeros := zeros_of_down hv
  rw [hdrive] at hzeros
  exact congrArg Lines.sda hzeros

/-- The address is acknowledged and nothing is read: the slave has the data line. -/
theorem swI2cMasterReceive_zero (devAddr : ℕ) (xferPending : Bool) (h : Ready zeros w out) :
    ∃ v out', swI2cMasterReceive zeros devAddr 0 xferPending w =
        (I2cCall.mk .ok 0 [] v).finish zeros xferPending ∧
      Low zeros v out' ∧ phaseOf out' = .read 0 ∧
      out' = out ++ ((.start, true) :: written false (addressByte devAddr true)) := by
  obtain ⟨nack, hack, hlow, v, hv, hdrive⟩ := swWriteByte_of_low zeros_follows
    (addressByte devAddr true) (swStart_of_ready zeros_follows h) (by rw [phaseOf_start]; rfl)
  have hphase := phaseOf_address out nack (addressByte devAddr true)
  rw [testBit_addressByte] at hphase
  have hnack : nack = false := by
    have hzeros := zeros_of_down hv
    rw [hdrive, phaseOf_append, phaseOf_start] at hzeros
    exact congrArg Lines.sda hzeros
  subst hnack
  refine ⟨_, _, ?_, hlow, hphase, ?_⟩
  · rw [swI2cMasterReceive, addressByte_true, hack, Bool.not_false, if_pos rfl]
    rfl
  · rw [append_assoc]
    rfl

/-- A stop after nothing has been read does not come about. -/
theorem exchange_of_zero (devAddr : ℕ) (h : Ready zeros w out) :
    (swI2cMasterReceive zeros devAddr 0 false w).result = .ok ∧
      (swI2cMasterReceive zeros devAddr 0 false w).data = [] ∧
      (exchange zeros (swI2cMasterReceive zeros devAddr 0 false w).wire.hist).out =
        out ++ ((.start, true) :: written false (addressByte devAddr true)) := by
  obtain ⟨v, out', hcall, hlow, hphase, hout⟩ := swI2cMasterReceive_zero devAddr false h
  obtain ⟨x, hrises⟩ := swSclHigh_of_down zeros_follows (hlow.swSda false).swDelay.down
  have hx := zeros_of_rises hrises
  rw [hphase] at hx
  obtain rfl : x = false := hx
  have hend := (hrises.high.setSda zeros_follows (b := true) (by rw [hrises.sda]; rfl)).tick
    zeros_follows
  rw [hcall, I2cCall.finish, if_pos ⟨rfl, rfl⟩, ← hout]
  exact ⟨rfl, rfl, congrArg Decoded.out hend.exchanged⟩

/-- A call that stops after nothing has been read is not right. -/
theorem not_right_of_zero (devAddr : ℕ) (h : Ready zeros w out) :
    ¬ (I2cOp.receive devAddr 0 false).Right zeros w := by
  obtain ⟨hok, hdata, hout⟩ := exchange_of_zero devAddr h
  rw [I2cOp.Right, h.exchanged]
  dsimp only [I2cOp.call]
  rw [hout]
  rintro (⟨-, -, -, heq⟩ | ⟨hres, -⟩)
  · exact absurd (congrArg List.length heq) (by simp [written, stopUnless])
  · rw [hok] at hres
    exact nomatch hres

/-- After such a call without a stop the next one is not right: there is no start. -/
theorem not_right_after_zero (devAddr : ℕ) (h : Ready zeros w out) (op : I2cOp) :
    ¬ op.Right zeros ((I2cOp.receive devAddr 0 true).call zeros w).wire := by
  obtain ⟨v, out', hcall, hlow, hphase, -⟩ := swI2cMasterReceive_zero devAddr true h
  obtain ⟨x, hrises⟩ := swSclHigh_of_down zeros_follows (hlow.swSda true).down
  have hx := zeros_of_rises hrises
  rw [hphase] at hx
  obtain rfl : x = false := hx
  have hstart := ((hrises.high.setSda zeros_follows (b := false) (by rw [hrises.sda]; rfl)).tick
    zeros_follows).fall
  have hbit : (exchange zeros (swStart zeros v).hist).out = out' ++ [(.bit false, false)] :=
    hstart.exchanged
  have hprefix := decode_of_suffix (fun h => (zeros h).sda) (later_call zeros v op)
  rw [← exchange, hbit] at hprefix
  have hwire : ((I2cOp.receive devAddr 0 true).call zeros w).wire = v := by
    rw [I2cOp.call, hcall]
    rfl
  intro hright
  have hstart' := hright.start
  rw [hwire, hlow.down.exchanged] at hstart'
  have heq := List.IsPrefix.eq_of_length (prefix_of_prefix_length_le hprefix hstart' (by simp))
    (by simp)
  rw [append_cancel_left_eq] at heq
  cases heq

end Zeros

/-! ### Runs -/

/-- A slave that acknowledges everything and gives zeros shows what is not right. -/
theorem nothing_last_of_right {w : Wire} {out : List (Symbol × Bool)} (h : Ready zeros w out)
    (ops : List I2cOp) (hright : CallsRight zeros w ops) (devAddr : ℕ) (xferPending : Bool)
    (rest : List I2cOp) (hops : .receive devAddr 0 xferPending :: rest <:+ ops) :
    xferPending = true ∧ rest = [] := by
  induction ops generalizing w out with
  | nil => exact absurd (suffix_nil.mp hops) (cons_ne_nil _ _)
  | cons op ops ih =>
    obtain ⟨hop, hrest⟩ := hright
    rcases suffix_cons_iff.mp hops with heq | htail
    · obtain ⟨rfl, rfl⟩ := List.cons.inj heq
      cases xferPending with
      | false => exact absurd hop (not_right_of_zero devAddr h)
      | true =>
        refine ⟨rfl, ?_⟩
        cases rest with
        | nil => rfl
        | cons next rest => exact absurd hrest.1 (not_right_after_zero devAddr h next)
    · by_cases hzero : ∃ devAddr xferPending, op = .receive devAddr 0 xferPending
      · obtain ⟨devAddr', xferPending', rfl⟩ := hzero
        cases xferPending' with
        | false => exact absurd hop (not_right_of_zero devAddr' h)
        | true =>
          cases ops with
          | nil => exact absurd (suffix_nil.mp htail) (cons_ne_nil _ _)
          | cons next ops => exact absurd hrest.1 (not_right_after_zero devAddr' h next)
      · obtain ⟨-, hready⟩ := I2cOp.right_of_ready zeros_follows h op
          fun devAddr heq => hzero ⟨devAddr, false, heq⟩
        obtain ⟨out', hready⟩ := hready fun devAddr heq => hzero ⟨devAddr, true, heq⟩
        exact ih hready hrest htail

/-- Without a call that is to receive nothing, but for a last one with another to follow, all calls
are right. -/
theorem callsRight_of_nothing_last {slave : Slave} {w : Wire} {out : List (Symbol × Bool)}
    (hf : Follows slave i2cSoftStretchLimit) (h : Ready slave w out) (ops : List I2cOp)
    (hops : ∀ devAddr xferPending rest, .receive devAddr 0 xferPending :: rest <:+ ops →
      xferPending = true ∧ rest = []) : CallsRight slave w ops := by
  induction ops generalizing w out with
  | nil => trivial
  | cons op ops ih =>
    obtain ⟨hright, hready⟩ := I2cOp.right_of_ready hf h op fun devAddr heq => by
      subst heq
      exact nomatch (hops devAddr false ops suffix_rfl).1
    by_cases hzero : ∃ devAddr, op = .receive devAddr 0 true
    · obtain ⟨devAddr, rfl⟩ := hzero
      obtain ⟨-, rfl⟩ := hops devAddr true ops suffix_rfl
      exact ⟨hright, trivial⟩
    · rw [not_exists] at hzero
      obtain ⟨out', hready⟩ := hready hzero
      exact ⟨hright, ih hready fun devAddr xferPending rest hrest =>
        hops devAddr xferPending rest (hrest.trans (suffix_cons op ops))⟩

/-- **The lists of calls that are right on the bus**, whatever the slave does that follows the
protocol: in these a call that is to receive nothing, if there is one, leaves out the stop and is the
last. -/
theorem swCalls_iff (ops : List I2cOp) :
    (∀ slave w, Follows slave i2cSoftStretchLimit → Idle slave w → CallsRight slave w ops) ↔
      ∀ devAddr xferPending rest, .receive devAddr 0 xferPending :: rest <:+ ops →
        xferPending = true ∧ rest = [] := by
  constructor
  · intro h
    have hidle : Idle zeros ⟨[⟨true, true⟩], true, true⟩ := ⟨rfl, rfl, ⟨[], rfl⟩, rfl⟩
    exact nothing_last_of_right (.of_idle hidle) ops (h zeros _ zeros_follows hidle)
  · intro h slave w hf hidle
    exact callsRight_of_nothing_last hf (.of_idle hidle) ops h

/-- A call that is to receive nothing returns `OPRT_OK` without a stop on the bus. -/
theorem swCalls_counterexample :
    Follows zeros i2cSoftStretchLimit ∧ Idle zeros ⟨[⟨true, true⟩], true, true⟩ ∧
      ¬ CallsRight zeros ⟨[⟨true, true⟩], true, true⟩ [.receive 0x50 0 false] := by
  have hidle : Idle zeros ⟨[⟨true, true⟩], true, true⟩ := ⟨rfl, rfl, ⟨[], rfl⟩, rfl⟩
  exact ⟨zeros_follows, hidle, fun h => not_right_of_zero 0x50 (.of_idle hidle) h.1⟩

end Gd32.Tkl
