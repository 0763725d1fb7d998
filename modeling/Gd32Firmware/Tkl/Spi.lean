import Gd32Firmware.Config
import Gd32Firmware.Lib.Machine
import Gd32Firmware.Tkl.Vote

/-!
# SPI transfers

`tkl_spi.c` has two channels of the DMA controller move the items of a transfer and gives one
callback at its end. What is under way is a mask, `op_msk`, which the handlers of the two channels
and of the SPI clear piece by piece; an error clears all of it, while the other channel may still
have its interrupt pending.

The hardware moves an item of a channel at a time, or reports an error, in any order. The pins and
the chip select are left out, and the status word, which no modelled function reads.
-/

namespace Gd32

open List Option Bool

variable {k : SpiKind} {port : ℕ}

namespace Tkl

/-! ### The hardware -/

/-- A channel of the DMA controller, as far as it is used. -/
structure DmaChannel where
  enabled : Bool
  /-- `DMA_CHXCNT`, the items left. -/
  left : ℕ
  done : ℕ
  /-- `memory_inc`. -/
  memInc : Bool
  /-- The bytes of the memory that was given. -/
  room : ℕ
  /-- `DMA_INT_FLAG_FTF`: all items have been moved. -/
  ftf : Bool
  /-- `DMA_INT_FLAG_FEE`: an error. -/
  fee : Bool
  /-- `DMA_INT_FTF` and `DMA_INT_FEE`. -/
  intEn : Bool

/-- A channel that has not been used. -/
def DmaChannel.unused : DmaChannel := ⟨false, 0, 0, false, 0, false, false, false⟩

/-- An interrupt of the channel is pending. -/
def DmaChannel.pending (c : DmaChannel) : Bool := c.intEn && (c.fee || c.ftf)

/-- The channel moves an item; the last one sets the flag and disables the channel. -/
def DmaChannel.move (c : DmaChannel) : DmaChannel :=
  { c with
    left := c.left - 1
    done := c.done + 1
    ftf := c.ftf || c.left == 1
    enabled := c.left != 1 }

/-- A write of the receiving channel into the memory given to it. -/
structure DmaWrite where
  offset : ℕ
  width : ℕ
  room : ℕ

/-! ### The driver -/

/-- `TUYA_SPI_ROLE_E`, without the inactive one. -/
inductive SpiRole where
  | master
  | slave
  | masterSimplex
  | slaveSimplex

/-- Only one direction at a time. -/
def SpiRole.simplex : SpiRole → Bool
  | .masterSimplex => true
  | .slaveSimplex => true
  | _ => false

/-- `op_msk`, by its bits. -/
structure OpMsk where
  /-- `SPI_SEND_OP_MSK`. -/
  send : Bool
  /-- `SPI_RECV_OP_MSK`. -/
  recv : Bool
  /-- `SPI_TRANS_SEND_OP_MSK`. -/
  transSend : Bool
  /-- `SPI_TRANS_RECV_OP_MSK`. -/
  transRecv : Bool
  /-- `SPI_DMA_SEND_CMPLT_MSK`. -/
  sendCmplt : Bool
  deriving DecidableEq, Repr

/-- The mask 0. -/
def OpMsk.zero : OpMsk := ⟨false, false, false, false, false⟩

/-- `op_msk & ~SPI_TRANS_SEND_OP_MSK`. -/
def OpMsk.sent (m : OpMsk) : OpMsk := { m with transSend := false }

/-- `op_msk & ~SPI_TRANS_RECV_OP_MSK`. -/
def OpMsk.received (m : OpMsk) : OpMsk := { m with transRecv := false }

/-- `TUYA_SPI_IRQ_EVT_E`. -/
inductive SpiIrqEvt where
  | transferComplete
  | txComplete
  | rxComplete
  | dataLost
  | modeFault

/-- The event reports success. -/
def SpiIrqEvt.success : SpiIrqEvt → Bool
  | .transferComplete => true
  | .txComplete => true
  | .rxComplete => true
  | _ => false

/-- The call that started a transfer. -/
inductive SpiKind where
  | send
  | recv
  | transfer

/-- A callback, and whether all items had been moved by then. -/
structure SpiCallback where
  evt : SpiIrqEvt
  /-- All items have been moved in every direction that is used. -/
  moved : Bool

/-- A transfer that has been started. -/
structure SpiTransfer where
  kind : SpiKind
  length : ℕ
  callbacks : List SpiCallback
  aborted : Bool

/-- The driver and its hardware. -/
structure Spi where
  role : SpiRole
  /-- `frame_size` is `SPI_FRAMESIZE_16BIT`. -/
  frame16 : Bool
  irqEn : Bool
  opMsk : OpMsk
  /-- The channel `SPI_DMA_TX`. -/
  tx : DmaChannel
  /-- The channel `SPI_DMA_RX`. -/
  rx : DmaChannel
  /-- `SPI_DMA_TRANSMIT` is enabled. -/
  dmaTransmit : Bool
  /-- `SPI_DMA_RECEIVE` is enabled. -/
  dmaReceive : Bool
  enabled : Bool
  /-- `SPI_INT_ERR` is enabled. -/
  errInt : Bool
  /-- `SPI_INT_TBE` or `SPI_INT_RBNE` is enabled. -/
  dataInt : Bool
  rxorerr : Bool
  conferr : Bool
  /-- `SPI_FLAG_TRANS`: a frame is being shifted. -/
  trans : Bool
  vote : Vote
  past : List SpiTransfer
  cur : Option SpiTransfer
  writes : List DmaWrite

/-- The driver as `tkl_spi_init` leaves it, with interrupts enabled and a callback given. -/
def spiInit (role : SpiRole) (frame16 : Bool) : Spi :=
  ⟨role, frame16, true, .zero, .unused, .unused, false, false, false, false, false, false, false,
    false, .none, [], none, []⟩

/-- All items of a transfer have been moved. -/
def Spi.moved (s : Spi) (t : SpiTransfer) : Bool :=
  match t.kind with
  | .send => s.tx.done == t.length
  | .recv => s.rx.done == t.length
  | .transfer => s.tx.done == t.length && s.rx.done == t.length

/-- `spi_irq_cb` is called. -/
def Spi.callback (s : Spi) (evt : SpiIrqEvt) : Spi :=
  { s with cur := s.cur.map fun t => { t with callbacks := t.callbacks ++ [⟨evt, s.moved t⟩] } }

/-- `tkl_spi_disable_irqs`. -/
def Spi.disableIrqs (s : Spi) : Spi :=
  if s.irqEn = true then { s with errInt := false, dataInt := false } else s

/-- What the handlers do when the mask is 0. -/
def Spi.finish (s : Spi) : Spi :=
  if s.opMsk = .zero then
    { s.disableIrqs with
      dmaTransmit := false
      dmaReceive := false
      enabled := false
      vote := s.vote.release }
  else s

def dmaChannel4IrqHandler (s : Spi) : Spi :=
  Spi.finish <|
    if s.tx.intEn = true ∧ s.tx.fee = true then
      { s.callback .dataLost with opMsk := .zero, tx := { s.tx with fee := false } }
    else if s.tx.intEn = true ∧ s.tx.ftf = true then
      if s.opMsk.transSend = true ∨ s.opMsk.transRecv = true then
        if s.opMsk.sent = .zero then
          { s.callback .transferComplete with
            opMsk := s.opMsk.sent
            tx := { s.tx with ftf := false } }
        else { s with opMsk := s.opMsk.sent, tx := { s.tx with ftf := false } }
      else { s with opMsk := { s.opMsk with sendCmplt := true }, tx := { s.tx with ftf := false } }
    else s

def dmaChannel0IrqHandler (s : Spi) : Spi :=
  Spi.finish <|
    if s.rx.intEn = true ∧ s.rx.fee = true then
      { s.callback .dataLost with opMsk := .zero, rx := { s.rx with fee := false } }
    else if s.rx.intEn = true ∧ s.rx.ftf = true then
      if s.opMsk.transSend = true ∨ s.opMsk.transRecv = true then
        if s.opMsk.received = .zero then
          { s.callback .transferComplete with
            opMsk := s.opMsk.received
            rx := { s.rx with ftf := false } }
        else { s with opMsk := s.opMsk.received, rx := { s.rx with ftf := false } }
      else { s.callback .rxComplete with opMsk := .zero, rx := { s.rx with ftf := false } }
    else s

def spiIrqHandler (s : Spi) : Spi :=
  Spi.finish <|
    if s.errInt = true ∧ s.rxorerr = true then
      { (if s.opMsk ≠ .zero then { s.callback .dataLost with opMsk := .zero } else s) with
        rxorerr := false }
    else if s.errInt = true ∧ s.conferr = true then
      { s.callback .modeFault with opMsk := .zero }
    else if s.opMsk.send = true ∧ s.opMsk.sendCmplt = true ∧ s.trans = false then
      { s.callback .txComplete with opMsk := .zero }
    else s

/-- The bytes of a frame. -/
def Spi.width (s : Spi) : ℕ := if s.frame16 = true then 2 else 1

/-- `tkl_spi_tx_dma_conf` and `tkl_spi_rx_dma_conf`, of a memory with some room: the size is a
`uint16_t`. -/
def Spi.dmaConf (s : Spi) (room size : ℕ) (memInc : Bool) : DmaChannel :=
  ⟨true, size % 2 ^ 16, 0, memInc, room, false, false, s.irqEn⟩

/-- A transfer begins: flags that were left are cleared, the mask is set and the vote held. -/
def Spi.begin (s : Spi) (kind : SpiKind) (length : ℕ) (mask : OpMsk) : Spi :=
  { s with
    rxorerr := false
    conferr := false
    opMsk := mask
    vote := s.vote.hold
    past := s.past ++ s.cur.toList
    cur := some ⟨kind, length, [], false⟩ }

/-- The room of a buffer of some items, where the byte of the driver stands in for none. -/
def Spi.bufferRoom (s : Spi) (buf : Bool) (length : ℕ) : ℕ :=
  if buf = true then length * s.width else 1

/-- `tkl_spi_transfer` up to the wait. -/
def tklSpiTransfer (port : ℕ) (sendBuf receiveBuf : Bool) (length : ℕ) (s : Spi) :
    Option OprtErr × Spi :=
  if 1 ≤ port then (some .notSupported, s)
  else if s.role.simplex = true then (some .notSupported, s)
  else
    let t := s.begin .transfer length ⟨false, false, true, true, false⟩
    (none, { t with
      rx := s.dmaConf (s.bufferRoom receiveBuf length) length receiveBuf
      tx := s.dmaConf (s.bufferRoom sendBuf length) length sendBuf
      dmaTransmit := true
      dmaReceive := true
      errInt := s.errInt || s.irqEn
      enabled := true })

/-- `tkl_spi_send` up to the wait. -/
def tklSpiSend (port size : ℕ) (data : Bool) (s : Spi) : Option OprtErr × Spi :=
  if 1 ≤ port then (some .notSupported, s)
  else if s.role.simplex = true then
    (none, { s.begin .send size ⟨true, false, false, false, false⟩ with
      tx := s.dmaConf (if data = true then size * s.width else 0) size true
      dmaTransmit := true
      errInt := s.errInt || s.irqEn
      dataInt := s.dataInt || s.irqEn
      enabled := true })
  else tklSpiTransfer port data false size s

/-- `tkl_spi_recv` up to the wait. -/
def tklSpiRecv (port size : ℕ) (data : Bool) (s : Spi) : Option OprtErr × Spi :=
  if 1 ≤ port then (some .notSupported, s)
  else if s.role.simplex = true then
    (none, { s.begin .recv size ⟨false, true, false, false, false⟩ with
      rx := s.dmaConf (if data = true then size * s.width else 0) size true
      dmaReceive := true
      errInt := s.errInt || s.irqEn
      dataInt := s.dataInt || s.irqEn
      enabled := true })
  else tklSpiTransfer port false data size s

def tklSpiAbortTransfer (port : ℕ) (s : Spi) : Option OprtErr × Spi :=
  if 1 ≤ port then (some .notSupported, s)
  else if s.opMsk ≠ .zero then
    (none, { s.disableIrqs with
      tx := { s.tx with enabled := false }
      rx := { s.rx with enabled := false }
      dmaTransmit := false
      dmaReceive := false
      enabled := false
      vote := s.vote.release
      rxorerr := false
      conferr := false
      trans := false
      opMsk := .zero
      cur := s.cur.map fun t => { t with aborted := true } })
  else (none, s)

/-! ### What the hardware does -/

/-- The transmitting channel can move an item. -/
def Spi.txMoves (s : Spi) : Bool :=
  s.enabled && s.dmaTransmit && s.tx.enabled && decide (0 < s.tx.left)

/-- The receiving channel can move an item. -/
def Spi.rxMoves (s : Spi) : Bool :=
  s.enabled && s.dmaReceive && s.rx.enabled && decide (0 < s.rx.left)

/-- The next write of the receiving channel. -/
def Spi.nextWrite (s : Spi) : DmaWrite :=
  ⟨if s.rx.memInc = true then s.rx.done * s.width else 0, s.width, s.rx.room⟩

/-- What can happen. -/
inductive SpiEvent where
  /-- `tkl_spi_send`, of some data or none. -/
  | send (port size : ℕ) (data : Bool)
  /-- `tkl_spi_recv`. -/
  | recv (port size : ℕ) (data : Bool)
  /-- `tkl_spi_transfer`. -/
  | transfer (port : ℕ) (sendBuf receiveBuf : Bool) (length : ℕ)
  /-- `tkl_spi_abort_transfer`. -/
  | abort (port : ℕ)
  /-- The transmitting channel moves an item. -/
  | txItem
  | rxItem
  /-- The transmitting channel reports an error. -/
  | txError
  /-- The receiving channel reports an error. -/
  | rxError
  | overrun
  /-- The SPI reports a mode fault and disables itself. -/
  | modeFault
  | shifted
  /-- The interrupt of the transmitting channel. -/
  | irqTx
  /-- The interrupt of the receiving channel. -/
  | irqRx
  | irqSpi

/-- One event of the hardware, or one interrupt. -/
def Spi.hardware (s : Spi) : SpiEvent → Option Spi
  | .txItem => if s.txMoves = true then some { s with tx := s.tx.move, trans := true } else none
  | .rxItem =>
    if s.rxMoves = true then some { s with rx := s.rx.move, writes := s.writes ++ [s.nextWrite] }
    else none
  | .txError => if s.txMoves = true then some { s with tx := { s.tx with fee := true } } else none
  | .rxError => if s.rxMoves = true then some { s with rx := { s.rx with fee := true } } else none
  | .overrun => if s.enabled = true then some { s with rxorerr := true } else none
  | .modeFault =>
    if s.enabled = true then some { s with conferr := true, enabled := false } else none
  | .shifted => some { s with trans := false }
  | .irqTx => if s.tx.pending = true then some (dmaChannel4IrqHandler s) else none
  | .irqRx => if s.rx.pending = true then some (dmaChannel0IrqHandler s) else none
  | .irqSpi =>
    if s.errInt = true ∧ (s.rxorerr = true ∨ s.conferr = true) ∨ s.dataInt = true then
      some (spiIrqHandler s)
    else none
  | _ => none

/-- One event. -/
def spiStep (i : SpiEvent) (s : Spi) : Option Spi :=
  match i with
  | .send port size data => some (tklSpiSend port size data s).2
  | .recv port size data => some (tklSpiRecv port size data s).2
  | .transfer port sendBuf receiveBuf length =>
    some (tklSpiTransfer port sendBuf receiveBuf length s).2
  | .abort port => some (tklSpiAbortTransfer port s).2
  | i => s.hardware i

/-! ### What is to be so -/

/-- What the hardware does by itself, errors apart. -/
def SpiEvent.progress : SpiEvent → Bool
  | .txItem => true
  | .rxItem => true
  | .shifted => true
  | .irqTx => true
  | .irqRx => true
  | .irqSpi => true
  | _ => false

/-- Nothing is left to happen by itself. -/
def Spi.Quiet (s : Spi) : Prop :=
  ∀ i s', i.progress = true → s.hardware i = some s' → s' = s

/-- A write stays in the memory. -/
def DmaWrite.Inside (w : DmaWrite) : Prop := w.offset + w.width ≤ w.room

/-- A transfer has ended: it was aborted, or it had its one callback. -/
def SpiTransfer.Ended (t : SpiTransfer) : Prop := t.aborted = true ∨ t.callbacks.length = 1

/-- **Each transfer ends once.** It has one callback at most, and one when nothing is left to happen
or another one has been started, if it is not aborted; success is reported when all items have been
moved; and the receiving channel writes into the memory it was given. -/
structure SpiRight (s : Spi) : Prop where
  once : ∀ t ∈ s.past ++ s.cur.toList, t.callbacks.length ≤ 1
  past : ∀ t ∈ s.past, t.Ended
  quiet : s.Quiet → ∀ t ∈ s.cur, t.Ended
  success : ∀ t ∈ s.past ++ s.cur.toList, ∀ c ∈ t.callbacks, c.evt.success = true → c.moved = true
  writes : ∀ w ∈ s.writes, w.Inside

/-- No call is under way: what is left of a completion counts for nothing. -/
def OpMsk.idle (m : OpMsk) : Bool := !(m.send || m.recv || m.transSend || m.transRecv)

/-- A transfer is started when none is under way, of a length that fits the counter. -/
def Spi.Startable (s : Spi) (length : ℕ) : Prop :=
  s.opMsk.idle = true ∧ 0 < length ∧ length < 2 ^ 16

instance (s : Spi) (length : ℕ) : Decidable (s.Startable length) :=
  inferInstanceAs (Decidable (_ ∧ _ ∧ _))

/-- Transfers are started one after the other, with no flag left that would end the new one; a frame
that is not to be kept is a byte; and no interrupt that gives a callback is served when nothing is
under way. -/
def SpiEvent.Calm (s : Spi) : SpiEvent → Prop
  | .send port size _ => port = 0 → s.Startable size ∧
      if s.role.simplex = true then s.rx.ftf = false ∧ s.rx.fee = false else s.frame16 = false
  | .recv port size data => port = 0 → s.Startable size ∧
      if s.role.simplex = true then s.tx.fee = false ∧ data = true
      else data = true ∨ s.frame16 = false
  | .transfer port _ receiveBuf length => port = 0 → s.role.simplex = false →
      s.Startable length ∧ (receiveBuf = true ∨ s.frame16 = false)
  | .irqTx => s.opMsk.idle = true → s.tx.fee = false
  | .irqRx => s.opMsk.idle = false
  | _ => True

instance SpiEvent.decidableCalm (s : Spi) (i : SpiEvent) : Decidable (i.Calm s) :=
  match i with
  | .send _ size _ => inferInstanceAs (Decidable (_ = 0 → s.Startable size ∧ ite _ _ _))
  | .recv _ size _ => inferInstanceAs (Decidable (_ = 0 → s.Startable size ∧ ite _ _ _))
  | .transfer _ _ _ length =>
    inferInstanceAs (Decidable (_ = 0 → _ = false → s.Startable length ∧ (_ ∨ _)))
  | .irqTx => inferInstanceAs (Decidable (_ = true → _ = false))
  | .irqRx => inferInstanceAs (Decidable (_ = false))
  | .abort _ => inferInstanceAs (Decidable True)
  | .txItem => inferInstanceAs (Decidable True)
  | .rxItem => inferInstanceAs (Decidable True)
  | .txError => inferInstanceAs (Decidable True)
  | .rxError => inferInstanceAs (Decidable True)
  | .overrun => inferInstanceAs (Decidable True)
  | .modeFault => inferInstanceAs (Decidable True)
  | .shifted => inferInstanceAs (Decidable True)
  | .irqSpi => inferInstanceAs (Decidable True)

/-! ### A transfer under way -/

/-- A channel at work on some items. -/
structure ChannelOk (c : DmaChannel) (length : ℕ) : Prop where
  total : c.done + c.left = length
  ftf : c.ftf = true → c.left = 0
  run : 0 < c.left → c.enabled = true
  intEn : c.intEn = true

/-- The channel has its flag set or items left. -/
def DmaChannel.Todo (c : DmaChannel) : Prop := c.ftf = true ∨ 0 < c.left

/-- The memory of the receiving channel has room for all items, or for the one that is written over
and over. -/
def Spi.RoomOk (s : Spi) (length : ℕ) : Prop :=
  (if s.rx.memInc = true then length * s.width else s.width) ≤ s.rx.room

/-- `tkl_spi_send` under way. -/
structure SendActive (s : Spi) (length : ℕ) : Prop where
  mask : s.opMsk = ⟨true, false, false, false, s.opMsk.sendCmplt⟩
  tx : ChannelOk s.tx length
  transmit : s.dmaTransmit = true
  receive : s.dmaReceive = false
  ftf : s.rx.ftf = false
  fee : s.rx.fee = false
  todo : s.opMsk.sendCmplt = false → s.tx.Todo
  moved : s.opMsk.sendCmplt = true → s.tx.left = 0
  dataInt : s.dataInt = true

/-- `tkl_spi_recv` under way. -/
structure RecvActive (s : Spi) (length : ℕ) : Prop where
  mask : s.opMsk = ⟨false, true, false, false, s.opMsk.sendCmplt⟩
  rx : ChannelOk s.rx length
  transmit : s.dmaTransmit = false
  receive : s.dmaReceive = true
  fee : s.tx.fee = false
  todo : s.rx.Todo
  room : s.RoomOk length

/-- `tkl_spi_transfer` under way. -/
structure TransferActive (s : Spi) (length : ℕ) : Prop where
  mask : s.opMsk = ⟨false, false, s.opMsk.transSend, s.opMsk.transRecv, false⟩
  some : s.opMsk.transSend = true ∨ s.opMsk.transRecv = true
  tx : ChannelOk s.tx length
  rx : ChannelOk s.rx length
  transmit : s.dmaTransmit = true
  receive : s.dmaReceive = true
  txTodo : s.opMsk.transSend = true → s.tx.Todo
  rxTodo : s.opMsk.transRecv = true → s.rx.Todo
  txMoved : s.opMsk.transSend = false → s.tx.left = 0
  rxMoved : s.opMsk.transRecv = false → s.rx.left = 0
  room : s.RoomOk length

/-- What is so by the call that started the transfer. -/
def SpiWork (s : Spi) : SpiKind → ℕ → Prop
  | .send => SendActive s
  | .recv => RecvActive s
  | .transfer => TransferActive s

/-- **A transfer under way.** -/
structure SpiActive (s : Spi) (t : SpiTransfer) : Prop where
  callbacks : t.callbacks = []
  aborted : t.aborted = false
  enabled : s.enabled = true ∨ s.conferr = true
  errInt : s.errInt = true
  work : SpiWork s t.kind t.length

/-- A transfer has ended, and if with success then completely. -/
def SpiTransfer.EndedWell (t : SpiTransfer) : Prop :=
  t.aborted = true ∧ t.callbacks = [] ∨
    ∃ c, t.callbacks = [c] ∧ (c.evt.success = true → c.moved = true)

/-- Nothing is under way. -/
structure SpiIdle (s : Spi) : Prop where
  enabled : s.enabled = false
  transmit : s.dmaTransmit = false
  receive : s.dmaReceive = false
  errInt : s.errInt = false
  dataInt : s.dataInt = false
  cur : ∀ t ∈ s.cur, t.EndedWell

/-- **The driver between two events.** -/
structure SpiKept (s : Spi) : Prop where
  irqEn : s.irqEn = true
  past : ∀ t ∈ s.past, t.EndedWell
  writes : ∀ w ∈ s.writes, w.Inside
  idle : s.opMsk.idle = true → SpiIdle s
  active : s.opMsk.idle = false → ∃ t, s.cur = some t ∧ SpiActive s t

variable {s : Spi} {t : SpiTransfer} {c : DmaChannel} {n : ℕ}

theorem SpiTransfer.EndedWell.ended (h : t.EndedWell) : t.Ended := by
  rcases h with ⟨ha, -⟩ | ⟨c, hc, -⟩
  · exact Or.inl ha
  · exact Or.inr (by rw [hc]; rfl)

theorem SpiTransfer.EndedWell.once (h : t.EndedWell) : t.callbacks.length ≤ 1 := by
  rcases h with ⟨-, hc⟩ | ⟨c, hc, -⟩
  · rw [hc]
    exact Nat.zero_le 1
  · rw [hc]
    exact Nat.le_refl 1

theorem SpiTransfer.EndedWell.success (h : t.EndedWell) {c : SpiCallback} (hc : c ∈ t.callbacks)
    (hs : c.evt.success = true) : c.moved = true := by
  rcases h with ⟨-, hnil⟩ | ⟨d, hd, hmoved⟩
  · rw [hnil] at hc
    cases hc
  · rw [hd, mem_singleton] at hc
    subst hc
    exact hmoved hs

theorem SpiTransfer.EndedWell.abort (h : t.EndedWell) :
    SpiTransfer.EndedWell { t with aborted := true } := by
  rcases h with ⟨-, hc⟩ | ⟨c, hc, hmoved⟩
  · exact Or.inl ⟨rfl, hc⟩
  · exact Or.inr ⟨c, hc, hmoved⟩

/-- The driver is right between two events when nothing is under way. -/
theorem SpiKept.of_idle (hirq : s.irqEn = true) (hpast : ∀ t ∈ s.past, t.EndedWell)
    (hwrites : ∀ w ∈ s.writes, w.Inside) (hmask : s.opMsk.idle = true) (h : SpiIdle s) :
    SpiKept s := by
  refine ⟨hirq, hpast, hwrites, fun _ => h, ?_⟩
  rw [hmask]
  exact fun h => nomatch h

/-- The driver is right between two events while a transfer is under way. -/
theorem SpiKept.of_active (hirq : s.irqEn = true) (hpast : ∀ t ∈ s.past, t.EndedWell)
    (hwrites : ∀ w ∈ s.writes, w.Inside) (hmask : s.opMsk.idle = false) (hcur : s.cur = some t)
    (h : SpiActive s t) : SpiKept s := by
  refine ⟨hirq, hpast, hwrites, ?_, fun _ => ⟨t, hcur, h⟩⟩
  rw [hmask]
  exact fun h => nomatch h

theorem kept_spiInit (role : SpiRole) (frame16 : Bool) : SpiKept (spiInit role frame16) :=
  .of_idle rfl (fun _ h => nomatch h) (fun _ h => nomatch h) rfl
    ⟨rfl, rfl, rfl, rfl, rfl, fun _ h => nomatch h⟩

/-! ### A channel -/

theorem ChannelOk.done (h : ChannelOk c n) (hleft : c.left = 0) : c.done = n := by
  have := h.total
  omega

theorem ChannelOk.move (h : ChannelOk c n) (hleft : 0 < c.left) : ChannelOk c.move n := by
  refine ⟨?_, ?_, ?_, h.intEn⟩
  · have := h.total
    simp only [DmaChannel.move]
    omega
  · intro hftf
    simp only [DmaChannel.move, or_eq_true, beq_iff_eq] at hftf ⊢
    rcases hftf with hftf | hone
    · rw [h.ftf hftf]
    · rw [hone]
  · intro hpos
    simp only [DmaChannel.move, bne_iff_ne] at hpos ⊢
    omega

/-- A channel with items left has its flag set after the last one. -/
theorem todo_move (hleft : 0 < c.left) : c.move.Todo := by
  simp only [DmaChannel.Todo, DmaChannel.move, or_eq_true, beq_iff_eq]
  omega

theorem channelOk_dmaConf (hirq : s.irqEn = true) (hn : n < 2 ^ 16) (room : ℕ) (inc : Bool) :
    ChannelOk (s.dmaConf room n inc) n := by
  have htotal : 0 + n % 2 ^ 16 = n := by rw [Nat.zero_add, Nat.mod_eq_of_lt hn]
  exact ⟨htotal, Bool.noConfusion, fun _ => rfl, hirq⟩

theorem todo_dmaConf (hpos : 0 < n) (hn : n < 2 ^ 16) (room : ℕ) (inc : Bool) :
    (s.dmaConf room n inc).Todo := by
  have hleft : (s.dmaConf room n inc).left = n := Nat.mod_eq_of_lt hn
  exact Or.inr (by rwa [hleft])

/-! ### What the channels do -/

/-- Nothing of a transfer depends on the flags of the SPI. -/
theorem SpiWork.flags (h : SpiWork s k n) (a b c d : Bool) :
    SpiWork { s with rxorerr := a, conferr := b, trans := c, enabled := d } k n := by
  cases k with
  | send => exact { h with }
  | recv => exact { h with }
  | transfer => exact { h with }

theorem SpiWork.txItem (h : SpiWork s k n) (hmoves : s.txMoves = true) :
    SpiWork { s with tx := s.tx.move, trans := true } k n := by
  simp only [Spi.txMoves, and_eq_true, decide_eq_true_eq] at hmoves
  obtain ⟨⟨⟨-, htransmit⟩, -⟩, hleft⟩ := hmoves
  cases k with
  | send =>
    have hmoved := SendActive.moved h
    exact { h with
      tx := (SendActive.tx h).move hleft
      todo := fun _ => todo_move hleft
      moved := fun hc => by
        have := hmoved hc
        omega }
  | recv =>
    rw [RecvActive.transmit h] at htransmit
    cases htransmit
  | transfer =>
    have hmoved := TransferActive.txMoved h
    exact { h with
      tx := (TransferActive.tx h).move hleft
      txTodo := fun _ => todo_move hleft
      txMoved := fun hc => by
        have := hmoved hc
        omega }

theorem SpiWork.rxItem (h : SpiWork s k n) (hmoves : s.rxMoves = true)
    (ws : List DmaWrite) : SpiWork { s with rx := s.rx.move, writes := ws } k n := by
  simp only [Spi.rxMoves, and_eq_true, decide_eq_true_eq] at hmoves
  obtain ⟨⟨⟨-, hreceive⟩, -⟩, hleft⟩ := hmoves
  cases k with
  | send =>
    rw [SendActive.receive h] at hreceive
    cases hreceive
  | recv =>
    have hroom : s.RoomOk n := RecvActive.room h
    exact { h with
      rx := (RecvActive.rx h).move hleft
      todo := todo_move hleft
      room := hroom }
  | transfer =>
    have hmoved := TransferActive.rxMoved h
    have hroom : s.RoomOk n := TransferActive.room h
    exact { h with
      rx := (TransferActive.rx h).move hleft
      rxTodo := fun _ => todo_move hleft
      rxMoved := fun hc => by
        have := hmoved hc
        omega
      room := hroom }

theorem SpiWork.txError (h : SpiWork s k n) (hmoves : s.txMoves = true) :
    SpiWork { s with tx := { s.tx with fee := true } } k n := by
  simp only [Spi.txMoves, and_eq_true, decide_eq_true_eq] at hmoves
  obtain ⟨⟨⟨-, htransmit⟩, -⟩, -⟩ := hmoves
  cases k with
  | send => exact { h with tx := { SendActive.tx h with } }
  | recv =>
    rw [RecvActive.transmit h] at htransmit
    cases htransmit
  | transfer => exact { h with tx := { TransferActive.tx h with } }

theorem SpiWork.rxError (h : SpiWork s k n) (hmoves : s.rxMoves = true) :
    SpiWork { s with rx := { s.rx with fee := true } } k n := by
  simp only [Spi.rxMoves, and_eq_true, decide_eq_true_eq] at hmoves
  obtain ⟨⟨⟨-, hreceive⟩, -⟩, -⟩ := hmoves
  cases k with
  | send =>
    rw [SendActive.receive h] at hreceive
    cases hreceive
  | recv => exact { h with rx := { RecvActive.rx h with } }
  | transfer => exact { h with rx := { TransferActive.rx h with } }

/-- **A write of the receiving channel stays in its memory.** -/
theorem SpiWork.inside (h : SpiWork s k n) (hmoves : s.rxMoves = true) :
    s.nextWrite.Inside := by
  simp only [Spi.rxMoves, and_eq_true, decide_eq_true_eq] at hmoves
  obtain ⟨⟨⟨-, hreceive⟩, -⟩, hleft⟩ := hmoves
  have hinside : ChannelOk s.rx n → s.RoomOk n → s.nextWrite.Inside := by
    intro hrx hroom
    have hdone : s.rx.done + 1 ≤ n := by
      have := hrx.total
      omega
    rw [Spi.RoomOk] at hroom
    rw [DmaWrite.Inside, Spi.nextWrite]
    split_ifs at hroom ⊢ with hinc
    · calc s.rx.done * s.width + s.width = (s.rx.done + 1) * s.width := (Nat.succ_mul _ _).symm
        _ ≤ n * s.width := Nat.mul_le_mul_right _ hdone
        _ ≤ s.rx.room := hroom
    · rwa [Nat.zero_add]
  cases k with
  | send =>
    rw [SendActive.receive h] at hreceive
    cases hreceive
  | recv => exact hinside (RecvActive.rx h) (RecvActive.room h)
  | transfer => exact hinside (TransferActive.rx h) (TransferActive.room h)

/-! ### The end of a transfer -/

theorem finish_of_ne (h : s.opMsk ≠ .zero) : s.finish = s := if_neg h

/-- **The mask is 0**: everything is switched off. -/
theorem kept_finish (hirq : s.irqEn = true) (hpast : ∀ t ∈ s.past, t.EndedWell)
    (hwrites : ∀ w ∈ s.writes, w.Inside) (hzero : s.opMsk = .zero)
    (hcur : ∀ t ∈ s.cur, t.EndedWell) : SpiKept s.finish := by
  rw [Spi.finish, if_pos hzero, Spi.disableIrqs, if_pos hirq]
  refine .of_idle hirq hpast hwrites ?_ ⟨rfl, rfl, rfl, rfl, rfl, hcur⟩
  simp only [hzero]
  rfl

/-- The one callback of a transfer. -/
theorem endedWell_callback {evt : SpiIrqEvt} (hcur : s.cur = some t) (hnone : t.callbacks = [])
    (h : evt.success = true → s.moved t = true) : ∀ u ∈ (s.callback evt).cur, u.EndedWell := by
  intro u hu
  rw [Spi.callback, hcur] at hu
  obtain rfl := Option.some.inj hu
  have hone : t.callbacks ++ [⟨evt, s.moved t⟩] = [⟨evt, s.moved t⟩] := by
    rw [hnone, nil_append]
  exact Or.inr ⟨⟨evt, s.moved t⟩, hone, h⟩

/-- A completion that is noted leaves the mask different from 0. -/
theorem finish_sendCmplt (c : DmaChannel) :
    Spi.finish { s with opMsk := { s.opMsk with sendCmplt := true }, tx := c } =
      { s with opMsk := { s.opMsk with sendCmplt := true }, tx := c } :=
  finish_of_ne fun h => nomatch congrArg OpMsk.sendCmplt h

/-- All items of a transfer in both directions. -/
theorem TransferActive.all (h : TransferActive s t.length) (hkind : t.kind = .transfer)
    (htx : s.tx.left = 0) (hrx : s.rx.left = 0) : s.moved t = true := by
  rw [Spi.moved, hkind]
  simp only [h.tx.done htx, h.rx.done hrx, BEq.rfl, Bool.and_self]

/-- **The channel has sent all items of a transfer**, which may be its end. -/
theorem kept_sent (h : SpiKept s) (hcur : s.cur = some t) (hactive : SpiActive s t)
    (hkind : t.kind = .transfer) (hftf : s.tx.ftf = true) :
    SpiKept <| Spi.finish <|
      if s.opMsk.sent = .zero then
        { s.callback .transferComplete with opMsk := s.opMsk.sent, tx := { s.tx with ftf := false } }
      else { s with opMsk := s.opMsk.sent, tx := { s.tx with ftf := false } } := by
  have hwork := hactive.work
  rw [hkind] at hwork
  have hmask := TransferActive.mask hwork
  have htx := TransferActive.tx hwork
  have hroom : s.RoomOk t.length := TransferActive.room hwork
  cases hrecv : s.opMsk.transRecv with
  | false =>
    -- the other direction is done
    have hzero : s.opMsk.sent = .zero := by
      rw [hmask, hrecv]
      rfl
    rw [if_pos hzero]
    exact kept_finish h.irqEn h.past h.writes hzero
      (endedWell_callback hcur hactive.callbacks fun _ =>
        TransferActive.all hwork hkind (htx.ftf hftf) (TransferActive.rxMoved hwork hrecv))
  | true =>
    have hne : s.opMsk.sent ≠ .zero := fun h => by
      have := congrArg OpMsk.transRecv h
      rw [OpMsk.sent, hrecv] at this
      cases this
    rw [if_neg hne, finish_of_ne hne]
    refine .of_active h.irqEn h.past h.writes ?_ hcur { hactive with work := ?_ }
    · simp [OpMsk.idle, OpMsk.sent, hrecv]
    · rw [hkind]
      exact { hwork with
        mask := by rw [hmask]; rfl
        some := Or.inr hrecv
        tx := { htx with ftf := fun h => nomatch h }
        txTodo := fun h => nomatch h
        txMoved := fun _ => htx.ftf hftf
        room := hroom }

/-- The channel has received all items of a transfer, which may be its end. -/
theorem kept_received (h : SpiKept s) (hcur : s.cur = some t) (hactive : SpiActive s t)
    (hkind : t.kind = .transfer) (hftf : s.rx.ftf = true) :
    SpiKept <| Spi.finish <|
      if s.opMsk.received = .zero then
        { s.callback .transferComplete with
          opMsk := s.opMsk.received
          rx := { s.rx with ftf := false } }
      else { s with opMsk := s.opMsk.received, rx := { s.rx with ftf := false } } := by
  have hwork := hactive.work
  rw [hkind] at hwork
  have hmask := TransferActive.mask hwork
  have hrx := TransferActive.rx hwork
  have hroom : s.RoomOk t.length := TransferActive.room hwork
  cases hsend : s.opMsk.transSend with
  | false =>
    have hzero : s.opMsk.received = .zero := by
      rw [hmask, hsend]
      rfl
    rw [if_pos hzero]
    exact kept_finish h.irqEn h.past h.writes hzero
      (endedWell_callback hcur hactive.callbacks fun _ =>
        TransferActive.all hwork hkind (TransferActive.txMoved hwork hsend) (hrx.ftf hftf))
  | true =>
    have hne : s.opMsk.received ≠ .zero := fun h => by
      have := congrArg OpMsk.transSend h
      rw [OpMsk.received, hsend] at this
      cases this
    rw [if_neg hne, finish_of_ne hne]
    refine .of_active h.irqEn h.past h.writes ?_ hcur { hactive with work := ?_ }
    · simp [OpMsk.idle, OpMsk.received, hsend]
    · rw [hkind]
      exact { hwork with
        mask := by rw [hmask]; rfl
        some := Or.inl hsend
        rx := { hrx with ftf := fun h => nomatch h }
        rxTodo := fun h => nomatch h
        rxMoved := fun _ => hrx.ftf hftf
        room := hroom }

/-- **The interrupt of the transmitting channel.** -/
theorem kept_dmaChannel4IrqHandler (h : SpiKept s) (hcalm : SpiEvent.irqTx.Calm s)
    (hpending : s.tx.pending = true) : SpiKept (dmaChannel4IrqHandler s) := by
  simp only [DmaChannel.pending, and_eq_true, or_eq_true] at hpending
  obtain ⟨hen, hflag⟩ := hpending
  rw [dmaChannel4IrqHandler]
  by_cases hfee : s.tx.fee = true
  · -- an error ends the transfer
    rw [if_pos ⟨hen, hfee⟩]
    cases hidle : s.opMsk.idle with
    | true =>
      rw [hcalm hidle] at hfee
      cases hfee
    | false =>
      obtain ⟨t, hcur, hactive⟩ := h.active hidle
      exact kept_finish h.irqEn h.past h.writes rfl
        (endedWell_callback hcur hactive.callbacks fun h => nomatch h)
  · have hftf : s.tx.ftf = true := hflag.resolve_left hfee
    rw [if_neg fun h => hfee h.2, if_pos ⟨hen, hftf⟩]
    cases hidle : s.opMsk.idle with
    | true =>
      have hmask := hidle
      simp only [OpMsk.idle, not_eq_true', or_eq_false_iff] at hmask
      rw [if_neg (by simp [hmask]), finish_sendCmplt]
      exact .of_idle h.irqEn h.past h.writes hidle { h.idle hidle with }
    | false =>
      obtain ⟨t, hcur, hactive⟩ := h.active hidle
      have hwork := hactive.work
      cases hkind : t.kind with
      | send =>
        rw [hkind] at hwork
        have hmask := SendActive.mask hwork
        have htx := SendActive.tx hwork
        rw [if_neg (by rw [hmask]; simp), finish_sendCmplt]
        refine .of_active h.irqEn h.past h.writes hidle hcur { hactive with work := ?_ }
        rw [hkind]
        exact { hwork with
          mask := by rw [hmask]
          tx := { htx with ftf := fun h => nomatch h }
          todo := fun h => nomatch h
          moved := fun _ => htx.ftf hftf }
      | recv =>
        rw [hkind] at hwork
        have hmask := RecvActive.mask hwork
        rw [if_neg (by rw [hmask]; simp), finish_sendCmplt]
        refine .of_active h.irqEn h.past h.writes hidle hcur { hactive with work := ?_ }
        rw [hkind]
        exact { hwork with mask := by rw [hmask] }
      | transfer =>
        rw [hkind] at hwork
        rw [if_pos (TransferActive.some hwork)]
        exact kept_sent h hcur hactive hkind hftf

/-- **The interrupt of the receiving channel.** -/
theorem kept_dmaChannel0IrqHandler (h : SpiKept s) (hidle : s.opMsk.idle = false)
    (hpending : s.rx.pending = true) : SpiKept (dmaChannel0IrqHandler s) := by
  simp only [DmaChannel.pending, and_eq_true, or_eq_true] at hpending
  obtain ⟨hen, hflag⟩ := hpending
  obtain ⟨t, hcur, hactive⟩ := h.active hidle
  rw [dmaChannel0IrqHandler]
  by_cases hfee : s.rx.fee = true
  · rw [if_pos ⟨hen, hfee⟩]
    exact kept_finish h.irqEn h.past h.writes rfl
      (endedWell_callback hcur hactive.callbacks fun h => nomatch h)
  · have hftf : s.rx.ftf = true := hflag.resolve_left hfee
    rw [if_neg fun h => hfee h.2, if_pos ⟨hen, hftf⟩]
    have hwork := hactive.work
    cases hkind : t.kind with
    | send =>
      rw [hkind] at hwork
      rw [SendActive.ftf hwork] at hftf
      cases hftf
    | recv =>
      rw [hkind] at hwork
      have hmask := RecvActive.mask hwork
      have hdone : s.rx.done = t.length := (RecvActive.rx hwork).done ((RecvActive.rx hwork).ftf hftf)
      rw [if_neg (by rw [hmask]; simp)]
      refine kept_finish h.irqEn h.past h.writes rfl
        (endedWell_callback hcur hactive.callbacks fun _ => ?_)
      rw [Spi.moved, hkind]
      exact beq_iff_eq.mpr hdone
    | transfer =>
      rw [hkind] at hwork
      rw [if_pos (TransferActive.some hwork)]
      exact kept_received h hcur hactive hkind hftf

/-- **The interrupt of the SPI.** -/
theorem kept_spiIrqHandler (h : SpiKept s) (hidle : s.opMsk.idle = false) :
    SpiKept (spiIrqHandler s) := by
  obtain ⟨t, hcur, hactive⟩ := h.active hidle
  have hne : s.opMsk ≠ .zero := by
    intro hzero
    rw [hzero] at hidle
    cases hidle
  rw [spiIrqHandler]
  split_ifs with horerr hconf hsend
  · exact kept_finish h.irqEn h.past h.writes rfl
      (endedWell_callback hcur hactive.callbacks fun h => nomatch h)
  · exact kept_finish h.irqEn h.past h.writes rfl
      (endedWell_callback hcur hactive.callbacks fun h => nomatch h)
  · -- the last frame of a send has been shifted
    obtain ⟨hmask, hcmplt, -⟩ := hsend
    have hwork := hactive.work
    refine kept_finish h.irqEn h.past h.writes rfl
      (endedWell_callback hcur hactive.callbacks fun _ => ?_)
    cases hkind : t.kind with
    | send =>
      rw [hkind] at hwork
      rw [Spi.moved, hkind]
      exact beq_iff_eq.mpr ((SendActive.tx hwork).done (SendActive.moved hwork hcmplt))
    | recv =>
      rw [hkind] at hwork
      rw [RecvActive.mask hwork] at hmask
      cases hmask
    | transfer =>
      rw [hkind] at hwork
      rw [TransferActive.mask hwork] at hmask
      cases hmask
  · rw [finish_of_ne hne]
    exact h

/-! ### The calls -/

/-- The transfers before a new one have ended. -/
theorem past_begin (h : SpiKept s) (hidle : s.opMsk.idle = true) :
    ∀ t ∈ s.past ++ s.cur.toList, t.EndedWell := by
  intro t ht
  rcases mem_append.mp ht with ht | ht
  · exact h.past t ht
  · exact (h.idle hidle).cur t (mem_toList.mp ht)

theorem kept_tklSpiTransfer {sendBuf receiveBuf : Bool} (h : SpiKept s)
    (hcalm : (SpiEvent.transfer port sendBuf receiveBuf n).Calm s) :
    SpiKept (tklSpiTransfer port sendBuf receiveBuf n s).2 := by
  rw [tklSpiTransfer]
  split_ifs with hport hsimplex
  · exact h
  · exact h
  · obtain ⟨⟨hidle, hpos, hn⟩, hframe⟩ := hcalm (by omega) (eq_false_iff.mpr hsimplex)
    have hroom : (if receiveBuf = true then n * s.width else s.width) ≤
        s.bufferRoom receiveBuf n := by
      rcases hframe with rfl | hframe
      · exact Nat.le_refl _
      · cases receiveBuf <;> simp [Spi.bufferRoom, Spi.width, hframe]
    refine .of_active h.irqEn (past_begin h hidle) h.writes rfl rfl
      ⟨rfl, rfl, Or.inl rfl, by simp [h.irqEn], ?_⟩
    change TransferActive _ n
    exact {
      mask := rfl
      some := Or.inl rfl
      tx := channelOk_dmaConf h.irqEn hn _ _
      rx := channelOk_dmaConf h.irqEn hn _ _
      transmit := rfl
      receive := rfl
      txTodo := fun _ => todo_dmaConf hpos hn _ _
      rxTodo := fun _ => todo_dmaConf hpos hn _ _
      txMoved := fun h => nomatch h
      rxMoved := fun h => nomatch h
      room := hroom }

theorem kept_tklSpiSend {data : Bool} (h : SpiKept s)
    (hcalm : (SpiEvent.send port n data).Calm s) : SpiKept (tklSpiSend port n data s).2 := by
  rw [tklSpiSend]
  by_cases hport : 1 ≤ port
  · rw [if_pos hport]
    exact h
  obtain ⟨hstart, hrx⟩ := hcalm (by omega)
  rw [if_neg hport]
  by_cases hsimplex : s.role.simplex = true
  · obtain ⟨hidle, hpos, hn⟩ := hstart
    rw [if_pos hsimplex] at hrx ⊢
    refine .of_active h.irqEn (past_begin h hidle) h.writes rfl rfl
      ⟨rfl, rfl, Or.inl rfl, by simp [h.irqEn], ?_⟩
    change SendActive _ n
    exact {
      mask := rfl
      tx := channelOk_dmaConf h.irqEn hn _ _
      transmit := rfl
      receive := (h.idle hidle).receive
      ftf := hrx.1
      fee := hrx.2
      todo := fun _ => todo_dmaConf hpos hn _ _
      moved := fun h => nomatch h
      dataInt := by simp [h.irqEn] }
  · rw [if_neg hsimplex] at hrx ⊢
    exact kept_tklSpiTransfer h fun _ _ => ⟨hstart, Or.inr hrx⟩

theorem kept_tklSpiRecv {data : Bool} (h : SpiKept s)
    (hcalm : (SpiEvent.recv port n data).Calm s) : SpiKept (tklSpiRecv port n data s).2 := by
  rw [tklSpiRecv]
  by_cases hport : 1 ≤ port
  · rw [if_pos hport]
    exact h
  obtain ⟨hstart, htx⟩ := hcalm (by omega)
  rw [if_neg hport]
  by_cases hsimplex : s.role.simplex = true
  · obtain ⟨hidle, hpos, hn⟩ := hstart
    rw [if_pos hsimplex] at htx ⊢
    obtain ⟨hfee, rfl⟩ := htx
    refine .of_active h.irqEn (past_begin h hidle) h.writes rfl rfl
      ⟨rfl, rfl, Or.inl rfl, by simp [h.irqEn], ?_⟩
    change RecvActive _ n
    exact {
      mask := rfl
      rx := channelOk_dmaConf h.irqEn hn _ _
      transmit := (h.idle hidle).transmit
      receive := rfl
      fee := hfee
      todo := todo_dmaConf hpos hn _ _
      room := Nat.le_refl _ }
  · rw [if_neg hsimplex] at htx ⊢
    exact kept_tklSpiTransfer h fun _ _ => ⟨hstart, htx⟩

theorem kept_tklSpiAbortTransfer (h : SpiKept s) :
    SpiKept (tklSpiAbortTransfer port s).2 := by
  rw [tklSpiAbortTransfer]
  split_ifs with hport hmask
  · exact h
  · rw [Spi.disableIrqs, if_pos h.irqEn]
    refine .of_idle h.irqEn h.past h.writes rfl ⟨rfl, rfl, rfl, rfl, rfl, ?_⟩
    intro t ht
    obtain ⟨u, hu, rfl⟩ := map_eq_some_iff.mp ht
    cases hidle : s.opMsk.idle with
    | true => exact ((h.idle hidle).cur u hu).abort
    | false =>
      obtain ⟨v, hv, hactive⟩ := h.active hidle
      rw [hv] at hu
      obtain rfl := Option.some.inj hu
      exact Or.inl ⟨rfl, hactive.callbacks⟩
  · exact h

/-! ### The hardware -/

/-- What is under way stays under way. -/
theorem kept_same {u : Spi} (h : SpiKept s) (hirq : u.irqEn = s.irqEn) (hpast : u.past = s.past)
    (hwrites : ∀ w ∈ u.writes, w.Inside) (hmask : u.opMsk = s.opMsk) (hcur : u.cur = s.cur)
    (hidle : SpiIdle s → SpiIdle u) (hactive : ∀ t, SpiActive s t → SpiActive u t) :
    SpiKept u := by
  refine ⟨hirq.trans h.irqEn, by rw [hpast]; exact h.past, hwrites, ?_, ?_⟩
  · rw [hmask]
    exact fun hi => hidle (h.idle hi)
  · rw [hmask, hcur]
    intro hi
    obtain ⟨t, ht, ha⟩ := h.active hi
    exact ⟨t, ht, hactive t ha⟩

theorem kept_hardware {s' : Spi} {i : SpiEvent} (h : SpiKept s) (hcalm : i.Calm s)
    (hs : s.hardware i = some s') : SpiKept s' := by
  cases i with
  | send | recv | transfer | abort => cases hs
  | txItem =>
    obtain ⟨hmoves, ⟨⟩⟩ := ite_none_right_eq_some.mp hs
    refine kept_same h rfl rfl h.writes rfl rfl (fun hi => { hi with }) fun t ha => ?_
    exact { ha with work := ha.work.txItem hmoves }
  | rxItem =>
    obtain ⟨hmoves, ⟨⟩⟩ := ite_none_right_eq_some.mp hs
    refine kept_same h rfl rfl ?_ rfl rfl (fun hi => { hi with }) fun t ha =>
      { ha with work := ha.work.rxItem hmoves _ }
    intro w hw
    rcases mem_append.mp hw with hw | hw
    · exact h.writes w hw
    obtain rfl := mem_singleton.mp hw
    cases hidle : s.opMsk.idle with
    | true =>
      rw [Spi.rxMoves, (h.idle hidle).enabled] at hmoves
      cases hmoves
    | false =>
      obtain ⟨t, -, ha⟩ := h.active hidle
      exact ha.work.inside hmoves
  | txError =>
    obtain ⟨hmoves, ⟨⟩⟩ := ite_none_right_eq_some.mp hs
    exact kept_same h rfl rfl h.writes rfl rfl (fun hi => { hi with }) fun t ha =>
      { ha with work := ha.work.txError hmoves }
  | rxError =>
    obtain ⟨hmoves, ⟨⟩⟩ := ite_none_right_eq_some.mp hs
    exact kept_same h rfl rfl h.writes rfl rfl (fun hi => { hi with }) fun t ha =>
      { ha with work := ha.work.rxError hmoves }
  | overrun =>
    obtain ⟨-, ⟨⟩⟩ := ite_none_right_eq_some.mp hs
    exact kept_same h rfl rfl h.writes rfl rfl (fun hi => { hi with }) fun t ha =>
      { ha with work := ha.work.flags true s.conferr s.trans s.enabled }
  | modeFault =>
    obtain ⟨-, ⟨⟩⟩ := ite_none_right_eq_some.mp hs
    exact kept_same h rfl rfl h.writes rfl rfl (fun hi => { hi with enabled := rfl }) fun t ha =>
      { ha with
        enabled := Or.inr rfl
        work := ha.work.flags s.rxorerr true s.trans false }
  | shifted =>
    obtain rfl := Option.some.inj hs
    exact kept_same h rfl rfl h.writes rfl rfl (fun hi => { hi with }) fun t ha =>
      { ha with work := ha.work.flags s.rxorerr s.conferr false s.enabled }
  | irqTx =>
    obtain ⟨hpending, ⟨⟩⟩ := ite_none_right_eq_some.mp hs
    exact kept_dmaChannel4IrqHandler h hcalm hpending
  | irqRx =>
    obtain ⟨hpending, ⟨⟩⟩ := ite_none_right_eq_some.mp hs
    exact kept_dmaChannel0IrqHandler h hcalm hpending
  | irqSpi =>
    obtain ⟨hirq, ⟨⟩⟩ := ite_none_right_eq_some.mp hs
    refine kept_spiIrqHandler h ?_
    -- the interrupts of the SPI are enabled only while something is under way
    cases hidle : s.opMsk.idle with
    | false => rfl
    | true =>
      have hi := h.idle hidle
      rw [hi.errInt, hi.dataInt] at hirq
      rcases hirq with ⟨h, -⟩ | h <;> cases h

theorem kept_spiStep {s' : Spi} {i : SpiEvent} (h : SpiKept s) (hcalm : i.Calm s)
    (hs : spiStep i s = some s') : SpiKept s' := by
  cases i with
  | send =>
    obtain rfl := Option.some.inj hs
    exact kept_tklSpiSend h hcalm
  | recv =>
    obtain rfl := Option.some.inj hs
    exact kept_tklSpiRecv h hcalm
  | transfer =>
    obtain rfl := Option.some.inj hs
    exact kept_tklSpiTransfer h hcalm
  | abort =>
    obtain rfl := Option.some.inj hs
    exact kept_tklSpiAbortTransfer h
  | txItem | rxItem | txError | rxError | overrun | modeFault | shifted | irqTx | irqRx | irqSpi =>
    exact kept_hardware h hcalm hs

/-! ### Something is left to happen -/

@[simp] theorem finish_tx (s : Spi) : s.finish.tx = s.tx := by
  rw [Spi.finish, Spi.disableIrqs]
  split_ifs <;> rfl

@[simp] theorem finish_rx (s : Spi) : s.finish.rx = s.rx := by
  rw [Spi.finish, Spi.disableIrqs]
  split_ifs <;> rfl

@[simp] theorem finish_opMsk (s : Spi) : s.finish.opMsk = s.opMsk := by
  rw [Spi.finish, Spi.disableIrqs]
  split_ifs <;> rfl

/-- The channel with the flag cleared that its handler is called for. -/
def DmaChannel.served (c : DmaChannel) : DmaChannel :=
  if c.fee = true then { c with fee := false } else { c with ftf := false }

theorem served_ne (h : c.pending = true) : c.served ≠ c := by
  simp only [DmaChannel.pending, and_eq_true, or_eq_true] at h
  intro heq
  rw [DmaChannel.served] at heq
  split_ifs at heq with hfee
  · have := congrArg DmaChannel.fee heq
    rw [hfee] at this
    cases this
  · have := congrArg DmaChannel.ftf heq
    rw [h.2.resolve_left hfee] at this
    cases this

theorem dmaChannel4IrqHandler_tx (h : s.tx.pending = true) :
    (dmaChannel4IrqHandler s).tx = s.tx.served := by
  simp only [DmaChannel.pending, and_eq_true, or_eq_true] at h
  rw [dmaChannel4IrqHandler, finish_tx, DmaChannel.served]
  by_cases hfee : s.tx.fee = true
  · rw [if_pos ⟨h.1, hfee⟩, if_pos hfee]
  · rw [if_neg fun h => hfee h.2, if_pos ⟨h.1, h.2.resolve_left hfee⟩, if_neg hfee]
    split_ifs <;> rfl

theorem dmaChannel0IrqHandler_rx (h : s.rx.pending = true) :
    (dmaChannel0IrqHandler s).rx = s.rx.served := by
  simp only [DmaChannel.pending, and_eq_true, or_eq_true] at h
  rw [dmaChannel0IrqHandler, finish_rx, DmaChannel.served]
  by_cases hfee : s.rx.fee = true
  · rw [if_pos ⟨h.1, hfee⟩, if_pos hfee]
  · rw [if_neg fun h => hfee h.2, if_pos ⟨h.1, h.2.resolve_left hfee⟩, if_neg hfee]
    split_ifs <;> rfl

/-- A quiet driver has no channel that is to be served or can move an item. -/
theorem Spi.Quiet.tx (h : s.Quiet) : s.tx.pending = false ∧ s.txMoves = false := by
  constructor
  · refine eq_false_iff.mpr fun hp => ?_
    have heq := h .irqTx _ rfl (if_pos hp)
    exact served_ne hp (by rw [← dmaChannel4IrqHandler_tx hp, heq])
  · refine eq_false_iff.mpr fun hm => ?_
    have heq := congrArg (fun u => u.tx.done) (h .txItem _ rfl (if_pos hm))
    exact Nat.succ_ne_self _ heq

theorem Spi.Quiet.rx (h : s.Quiet) : s.rx.pending = false ∧ s.rxMoves = false := by
  constructor
  · refine eq_false_iff.mpr fun hp => ?_
    have heq := h .irqRx _ rfl (if_pos hp)
    exact served_ne hp (by rw [← dmaChannel0IrqHandler_rx hp, heq])
  · refine eq_false_iff.mpr fun hm => ?_
    have heq := congrArg (fun u => u.rx.done) (h .rxItem _ rfl (if_pos hm))
    exact Nat.succ_ne_self _ heq

/-- A quiet driver with something under way is enabled. -/
theorem Spi.Quiet.enabled (h : s.Quiet) (hmask : s.opMsk ≠ .zero) (ha : SpiActive s t) :
    s.enabled = true := by
  refine ha.enabled.resolve_right fun hconf => hmask ?_
  have heq := congrArg Spi.opMsk (h .irqSpi _ rfl (if_pos (Or.inl ⟨ha.errInt, Or.inr hconf⟩)))
  rw [spiIrqHandler, finish_opMsk] at heq
  by_cases horerr : s.errInt = true ∧ s.rxorerr = true
  · rw [if_pos horerr, if_pos hmask] at heq
    exact heq.symm
  · rw [if_neg horerr, if_pos ⟨ha.errInt, hconf⟩] at heq
    exact heq.symm

/-- The channel at work of a quiet driver that is enabled has nothing to do. -/
theorem not_todo {request : Bool} (hc : ChannelOk c n) (hpending : c.pending = false)
    (hmoves : (true && request && c.enabled && decide (0 < c.left)) = false)
    (hrequest : request = true) : ¬c.Todo := by
  rintro (hftf | hleft)
  · rw [DmaChannel.pending, hc.intEn, hftf, Bool.or_true] at hpending
    cases hpending
  · rw [hrequest, hc.run hleft, decide_eq_true hleft] at hmoves
    cases hmoves

/-- **While a transfer is under way something is left to happen.** -/
theorem not_quiet (hmask : s.opMsk.idle = false) (ha : SpiActive s t) : ¬s.Quiet := by
  intro hq
  have hne : s.opMsk ≠ .zero := by
    intro hzero
    rw [hzero] at hmask
    cases hmask
  obtain ⟨htp, htm⟩ := hq.tx
  obtain ⟨hrp, hrm⟩ := hq.rx
  have hen := hq.enabled hne ha
  rw [Spi.txMoves, hen] at htm
  rw [Spi.rxMoves, hen] at hrm
  have hwork := ha.work
  cases hkind : t.kind with
  | send =>
    rw [hkind] at hwork
    have htodo := not_todo (SendActive.tx hwork) htp htm (SendActive.transmit hwork)
    have hcmplt : s.opMsk.sendCmplt = true := by
      cases hc : s.opMsk.sendCmplt with
      | true => rfl
      | false => exact absurd (SendActive.todo hwork hc) htodo
    -- the last frame is shifted, and the interrupt of the SPI ends the transfer
    have htrans : s.trans = false := congrArg Spi.trans (hq .shifted _ rfl rfl).symm
    have hsend : s.opMsk.send = true := by rw [SendActive.mask hwork]
    have heq := congrArg Spi.opMsk (hq .irqSpi _ rfl (if_pos (Or.inr (SendActive.dataInt hwork))))
    rw [spiIrqHandler, finish_opMsk] at heq
    split_ifs at heq with horerr hconf hdone
    · exact hne heq.symm
    · exact hne heq.symm
    · exact hne heq.symm
    · exact hdone ⟨hsend, hcmplt, htrans⟩
  | recv =>
    rw [hkind] at hwork
    exact not_todo (RecvActive.rx hwork) hrp hrm (RecvActive.receive hwork) (RecvActive.todo hwork)
  | transfer =>
    rw [hkind] at hwork
    rcases TransferActive.some hwork with hsend | hrecv
    · exact not_todo (TransferActive.tx hwork) htp htm (TransferActive.transmit hwork)
        (TransferActive.txTodo hwork hsend)
    · exact not_todo (TransferActive.rx hwork) hrp hrm (TransferActive.receive hwork)
        (TransferActive.rxTodo hwork hrecv)

theorem SpiKept.right (h : SpiKept s) : SpiRight s := by
  have hall : ∀ t ∈ s.past ++ s.cur.toList,
      t.EndedWell ∨ t.callbacks = [] := by
    intro t ht
    rcases mem_append.mp ht with ht | ht
    · exact Or.inl (h.past t ht)
    have ht := mem_toList.mp ht
    cases hidle : s.opMsk.idle with
    | true => exact Or.inl ((h.idle hidle).cur t ht)
    | false =>
      obtain ⟨u, hu, ha⟩ := h.active hidle
      obtain rfl := Option.some.inj (ht.symm.trans hu)
      exact Or.inr ha.callbacks
  constructor
  · intro t ht
    rcases hall t ht with he | hnil
    · exact he.once
    · rw [hnil]
      exact Nat.zero_le 1
  · exact fun t ht => (h.past t ht).ended
  · intro hq t ht
    cases hidle : s.opMsk.idle with
    | true => exact ((h.idle hidle).cur t ht).ended
    | false =>
      obtain ⟨u, -, ha⟩ := h.active hidle
      exact absurd hq (not_quiet hidle ha)
  · intro t ht c hc hs
    rcases hall t ht with he | hnil
    · exact he.success hc hs
    · rw [hnil] at hc
      cases hc
  · exact h.writes

/-! ### The result -/

end Tkl

end Gd32
