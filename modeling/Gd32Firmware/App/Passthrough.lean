import Gd32Firmware.Lib.Machine
import Mathlib.Logic.Function.Basic
import Mathlib.Data.List.GetD
import Mathlib.Data.List.Range
import Mathlib.Tactic.Ring

/-!
# Passing a UART through to a socket

`at_hw_passth_send` of `atcmd_tcpip.c`: DMA puts what the UART receives into two buffers, by turns,
and the loop hands it on to the task that sends it. The DMA's interrupt for a full buffer posts
`at_hw_dma_sema`; the UART's idle interrupt records how far the DMA has come; a timer lets a few
bytes wait for more. The loop does not record which buffer an event was about, it goes by the number
of full buffers it has seen.

Every access of the loop to what the interrupts change is a step of its own (`App.PassthPc`),
and every part that is handed on. `App.forwards_calm` says when what is handed on is exactly
what was received, and `App.not_forwards_staleIdle` that it is not always so.
-/

namespace Gd32

open List Function

variable {i : PassthStep} {n : ℕ}

variable {stream bs : List UInt8} {flush found sent : Bool} {caller : PassthCaller} {type : CipType}

namespace App

/-! ### The data -/

def passthTxBufLen : ℕ := 8192

def passthStartTransferLen : ℕ := 2920

def passthTerminateStr : List UInt8 := [43, 43, 43]

/-- A byte of a buffer, and which byte of the stream it is, if it has been received. -/
abbrev Cell := UInt8 × Option ℕ

/-- `CIP_TYPE_TCP` and `CIP_TYPE_UDP`. -/
inductive CipType where
  | tcp
  | udp
  deriving DecidableEq

/-- Which branch of the loop calls `at_passth_send_data`. -/
inductive PassthCaller where
  | ftf
  | timeout
  | idle
  deriving DecidableEq

/-- Where the loop is. -/
inductive PassthPc where
  | top
  | ftf
  /-- In front of the look at `at_tx_passth_timeout`. -/
  | timeoutCheck
  /-- In front of the look at `uart_rx_idle_flag`. -/
  | idleCheck
  /-- In front of the first look at `cur_dma_received_num`. -/
  | idleRead
  | idleLast
  /-- In front of the choice whether to send. -/
  | idleSend
  /-- At the start of `at_passth_send_data`. -/
  | send (flush : Bool) (caller : PassthCaller)
  /-- In its loop, with `remaining_cnt`. -/
  | piece (flush : Bool) (caller : PassthCaller) (remaining : ℤ)
  | back (caller : PassthCaller)
  | exit
  deriving DecidableEq

/-- The passthrough. -/
structure Passth where
  stream : List UInt8
  mem : ℕ → ℕ → Cell
  ftfFlag : Bool
  dmaSema : ℕ
  curDmaReceivedNum : ℕ
  uartRxIdleFlag : Bool
  /-- `passth_timer` runs. -/
  passthTimer : Bool
  atTxPassthTimeout : Bool
  terminateSendPassth : Bool
  /-- `dma_rx_ftf_cnt`, of which the loop uses the parity only. -/
  dmaRxFtfCnt : ℕ
  /-- `writeptr` of the two buffers. -/
  writeptr : ℕ → ℕ
  /-- `readptr` of the two buffers. -/
  readptr : ℕ → ℕ
  bufIdx : ℕ
  lastBufIdx : ℕ
  lastDmaReceivedNum : ℕ
  pc : PassthPc
  passed : List Cell
  /-- `at_passth_send_data` has ended the loop. -/
  halted : Bool
  /-- It has done so because of the terminator. -/
  terminated : Bool

/-- The start of the loop. -/
def passthInit : Passth where
  stream := []
  mem _ _ := (0, none)
  ftfFlag := false
  dmaSema := 0
  curDmaReceivedNum := 0
  uartRxIdleFlag := false
  passthTimer := false
  atTxPassthTimeout := false
  terminateSendPassth := false
  dmaRxFtfCnt := 0
  writeptr _ := 0
  readptr _ := 0
  bufIdx := 0
  lastBufIdx := 0
  lastDmaReceivedNum := 0
  pc := .top
  passed := []
  halted := false
  terminated := false

/-! ### `at_passth_send_data` -/

/-- `remaining_cnt`, an `int`. -/
def Passth.remaining (s : Passth) : ℤ := s.writeptr s.bufIdx - s.readptr s.bufIdx

/-- The bytes from `start_addr` on. -/
def Passth.cells (s : Passth) (n : ℕ) : List Cell :=
  (List.range n).map fun i => s.mem s.bufIdx (s.readptr s.bufIdx + i)

/-- The start of `at_passth_send_data`, for a socket that is open; `found` is that
`cip_info_cli_find` finds it. -/
def Passth.sendData (type : CipType) (found flush : Bool) (caller : PassthCaller) (s : Passth) :
    Passth :=
  if s.remaining = 0 then { s with pc := .back caller }
  else if type = .udp ∧ found = false then { s with pc := .back caller }
  else if s.remaining = passthTerminateStr.length ∧
      (s.cells passthTerminateStr.length).map Prod.fst = passthTerminateStr then
    { s with terminateSendPassth := true, halted := true, terminated := true, pc := .back caller }
  else { s with pc := .piece flush caller s.remaining }

/-- `sent_cnt`, if there is enough to send. -/
def sentCnt (flush : Bool) (remaining : ℤ) : Option ℕ :=
  if remaining ≤ 0 then none
  else if passthStartTransferLen ≤ remaining then some passthStartTransferLen
  else if flush then some remaining.toNat
  else none

/-- A pass of its loop: `sent` is that `sendto` succeeds, else it fails for good. -/
def Passth.sendPiece (sent flush : Bool) (caller : PassthCaller) (remaining : ℤ) (s : Passth) :
    Passth :=
  match sentCnt flush remaining with
  | none => { s with pc := .back caller }
  | some n =>
    if sent then
      { s with
        readptr := update s.readptr s.bufIdx (s.readptr s.bufIdx + n)
        passed := s.passed ++ s.cells n
        pc := .piece flush caller (remaining - n) }
    else { s with terminateSendPassth := true, halted := true, pc := .back caller }

/-! ### The loop -/

/-- Subtraction of `uint32_t`. -/
def sub32 (a b : ℕ) : ℕ := (a + 2 ^ 32 - b) % 2 ^ 32

/-- When the line is idle, what there is is sent at once. -/
def sendsNow (transIntvl w r : ℕ) : Prop :=
  transIntvl = 0 ∨ passthStartTransferLen ≤ sub32 w r

instance (transIntvl w r : ℕ) : Decidable (sendsNow transIntvl w r) :=
  inferInstanceAs (Decidable (_ ∨ _))

/-- The next step of the loop of `at_hw_passth_send`, for a type of socket and `trans_intvl`. -/
def passthLoop (type : CipType) (transIntvl : ℕ) (found sent : Bool) (s : Passth) : Option Passth :=
  match s.pc with
  | .top =>
    if s.terminateSendPassth then some { s with pc := .exit }
    else if 0 < s.dmaSema then some { s with dmaSema := s.dmaSema - 1, pc := .ftf }
    else some { s with pc := .timeoutCheck }
  | .ftf =>
    let b := s.dmaRxFtfCnt % 2
    some
      { s with
        bufIdx := b
        dmaRxFtfCnt := s.dmaRxFtfCnt + 1
        writeptr := update s.writeptr b passthTxBufLen
        pc := if s.readptr b < passthTxBufLen then .send true .ftf else .back .ftf }
  | .timeoutCheck =>
    let b := s.lastBufIdx
    if s.atTxPassthTimeout = false then some { s with pc := .idleCheck }
    else if b ≠ s.dmaRxFtfCnt % 2 then some { s with bufIdx := b, pc := .back .timeout }
    else
      some
        { s with
          bufIdx := b
          writeptr := update s.writeptr b s.lastDmaReceivedNum
          pc := if s.readptr b < s.lastDmaReceivedNum then .send true .timeout else .back .timeout }
  | .idleCheck => some { s with pc := if s.uartRxIdleFlag then .idleRead else .top }
  | .idleRead =>
    let b := s.dmaRxFtfCnt % 2
    some
      { s with
        bufIdx := b
        writeptr := update s.writeptr b s.curDmaReceivedNum
        lastBufIdx := b
        pc := .idleLast }
  | .idleLast => some { s with lastDmaReceivedNum := s.curDmaReceivedNum, pc := .idleSend }
  | .idleSend =>
    if transIntvl = 0 then some { s with pc := .send true .idle }
    else if passthStartTransferLen ≤ sub32 (s.writeptr s.bufIdx) (s.readptr s.bufIdx) then
      some { s with pc := .send false .idle }
    else some { s with passthTimer := true, pc := .back .idle }
  | .send flush caller => some (s.sendData type found flush caller)
  | .piece flush caller remaining => some (s.sendPiece sent flush caller remaining)
  | .back .ftf =>
    some
      { s with
        writeptr := update s.writeptr s.bufIdx 0
        readptr := update s.readptr s.bufIdx 0
        pc := .top }
  | .back .timeout => some { s with atTxPassthTimeout := false, pc := .top }
  | .back .idle => some { s with uartRxIdleFlag := false, pc := .top }
  | .exit => none

/-! ### Steps -/

/-- The places at which a full buffer is being handled. -/
def PassthPc.inFtf : PassthPc → Bool
  | .send _ .ftf | .piece _ .ftf _ | .back .ftf => true
  | _ => false

/-- The number of full buffers that have been handled. -/
def Passth.handled (s : Passth) : ℕ := s.dmaRxFtfCnt - if s.pc.inFtf then 1 else 0

/-- What can happen. -/
inductive PassthStep where
  /-- The DMA stores some bytes, one after the other. -/
  | receive (bs : List UInt8)
  /-- `at_uart_rx_dma_irq_hdl`. -/
  | dmaIrq
  /-- `at_uart_rx_idle_irq_hdl`; at the end of a buffer the number left may have been reloaded. -/
  | idleIrq (reloaded : Bool)
  /-- `at_tx_passth_timeout_cb`. -/
  | timer
  /-- The other side closes the connection. -/
  | close
  | loop (found sent : Bool)

/-- The bytes are stored at the place the DMA is at. -/
def storeBytes (stream bs : List UInt8) (mem : ℕ → ℕ → Cell) (b o : ℕ) : Cell :=
  let start := stream.length % passthTxBufLen
  if b = stream.length / passthTxBufLen % 2 ∧ start ≤ o ∧ o < start + bs.length then
    (bs.getD (o - start) 0, some (stream.length + (o - start)))
  else mem b o

/-- `DMA_CHCNT`, the number left, is `size` less what is in the buffer. -/
def dmaReceived (n : ℕ) (reloaded : Bool) : ℕ :=
  if n % passthTxBufLen = 0 ∧ n ≠ 0 ∧ reloaded = false then passthTxBufLen else n % passthTxBufLen

/-- One step. The DMA writes a buffer again only when it has been handled. -/
def passthStep (type : CipType) (transIntvl : ℕ) : PassthStep → Passth → Option Passth
  | .receive bs, s =>
    let n := s.stream.length
    if n % passthTxBufLen + bs.length ≤ passthTxBufLen ∧
        n < (s.handled + 2) * passthTxBufLen ∧ bs ≠ [] then
      some
        { s with
          stream := s.stream ++ bs
          mem := storeBytes s.stream bs s.mem
          ftfFlag := s.ftfFlag || (n + bs.length) % passthTxBufLen = 0 }
    else none
  | .dmaIrq, s =>
    if s.ftfFlag then some { s with ftfFlag := false, dmaSema := s.dmaSema + 1 } else none
  | .idleIrq reloaded, s =>
    let cur := dmaReceived s.stream.length reloaded
    some
      { s with
        curDmaReceivedNum := cur
        uartRxIdleFlag :=
          if cur = passthTxBufLen ∨ cur = 0 then s.uartRxIdleFlag else true }
  | .timer, s =>
    if s.passthTimer then some { s with passthTimer := false, atTxPassthTimeout := true } else none
  | .close, s => some { s with terminateSendPassth := true }
  | .loop found sent, s => passthLoop type transIntvl found sent s

/-! ### What is to be so -/

/-- **What is handed on is what was received**: each byte once, in order, after it was received; and
when the terminator ends the loop, everything before it has been handed on. -/
structure Forwards (s : Passth) : Prop where
  isPrefix : s.passed.map Prod.fst <+: s.stream
  positions : s.passed.map Prod.snd = (List.range s.passed.length).map some
  terminated : s.terminated →
    s.passed.map Prod.fst ++ passthTerminateStr <+: s.stream

/-- The DMA has come as far as `w` in the buffer that the loop is at, or `w` is nothing new. -/
def Passth.Fresh (s : Passth) (w : ℕ) : Prop :=
  s.readptr (s.dmaRxFtfCnt % 2) < w → s.dmaRxFtfCnt * passthTxBufLen + w ≤ s.stream.length

/-- The counts that the loop goes by are fresh, and a full buffer of a socket of `udp` type is not
dropped. -/
def PassthStep.Calm (type : CipType) (transIntvl : ℕ) (s : Passth) : PassthStep → Prop
  | .loop found _ =>
    match s.pc with
    | .timeoutCheck =>
      s.atTxPassthTimeout = true → s.lastBufIdx = s.dmaRxFtfCnt % 2 → s.Fresh s.lastDmaReceivedNum
    | .idleRead =>
      sendsNow transIntvl s.curDmaReceivedNum (s.readptr (s.dmaRxFtfCnt % 2)) →
        s.Fresh s.curDmaReceivedNum
    | .send _ .ftf => type = .udp → found = true
    | _ => True
  | _ => True

/-! ### What is so between the steps -/

/-- The cell that holds the byte `p` of the stream. -/
def cellAt (stream : List UInt8) (p : ℕ) : Cell := (stream.getD p 0, some p)

/-- The number of full buffers that the loop has been told of. -/
def Passth.told (s : Passth) : ℕ := s.dmaRxFtfCnt + if s.pc = .ftf then 1 else 0

/-- What is so wherever the loop is; `h` buffers have been handled and the loop has been told of
`t`. -/
structure Passth.Core (h t : ℕ) (s : Passth) : Prop where
  readptr_le : ∀ b, s.readptr b ≤ passthTxBufLen
  cur_le : s.curDmaReceivedNum ≤ passthTxBufLen
  last_le : s.lastDmaReceivedNum ≤ passthTxBufLen
  /-- The loop is told of full buffers only. -/
  told_le : t + s.dmaSema + (if s.ftfFlag then 1 else 0) ≤ s.stream.length / passthTxBufLen
  handled_le : h ≤ t
  length_le : s.stream.length ≤ (h + 2) * passthTxBufLen
  /-- What has not been handled stands in the buffers. -/
  mem_eq : ∀ p, h * passthTxBufLen ≤ p → p < s.stream.length →
    s.mem (p / passthTxBufLen % 2) (p % passthTxBufLen) = cellAt s.stream p
  other : s.readptr ((h + 1) % 2) = 0
  passed_eq : s.passed = (List.range s.passed.length).map (cellAt s.stream)
  passed_le : s.passed.length ≤ s.stream.length
  /-- The loop goes on behind what it has handed on. -/
  passed_length : s.halted = false →
    s.passed.length = h * passthTxBufLen + s.readptr (h % 2)
  halted : s.halted = true → s.terminateSendPassth = true
  halted_of_terminated : s.terminated = true → s.halted = true
  terminated : s.terminated → s.passed.map Prod.fst ++ passthTerminateStr <+: s.stream

/-- The buffer can be sent up to `writeptr`. -/
structure Passth.Ready (s : Passth) (flush : Bool) (caller : PassthCaller) : Prop where
  going : s.halted = false
  buf : s.bufIdx = s.handled % 2
  write_le : s.writeptr s.bufIdx ≤ passthTxBufLen
  received : s.readptr s.bufIdx < s.writeptr s.bufIdx →
    s.handled * passthTxBufLen + s.writeptr s.bufIdx ≤ s.stream.length
  full : caller = .ftf → flush = true ∧ s.writeptr s.bufIdx = passthTxBufLen ∧ 0 < s.dmaRxFtfCnt

/-- What is so at the places of the loop. -/
def Passth.Place (transIntvl : ℕ) (s : Passth) : Prop :=
  match s.pc with
  | .top | .exit | .back .timeout | .back .idle => True
  | .ftf | .timeoutCheck | .idleCheck | .idleRead => s.halted = false
  | .idleLast | .idleSend =>
    s.halted = false ∧ s.bufIdx = s.dmaRxFtfCnt % 2 ∧ s.writeptr s.bufIdx ≤ passthTxBufLen ∧
      (sendsNow transIntvl (s.writeptr s.bufIdx) (s.readptr s.bufIdx) →
        s.Fresh (s.writeptr s.bufIdx))
  | .send flush caller => s.Ready flush caller
  | .piece flush caller remaining => s.Ready flush caller ∧ remaining = s.remaining
  | .back .ftf => s.bufIdx = s.handled % 2 ∧ 0 < s.dmaRxFtfCnt ∧
      (s.halted = false → s.readptr s.bufIdx = passthTxBufLen)

/-- What is so between the steps. -/
def Passth.Inv (transIntvl : ℕ) (s : Passth) : Prop :=
  s.Core s.handled s.told ∧ s.Place transIntvl

theorem Passth.inv_init (transIntvl : ℕ) : passthInit.Inv transIntvl := by
  refine ⟨?_, trivial⟩
  constructor
  · intro b
    exact Nat.zero_le _
  · exact Nat.zero_le _
  · exact Nat.zero_le _
  · exact Nat.zero_le _
  · exact Nat.zero_le _
  · exact Nat.zero_le _
  · intro p _ hp
    exact absurd hp (Nat.not_lt_zero p)
  · rfl
  · rfl
  · exact Nat.zero_le _
  · intro _
    rfl
  · intro h
    exact Bool.noConfusion h
  · intro h
    exact Bool.noConfusion h
  · intro h
    exact Bool.noConfusion h

/-! ### The DMA and the interrupts -/

namespace Passth

variable {s : Passth} {h t : ℕ}

theorem cellAt_append {p : ℕ} (hp : p < stream.length) :
    cellAt (stream ++ bs) p = cellAt stream p := by
  rw [cellAt, cellAt, getD_append _ _ _ _ hp]

/-- More is received: what has been handed on is still what it was. -/
theorem map_cellAt_append (hn : n ≤ stream.length) :
    (List.range n).map (cellAt (stream ++ bs)) = (List.range n).map (cellAt stream) := by
  refine map_congr_left fun p hp => cellAt_append ?_
  rw [mem_range] at hp
  omega

/-- The DMA stores some bytes in a buffer that has been handled. -/
theorem Core.receive (hc : s.Core h t)
    (hfit : s.stream.length % passthTxBufLen + bs.length ≤ passthTxBufLen)
    (hfree : s.stream.length < (h + 2) * passthTxBufLen) (hne : bs ≠ []) :
    ({ s with
      stream := s.stream ++ bs
      mem := storeBytes s.stream bs s.mem
      ftfFlag := s.ftfFlag || (s.stream.length + bs.length) % passthTxBufLen = 0 } :
      Passth).Core h t := by
  have hpos : 0 < bs.length := length_pos_iff.mpr hne
  have htold := hc.told_le
  refine { hc with
    told_le := ?_, length_le := ?_, mem_eq := ?_, passed_eq := ?_, passed_le := ?_
    terminated := fun ht => (hc.terminated ht).trans (prefix_append _ _) }
  · dsimp only
    rw [length_append]
    by_cases hfull : (s.stream.length + bs.length) % passthTxBufLen = 0
    · -- the buffer is full now
      have hdiv : (s.stream.length + bs.length) / passthTxBufLen =
          s.stream.length / passthTxBufLen + 1 := by
        simp only [passthTxBufLen] at hfit hfull ⊢
        omega
      rw [decide_eq_true hfull, Bool.or_true, if_pos rfl, hdiv]
      omega
    · rw [decide_eq_false hfull, Bool.or_false]
      exact Nat.le_trans htold (Nat.div_le_div_right (Nat.le_add_right _ _))
  · rw [length_append]
    simp only [passthTxBufLen] at hfit hfree ⊢
    omega
  · intro p hp hlt
    dsimp only at hlt ⊢
    rw [length_append] at hlt
    rw [storeBytes]
    rcases Nat.lt_or_ge p s.stream.length with hold | hnew
    · -- a byte that stood there before
      rw [if_neg, hc.mem_eq p hp hold, cellAt_append hold]
      simp only [passthTxBufLen] at hp hfree ⊢
      omega
    · -- one of the new ones
      have hmod : p % passthTxBufLen - s.stream.length % passthTxBufLen = p - s.stream.length := by
        simp only [passthTxBufLen] at hfit ⊢
        omega
      rw [if_pos, cellAt, getD_append_right _ _ _ _ hnew, hmod, Nat.add_sub_cancel' hnew]
      simp only [passthTxBufLen] at hfit ⊢
      omega
  · rw [map_cellAt_append hc.passed_le]
    exact hc.passed_eq
  · rw [length_append]
    exact Nat.le_add_right_of_le hc.passed_le

end Passth

namespace Passth

variable {s : Passth} {h t transIntvl : ℕ}

/-- The interrupt of the DMA posts the semaphore. -/
theorem Core.dmaIrq (hc : s.Core h t) (hflag : s.ftfFlag = true) :
    ({ s with ftfFlag := false, dmaSema := s.dmaSema + 1 } : Passth).Core h t := by
  refine { hc with told_le := ?_ }
  have htold := hc.told_le
  rw [if_pos hflag] at htold
  exact htold

theorem dmaReceived_le (n : ℕ) (reloaded : Bool) : dmaReceived n reloaded ≤ passthTxBufLen := by
  rw [dmaReceived]
  split
  · exact Nat.le_refl _
  · exact Nat.le_of_lt (Nat.mod_lt _ (by decide))

/-- Nothing that the places of the loop are about has changed, but more may have been received. -/
structure Alike (s u : Passth) : Prop where
  pc_eq : u.pc = s.pc
  halted_eq : u.halted = s.halted
  bufIdx_eq : u.bufIdx = s.bufIdx
  cnt_eq : u.dmaRxFtfCnt = s.dmaRxFtfCnt
  writeptr_eq : u.writeptr = s.writeptr
  readptr_eq : u.readptr = s.readptr
  length_le : s.stream.length ≤ u.stream.length

theorem Alike.handled_eq {u : Passth} (ha : Alike s u) : u.handled = s.handled := by
  rw [handled, handled, ha.cnt_eq, ha.pc_eq]

theorem Alike.told_eq {u : Passth} (ha : Alike s u) : u.told = s.told := by
  rw [told, told, ha.cnt_eq, ha.pc_eq]

theorem Alike.ready {u : Passth} (ha : Alike s u)
    (hr : s.Ready flush caller) : u.Ready flush caller := by
  have hle := ha.length_le
  constructor
  · rw [ha.halted_eq, hr.going]
  · rw [ha.bufIdx_eq, ha.handled_eq, hr.buf]
  · rw [ha.bufIdx_eq, ha.writeptr_eq]
    exact hr.write_le
  · rw [ha.bufIdx_eq, ha.writeptr_eq, ha.readptr_eq, ha.handled_eq]
    intro hlt
    exact Nat.le_trans (hr.received hlt) hle
  · rw [ha.bufIdx_eq, ha.writeptr_eq, ha.cnt_eq]
    exact hr.full

theorem Alike.fresh {u : Passth} (ha : Alike s u) {w : ℕ} (hf : s.Fresh w) : u.Fresh w := by
  intro hlt
  rw [ha.readptr_eq, ha.cnt_eq] at hlt
  rw [ha.cnt_eq]
  exact Nat.le_trans (hf hlt) ha.length_le

/-- What is so at the places of the loop stays so. -/
theorem Alike.place {u : Passth} (ha : Alike s u) (hp : s.Place transIntvl) :
    u.Place transIntvl := by
  have hidle (hs : s.halted = false ∧ s.bufIdx = s.dmaRxFtfCnt % 2 ∧
      s.writeptr s.bufIdx ≤ passthTxBufLen ∧
        (sendsNow transIntvl (s.writeptr s.bufIdx) (s.readptr s.bufIdx) →
          s.Fresh (s.writeptr s.bufIdx))) :
      u.halted = false ∧ u.bufIdx = u.dmaRxFtfCnt % 2 ∧ u.writeptr u.bufIdx ≤ passthTxBufLen ∧
        (sendsNow transIntvl (u.writeptr u.bufIdx) (u.readptr u.bufIdx) →
          u.Fresh (u.writeptr u.bufIdx)) := by
    rw [ha.halted_eq, ha.bufIdx_eq, ha.cnt_eq, ha.writeptr_eq, ha.readptr_eq]
    exact ⟨hs.1, hs.2.1, hs.2.2.1, fun hnow => ha.fresh (hs.2.2.2 hnow)⟩
  cases hpc : s.pc with
  | top | exit => simp only [Place, ha.pc_eq, hpc]
  | ftf | timeoutCheck | idleCheck | idleRead =>
    simp only [Place, ha.pc_eq, hpc] at hp ⊢
    rw [ha.halted_eq]
    exact hp
  | idleLast | idleSend =>
    simp only [Place, ha.pc_eq, hpc] at hp ⊢
    exact hidle hp
  | send flush caller =>
    simp only [Place, ha.pc_eq, hpc] at hp ⊢
    exact ha.ready hp
  | piece flush caller n =>
    simp only [Place, ha.pc_eq, hpc, remaining, ha.bufIdx_eq, ha.writeptr_eq, ha.readptr_eq]
      at hp ⊢
    exact ⟨ha.ready hp.1, hp.2⟩
  | back caller =>
    cases caller with
    | ftf =>
      simp only [Place, ha.pc_eq, hpc, ha.bufIdx_eq, ha.readptr_eq, ha.handled_eq, ha.cnt_eq,
        ha.halted_eq] at hp ⊢
      exact hp
    | timeout | idle => simp only [Place, ha.pc_eq, hpc]

/-- What happens outside the loop keeps what is so. -/
theorem Inv.event (hi : s.Inv transIntvl) {u : Passth}
    (hloop : ∀ found sent, i ≠ .loop found sent) (hu : passthStep type transIntvl i s = some u) :
    u.Inv transIntvl := by
  obtain ⟨hc, hp⟩ := hi
  have hlift {v : Passth} (ha : Alike s v) (hv : v.Core s.handled s.told) : v.Inv transIntvl :=
    ⟨by rw [ha.handled_eq, ha.told_eq]; exact hv, ha.place hp⟩
  cases i with
  | receive bs =>
    simp only [passthStep, Option.ite_none_right_eq_some, Option.some.injEq] at hu
    obtain ⟨⟨hfit, hfree, hne⟩, rfl⟩ := hu
    refine hlift ⟨rfl, rfl, rfl, rfl, rfl, rfl, ?_⟩ (hc.receive hfit hfree hne)
    exact (prefix_append _ _).length_le
  | dmaIrq =>
    simp only [passthStep, Option.ite_none_right_eq_some, Option.some.injEq] at hu
    obtain ⟨hflag, rfl⟩ := hu
    exact hlift ⟨rfl, rfl, rfl, rfl, rfl, rfl, Nat.le_refl _⟩ (hc.dmaIrq hflag)
  | idleIrq reloaded =>
    obtain rfl := Option.some.inj hu
    exact hlift ⟨rfl, rfl, rfl, rfl, rfl, rfl, Nat.le_refl _⟩
      { hc with cur_le := dmaReceived_le _ _ }
  | timer =>
    simp only [passthStep, Option.ite_none_right_eq_some, Option.some.injEq] at hu
    obtain ⟨-, rfl⟩ := hu
    exact hlift ⟨rfl, rfl, rfl, rfl, rfl, rfl, Nat.le_refl _⟩ { hc with }
  | close =>
    obtain rfl := Option.some.inj hu
    exact hlift ⟨rfl, rfl, rfl, rfl, rfl, rfl, Nat.le_refl _⟩ { hc with halted := fun _ => rfl }
  | loop found sent => exact absurd rfl (hloop found sent)

/-! ### Sending -/

/-- What stands in the buffer from `readptr` on is what has not been handed on. -/
theorem Core.cells_eq (hc : s.Core h t) (hbuf : s.bufIdx = h % 2)
    (hn : s.readptr s.bufIdx + n ≤ passthTxBufLen)
    (hrecv : h * passthTxBufLen + s.readptr s.bufIdx + n ≤ s.stream.length) :
    s.cells n = (List.range n).map fun i =>
      cellAt s.stream (h * passthTxBufLen + s.readptr s.bufIdx + i) := by
  refine map_congr_left fun i hi => ?_
  rw [mem_range] at hi
  have hmem := hc.mem_eq (h * passthTxBufLen + s.readptr s.bufIdx + i) (by omega) (by omega)
  rw [← hmem, hbuf]
  rw [hbuf] at hn
  have hdiv : (h * passthTxBufLen + s.readptr (h % 2) + i) / passthTxBufLen = h := by
    simp only [passthTxBufLen] at hn ⊢
    omega
  have hmod : (h * passthTxBufLen + s.readptr (h % 2) + i) % passthTxBufLen =
      s.readptr (h % 2) + i := by
    simp only [passthTxBufLen] at hn ⊢
    omega
  rw [hdiv, hmod]

/-- Some bytes more are handed on. -/
theorem Core.pass (hc : s.Core h t) (hgo : s.halted = false) (hbuf : s.bufIdx = h % 2)
    (hn : s.readptr s.bufIdx + n ≤ passthTxBufLen)
    (hrecv : h * passthTxBufLen + s.readptr s.bufIdx + n ≤ s.stream.length)
    (pc : PassthPc) :
    ({ s with
      readptr := update s.readptr s.bufIdx (s.readptr s.bufIdx + n)
      passed := s.passed ++ s.cells n
      pc := pc } : Passth).Core h t := by
  have hlen := hc.passed_length hgo
  rw [← hbuf] at hlen
  have hcells : (s.cells n).length = n := by rw [cells, length_map, length_range]
  have hne : (h + 1) % 2 ≠ s.bufIdx := by omega
  refine { hc with
    readptr_le := ?_, other := ?_, passed_eq := ?_, passed_le := ?_
    passed_length := fun _ => ?_, terminated := fun ht => ?_ }
  · intro b
    dsimp only
    rw [update_apply]
    split
    · exact hn
    · exact hc.readptr_le b
  · dsimp only
    rw [update_of_ne hne]
    exact hc.other
  · rw [length_append, hcells, range_add, map_append, map_map,
      ← hc.passed_eq, hc.cells_eq hbuf hn hrecv, hlen]
    rfl
  · rw [length_append, hcells, hlen]
    exact hrecv
  · dsimp only
    rw [length_append, hcells, hlen, hbuf, update_self, Nat.add_assoc]
  · exact absurd (hgo.symm.trans (hc.halted_of_terminated ht)) Bool.false_ne_true

end Passth

namespace Passth

variable {s : Passth} {h t transIntvl : ℕ}

/-- The bytes handed on are the first of the stream. -/
theorem map_fst_cellAt (hn : n ≤ stream.length) :
    ((List.range n).map (cellAt stream)).map Prod.fst = stream.take n := by
  refine ext_getElem ?_ fun i hi hi' => ?_
  · rw [length_map, length_map, length_range, length_take, Nat.min_eq_left hn]
  · rw [length_map, length_map, length_range] at hi
    rw [getElem_map, getElem_map, getElem_range, getElem_take, cellAt,
      getD_eq_getElem _ _ (by omega)]

/-- The terminator is found where the loop would go on. -/
theorem Core.terminate (hc : s.Core h t) (hgo : s.halted = false) (hbuf : s.bufIdx = h % 2)
    (hn : s.readptr s.bufIdx + n ≤ passthTxBufLen)
    (hrecv : h * passthTxBufLen + s.readptr s.bufIdx + n ≤ s.stream.length)
    (hstr : (s.cells n).map Prod.fst = passthTerminateStr) (pc : PassthPc) :
    ({ s with terminateSendPassth := true, halted := true, terminated := true, pc := pc } :
      Passth).Core h t := by
  have hlen := hc.passed_length hgo
  rw [← hbuf] at hlen
  refine { hc with
    passed_length := fun hfalse => Bool.noConfusion hfalse
    halted := fun _ => rfl
    halted_of_terminated := fun _ => rfl
    terminated := fun _ => ?_ }
  have hall : s.passed ++ s.cells n =
      (List.range (h * passthTxBufLen + s.readptr s.bufIdx + n)).map (cellAt s.stream) := by
    rw [range_add, map_append, map_map, hc.cells_eq hbuf hn hrecv, ← hlen,
      ← hc.passed_eq]
    rfl
  rw [← hstr, ← map_append, hall, map_fst_cellAt hrecv]
  exact take_prefix _ _

theorem inFtf_send (flush : Bool) (caller : PassthCaller) :
    (PassthPc.send flush caller).inFtf = (PassthPc.back caller).inFtf := by
  cases caller <;> rfl

theorem inFtf_piece (flush : Bool) (caller : PassthCaller) (n : ℤ) :
    (PassthPc.piece flush caller n).inFtf = (PassthPc.back caller).inFtf := by
  cases caller <;> rfl

/-- What is so when the loop is back from `at_passth_send_data`. -/
theorem place_back (hpc : s.pc = .back caller)
    (hftf : caller = .ftf → s.bufIdx = s.handled % 2 ∧ 0 < s.dmaRxFtfCnt ∧
      (s.halted = false → s.readptr s.bufIdx = passthTxBufLen)) : s.Place transIntvl := by
  cases caller with
  | ftf =>
    simp only [Place, hpc]
    exact hftf rfl
  | timeout | idle => simp only [Place, hpc]

/-- The start of `at_passth_send_data`. -/
theorem Inv.sendData (hi : s.Inv transIntvl) (hpc : s.pc = .send flush caller)
    (hcalm : caller = .ftf → type = .udp → found = true) :
    (s.sendData type found flush caller).Inv transIntvl := by
  obtain ⟨hc, hp⟩ := hi
  simp only [Place, hpc] at hp
  have hbuf := hp.buf
  have hhandled : s.handled =
      s.dmaRxFtfCnt - if (PassthPc.back caller).inFtf then 1 else 0 := by
    rw [handled, hpc, inFtf_send]
  have htold : s.told = s.dmaRxFtfCnt := by simp [told, hpc]
  rw [htold, hhandled] at hc
  rw [hhandled] at hbuf
  have hrecv := hp.received
  rw [hhandled] at hrecv
  have hwrite := hp.write_le
  unfold Passth.sendData
  split
  · -- nothing to send
    rename_i hzero
    refine ⟨{ hc with }, place_back rfl ?_⟩
    rintro rfl
    obtain ⟨-, hw, hcnt⟩ := hp.full rfl
    refine ⟨hbuf, hcnt, fun _ => ?_⟩
    rw [remaining, hw] at hzero
    dsimp only
    omega
  · split
    · -- the socket is not known
      rename_i hudp
      refine ⟨{ hc with }, place_back rfl fun hftf => ?_⟩
      exact absurd (hudp.2.symm.trans (hcalm hftf hudp.1)) Bool.false_ne_true
    · split
      · -- the terminator
        rename_i hnonzero _ hstr
        obtain ⟨hthree, hstr⟩ := hstr
        rw [remaining] at hthree hnonzero
        have hlt : s.readptr s.bufIdx < s.writeptr s.bufIdx := by
          omega
        have hroom : s.readptr s.bufIdx + passthTerminateStr.length = s.writeptr s.bufIdx := by
          omega
        refine ⟨hc.terminate hp.going hbuf (by rw [hroom]; exact hwrite) ?_ hstr _,
          place_back rfl ?_⟩
        · rw [Nat.add_assoc, hroom]
          exact hrecv hlt
        · rintro rfl
          exact ⟨hbuf, (hp.full rfl).2.2, fun hfalse => Bool.noConfusion hfalse⟩
      · refine ⟨?_, ⟨⟨hp.going, ?_, hwrite, ?_, hp.full⟩, rfl⟩⟩
        · rw [handled, told]
          rw [inFtf_piece]
          exact { hc with }
        · rw [handled]
          rw [inFtf_piece]
          exact hbuf
        · rw [handled]
          rw [inFtf_piece]
          exact hrecv

end Passth

/-- What is sent at once is there. -/
theorem sentCnt_eq_some {remaining : ℤ}
    (h : sentCnt flush remaining = some n) : (n : ℤ) ≤ remaining := by
  unfold sentCnt at h
  split at h
  · cases h
  · split at h
    · rename_i hstart
      exact Option.some.inj h ▸ hstart
    · split at h
      · obtain rfl := Option.some.inj h
        omega
      · cases h

/-- When all is to be sent, the loop stops when nothing is left. -/
theorem sentCnt_true_eq_none {remaining : ℤ} (h : sentCnt true remaining = none) :
    remaining ≤ 0 := by
  unfold sentCnt at h
  split at h
  · assumption
  · split at h <;> cases h

namespace Passth

variable {s : Passth} {transIntvl : ℕ}

/-- A pass of the loop of `at_passth_send_data`. -/
theorem Inv.sendPiece (hi : s.Inv transIntvl)
    {n : ℤ} (hpc : s.pc = .piece flush caller n) :
    (s.sendPiece sent flush caller n).Inv transIntvl := by
  obtain ⟨hc, hp⟩ := hi
  simp only [Place, hpc] at hp
  obtain ⟨hp, rfl⟩ := hp
  have hbuf := hp.buf
  have hhandled : s.handled =
      s.dmaRxFtfCnt - if (PassthPc.back caller).inFtf then 1 else 0 := by
    rw [handled, hpc, inFtf_piece]
  have htold : s.told = s.dmaRxFtfCnt := by simp [told, hpc]
  rw [htold, hhandled] at hc
  rw [hhandled] at hbuf
  have hrecv := hp.received
  rw [hhandled] at hrecv
  have hwrite := hp.write_le
  unfold Passth.sendPiece
  split
  · -- the end of the loop
    rename_i hnone
    refine ⟨{ hc with }, place_back rfl ?_⟩
    rintro rfl
    obtain ⟨rfl, hw, hcnt⟩ := hp.full rfl
    have hle := sentCnt_true_eq_none hnone
    have hread := hc.readptr_le s.bufIdx
    rw [remaining, hw] at hle
    refine ⟨hbuf, hcnt, fun _ => ?_⟩
    dsimp only
    omega
  · rename_i m hsome
    have hm := sentCnt_eq_some hsome
    have hm' := hm
    rw [remaining] at hm'
    split
    · -- a part is handed on
      have hroom : s.readptr s.bufIdx + m ≤ passthTxBufLen := by omega
      have hthere : (s.dmaRxFtfCnt - if (PassthPc.back caller).inFtf then 1 else 0) *
          passthTxBufLen + s.readptr s.bufIdx + m ≤ s.stream.length := by
        rcases Nat.eq_zero_or_pos m with rfl | hpos
        · have hlen := hc.passed_length hp.going
          rw [← hbuf] at hlen
          rw [Nat.add_zero, ← hlen]
          exact hc.passed_le
        · omega
      refine ⟨?_, ⟨⟨hp.going, ?_, hwrite, ?_, hp.full⟩, ?_⟩⟩
      · rw [handled, told]
        rw [inFtf_piece]
        exact hc.pass hp.going hbuf hroom hthere _
      · rw [handled]
        rw [inFtf_piece]
        exact hbuf
      · rw [handled]
        dsimp only
        rw [inFtf_piece, update_self]
        intro hlt
        exact hrecv (by omega)
      · rw [remaining, remaining]
        dsimp only
        rw [update_self]
        push_cast
        ring
    · -- the task that sends is gone
      refine ⟨{ hc with
        passed_length := fun hfalse => Bool.noConfusion hfalse
        halted := fun _ => rfl
        halted_of_terminated := fun _ => rfl }, place_back rfl ?_⟩
      rintro rfl
      exact ⟨hbuf, (hp.full rfl).2.2, fun hfalse => Bool.noConfusion hfalse⟩

/-- A full buffer has been handled. -/
theorem Core.reset {h t : ℕ} (hc : s.Core h t) (hbuf : s.bufIdx = h % 2) (hlt : h < t)
    (hfull : s.halted = false → s.readptr s.bufIdx = passthTxBufLen) :
    ({ s with
      writeptr := update s.writeptr s.bufIdx 0
      readptr := update s.readptr s.bufIdx 0
      pc := .top } : Passth).Core (h + 1) t := by
  have hne : (h + 1) % 2 ≠ s.bufIdx := by omega
  have hother : (h + 1 + 1) % 2 = s.bufIdx := by omega
  have hlen := hc.length_le
  refine { hc with
    readptr_le := ?_, handled_le := hlt, length_le := ?_, mem_eq := ?_, other := ?_
    passed_length := ?_ }
  · intro b
    dsimp only
    rw [update_apply]
    split
    · exact Nat.zero_le _
    · exact hc.readptr_le b
  · exact Nat.le_trans hlen (Nat.mul_le_mul_right _ (Nat.le_succ (h + 2)))
  · intro p hp
    exact hc.mem_eq p (Nat.le_trans (Nat.mul_le_mul_right _ (Nat.le_succ h)) hp)
  · dsimp only
    rw [hother, update_self]
  · intro hgo
    have hat := hc.passed_length hgo
    rw [← hbuf, hfull hgo] at hat
    dsimp only
    rw [update_of_ne hne, hc.other, Nat.add_one_mul, hat]
    exact (Nat.add_zero _).symm

end Passth

/-! ### The loop -/

namespace Passth

variable {s u : Passth} {transIntvl : ℕ}

/-- The start of a pass. -/
theorem Inv.top (hi : s.Inv transIntvl) (hpc : s.pc = .top)
    (hu : passthLoop type transIntvl found sent s = some u) : u.Inv transIntvl := by
  have hc := hi.1
  simp only [handled, told, hpc, PassthPc.inFtf] at hc
  simp only [passthLoop, hpc] at hu
  split at hu
  · obtain rfl := Option.some.inj hu
    exact ⟨{ hc with }, trivial⟩
  · rename_i hterm
    have hgo : s.halted = false := by
      rw [Bool.eq_false_iff]
      exact fun hhalt => hterm (hc.halted hhalt)
    split at hu
    · rename_i hsema
      obtain rfl := Option.some.inj hu
      refine ⟨{ hc with told_le := ?_, handled_le := ?_ }, hgo⟩
      · have htold := hc.told_le
        simp only [told, if_true]
        omega
      · simp [handled, told, PassthPc.inFtf]
    · obtain rfl := Option.some.inj hu
      exact ⟨{ hc with }, hgo⟩

/-- A full buffer is taken up. -/
theorem Inv.ftf (hi : s.Inv transIntvl) (hpc : s.pc = .ftf)
    (hu : passthLoop type transIntvl found sent s = some u) : u.Inv transIntvl := by
  obtain ⟨hc, hgo⟩ := hi
  simp only [Place, hpc] at hgo
  simp only [handled, told, hpc, PassthPc.inFtf, Bool.false_eq_true, if_false, if_true,
    Nat.sub_zero] at hc
  simp only [passthLoop, hpc, Option.some.injEq] at hu
  have hhandled {pc : PassthPc} (hin : pc.inFtf = true) (v : Passth)
      (hv : v.dmaRxFtfCnt = s.dmaRxFtfCnt + 1) (hvpc : v.pc = pc) :
      v.handled = s.dmaRxFtfCnt := by
    rw [handled, hvpc, hin, hv]
    rfl
  have hrecv : s.dmaRxFtfCnt * passthTxBufLen + passthTxBufLen ≤ s.stream.length := by
    have htold := hc.told_le
    simp only [passthTxBufLen] at htold ⊢
    omega
  by_cases hread : s.readptr (s.dmaRxFtfCnt % 2) < passthTxBufLen
  · rw [if_pos hread] at hu
    subst hu
    refine ⟨?_, ⟨hgo, ?_, ?_, ?_, ?_⟩⟩
    · exact { hc with }
    · rw [hhandled rfl _ rfl rfl]
    · dsimp only
      rw [update_self]
    · intro _
      dsimp only
      rw [update_self]
      exact hrecv
    · intro _
      dsimp only
      rw [update_self]
      exact ⟨rfl, rfl, Nat.succ_pos _⟩
  · rw [if_neg hread] at hu
    subst hu
    refine ⟨?_, place_back rfl fun _ => ⟨?_, Nat.succ_pos _, fun _ => ?_⟩⟩
    · exact { hc with }
    · rw [hhandled rfl _ rfl rfl]
    · exact Nat.le_antisymm (hc.readptr_le _) (Nat.le_of_not_lt hread)

/-- The timer has run out, or not. -/
theorem Inv.timeoutCheck (hi : s.Inv transIntvl)
    (hpc : s.pc = .timeoutCheck)
    (hcalm : s.atTxPassthTimeout = true → s.lastBufIdx = s.dmaRxFtfCnt % 2 →
      s.Fresh s.lastDmaReceivedNum)
    (hu : passthLoop type transIntvl found sent s = some u) : u.Inv transIntvl := by
  obtain ⟨hc, hgo⟩ := hi
  simp only [Place, hpc] at hgo
  simp only [handled, told, hpc, PassthPc.inFtf] at hc
  simp only [passthLoop, hpc] at hu
  split at hu
  · obtain rfl := Option.some.inj hu
    exact ⟨{ hc with }, hgo⟩
  · rename_i hout
    rw [Bool.not_eq_false] at hout
    split at hu
    · obtain rfl := Option.some.inj hu
      exact ⟨{ hc with }, trivial⟩
    · rename_i hsame
      rw [ne_eq, not_not] at hsame
      have hfresh := hcalm hout hsame
      rw [Fresh, ← hsame] at hfresh
      by_cases hread : s.readptr s.lastBufIdx < s.lastDmaReceivedNum
      · rw [if_pos hread, Option.some.injEq] at hu
        subst hu
        refine ⟨{ hc with }, ⟨hgo, hsame, ?_, ?_, nofun⟩⟩
        · dsimp only
          rw [update_self]
          exact hc.last_le
        · dsimp only
          rw [update_self]
          exact hfresh
      · rw [if_neg hread, Option.some.injEq] at hu
        subst hu
        exact ⟨{ hc with }, trivial⟩

end Passth

namespace Passth

variable {s u : Passth} {transIntvl : ℕ}

/-- The line is idle, or not. -/
theorem Inv.idle (hi : s.Inv transIntvl)
    (hpc : s.pc = .idleCheck ∨ s.pc = .idleRead ∨ s.pc = .idleLast ∨ s.pc = .idleSend)
    (hcalm : s.pc = .idleRead →
      sendsNow transIntvl s.curDmaReceivedNum (s.readptr (s.dmaRxFtfCnt % 2)) →
        s.Fresh s.curDmaReceivedNum)
    (hu : passthLoop type transIntvl found sent s = some u) : u.Inv transIntvl := by
  obtain ⟨hc, hp⟩ := hi
  rcases hpc with hpc | hpc | hpc | hpc <;>
    simp only [Place, hpc] at hp <;> simp only [handled, told, hpc, PassthPc.inFtf] at hc <;>
    simp only [passthLoop, hpc] at hu
  · obtain rfl := Option.some.inj hu
    by_cases hflag : s.uartRxIdleFlag = true
    · rw [if_pos hflag]
      exact ⟨{ hc with }, hp⟩
    · rw [if_neg hflag]
      exact ⟨{ hc with }, trivial⟩
  · -- the count is read
    obtain rfl := Option.some.inj hu
    refine ⟨{ hc with }, hp, rfl, ?_, ?_⟩
    · dsimp only
      rw [update_self]
      exact hc.cur_le
    · dsimp only
      rw [update_self]
      exact hcalm hpc
  · -- the count is kept for the timer
    obtain rfl := Option.some.inj hu
    exact ⟨{ hc with last_le := hc.cur_le }, hp⟩
  · obtain ⟨hgo, hbuf, hwrite, hnow⟩ := hp
    rw [Fresh, ← hbuf] at hnow
    split at hu
    · rename_i hzero
      obtain rfl := Option.some.inj hu
      exact ⟨{ hc with }, ⟨hgo, hbuf, hwrite, hnow (Or.inl hzero), nofun⟩⟩
    · split at hu
      · rename_i hmany
        obtain rfl := Option.some.inj hu
        exact ⟨{ hc with }, ⟨hgo, hbuf, hwrite, hnow (Or.inr hmany), nofun⟩⟩
      · obtain rfl := Option.some.inj hu
        exact ⟨{ hc with }, trivial⟩

/-- The end of a pass. -/
theorem Inv.back (hi : s.Inv transIntvl) (hpc : s.pc = .back caller)
    (hu : passthLoop type transIntvl found sent s = some u) : u.Inv transIntvl := by
  obtain ⟨hc, hp⟩ := hi
  cases caller with
  | ftf =>
    simp only [Place, hpc] at hp
    obtain ⟨hbuf, hcnt, hfull⟩ := hp
    have hhandled : s.handled + 1 = s.dmaRxFtfCnt := by
      simp only [handled, hpc, PassthPc.inFtf, if_true]
      omega
    have htold : s.told = s.dmaRxFtfCnt := by simp [told, hpc]
    rw [htold] at hc
    have hreset := hc.reset hbuf (by omega) hfull
    rw [hhandled] at hreset
    simp only [passthLoop, hpc, Option.some.injEq] at hu
    subst hu
    exact ⟨hreset, trivial⟩
  | timeout | idle =>
    simp only [handled, told, hpc, PassthPc.inFtf] at hc
    simp only [passthLoop, hpc, Option.some.injEq] at hu
    subst hu
    exact ⟨{ hc with }, trivial⟩

/-- A step keeps what is so, when the counts it goes by are fresh. -/
theorem Inv.step (hi : s.Inv transIntvl)
    (hcalm : PassthStep.Calm type transIntvl s i) (hu : passthStep type transIntvl i s = some u) :
    u.Inv transIntvl := by
  cases i with
  | loop found sent =>
    replace hu : passthLoop type transIntvl found sent s = some u := hu
    cases hpc : s.pc with
    | top => exact hi.top hpc hu
    | ftf => exact hi.ftf hpc hu
    | timeoutCheck => exact hi.timeoutCheck hpc (by simpa only [PassthStep.Calm, hpc] using hcalm) hu
    | idleCheck => exact hi.idle (Or.inl hpc) (by simp [hpc]) hu
    | idleRead =>
      exact hi.idle (Or.inr (Or.inl hpc))
        (fun _ => by simpa only [PassthStep.Calm, hpc] using hcalm) hu
    | idleLast => exact hi.idle (Or.inr (Or.inr (Or.inl hpc))) (by simp [hpc]) hu
    | idleSend => exact hi.idle (Or.inr (Or.inr (Or.inr hpc))) (by simp [hpc]) hu
    | send flush caller =>
      simp only [passthLoop, hpc, Option.some.injEq] at hu
      rw [← hu]
      refine hi.sendData hpc ?_
      rintro rfl
      simpa only [PassthStep.Calm, hpc] using hcalm
    | piece flush caller n =>
      simp only [passthLoop, hpc, Option.some.injEq] at hu
      rw [← hu]
      exact hi.sendPiece hpc
    | back caller => exact hi.back hpc hu
    | exit =>
      simp only [passthLoop, hpc] at hu
      cases hu
  | receive bs => exact hi.event (by simp) hu
  | dmaIrq => exact hi.event (by simp) hu
  | idleIrq reloaded => exact hi.event (by simp) hu
  | timer => exact hi.event (by simp) hu
  | close => exact hi.event (by simp) hu

/-- What is handed on is what was received. -/
theorem Inv.forwards (hi : s.Inv transIntvl) : Forwards s := by
  have hc := hi.1
  constructor
  · rw [hc.passed_eq, map_fst_cellAt hc.passed_le]
    exact take_prefix _ _
  · conv_lhs => rw [hc.passed_eq]
    rw [map_map]
    rfl
  · exact hc.terminated

end Passth

/-- **The stream is handed on** in every run in which every count that the loop goes by is one that
the DMA has reached in the buffer the loop is at, and no full buffer is dropped because the socket
is not in the table. -/
theorem forwards_calm (type : CipType) (transIntvl : ℕ) {s : Passth}
    (h : Machine.Reach (passthStep type transIntvl) (PassthStep.Calm type transIntvl) passthInit
      s) : Forwards s :=
  (h.invariant (I := Passth.Inv transIntvl) (Passth.inv_init transIntvl)
    fun hi hcalm hu => hi.step hcalm hu).forwards

/-- One byte, which is handed on when the line is idle. -/
def oneByte : List PassthStep :=
  [.receive [65], .idleIrq true] ++ List.replicate 8 (.loop true true)

/-- One byte is handed on. -/
theorem forwards_calm_oneByte :
    ∃ s, Machine.run (passthStep .tcp 0) oneByte passthInit = some s ∧
      s.passed = [(65, some 0)] ∧ Forwards s := by
  have hstart : Machine.Reach (passthStep .tcp 0) (PassthStep.Calm .tcp 0) passthInit
      passthInit := .start
  have hirq := (hstart.next (i := PassthStep.receive [65]) trivial rfl).next
    (i := PassthStep.idleIrq true) trivial rfl
  have hread := ((hirq.next (i := PassthStep.loop true true) trivial rfl).next
    (i := PassthStep.loop true true) (fun h => Bool.noConfusion h) rfl).next
      (i := PassthStep.loop true true) trivial rfl
  have hlast := (hread.next (i := PassthStep.loop true true) (fun _ _ => by decide) rfl).next
    (i := PassthStep.loop true true) trivial rfl
  have hsend := (hlast.next (i := PassthStep.loop true true) trivial rfl).next
    (i := PassthStep.loop true true) trivial rfl
  exact ⟨_, rfl, rfl, forwards_calm .tcp 0
    (hsend.next (i := PassthStep.loop true true) trivial rfl)⟩

/-- The line is idle just before a buffer is full, and the loop looks at the full buffer first. -/
def staleIdle : List PassthStep :=
  [.receive (List.replicate 8191 0), .idleIrq true, .receive [0], .dmaIrq] ++
    List.replicate 16 (.loop true true)

/-- **The count of the buffer before is applied to the next one**, of which nothing has been
received. -/
theorem not_forwards_staleIdle :
    ∃ s, Machine.Reach (passthStep .tcp 0) (fun _ _ => True) passthInit s ∧ ¬Forwards s := by
  have h : (Machine.run (passthStep .tcp 0) staleIdle passthInit).map
      (fun s => (s.passed.length, s.stream.length)) = some (11112, 8192) := by
    decide +kernel
  rw [Option.map_eq_some_iff] at h
  obtain ⟨s, hs, hlen⟩ := h
  refine ⟨s, .of_run hs, fun hf => ?_⟩
  have hle := hf.isPrefix.length_le
  rw [length_map] at hle
  rw [Prod.mk.injEq] at hlen
  omega

end App

end Gd32
