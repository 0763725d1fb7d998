import Gd32Firmware.Lib.Machine
import Gd32Firmware.Mm.SpiFrame

/-!
# The transmit path of the SPI

`mm_spi.c` with `SPI_PIECING_ENABLE`: `msg_to_spi` puts messages into a queue and posts
`spi_work_semaphore`; the SPI thread waits for it, packs as many messages as fit into a frame, has
the frame sent by DMA in exchange for one from the master, and posts the semaphore itself when that
is done. A message that is fetched and does not fit any more is held in `tx_msg` for the next frame.

The thread goes from one operation that others can see to the next (`SpiPc`); between these
anything else can happen: calls of `msg_to_spi`, each in two parts, and the two interrupts.
`transmit_right` is about all runs in which no transfer times out.
-/

namespace Gd32.Mm

open List Option

variable {buf bs : List UInt8} {t : SpiTx}

/-! ### The data -/

def txQueueSize : ℕ := 32

/-- `SPI_STATE_T`. -/
inductive SpiState where
  /-- `SPI_READING_E`. -/
  | reading
  /-- `SPI_WRITING_E`. -/
  | writing
  deriving DecidableEq

/-- Where the SPI thread is. -/
inductive SpiPc where
  /-- In front of the wait for `spi_work_semaphore`. -/
  | waiting
  /-- Woken up, in front of the look at the master's line. -/
  | woken
  /-- In front of the first fetch of a frame that the slave writes. -/
  | checking
  /-- At the start of a pass of the loop that fills the frame. -/
  | filling
  | fetching
  | sending
  /-- In the wait for `spi_isr_semaphore`. -/
  | dma
  | done
  /-- With the received frame, before the post of `spi_work_semaphore`. -/
  | handling
  deriving DecidableEq

/-- A frame that was sent, and what was so at the time. -/
structure SentFrame where
  buf : List UInt8
  /-- `buffered_length` was not zero. -/
  buffered : Bool
  /-- A message was held in `tx_msg`. -/
  leftOver : Bool

/-- The transmit path. -/
structure SpiTx where
  /-- `spi_tx_queue`, oldest first. -/
  queue : List Msg
  txMsg : Option Msg
  txBuf : List UInt8
  bufferedLength : ℕ
  state : SpiState
  seqno : ℕ
  controlMsg : Control
  pc : SpiPc
  /-- `spi_work_semaphore`. -/
  workSem : Bool
  /-- `spi_isr_semaphore`. -/
  isrSem : Bool
  /-- A transfer has been started and is not done. -/
  dma : Bool
  /-- The calls of `msg_to_spi` that have put their message into the queue and have not posted the
  semaphore. -/
  posting : ℕ
  accepted : List Msg
  /-- The messages put into the buffer since it was reset. -/
  frame : List Msg
  sent : List SentFrame

/-- The start of the thread. -/
def spiTxInit : SpiTx where
  queue := []
  txMsg := none
  txBuf := List.replicate trxBufSize 0
  bufferedLength := 0
  state := .reading
  seqno := 0
  controlMsg := ⟨0, 0⟩
  pc := .waiting
  workSem := false
  isrSem := false
  dma := false
  posting := 0
  accepted := []
  frame := []
  sent := []

/-- Put bytes at a place of a buffer. -/
def overwrite (buf : List UInt8) (off : ℕ) (bs : List UInt8) : List UInt8 :=
  buf.take off ++ bs ++ buf.drop (off + bs.length)

/-! ### Accepting messages -/

/-- `msg_to_spi`, up to the post of the semaphore: the message that is put into the queue, if the
length is right, there is memory and there is room in time. -/
def msgToSpi (cmd : UInt8) (crc32 : ℕ) (buf : List UInt8) (mem : Bool) (s : SpiTx) : SpiTx :=
  if buf.length = 0 ∨ maxSpiPayloadLen < buf.length ∨ mem = false then s
  else if s.queue.length < txQueueSize then
    { s with
      queue := s.queue ++ [⟨cmd, crc32, buf⟩]
      accepted := s.accepted ++ [⟨cmd, crc32, buf⟩]
      posting := s.posting + 1 }
  else s

/-! ### The thread -/

/-- What the thread reads off a received frame: the first byte, and the length and the checksum
behind it, with the sum of the bytes. -/
structure RxFrame where
  /-- `spi_rx_buf[0]`. -/
  head : UInt8
  len : ℕ
  crc32 : ℕ
  /-- The sum of the `len` bytes of data. -/
  sum : ℕ

/-- What is done with a received frame. -/
inductive RxAction where
  /-- `send_pack_to_wifi`. -/
  | wifi
  /-- `ty_icc_recv`. -/
  | recv
  | refused
  | restart
  | idle

/-- A length that the buffer does not hold; the sum is one of `uint32_t`. -/
def RxFrame.tooLong (rx : RxFrame) : Bool := trxBufSize < (rx.len + tuyaHeaderLength) % 2 ^ 32

/-- What is done with a received frame, and that the semaphore is posted afterwards. -/
def handleRx (state : SpiState) (rx : RxFrame) : RxAction × Bool :=
  match state with
  | .reading =>
    if rx.head = dataEth then (.wifi, true)
    else if rx.head = dataCmd then
      if rx.crc32 ≠ 0 ∧ rx.crc32 ≠ (if rx.tooLong then 0 else rx.sum) then (.refused, true)
      else if rx.tooLong then (.refused, true)
      else (.recv, true)
    else if rx.head ≠ 0 ∧ rx.head ≠ 0xFF then (.restart, true)
    else (.idle, true)
  | .writing =>
    if rx.head = dataEth then (.wifi, true)
    else if rx.head = dataCmd then (if rx.tooLong then .refused else .recv, true)
    else (.idle, true)

/-- The buffer when a frame is sent: the messages, the control message and zeros, or zeros only. -/
def frameBuf (buf : List UInt8) (bufferedLength : ℕ) (c : Control) : List UInt8 :=
  if bufferedLength ≠ 0 then
    overwrite (overwrite buf bufferedLength (List.replicate (trxBufSize - bufferedLength) 0))
      bufferedLength c.bytes
  else List.replicate trxBufSize 0

/-- The number of the next frame. -/
def nextSeqno (n : ℕ) : ℕ := if 65535 < n + 1 then 0 else n + 1

/-- The loop that fills the frame, up to its fetch or its end. -/
def fillFrame (s : SpiTx) : SpiTx :=
  match s.txMsg with
  | none => { s with controlMsg := { s.controlMsg with len := 0 }, pc := .fetching }
  | some m =>
    if trxBufSize - tuyaHeaderLength < m.len + tuyaHeaderLength then
      { s with txMsg := none, controlMsg := { s.controlMsg with len := 0 }, pc := .fetching }
    else if m.len + tuyaHeaderLength + s.bufferedLength ≤ trxBufSize - tuyaHeaderLength then
      { s with
        txBuf := overwrite s.txBuf s.bufferedLength m.bytes
        bufferedLength := s.bufferedLength + (m.len + tuyaHeaderLength)
        txMsg := none
        controlMsg := { s.controlMsg with len := 0 }
        frame := s.frame ++ [m]
        pc := .fetching }
    else { s with controlMsg := { s.controlMsg with len := 1 }, pc := .sending }

/-- The next operation of `spi_thread_handler`; `level` is the master's line and `rx` the frame
received. `none` in a wait. Both waits for the transfer are one here. -/
def spiThread (level : Bool) (rx : RxFrame) (s : SpiTx) : Option SpiTx :=
  match s.pc with
  | .waiting => if s.workSem then some { s with workSem := false, pc := .woken } else none
  | .woken =>
    if level then some { s with state := .reading, pc := .filling }
    else some { s with state := .writing, pc := if s.txMsg = none then .checking else .filling }
  | .checking =>
    match s.queue with
    | [] => some { s with pc := if s.bufferedLength = 0 then .waiting else .filling }
    | m :: q => some { s with queue := q, txMsg := some m, pc := .filling }
  | .filling => some (fillFrame s)
  | .fetching =>
    match s.queue with
    | [] => some { s with pc := .sending }
    | m :: q => some { s with queue := q, txMsg := some m, pc := .filling }
  | .sending =>
    let c : Control := if s.bufferedLength ≠ 0 then ⟨s.seqno, s.controlMsg.len⟩ else s.controlMsg
    some
      { s with
        controlMsg := c
        txBuf := frameBuf s.txBuf s.bufferedLength c
        dma := true
        pc := .dma }
  | .dma => if s.isrSem then some { s with isrSem := false, pc := .done } else none
  | .done =>
    some
      { s with
        bufferedLength := 0
        frame := []
        seqno := if s.bufferedLength ≠ 0 then nextSeqno s.seqno else s.seqno
        pc := .handling }
  | .handling =>
    some { s with workSem := s.workSem || (handleRx s.state rx).2, pc := .waiting }

/-- The wait for the transfer fails: what is in the buffer is thrown away. -/
def dmaTimeout (s : SpiTx) : SpiTx :=
  { s with bufferedLength := 0, frame := [], workSem := true, pc := .waiting }

/-! ### Steps -/

/-- What can happen. -/
inductive SpiTxStep where
  /-- A call of `msg_to_spi`. -/
  | call (cmd : UInt8) (crc32 : ℕ) (buf : List UInt8) (mem : Bool)
  | post
  /-- `master_write_handler`, with the level it reads. -/
  | masterWrite (level : Bool)
  /-- `dma_done_interrupt_handler`. -/
  | dmaDone
  | thread (level : Bool) (rx : RxFrame)
  /-- The thread's wait for the transfer fails. -/
  | timeout

/-- One step. -/
def spiTxStep : SpiTxStep → SpiTx → Option SpiTx
  | .call cmd crc32 buf mem, s => some (msgToSpi cmd crc32 buf mem s)
  | .post, s =>
    if 0 < s.posting then some { s with posting := s.posting - 1, workSem := true } else none
  | .masterWrite level, s => some { s with workSem := s.workSem || level }
  | .dmaDone, s =>
    if s.dma then
      some
        { s with
          dma := false
          isrSem := true
          sent := s.sent ++ [⟨s.txBuf, s.bufferedLength ≠ 0, s.txMsg.isSome⟩] }
    else none
  | .thread level rx, s => spiThread level rx s
  | .timeout, s => if s.pc = .dma ∧ s.isrSem = false then some (dmaTimeout s) else none

/-- Messages are commands or Ethernet frames, whose checksum is an `unsigned int`, and no transfer
times out. -/
def SpiTxStep.Ok : SpiTxStep → Prop
  | .call cmd crc32 _ _ => (cmd = dataEth ∨ cmd = dataCmd) ∧ crc32 < 2 ^ 32
  | .timeout => False
  | _ => True

/-! ### What is so between the steps -/

/-- The messages that the other side reads from a frame. -/
def SentFrame.msgs (f : SentFrame) : List Msg :=
  ((parseFrame trxBufSize f.buf).map Prod.fst).getD []

/-- The messages sent so far. -/
def SpiTx.sentMsgs (s : SpiTx) : List Msg := (s.sent.map SentFrame.msgs).flatten

/-- The frames sent so far that held messages. -/
def SpiTx.dataFrames (s : SpiTx) : List SentFrame := s.sent.filter SentFrame.buffered

/-- The messages in the buffer have been sent. -/
def SpiTx.frameOut (s : SpiTx) : Prop := s.pc = .done ∨ s.isrSem = true

instance (s : SpiTx) : Decidable s.frameOut := inferInstanceAs (Decidable (_ ∨ _))

/-- The messages in the buffer that have not been sent. -/
def SpiTx.pending (s : SpiTx) : List Msg := if s.frameOut then [] else s.frame

/-- `len` of the control message. -/
def leftOverLen (txMsg : Option Msg) : ℕ := if txMsg.isSome then 1 else 0

/-- What the buffer holds while it is sent. -/
def SpiTx.image (s : SpiTx) : List UInt8 :=
  if s.bufferedLength ≠ 0 then
    msgsBytes s.frame ++ ((⟨s.seqno, leftOverLen s.txMsg⟩ : Control).bytes ++
      List.replicate (trxBufSize - tuyaHeaderLength - s.bufferedLength) 0)
  else List.replicate trxBufSize 0

/-- A frame with messages is read as what it is: whole messages, then the control header with the
number `k` and whether a message was left over. -/
def SentFrame.Reads (f : SentFrame) (k : ℕ) : Prop :=
  f.buf.length = trxBufSize ∧ ∃ msgs, msgs ≠ [] ∧
    parseFrame trxBufSize f.buf = some (msgs, ⟨k % 65536, if f.leftOver then 1 else 0⟩)

/-- The places of the thread at which nothing is in the buffer. -/
def SpiPc.idle : SpiPc → Bool
  | .waiting | .woken | .checking | .handling => true
  | _ => false

/-- What is so between the steps. -/
structure SpiTx.Inv (s : SpiTx) : Prop where
  /-- The other side can tell the messages apart. -/
  valid : ∀ m ∈ s.accepted, m.Valid
  /-- Every message accepted is sent, in the buffer, held or queued, in this order. -/
  order : s.accepted = s.sentMsgs ++ s.pending ++ s.txMsg.toList ++ s.queue
  length_txBuf : s.txBuf.length = trxBufSize
  buffered : s.bufferedLength = (msgsBytes s.frame).length
  buffered_le : s.bufferedLength ≤ trxBufSize - tuyaHeaderLength
  frame_valid : ∀ m ∈ s.frame, m.Valid
  /-- Until the frame is closed the buffer starts with the messages. -/
  take_txBuf : s.pc ≠ .dma → s.pc ≠ .done → s.txBuf.take s.bufferedLength = msgsBytes s.frame
  txBuf_eq : s.pc = .dma ∨ s.pc = .done → s.txBuf = s.image
  frame_nil : s.pc.idle → s.frame = []
  txMsg_none : s.pc = .checking ∨ s.pc = .fetching → s.txMsg = none
  fetching_len : s.pc = .fetching → s.controlMsg.len = 0
  sending_len : s.pc = .sending → s.controlMsg.len = leftOverLen s.txMsg
  dma_pc : s.dma → s.pc = .dma
  isr_pc : s.isrSem → s.pc = .dma ∧ s.dma = false
  /-- The frames sent are numbered one after the other. -/
  seqno_eq : s.dataFrames.length % 65536 =
    if s.frameOut ∧ s.bufferedLength ≠ 0 then nextSeqno s.seqno else s.seqno
  seqno_lt : s.seqno < 65536
  reads : ∀ (k : ℕ) (f : SentFrame), s.dataFrames[k]? = some f → f.Reads k
  /-- When the thread blocks with a message to send, the end of a call is still to come. -/
  posted : s.pc = .waiting → s.workSem = false → s.queue ≠ [] ∨ s.txMsg ≠ none → 0 < s.posting

theorem SpiTx.inv_init : spiTxInit.Inv := by
  have hpc : spiTxInit.pc = .waiting := rfl
  constructor
  · intro m hm
    exact absurd hm not_mem_nil
  · rfl
  · exact length_replicate
  · rfl
  · exact Nat.zero_le _
  · intro m hm
    exact absurd hm not_mem_nil
  · intro _ _
    rfl
  · rintro (h | h) <;> rw [hpc] at h <;> exact absurd h (by decide)
  · intro _
    rfl
  · rintro (h | h) <;> rw [hpc] at h <;> exact absurd h (by decide)
  · intro _
    rfl
  · intro _
    rfl
  · intro h
    exact absurd h (by decide)
  · intro h
    exact absurd h (by decide)
  · rfl
  · decide
  · intro k f hf
    exact absurd hf (by simp [SpiTx.dataFrames, spiTxInit])
  · rintro _ _ (h | h) <;> exact absurd rfl h

/-! ### The buffer -/

theorem length_overwrite {off : ℕ} (h : off + bs.length ≤ buf.length) :
    (overwrite buf off bs).length = buf.length := by
  rw [overwrite, length_append, length_append, length_take, length_drop]
  omega

/-- What is written is read, behind what stood before it. -/
theorem take_overwrite {off : ℕ} (h : off ≤ buf.length) :
    (overwrite buf off bs).take (off + bs.length) = buf.take off ++ bs := by
  have hlen : (buf.take off ++ bs).length = off + bs.length := by
    rw [length_append, length_take, Nat.min_eq_left h]
  rw [overwrite, ← hlen, take_left]

/-- The frame as it is sent: the messages, the control message and zeros. -/
theorem frameBuf_eq {n : ℕ} {c : Control} (hbuf : buf.length = trxBufSize)
    (hn : n ≤ trxBufSize - tuyaHeaderLength) :
    frameBuf buf n c =
      if n ≠ 0 then
        buf.take n ++ (c.bytes ++ List.replicate (trxBufSize - tuyaHeaderLength - n) 0)
      else List.replicate trxBufSize 0 := by
  have hhead : tuyaHeaderLength = 12 := rfl
  have hzeros : overwrite buf n (List.replicate (trxBufSize - n) 0) =
      buf.take n ++ List.replicate (trxBufSize - n) 0 := by
    rw [overwrite, drop_eq_nil_of_le (by rw [length_replicate]; omega), append_nil]
  have htake : (buf.take n).length = n := by rw [length_take]; omega
  have hc : c.bytes.length = 12 := by rw [Control.bytes, length_mmDataHeader, hhead]
  rw [frameBuf]
  by_cases h : n ≠ 0
  · rw [if_pos h, if_pos h, hzeros, overwrite, append_assoc]
    congr 1
    · exact take_left' htake
    · congr 1
      rw [drop_append, htake, drop_eq_nil_of_le (by omega), nil_append,
        drop_replicate]
      congr 1
      omega
  · rw [if_neg h, if_neg h]

theorem msgsBytes_eq_nil {msgs : List Msg} : msgsBytes msgs = [] ↔ msgs = [] := by
  constructor
  · intro h
    cases msgs with
    | nil => rfl
    | cons m msgs =>
      have hlen := congrArg List.length h
      rw [msgsBytes_cons, length_append, Msg.length_bytes] at hlen
      exact absurd hlen (by simp [tuyaHeaderLength])
  · rintro rfl
    rfl

/-- Every message takes up at least its header. -/
theorem length_le_msgsBytes (msgs : List Msg) :
    msgs.length * tuyaHeaderLength ≤ (msgsBytes msgs).length := by
  induction msgs with
  | nil => simp
  | cons m msgs ih =>
    rw [msgsBytes_cons, length_append, Msg.length_bytes, length_cons, Nat.succ_mul]
    omega

theorem leftOverLen_lt (m : Option Msg) : leftOverLen m < 2 ^ 32 := by
  unfold leftOverLen
  split <;> norm_num

/-- Nothing is read from a frame of zeros. -/
theorem parseFrame_zeros : parseFrame trxBufSize (List.replicate trxBufSize 0) = none := by
  have hhead : (List.replicate trxBufSize (0 : UInt8)).head? = some 0 := rfl
  obtain ⟨n, hn⟩ : ∃ n, trxBufSize = n + 1 := ⟨1599, rfl⟩
  conv_lhs => rw [hn]
  rw [parseFrame, ← hn, if_neg (by rw [length_replicate]; decide), hhead,
    if_neg (by decide), if_neg]
  rintro ⟨h | h, -⟩ <;> exact absurd h (by decide)

namespace SpiTx.Inv

variable {s : SpiTx}

theorem bufferedLength_eq_zero (h : s.Inv) : s.bufferedLength = 0 ↔ s.frame = [] := by
  rw [h.buffered, length_eq_zero_iff, msgsBytes_eq_nil]

/-- The other side reads the frame as the messages and the control message. -/
theorem parseFrame_image (h : s.Inv) :
    parseFrame trxBufSize s.image =
      if s.frame = [] then none else some (s.frame, ⟨s.seqno, leftOverLen s.txMsg⟩) := by
  have hseq := h.seqno_lt
  by_cases hnil : s.frame = []
  · rw [if_pos hnil, image, if_neg (not_not.mpr (h.bufferedLength_eq_zero.mpr hnil)),
      parseFrame_zeros]
  · have hcount : s.frame.length < trxBufSize := by
      have h₁ := length_le_msgsBytes s.frame
      have h₂ := h.buffered_le
      rw [h.buffered] at h₂
      have hsize : trxBufSize = 1600 := rfl
      have hhead : tuyaHeaderLength = 12 := rfl
      rw [hhead] at h₁
      omega
    rw [if_neg hnil, image, if_pos (mt h.bufferedLength_eq_zero.mp hnil)]
    exact parseFrame_frame h.frame_valid (by dsimp only; omega) (leftOverLen_lt _) _ hcount

theorem length_image (h : s.Inv) : s.image.length = trxBufSize := by
  have hb := h.buffered
  have hle := h.buffered_le
  rw [image]
  split
  · rw [length_append, length_append, Control.bytes, length_mmDataHeader,
      length_replicate, ← hb]
    omega
  · exact length_replicate

/-- Nothing that was sent is in the buffer at the places at which it is filled. -/
theorem not_frameOut (h : s.Inv) (hdma : s.pc ≠ .dma) (hdone : s.pc ≠ .done) : ¬ s.frameOut := by
  rintro (hout | hout)
  · exact hdone hout
  · exact hdma (h.isr_pc hout).1

theorem isrSem_eq_false (h : s.Inv) (hdma : s.pc ≠ .dma) : s.isrSem = false := by
  rw [Bool.eq_false_iff]
  intro hisr
  exact hdma (h.isr_pc hisr).1

theorem dma_eq_false (h : s.Inv) (hdma : s.pc ≠ .dma) : s.dma = false := by
  rw [Bool.eq_false_iff]
  intro hd
  exact hdma (h.dma_pc hd)

end SpiTx.Inv

/-! ### Every step keeps this -/

namespace SpiTx.Inv

variable {s : SpiTx}

/-- A call of `msg_to_spi` up to its post. -/
theorem call (h : s.Inv) {cmd : UInt8} {crc32 : ℕ} {mem : Bool}
    (hcmd : cmd = dataEth ∨ cmd = dataCmd) (hcrc : crc32 < 2 ^ 32) :
    (msgToSpi cmd crc32 buf mem s).Inv := by
  rw [msgToSpi]
  split
  · exact h
  · rename_i hargs
    push Not at hargs
    split
    · refine { h with valid := ?_, order := ?_, posted := fun _ _ _ => Nat.succ_pos _ }
      · intro m hm
        rcases mem_append.mp hm with hm | hm
        · exact h.valid m hm
        · rw [mem_singleton] at hm
          subst hm
          exact ⟨hcmd, hargs.2.1, hcrc⟩
      · change s.accepted ++ _ = s.sentMsgs ++ s.pending ++ s.txMsg.toList ++ (s.queue ++ _)
        rw [h.order, append_assoc _ s.queue]
    · exact h

/-- The end of a call. -/
theorem post (h : s.Inv) : ({ s with posting := s.posting - 1, workSem := true } : SpiTx).Inv :=
  { h with posted := fun _ hsem _ => Bool.noConfusion hsem }

/-- The master's line rises or falls. -/
theorem masterWrite (h : s.Inv) (level : Bool) :
    ({ s with workSem := s.workSem || level } : SpiTx).Inv :=
  { h with posted := fun hpc hsem => h.posted hpc (Bool.or_eq_false_iff.mp hsem).1 }

theorem pending_eq_nil (hout : s.frameOut) : s.pending = [] := if_pos hout

theorem pending_eq_frame (hout : ¬ s.frameOut) : s.pending = s.frame := if_neg hout

/-- The frame that is sent holds the messages in the buffer. -/
theorem msgs_txBuf (h : s.Inv) (hpc : s.pc = .dma) (b l : Bool) :
    SentFrame.msgs ⟨s.txBuf, b, l⟩ = s.frame := by
  rw [SentFrame.msgs, h.txBuf_eq (Or.inl hpc), h.parseFrame_image]
  split
  · rename_i hnil
    rw [hnil]
    rfl
  · rfl

/-- A frame counts when it holds messages. -/
theorem dataFrames_append (sent : List SentFrame) (buf : List UInt8) (n : ℕ) (l : Bool) :
    (sent ++ [(⟨buf, n ≠ 0, l⟩ : SentFrame)]).filter SentFrame.buffered =
      sent.filter SentFrame.buffered ++ if n ≠ 0 then [⟨buf, true, l⟩] else [] := by
  rw [filter_append]
  by_cases hn : n ≠ 0
  · rw [if_pos hn, decide_eq_true hn, filter_cons_of_pos rfl, filter_nil]
  · rw [if_neg hn, decide_eq_false hn, filter_cons_of_neg Bool.false_ne_true, filter_nil]

/-- A transfer is done: the frame has been sent. -/
theorem dmaDone (h : s.Inv) (hdma : s.dma = true) :
    ({ s with
      dma := false
      isrSem := true
      sent := s.sent ++ [⟨s.txBuf, s.bufferedLength ≠ 0, s.txMsg.isSome⟩] } : SpiTx).Inv := by
  have hpc : s.pc = .dma := h.dma_pc hdma
  have hisr : s.isrSem = false := by
    rw [Bool.eq_false_iff]
    intro hisr
    exact absurd hdma (by rw [(h.isr_pc hisr).2]; decide)
  have hout : ¬ s.frameOut := by
    rintro (hout | hout)
    · rw [hpc] at hout
      exact absurd hout (by decide)
    · rw [hisr] at hout
      exact absurd hout (by decide)
  have hcount := h.seqno_eq
  rw [if_neg fun hboth => hout hboth.1] at hcount
  refine { h with
    order := ?_
    dma_pc := fun hd => Bool.noConfusion hd
    isr_pc := fun _ => ⟨hpc, rfl⟩
    seqno_eq := ?_
    reads := ?_ }
  · have horder := h.order
    rw [pending_eq_frame hout] at horder
    rw [pending_eq_nil (Or.inr rfl), append_nil, sentMsgs, map_append,
      flatten_append, map_singleton, h.msgs_txBuf hpc, flatten_singleton]
    exact horder
  · rw [dataFrames, dataFrames_append, length_append]
    rw [dataFrames] at hcount
    by_cases hb : s.bufferedLength ≠ 0
    · rw [if_pos hb, if_pos ⟨Or.inr rfl, hb⟩, length_singleton]
      simp only [nextSeqno]
      split <;> omega
    · rw [if_neg hb, if_neg fun hboth => hb hboth.2]
      exact hcount
  · intro k f hf
    rw [dataFrames, dataFrames_append, ← dataFrames] at hf
    rcases Nat.lt_or_ge k s.dataFrames.length with hk | hk
    · rw [List.getElem?_append_left hk] at hf
      exact h.reads k f hf
    · -- the frame just sent
      rw [List.getElem?_append_right hk] at hf
      by_cases hb : s.bufferedLength ≠ 0
      · rw [if_pos hb] at hf
        obtain ⟨hk0, rfl⟩ : k - s.dataFrames.length = 0 ∧ _ = f := by
          rwa [List.getElem?_singleton, ite_none_right_eq_some, Option.some.injEq] at hf
        have hkeq : k = s.dataFrames.length := Nat.le_antisymm (Nat.sub_eq_zero_iff_le.mp hk0) hk
        refine ⟨h.length_txBuf, s.frame, mt h.bufferedLength_eq_zero.mpr hb, ?_⟩
        rw [h.txBuf_eq (Or.inl hpc), h.parseFrame_image,
          if_neg (mt h.bufferedLength_eq_zero.mpr hb), hkeq, hcount]
        rfl
      · rw [if_neg hb] at hf
        exact absurd hf (by simp)

end SpiTx.Inv

/-! ### The thread keeps it -/

namespace SpiTx.Inv

variable {s : SpiTx}

/-- The thread goes on to another place at which nothing is sent. -/
theorem move (h : s.Inv) (hdma : s.pc ≠ .dma) (hdone : s.pc ≠ .done) {pc : SpiPc} {w : Bool}
    {st : SpiState} {c : Control} (hdma' : pc ≠ .dma) (hdone' : pc ≠ .done)
    (hidle : pc.idle → s.frame = [])
    (hnone : pc = .checking ∨ pc = .fetching → s.txMsg = none)
    (hfetch : pc = .fetching → c.len = 0)
    (hsend : pc = .sending → c.len = leftOverLen s.txMsg)
    (hpost : pc = .waiting → w = false → s.queue ≠ [] ∨ s.txMsg ≠ none → 0 < s.posting) :
    ({ s with controlMsg := c, workSem := w, state := st, pc := pc } : SpiTx).Inv := by
  have hout := h.not_frameOut hdma hdone
  have hisr := h.isrSem_eq_false hdma
  have hout' :
      ¬ ({ s with controlMsg := c, workSem := w, state := st, pc := pc } : SpiTx).frameOut := by
    rintro (hnot | hnot)
    · exact hdone' hnot
    · exact absurd hnot (by rw [hisr]; exact Bool.false_ne_true)
  refine { h with
    order := ?_
    take_txBuf := fun _ _ => h.take_txBuf hdma hdone
    txBuf_eq := ?_
    frame_nil := hidle
    txMsg_none := hnone
    fetching_len := hfetch
    sending_len := hsend
    dma_pc := fun hd => absurd hd (by rw [h.dma_eq_false hdma]; exact Bool.false_ne_true)
    isr_pc := fun hi => absurd hi (by rw [hisr]; exact Bool.false_ne_true)
    seqno_eq := ?_
    posted := hpost }
  · have horder := h.order
    rw [pending_eq_frame hout] at horder
    rw [pending_eq_frame hout']
    exact horder
  · rintro (hnot | hnot)
    · exact absurd hnot hdma'
    · exact absurd hnot hdone'
  · have hseq := h.seqno_eq
    rw [if_neg fun hboth => hout hboth.1] at hseq
    rw [if_neg fun hboth => hout' hboth.1]
    exact hseq

/-- The next message is fetched. -/
theorem fetch (h : s.Inv) (hpc : s.pc = .checking ∨ s.pc = .fetching) {m : Msg} {q : List Msg}
    (hq : s.queue = m :: q) :
    ({ s with queue := q, txMsg := some m, pc := .filling } : SpiTx).Inv := by
  have hdma : s.pc ≠ .dma := by rcases hpc with hpc | hpc <;> rw [hpc] <;> decide
  have hdone : s.pc ≠ .done := by rcases hpc with hpc | hpc <;> rw [hpc] <;> decide
  have hmove : ({ s with
      controlMsg := s.controlMsg, workSem := s.workSem, state := s.state, pc := .filling } :
      SpiTx).Inv :=
    h.move hdma hdone (by decide) (by decide) nofun (by simp) nofun nofun nofun
  refine { hmove with
    order := ?_, txMsg_none := by simp, sending_len := nofun, txBuf_eq := by simp
    posted := nofun, seqno_eq := hmove.seqno_eq }
  have horder := hmove.order
  rw [horder, h.txMsg_none hpc, hq]
  simp only [toList_none, toList_some, append_nil, append_assoc,
    singleton_append]
  rfl

end SpiTx.Inv

namespace SpiTx.Inv

variable {s : SpiTx}

/-- A pass of the loop: the message held is put into the buffer, or closes the frame. -/
theorem fill (h : s.Inv) (hpc : s.pc = .filling) : (fillFrame s).Inv := by
  have hdma : s.pc ≠ .dma := by rw [hpc]; decide
  have hdone : s.pc ≠ .done := by rw [hpc]; decide
  have hsize : trxBufSize = 1600 := rfl
  have hhead : tuyaHeaderLength = 12 := rfl
  rw [fillFrame]
  split
  · -- no message is held
    rename_i hnone
    exact h.move hdma hdone (by decide) (by decide) nofun (fun _ => hnone) (fun _ => rfl) nofun nofun
  · rename_i m hm
    have horder := h.order
    rw [pending_eq_frame (h.not_frameOut hdma hdone), hm] at horder
    have hmem : m ∈ s.accepted := by
      rw [horder]
      exact mem_append_left _ (mem_append_right _ (mem_singleton_self m))
    have hvalid := h.valid m hmem
    have hlen : m.len ≤ trxBufSize - 2 * tuyaHeaderLength := hvalid.len_le
    rw [if_neg (by omega)]
    split
    · -- it fits
      rename_i hfits
      have hbytes := m.length_bytes
      have hroom : s.bufferedLength + m.bytes.length ≤ s.txBuf.length := by
        rw [hbytes, h.length_txBuf]
        omega
      have hout : ¬ ({ s with
          txBuf := overwrite s.txBuf s.bufferedLength m.bytes
          bufferedLength := s.bufferedLength + (m.len + tuyaHeaderLength)
          txMsg := none
          controlMsg := { s.controlMsg with len := 0 }
          frame := s.frame ++ [m]
          pc := .fetching } : SpiTx).frameOut := by
        rintro (hnot | hnot)
        · cases hnot
        · exact absurd (h.isr_pc hnot).1 hdma
      refine { h with
        order := ?_, length_txBuf := ?_, buffered := ?_, buffered_le := ?_, frame_valid := ?_
        take_txBuf := fun _ _ => ?_, txBuf_eq := by simp
        frame_nil := nofun, txMsg_none := fun _ => rfl, fetching_len := fun _ => rfl
        sending_len := nofun, posted := nofun, seqno_eq := ?_
        dma_pc := fun hd => absurd (h.dma_pc hd) hdma
        isr_pc := fun hi => absurd (h.isr_pc hi).1 hdma }
      · rw [pending_eq_frame hout]
        rw [horder]
        simp only [toList_none, toList_some, append_nil, append_assoc]
        rfl
      · rw [length_overwrite hroom, h.length_txBuf]
      · rw [msgsBytes_append, length_append, ← h.buffered, hbytes]
      · dsimp only
        omega
      · intro x hx
        rcases mem_append.mp hx with hx | hx
        · exact h.frame_valid x hx
        · rw [mem_singleton] at hx
          exact hx ▸ hvalid
      · rw [← hbytes, take_overwrite (by omega), h.take_txBuf hdma hdone, msgsBytes_append]
      · have hseq := h.seqno_eq
        rw [if_neg fun hboth => h.not_frameOut hdma hdone hboth.1] at hseq
        rw [if_neg fun hboth => hout hboth.1]
        exact hseq
    · -- it is left over
      exact h.move hdma hdone (by decide) (by decide) nofun (by simp) nofun (fun _ => by rw [hm]; rfl)
        nofun

end SpiTx.Inv

namespace SpiTx.Inv

variable {s : SpiTx}

/-- The frame is closed and its transfer started. -/
theorem send (h : s.Inv) (hpc : s.pc = .sending) {level : Bool} {rx : RxFrame}
    (ht : spiThread level rx s = some t) : t.Inv := by
  have hdma : s.pc ≠ .dma := by rw [hpc]; decide
  have hdone : s.pc ≠ .done := by rw [hpc]; decide
  have hout := h.not_frameOut hdma hdone
  have hisr := h.isrSem_eq_false hdma
  simp only [spiThread, hpc, Option.some.injEq] at ht
  subst ht
  have hout' : ¬ ({ s with
      controlMsg := if s.bufferedLength ≠ 0 then ⟨s.seqno, s.controlMsg.len⟩ else s.controlMsg
      txBuf := frameBuf s.txBuf s.bufferedLength
        (if s.bufferedLength ≠ 0 then ⟨s.seqno, s.controlMsg.len⟩ else s.controlMsg)
      dma := true
      pc := .dma } : SpiTx).frameOut := by
    rintro (hnot | hnot)
    · cases hnot
    · exact Bool.false_ne_true (hisr ▸ hnot)
  have hbuf : frameBuf s.txBuf s.bufferedLength
      (if s.bufferedLength ≠ 0 then ⟨s.seqno, s.controlMsg.len⟩ else s.controlMsg) = s.image := by
    rw [frameBuf_eq h.length_txBuf h.buffered_le, image, h.take_txBuf hdma hdone]
    by_cases hb : s.bufferedLength ≠ 0
    · rw [if_pos hb, if_pos hb, if_pos hb, h.sending_len hpc]
    · rw [if_neg hb, if_neg hb]
  refine { h with
    order := ?_, length_txBuf := ?_, take_txBuf := by simp, txBuf_eq := fun _ => hbuf
    frame_nil := nofun, txMsg_none := by simp, fetching_len := nofun, sending_len := nofun
    dma_pc := fun _ => rfl
    isr_pc := fun hi => absurd hi (by rw [hisr]; exact Bool.false_ne_true)
    posted := nofun, seqno_eq := ?_ }
  · have horder := h.order
    rw [pending_eq_frame hout] at horder
    rw [pending_eq_frame hout']
    exact horder
  · rw [hbuf, h.length_image]
  · have hseq := h.seqno_eq
    rw [if_neg fun hboth => hout hboth.1] at hseq
    exact hseq.trans (if_neg fun hboth => hout' hboth.1).symm

/-- The wait for the transfer is over. -/
theorem wait (h : s.Inv) (hpc : s.pc = .dma) (hisr : s.isrSem = true) :
    ({ s with isrSem := false, pc := .done } : SpiTx).Inv := by
  have hout : s.frameOut := Or.inr hisr
  have hd : s.dma = false := (h.isr_pc hisr).2
  refine { h with
    order := ?_, take_txBuf := by simp, txBuf_eq := fun _ => h.txBuf_eq (Or.inl hpc)
    frame_nil := nofun, txMsg_none := by simp, fetching_len := nofun, sending_len := nofun
    dma_pc := fun hdma => absurd hdma (by rw [hd]; exact Bool.false_ne_true)
    isr_pc := nofun, posted := nofun, seqno_eq := ?_ }
  · have horder := h.order
    rw [pending_eq_nil hout] at horder
    exact horder
  · have hseq := h.seqno_eq
    by_cases hb : s.bufferedLength ≠ 0
    · rw [if_pos ⟨hout, hb⟩] at hseq
      rw [if_pos ⟨Or.inl rfl, hb⟩]
      exact hseq
    · rw [if_neg fun hboth => hb hboth.2] at hseq
      rw [if_neg fun hboth => hb hboth.2]
      exact hseq

/-- What was sent is taken out of the buffer. -/
theorem reset (h : s.Inv) (hpc : s.pc = .done) :
    ({ s with
      bufferedLength := 0
      frame := []
      seqno := if s.bufferedLength ≠ 0 then nextSeqno s.seqno else s.seqno
      pc := .handling } : SpiTx).Inv := by
  have hout : s.frameOut := Or.inl hpc
  have hdma : s.pc ≠ .dma := by rw [hpc]; decide
  refine { h with
    order := ?_, buffered := rfl, buffered_le := Nat.zero_le _, frame_valid := nofun
    take_txBuf := fun _ _ => rfl, txBuf_eq := by simp
    frame_nil := fun _ => rfl, txMsg_none := by simp, fetching_len := nofun, sending_len := nofun
    dma_pc := fun hd => absurd (h.dma_pc hd) hdma
    isr_pc := fun hi => absurd (h.isr_pc hi).1 hdma
    posted := nofun, seqno_eq := ?_, seqno_lt := ?_ }
  · have horder := h.order
    rw [pending_eq_nil hout] at horder
    rw [pending]
    rw [ite_self]
    exact horder
  · have hseq := h.seqno_eq
    refine Eq.trans ?_ (if_neg fun hboth => hboth.2 rfl).symm
    by_cases hb : s.bufferedLength ≠ 0
    · rw [if_pos ⟨hout, hb⟩] at hseq
      exact hseq.trans (if_pos hb).symm
    · rw [if_neg fun hboth => hb hboth.2] at hseq
      exact hseq.trans (if_neg hb).symm
  · have hlt := h.seqno_lt
    simp only [nextSeqno]
    split
    · split <;> omega
    · exact hlt

end SpiTx.Inv

/-! ### All runs -/

/-- After every received frame the semaphore is posted. -/
theorem handleRx_snd (state : SpiState) (rx : RxFrame) : (handleRx state rx).2 = true := by
  cases state <;> simp only [handleRx, apply_ite Prod.snd, ite_self]

/-- The thread keeps what is so between the steps. -/
theorem SpiTx.Inv.thread {s : SpiTx} (h : s.Inv) {level : Bool} {rx : RxFrame}
    (ht : spiThread level rx s = some t) : t.Inv := by
  cases hpc : s.pc with
  | waiting =>
    simp only [spiThread, hpc, ite_none_right_eq_some, Option.some.injEq] at ht
    obtain ⟨-, rfl⟩ := ht
    have hnil := h.frame_nil (by rw [hpc]; rfl)
    exact h.move (by simp [hpc]) (by simp [hpc]) (by decide) (by decide) (fun _ => hnil) (by simp)
      nofun nofun nofun
  | woken =>
    have hnil := h.frame_nil (by rw [hpc]; rfl)
    simp only [spiThread, hpc] at ht
    split at ht
    · obtain rfl := Option.some.inj ht
      exact h.move (by simp [hpc]) (by simp [hpc]) (by decide) (by decide) nofun (by simp)
        nofun nofun nofun
    · obtain rfl := Option.some.inj ht
      by_cases hnone : s.txMsg = none
      · rw [if_pos hnone]
        exact h.move (by simp [hpc]) (by simp [hpc]) (by decide) (by decide) (fun _ => hnil)
          (fun _ => hnone) nofun nofun nofun
      · rw [if_neg hnone]
        exact h.move (by simp [hpc]) (by simp [hpc]) (by decide) (by decide) nofun (by simp)
          nofun nofun nofun
  | checking =>
    have hnil := h.frame_nil (by rw [hpc]; rfl)
    have hnone := h.txMsg_none (Or.inl hpc)
    simp only [spiThread, hpc] at ht
    split at ht
    · -- the queue is empty: nothing is left to send, and the thread waits
      rename_i hq
      obtain rfl := Option.some.inj ht
      rw [if_pos (h.bufferedLength_eq_zero.mpr hnil)]
      refine h.move (by simp [hpc]) (by simp [hpc]) (by decide) (by decide) (fun _ => hnil)
        (by simp) nofun nofun ?_
      rintro _ _ (hne | hne)
      · exact absurd hq hne
      · exact absurd hnone hne
    · rename_i m q hq
      obtain rfl := Option.some.inj ht
      exact h.fetch (Or.inl hpc) hq
  | filling =>
    simp only [spiThread, hpc, Option.some.injEq] at ht
    exact ht ▸ h.fill hpc
  | fetching =>
    have hnone := h.txMsg_none (Or.inr hpc)
    simp only [spiThread, hpc] at ht
    split at ht
    · obtain rfl := Option.some.inj ht
      exact h.move (by simp [hpc]) (by simp [hpc]) (by decide) (by decide) nofun (by simp) nofun
        (fun _ => by rw [h.fetching_len hpc, hnone]; rfl) nofun
    · rename_i m q hq
      obtain rfl := Option.some.inj ht
      exact h.fetch (Or.inr hpc) hq
  | sending => exact h.send hpc ht
  | dma =>
    simp only [spiThread, hpc, ite_none_right_eq_some, Option.some.injEq] at ht
    obtain ⟨hisr, rfl⟩ := ht
    exact h.wait hpc hisr
  | done =>
    simp only [spiThread, hpc, Option.some.injEq] at ht
    exact ht ▸ h.reset hpc
  | handling =>
    simp only [spiThread, hpc, handleRx_snd, Bool.or_true, Option.some.injEq] at ht
    subst ht
    have hnil := h.frame_nil (by rw [hpc]; rfl)
    exact h.move (by simp [hpc]) (by simp [hpc]) (by decide) (by decide) (fun _ => hnil) (by simp)
      nofun nofun nofun

/-- Every step without a timeout keeps it. -/
theorem SpiTx.Inv.step {s : SpiTx} {i : SpiTxStep} (h : s.Inv) (hok : i.Ok)
    (ht : spiTxStep i s = some t) : t.Inv := by
  cases i with
  | call cmd crc32 buf mem =>
    obtain rfl := Option.some.inj ht
    exact h.call hok.1 hok.2
  | post =>
    simp only [spiTxStep, ite_none_right_eq_some, Option.some.injEq] at ht
    exact ht.2 ▸ h.post
  | masterWrite level =>
    obtain rfl := Option.some.inj ht
    exact h.masterWrite level
  | dmaDone =>
    simp only [spiTxStep, ite_none_right_eq_some, Option.some.injEq] at ht
    exact ht.2 ▸ h.dmaDone ht.1
  | thread level rx => exact h.thread ht
  | timeout => exact hok.elim

/-- It is so in every run without a timeout. -/
theorem SpiTx.inv_reach {s : SpiTx}
    (h : Machine.Reach spiTxStep (fun _ i => i.Ok) spiTxInit s) : s.Inv :=
  h.invariant SpiTx.inv_init fun h hok ht => h.step hok ht

/-- **Messages leave in order and once.** In every run without a timeout every message accepted
has been sent, is in the buffer, is held or is queued, in this order; every frame with messages is
read as whole messages and a control header with the frame's number, which says whether a message
was left over; what is buffered leaves room for the control header; when the thread blocks while a
message waits, the semaphore is about to be posted; and when it blocks and no call is under way,
everything accepted has been sent. -/
theorem transmit_right {s : SpiTx}
    (h : Machine.Reach spiTxStep (fun _ i => i.Ok) spiTxInit s) :
    s.accepted = s.sentMsgs ++ s.pending ++ s.txMsg.toList ++ s.queue ∧
      (∀ (k : ℕ) (f : SentFrame), s.dataFrames[k]? = some f → f.Reads k) ∧
      s.bufferedLength ≤ 1588 ∧
      (s.pc = .waiting → s.workSem = false → s.queue ≠ [] ∨ s.txMsg ≠ none → 0 < s.posting) ∧
      (s.pc = .waiting → s.workSem = false → s.posting = 0 → s.sentMsgs = s.accepted) := by
  have hinv := SpiTx.inv_reach h
  refine ⟨hinv.order, hinv.reads, hinv.buffered_le, hinv.posted, ?_⟩
  intro hpc hsem hpost
  have hnone : ¬ (s.queue ≠ [] ∨ s.txMsg ≠ none) := by
    intro hsome
    have := hinv.posted hpc hsem hsome
    omega
  rw [not_or, not_not, not_not] at hnone
  have horder := hinv.order
  rw [hnone.1, hnone.2, SpiTx.pending, hinv.frame_nil (by rw [hpc]; rfl), ite_self] at horder
  simpa using horder.symm

instance : DecidablePred SpiTxStep.Ok
  | .call _ _ _ _ => inferInstanceAs (Decidable (_ ∧ _))
  | .post => .isTrue trivial
  | .masterWrite _ => .isTrue trivial
  | .dmaDone => .isTrue trivial
  | .thread _ _ => .isTrue trivial
  | .timeout => .isFalse id

/-- One message, from the call to the end of its transfer. -/
def oneMessage : List SpiTxStep :=
  let idle : RxFrame := ⟨0, 0, 0, 0⟩
  [.call dataCmd 1 [1] true, .post] ++ List.replicate 6 (.thread false idle) ++ [.dmaDone] ++
    List.replicate 3 (.thread false idle)

theorem transmit_right_oneMessage :
    ∃ s, Machine.run spiTxStep oneMessage spiTxInit = some s ∧
      s.sentMsgs = [⟨dataCmd, 1, [1]⟩] ∧ s.sentMsgs <+: s.accepted := by
  have h : (Machine.run spiTxStep oneMessage spiTxInit).map (fun s => s.sentMsgs) =
      some [⟨dataCmd, 1, [1]⟩] := by
    decide +kernel
  rw [map_eq_some_iff] at h
  obtain ⟨s, hs, hsent⟩ := h
  refine ⟨s, hs, hsent, ?_⟩
  rw [(transmit_right (.of_run_of_forall hs (by decide))).1, append_assoc, append_assoc]
  exact prefix_append _ _

end Gd32.Mm
