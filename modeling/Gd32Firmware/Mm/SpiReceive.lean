import Gd32Firmware.Config
import Gd32Firmware.Mm.SpiTransmit

/-!
# The receive path of the SPI

What `spi_thread_handler` of `mm_spi.c` does with a received buffer of 1600 bytes, and the way of a
command from there through `ty_icc_rx_queue` and `ty_icc_rx_process` of `mm_icc.c` to the text that
`ty_lp_proto_cs_data_parse` of `mm_cmd_parse.c` has parsed.

The length in the header is added to the size of the header as a number of 32 bits, only one of the
two directions looks at the checksum, and the text is sent without its terminator.
`receive_right_iff` says for which buffers none of this matters.
-/

namespace Gd32.Mm

open List

/-! ### The code -/

def maxIccSendLen : ℕ := 1600

def maxIccDataLen : ℕ := maxIccSendLen - tuyaHeaderLength

def lpProtoHeadMark : ℕ := 0x12345678

/-- `sizeof (TY_LP_PROTO_CMD_HEAD_T)`, which is packed. -/
def lpProtoHeadSize : ℕ := 10

/-- `len` of the header at the start of a buffer. -/
def headLen (buf : List UInt8) : ℕ := LittleEndian.value ((buf.drop 4).take 4)

/-- `crc32` of the header at the start of a buffer. -/
def headCrc32 (buf : List UInt8) : ℕ := LittleEndian.value ((buf.drop 8).take 4)

/-- The loop that adds up `len` bytes behind the header; `none` if it leaves the buffer. -/
def checkSum (buf : List UInt8) (len : ℕ) : Option ℕ :=
  if tuyaHeaderLength + len ≤ buf.length then
    some (((buf.drop tuyaHeaderLength).take len).foldl (fun crcCs b => u32 (crcCs + b.toNat)) 0)
  else none

/-- What is done with a received buffer. -/
inductive Received where
  /-- `send_pack_to_wifi`, with the data that it passes on, if any. -/
  | wifi (data : Option (List UInt8))
  /-- `ty_icc_recv` of the start of the buffer, with the size. -/
  | recv (size : ℕ)
  | refused
  | restart
  | idle
  deriving DecidableEq

def sendPackToWifi (buf : List UInt8) : Option (List UInt8) :=
  if 2 ^ 31 ≤ headLen buf ∨ maxIccDataLen < headLen buf then none
  else some ((buf.drop tuyaHeaderLength).take (headLen buf))

/-- The branch of `spi_thread_handler` for a received buffer; `none` if a byte outside of it is
read. -/
def receiveFrame (state : SpiState) (buf : List UInt8) : Option Received :=
  let total := u32 (headLen buf + tuyaHeaderLength)
  match state with
  | .reading =>
    if buf.headD 0 = dataEth then some (.wifi (sendPackToWifi buf))
    else if buf.headD 0 = dataCmd then
      if headCrc32 buf ≠ 0 then
        match if total ≤ maxIccSendLen then checkSum buf (headLen buf) else some 0 with
        | none => none
        | some crcCs =>
          if headCrc32 buf ≠ crcCs then some .refused
          else if maxIccSendLen < total then some .refused
          else some (.recv total)
      else if maxIccSendLen < total then some .refused
      else some (.recv total)
    else if buf.headD 0 ≠ 0 ∧ buf.headD 0 ≠ 0xFF then some .restart
    else some .idle
  | .writing =>
    if buf.headD 0 = dataEth then some (.wifi (sendPackToWifi buf))
    else if buf.headD 0 = dataCmd then
      if total ≤ maxIccSendLen then some (.recv total) else some .refused
    else some .idle

/-- `ty_icc_rx_queue`: the block that is posted, if there is memory for it and room in the queue. -/
def tyIccRxQueue (mem room : Bool) (buf : List UInt8) (size : ℕ) : Option (List UInt8) :=
  if size = 0 then none
  else if mem then if room then some (buf.take size) else none
  else none

/-- `ty_lp_proto_cs_data_parse`: the text that `cJSON_Parse` gets, if it is called, up to the end of
the block that it stands in. -/
def csDataParse (data : List UInt8) (len : ℤ) : Option (List UInt8) :=
  if len < lpProtoHeadSize then none
  else if LittleEndian.value (data.take 4) ≠ lpProtoHeadMark then none
  else if data.getD 5 0 = 0 then some (data.drop lpProtoHeadSize)
  else none

/-- One pass of `ty_icc_rx_process`; the length becomes an `int`. -/
def iccRxProcess (msg : List UInt8) : Option (List UInt8) :=
  csDataParse (msg.drop tuyaHeaderLength) (Int.bmod (headLen msg) (2 ^ 32))

/-- `__lp_proto_data_pack_and_send`, with the version and the type of the head: the data and the
checksum that `cmd_to_spi` gets. -/
def dataPackAndSend (version payLoadType : UInt8) (data : List UInt8) : List UInt8 × ℕ :=
  let sendBuff := LittleEndian.bytes 4 lpProtoHeadMark ++ [version, payLoadType] ++
    LittleEndian.bytes 4 data.length ++ data
  (sendBuff, sendBuff.foldl (fun crcCs b => u32 (crcCs + b.toNat)) 0)

/-! ### What is to be so -/

/-- The `len` bytes behind the header. -/
def payload (buf : List UInt8) : List UInt8 := (buf.drop tuyaHeaderLength).take (headLen buf)

/-- The checksum is left out or right. -/
def ChecksumOk (buf : List UInt8) : Prop :=
  headCrc32 buf = 0 ∨ headCrc32 buf = ((payload buf).map UInt8.toNat).sum

/-- The buffer is handed to `ty_icc_recv`. -/
def Hands (state : SpiState) (buf : List UInt8) : Prop :=
  ∃ size, receiveFrame state buf = some (.recv size)

/-- **Received frames are treated right**: nothing outside of the buffer is read, commands are
handed on just if they fit into the buffer and have no wrong checksum, in both directions alike, and
a text that is parsed ends in the block that was allocated for it. -/
structure ReceiveRight (buf : List UInt8) : Prop where
  inside : ∀ state, receiveFrame state buf ≠ none
  handed : buf.headD 0 = dataCmd → ∀ state,
    Hands state buf ↔ headLen buf + tuyaHeaderLength ≤ trxBufSize ∧ ChecksumOk buf
  alike : Hands .reading buf ↔ Hands .writing buf
  terminated : ∀ state size, receiveFrame state buf = some (.recv size) →
    ∀ mem room msg, tyIccRxQueue mem room buf size = some msg →
      ∀ text, iccRxProcess msg = some text → 0 ∈ text

/-- The payload is text, to `ty_lp_proto_cs_data_parse`. -/
def IsJson (data : List UInt8) : Prop :=
  lpProtoHeadSize ≤ data.length ∧ LittleEndian.value (data.take 4) = lpProtoHeadMark ∧
    data.getD 5 0 = 0

instance (buf : List UInt8) : Decidable (ChecksumOk buf) := inferInstanceAs (Decidable (_ ∨ _))

instance (data : List UInt8) : Decidable (IsJson data) :=
  inferInstanceAs (Decidable (_ ∧ _ ∧ _))

/-- A buffer that is no command; or one whose length stays in 32 bits with the header and which, if
it fits, has no wrong checksum and, if it is text, a zero behind the head. -/
def Harmless (buf : List UInt8) : Prop :=
  buf.headD 0 = dataCmd → headLen buf + tuyaHeaderLength < 2 ^ 32 ∧
    (headLen buf + tuyaHeaderLength ≤ trxBufSize →
      ChecksumOk buf ∧ (IsJson (payload buf) → 0 ∈ (payload buf).drop lpProtoHeadSize))

instance (buf : List UInt8) : Decidable (Harmless buf) :=
  inferInstanceAs (Decidable (_ → _ ∧ (_ → _ ∧ (_ → _))))

/-! ### Lengths and sums -/

section Frames

variable {buf : List UInt8} {state : SpiState}

theorem headLen_lt (buf : List UInt8) : headLen buf < 2 ^ 32 := by
  have hlt := LittleEndian.value_lt ((buf.drop 4).take 4)
  have hle : 256 ^ ((buf.drop 4).take 4).length ≤ 256 ^ 4 :=
    Nat.pow_le_pow_right (by decide) (length_take_le _ _)
  exact lt_of_lt_of_le hlt hle

theorem foldl_checksum (data : List UInt8) (c : ℕ) :
    data.foldl (fun crcCs b => u32 (crcCs + b.toNat)) (u32 c) =
      u32 (c + (data.map UInt8.toNat).sum) := by
  induction data generalizing c with
  | nil => rfl
  | cons b data ih =>
    rw [foldl_cons, map_cons, sum_cons, ← add_assoc, ← ih]
    congr 1
    exact (Nat.mod_add_mod ..)

theorem sum_le (data : List UInt8) : (data.map UInt8.toNat).sum ≤ 255 * data.length := by
  induction data with
  | nil => rfl
  | cons b data ih =>
    have hb := b.toNat_lt
    rw [map_cons, sum_cons, length_cons]
    omega

/-- The checksum of a frame that fits. -/
theorem checkSum_eq (hbuf : buf.length = trxBufSize)
    (hfit : headLen buf + tuyaHeaderLength ≤ trxBufSize) :
    checkSum buf (headLen buf) = some ((payload buf).map UInt8.toNat).sum := by
  have hlength : (payload buf).length = headLen buf := by
    rw [payload, length_take, length_drop]
    omega
  have hsum := sum_le (payload buf)
  have hlt : ((payload buf).map UInt8.toNat).sum < 2 ^ 32 := by
    simp only [trxBufSize] at hfit
    omega
  have hfold := foldl_checksum (payload buf) 0
  rw [zero_add, u32_of_lt hlt] at hfold
  rw [checkSum, if_pos (by omega)]
  exact congrArg some hfold


/-- **What becomes of a command** whose length does not wrap around with the header. -/
theorem receiveFrame_cmd (hbuf : buf.length = trxBufSize) (hcmd : buf.headD 0 = dataCmd)
    (hwrap : headLen buf + tuyaHeaderLength < 2 ^ 32) (state : SpiState) :
    receiveFrame state buf =
      if headLen buf + tuyaHeaderLength ≤ trxBufSize ∧ (state = .reading → ChecksumOk buf) then
        some (.recv (headLen buf + tuyaHeaderLength))
      else some .refused := by
  have heth : ¬buf.headD 0 = dataEth := by
    rw [hcmd]
    decide
  have hmax : maxIccSendLen = trxBufSize := rfl
  cases state with
  | writing =>
    simp only [receiveFrame, u32_of_lt hwrap, if_neg heth, if_pos hcmd, hmax, reduceCtorEq,
      false_imp_iff, and_true]
  | reading =>
    simp only [receiveFrame, u32_of_lt hwrap, if_neg heth, if_pos hcmd, hmax, true_imp_iff]
    by_cases hfit : headLen buf + tuyaHeaderLength ≤ trxBufSize
    · have hlong : ¬trxBufSize < headLen buf + tuyaHeaderLength := not_lt.mpr hfit
      simp only [if_pos hfit, checkSum_eq hbuf hfit, if_neg hlong, and_iff_right hfit, ChecksumOk]
      by_cases hzero : headCrc32 buf = 0
      · rw [if_neg (not_not.mpr hzero), if_pos (.inl hzero)]
      · simp only [if_pos hzero, or_iff_right hzero, ite_not]
    · -- the length is refused, with or without a checksum
      have hlong : trxBufSize < headLen buf + tuyaHeaderLength := not_le.mp hfit
      simp only [if_neg hfit, if_pos hlong, ite_self, if_neg (mt And.left hfit)]

/-- What is not a command is not handed on. -/
theorem receiveFrame_other (hcmd : buf.headD 0 ≠ dataCmd) (state : SpiState) :
    ∃ r, receiveFrame state buf = some r ∧ ∀ size, r ≠ .recv size := by
  cases state with
  | writing =>
    simp only [receiveFrame, if_neg hcmd]
    split_ifs
    · exact ⟨_, rfl, fun _ => nofun⟩
    · exact ⟨_, rfl, fun _ => nofun⟩
  | reading =>
    simp only [receiveFrame, if_neg hcmd]
    split_ifs
    · exact ⟨_, rfl, fun _ => nofun⟩
    · exact ⟨_, rfl, fun _ => nofun⟩
    · exact ⟨_, rfl, fun _ => nofun⟩

/-- A length that wraps around with the header is handed on when the SPI is writing. -/
theorem receiveFrame_wraps (hcmd : buf.headD 0 = dataCmd)
    (hwrap : 2 ^ 32 ≤ headLen buf + tuyaHeaderLength) : Hands .writing buf := by
  have heth : ¬buf.headD 0 = dataEth := by
    rw [hcmd]
    decide
  have hlen := headLen_lt buf
  have htotal : u32 (headLen buf + tuyaHeaderLength) ≤ maxIccSendLen := by
    simp only [u32, tuyaHeaderLength, maxIccSendLen] at *
    omega
  refine ⟨u32 (headLen buf + tuyaHeaderLength), ?_⟩
  simp only [receiveFrame, if_neg heth, if_pos hcmd, if_pos htotal]

/-! ### The way of a command -/

theorem length_payload (hbuf : buf.length = trxBufSize)
    (hfit : headLen buf + tuyaHeaderLength ≤ trxBufSize) : (payload buf).length = headLen buf := by
  rw [payload, length_take, length_drop]
  omega

theorem block_of_tyIccRxQueue {mem room : Bool} {size : ℕ} {msg : List UInt8}
    (h : tyIccRxQueue mem room buf size = some msg) : msg = buf.take size := by
  rw [tyIccRxQueue] at h
  split_ifs at h
  exact (Option.some.inj h).symm

/-- **What is parsed** is the payload of the frame. -/
theorem iccRxProcess_take (hbuf : buf.length = trxBufSize)
    (hfit : headLen buf + tuyaHeaderLength ≤ trxBufSize) :
    iccRxProcess (buf.take (headLen buf + tuyaHeaderLength)) =
      if IsJson (payload buf) then some ((payload buf).drop lpProtoHeadSize) else none := by
  have hdata : (buf.take (headLen buf + tuyaHeaderLength)).drop tuyaHeaderLength = payload buf := by
    rw [drop_take, Nat.add_sub_cancel, payload]
  have hlen : headLen (buf.take (headLen buf + tuyaHeaderLength)) = headLen buf := by
    rw [headLen, drop_take, take_take, min_eq_left]
    · rfl
    · simp only [tuyaHeaderLength]
      omega
  have hint : Int.bmod (headLen buf) (2 ^ 32) = headLen buf := by
    simp only [trxBufSize] at hfit
    rw [Int.bmod_eq_of_le] <;> omega
  have hlength := length_payload hbuf hfit
  rw [iccRxProcess, hdata, hlen, hint, csDataParse]
  by_cases hhead : lpProtoHeadSize ≤ headLen buf
  · rw [if_neg (by omega)]
    by_cases hmark : LittleEndian.value ((payload buf).take 4) = lpProtoHeadMark
    · rw [if_neg (not_not.mpr hmark)]
      simp only [IsJson, hlength, hhead, hmark, true_and]
    · rw [if_pos hmark, if_neg fun h => hmark h.2.1]
  · rw [if_pos (by omega), if_neg fun h => hhead (hlength ▸ h.1)]

/-- **Received frames are treated right** if they are harmless. -/
theorem receive_right_iff (hbuf : buf.length = trxBufSize) : ReceiveRight buf ↔ Harmless buf := by
  constructor
  · intro h hcmd
    have hwrap : headLen buf + tuyaHeaderLength < 2 ^ 32 := by
      by_contra hwrap
      have hfit := ((h.handed hcmd .writing).mp (receiveFrame_wraps hcmd (not_lt.mp hwrap))).1
      simp only [trxBufSize] at hfit
      omega
    refine ⟨hwrap, fun hfit => ?_⟩
    have hwriting : receiveFrame .writing buf = some (.recv (headLen buf + tuyaHeaderLength)) := by
      rw [receiveFrame_cmd hbuf hcmd hwrap, if_pos ⟨hfit, nofun⟩]
    refine ⟨((h.handed hcmd .writing).mp ⟨_, hwriting⟩).2, fun hjson => ?_⟩
    refine h.terminated .writing _ hwriting true true _ rfl _ ?_
    rw [iccRxProcess_take hbuf hfit, if_pos hjson]
  · intro h
    by_cases hcmd : buf.headD 0 = dataCmd
    · obtain ⟨hwrap, hfits⟩ := h hcmd
      have hframe := receiveFrame_cmd hbuf hcmd hwrap
      have hhands : ∀ state, Hands state buf ↔
          headLen buf + tuyaHeaderLength ≤ trxBufSize ∧ ChecksumOk buf := by
        intro state
        simp only [Hands, hframe]
        constructor
        · rintro ⟨size, hsize⟩
          split_ifs at hsize with hok
          · exact ⟨hok.1, (hfits hok.1).1⟩
          · cases hsize
        · rintro ⟨hfit, hsum⟩
          exact ⟨_, if_pos ⟨hfit, fun _ => hsum⟩⟩
      refine ⟨fun state => ?_, fun _ => hhands, by rw [hhands, hhands], ?_⟩
      · rw [hframe]
        split_ifs
        · exact Option.some_ne_none _
        · exact Option.some_ne_none _
      · intro state size hrecv mem room msg hmsg text htext
        rw [hframe] at hrecv
        split_ifs at hrecv with hok
        · obtain rfl : headLen buf + tuyaHeaderLength = size :=
            Received.recv.inj (Option.some.inj hrecv)
          obtain rfl := block_of_tyIccRxQueue hmsg
          rw [iccRxProcess_take hbuf hok.1] at htext
          split_ifs at htext with hjson
          obtain rfl := Option.some.inj htext
          exact (hfits hok.1).2 hjson
        · cases hrecv
    · have hother := receiveFrame_other hcmd
      have hno : ∀ state, ¬Hands state buf := by
        rintro state ⟨size, hsize⟩
        obtain ⟨r, hr, hne⟩ := hother state
        exact hne size (Option.some.inj (hr.symm.trans hsize))
      refine ⟨fun state => ?_, fun hc => absurd hc hcmd, iff_of_false (hno _) (hno _), ?_⟩
      · obtain ⟨r, hr, -⟩ := hother state
        rw [hr]
        exact Option.some_ne_none r
      · intro state size hrecv
        exact absurd ⟨size, hrecv⟩ (hno state)

/-- **A command as `__lp_proto_data_pack_and_send` packs it** is not treated right: its text has no
terminator. -/
theorem not_receiveRight_pack {version : UInt8} {data rest : List UInt8} (hdata : 0 ∉ data)
    (hbuf : buf.length = trxBufSize)
    (heq : buf = (Msg.mk dataCmd (dataPackAndSend version 0 data).2
      (dataPackAndSend version 0 data).1).bytes ++ rest) : ¬ReceiveRight buf := by
  have hsend : (dataPackAndSend version 0 data).1 =
      LittleEndian.bytes 4 lpProtoHeadMark ++ [version, 0] ++ LittleEndian.bytes 4 data.length ++
        data := rfl
  generalize (dataPackAndSend version 0 data).2 = crc at heq
  generalize (dataPackAndSend version 0 data).1 = send at heq hsend
  have hbytes : buf = mmDataHeader dataCmd send.length crc ++ (send ++ rest) := by
    rw [heq, Msg.bytes, append_assoc]
    rfl
  have hsize : send.length = lpProtoHeadSize + data.length := by
    rw [hsend]
    simp [lpProtoHeadSize]
    omega
  have hfit : send.length + tuyaHeaderLength ≤ trxBufSize := by
    rw [← hbuf, hbytes, length_append, length_append, length_mmDataHeader]
    omega
  have hlt : send.length + tuyaHeaderLength < 2 ^ 32 := lt_of_le_of_lt hfit (by decide)
  have hlen : headLen buf = send.length := by
    rw [headLen, hbytes]
    exact len_mmDataHeader (by omega)
  have hcmd : buf.headD 0 = dataCmd := by
    rw [hbytes]
    exact headD_mmDataHeader
  have hpayload : payload buf = send := by
    rw [payload, hlen, hbytes, drop_mmDataHeader, take_left]
  have hjson : IsJson send := by
    refine ⟨by omega, ?_, ?_⟩
    · rw [hsend]
      exact LittleEndian.value_bytes (n := 4) (by decide)
    · rw [hsend]
      rfl
  rw [← hlen] at hfit hlt
  have hwriting : receiveFrame .writing buf = some (.recv (headLen buf + tuyaHeaderLength)) := by
    rw [receiveFrame_cmd hbuf hcmd hlt, if_pos ⟨hfit, fun hreading => by cases hreading⟩]
  intro h
  refine hdata ?_
  have hzero := h.terminated .writing _ hwriting true true _ rfl (send.drop lpProtoHeadSize) (by
    rw [iccRxProcess_take hbuf hfit, hpayload, if_pos hjson])
  rwa [hsend] at hzero

theorem not_receiveRight_pack_braces :
    ¬ReceiveRight ((Msg.mk dataCmd (dataPackAndSend 0 0 [0x7b, 0x7d]).2
      (dataPackAndSend 0 0 [0x7b, 0x7d]).1).bytes ++ List.replicate 1576 0) :=
  not_receiveRight_pack (by decide) (by decide +kernel) rfl

/-- A text with its terminator, as a frame. -/
def terminatedFrame : List UInt8 :=
  (Msg.mk dataCmd 527 (LittleEndian.bytes 4 lpProtoHeadMark ++ [0, 0] ++ LittleEndian.bytes 4 3 ++
    [0x7b, 0x7d, 0])).bytes ++ List.replicate 1575 0

theorem receive_right_iff_terminatedFrame : ReceiveRight terminatedFrame :=
  (receive_right_iff (by decide +kernel)).mpr (by decide +kernel)

/-- A length that wraps around has the thread read on behind the buffer; a wrong checksum is not
noticed when the SPI is writing; and a text may come without a terminator. -/
theorem not_receive_right :
    ¬ReceiveRight (mmDataHeader dataCmd (2 ^ 32 - 1) 1 ++ List.replicate 1588 0) ∧
    ¬ReceiveRight (mmDataHeader dataCmd 1 1 ++ List.replicate 1588 0) ∧
    ¬ReceiveRight ((Msg.mk dataCmd 526 (dataPackAndSend 0 0 [0x7b, 0x7d]).1).bytes ++
      List.replicate 1576 0) := by
  refine ⟨fun h => ?_, fun h => ?_, fun h => ?_⟩
  · exact h.inside .reading (by decide +kernel)
  · have hok := ((h.handed rfl .writing).mp ⟨13, by decide +kernel⟩).2
    exact absurd hok (by decide +kernel)
  · have hzero := h.terminated .reading 24 (by decide +kernel) true true _ rfl [0x7b, 0x7d]
      (by decide +kernel)
    exact absurd hzero (by decide)

end Frames

end Gd32.Mm
