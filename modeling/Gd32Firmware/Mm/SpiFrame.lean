import Gd32Firmware.Lib.LittleEndian

/-!
# What an SPI frame holds

A frame of `mm_spi.c` is a buffer of 1600 bytes: messages, each a header of 12 bytes and its data,
then a control header with the number of the frame and whether a message is left over, then zeros.
`parseFrame` reads a frame as the other side does, and reads back what was put in
(`parseFrame_frame`).
-/

namespace Gd32.Mm

open List

def trxBufSize : ℕ := 1600

def tuyaHeaderLength : ℕ := 12

/-- `MAX_SPI_PAYLOAD_LEN`, with `SPI_PIECING_ENABLE`. -/
def maxSpiPayloadLen : ℕ := trxBufSize - 2 * tuyaHeaderLength

def dataEth : UInt8 := 0xAA

def dataCmd : UInt8 := 0xBB

def dataControl : UInt8 := 0xCC

/-- `struct mm_data_header`. -/
def mmDataHeader (cmd : UInt8) (len crc32 : ℕ) : List UInt8 :=
  [cmd, 0, 0, 0] ++ LittleEndian.bytes 4 len ++ LittleEndian.bytes 4 crc32

/-- A message; `len` is the length of its data. -/
structure Msg where
  /-- `cmd[0]`. -/
  cmd : UInt8
  crc32 : ℕ
  data : List UInt8
  deriving DecidableEq

def Msg.len (m : Msg) : ℕ := m.data.length

/-- The message as it stands in memory. -/
def Msg.bytes (m : Msg) : List UInt8 := mmDataHeader m.cmd m.len m.crc32 ++ m.data

/-- The control message. -/
structure Control where
  /-- `crc32`, the number of the frame. -/
  crc32 : ℕ
  len : ℕ

/-- The control message as it stands in memory. -/
def Control.bytes (c : Control) : List UInt8 := mmDataHeader dataControl c.len c.crc32

/-- What the other side can tell apart: the kind, the length and the checksum fit their fields. -/
structure Msg.Valid (m : Msg) : Prop where
  kind : m.cmd = dataEth ∨ m.cmd = dataCmd
  len_le : m.len ≤ maxSpiPayloadLen
  crc32_lt : m.crc32 < 2 ^ 32

/-- A frame read from the front: whole messages up to a control header; at most `n` headers. -/
def parseFrame : ℕ → List UInt8 → Option (List Msg × Control)
  | 0, _ => none
  | n + 1, buf =>
    let len := LittleEndian.value ((buf.drop 4).take 4)
    let crc32 := LittleEndian.value ((buf.drop 8).take 4)
    let rest := buf.drop tuyaHeaderLength
    if buf.length < tuyaHeaderLength then none
    else if buf.head? = some dataControl then some ([], ⟨crc32, len⟩)
    else if (buf.head? = some dataEth ∨ buf.head? = some dataCmd) ∧ len ≤ rest.length then
      (parseFrame n (rest.drop len)).map fun r =>
        (⟨buf.headD 0, crc32, rest.take len⟩ :: r.1, r.2)
    else none

section Header

variable {cmd : UInt8} {len crc32 : ℕ} {rest : List UInt8}

@[simp] theorem length_mmDataHeader : (mmDataHeader cmd len crc32).length = tuyaHeaderLength := by
  simp [mmDataHeader, tuyaHeaderLength]

theorem head_mmDataHeader : (mmDataHeader cmd len crc32 ++ rest).head? = some cmd := rfl

theorem headD_mmDataHeader : (mmDataHeader cmd len crc32 ++ rest).headD 0 = cmd := rfl

/-- The length is read back. -/
theorem len_mmDataHeader (h : len < 2 ^ 32) :
    LittleEndian.value (((mmDataHeader cmd len crc32 ++ rest).drop 4).take 4) = len := by
  have : ((mmDataHeader cmd len crc32 ++ rest).drop 4) =
      LittleEndian.bytes 4 len ++ (LittleEndian.bytes 4 crc32 ++ rest) := by
    simp [mmDataHeader]
  rw [this, take_append_of_le_length (by simp), take_of_length_le (by simp)]
  exact LittleEndian.value_bytes (by omega)

/-- The checksum is read back. -/
theorem crc32_mmDataHeader (h : crc32 < 2 ^ 32) :
    LittleEndian.value (((mmDataHeader cmd len crc32 ++ rest).drop 8).take 4) = crc32 := by
  have : ((mmDataHeader cmd len crc32 ++ rest).drop 8) =
      LittleEndian.bytes 4 crc32 ++ rest := by
    have h8 : (8 : ℕ) = ([cmd, 0, 0, 0] ++ LittleEndian.bytes 4 len).length := by simp
    rw [mmDataHeader, append_assoc, h8, drop_left]
  rw [this, take_append_of_le_length (by simp), take_of_length_le (by simp)]
  exact LittleEndian.value_bytes (by omega)

theorem drop_mmDataHeader : (mmDataHeader cmd len crc32 ++ rest).drop tuyaHeaderLength = rest := by
  rw [← length_mmDataHeader, drop_left]

end Header

/-- The bytes of some messages. -/
def msgsBytes (msgs : List Msg) : List UInt8 := (msgs.map Msg.bytes).flatten

@[simp] theorem msgsBytes_nil : msgsBytes [] = [] := rfl

theorem msgsBytes_cons (m : Msg) (msgs : List Msg) :
    msgsBytes (m :: msgs) = m.bytes ++ msgsBytes msgs := rfl

theorem msgsBytes_append (msgs : List Msg) (m : Msg) :
    msgsBytes (msgs ++ [m]) = msgsBytes msgs ++ m.bytes := by
  simp [msgsBytes]

theorem Msg.length_bytes (m : Msg) : m.bytes.length = m.len + tuyaHeaderLength := by
  rw [Msg.bytes, length_append, length_mmDataHeader, Msg.len, Nat.add_comm]

/-- **A frame reads back** as the messages and the control header put into it. -/
theorem parseFrame_frame {msgs : List Msg} (h : ∀ m ∈ msgs, m.Valid) {c : Control}
    (hcrc : c.crc32 < 2 ^ 32) (hlen : c.len < 2 ^ 32) (rest : List UInt8) {n : ℕ}
    (hn : msgs.length < n) :
    parseFrame n (msgsBytes msgs ++ (c.bytes ++ rest)) = some (msgs, c) := by
  induction msgs generalizing n with
  | nil =>
    obtain ⟨n, rfl⟩ : ∃ k, n = k + 1 := ⟨n - 1, by simp only [length_nil] at hn; omega⟩
    rw [msgsBytes_nil, nil_append, parseFrame, Control.bytes]
    rw [if_neg (by simp), head_mmDataHeader, if_pos rfl, len_mmDataHeader hlen,
      crc32_mmDataHeader hcrc]
  | cons m msgs ih =>
    obtain ⟨n, rfl⟩ : ∃ k, n = k + 1 := ⟨n - 1, by rw [length_cons] at hn; omega⟩
    have hm := h m mem_cons_self
    have hmax : maxSpiPayloadLen < 2 ^ 32 := by decide
    have hkind : m.cmd ≠ dataControl := by
      rcases hm.kind with hk | hk <;> rw [hk] <;> decide
    have hlt : m.len < 2 ^ 32 := Nat.lt_of_le_of_lt hm.len_le hmax
    rw [msgsBytes_cons, append_assoc, Msg.bytes, append_assoc, parseFrame]
    rw [if_neg (by simp), head_mmDataHeader, if_neg (by simpa using hkind), len_mmDataHeader hlt,
      crc32_mmDataHeader hm.crc32_lt, drop_mmDataHeader, headD_mmDataHeader, if_pos]
    · rw [Msg.len, drop_left, take_left,
        ih (fun x hx => h x (mem_cons_of_mem _ hx)) (by rw [length_cons] at hn; omega)]
      rfl
    · refine ⟨?_, ?_⟩
      · rcases hm.kind with hk | hk
        · exact Or.inl (by rw [hk])
        · exact Or.inr (by rw [hk])
      · rw [length_append]
        exact Nat.le_add_right _ _

end Gd32.Mm
