import Gd32Firmware.Ble.Courier
import Gd32Firmware.Lib.Machine

/-!
# What the blue courier reads and where it copies

`bcwl_receive` of `app_blue_courier_link.c` once more, this time with the bytes it touches. The
length of a fragment, the length of the message and the flags are the peer's; what lies behind the
value that was written is not. A value is checked for the four bytes of its header only: the
checksum of `data_len` bytes is computed without looking whether they came
(`BcwReceive.bcwlReceive`).

A start fragment with no byte of the message leaves the offset at 0 and the next one allocates
again, one with less than the two bytes of the length copies a negative number of bytes, and one
with more than the message has copies them all. A sequence of writes and connections is safe exactly
as long as none of this happens (`BcwReceive.reception_safe_iff`).

What is sent in return does not touch what is kept here.
-/

namespace Gd32

open List Option

variable {i : ℕ} {t : Reception} {a : ReceiveAction}

namespace BcwReceive

/-! ### What is kept -/

/-- What `recv_buf` points to. A byte that nothing was copied to is unknown. -/
structure RecvBuf where
  id : ℕ
  size : ℕ
  mem : ℕ → Option UInt8

/-- What is done. -/
inductive ReceiveAction where
  /-- The bytes from `start` up to `stop` of a value of `len` bytes are read. -/
  | read (start stop len : ℕ)
  /-- `n` bytes are copied to `pos` in a buffer of `room` bytes, for a message of `total`. -/
  | copied (room pos : ℕ) (n : ℤ) (total : ℕ)
  /-- `sys_mfree`. -/
  | freed (id : ℕ)
  /-- `bcwl_msg_handler` is called, after these fragments. -/
  | handed (opcode : UInt8) (data : List (Option UInt8)) (total : ℕ) (fragments : List Bcw.Message)
  deriving DecidableEq

/-- `bcwl_env_t` as far as receiving goes, with what has been done. -/
structure Reception where
  recvSeq : UInt8
  recvBuf : Option RecvBuf
  totalLen : ℕ
  offset : ℕ
  handshakeSuccess : Bool
  /-- How many buffers have been allocated. -/
  mallocs : ℕ
  /-- The fragments since the start one, with their opcodes. -/
  fragments : List Bcw.Message
  log : List ReceiveAction

/-- A GATT write: the value, what is behind it in memory, and whether an allocation succeeds. -/
structure Written where
  value : List UInt8
  /-- What is in memory there, behind the value. -/
  behind : ℕ → UInt8
  /-- `sys_malloc` gives what it is asked for. -/
  granted : Bool

/-- What happens. -/
inductive ReceiveEvent where
  | written (v : Written)
  /-- `bcwl_conn_evt_handler`: a peer has connected. -/
  | connected

/-! ### The header -/

namespace Written

variable (v : Written)

/-- A byte at the address of the value. -/
def byte (i : ℕ) : UInt8 := v.value.getD i (v.behind i)

/-- `n` bytes from `start` on. -/
def bytes (start n : ℕ) : List UInt8 := (List.range n).map fun i => v.byte (start + i)

def flag : UInt8 := v.byte 0

def seq : UInt8 := v.byte 1

def opcode : UInt8 := v.byte 2

def dataLen : ℕ := (v.byte 3).toNat

/-- The length of the message, in a start fragment. -/
def totalLen : ℕ := LittleEndian.value (v.bytes 4 2)

def isBegin : Bool := v.flag &&& Bcw.bcwlFlagBeginMask != 0

def isEnd : Bool := v.flag &&& Bcw.bcwlFlagEndMask != 0

/-- The checksum is that of the header and the data. -/
def crcRight (crc16 : List UInt8 → UInt16) : Bool :=
  (crc16 (v.bytes 1 (v.dataLen + 3))).toNat == LittleEndian.value (v.bytes (4 + v.dataLen) 2)

/-- The bytes of the message in the value, `skip` bytes behind the header. -/
def piece (skip : ℕ) : List UInt8 := (v.value.drop (4 + skip)).take (v.dataLen - skip)

end Written

/-! ### The code -/

variable (crc16 : List UInt8 → UInt16)

/-- Something more has been done. -/
def Reception.note (s : Reception) (a : ReceiveAction) : Reception := { s with log := s.log ++ [a] }

/-- The bytes from `start` up to `stop` are read. -/
def Reception.read (s : Reception) (v : Written) (start stop : ℕ) : Reception :=
  s.note (.read start stop v.value.length)

/-- `recv_buf` is freed if there is one, and set to null. -/
def Reception.release (s : Reception) : Reception :=
  match s.recvBuf with
  | none => s
  | some b => { s.note (.freed b.id) with recvBuf := none }

def errRecv (s : Reception) : Reception := { s with offset := 0, fragments := [] }.release

/-- `sys_memcpy` of `n` bytes, those from `start` on, to `recv_buf + offset`. What a negative number
does to the memory is left open. -/
def Reception.copy (s : Reception) (v : Written) (start : ℕ) (n : ℤ) : Reception :=
  { (s.read v start (start + n.toNat)).note
      (.copied (s.recvBuf.elim 0 RecvBuf.size) s.offset n s.totalLen) with
    recvBuf := s.recvBuf.map fun b => { b with
      mem := fun x =>
        if s.offset ≤ x ∧ x < s.offset + n.toNat then some (v.byte (start + (x - s.offset)))
        else b.mem x } }

/-- `bcwl_msg_handler`, as far as it changes what is kept: a handshake of the right length. -/
def bcwlMsgHandler (opcode : UInt8) (data : List (Option UInt8)) (total : ℕ)
    (fragments : List Bcw.Message) (s : Reception) : Reception :=
  { s.note (.handed opcode data total fragments) with
    handshakeSuccess := s.handshakeSuccess ||
      (Bcw.bcwlOpcodeGetType opcode == 0 && Bcw.bcwlOpcodeGetSubtype opcode == 0 && total == 4) }

/-- `bcwl_receive`: a complete segment. -/
def receiveComplete (v : Written) (s : Reception) : Reception :=
  bcwlMsgHandler v.opcode ((v.bytes 4 v.dataLen).map some) v.dataLen [(v.opcode, v.piece 0)]
    (s.read v 4 (4 + v.dataLen))

/-- `bcwl_receive`: a start segment, once there is a buffer. -/
def receiveFirst (v : Written) (s : Reception) : Reception :=
  { s.copy v 6 (v.dataLen - 2) with
    -- an unsigned number of sixteen bits
    offset := (v.dataLen + 65536 - 2) % 65536
    fragments := [(v.opcode, v.piece 2)] }

/-- `sys_malloc` of `total_len` bytes for `recv_buf`. -/
def Reception.alloc (s : Reception) : Reception :=
  { s with
    recvBuf := some ⟨s.mallocs, s.totalLen, fun _ => none⟩
    mallocs := s.mallocs + 1 }

/-- `bcwl_receive`: a start segment, from the allocation on. -/
def receiveAlloc (v : Written) (s : Reception) : Reception :=
  if v.granted then receiveFirst v s.alloc else errRecv { s with recvBuf := none }

/-- `bcwl_receive`: a start segment. -/
def receiveStart (v : Written) (s : Reception) : Reception :=
  if s.offset ≠ 0 then errRecv s
  else if Bcw.bcwValueLen < v.totalLen then
    errRecv { s.read v 4 6 with totalLen := v.totalLen }
  else receiveAlloc v { s.read v 4 6 with totalLen := v.totalLen }

/-- `bcwl_receive`: an end segment. -/
def receiveEnd (v : Written) (s : Reception) : Reception :=
  if s.offset = 0 ∨ s.offset + v.dataLen ≠ s.totalLen then errRecv s
  else
    let s := s.copy v 4 v.dataLen
    let data := (List.range s.totalLen).map fun x => s.recvBuf.bind fun b => b.mem x
    let s := bcwlMsgHandler v.opcode data s.totalLen (s.fragments ++ [(v.opcode, v.piece 0)]) s
    { s with offset := 0, fragments := [] }.release

/-- `bcwl_receive`: a continue segment. -/
def receiveContinue (v : Written) (s : Reception) : Reception :=
  if s.offset = 0 ∨ s.totalLen ≤ s.offset + v.dataLen then errRecv s
  else
    { s.copy v 4 v.dataLen with
      offset := s.offset + v.dataLen
      fragments := s.fragments ++ [(v.opcode, v.piece 0)] }

/-- `bcwl_receive` behind the checksum. -/
def receiveSegment (v : Written) (s : Reception) : Reception :=
  if v.isBegin then
    if v.isEnd then receiveComplete v s else receiveStart v s
  else if v.isEnd then receiveEnd v s
  else receiveContinue v s

/-- `bcwl_receive` from the checksum on. -/
def receiveChecked (v : Written) (s : Reception) : Reception :=
  let s := (s.read v 1 (4 + v.dataLen)).read v (4 + v.dataLen) (6 + v.dataLen)
  if v.crcRight crc16 then receiveSegment v s else errRecv s

def bcwlReceive (v : Written) (s : Reception) : Reception :=
  if v.value.length < 4 then s
  else
    let s := s.read v 0 4
    if s.handshakeSuccess = false ∧ v.opcode ≠ 0 then s
    else if v.seq ≠ s.recvSeq then s
    else receiveChecked crc16 v { s with recvSeq := s.recvSeq + 1 }

/-- `bcwl_conn_evt_handler`, when a peer has connected. -/
def bcwlConnEvtHandler (s : Reception) : Reception :=
  { s with
    recvSeq := 0
    totalLen := 0
    offset := 0
    handshakeSuccess := false
    fragments := [] }.release

/-- One event. -/
def receiveStep : ReceiveEvent → Reception → Option Reception
  | .written v, s => some (bcwlReceive crc16 v s)
  | .connected, s => some (bcwlConnEvtHandler s)

/-- `bcwl_env` in the beginning. -/
def Reception.init : Reception where
  recvSeq := 0
  recvBuf := none
  totalLen := 0
  offset := 0
  handshakeSuccess := false
  mallocs := 0
  fragments := []
  log := []

/-! ### Safety -/

/-- What may be done: reading inside the value, copying inside the message and the buffer, handing
on a complete message that is what its fragments carried, one after the other. -/
def ReceiveAction.Good : ReceiveAction → Prop
  | .read _ stop len => stop ≤ len
  | .copied room pos n total => 0 ≤ n ∧ pos + n ≤ total ∧ pos + n ≤ room
  | .freed _ => True
  | .handed opcode data total fragments =>
    data = (fragments.flatMap Prod.snd).map some ∧ data.length = total ∧
      ∀ f ∈ fragments, f.1 = opcode

/-- The buffer that is held. -/
def Reception.held (s : Reception) : Option ℕ := s.recvBuf.map RecvBuf.id

/-- **Reception has been safe**: what was done may be done, and every buffer but the one that is
held has been freed once, so that one at most is held. -/
structure Safe (s : Reception) : Prop where
  good : ∀ a ∈ s.log, a.Good
  freed : ∀ id, s.log.count (.freed id) = if id < s.mallocs ∧ s.held ≠ some id then 1 else 0

/-- A value that gets to its checksum. -/
def admitted (v : Written) (s : Reception) : Bool :=
  decide (4 ≤ v.value.length) && (s.handshakeSuccess || v.opcode == 0) && v.seq == s.recvSeq

/-- A segment that does no harm. A start segment that gets to the allocation finds no buffer and, if
it gets one, has its two bytes of length and no more than the message; an end segment that fits has
the opcode of the fragments before it. -/
def HarmlessSegment (s : Reception) (v : Written) : Prop :=
  (v.isBegin = true → v.isEnd = false → s.offset = 0 → v.totalLen ≤ Bcw.bcwValueLen →
    s.recvBuf = none ∧ (v.granted = true → 2 ≤ v.dataLen ∧ v.dataLen ≤ v.totalLen + 2)) ∧
  (v.isBegin = false → v.isEnd = true → s.offset ≠ 0 → s.offset + v.dataLen = s.totalLen →
    ∀ f ∈ s.fragments, f.1 = v.opcode)

/-- An event that does no harm: a write that gets to its checksum brings all the bytes that it
says. -/
def Harmless (s : Reception) : ReceiveEvent → Prop
  | .connected => True
  | .written v => admitted v s = true →
    v.dataLen + 6 ≤ v.value.length ∧ (v.crcRight crc16 = true → HarmlessSegment s v)

/-! ### The bytes of a value -/

variable {crc16 : List UInt8 → UInt16} {v : Written} {s : Reception}

theorem byte_eq (h : i < v.value.length) : v.value[i]? = some (v.byte i) := by
  rw [Written.byte, List.getElem?_eq_getElem h, getD_eq_getElem _ _ h]

theorem dataLen_lt (v : Written) : v.dataLen < 256 := (v.byte 3).toNat_lt

theorem length_piece {skip : ℕ} (hlen : v.dataLen + 6 ≤ v.value.length) (hskip : skip ≤ 2) :
    (v.piece skip).length = v.dataLen - skip := by
  rw [Written.piece, length_take, length_drop]
  omega

theorem getElem?_piece {skip : ℕ} (hlen : v.dataLen + 6 ≤ v.value.length)
    (hi : i < v.dataLen - skip) : (v.piece skip)[i]? = some (v.byte (4 + skip + i)) := by
  rw [Written.piece, List.getElem?_take_of_lt hi, List.getElem?_drop, byte_eq (by omega)]

theorem bytes_eq_piece (hlen : v.dataLen + 6 ≤ v.value.length) :
    v.bytes 4 v.dataLen = v.piece 0 := by
  apply ext_getElem?
  intro i
  rcases lt_or_ge i v.dataLen with hi | hi
  · rw [getElem?_piece hlen (by omega), Written.bytes, List.getElem?_map,
      List.getElem?_range hi]
    rfl
  · rw [List.getElem?_eq_none (by simpa [Written.bytes] using hi),
      List.getElem?_eq_none (by rw [length_piece hlen (by omega)]; omega)]

/-! ### What a run keeps -/

/-- What has come of the message. -/
def Reception.collected (s : Reception) : List UInt8 := s.fragments.flatMap Prod.snd

/-- The buffer is one of those that were allocated, and in the middle of a message it has room for
all of it and holds what has come. -/
structure Kept (s : Reception) : Prop where
  allocated : ∀ b ∈ s.recvBuf, b.id < s.mallocs
  filled : s.offset ≠ 0 → ∃ b ∈ s.recvBuf, b.size = s.totalLen ∧ s.offset ≤ s.totalLen ∧
    s.collected.length = s.offset ∧ ∀ i < s.offset, b.mem i = s.collected[i]?

/-- A state is safe exactly under a condition, and what is kept is kept under it. -/
structure Settled (t : Reception) (c : Prop) : Prop where
  safe_iff : Safe t ↔ c
  kept : c → Kept t

theorem Settled.of_not {c : Prop} (h : ¬Safe t) (hc : ¬c) : Settled t c :=
  ⟨iff_of_false h hc, fun h => absurd h hc⟩

theorem Settled.of_fine {c : Prop} (h : Safe t) (hk : Kept t) (hc : c) :
    Settled t c := ⟨iff_of_true h hc, fun _ => hk⟩

@[simp] theorem log_note (a : ReceiveAction) : (s.note a).log = s.log ++ [a] := rfl

/-- Something is done that is not a free. -/
theorem safe_note_iff (hs : Safe s) (ha : ∀ id, a ≠ .freed id) :
    Safe (s.note a) ↔ a.Good := by
  constructor
  · intro h
    exact h.good a (mem_append_right _ mem_cons_self)
  · intro hgood
    constructor
    · intro b hb
      rcases mem_append.mp hb with hb | hb
      · exact hs.good b hb
      · exact mem_singleton.mp hb ▸ hgood
    · intro id
      rw [log_note, count_append, count_singleton, if_neg (by simpa using ha id),
        add_zero]
      exact hs.freed id

theorem safe_read (hs : Safe s) {start stop : ℕ} (h : stop ≤ v.value.length) :
    Safe (s.read v start stop) := (safe_note_iff hs (by rintro id ⟨⟩)).mpr h

/-- **The buffer that is held is freed once.** -/
theorem safe_release (hs : Safe s) (hk : ∀ b ∈ s.recvBuf, b.id < s.mallocs) : Safe s.release := by
  obtain hb | ⟨b, hb⟩ : s.recvBuf = none ∨ ∃ b, s.recvBuf = some b :=
    eq_none_or_eq_some _
  · simpa only [Reception.release, hb] using hs
  · simp only [Reception.release, hb]
    have hid := hk b hb
    constructor
    · intro a ha
      rcases mem_append.mp ha with ha | ha
      · exact hs.good a ha
      · exact mem_singleton.mp ha ▸ trivial
    · intro id
      have hfreed := hs.freed id
      simp only [Reception.held, hb, map_some] at hfreed
      simp only [Reception.note, Reception.held, count_append, hfreed, count_singleton,
        map_none]
      by_cases h : b.id = id
      · subst h
        simp [hid]
      · simp [h]

theorem release_recvBuf (s : Reception) : s.release.recvBuf = none := by
  unfold Reception.release
  split
  · assumption
  · rfl

theorem release_offset (s : Reception) : s.release.offset = s.offset := by
  unfold Reception.release
  split <;> rfl

theorem mem_log_release (h : a ∈ s.log) : a ∈ s.release.log := by
  unfold Reception.release
  split
  · exact h
  · exact mem_append_left _ h

/-- Without a buffer and at offset 0 there is nothing to keep. -/
theorem kept_release (h : s.offset = 0) : Kept s.release := by
  constructor
  · rw [release_recvBuf]
    rintro b ⟨⟩
  · rw [release_offset]
    exact fun hne => absurd h hne

theorem fine_errRecv (hs : Safe s) (hk : ∀ b ∈ s.recvBuf, b.id < s.mallocs) :
    Safe (errRecv s) ∧ Kept (errRecv s) :=
  ⟨safe_release ⟨hs.good, hs.freed⟩ hk, kept_release rfl⟩

theorem mem_log_errRecv (h : a ∈ s.log) : a ∈ (errRecv s).log :=
  mem_log_release h

/-! ### The segments -/

theorem kept_congr (hk : Kept s) (hbuf : t.recvBuf = s.recvBuf)
    (hmallocs : t.mallocs = s.mallocs) (htotal : t.totalLen = s.totalLen)
    (hoffset : t.offset = s.offset) (hfragments : t.fragments = s.fragments) : Kept t := by
  constructor
  · rw [hbuf, hmallocs]
    exact hk.allocated
  · rw [hbuf, htotal, hoffset, Reception.collected, hfragments]
    exact hk.filled

theorem safe_complete (hs : Safe s) (hlen : v.dataLen + 6 ≤ v.value.length) :
    Safe (receiveComplete v s) := by
  have hread : Safe (s.read v 4 (4 + v.dataLen)) := safe_read hs (by omega)
  have hgood : (ReceiveAction.handed v.opcode ((v.bytes 4 v.dataLen).map some) v.dataLen
      [(v.opcode, v.piece 0)]).Good := by
    refine ⟨?_, ?_, ?_⟩
    · rw [bytes_eq_piece hlen, flatMap_singleton]
    · rw [length_map, Written.bytes, length_map, length_range]
    · rintro f hf
      rw [mem_singleton.mp hf]
  have h := (safe_note_iff hread (by rintro id ⟨⟩)).mpr hgood
  exact ⟨h.good, h.freed⟩

theorem collected_append (l : List Bcw.Message) (f : Bcw.Message) :
    (l ++ [f]).flatMap Prod.snd = l.flatMap Prod.snd ++ f.2 := by
  rw [flatMap_append, flatMap_singleton]

/-- What the buffer holds after a copy at the end of what has come. -/
theorem mem_copy {b : RecvBuf} (hlen : v.dataLen + 6 ≤ v.value.length) (hb : s.recvBuf = some b)
    (hcollected : s.collected.length = s.offset)
    (hmem : ∀ i < s.offset, b.mem i = s.collected[i]?) (hi : i < s.offset + v.dataLen) :
    ((s.copy v 4 v.dataLen).recvBuf.bind fun b => b.mem i) = (s.collected ++ v.piece 0)[i]? := by
  simp only [Reception.copy, hb, map_some, bind_some, Int.toNat_natCast]
  rcases lt_or_ge i s.offset with hlt | hge
  · rw [if_neg (by omega), List.getElem?_append_left (by omega), hmem i hlt]
  · rw [if_pos ⟨hge, hi⟩, List.getElem?_append_right (by omega), hcollected,
      getElem?_piece hlen (by omega)]

/-- A copy that stays inside the message. -/
theorem safe_copy (hs : Safe s) (hlen : v.dataLen + 6 ≤ v.value.length) {b : RecvBuf}
    (hb : s.recvBuf = some b) (hsize : b.size = s.totalLen)
    (hle : s.offset + v.dataLen ≤ s.totalLen) : Safe (s.copy v 4 v.dataLen) := by
  have hread : Safe (s.read v 4 (4 + (v.dataLen : ℤ).toNat)) :=
    safe_read hs (by rw [Int.toNat_natCast]; omega)
  have hgood : (ReceiveAction.copied (s.recvBuf.elim 0 RecvBuf.size) s.offset v.dataLen
      s.totalLen).Good := by
    simp only [ReceiveAction.Good, hb, elim_some, hsize]
    omega
  have h := (safe_note_iff hread (by rintro id ⟨⟩)).mpr hgood
  refine ⟨h.good, fun id => ?_⟩
  have hheld : (s.copy v 4 v.dataLen).held = s.held := by
    simp only [Reception.held, Reception.copy, hb, map_some]
  rw [hheld]
  exact h.freed id

theorem copy_allocated (hk : Kept s) : ∀ b ∈ (s.copy v 4 v.dataLen).recvBuf, b.id < s.mallocs := by
  rintro b hb
  simp only [Reception.copy, mem_def, map_eq_some_iff] at hb
  obtain ⟨b₀, hb₀, rfl⟩ := hb
  exact hk.allocated b₀ hb₀

theorem fine_continue (hs : Safe s) (hk : Kept s) (hlen : v.dataLen + 6 ≤ v.value.length) :
    Safe (receiveContinue v s) ∧ Kept (receiveContinue v s) := by
  unfold receiveContinue
  split_ifs with h
  · exact fine_errRecv hs hk.allocated
  obtain ⟨hoffset, hlt⟩ := not_or.mp h
  obtain ⟨b, hb, hsize, -, hcollected, hmem⟩ := hk.filled hoffset
  have hle : s.offset + v.dataLen ≤ s.totalLen := by omega
  have hcopy := safe_copy hs hlen hb hsize hle
  refine ⟨⟨hcopy.good, hcopy.freed⟩, copy_allocated hk, ?_⟩
  rintro -
  refine ⟨_, map_eq_some_iff.mpr ⟨b, hb, rfl⟩, hsize, hle, ?_, ?_⟩
  · rw [Reception.collected, collected_append, length_append, length_piece hlen (by omega)]
    exact congrArg (· + v.dataLen) hcollected
  · intro i hi
    have hlook := mem_copy hlen hb hcollected hmem hi
    simp only [Reception.copy, mem_def.mp hb, map_some, bind_some] at hlook
    rw [Reception.collected, collected_append]
    exact hlook

/-- **An end segment** hands on the message if all its fragments have the opcode. -/
theorem settled_end (hs : Safe s) (hk : Kept s) (hlen : v.dataLen + 6 ≤ v.value.length) :
    Settled (receiveEnd v s) (s.offset ≠ 0 → s.offset + v.dataLen = s.totalLen →
      ∀ f ∈ s.fragments, f.1 = v.opcode) := by
  unfold receiveEnd
  split_ifs with h
  · obtain ⟨hsafe, hkept⟩ := fine_errRecv hs hk.allocated
    exact .of_fine hsafe hkept fun hoffset htotal => absurd htotal (h.resolve_left hoffset)
  obtain ⟨hoffset, htotal⟩ := not_or.mp h
  rw [not_not] at htotal
  obtain ⟨b, hb, hsize, -, hcollected, hmem⟩ := hk.filled hoffset
  have hcopy := safe_copy hs hlen hb hsize (by omega)
  have hall : (s.collected ++ v.piece 0).length = s.totalLen := by
    rw [length_append, hcollected, length_piece hlen (by omega)]
    exact htotal
  have hdata : ((List.range s.totalLen).map fun x =>
      (s.copy v 4 v.dataLen).recvBuf.bind fun b => b.mem x) =
        (s.collected ++ v.piece 0).map some := by
    apply ext_getElem?
    intro i
    rcases lt_or_ge i s.totalLen with hi | hi
    · rw [List.getElem?_map, List.getElem?_range hi, map_some,
        mem_copy hlen hb hcollected hmem (by omega), List.getElem?_map,
        List.getElem?_eq_getElem (by omega), map_some]
    · rw [List.getElem?_eq_none (by simpa using hi), List.getElem?_eq_none]
      rw [length_map, hall]
      exact hi
  have hgood : (ReceiveAction.handed v.opcode ((List.range s.totalLen).map fun x =>
      (s.copy v 4 v.dataLen).recvBuf.bind fun b => b.mem x) s.totalLen
      (s.fragments ++ [(v.opcode, v.piece 0)])).Good ↔ ∀ f ∈ s.fragments, f.1 = v.opcode := by
    rw [ReceiveAction.Good, hdata, collected_append]
    constructor
    · rintro ⟨-, -, hopcode⟩ f hf
      exact hopcode f (mem_append_left _ hf)
    · intro hopcode
      refine ⟨rfl, by rw [length_map, hall], fun f hf => ?_⟩
      rcases mem_append.mp hf with hf | hf
      · exact hopcode f hf
      · rw [mem_singleton.mp hf]
  have hiff := (safe_note_iff hcopy (by rintro id ⟨⟩)).trans hgood
  constructor
  · constructor
    · intro hsafe _ _
      exact hgood.mp (hsafe.good _ (mem_log_release (mem_append_right _ mem_cons_self)))
    · intro hopcode
      have h := hiff.mpr (hopcode hoffset htotal)
      exact safe_release ⟨h.good, h.freed⟩ (copy_allocated hk)
  · exact fun _ => kept_release rfl

/-- A buffer is allocated, and nothing is left of the one before if there was one. -/
theorem safe_alloc_iff (hs : Safe s) (hk : Kept s)
    (hcount : ∀ id, t.log.count (.freed id) = s.log.count (.freed id))
    (ht : t.held = none ∧ t.mallocs = s.mallocs ∨
      t.held = some s.mallocs ∧ t.mallocs = s.mallocs + 1) :
    Safe t ↔ s.recvBuf = none ∧ ∀ a ∈ t.log, a.Good := by
  constructor
  · intro h
    refine ⟨?_, h.good⟩
    by_contra hne
    obtain ⟨b, hb⟩ := ne_none_iff_exists'.mp hne
    have hid := hk.allocated b hb
    have hheld : s.held = some b.id := by rw [Reception.held, hb, map_some]
    have hbefore := hs.freed b.id
    have hafter := h.freed b.id
    rw [hcount, hbefore, hheld, if_neg (fun hh => hh.2 rfl), if_pos] at hafter
    · omega
    · rcases ht with ⟨hheld', hmallocs⟩ | ⟨hheld', hmallocs⟩
      · rw [hheld', hmallocs]
        exact ⟨hid, nofun⟩
      · rw [hheld', hmallocs]
        exact ⟨by omega, fun heq => by simp only [Option.some.injEq] at heq; omega⟩
  · rintro ⟨hnone, hgood⟩
    have hheld : s.held = none := by rw [Reception.held, hnone, map_none]
    refine ⟨hgood, fun id => ?_⟩
    rw [hcount, hs.freed, hheld]
    rcases ht with ⟨hheld', hmallocs⟩ | ⟨hheld', hmallocs⟩
    · rw [hheld', hmallocs]
    · rw [hheld', hmallocs]
      simp only [ne_eq, reduceCtorEq, not_false_iff, and_true, Option.some.injEq]
      exact if_congr (by omega) rfl rfl

theorem kept_first (hlen : v.dataLen + 6 ≤ v.value.length) (hoffset : s.offset = 0)
    (htotal : s.totalLen = v.totalLen) (htwo : 2 ≤ v.dataLen) (hle : v.dataLen ≤ v.totalLen + 2) :
    Kept (receiveFirst v s.alloc) := by
  have hlt := dataLen_lt v
  have hoff : (receiveFirst v s.alloc).offset = v.dataLen - 2 := by
    change (v.dataLen + 65536 - 2) % 65536 = v.dataLen - 2
    omega
  have hn : ((v.dataLen : ℤ) - 2).toNat = v.dataLen - 2 := by omega
  have hcollected : (receiveFirst v s.alloc).collected = v.piece 2 := flatMap_singleton _ _
  constructor
  · rintro b hb
    obtain rfl := Option.some.inj hb
    exact Nat.lt_succ_self _
  · rintro -
    rw [hoff, hcollected]
    refine ⟨_, rfl, rfl, ?_, length_piece hlen (le_refl 2), fun i hi => ?_⟩
    · change v.dataLen - 2 ≤ s.totalLen
      omega
    · change (if s.offset ≤ i ∧ i < s.offset + ((v.dataLen : ℤ) - 2).toNat then
        some (v.byte (6 + (i - s.offset))) else none) = _
      rw [hn, hoffset, if_pos (by omega), getElem?_piece hlen hi, Nat.sub_zero]

theorem log_first : (receiveFirst v s.alloc).log =
    s.log ++ [.read 6 (6 + ((v.dataLen : ℤ) - 2).toNat) v.value.length,
      .copied s.totalLen s.offset (v.dataLen - 2) s.totalLen] :=
  append_assoc s.log [_] [_]

/-- From the allocation on. -/
theorem settled_alloc (hs : Safe s) (hk : Kept s) (hlen : v.dataLen + 6 ≤ v.value.length)
    (hoffset : s.offset = 0) (htotal : s.totalLen = v.totalLen) :
    Settled (receiveAlloc v s) (s.recvBuf = none ∧
      (v.granted = true → 2 ≤ v.dataLen ∧ v.dataLen ≤ v.totalLen + 2)) := by
  unfold receiveAlloc
  split_ifs with hgrant
  · have hcount : ∀ id, (receiveFirst v s.alloc).log.count (.freed id) =
        s.log.count (.freed id) := by
      intro id
      rw [log_first, count_append]
      simp
    have hgood : (∀ a ∈ (receiveFirst v s.alloc).log, a.Good) ↔
        2 ≤ v.dataLen ∧ v.dataLen ≤ v.totalLen + 2 := by
      simp only [log_first, mem_append, mem_cons, not_mem_nil, or_false, or_imp,
        forall_and, forall_eq, ReceiveAction.Good, hoffset, htotal]
      constructor
      · rintro ⟨-, -, hcopy⟩
        omega
      · exact fun h => ⟨hs.good, by omega, by omega⟩
    constructor
    · rw [safe_alloc_iff hs hk hcount (.inr ⟨rfl, rfl⟩), hgood]
      exact and_congr_right fun _ => ⟨fun h _ => h, fun h => h hgrant⟩
    · rintro ⟨-, h⟩
      obtain ⟨htwo, hle⟩ := h hgrant
      exact kept_first hlen hoffset htotal htwo hle
  · have hiff : Safe (errRecv { s with recvBuf := none }) ↔ s.recvBuf = none ∧ _ :=
      safe_alloc_iff hs hk (fun _ => rfl) (.inl ⟨rfl, rfl⟩)
    constructor
    · rw [hiff]
      exact ⟨fun h => ⟨h.1, fun hg => absurd hg hgrant⟩, fun h => ⟨h.1, hs.good⟩⟩
    · exact fun _ => kept_release rfl

/-- **A start segment** finds no buffer and brings the bytes that it says. -/
theorem settled_start (hs : Safe s) (hk : Kept s) (hlen : v.dataLen + 6 ≤ v.value.length) :
    Settled (receiveStart v s) (s.offset = 0 → v.totalLen ≤ Bcw.bcwValueLen → s.recvBuf = none ∧
        (v.granted = true → 2 ≤ v.dataLen ∧ v.dataLen ≤ v.totalLen + 2)) := by
  have hread : Safe (s.read v 4 6) := safe_read hs (by omega)
  unfold receiveStart
  split_ifs with hoffset hlong
  · obtain ⟨hsafe, hkept⟩ := fine_errRecv hs hk.allocated
    exact .of_fine hsafe hkept fun h => absurd h hoffset
  · obtain ⟨hsafe, hkept⟩ := fine_errRecv (s := { s.read v 4 6 with totalLen := v.totalLen })
      ⟨hread.good, hread.freed⟩ hk.allocated
    exact .of_fine hsafe hkept fun _ h => absurd h (not_le.mpr hlong)
  · rw [not_not] at hoffset
    have hsettled := settled_alloc (s := { s.read v 4 6 with totalLen := v.totalLen }) (v := v)
      ⟨hread.good, hread.freed⟩ ⟨hk.allocated, fun h => absurd hoffset h⟩ hlen hoffset rfl
    constructor
    · rw [hsettled.safe_iff]
      exact ⟨fun h _ _ => h, fun h => h hoffset (not_lt.mp hlong)⟩
    · exact fun h => hsettled.kept (h hoffset (not_lt.mp hlong))

/-! ### A write -/

/-- What was done before is not undone. -/
theorem mem_log_segment (h : a ∈ s.log) : a ∈ (receiveSegment v s).log := by
  unfold receiveSegment
  split
  · split
    · exact mem_append_left _ (mem_append_left _ h)
    · unfold receiveStart receiveAlloc
      split_ifs
      · exact mem_log_errRecv h
      · exact mem_log_errRecv (mem_append_left _ h)
      · exact mem_append_left _ (mem_append_left _ (mem_append_left _ h))
      · exact mem_log_errRecv (mem_append_left _ h)
  · split
    · unfold receiveEnd
      split_ifs
      · exact mem_log_errRecv h
      · exact mem_log_release (mem_append_left _ (mem_append_left _
          (mem_append_left _ h)))
    · unfold receiveContinue
      split_ifs
      · exact mem_log_errRecv h
      · exact mem_append_left _ (mem_append_left _ h)

/-- **A segment whose bytes are all there.** -/
theorem settled_segment (hs : Safe s) (hk : Kept s) (hlen : v.dataLen + 6 ≤ v.value.length) :
    Settled (receiveSegment v s) (HarmlessSegment s v) := by
  unfold receiveSegment HarmlessSegment
  cases hbegin : v.isBegin <;> cases hend : v.isEnd
  · obtain ⟨hsafe, hkept⟩ := fine_continue hs hk hlen
    exact .of_fine hsafe hkept ⟨nofun, nofun⟩
  · simpa using settled_end hs hk hlen
  · simpa using settled_start hs hk hlen
  · exact .of_fine (safe_complete hs hlen) (kept_congr hk rfl rfl rfl rfl rfl) ⟨nofun, nofun⟩

/-- **A write that gets to its checksum.** -/
theorem settled_checked (hs : Safe s) (hk : Kept s) :
    Settled (receiveChecked crc16 v s)
      (v.dataLen + 6 ≤ v.value.length ∧ (v.crcRight crc16 = true → HarmlessSegment s v)) := by
  set t := (s.read v 1 (4 + v.dataLen)).read v (4 + v.dataLen) (6 + v.dataLen) with ht
  have hchecked : receiveChecked crc16 v s =
      if v.crcRight crc16 then receiveSegment v t else errRecv t := rfl
  rw [hchecked]
  by_cases hlen : v.dataLen + 6 ≤ v.value.length
  · have hsafe : Safe t := safe_read (safe_read hs (by omega)) (by omega)
    have hkept : Kept t := kept_congr hk rfl rfl rfl rfl rfl
    split_ifs with hcrc
    · have hsettled := settled_segment hsafe hkept hlen
      exact ⟨hsettled.safe_iff.trans ⟨fun h => ⟨hlen, fun _ => h⟩, fun h => h.2 hcrc⟩,
        fun h => hsettled.kept (h.2 hcrc)⟩
    · obtain ⟨hsafe', hkept'⟩ := fine_errRecv hsafe hkept.allocated
      exact .of_fine hsafe' hkept' ⟨hlen, fun h => absurd h hcrc⟩
  · refine .of_not (fun hsafe => hlen ?_) fun h => hlen h.1
    have hmem : ReceiveAction.read (4 + v.dataLen) (6 + v.dataLen) v.value.length ∈ t.log :=
      mem_append_right _ mem_cons_self
    have hgood : (ReceiveAction.read (4 + v.dataLen) (6 + v.dataLen) v.value.length).Good := by
      apply hsafe.good
      split_ifs
      · exact mem_log_segment hmem
      · exact mem_log_errRecv hmem
    rw [ReceiveAction.Good] at hgood
    omega

/-- **An event is safe exactly when it does no harm.** -/
theorem settled_step {e : ReceiveEvent} (hs : Safe s) (hk : Kept s)
    (h : receiveStep crc16 e s = some t) : Settled t (Harmless crc16 s e) := by
  cases e with
  | connected =>
    obtain rfl := Option.some.inj h
    exact .of_fine (safe_release ⟨hs.good, hs.freed⟩ hk.allocated) (kept_release rfl) trivial
  | written v =>
    obtain rfl := Option.some.inj h
    unfold bcwlReceive Harmless admitted
    by_cases hshort : v.value.length < 4
    · rw [if_pos hshort]
      exact .of_fine hs hk fun h => by
        simp only [not_le.mpr hshort, decide_false, Bool.false_and, Bool.false_eq_true] at h
    have hread : Safe (s.read v 0 4) := safe_read hs (not_lt.mp hshort)
    have hkept : Kept (s.read v 0 4) := kept_congr hk rfl rfl rfl rfl rfl
    dsimp only
    split_ifs with hhand hseq
    · refine .of_fine hread hkept fun h => ?_
      simp only [Bool.and_eq_true, Bool.or_eq_true, beq_iff_eq] at h
      obtain ⟨⟨-, hadm⟩, -⟩ := h
      rcases hadm with hadm | hadm
      · exact absurd (hhand.1.symm.trans hadm) nofun
      · exact absurd hadm hhand.2
    · refine .of_fine hread hkept fun h => ?_
      simp only [Bool.and_eq_true, beq_iff_eq] at h
      exact absurd h.2 hseq
    · have hadm : (decide (4 ≤ v.value.length) && (s.handshakeSuccess || v.opcode == 0) &&
          v.seq == s.recvSeq) = true := by
        have hseq' : v.seq = s.recvSeq := not_not.mp hseq
        have hhand' : s.handshakeSuccess = true ∨ v.opcode = 0 := by
          by_contra hcon
          obtain ⟨h1, h2⟩ := not_or.mp hcon
          exact hhand ⟨Bool.eq_false_iff.mpr h1, h2⟩
        simpa [hseq', not_lt.mp hshort] using hhand'
      have hsettled : Settled (receiveChecked crc16 v { s.read v 0 4 with recvSeq := s.recvSeq + 1 })
          _ := settled_checked ⟨hread.good, hread.freed⟩ (kept_congr hk rfl rfl rfl rfl rfl)
      exact ⟨hsettled.safe_iff.trans ⟨fun h _ => h, fun h => h hadm⟩,
        fun h => hsettled.kept (h hadm)⟩

theorem safe_init : Safe .init := ⟨nofun, fun _ => (if_neg nofun).symm⟩

theorem kept_init : Kept .init := ⟨nofun, fun h => absurd rfl h⟩

theorem exists_run (events : List ReceiveEvent) (s : Reception) :
    ∃ t, Machine.run (receiveStep crc16) events s = some t := by
  induction events generalizing s with
  | nil => exact ⟨s, rfl⟩
  | cons e events ih =>
    cases e with
    | written v => exact ih (bcwlReceive crc16 v s)
    | connected => exact ih (bcwlConnEvtHandler s)

/-- **Reception is safe** over writes and connections exactly when none of them does harm. -/
theorem reception_safe_iff (crc16 : List UInt8 → UInt16) (events : List ReceiveEvent) :
    Machine.Always (receiveStep crc16) Safe events .init ↔
      Machine.Meets (receiveStep crc16) (Harmless crc16) events .init := by
  obtain ⟨t, ht⟩ : ∃ t, Machine.run (receiveStep crc16) events .init = some t :=
    exists_run events .init
  exact Machine.always_iff_meets_of_kept (K := fun s => Safe s → Kept s) ht (fun _ => kept_init)
    safe_init fun hk hs h => ⟨fun hsafe =>
      (settled_step hs (hk hs) h).kept ((settled_step hs (hk hs) h).safe_iff.mp hsafe),
      (settled_step hs (hk hs) h).safe_iff⟩

/-- A handshake that says that 255 bytes follow, and brings none. -/
def shortHandshake : Written where
  value := [0x03, 0x00, 0x00, 0xFF]
  behind _ := 0
  granted := true

theorem not_safe_shortHandshake : ¬∀ (crc16 : List UInt8 → UInt16) (events : List ReceiveEvent),
    Machine.Always (receiveStep crc16) Safe events .init := by
  intro h
  have hstep : receiveStep (fun _ => 0) (.written shortHandshake) .init = some _ := rfl
  have hsafe := (h (fun _ => 0) [.written shortHandshake]).2 _ hstep
  have hharmless := (settled_step safe_init kept_init hstep).safe_iff.mp hsafe
  exact absurd (hharmless (by decide)).1 (by decide)

end BcwReceive

end Gd32
