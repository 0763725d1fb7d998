import Gd32Firmware.App.CipSend
import Gd32Firmware.Lib.LittleEndian

/-!
# A file that goes to a socket

`at_send_file` of `atcmd_tcpip.c` receives a file in segments over the SPI, each with a checksum, and
sends those whose checksum is right to a socket, answering each with `ACK` or `NAK`. The segments
other than the last have the same length, and a segment with a wrong checksum is to be sent again.

`at_file_send_data` is given the index of the connection, looks for an entry with this number as its
descriptor, and sends to what it finds, which is an index again. And what it returns is not looked
at. `sendFile_right_iff` says in which runs this does no harm.
-/

namespace Gd32.App

open List

/-! ### The code -/

def fileMaxLen : ℕ := 0x6400000

def fileMaxSegmentLen : ℕ := 0x100000

def fileSegmentCrcLen : ℕ := 4

/-- The word at a place of a buffer. -/
def wordAt (buf : List UInt8) (p : ℕ) : ℕ := LittleEndian.value ((buf.drop p).take 4)

/-- The words that `crc_block_data_calculate` writes to the data register. -/
def blockWords (buf : List UInt8) (size : ℕ) : List ℕ :=
  (List.range size).map fun index => wordAt buf (4 * index)

/-- The checksum that `at_send_file` computes; `crc` is what the unit has in its data register when
some words have been written to it after a reset. -/
def segmentChecksum (crc : List ℕ → ℕ) (txBuf : List UInt8) (realLen : ℕ) : ℕ :=
  let remain := realLen % 4
  let lenAlign := realLen - remain
  if remain = 0 then crc (blockWords txBuf (realLen / 4))
  else
    let readData := (wordAt txBuf lenAlign * 2 ^ (8 * (4 - remain))) % 2 ^ 32 / 2 ^ (8 * (4 - remain))
    crc (blockWords txBuf (realLen / 4) ++ [readData])

/-- `at_file_send_data`: the socket that it sends to and the number of bytes that this accepts, if it
sends at all; `results` are the answers of `send` or `sendto`. -/
def atFileSendData (info : CipInfo) (fdIdx : ℕ) (txLen : ℕ) (results : ℕ → SendResult) :
    Option (ℤ × ℕ) :=
  if txLen = 0 then none
  else
    -- an index is looked for among the descriptors, and used as one
    match info.cliFind fdIdx with
    | none => none
    | some fd => some (fd, (sendRetry 3 results).accepted.toNat)

/-- What is answered to a segment. -/
inductive FileAnswer where
  | ack
  | nak
  deriving DecidableEq

/-- A segment that has been handled. -/
structure FileSegment where
  data : List UInt8
  stored : ℕ
  answer : FileAnswer
  /-- The socket and the bytes that it has accepted. -/
  write : Option (ℤ × List UInt8)
  deriving DecidableEq

/-- A transfer. -/
structure FileSend where
  /-- `remaining_len`. -/
  remaining : ℕ
  log : List FileSegment
  deriving DecidableEq

/-- `at_cip_send_file` and `cip_file_transfer_info_init`, for a connection by its index; `mem` says
whether there is memory for the buffer. -/
def cipSendFile (info : CipInfo) (idx fileLen segmentLen : ℕ) (mem : Bool) : Option FileSend :=
  if info.cli.length ≤ idx ∨ info.cliIsFree idx then none
  else if fileMaxLen < fileLen ∨ fileMaxSegmentLen < segmentLen then none
  else if fileLen = 0 ∨ segmentLen = 0 then none
  else if mem then some ⟨fileLen, []⟩
  else none

/-- One pass of the loop of `at_send_file`: `i` is what has been received, with what the socket
answers. A segment is received as a whole, and a socket accepts no more than it gets. -/
def sendFileStep (crc : List ℕ → ℕ) (info : CipInfo) (fdIdx segmentLen : ℕ)
    (i : List UInt8 × (ℕ → SendResult)) (s : FileSend) : Option FileSend :=
  let realLen := min segmentLen s.remaining
  if s.remaining = 0 ∨ i.1.length ≠ realLen + fileSegmentCrcLen ∨
      (realLen : ℤ) < (sendRetry 3 i.2).cnt then none
  else
    let data := i.1.take realLen
    let stored := wordAt i.1 realLen
    if segmentChecksum crc i.1 realLen = stored then
      let write := (atFileSendData info fdIdx realLen i.2).map fun r => (r.1, data.take r.2)
      some ⟨s.remaining - realLen, s.log ++ [⟨data, stored, .ack, write⟩]⟩
    else some ⟨s.remaining, s.log ++ [⟨data, stored, .nak, none⟩]⟩

/-! ### What is to be so -/

/-- The words of some bytes, the last one filled up with zeros. -/
def paddedWords (data : List UInt8) : List ℕ := blockWords data ((data.length + 3) / 4)

/-- The checksum of a segment is right. -/
def FileSegment.Right (crc : List ℕ → ℕ) (x : FileSegment) : Prop :=
  x.stored = crc (paddedWords x.data)

/-- The segments that were acknowledged. -/
def FileSend.acked (s : FileSend) : List FileSegment := s.log.filter (·.answer = .ack)

/-- What has been written to sockets. -/
def FileSend.writes (s : FileSend) : List (ℤ × List UInt8) := s.log.filterMap (·.write)

/-- **A file is transferred right**: all goes to the socket, which is `fd`, and what it gets are the
segments that were acknowledged; these have the right checksum and were accepted by the socket, the
others were not sent and are not counted; and the segments have the length asked for, or what is
left. -/
structure FileRight (crc : List ℕ → ℕ) (fd : ℤ) (fileLen segmentLen : ℕ) (s : FileSend) : Prop where
  socket : ∀ w ∈ s.writes, w.1 = fd
  bytes : (s.writes.map Prod.snd).flatten = (s.acked.map FileSegment.data).flatten
  ack : ∀ x ∈ s.log, x.answer = .ack → x.Right crc ∧ x.write = some (fd, x.data)
  nak : ∀ x ∈ s.log, x.answer = .nak → ¬x.Right crc ∧ x.write = none
  counted : s.remaining + (s.acked.map (·.data.length)).sum = fileLen
  left : s.remaining = fileLen - s.acked.length * segmentLen
  lengths : ∀ i x, s.acked[i]? = some x → x.data.length = min segmentLen (fileLen - i * segmentLen)

/-- A segment with the right checksum goes to the right socket and is accepted by it as a whole. -/
def Accepted (crc : List ℕ → ℕ) (info : CipInfo) (fd : ℤ) (fdIdx segmentLen : ℕ) (s : FileSend)
    (i : List UInt8 × (ℕ → SendResult)) : Prop :=
  let realLen := min segmentLen s.remaining
  wordAt i.1 realLen = crc (paddedWords (i.1.take realLen)) →
    (info.cliFind fdIdx).map Int.ofNat = some fd ∧ (sendRetry 3 i.2).cnt = realLen

instance (crc : List ℕ → ℕ) (info : CipInfo) (fd : ℤ) (fdIdx segmentLen : ℕ) (s : FileSend)
    (i : List UInt8 × (ℕ → SendResult)) : Decidable (Accepted crc info fd fdIdx segmentLen s i) :=
  inferInstanceAs (Decidable (_ → _))

/-! ### The checksum -/

section Checksum

variable {data : List UInt8}

theorem value_append (a b : List UInt8) :
    LittleEndian.value (a ++ b) = LittleEndian.value a + 256 ^ a.length * LittleEndian.value b := by
  induction a with
  | nil => simp [LittleEndian.value]
  | cons x a ih =>
    rw [cons_append, LittleEndian.value, LittleEndian.value, ih, length_cons, pow_succ]
    ring

/-- The bytes of the next segment's checksum are shifted out of the last word. -/
theorem lastWord_eq {r : ℕ} (hr : r < 4) (hle : r ≤ data.length) (tail : List UInt8) :
    wordAt (data ++ tail) (data.length - r) * 2 ^ (8 * (4 - r)) % 2 ^ 32 / 2 ^ (8 * (4 - r)) =
      wordAt data (data.length - r) := by
  have hlength : (data.drop (data.length - r)).length = r := by
    rw [length_drop]
    omega
  rw [wordAt, wordAt, drop_append_of_le_length (by omega)]
  generalize data.drop (data.length - r) = rest at hlength
  have htake : (rest ++ tail).take 4 = rest ++ tail.take (4 - r) := by
    rw [take_append, hlength, take_of_length_le (by omega)]
  have hpow : 2 ^ 32 = 256 ^ r * 2 ^ (8 * (4 - r)) := by
    rw [show (256 : ℕ) = 2 ^ 8 by decide, ← pow_mul, ← pow_add]
    congr 1
    omega
  have hlt : LittleEndian.value rest < 256 ^ r := by
    rw [← hlength]
    exact LittleEndian.value_lt rest
  rw [htake, value_append, hlength, hpow, Nat.mul_mod_mul_right,
    Nat.mul_div_cancel _ (Nat.pow_pos (by decide)), Nat.add_mul_mod_self_left,
    Nat.mod_eq_of_lt hlt, take_of_length_le (by omega)]

/-- **The checksum** is that of the data, filled up with zeros: what the last word reads behind the
data is shifted out. -/
theorem segmentChecksum_eq (crc : List ℕ → ℕ) (data tail : List UInt8) :
    segmentChecksum crc (data ++ tail) data.length = crc (paddedWords data) := by
  have hblock : blockWords (data ++ tail) (data.length / 4) = blockWords data (data.length / 4) := by
    refine map_congr_left fun index hindex => ?_
    have hlt := mem_range.mp hindex
    rw [wordAt, wordAt, drop_append_of_le_length (by omega),
      take_append_of_le_length (by rw [length_drop]; omega)]
  rw [segmentChecksum, hblock]
  by_cases hremain : data.length % 4 = 0
  · rw [if_pos hremain, paddedWords, show (data.length + 3) / 4 = data.length / 4 by omega]
  · simp only [if_neg hremain]
    have hlast : paddedWords data = blockWords data (data.length / 4) ++
        [wordAt data (data.length - data.length % 4)] := by
      rw [paddedWords, show (data.length + 3) / 4 = data.length / 4 + 1 by omega, blockWords,
        range_succ, map_append, ← blockWords, map_singleton,
        show 4 * (data.length / 4) = data.length - data.length % 4 by omega]
    rw [hlast]
    congr 3
    exact lastWord_eq (by omega) (by omega) tail

end Checksum

/-! ### One segment -/

section Run

variable {crc : List ℕ → ℕ} {info : CipInfo} {fd : ℤ} {fdIdx fileLen segmentLen : ℕ}
  {s u : FileSend} {i : List UInt8 × (ℕ → SendResult)}

/-- **What one pass does**: a segment with a wrong checksum changes nothing, and one with the right
checksum is counted and handed to `at_file_send_data`. -/
theorem sendFileStep_cases (h : sendFileStep crc info fdIdx segmentLen i s = some u) :
    ∃ data stored, data = i.1.take (min segmentLen s.remaining) ∧
      stored = wordAt i.1 (min segmentLen s.remaining) ∧ s.remaining ≠ 0 ∧
      data.length = min segmentLen s.remaining ∧ (sendRetry 3 i.2).cnt ≤ data.length ∧
      ((stored ≠ crc (paddedWords data) ∧
          u = ⟨s.remaining, s.log ++ [⟨data, stored, .nak, none⟩]⟩) ∨
        (stored = crc (paddedWords data) ∧
          u = ⟨s.remaining - data.length, s.log ++ [⟨data, stored, .ack,
            (atFileSendData info fdIdx data.length i.2).map fun r => (r.1, data.take r.2)⟩]⟩)) := by
  rw [sendFileStep] at h
  simp only at h
  split_ifs at h with hno hsum
  all_goals
    simp only [not_or, not_not, Int.not_lt] at hno
    obtain ⟨hremaining, hlength, hcnt⟩ := hno
    have hdata : (i.1.take (min segmentLen s.remaining)).length = min segmentLen s.remaining := by
      rw [length_take]
      omega
    have hchecksum := segmentChecksum_eq crc (i.1.take (min segmentLen s.remaining))
      (i.1.drop (min segmentLen s.remaining))
    rw [take_append_drop, hdata] at hchecksum
    rw [hchecksum] at hsum
    refine ⟨_, _, rfl, rfl, hremaining, hdata, by rw [hdata]; exact hcnt, ?_⟩
  · refine .inr ⟨hsum.symm, ?_⟩
    rw [hdata]
    exact (Option.some.inj h).symm
  · exact .inl ⟨Ne.symm hsum, (Option.some.inj h).symm⟩

/-- The socket gets the segment. -/
theorem write_iff {data : List UInt8} {results : ℕ → SendResult} (hpos : 0 < data.length)
    (hcnt : (sendRetry 3 results).cnt ≤ data.length) :
    (atFileSendData info fdIdx data.length results).map (fun r => (r.1, data.take r.2)) =
        some (fd, data) ↔
      (info.cliFind fdIdx).map Int.ofNat = some fd ∧ (sendRetry 3 results).cnt = data.length := by
  rw [atFileSendData, if_neg (by omega)]
  rcases info.cliFind fdIdx with _ | j
  · simp
  · have htake : data.take (sendRetry 3 results).accepted.toNat = data ↔
        (sendRetry 3 results).cnt = data.length := by
      constructor
      · intro htake
        have hlength := congrArg List.length htake
        rw [length_take, SendResult.accepted] at hlength
        omega
      · intro heq
        refine take_of_length_le ?_
        rw [SendResult.accepted, heq]
        omega
    simp only [Option.map_some, Option.some.injEq, Prod.mk.injEq, htake]
    rfl

theorem acked_append (r r' : ℕ) (log : List FileSegment) (x : FileSegment) :
    (FileSend.mk r (log ++ [x])).acked =
      (FileSend.mk r' log).acked ++ if x.answer = .ack then [x] else [] := by
  rw [FileSend.acked, FileSend.acked, filter_append]
  congr 1
  by_cases hx : x.answer = .ack <;> simp [hx]

theorem writes_append (r r' : ℕ) (log : List FileSegment) (x : FileSegment) :
    (FileSend.mk r (log ++ [x])).writes = (FileSend.mk r' log).writes ++ x.write.toList := by
  rw [FileSend.writes, FileSend.writes, filterMap_append]
  rcases hx : x.write with _ | w <;> simp [hx]

/-- A segment that is not acknowledged. -/
theorem FileRight.appendNak (h : FileRight crc fd fileLen segmentLen s) {data : List UInt8}
    {stored : ℕ} (hwrong : stored ≠ crc (paddedWords data)) :
    FileRight crc fd fileLen segmentLen ⟨s.remaining, s.log ++ [⟨data, stored, .nak, none⟩]⟩ := by
  have hacked : FileSend.acked ⟨s.remaining, s.log ++ [⟨data, stored, .nak, none⟩]⟩ = s.acked :=
    (acked_append _ s.remaining _ _).trans (append_nil _)
  have hwrites : FileSend.writes ⟨s.remaining, s.log ++ [⟨data, stored, .nak, none⟩]⟩ = s.writes :=
    (writes_append _ s.remaining _ _).trans (append_nil _)
  refine ⟨?_, ?_, ?_, ?_, ?_, ?_, ?_⟩
  · rw [hwrites]
    exact h.socket
  · rw [hwrites, hacked]
    exact h.bytes
  · rintro x hx hack
    rcases mem_append.mp hx with hx | hx
    · exact h.ack x hx hack
    · rw [mem_singleton.mp hx] at hack
      cases hack
  · rintro x hx hnak
    rcases mem_append.mp hx with hx | hx
    · exact h.nak x hx hnak
    · rw [mem_singleton.mp hx]
      exact ⟨hwrong, rfl⟩
  · rw [hacked]
    exact h.counted
  · rw [hacked]
    exact h.left
  · rw [hacked]
    exact h.lengths

/-- A segment that is acknowledged, and sent to the socket. -/
theorem FileRight.appendAck (h : FileRight crc fd fileLen segmentLen s) {data : List UInt8}
    {stored : ℕ} (hright : stored = crc (paddedWords data))
    (hlength : data.length = min segmentLen s.remaining) :
    FileRight crc fd fileLen segmentLen
      ⟨s.remaining - data.length, s.log ++ [⟨data, stored, .ack, some (fd, data)⟩]⟩ := by
  have hacked := acked_append (s.remaining - data.length) s.remaining s.log
    ⟨data, stored, .ack, some (fd, data)⟩
  have hwrites := writes_append (s.remaining - data.length) s.remaining s.log
    ⟨data, stored, .ack, some (fd, data)⟩
  rw [if_pos rfl] at hacked
  refine ⟨?_, ?_, ?_, ?_, ?_, ?_, ?_⟩
  · rw [hwrites]
    rintro w hw
    rcases mem_append.mp hw with hw | hw
    · exact h.socket w hw
    · rw [mem_singleton.mp hw]
  · rw [hwrites, hacked, map_append, flatten_append, map_append, flatten_append]
    exact congrArg (· ++ _) h.bytes
  · rintro x hx hack
    rcases mem_append.mp hx with hx | hx
    · exact h.ack x hx hack
    · rw [mem_singleton.mp hx]
      exact ⟨hright, rfl⟩
  · rintro x hx hnak
    rcases mem_append.mp hx with hx | hx
    · exact h.nak x hx hnak
    · rw [mem_singleton.mp hx] at hnak
      cases hnak
  · have hcounted := h.counted
    rw [hacked, map_append, sum_append, map_singleton, sum_singleton]
    show s.remaining - data.length + ((s.acked.map _).sum + data.length) = fileLen
    omega
  · have hleft := h.left
    rw [hacked, length_append, length_singleton, add_mul, one_mul]
    show s.remaining - data.length = fileLen - (s.acked.length * segmentLen + segmentLen)
    omega
  · intro i x hx
    rw [hacked] at hx
    rcases lt_trichotomy i s.acked.length with hlt | heq | hgt
    · rw [List.getElem?_append_left hlt] at hx
      exact h.lengths i x hx
    · rw [heq, List.getElem?_append_right le_rfl, Nat.sub_self] at hx
      obtain rfl := Option.some.inj hx
      rw [heq, ← h.left]
      exact hlength
    · rw [List.getElem?_append_right hgt.le, List.getElem?_eq_none
        (by rw [length_singleton]; exact Nat.sub_pos_of_lt hgt)] at hx
      cases hx

/-- **A pass keeps the transfer right** exactly when a segment with the right checksum is accepted. -/
theorem fileRight_step (hsegment : 0 < segmentLen) (h : FileRight crc fd fileLen segmentLen s)
    (hi : sendFileStep crc info fdIdx segmentLen i s = some u) :
    FileRight crc fd fileLen segmentLen u ↔ Accepted crc info fd fdIdx segmentLen s i := by
  obtain ⟨data, stored, hdata, hstored, hremaining, hlength, hcnt, hu⟩ := sendFileStep_cases hi
  have haccepted : Accepted crc info fd fdIdx segmentLen s i ↔
      (stored = crc (paddedWords data) → (info.cliFind fdIdx).map Int.ofNat = some fd ∧
        (sendRetry 3 i.2).cnt = data.length) := by
    rw [Accepted, ← hdata, ← hstored, hlength]
  rw [haccepted]
  rcases hu with ⟨hwrong, rfl⟩ | ⟨hright, rfl⟩
  · exact iff_of_true (h.appendNak hwrong) fun heq => absurd heq hwrong
  · rw [← write_iff (by omega) hcnt]
    constructor
    · intro hu _
      exact (hu.ack _ (mem_append_right _ (mem_singleton_self _)) rfl).2
    · intro hwrite
      rw [hwrite hright]
      exact h.appendAck hright hlength

/-- **Files are transferred right**, to the socket of the connection asked for, in exactly the runs in
which every segment with the right checksum goes to this socket and is accepted by it. -/
theorem sendFile_right_iff (crc : List ℕ → ℕ) {mem : Bool} {s₀ : FileSend}
    (h₀ : cipSendFile info fdIdx fileLen segmentLen mem = some s₀)
    (is : List (List UInt8 × (ℕ → SendResult)))
    (h : Machine.run (sendFileStep crc info fdIdx segmentLen) is s₀ = some s) :
    ∃ x, info.cli[fdIdx]? = some x ∧ 0 ≤ x.fd ∧
      (Machine.Always (sendFileStep crc info fdIdx segmentLen)
          (FileRight crc x.fd fileLen segmentLen) is s₀ ↔
        Machine.Meets (sendFileStep crc info fdIdx segmentLen)
          (Accepted crc info x.fd fdIdx segmentLen) is s₀) := by
  rw [cipSendFile] at h₀
  split_ifs at h₀ with hfree hmax hzero
  obtain rfl := Option.some.inj h₀
  rw [not_or, not_le] at hfree
  obtain ⟨hidx, hlive⟩ := hfree
  have hx : info.cli[fdIdx]? = some info.cli[fdIdx] := List.getElem?_eq_getElem hidx
  rw [CipInfo.cliIsFree, hx] at hlive
  refine ⟨info.cli[fdIdx], hx, by simpa using hlive, Machine.always_iff_meets h
    ⟨?_, ?_, ?_, ?_, ?_, ?_, ?_⟩ fun hI hi => fileRight_step (by omega) hI hi⟩
  · simp [FileSend.writes]
  · simp [FileSend.writes, FileSend.acked]
  · simp
  · simp
  · simp [FileSend.acked]
  · simp [FileSend.acked]
  · simp [FileSend.acked]

/-- A connection whose descriptor is its index, and a file of five bytes in two segments, the first
of which comes with a wrong checksum once. -/
theorem sendFile_right_iff_twoSegments :
    ∃ x, [freeClient, ⟨1, .tcp, .client, 0, 0, 0⟩][1]? = some x ∧ 0 ≤ x.fd ∧
      Machine.Always (sendFileStep List.sum ⟨[freeClient, ⟨1, .tcp, .client, 0, 0, 0⟩], 1⟩ 1 3)
        (FileRight List.sum x.fd 5 3)
        [([1, 0, 0, 7, 0, 0, 0], fun _ => ⟨3, 0⟩), ([1, 0, 0, 1, 0, 0, 0], fun _ => ⟨3, 0⟩),
          ([2, 1, 2, 1, 0, 0], fun n => if n = 0 then ⟨-1, eAgain⟩ else ⟨2, 0⟩)] ⟨5, []⟩ := by
  obtain ⟨s, hs⟩ : ∃ s, Machine.run
      (sendFileStep List.sum ⟨[freeClient, ⟨1, .tcp, .client, 0, 0, 0⟩], 1⟩ 1 3)
      [([1, 0, 0, 7, 0, 0, 0], fun _ => ⟨3, 0⟩), ([1, 0, 0, 1, 0, 0, 0], fun _ => ⟨3, 0⟩),
        ([2, 1, 2, 1, 0, 0], fun n => if n = 0 then ⟨-1, eAgain⟩ else ⟨2, 0⟩)] ⟨5, []⟩ = some s :=
    ⟨_, rfl⟩
  have h₀ : cipSendFile ⟨[freeClient, ⟨1, .tcp, .client, 0, 0, 0⟩], 1⟩ 1 5 3 true =
      some ⟨5, []⟩ := by decide
  obtain ⟨x, hx, hlive, hiff⟩ := sendFile_right_iff List.sum h₀ _ hs
  refine ⟨x, hx, hlive, hiff.mpr ?_⟩
  obtain rfl := Option.some.inj hx
  decide +kernel

/-- The data of connection 0, whose descriptor is 3, goes to the descriptor 1, since connection 1 has
the descriptor 0; without a connection that has the descriptor 0 it goes nowhere, and is
acknowledged. -/
theorem not_sendFile_right :
    ¬(∀ (crc : List ℕ → ℕ) (info : CipInfo) (x : CipClient) (fdIdx fileLen segmentLen : ℕ)
        (s₀ : FileSend) (is : List (List UInt8 × (ℕ → SendResult))),
      info.cli[fdIdx]? = some x → cipSendFile info fdIdx fileLen segmentLen true = some s₀ →
      (Machine.run (sendFileStep crc info fdIdx segmentLen) is s₀).isSome →
      Machine.Always (sendFileStep crc info fdIdx segmentLen)
        (FileRight crc x.fd fileLen segmentLen) is s₀) ∧
    (sendFileStep List.sum ⟨[⟨3, .tcp, .client, 0, 0, 0⟩, ⟨0, .tcp, .client, 0, 0, 0⟩], 2⟩ 0 1
      ([9, 9, 0, 0, 0], fun _ => ⟨1, 0⟩) ⟨1, []⟩).map FileSend.writes = some [(1, [9])] ∧
    (sendFileStep List.sum ⟨[⟨3, .tcp, .client, 0, 0, 0⟩], 1⟩ 0 1
      ([9, 9, 0, 0, 0], fun _ => ⟨1, 0⟩) ⟨1, []⟩).map
        (fun s => (s.writes, s.acked.length, s.remaining)) = some ([], 1, 0) := by
  refine ⟨fun hall => ?_, by decide +kernel, by decide +kernel⟩
  have hright := hall List.sum
    ⟨[⟨3, .tcp, .client, 0, 0, 0⟩, ⟨0, .tcp, .client, 0, 0, 0⟩], 2⟩ _ 0 1 1 ⟨1, []⟩
    [([9, 9, 0, 0, 0], fun _ => ⟨1, 0⟩)] rfl (by decide) rfl
  have hsocket := (hright.2 ⟨0, [⟨[9], 9, .ack, some (1, [9])⟩]⟩ (by decide +kernel)).socket (1, [9])
    (mem_singleton_self _)
  exact absurd hsocket (by decide)

end Run

end Gd32.App
