import Gd32Firmware.Lib.LittleEndian
import Gd32Firmware.Lib.Loop
import Gd32Firmware.Util.Crc
import Mathlib.Data.List.GetD

/-!
# The blue courier link

`app_blue_courier_link.c` cuts a message into fragments that fit a notification and puts the ones
that come in together again. A fragment has a header of four bytes and a checksum behind it; the
first one of several begins with the length of the message.

The checksum is computed outside the repository (`co_crc16`), the MTU is the link's, and what a
message has the device do is left open but for the messages it sends in return (`Peer`).
The allocator does not fail.
-/

namespace Gd32.Bcw

open List

/-! ### The link -/

def bcwValueLen : ℕ := 512

def bcwFragMaxLen : ℕ := 256

def bcwlFlagBeginMask : UInt8 := 0x01

def bcwlFlagEndMask : UInt8 := 0x02

def bcwlFlagReqAckMask : UInt8 := 0x04

/-- The errors of `bcw_error_code` that are reported here. -/
inductive BcwError where
  | packetLenError
  | unknownOpcode
  | noHandshake
  | sequenceError
  | crcCheck
  | recvError
  deriving DecidableEq, Repr

/-- The number of an error. -/
def BcwError.code : BcwError → UInt8
  | .packetLenError => 1
  | .unknownOpcode => 2
  | .noHandshake => 7
  | .sequenceError => 8
  | .crcCheck => 9
  | .recvError => 11

/-- A message: its opcode and its bytes. -/
abbrev Message : Type := UInt8 × List UInt8

def bcwlOpcodeGetType (opcode : UInt8) : UInt8 := (opcode &&& 0xC0) >>> 6

def bcwlOpcodeGetSubtype (opcode : UInt8) : UInt8 := opcode &&& 0x3F

/-- What is outside. -/
structure Peer where
  /-- `co_crc16`, from 0. -/
  crc16 : List UInt8 → UInt16
  /-- `ble_gatts_mtu_get`. -/
  mtu : ℕ
  /-- What `bcwp_msg_handler` sends. -/
  answers : UInt8 → List UInt8 → List Message
  /-- What is in the memory that `sys_malloc` gives. -/
  fresh : ℕ → UInt8

/-- What is done. -/
inductive BcwlAction where
  /-- `ble_gatts_ntf_ind_send`. -/
  | notified (packet : List UInt8)
  /-- `bcwl_msg_handler` is called. -/
  | handled (opcode : UInt8) (data : List UInt8)
  /-- `bcwl_error_report` is called. -/
  | reported (reason : BcwError)

/-- `bcwl_env_t`, with what has been done. -/
structure Bcwl where
  ntfCfg : ℕ
  recvSeq : UInt8
  sendSeq : UInt8
  /-- `recv_buf`, if there is one. -/
  recvBuf : Option (ℕ → UInt8)
  totalLen : ℕ
  offset : ℕ
  fragSize : ℕ
  peerRecvSize : ℕ
  handshakeSuccess : Bool
  log : List BcwlAction

/-! ### Sending -/

/-- A `bcwl_header_t` with the bytes behind it and the checksum. -/
def bcwlPacket (crc16 : List UInt8 → UInt16) (flag seq opcode : UInt8) (payload : List UInt8) :
    List UInt8 :=
  let body := seq :: opcode :: UInt8.ofNat payload.length :: payload
  flag :: body ++ LittleEndian.bytes 2 (crc16 body).toNat

def bcwlNtfEventSend (packet : List UInt8) (s : Bcwl) : Bcwl :=
  if s.ntfCfg = 0 then s else { s with log := s.log ++ [.notified packet] }

/-- The number of bytes that a pass of `bcwl_send` takes, and its flag and bytes. -/
def bcwlSegment (fragSize : ℕ) (data : List UInt8) (remainLen : ℕ) :
    ℕ × UInt8 × List UInt8 :=
  let rest := data.drop (data.length - remainLen)
  if fragSize < remainLen then
    if remainLen = data.length then
      (fragSize - 2, bcwlFlagBeginMask, LittleEndian.bytes 2 remainLen ++ rest.take (fragSize - 2))
    else (fragSize, 0, rest.take fragSize)
  else
    (remainLen, (if data.length ≤ fragSize then bcwlFlagBeginMask else 0) ||| bcwlFlagEndMask,
      rest.take remainLen)

variable (w : Peer)

/-- A pass of `bcwl_send`. -/
def bcwlSendPass (opcode : UInt8) (data : List UInt8) (p : ℕ × Bcwl) : ℕ × Bcwl ⊕ Bcwl :=
  if 0 < p.1 then
    let seg := bcwlSegment p.2.fragSize data p.1
    let packet := bcwlPacket w.crc16 seg.2.1 p.2.sendSeq opcode seg.2.2
    .inl (p.1 - seg.1, bcwlNtfEventSend packet { p.2 with sendSeq := p.2.sendSeq + 1 })
  else .inr p.2

/-- `bcwl_send`; a fragment that takes nothing has it go on for ever. -/
def bcwlSend (opcode : UInt8) (data : List UInt8) (s : Bcwl) : Option Bcwl :=
  if s.peerRecvSize < data.length then some s
  else Loop.runFor (bcwlSendPass w opcode data) (data.length + 1) (data.length, s)

/-- Messages are sent one after the other. -/
def bcwlSendAll (msgs : List Message) (s : Bcwl) : Option Bcwl :=
  msgs.foldlM (fun s m => bcwlSend w m.1 m.2 s) s

/-! ### Receiving -/

def bcwlErrorReport (reason : BcwError) (s : Bcwl) : Option Bcwl :=
  bcwlSend w 0x02 [reason.code] { s with log := s.log ++ [.reported reason] }

def bcwlSendAck (seq : UInt8) (s : Bcwl) : Option Bcwl := bcwlSend w 0x01 [seq] s

def bcwlHandleMgmtHandshake (data : List UInt8) (s : Bcwl) : Option Bcwl :=
  if data.length ≠ 4 then bcwlErrorReport w .packetLenError s
  else
    let mtu := min (min (LittleEndian.value (data.take 2)) w.mtu) bcwFragMaxLen
    bcwlSend w 0x00 (LittleEndian.bytes 2 mtu ++ LittleEndian.bytes 2 bcwValueLen)
      { s with
        peerRecvSize := min (LittleEndian.value (data.drop 2)) bcwValueLen
        fragSize := (mtu + 256 - 9) % 256
        handshakeSuccess := true }

def bcwlMsgHandler (opcode : UInt8) (data : List UInt8) (s : Bcwl) : Option Bcwl :=
  let s := { s with log := s.log ++ [.handled opcode data] }
  if bcwlOpcodeGetType opcode = 0 then
    if bcwlOpcodeGetSubtype opcode = 0 then bcwlHandleMgmtHandshake w data s
    else if bcwlOpcodeGetSubtype opcode = 1 ∨ bcwlOpcodeGetSubtype opcode = 2 then some s
    else bcwlErrorReport w .unknownOpcode s
  else if bcwlOpcodeGetType opcode = 1 then
    bcwlSendAll w (w.answers (bcwlOpcodeGetSubtype opcode) data) s
  else bcwlErrorReport w .unknownOpcode s

/-- `sys_memcpy` into the buffer. -/
def copyTo (buf : ℕ → UInt8) (offset : ℕ) (bytes : List UInt8) : ℕ → UInt8 := fun x =>
  if offset ≤ x ∧ x < offset + bytes.length then bytes.getD (x - offset) 0 else buf x

/-- `err_recv` of `bcwl_receive`. -/
def bcwlErrRecv (status : BcwError) (s : Bcwl) : Option Bcwl :=
  bcwlErrorReport w status { s with offset := 0, recvBuf := none }

/-- `bcwl_receive` after the checksum; `data` is what comes behind the header. -/
def bcwlDeliver (flag opcode : UInt8) (dataLen : ℕ) (data : List UInt8) (s : Bcwl) :
    Option Bcwl :=
  if flag &&& bcwlFlagBeginMask ≠ 0 then
    if flag &&& bcwlFlagEndMask ≠ 0 then bcwlMsgHandler w opcode (data.take dataLen) s
    else if s.offset ≠ 0 then bcwlErrRecv w .recvError s
    else
      let s := { s with totalLen := LittleEndian.value (data.take 2) }
      if bcwValueLen < s.totalLen then bcwlErrRecv w .recvError s
      else some { s with
        recvBuf := some (copyTo w.fresh s.offset ((data.drop 2).take (dataLen - 2)))
        offset := dataLen - 2 }
  else if flag &&& bcwlFlagEndMask ≠ 0 then
    if s.offset = 0 ∨ s.offset + dataLen ≠ s.totalLen then bcwlErrRecv w .recvError s
    else
      let buf := copyTo (s.recvBuf.getD w.fresh) s.offset (data.take dataLen)
      (bcwlMsgHandler w opcode ((List.range s.totalLen).map buf)
        { s with recvBuf := some buf }).map fun s => { s with offset := 0, recvBuf := none }
  else if s.offset = 0 ∨ s.totalLen ≤ s.offset + dataLen then bcwlErrRecv w .recvError s
  else
    some { s with
      recvBuf := some (copyTo (s.recvBuf.getD w.fresh) s.offset (data.take dataLen))
      offset := s.offset + dataLen }

def bcwlReceive (packet : List UInt8) (s : Bcwl) : Option Bcwl :=
  if packet.length < 4 then bcwlErrorReport w .packetLenError s
  else
    let flag := packet.getD 0 0
    let seq := packet.getD 1 0
    let opcode := packet.getD 2 0
    let dataLen := (packet.getD 3 0).toNat
    let data := packet.drop 4
    if s.handshakeSuccess = false ∧ opcode ≠ 0 then bcwlErrorReport w .noHandshake s
    else
      (if flag &&& bcwlFlagReqAckMask ≠ 0 then bcwlSendAck w seq s else some s).bind fun s =>
        if seq ≠ s.recvSeq then bcwlErrorReport w .sequenceError s
        else
          let s := { s with recvSeq := s.recvSeq + 1 }
          if (w.crc16 ((packet.drop 1).take (dataLen + 3))).toNat ≠
              LittleEndian.value ((data.drop dataLen).take 2) then
            bcwlErrRecv w .crcCheck s
          else bcwlDeliver w flag opcode dataLen data s

/-- Packets come in one after the other. -/
def bcwlReceiveAll (packets : List (List UInt8)) (s : Bcwl) : Option Bcwl :=
  packets.foldlM (fun s p => bcwlReceive w p s) s

/-! ### What has been done -/

/-- The packets that were notified. -/
def notified : List BcwlAction → List (List UInt8) :=
  List.filterMap fun | .notified p => some p | _ => none

/-- The messages that were handled. -/
def handled : List BcwlAction → List Message :=
  List.filterMap fun | .handled opcode data => some (opcode, data) | _ => none

/-- The errors that were reported. -/
def reported : List BcwlAction → List BcwError :=
  List.filterMap fun | .reported reason => some reason | _ => none

/-- `bcwl_msg_handler` knows the opcode. -/
def knownOpcode (opcode : UInt8) : Bool :=
  bcwlOpcodeGetType opcode == 1 || bcwlOpcodeGetType opcode == 0 && bcwlOpcodeGetSubtype opcode < 3

/-! ### Fragments -/

/-- The fragments of what follows the first one: their flags and bytes. -/
inductive Tail (F : ℕ) : List UInt8 → List (UInt8 × List UInt8) → Prop
  | last {d : List UInt8} (hpos : 0 < d.length) (hle : d.length ≤ F) :
    Tail F d [(bcwlFlagEndMask, d)]
  | more {d : List UInt8} {ps : List (UInt8 × List UInt8)} (hlt : F < d.length)
    (h : Tail F (d.drop F) ps) : Tail F d ((0, d.take F) :: ps)

/-- **The fragments of a message.** -/
inductive Fragments (F : ℕ) : List UInt8 → List (UInt8 × List UInt8) → Prop
  | whole {d : List UInt8} (hle : d.length ≤ F) :
    Fragments F d [(bcwlFlagBeginMask ||| bcwlFlagEndMask, d)]
  | first {d : List UInt8} {ps : List (UInt8 × List UInt8)} (hlt : F < d.length)
    (h : Tail F (d.drop (F - 2)) ps) :
    Fragments F d
      ((bcwlFlagBeginMask, LittleEndian.bytes 2 d.length ++ d.take (F - 2)) :: ps)

/-- The packets of some fragments, with their sequence numbers. -/
def packetsOf (crc16 : List UInt8 → UInt16) (opcode : UInt8) :
    UInt8 → List (UInt8 × List UInt8) → List (List UInt8)
  | _, [] => []
  | seq, p :: ps => bcwlPacket crc16 p.1 seq opcode p.2 :: packetsOf crc16 opcode (seq + 1) ps

/-- The link after some fragments have been sent. -/
def Bcwl.sent (s : Bcwl) (opcode : UInt8) (ps : List (UInt8 × List UInt8)) : Bcwl :=
  { s with
    sendSeq := s.sendSeq + UInt8.ofNat ps.length
    log := s.log ++
      if s.ntfCfg = 0 then [] else (packetsOf w.crc16 opcode s.sendSeq ps).map .notified }

variable {w : Peer} {s : Bcwl} {opcode : UInt8} {data d : List UInt8} {F : ℕ}

/-! ### What is sent -/

theorem sent_nil : s.sent w opcode [] = s := by
  have hseq : s.sendSeq + UInt8.ofNat 0 = s.sendSeq := UInt8.add_zero _
  have hlog : (s.log ++ if s.ntfCfg = 0 then [] else List.map BcwlAction.notified []) = s.log := by
    split_ifs <;> exact append_nil _
  simp only [Bcwl.sent, length_nil, packetsOf, hseq, hlog]

theorem sent_cons (p : UInt8 × List UInt8) (ps : List (UInt8 × List UInt8)) :
    (bcwlNtfEventSend (bcwlPacket w.crc16 p.1 s.sendSeq opcode p.2)
      { s with sendSeq := s.sendSeq + 1 }).sent w opcode ps = s.sent w opcode (p :: ps) := by
  have hseq : s.sendSeq + 1 + UInt8.ofNat ps.length = s.sendSeq + UInt8.ofNat (ps.length + 1) := by
    rw [UInt8.ofNat_add, UInt8.add_assoc, UInt8.add_comm 1]
    rfl
  rw [bcwlNtfEventSend]
  split_ifs with hntf
  · simp only [Bcwl.sent, if_pos hntf, hseq, length_cons]
  · simp only [Bcwl.sent, if_neg hntf, hseq, length_cons, packetsOf, map_cons,
      append_assoc, singleton_append]

@[simp] theorem fragSize_ntfEventSend (packet : List UInt8) :
    (bcwlNtfEventSend packet s).fragSize = s.fragSize := by
  rw [bcwlNtfEventSend]
  split_ifs <;> rfl

/-- **What follows the first fragment is sent.** -/
theorem sends_tail (hF : 3 ≤ F) {r : ℕ} (hpos : 0 < r) (hr : r < data.length)
    (hlast : F < data.length) (hs : s.fragSize = F) :
    ∃ ps, Tail F (data.drop (data.length - r)) ps ∧
      Loop.runFor (bcwlSendPass w opcode data) (r + 1) (r, s) = some (s.sent w opcode ps) := by
  induction r using Nat.strong_induction_on generalizing s with
  | _ r ih =>
  have hlen : (data.drop (data.length - r)).length = r := by
    rw [length_drop]
    omega
  by_cases hmore : F < r
  · -- a fragment in the middle
    have hseg : bcwlSegment s.fragSize data r =
        (F, 0, (data.drop (data.length - r)).take F) := by
      rw [bcwlSegment, hs, if_pos hmore, if_neg (by omega)]
    obtain ⟨ps, htail, hrun⟩ := ih (r - F) (by omega) (by omega) (by omega)
      (s := bcwlNtfEventSend (bcwlPacket w.crc16 0 s.sendSeq opcode
        ((data.drop (data.length - r)).take F)) { s with sendSeq := s.sendSeq + 1 })
      (by rw [fragSize_ntfEventSend, hs])
    have hdrop : data.drop (data.length - (r - F)) =
        (data.drop (data.length - r)).drop F := by
      rw [drop_drop]
      congr 1
      omega
    rw [hdrop] at htail
    refine ⟨_, .more (by omega) htail, ?_⟩
    rw [Loop.runFor_of_inl (by rw [bcwlSendPass, if_pos hpos, hseg]),
      Loop.runFor_mono hrun (by omega)]
    exact congrArg some (sent_cons (0, _) ps)
  · -- the last fragment
    have hseg : bcwlSegment s.fragSize data r =
        (r, bcwlFlagEndMask, data.drop (data.length - r)) := by
      rw [bcwlSegment, hs, if_neg hmore, if_neg (by omega), take_of_length_le (by omega)]
      rfl
    refine ⟨_, .last (by omega) (by omega), ?_⟩
    have hend (u : Bcwl) : Loop.runFor (bcwlSendPass w opcode data) r (r - r, u) = some u := by
      obtain ⟨k, rfl⟩ : ∃ k, r = k + 1 := ⟨r - 1, by omega⟩
      exact Loop.runFor_of_inr (by rw [bcwlSendPass, if_neg (by simp)]) k
    rw [Loop.runFor_of_inl (by rw [bcwlSendPass, if_pos hpos, hseg]), hend,
      ← sent_cons (bcwlFlagEndMask, _) [], sent_nil]

/-- **A message is sent in fragments.** -/
theorem sends_fragments (hF : 3 ≤ F) (hpos : 0 < data.length) (hs : s.fragSize = F)
    (hpeer : data.length ≤ s.peerRecvSize) :
    ∃ ps, Fragments F data ps ∧ bcwlSend w opcode data s = some (s.sent w opcode ps) := by
  rw [bcwlSend, if_neg (by omega)]
  by_cases hmore : F < data.length
  · have hseg : bcwlSegment s.fragSize data data.length = (F - 2, bcwlFlagBeginMask,
        LittleEndian.bytes 2 data.length ++ data.take (F - 2)) := by
      rw [bcwlSegment, hs, if_pos hmore, if_pos rfl, Nat.sub_self, drop_zero]
    obtain ⟨ps, htail, hrun⟩ := sends_tail hF (r := data.length - (F - 2)) (by omega) (by omega)
      hmore (s := bcwlNtfEventSend (bcwlPacket w.crc16 bcwlFlagBeginMask s.sendSeq opcode
        (LittleEndian.bytes 2 data.length ++ data.take (F - 2)))
        { s with sendSeq := s.sendSeq + 1 }) (by rw [fragSize_ntfEventSend, hs])
    have hdrop : data.length - (data.length - (F - 2)) = F - 2 := by omega
    rw [hdrop] at htail
    refine ⟨_, .first hmore htail, ?_⟩
    rw [Loop.runFor_of_inl (by rw [bcwlSendPass, if_pos hpos, hseg]),
      Loop.runFor_mono hrun (by omega)]
    exact congrArg some (sent_cons (bcwlFlagBeginMask, _) ps)
  · have hseg : bcwlSegment s.fragSize data data.length =
        (data.length, bcwlFlagBeginMask ||| bcwlFlagEndMask, data) := by
      rw [bcwlSegment, hs, if_neg hmore, if_pos (by omega), Nat.sub_self, drop_zero,
        take_length]
    refine ⟨_, .whole (by omega), ?_⟩
    have hend (u : Bcwl) : Loop.runFor (bcwlSendPass w opcode data) data.length
        (data.length - data.length, u) = some u := by
      obtain ⟨k, hk⟩ : ∃ k, data.length = k + 1 := ⟨data.length - 1, by omega⟩
      rw [hk]
      exact Loop.runFor_of_inr (by rw [bcwlSendPass, if_neg (by simp)]) k
    rw [Loop.runFor_of_inl (by rw [bcwlSendPass, if_pos hpos, hseg]), hend,
      ← sent_cons (bcwlFlagBeginMask ||| bcwlFlagEndMask, _) [], sent_nil]

/-! ### What a device sends itself -/

variable {t u : Bcwl}

/-- Sending has changed nothing but the sequence number, and has only notified. -/
structure Aside (s t : Bcwl) : Prop where
  same : t = { s with sendSeq := t.sendSeq, log := t.log }
  handled : handled t.log = handled s.log
  reported : reported t.log = reported s.log

theorem Aside.refl (s : Bcwl) : Aside s s := ⟨rfl, rfl, rfl⟩

theorem Aside.trans (h : Aside s t) (h' : Aside t u) : Aside s u := by
  refine ⟨?_, h'.handled.trans h.handled, h'.reported.trans h.reported⟩
  rw [h'.same, h.same]

theorem aside_ntfEventSend (packet : List UInt8) (seq : UInt8) :
    Aside s (bcwlNtfEventSend packet { s with sendSeq := seq }) := by
  rw [bcwlNtfEventSend]
  split_ifs
  · exact ⟨rfl, rfl, rfl⟩
  · refine ⟨rfl, ?_, ?_⟩
    · simp [handled]
    · simp [reported]

/-- A pass of `bcwl_send` takes at least a byte. -/
theorem segment_pos (data : List UInt8) {r : ℕ} (hF : 3 ≤ F) (hpos : 0 < r) :
    0 < (bcwlSegment F data r).1 := by
  simp only [bcwlSegment]
  split_ifs
  · exact Nat.sub_pos_of_lt hF
  · exact Nat.lt_of_lt_of_le (by decide) hF
  · exact hpos
  · exact hpos

/-- **Sending ends** when a fragment holds three bytes. -/
theorem aside_send (hF : 3 ≤ s.fragSize) : ∃ t, bcwlSend w opcode data s = some t ∧ Aside s t := by
  rw [bcwlSend]
  split_ifs
  · exact ⟨s, rfl, .refl s⟩
  have hloop : ∀ r s, 3 ≤ s.fragSize →
      ∃ t, Loop.runFor (bcwlSendPass w opcode data) (r + 1) (r, s) = some t ∧ Aside s t := by
    intro r
    induction r using Nat.strong_induction_on with
    | _ r ih =>
    intro s hF
    by_cases hpos : 0 < r
    · have hseg := segment_pos data hF hpos
      set seg := bcwlSegment s.fragSize data r with hdef
      obtain ⟨t, hrun, hside⟩ := ih (r - seg.1) (by omega)
        (bcwlNtfEventSend (bcwlPacket w.crc16 seg.2.1 s.sendSeq opcode seg.2.2)
          { s with sendSeq := s.sendSeq + 1 }) (by rwa [fragSize_ntfEventSend])
      refine ⟨t, ?_, (aside_ntfEventSend _ _).trans hside⟩
      rw [Loop.runFor_of_inl (by rw [bcwlSendPass, if_pos hpos, ← hdef]),
        Loop.runFor_mono hrun (by omega)]
    · exact ⟨s, Loop.runFor_of_inr (by rw [bcwlSendPass, if_neg hpos]) r, .refl s⟩
  exact hloop data.length s hF

theorem Aside.fragSize (h : Aside s t) : t.fragSize = s.fragSize := by rw [h.same]

theorem aside_sendAll {msgs : List Message} (hF : 3 ≤ s.fragSize) :
    ∃ t, bcwlSendAll w msgs s = some t ∧ Aside s t := by
  induction msgs generalizing s with
  | nil => exact ⟨s, rfl, .refl s⟩
  | cons m msgs ih =>
    obtain ⟨t, hsend, hside⟩ := aside_send (w := w) hF
    obtain ⟨u, hall, hside'⟩ := ih (s := t) (by rwa [hside.fragSize])
    refine ⟨u, ?_, hside.trans hside'⟩
    rw [bcwlSendAll, foldlM_cons, hsend]
    exact hall

/-- Only a handshake has an opcode of type and subtype 0. -/
theorem not_handshake (h : opcode ≠ 0) :
    ¬(bcwlOpcodeGetType opcode = 0 ∧ bcwlOpcodeGetSubtype opcode = 0) := by
  have hall : ∀ n : Fin 256, UInt8.ofNat n ≠ 0 →
      ¬(bcwlOpcodeGetType (UInt8.ofNat n) = 0 ∧ bcwlOpcodeGetSubtype (UInt8.ofNat n) = 0) := by
    decide +kernel
  have := hall ⟨opcode.toNat, opcode.toNat_lt⟩
  rw [UInt8.ofNat_toNat] at this
  exact this h

theorem eq_of_lt_three {x : UInt8} (h : x < 3) : x = 0 ∨ x = 1 ∨ x = 2 := by
  have hlt : x.toNat < 3 := UInt8.lt_iff_toNat_lt.mp h
  have hcases : x.toNat = 0 ∨ x.toNat = 1 ∨ x.toNat = 2 := by omega
  rcases hcases with h | h | h
  · exact Or.inl (UInt8.toNat.inj h)
  · exact Or.inr (Or.inl (UInt8.toNat.inj h))
  · exact Or.inr (Or.inr (UInt8.toNat.inj h))

/-- What the device reports when it is given a message. -/
def reportsOf (opcode : UInt8) : List BcwError :=
  if knownOpcode opcode = true then [] else [.unknownOpcode]

/-- A message has been handled. -/
structure Handled (opcode : UInt8) (data : List UInt8) (s t : Bcwl) : Prop where
  same : t = { s with sendSeq := t.sendSeq, log := t.log }
  handled : handled t.log = handled s.log ++ [(opcode, data)]
  reported : reported t.log = reported s.log ++ reportsOf opcode

/-- **The handler is given a message.** -/
theorem handled_msgHandler (data : List UInt8) (hop : opcode ≠ 0) (hF : 3 ≤ s.fragSize) :
    ∃ t, bcwlMsgHandler w opcode data s = some t ∧ Handled opcode data s t := by
  have hreport : knownOpcode opcode = false → ∃ t,
      bcwlErrorReport w .unknownOpcode { s with log := s.log ++ [.handled opcode data] } = some t ∧
        Handled opcode data s t := by
    intro hunknown
    obtain ⟨t, ht, hside⟩ := aside_send (w := w)
      (s := { s with log := s.log ++ [.handled opcode data] ++ [.reported .unknownOpcode] }) hF
    refine ⟨t, ht, by rw [hside.same], ?_, ?_⟩
    · rw [hside.handled]
      simp [handled]
    · rw [hside.reported, reportsOf, if_neg (by simp [hunknown])]
      simp [reported]
  have hquiet : knownOpcode opcode = true →
      ∀ t, Aside { s with log := s.log ++ [.handled opcode data] } t → Handled opcode data s t := by
    intro hknown t hside
    refine ⟨by rw [hside.same], ?_, ?_⟩
    · rw [hside.handled]
      simp [handled]
    · rw [hside.reported, reportsOf, if_pos hknown]
      simp [reported]
  rw [bcwlMsgHandler]
  split_ifs with htype hsub hsmall htype'
  · exact absurd ⟨htype, hsub⟩ (not_handshake hop)
  · have hknown : knownOpcode opcode = true := by
      rcases hsmall with h | h <;> simp [knownOpcode, htype, h]
    exact ⟨_, rfl, hquiet hknown _ (.refl _)⟩
  · refine hreport ?_
    have hlarge : ¬bcwlOpcodeGetSubtype opcode < 3 := by
      intro hlt
      rcases eq_of_lt_three hlt with h | h | h
      · exact hsub h
      · exact hsmall (Or.inl h)
      · exact hsmall (Or.inr h)
    simp [knownOpcode, htype, hlarge]
  · obtain ⟨t, ht, hside⟩ := aside_sendAll (w := w)
      (s := { s with log := s.log ++ [.handled opcode data] }) hF
    exact ⟨t, ht, hquiet (by simp [knownOpcode, htype']) t hside⟩
  · exact hreport (by simp [knownOpcode, htype, htype'])

/-! ### A packet comes in -/

/-- **A packet that is expected is delivered.** -/
theorem receive_packet (flag : UInt8) (payload : List UInt8)
    (hshake : s.handshakeSuccess = true) (hflag : flag &&& bcwlFlagReqAckMask = 0)
    (hlen : payload.length < 256) :
    ∃ crc, bcwlReceive w (bcwlPacket w.crc16 flag s.recvSeq opcode payload) s =
      bcwlDeliver w flag opcode payload.length (payload ++ crc)
        { s with recvSeq := s.recvSeq + 1 } := by
  have hnat : (UInt8.ofNat payload.length).toNat = payload.length := by
    rw [UInt8.toNat_ofNat', Nat.mod_eq_of_lt hlen]
  set body := s.recvSeq :: opcode :: UInt8.ofNat payload.length :: payload with hbody
  set crc := LittleEndian.bytes 2 (w.crc16 body).toNat with hcrc
  have hvalue : LittleEndian.value crc = (w.crc16 body).toNat :=
    LittleEndian.value_bytes (w.crc16 body).toNat_lt
  have hpacket : bcwlPacket w.crc16 flag s.recvSeq opcode payload = flag :: (body ++ crc) := rfl
  have htake : (body ++ crc).take (payload.length + 3) = body := by
    rw [take_append_of_le_length (by simp [hbody]), take_of_length_le (by simp [hbody])]
  have hrest : ((payload ++ crc).drop payload.length).take 2 = crc := by
    rw [drop_left, take_of_length_le (by simp [hcrc])]
  refine ⟨crc, ?_⟩
  rw [hpacket, bcwlReceive, if_neg (by simp [hbody])]
  have hget : (flag :: (body ++ crc)).getD 3 0 = UInt8.ofNat payload.length := rfl
  have hdrop : (flag :: (body ++ crc)).drop 4 = payload ++ crc := rfl
  have hdrop' : (flag :: (body ++ crc)).drop 1 = body ++ crc := rfl
  simp only [hget, hdrop, hdrop', hnat, htake, hrest, hvalue]
  rw [if_neg (by simp [hshake]), if_neg (by simp [hflag])]
  simp [hbody]

/-! ### Putting together -/

/-- A buffer begins with some bytes. -/
def Begins (buf : ℕ → UInt8) (d : List UInt8) : Prop := ∀ x < d.length, buf x = d.getD x 0

theorem begins_copyTo {buf : ℕ → UInt8} {pre : List UInt8} (h : Begins buf pre) :
    Begins (copyTo buf pre.length d) (pre ++ d) := by
  intro x hx
  rw [length_append] at hx
  rw [copyTo]
  by_cases hlt : x < pre.length
  · rw [if_neg (by omega), h x hlt, getD_append _ _ _ _ hlt]
  · rw [if_pos (by omega), getD_append_right _ _ _ _ (by omega)]

/-- The bytes that a buffer begins with are read back. -/
theorem map_range_of_begins {buf : ℕ → UInt8} (h : Begins buf d) :
    (List.range d.length).map buf = d := by
  refine ext_getElem (by simp) fun x hx hx' => ?_
  rw [getElem_map, getElem_range, h x hx', getD_eq_getElem d 0 hx']

/-- The first bytes of a message have come in. -/
structure Gathering (w : Peer) (s : Bcwl) (pre : List UInt8) (n : ℕ) : Prop where
  shake : s.handshakeSuccess = true
  frag : 3 ≤ s.fragSize
  pos : 0 < pre.length
  offset : s.offset = pre.length
  total : s.totalLen = pre.length + n
  bytes : Begins (s.recvBuf.getD w.fresh) pre

/-- The link is between two messages. -/
structure Ready (s : Bcwl) : Prop where
  shake : s.handshakeSuccess = true
  frag : 3 ≤ s.fragSize
  offset : s.offset = 0
  buf : s.recvBuf = none

/-- A message has been received, in some packets. -/
structure Received (m : Message) (n : ℕ) (s t : Bcwl) : Prop where
  ready : Ready t
  seq : t.recvSeq = s.recvSeq + UInt8.ofNat n
  handled : handled t.log = handled s.log ++ [m]
  reported : reported t.log = reported s.log ++ reportsOf m.1

/-- A fragment in the middle is added. -/
theorem gathering_more {pre chunk : List UInt8} {n : ℕ} (h : Gathering w s pre (chunk.length + n))
    (hn : 0 < n) (crc : List UInt8) :
    ∃ t, bcwlDeliver w 0 opcode chunk.length (chunk ++ crc) s = some t ∧
      Gathering w t (pre ++ chunk) n ∧ t.recvSeq = s.recvSeq ∧ t.log = s.log := by
  have htotal := h.total
  have hoffset := h.offset
  have hpos := h.pos
  refine ⟨{ s with
    recvBuf := some (copyTo (s.recvBuf.getD w.fresh) s.offset chunk)
    offset := s.offset + chunk.length }, ?_, ?_, rfl, rfl⟩
  · rw [bcwlDeliver, if_neg (by decide), if_neg (by decide), if_neg (by omega), take_left]
  · refine ⟨h.shake, h.frag, by simp; omega, by simp [hoffset], by simp; omega, ?_⟩
    rw [Option.getD_some, hoffset]
    exact begins_copyTo h.bytes

/-- The last fragment completes the message. -/
theorem received_last {pre : List UInt8} (h : Gathering w s pre d.length) (hop : opcode ≠ 0)
    (crc : List UInt8) :
    ∃ t, bcwlDeliver w bcwlFlagEndMask opcode d.length (d ++ crc) s = some t ∧
      Received (opcode, pre ++ d) 0 s t := by
  have htotal := h.total
  have hoffset := h.offset
  have hpos := h.pos
  have hread : (List.range s.totalLen).map (copyTo (s.recvBuf.getD w.fresh) s.offset d) =
      pre ++ d := by
    rw [htotal, hoffset, ← length_append]
    exact map_range_of_begins (begins_copyTo h.bytes)
  obtain ⟨t, ht, hdone⟩ := handled_msgHandler (w := w) (pre ++ d)
    (s := { s with recvBuf := some (copyTo (s.recvBuf.getD w.fresh) s.offset d) }) hop h.frag
  refine ⟨{ t with offset := 0, recvBuf := none }, ?_, ?_⟩
  · rw [bcwlDeliver, if_neg (by decide), if_pos (by decide), if_neg (by omega)]
    simp only [take_left, hread, ht]
    rfl
  · have hsame := hdone.same
    refine ⟨⟨?_, ?_, rfl, rfl⟩, ?_, hdone.handled, hdone.reported⟩
    · rw [hsame]
      exact h.shake
    · rw [hsame]
      exact h.frag
    · rw [hsame]
      exact (UInt8.add_zero _).symm

theorem Gathering.next {pre : List UInt8} {n : ℕ} (h : Gathering w s pre n) :
    Gathering w { s with recvSeq := s.recvSeq + 1 } pre n := { h with }

theorem Received.cons {m : Message} {n : ℕ} (h : Received m n t u)
    (hseq : t.recvSeq = s.recvSeq + 1) (hlog : t.log = s.log) : Received m (n + 1) s u := by
  refine ⟨h.ready, ?_, by rw [h.handled, hlog], by rw [h.reported, hlog]⟩
  rw [h.seq, hseq, UInt8.ofNat_add, UInt8.add_assoc, UInt8.add_comm 1]
  rfl

theorem receiveAll_cons {p : List UInt8} {ps : List (List UInt8)} (h : bcwlReceive w p s = some t) :
    bcwlReceiveAll w (p :: ps) s = bcwlReceiveAll w ps t := by
  rw [bcwlReceiveAll, foldlM_cons, h]
  rfl

/-- **What follows the first fragment completes the message.** -/
theorem received_tail {ps : List (UInt8 × List UInt8)} (h : Tail F d ps) (hpos : 0 < F)
    (hF : F < 256) (hop : opcode ≠ 0) {pre : List UInt8} (hg : Gathering w s pre d.length) :
    ∃ t, bcwlReceiveAll w (packetsOf w.crc16 opcode s.recvSeq ps) s = some t ∧
      Received (opcode, pre ++ d) ps.length s t := by
  induction h generalizing s pre with
  | @last d hd hle =>
    obtain ⟨crc, hpacket⟩ := receive_packet (w := w) (s := s)
      bcwlFlagEndMask d hg.shake (by decide) (by omega)
    obtain ⟨t, ht, hdone⟩ := received_last hg.next hop crc
    refine ⟨t, ?_, hdone.cons rfl rfl⟩
    rw [packetsOf, receiveAll_cons (hpacket.trans ht)]
    rfl
  | @more d ps hlt htail ih =>
    have hlen : (d.take F).length = F := by
      rw [length_take]
      omega
    obtain ⟨crc, hpacket⟩ := receive_packet (w := w) (s := s)
      0 (d.take F) hg.shake (by decide) (by omega)
    have hsplit : (d.take F).length + (d.drop F).length = d.length := by
      rw [length_take, length_drop]
      omega
    rw [← hsplit] at hg
    obtain ⟨t, ht, hg', hseq, hlog⟩ := gathering_more hg.next
      (by rw [length_drop]; omega) crc
    obtain ⟨u, hu, hdone⟩ := ih hg'
    rw [append_assoc, take_append_drop] at hdone
    refine ⟨u, ?_, hdone.cons hseq hlog⟩
    rw [packetsOf, receiveAll_cons (hpacket.trans ht), ← hu, hseq]

/-- **The fragments of a message give the message.** -/
theorem received_fragments {ps : List (UInt8 × List UInt8)} (h : Fragments F d ps) (hF : 3 ≤ F)
    (hF' : F < 256) (hlen : d.length ≤ bcwValueLen) (hop : opcode ≠ 0) (hs : Ready s) :
    ∃ t, bcwlReceiveAll w (packetsOf w.crc16 opcode s.recvSeq ps) s = some t ∧
      Received (opcode, d) ps.length s t := by
  rw [bcwValueLen] at hlen
  cases h with
  | whole hle =>
    obtain ⟨crc, hpacket⟩ := receive_packet (w := w) (s := s)
      (bcwlFlagBeginMask ||| bcwlFlagEndMask) d hs.shake (by decide) (by omega)
    obtain ⟨t, ht, hdone⟩ := handled_msgHandler (w := w) d
      (s := { s with recvSeq := s.recvSeq + 1 }) hop hs.frag
    have hdeliver : bcwlDeliver w (bcwlFlagBeginMask ||| bcwlFlagEndMask) opcode d.length
        (d ++ crc) { s with recvSeq := s.recvSeq + 1 } = some t := by
      rw [bcwlDeliver, if_pos (by decide), if_pos (by decide), take_left, ht]
    have hsame := hdone.same
    refine ⟨t, ?_, ⟨?_, ?_, ?_, ?_⟩, ?_, hdone.handled, hdone.reported⟩
    · rw [packetsOf, receiveAll_cons (hpacket.trans hdeliver)]
      rfl
    · rw [hsame]
      exact hs.shake
    · rw [hsame]
      exact hs.frag
    · rw [hsame]
      exact hs.offset
    · rw [hsame]
      exact hs.buf
    · rw [hsame]
      rfl
  | @first ps hlt htail =>
    set payload := LittleEndian.bytes 2 d.length ++ d.take (F - 2) with hpayload
    have hbytes : (LittleEndian.bytes 2 d.length).length = 2 := LittleEndian.length_bytes 2 _
    have htake : (d.take (F - 2)).length = F - 2 := by
      rw [length_take]
      omega
    have hplen : payload.length = F := by
      rw [hpayload, length_append, hbytes, htake]
      omega
    obtain ⟨crc, hpacket⟩ := receive_packet (w := w) (s := s)
      bcwlFlagBeginMask payload hs.shake (by decide) (by omega)
    have htotal : LittleEndian.value ((payload ++ crc).take 2) = d.length := by
      rw [hpayload, append_assoc, take_left' hbytes]
      exact LittleEndian.value_bytes (by omega)
    have hrest : ((payload ++ crc).drop 2).take (F - 2) = d.take (F - 2) := by
      rw [hpayload, append_assoc, drop_left' hbytes, take_left' htake]
    have hdeliver : bcwlDeliver w bcwlFlagBeginMask opcode payload.length (payload ++ crc)
        { s with recvSeq := s.recvSeq + 1 } = some { s with
          recvSeq := s.recvSeq + 1
          totalLen := d.length
          recvBuf := some (copyTo w.fresh s.offset (d.take (F - 2)))
          offset := F - 2 } := by
      rw [bcwlDeliver, if_pos (by decide), if_neg (by decide), if_neg (by simp [hs.offset])]
      simp only [htotal, hplen, hrest]
      rw [if_neg (by rw [bcwValueLen]; omega)]
    have hgather : Gathering w { s with
        recvSeq := s.recvSeq + 1
        totalLen := d.length
        recvBuf := some (copyTo w.fresh s.offset (d.take (F - 2)))
        offset := F - 2 } (d.take (F - 2)) (d.drop (F - 2)).length := by
      refine ⟨hs.shake, hs.frag, by omega, htake.symm, ?_, ?_⟩
      · change d.length = (d.take (F - 2)).length + (d.drop (F - 2)).length
        rw [htake, length_drop]
        omega
      · rw [Option.getD_some, hs.offset]
        exact @begins_copyTo _ _ [] fun x hx => absurd hx (Nat.not_lt_zero x)
    obtain ⟨t, ht, hdone⟩ := received_tail htail (by omega) hF' hop hgather
    rw [take_append_drop] at hdone
    refine ⟨t, ?_, hdone.cons rfl rfl⟩
    rw [packetsOf, receiveAll_cons (hpacket.trans hdeliver), ← ht]

/-! ### The link -/

theorem notified_append (l l' : List BcwlAction) :
    notified (l ++ l') = notified l ++ notified l' := filterMap_append

theorem notified_sent (hntf : s.ntfCfg ≠ 0) (ps : List (UInt8 × List UInt8)) :
    notified (s.sent w opcode ps).log = notified s.log ++ packetsOf w.crc16 opcode s.sendSeq ps := by
  rw [Bcwl.sent, if_neg hntf, notified_append]
  congr 1
  induction packetsOf w.crc16 opcode s.sendSeq ps with
  | nil => rfl
  | cons p l ih => exact congrArg (p :: ·) ih

/-- What a message may be: of 1 to 512 bytes, and no handshake. -/
def Sendable (m : Message) : Prop := 0 < m.2.length ∧ m.2.length ≤ bcwValueLen ∧ m.1 ≠ 0

/-- The sender and the receiver, connected. -/
structure Connected (s r : Bcwl) : Prop where
  frag : 3 ≤ s.fragSize
  frag' : s.fragSize ≤ 247
  ntf : s.ntfCfg ≠ 0
  peer : s.peerRecvSize = bcwValueLen
  ready : Ready r
  seq : r.recvSeq = s.sendSeq

theorem receiveAll_append (ps qs : List (List UInt8)) :
    bcwlReceiveAll w (ps ++ qs) s = (bcwlReceiveAll w ps s).bind (bcwlReceiveAll w qs) :=
  foldlM_append

/-- A device whose messages are not answered. -/
def mutePeer : Peer := ⟨fun bytes => crc16 bytes 0, 256, fun _ _ => [], fun _ => 0⟩

/-- A device after the handshake. -/
def shaken (fragSize : ℕ) (recvSeq sendSeq : UInt8) : Bcwl :=
  ⟨1, recvSeq, sendSeq, none, 0, 0, fragSize, bcwValueLen, true, []⟩

end Gd32.Bcw
