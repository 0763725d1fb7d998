import Gd32Firmware.Ble.HciReceive

/-!
# Packets to the controller

`virtual_hci.c`, from the host to the controller: the host puts the bytes of a packet into a cyclic
buffer, in several writes, and posts a message; the controller reads some number of bytes. A read
from the task of the interface is served at once if it can be; any other one is posted, and the task
parks it until a message finds enough bytes. The callback of a read may start the next one.

A write of the host, a read of another task and the processing of a message are what can happen at
a time. The queue of messages is never full.
-/

namespace Gd32.Hci

open List Option

variable {next : List ℕ}

/-! ### The interface -/

def hciCmdMsgType : UInt8 := 1

/-- A read of the controller. -/
structure HciRead where
  id : ℕ
  size : ℕ
  deriving DecidableEq, Repr

/-- `vir_hci_msg_t`. -/
inductive VirHciMsg where
  /-- `VIR_HCI_H2C_MSG_TYPE`. -/
  | h2c
  /-- `VIR_HCI_C2H_MSG_TYPE`. -/
  | c2h
  /-- `VIR_HCI_CTL_READ_MSG_TYPE`. -/
  | ctlRead (read : HciRead)

/-- A call of the host: the pointer to the payload may be `NULL`. -/
inductive HciSendCall where
  /-- `virtual_hci_send_command`. -/
  | command (opcode length : ℕ) (payload : Option (List UInt8))
  /-- `virtual_hci_send_acl_data`. -/
  | aclData (hdlFlags length : ℕ) (payload : Option (List UInt8))
  /-- `virtual_hci_send_iso_data`. -/
  | isoData (hdlFlags length : ℕ) (payload : Option (List UInt8))
  /-- `virtual_hci_send_raw_data`. -/
  | rawData (type : UInt8) (length : ℕ) (payload : Option (List UInt8))

/-- What a call is given: the length and the payload. -/
def HciSendCall.payload : HciSendCall → ℕ × Option (List UInt8)
  | .command _ length payload => (length, payload)
  | .aclData _ length payload => (length, payload)
  | .isoData _ length payload => (length, payload)
  | .rawData _ length payload => (length, payload)

/-- The writes of a call in front of the payload. -/
def HciSendCall.head : HciSendCall → List (List UInt8)
  | .command opcode length _ =>
    [[hciCmdMsgType], LittleEndian.bytes 2 opcode, [UInt8.ofNat length]]
  | .aclData hdlFlags length _ =>
    [[hciAclMsgType], LittleEndian.bytes 2 hdlFlags, LittleEndian.bytes 2 length]
  | .isoData hdlFlags length _ =>
    [[hciIsoMsgType], LittleEndian.bytes 2 (hdlFlags ||| 0x2000), LittleEndian.bytes 2 length]
  | .rawData type _ _ => [[type]]

/-- The room that a call asks for. -/
def HciSendCall.need : HciSendCall → ℕ
  | .command _ length _ => 3 + length + 1
  | .aclData _ length _ => 4 + length + 1
  | .isoData _ length _ => 4 + length + 1
  | .rawData _ length _ => length + 1

/-- The call must carry something. -/
def HciSendCall.nonempty : HciSendCall → Bool
  | .rawData _ length _ => length != 0
  | _ => true

/-- The writes of a call. -/
def HciSendCall.writes (call : HciSendCall) : List (List UInt8) :=
  call.head ++ if 0 < call.payload.1 then [(call.payload.2.getD []).take call.payload.1] else []

/-- The bytes of the H4 packet. -/
def HciSendCall.packet (call : HciSendCall) : List UInt8 := call.writes.flatten

/-- The sending side. -/
structure HciXmit where
  sendCyclicBuf : CyclicBuf
  /-- `read_wait_callback`, `p_read_buf`, `read_size` and `p_read_dummy`. -/
  waiting : Option HciRead
  queue : List VirHciMsg
  /-- The host is in a call, with these writes before the message. -/
  host : Option (List (List UInt8))
  /-- The calls that have returned `true`, or will. -/
  accepted : List HciSendCall
  /-- The calls that have returned `false`. -/
  refused : List HciSendCall
  issued : List ℕ
  /-- The reads that were completed, with the bytes. -/
  completed : List (HciRead × List UInt8)

/-- The sending side after `virtual_hci_init`. -/
def hciXmitInit : HciXmit :=
  ⟨cyclicBufInit staticCyclicBufferLenMax, none, [], none, [], [], [], []⟩

/-- The first check of a send. -/
def hciSendRefused (call : HciSendCall) (s : HciXmit) : Bool :=
  !call.nonempty || decide (0 < call.payload.1 ∧ call.payload.2 = none) ||
    decide (cyclicBufRoom s.sendCyclicBuf < call.need)

/-- The host calls `virtual_hci_send_command`, `virtual_hci_send_acl_data`,
`virtual_hci_send_iso_data` or `virtual_hci_send_raw_data`. -/
def virtualHciSend (call : HciSendCall) (s : HciXmit) : Option HciXmit :=
  if s.host.isSome = true then none
  else if hciSendRefused call s = true then some { s with refused := s.refused ++ [call] }
  else some { s with host := some call.writes, accepted := s.accepted ++ [call] }

/-- The host goes on with its call: a write, or the message behind the last one. -/
def hostStep (s : HciXmit) : Option HciXmit :=
  match s.host with
  | none => none
  | some [] => some { s with host := none, queue := s.queue ++ [.h2c] }
  | some (bytes :: rest) =>
    some { s with
      sendCyclicBuf := (cyclicBufWrite s.sendCyclicBuf bytes).2
      host := some rest }

/-- `virtual_hci_read` from the task of the interface, up to its callback if it has one now. -/
def virtualHciReadHere (size : ℕ) (s : HciXmit) : Bool × HciXmit :=
  let read : HciRead := ⟨s.issued.length, size⟩
  match cyclicBufRead s.sendCyclicBuf size with
  | (none, _) =>
    (false, { s with issued := s.issued ++ [size], queue := s.queue ++ [.ctlRead read] })
  | (some bytes, c) =>
    (true, { s with
      issued := s.issued ++ [size]
      sendCyclicBuf := c
      completed := s.completed ++ [(read, bytes)] })

/-- The reads of these sizes that a callback issues, the callback of each the next one. -/
def callbackReads : List ℕ → HciXmit → HciXmit
  | [], s => s
  | size :: next, s =>
    if (virtualHciReadHere size s).1 = true then callbackReads next (virtualHciReadHere size s).2
    else (virtualHciReadHere size s).2

/-- `virtual_hci_read` from another task. -/
def virtualHciRead (size : ℕ) (s : HciXmit) : HciXmit :=
  { s with
    issued := s.issued ++ [size]
    queue := s.queue ++ [.ctlRead ⟨s.issued.length, size⟩] }

/-- `tx_start_handler`; the parked read is cleared behind its callback. -/
def txStartHandler (next : List ℕ) (s : HciXmit) : HciXmit :=
  match s.waiting with
  | none => s
  | some read =>
    match cyclicBufRead s.sendCyclicBuf read.size with
    | (none, _) => s
    | (some bytes, c) =>
      { callbackReads next { s with
          sendCyclicBuf := c
          completed := s.completed ++ [(read, bytes)] } with waiting := none }

/-- `vir_hci_task` processes a message. -/
def virHciTask (next : List ℕ) (s : HciXmit) : Option HciXmit :=
  match s.queue with
  | [] => none
  | .h2c :: queue => some (txStartHandler next { s with queue := queue })
  | .c2h :: queue => some { s with queue := queue }
  | .ctlRead read :: queue =>
    some (txStartHandler next { s with queue := queue, waiting := some read })

/-- What happens. -/
inductive HciXmitEvent where
  | send (call : HciSendCall)
  | host
  | read (size : ℕ)
  /-- The task processes a message; these are the sizes of the reads from callbacks. -/
  | task (next : List ℕ)
  /-- A message of the other direction is posted. -/
  | post

/-- One event. -/
def hciXmitStep (i : HciXmitEvent) (s : HciXmit) : Option HciXmit :=
  match i with
  | .send call => virtualHciSend call s
  | .host => hostStep s
  | .read size => some (virtualHciRead size s)
  | .task next => virHciTask next s
  | .post => some { s with queue := s.queue ++ [.c2h] }

/-- The controller issues one read at a time, of 1 to 2047 bytes. -/
def HciXmitEvent.Proper (s : HciXmit) : HciXmitEvent → Prop
  | .read size => s.issued.length = s.completed.length ∧ 1 ≤ size ∧ size ≤ 2047
  | .task next => ∀ size ∈ next, 1 ≤ size ∧ size ≤ 2047
  | _ => True

instance HciXmitEvent.decidableProper (s : HciXmit) (i : HciXmitEvent) : Decidable (i.Proper s) :=
  match i with
  | .read size =>
    inferInstanceAs (Decidable (s.issued.length = s.completed.length ∧ 1 ≤ size ∧ size ≤ 2047))
  | .task next => inferInstanceAs (Decidable (∀ size ∈ next, 1 ≤ size ∧ size ≤ 2047))
  | .send _ => inferInstanceAs (Decidable True)
  | .host => inferInstanceAs (Decidable True)
  | .post => inferInstanceAs (Decidable True)

/-! ### What is to be so -/

/-- The bytes in the buffer. -/
def HciXmit.buffered (s : HciXmit) : List UInt8 :=
  cyclicBytes s.sendCyclicBuf (cyclicBufCount s.sendCyclicBuf)

/-- **The controller reads what the host sends.** What has been read, what is in the buffer and what
a call under way has still to write are the packets of the calls that return `true`, and nothing
else; reads are completed one after the other, each once and with its size; and a read that is not
completed waits for more bytes, or for a message. -/
structure HciSendRight (s : HciXmit) : Prop where
  stream : s.completed.flatMap Prod.snd ++ (s.buffered ++ (s.host.getD []).flatten) =
    s.accepted.flatMap HciSendCall.packet
  once : s.completed.map (fun r => r.1.id) = List.range s.completed.length
  full : ∀ r ∈ s.completed, r.2.length = r.1.size ∧ s.issued[r.1.id]? = some r.1.size
  served : s.host = none → s.queue = [] → ∀ id size, s.completed.length ≤ id →
    s.issued[id]? = some size → s.buffered.length < size

/-! ### The invariant -/

/-- The reads that are posted. -/
def reads : List VirHciMsg → List HciRead :=
  List.filterMap fun | .ctlRead read => some read | _ => none

/-- The bytes `q` are in the buffer, and the reads `out` are outstanding. -/
structure HciCore (s : HciXmit) (q : List UInt8) (out : List HciRead) : Prop where
  holds : s.sendCyclicBuf.Holds q
  stream : s.completed.flatMap Prod.snd ++ (q ++ (s.host.getD []).flatten) =
    s.accepted.flatMap HciSendCall.packet
  room : (s.host.getD []).flatten.length ≤ s.sendCyclicBuf.len - 1 - q.length
  once : s.completed.map (fun r => r.1.id) = List.range s.completed.length
  full : ∀ r ∈ s.completed, r.2.length = r.1.size ∧ s.issued[r.1.id]? = some r.1.size
  sizes : s.issued.drop s.completed.length = out.map HciRead.size
  ids : ∀ read ∈ out, read.id = s.completed.length
  one : out.length ≤ 1
  le : s.completed.length ≤ s.issued.length

/-- **The sending side between two events.** -/
structure HciXmitKept (s : HciXmit) : Prop where
  core : ∃ q, HciCore s q (s.waiting.toList ++ reads s.queue)
  served : s.host = none → VirHciMsg.h2c ∉ s.queue → ∀ read ∈ s.waiting,
    cyclicBufCount s.sendCyclicBuf < read.size

variable {s t : HciXmit} {q : List UInt8} {out : List HciRead} {read : HciRead}

/-! ### Reads -/

theorem HciCore.length_issued (h : HciCore s q out) :
    s.issued.length = s.completed.length + out.length := by
  have hlen := congrArg List.length h.sizes
  rw [length_drop, length_map] at hlen
  have := h.le
  omega

/-- A read is issued when none is outstanding. -/
theorem HciCore.issue (h : HciCore s q []) (size : ℕ) :
    HciCore { s with issued := s.issued ++ [size] } q [⟨s.issued.length, size⟩] := by
  have hlen : s.issued.length = s.completed.length := h.length_issued
  refine { h with
    full := ?_
    sizes := ?_
    ids := ?_
    one := Nat.le_refl 1
    le := ?_ }
  · rintro r hr
    obtain ⟨hsize, hissued⟩ := h.full r hr
    refine ⟨hsize, ?_⟩
    have hlt : r.1.id < s.issued.length := (List.getElem?_eq_some_iff.mp hissued).1
    exact (List.getElem?_append_left hlt).trans hissued
  · change (s.issued ++ [size]).drop s.completed.length = [size]
    rw [← hlen, drop_left]
  · rintro read hread
    rw [mem_singleton.mp hread]
    exact hlen
  · change s.completed.length ≤ (s.issued ++ [size]).length
    rw [length_append]
    omega

/-- **The outstanding read is completed.** -/
theorem HciCore.complete (h : HciCore s q [read]) (hle : read.size ≤ q.length) :
    ∃ bytes c, cyclicBufRead s.sendCyclicBuf read.size = (some bytes, c) ∧
      HciCore { s with sendCyclicBuf := c, completed := s.completed ++ [(read, bytes)] }
        (q.drop read.size) [] := by
  obtain ⟨c, hc, hclen, hholds⟩ := h.holds.read_eq hle
  have hid : read.id = s.completed.length := h.ids read (mem_singleton.mpr rfl)
  have hlen : s.issued.length = s.completed.length + 1 := h.length_issued
  have hissued : s.issued[read.id]? = some read.size := by
    have hhead := congrArg List.head? h.sizes
    rw [List.head?_drop] at hhead
    rw [hid]
    exact hhead
  have hlen' : (s.completed ++ [(read, q.take read.size)]).length = s.issued.length := by
    rw [length_append, length_singleton, hlen]
  refine ⟨_, c, hc, hholds, ?_, ?_, ?_, ?_, ?_, nofun, Nat.zero_le 1, Nat.le_of_eq hlen'⟩
  · have hsplit : (s.completed ++ [(read, q.take read.size)]).flatMap Prod.snd =
        s.completed.flatMap Prod.snd ++ q.take read.size := by
      rw [flatMap_append, flatMap_singleton]
    change (s.completed ++ [(read, q.take read.size)]).flatMap Prod.snd ++ _ = _
    rw [hsplit, append_assoc, ← append_assoc (q.take _), take_append_drop]
    exact h.stream
  · change _ ≤ c.len - 1 - (q.drop read.size).length
    rw [length_drop, hclen]
    exact h.room.trans (by omega)
  · rw [map_append, h.once, length_append, length_singleton, range_succ]
    exact congrArg (fun id => List.range s.completed.length ++ [id]) hid
  · rintro r hr
    rcases mem_append.mp hr with hr | hr
    · exact h.full r hr
    · rw [mem_singleton.mp hr]
      exact ⟨length_take_of_le hle, hissued⟩
  · rw [hlen', drop_length]
    rfl

/-- The read waits. -/
theorem HciCore.read_none (h : HciCore s q out) {size : ℕ} (hlt : q.length < size) :
    cyclicBufRead s.sendCyclicBuf size = (none, s.sendCyclicBuf) := h.holds.read_none hlt

/-- **The callbacks issue one read after the other**, and the last one may be posted. -/
theorem core_callbackReads (h : HciCore s q []) (hreads : reads s.queue = []) :
    ∃ q', HciCore (callbackReads next s) q' (reads (callbackReads next s).queue) ∧
      (callbackReads next s).host = s.host := by
  induction next generalizing s q with
  | nil => exact ⟨q, by rw [callbackReads, hreads]; exact h, rfl⟩
  | cons size next ih =>
    have hissue := h.issue size
    by_cases hle : size ≤ q.length
    · obtain ⟨bytes, c, hc, hcore⟩ := hissue.complete hle
      have hhere : virtualHciReadHere size s = (true, { s with
          issued := s.issued ++ [size]
          sendCyclicBuf := c
          completed := s.completed ++ [(⟨s.issued.length, size⟩, bytes)] }) := by
        have hc' : cyclicBufRead s.sendCyclicBuf size = (some bytes, c) := hc
        rw [virtualHciReadHere, hc']
      rw [callbackReads, hhere, if_pos rfl]
      exact ih hcore hreads
    · have hhere : virtualHciReadHere size s = (false, { s with
          issued := s.issued ++ [size]
          queue := s.queue ++ [.ctlRead ⟨s.issued.length, size⟩] }) := by
        rw [virtualHciReadHere, h.read_none (by omega)]
      rw [callbackReads, hhere, if_neg (by simp)]
      have hreads' : reads (s.queue ++ [.ctlRead ⟨s.issued.length, size⟩]) =
          [⟨s.issued.length, size⟩] := by
        rw [reads, filterMap_append]
        exact congrArg (· ++ [_]) hreads
      refine ⟨q, ?_, rfl⟩
      rw [hreads']
      exact { hissue with }

/-- **`tx_start_handler`** leaves no read parked that could be completed. -/
theorem kept_txStartHandler (h : HciCore s q (s.waiting.toList ++ reads s.queue)) :
    HciXmitKept (txStartHandler next s) := by
  rw [txStartHandler]
  cases hwait : s.waiting with
  | none =>
    refine ⟨⟨q, ?_⟩, ?_⟩
    · exact h
    · rw [hwait]
      rintro - - read hread
      cases hread
  | some read =>
    rw [hwait] at h
    have hreads : reads s.queue = [] := by
      have hone := h.one
      rw [toList_some, length_append, length_singleton] at hone
      exact length_eq_zero_iff.mp (by omega)
    rw [hreads, append_nil, toList_some] at h
    by_cases hle : read.size ≤ q.length
    · obtain ⟨bytes, c, hc, hcore⟩ := h.complete hle
      have hcore₁ : HciCore { s with
          waiting := some read
          sendCyclicBuf := c
          completed := s.completed ++ [(read, bytes)] } (q.drop read.size) [] := { hcore with }
      simp only [hc]
      obtain ⟨q', hcore', -⟩ := core_callbackReads hcore₁ hreads
      refine ⟨⟨q', { hcore' with }⟩, ?_⟩
      rintro - - read hread
      cases hread
    · simp only [h.read_none (show q.length < read.size by omega)]
      refine ⟨⟨q, ?_⟩, ?_⟩
      · rw [hwait, hreads]
        exact h
      · rintro - - read' hread'
        rw [hwait] at hread'
        obtain rfl := Option.some.inj hread'
        rw [h.holds.count_eq]
        omega

/-! ### The events -/

theorem length_packet (call : HciSendCall) : call.packet.length ≤ call.need := by
  have htail : ((if 0 < call.payload.1 then
      [(call.payload.2.getD []).take call.payload.1] else []).flatten).length ≤
      call.payload.1 := by
    split_ifs
    · rw [flatten_singleton]
      exact length_take_le _ _
    · exact Nat.zero_le _
  rw [HciSendCall.packet, HciSendCall.writes, flatten_append, length_append]
  cases call with
  | command opcode length payload =>
    exact (Nat.add_le_add_left htail 4).trans (by simp [HciSendCall.payload, HciSendCall.need]; omega)
  | aclData hdlFlags length payload =>
    exact (Nat.add_le_add_left htail 5).trans (by simp [HciSendCall.payload, HciSendCall.need]; omega)
  | isoData hdlFlags length payload =>
    exact (Nat.add_le_add_left htail 5).trans (by simp [HciSendCall.payload, HciSendCall.need]; omega)
  | rawData type length payload =>
    exact (Nat.add_le_add_left htail 1).trans (by simp [HciSendCall.payload, HciSendCall.need]; omega)

theorem kept_virtualHciSend {call : HciSendCall} (h : HciXmitKept s)
    (ht : virtualHciSend call s = some t) : HciXmitKept t := by
  obtain ⟨q, hcore⟩ := h.core
  rw [virtualHciSend] at ht
  split_ifs at ht with hhost hrefused
  · obtain rfl := Option.some.inj ht
    exact ⟨⟨q, { hcore with }⟩, h.served⟩
  · obtain rfl := Option.some.inj ht
    have hnone : s.host = none := not_isSome_iff_eq_none.mp hhost
    have hneed : call.need ≤ s.sendCyclicBuf.len - 1 - q.length := by
      simp only [hciSendRefused, Bool.or_eq_true, decide_eq_true_eq, not_or] at hrefused
      have hroom := hrefused.2
      rw [hcore.holds.room_eq] at hroom
      omega
    have hstream := hcore.stream
    rw [hnone, getD_none, flatten_nil, append_nil] at hstream
    refine ⟨⟨q, { hcore with stream := ?_, room := (length_packet call).trans hneed }⟩, ?_⟩
    · change _ ++ (q ++ call.packet) = (s.accepted ++ [call]).flatMap _
      rw [flatMap_append, flatMap_singleton, ← hstream, append_assoc]
    · rintro hhost'
      cases hhost'

theorem kept_hostStep (h : HciXmitKept s) (ht : hostStep s = some t) : HciXmitKept t := by
  obtain ⟨q, hcore⟩ := h.core
  rw [hostStep] at ht
  cases hhost : s.host with
  | none =>
    rw [hhost] at ht
    cases ht
  | some writes =>
    have hstream := hcore.stream
    have hroom := hcore.room
    rw [hhost, getD_some] at hstream hroom
    cases writes with
    | nil =>
      rw [hhost] at ht
      obtain rfl := Option.some.inj ht
      have hreads : reads (s.queue ++ [.h2c]) = reads s.queue := by
        rw [reads, filterMap_append]
        exact append_nil _
      refine ⟨⟨q, ?_⟩, ?_⟩
      · rw [hreads]
        exact { hcore with stream := hstream, room := hroom }
      · rintro - hmem
        exact absurd (mem_append_right _ (mem_singleton.mpr rfl)) hmem
    | cons bytes rest =>
      rw [hhost] at ht
      obtain rfl := Option.some.inj ht
      rw [flatten_cons, length_append] at hroom
      obtain ⟨c, hc, hclen, hholds⟩ := hcore.holds.write (show bytes.length ≤ _ by omega)
      refine ⟨⟨q ++ bytes, { hcore with holds := ?_, stream := ?_, room := ?_ }⟩, ?_⟩
      · rw [hc]
        exact hholds
      · change _ ++ (q ++ bytes ++ rest.flatten) = _
        rw [append_assoc, ← flatten_cons]
        exact hstream
      · change rest.flatten.length ≤ (cyclicBufWrite s.sendCyclicBuf bytes).2.len - 1 - _
        rw [hc, hclen, length_append]
        omega
      · rintro hhost'
        cases hhost'

theorem kept_virtualHciRead {size : ℕ} (h : HciXmitKept s)
    (hone : s.issued.length = s.completed.length) : HciXmitKept (virtualHciRead size s) := by
  obtain ⟨q, hcore⟩ := h.core
  have hout : s.waiting.toList ++ reads s.queue = [] := by
    have hlen := hcore.length_issued
    exact length_eq_zero_iff.mp (by omega)
  obtain ⟨hwait, hreads⟩ := append_eq_nil_iff.mp hout
  rw [hout] at hcore
  have hreads' : reads (s.queue ++ [.ctlRead ⟨s.issued.length, size⟩]) =
      [⟨s.issued.length, size⟩] := by
    rw [reads, filterMap_append]
    exact congrArg (· ++ [_]) hreads
  refine ⟨⟨q, ?_⟩, ?_⟩
  · rw [virtualHciRead, hwait, hreads']
    exact { hcore.issue size with }
  · rintro - - read hread
    have hmem : read ∈ s.waiting.toList := mem_toList.mpr hread
    rw [hwait] at hmem
    cases hmem

theorem kept_virHciTask (h : HciXmitKept s) (ht : virHciTask next s = some t) :
    HciXmitKept t := by
  obtain ⟨q, hcore⟩ := h.core
  rw [virHciTask] at ht
  cases hqueue : s.queue with
  | nil =>
    rw [hqueue] at ht
    cases ht
  | cons msg queue =>
    rw [hqueue] at ht hcore
    cases msg with
    | h2c =>
      obtain rfl := Option.some.inj ht
      exact kept_txStartHandler (s := { s with queue := queue }) { hcore with }
    | c2h =>
      obtain rfl := Option.some.inj ht
      refine ⟨⟨q, { hcore with }⟩, fun hhost hmem => h.served hhost ?_⟩
      rw [hqueue]
      exact fun hmem' => hmem ((mem_cons.mp hmem').resolve_left (by simp))
    | ctlRead read =>
      obtain rfl := Option.some.inj ht
      -- no other read is outstanding
      have hone := hcore.one
      have hcons : reads (.ctlRead read :: queue) = read :: reads queue := rfl
      rw [hcons] at hcore hone
      have hwait : s.waiting.toList = [] := by
        rw [length_append, length_cons] at hone
        exact length_eq_zero_iff.mp (by omega)
      rw [hwait, nil_append] at hcore
      exact kept_txStartHandler (s := { s with queue := queue, waiting := some read })
        { hcore with }

theorem kept_post (h : HciXmitKept s) : HciXmitKept { s with queue := s.queue ++ [.c2h] } := by
  obtain ⟨q, hcore⟩ := h.core
  have hreads : reads (s.queue ++ [.c2h]) = reads s.queue := by
    rw [reads, filterMap_append]
    exact append_nil _
  refine ⟨⟨q, ?_⟩, fun hhost hmem => h.served hhost fun hmem' => ?_⟩
  · rw [hreads]
    exact { hcore with }
  · exact hmem (mem_append_left _ hmem')

theorem HciXmitKept.right (h : HciXmitKept s) : HciSendRight s := by
  obtain ⟨q, hcore⟩ := h.core
  have hbuffered : s.buffered = q := by
    rw [HciXmit.buffered, hcore.holds.count_eq, hcore.holds.bytes_eq (Nat.le_refl _),
      take_length]
  refine ⟨by rw [hbuffered]; exact hcore.stream, hcore.once, hcore.full, ?_⟩
  intro hhost hqueue id size hid hissued
  -- the read that is outstanding is parked
  have hsizes := hcore.sizes
  have hone := hcore.one
  rw [hqueue, reads, filterMap_nil, append_nil] at hsizes hone
  have hget : (s.issued.drop s.completed.length)[id - s.completed.length]? = some size := by
    rw [List.getElem?_drop, Nat.add_sub_cancel' hid, hissued]
  rw [hsizes] at hget
  cases hwait : s.waiting with
  | none =>
    rw [hwait] at hget
    cases hget
  | some read =>
    have hlt := h.served hhost (by rw [hqueue]; exact not_mem_nil) read hwait
    rw [hwait, toList_some, map_singleton] at hget
    have hsize : read.size = size := by
      have hmem := mem_of_getElem? hget
      exact (mem_singleton.mp hmem).symm
    rw [← hsize, hbuffered, ← hcore.holds.count_eq]
    exact hlt

theorem kept_hciXmitInit : HciXmitKept hciXmitInit := by
  refine ⟨⟨[], ?_⟩, fun _ _ _ h => nomatch h⟩
  exact {
    holds := holds_cyclicBufInit (by decide) (by decide)
    stream := rfl
    room := Nat.zero_le _
    once := rfl
    full := nofun
    sizes := rfl
    ids := nofun
    one := Nat.zero_le 1
    le := Nat.zero_le 0 }

end Gd32.Hci
