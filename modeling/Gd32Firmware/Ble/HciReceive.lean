import Gd32Firmware.Lib.LittleEndian
import Gd32Firmware.Lib.Loop
import Gd32Firmware.Lib.Machine
import Gd32Firmware.Util.CyclicBuffer

/-!
# Packets from the controller

`virtual_hci.c`, from the controller to the host: `virtual_hci_write` puts bytes into a cyclic
buffer, and the task has `rx_parse_handler` look for packets in it, each of a type, a header and a
payload. It gives a packet to the handler of its type when the payload is in the buffer, from where
`virtual_hci_get_payload` reads it, and goes on where it stopped when there is not enough. The four
handlers are given.
-/

namespace Gd32.Hci

open List

/-! ### The parser -/

def staticCyclicBufferLenMax : ℕ := 2048

def hciAclMsgType : UInt8 := 2

def hciSyncMsgType : UInt8 := 3

def hciEvtMsgType : UInt8 := 4

def hciIsoMsgType : UInt8 := 5

/-- `hci_preamble_sizes`, from `HCI_CMD_HDR_LEN` to `HCI_ISO_HDR_LEN`. -/
def hciPreambleSizes : List ℕ := [3, 4, 3, 2, 4]

/-- `HCI_ISO_HDR_ISO_DATA_LOAD_LEN_MASK`. -/
def hciIsoDataLoadLenMask : ℕ := 0x3FFF

/-- `received_packet_state`. -/
inductive PacketState where
  | idle
  | type
  | header
  | content
  | done

/-- A call of one of the handlers. -/
structure HciCall where
  /-- The type of the packet, which decides the handler. -/
  type : UInt8
  header : List UInt8
  payloadLength : ℕ
  /-- What `virtual_hci_get_payload` yields for this length. -/
  payload : Option (List UInt8)
  deriving DecidableEq, Repr

/-- The receiving side. -/
structure HciRecv where
  recvCyclicBuf : CyclicBuf
  packetState : PacketState
  bytesNeed : ℕ
  currentType : UInt8
  /-- `received_resvered_header`. -/
  reservedHeader : List UInt8
  /-- `received_resvered_length`. -/
  reservedLength : ℕ
  calls : List HciCall
  /-- `hci_preamble_sizes` has been indexed out of range. -/
  outside : Bool
  fed : List UInt8
  /-- How many of them there were when the parser ran last. -/
  parsed : ℕ

/-- The receiving side after `virtual_hci_init`. -/
def hciRecvInit : HciRecv :=
  ⟨cyclicBufInit staticCyclicBufferLenMax, .idle, 0, 0, List.replicate 16 0, 0, [], false, [], 0⟩

/-- `virtual_hci_write`; `none` when there is no room. -/
def virtualHciWrite (bytes : List UInt8) (s : HciRecv) : Option HciRecv :=
  if (cyclicBufWrite s.recvCyclicBuf bytes).1 = true then
    some { s with
      recvCyclicBuf := (cyclicBufWrite s.recvCyclicBuf bytes).2
      fed := s.fed ++ bytes }
  else none

/-- The inner loop of `BT_PACKET_IDLE`: the type that was read last, and the buffer. -/
def rxSkip : ℕ → UInt8 → CyclicBuf → UInt8 × CyclicBuf
  | 0, type, c => (type, c)
  | n + 1, type, c =>
    if cyclicBufCount c = 0 then (type, c)
    else
      let type := ((cyclicBufRead c 1).1.getD []).headD 0
      if type < hciAclMsgType ∨ hciIsoMsgType < type then rxSkip n type (cyclicBufRead c 1).2
      else (type, (cyclicBufRead c 1).2)

/-- The length of the payload, by type and header. -/
def rxPayloadLength (type : UInt8) (header : List UInt8) : ℕ :=
  let word := (header.getD 2 0).toNat + 256 * (header.getD 3 0).toNat
  if type = hciAclMsgType then word
  else if type = hciEvtMsgType then (header.getD 1 0).toNat
  else if type = hciSyncMsgType then (header.getD 2 0).toNat
  else word % (hciIsoDataLoadLenMask + 1)

/-- What stands behind the `switch`. -/
def rxReset (s : HciRecv) : HciRecv :=
  { s with packetState := .idle, bytesNeed := 0, currentType := 0, reservedLength := 0 }

/-- `BT_PACKET_CONTENT` and what follows it. -/
def rxContent (s : HciRecv) : HciRecv ⊕ HciRecv :=
  if cyclicBufCount s.recvCyclicBuf < s.bytesNeed then .inr s
  else
    .inl <| rxReset { s with
      calls := s.calls ++ [⟨s.currentType, s.reservedHeader.take s.reservedLength, s.bytesNeed,
        cyclicBufPeek s.recvCyclicBuf s.bytesNeed⟩]
      recvCyclicBuf := (cyclicBufDrop s.recvCyclicBuf s.bytesNeed).2 }

/-- `BT_PACKET_HEADER` and what follows it. -/
def rxHeader (s : HciRecv) : HciRecv ⊕ HciRecv :=
  match cyclicBufRead s.recvCyclicBuf s.bytesNeed with
  | (none, _) => .inr s
  | (some bytes, c) =>
    let header := s.reservedHeader.take s.reservedLength ++ bytes ++
      s.reservedHeader.drop (s.reservedLength + bytes.length)
    rxContent { s with
      recvCyclicBuf := c
      reservedHeader := header
      reservedLength := s.reservedLength + s.bytesNeed
      packetState := .content
      bytesNeed := rxPayloadLength s.currentType header }

/-- `BT_PACKET_TYPE` and what follows it. -/
def rxType (s : HciRecv) : HciRecv ⊕ HciRecv :=
  rxHeader { s with
    bytesNeed := hciPreambleSizes.getD (s.currentType.toNat - 1) 0
    outside := s.outside || decide (s.currentType = 0 ∨ hciIsoMsgType < s.currentType)
    reservedLength := 0
    packetState := .header }

/-- `BT_PACKET_IDLE` and what follows it. -/
def rxIdle (s : HciRecv) : HciRecv ⊕ HciRecv :=
  let r := rxSkip (cyclicBufCount s.recvCyclicBuf) 0 s.recvCyclicBuf
  rxType { s with bytesNeed := 1, recvCyclicBuf := r.2, currentType := r.1, packetState := .type }

/-- A pass of `rx_parse_handler`. -/
def rxPass (s : HciRecv) : HciRecv ⊕ HciRecv :=
  if cyclicBufCount s.recvCyclicBuf = 0 then .inr s
  else
    match s.packetState with
    | .idle => rxIdle s
    | .type => rxType s
    | .header => rxHeader s
    | .content => rxContent s
    | .done => .inl (rxReset s)

/-- `rx_parse_handler`: every other pass takes a byte at least. -/
def rxParseHandler (s : HciRecv) : Option HciRecv :=
  (Loop.runFor rxPass (2 * cyclicBufCount s.recvCyclicBuf + 2) s).map fun s =>
    { s with parsed := s.fed.length }

/-! ### The stream -/

/-- A packet of the controller. -/
structure HciPacket where
  type : UInt8
  header : List UInt8
  payload : List UInt8

/-- The packet is of a type from the controller, and its header gives the length of its payload. -/
structure HciPacket.Good (p : HciPacket) : Prop where
  type : hciAclMsgType ≤ p.type ∧ p.type ≤ hciIsoMsgType
  header : p.header.length = hciPreambleSizes.getD (p.type.toNat - 1) 0
  payload : p.payload.length = rxPayloadLength p.type p.header
  short : p.payload.length ≤ 1024

/-- The bytes of a packet. -/
def HciPacket.bytes (p : HciPacket) : List UInt8 := p.type :: (p.header ++ p.payload)

/-- The call that a packet is to lead to. -/
def HciPacket.call (p : HciPacket) : HciCall := ⟨p.type, p.header, p.payload.length, some p.payload⟩

/-- What a stream consists of. -/
inductive HciItem where
  | skip (b : UInt8)
  | packet (p : HciPacket)

/-- An item of a stream may stand there. -/
def HciItem.Good : HciItem → Prop
  | .skip b => b < hciAclMsgType ∨ hciIsoMsgType < b
  | .packet p => p.Good

/-- The bytes of an item. -/
def HciItem.bytes : HciItem → List UInt8
  | .skip b => [b]
  | .packet p => p.bytes

/-- The bytes of a stream. -/
def encode (items : List HciItem) : List UInt8 := items.flatMap HciItem.bytes

/-- The packets of a stream. -/
def packets : List HciItem → List HciPacket
  | [] => []
  | .skip _ :: is => packets is
  | .packet p :: is => p :: packets is

/-- The packets that are complete in the first `n` bytes. -/
def within : List HciItem → ℕ → List HciPacket
  | [], _ => []
  | .skip _ :: _, 0 => []
  | .skip _ :: is, n + 1 => within is n
  | .packet p :: is, n => if p.bytes.length ≤ n then p :: within is (n - p.bytes.length) else []

/-- The first `n` bytes do not end with one that is skipped. -/
def cutOk : List HciItem → ℕ → Bool
  | [], _ => true
  | .skip _ :: _, 0 => true
  | .skip _ :: is, n + 1 => n != 0 && cutOk is n
  | .packet p :: is, n => if p.bytes.length ≤ n then cutOk is (n - p.bytes.length) else true

/-- What happens. -/
inductive HciEvent where
  /-- `virtual_hci_write`. -/
  | write (bytes : List UInt8)
  | parse

/-- One event. -/
def hciStep (i : HciEvent) (s : HciRecv) : Option HciRecv :=
  match i with
  | .write bytes => virtualHciWrite bytes s
  | .parse => rxParseHandler s

/-- The controller writes the stream. -/
def HciEvent.Follows (items : List HciItem) (s : HciRecv) : HciEvent → Prop
  | .write bytes => s.fed ++ bytes <+: encode items
  | .parse => True

/-- The parser does not run after a byte that is skipped. -/
def HciEvent.Calm (items : List HciItem) (s : HciRecv) : HciEvent → Prop
  | .write _ => True
  | .parse => cutOk items s.fed.length = true

instance HciEvent.decidableFollows (items : List HciItem) (s : HciRecv) (i : HciEvent) :
    Decidable (i.Follows items s) :=
  match i with
  | .write bytes => inferInstanceAs (Decidable (s.fed ++ bytes <+: encode items))
  | .parse => inferInstanceAs (Decidable True)

instance HciEvent.decidableCalm (items : List HciItem) (s : HciRecv) (i : HciEvent) :
    Decidable (i.Calm items s) :=
  match i with
  | .write _ => inferInstanceAs (Decidable True)
  | .parse => inferInstanceAs (Decidable (cutOk items s.fed.length = true))

/-- **The packets that are complete have been delivered**, when the parser has run; all of them, when
it has run at the end. -/
structure HciRight (items : List HciItem) (s : HciRecv) : Prop where
  calls : s.calls = (within items s.parsed).map HciPacket.call
  all : s.parsed = (encode items).length → s.calls = (packets items).map HciPacket.call
  outside : s.outside = false

variable {items done rest : List HciItem} {n : ℕ}

@[simp] theorem encode_nil : encode [] = [] := rfl

@[simp] theorem encode_cons (i : HciItem) (is : List HciItem) :
    encode (i :: is) = i.bytes ++ encode is := flatMap_cons

theorem encode_append (is js : List HciItem) : encode (is ++ js) = encode is ++ encode js :=
  flatMap_append

theorem packets_append (is js : List HciItem) : packets (is ++ js) = packets is ++ packets js := by
  induction is with
  | nil => rfl
  | cons i is ih =>
    cases i with
    | skip b => exact ih
    | packet p => exact congrArg (p :: ·) ih

theorem within_append (done rest : List HciItem) (m : ℕ) :
    within (done ++ rest) ((encode done).length + m) = packets done ++ within rest m := by
  induction done with
  | nil => simp [packets]
  | cons i is ih =>
    cases i with
    | skip b =>
      have hlen : (encode (.skip b :: is)).length + m = (encode is).length + m + 1 := by
        simp only [encode_cons, HciItem.bytes, singleton_append, length_cons]
        omega
      rw [hlen]
      exact ih
    | packet p =>
      have hlen : (encode (.packet p :: is)).length = p.bytes.length + (encode is).length := by
        rw [encode_cons, length_append, HciItem.bytes]
      rw [hlen, cons_append, within, if_pos (by omega),
        show p.bytes.length + (encode is).length + m - p.bytes.length = (encode is).length + m by
          omega, ih]
      rfl

theorem cutOk_append {m : ℕ} (h : cutOk (done ++ rest) ((encode done).length + m) = true) :
    cutOk rest m = true := by
  induction done with
  | nil => simpa using h
  | cons i is ih =>
    cases i with
    | skip b =>
      have hlen : (encode (.skip b :: is)).length + m = (encode is).length + m + 1 := by
        simp only [encode_cons, HciItem.bytes, singleton_append, length_cons]
        omega
      rw [hlen, cons_append, cutOk, Bool.and_eq_true] at h
      exact ih h.2
    | packet p =>
      have hlen : (encode (.packet p :: is)).length = p.bytes.length + (encode is).length := by
        rw [encode_cons, length_append, HciItem.bytes]
      rw [hlen, cons_append, cutOk, if_pos (by omega),
        show p.bytes.length + (encode is).length + m - p.bytes.length = (encode is).length + m by
          omega] at h
      exact ih h

/-- All packets are complete in all bytes. -/
theorem within_all : within items (encode items).length = packets items := by
  have h := within_append items [] 0
  rw [append_nil, add_zero] at h
  rw [h, within, append_nil]

/-! ### Where the parser stands -/

/-- The parser stands behind `k` bytes of the first item. -/
inductive HciPlace (s : HciRecv) : ℕ → List HciItem → Prop
  | between {is : List HciItem} (hstate : s.packetState = .idle) : HciPlace s 0 is
  | header {p : HciPacket} {is : List HciItem} (hstate : s.packetState = .header)
    (htype : s.currentType = p.type) (hneed : s.bytesNeed = p.header.length)
    (hlength : s.reservedLength = 0) : HciPlace s 1 (.packet p :: is)
  | content {p : HciPacket} {is : List HciItem} (hstate : s.packetState = .content)
    (htype : s.currentType = p.type) (hneed : s.bytesNeed = p.payload.length)
    (hheader : s.reservedHeader.take s.reservedLength = p.header) (hpos : 0 < p.payload.length) :
    HciPlace s (1 + p.header.length) (.packet p :: is)

/-- Behind `k` bytes of the first item, the bytes `q` are in the buffer and the bytes `future` are
to be written. -/
structure HciHas (s : HciRecv) (k : ℕ) (rest : List HciItem) (q future : List UInt8) : Prop where
  holds : s.recvCyclicBuf.Holds q
  len : s.recvCyclicBuf.len = staticCyclicBufferLenMax
  stream : q ++ future = (encode rest).drop k
  header : s.reservedHeader.length = 16
  outside : s.outside = false

/-- The parser stands there. -/
structure HciAt (s : HciRecv) (k : ℕ) (rest : List HciItem) (q future : List UInt8) : Prop where
  has : HciHas s k rest q future
  place : HciPlace s k rest

/-- What a pass leads to: the parser waits in front of a packet that is not complete, or has
delivered the first packet. -/
inductive HciOutcome (s : HciRecv) (items : List HciItem) (n b : ℕ) (future : List UInt8) :
    HciRecv ⊕ HciRecv → Prop
  | waits {t : HciRecv} {k : ℕ} {done rest : List HciItem} {q : List UInt8}
    (hitems : items = done ++ rest) (hdone : packets done = []) (hat : HciAt t k rest q future)
    (hn : n = (encode done).length + (k + q.length))
    (hcalls : t.calls = s.calls) (hfed : t.fed = s.fed) (hwithin : within items n = []) :
    HciOutcome s items n b future (.inr t)
  | delivers {t : HciRecv} {done : List HciItem} {p : HciPacket} {rest : List HciItem}
    {q : List UInt8} (hitems : items = done ++ .packet p :: rest) (hdone : packets done = [])
    (hat : HciAt t 0 rest q future) (hn : n = (encode done).length + p.bytes.length + q.length)
    (hcalls : t.calls = s.calls ++ [p.call]) (hfed : t.fed = s.fed) (hq : q.length ≤ b) :
    HciOutcome s items n b future (.inl t)

variable {s t : HciRecv} {p : HciPacket} {is : List HciItem} {q future : List UInt8} {k : ℕ}

theorem HciOutcome.mono {b b' : ℕ} {r : HciRecv ⊕ HciRecv} (h : HciOutcome s items n b future r)
    (hcalls : s.calls = t.calls) (hfed : s.fed = t.fed) (hb : b ≤ b') :
    HciOutcome t items n b' future r := by
  cases h with
  | waits hitems hdone hat hn hc hf hwithin =>
    exact .waits hitems hdone hat hn (hc.trans hcalls) (hf.trans hfed) hwithin
  | delivers hitems hdone hat hn hc hf hq =>
    exact .delivers hitems hdone hat hn (by rw [hc, hcalls]) (hf.trans hfed) (hq.trans hb)

theorem length_bytes (p : HciPacket) :
    p.bytes.length = 1 + p.header.length + p.payload.length := by
  rw [HciPacket.bytes, length_cons, length_append]
  omega

/-- `BT_PACKET_CONTENT`. -/
theorem outcome_content (h : HciHas s (1 + p.header.length) (.packet p :: is) q future)
    (hstate : s.packetState = .content) (htype : s.currentType = p.type)
    (hneed : s.bytesNeed = p.payload.length)
    (hheader : s.reservedHeader.take s.reservedLength = p.header) :
    HciOutcome s (.packet p :: is) (1 + p.header.length + q.length) q.length future
      (rxContent s) := by
  have hbytes := length_bytes p
  have hstream : q ++ future = p.payload ++ encode is := by
    rw [h.stream, encode_cons, HciItem.bytes, HciPacket.bytes, add_comm, cons_append,
      drop_succ_cons, append_assoc, drop_left]
  rw [rxContent, h.holds.count_eq, hneed]
  split_ifs with hlt
  · refine .waits (nil_append _).symm rfl
      ⟨h, .content hstate htype hneed hheader (by omega)⟩ (by simp) rfl rfl ?_
    rw [within, if_neg (by omega)]
  · have htake : q.take p.payload.length = p.payload := by
      have := congrArg (List.take p.payload.length) hstream
      rwa [take_append_of_le_length (by omega), take_left] at this
    have hdrop : q.drop p.payload.length ++ future = encode is := by
      have := congrArg (List.drop p.payload.length) hstream
      rwa [drop_append_of_le_length (by omega), drop_left] at this
    obtain ⟨c, hc, hclen, hholds⟩ := h.holds.drop_eq (k := p.payload.length) (by omega)
    rw [h.holds.peek_eq (by omega), htake, hheader, htype, hc]
    refine .delivers (nil_append _).symm rfl
      ⟨⟨hholds, hclen.trans h.len, hdrop, h.header, h.outside⟩, .between rfl⟩ ?_ rfl rfl ?_
    · rw [length_drop, encode_nil, length_nil]
      omega
    · rw [length_drop]
      exact Nat.sub_le _ _

/-- The header of a packet is within the bytes that are read from it. -/
theorem rxPayloadLength_append (hp : p.Good) (l : List UInt8) :
    rxPayloadLength p.type (p.header ++ l) = rxPayloadLength p.type p.header := by
  obtain ⟨⟨hlo, hhi⟩, hheader, -, -⟩ := hp
  have hlo' : 2 ≤ p.type.toNat := UInt8.le_iff_toNat_le.mp hlo
  have hhi' : p.type.toNat ≤ 5 := UInt8.le_iff_toNat_le.mp hhi
  have hget : ∀ j < p.header.length, (p.header ++ l).getD j 0 = p.header.getD j 0 :=
    fun j hj => getD_append _ _ _ _ hj
  have hcases : p.type = 2 ∨ p.type = 3 ∨ p.type = 4 ∨ p.type = 5 := by
    have : p.type.toNat = 2 ∨ p.type.toNat = 3 ∨ p.type.toNat = 4 ∨ p.type.toNat = 5 := by omega
    rcases this with h | h | h | h
    · exact Or.inl (UInt8.toNat.inj h)
    · exact Or.inr (Or.inl (UInt8.toNat.inj h))
    · exact Or.inr (Or.inr (Or.inl (UInt8.toNat.inj h)))
    · exact Or.inr (Or.inr (Or.inr (UInt8.toNat.inj h)))
  rcases hcases with h | h | h | h <;> rw [h] at hheader ⊢
  · have hlen : p.header.length = 4 := hheader
    rw [rxPayloadLength, hget 2 (by omega), hget 3 (by omega)]
    rfl
  · have hlen : p.header.length = 3 := hheader
    exact congrArg UInt8.toNat (hget 2 (by omega))
  · have hlen : p.header.length = 2 := hheader
    exact congrArg UInt8.toNat (hget 1 (by omega))
  · have hlen : p.header.length = 4 := hheader
    rw [rxPayloadLength, hget 2 (by omega), hget 3 (by omega)]
    rfl

theorem length_header (hp : p.Good) : p.header.length ≤ 4 := by
  have hall : ∀ j < 5, hciPreambleSizes.getD j 0 ≤ 4 := by decide
  have hhi : p.type.toNat ≤ 5 := UInt8.le_iff_toNat_le.mp hp.type.2
  rw [hp.header]
  exact hall _ (by omega)

/-- `BT_PACKET_HEADER`. -/
theorem outcome_header (hp : p.Good) (h : HciHas s 1 (.packet p :: is) q future)
    (hstate : s.packetState = .header) (htype : s.currentType = p.type)
    (hneed : s.bytesNeed = p.header.length) (hlength : s.reservedLength = 0) :
    HciOutcome s (.packet p :: is) (1 + q.length) q.length future (rxHeader s) := by
  have hbytes := length_bytes p
  have hstream : q ++ future = p.header ++ (p.payload ++ encode is) := by
    rw [h.stream, encode_cons, HciItem.bytes, HciPacket.bytes, cons_append,
      drop_one, tail_cons, append_assoc]
  by_cases hlt : q.length < p.header.length
  · rw [rxHeader, hneed, h.holds.read_none hlt]
    refine .waits (nil_append _).symm rfl ⟨h, .header hstate htype hneed hlength⟩ (by simp)
      rfl rfl ?_
    rw [within, if_neg (by omega)]
  · have htake : q.take p.header.length = p.header := by
      have := congrArg (List.take p.header.length) hstream
      rwa [take_append_of_le_length (by omega), take_left] at this
    have hdrop : q.drop p.header.length ++ future = p.payload ++ encode is := by
      have := congrArg (List.drop p.header.length) hstream
      rwa [drop_append_of_le_length (by omega), drop_left] at this
    obtain ⟨c, hc, hclen, hholds⟩ := h.holds.read_eq (k := p.header.length) (by omega)
    have hlen := length_header hp
    rw [rxHeader, hneed, hc, htake, hlength]
    simp only [take_zero, nil_append, zero_add]
    set u : HciRecv := { s with
      recvCyclicBuf := c
      reservedHeader := p.header ++ s.reservedHeader.drop p.header.length
      reservedLength := p.header.length
      packetState := .content
      bytesNeed := rxPayloadLength s.currentType
        (p.header ++ s.reservedHeader.drop p.header.length) } with hu
    have hneed' : u.bytesNeed = p.payload.length := by
      rw [hp.payload, ← rxPayloadLength_append hp (s.reservedHeader.drop p.header.length), ← htype]
    have hheader : u.reservedHeader.take u.reservedLength = p.header := take_left ..
    have hhas : HciHas u (1 + p.header.length) (.packet p :: is) (q.drop p.header.length)
        future := by
      refine ⟨hholds, hclen.trans h.len, ?_, ?_, h.outside⟩
      · rw [hdrop, encode_cons, HciItem.bytes, HciPacket.bytes, add_comm, cons_append,
          drop_succ_cons, append_assoc, drop_left]
      · rw [hu, length_append, length_drop, h.header]
        omega
    have hdlen : (q.drop p.header.length).length = q.length - p.header.length :=
      length_drop ..
    have hn : 1 + p.header.length + (q.drop p.header.length).length = 1 + q.length := by omega
    have hout := outcome_content hhas rfl htype hneed' hheader
    rw [hn] at hout
    exact hout.mono rfl rfl (by omega)

/-- The bytes in front of a packet are skipped. -/
theorem skips {c : CyclicBuf} (hgood : ∀ i ∈ items, i.Good) (hholds : c.Holds q)
    (hstream : q ++ future = encode items) (hpos : q ≠ []) (hcut : cutOk items q.length = true)
    (type : UInt8) (hn : q.length ≤ n) :
    ∃ done p is c' q', items = done ++ .packet p :: is ∧ packets done = [] ∧ p.Good ∧
      rxSkip n type c = (p.type, c') ∧ c'.len = c.len ∧ c'.Holds q' ∧
      q.length = (encode done).length + (1 + q'.length) ∧
      q' ++ future = p.header ++ (p.payload ++ encode is) := by
  induction items generalizing q c n type with
  | nil =>
    exact absurd (append_eq_nil_iff.mp hstream).1 hpos
  | cons i is ih =>
    obtain ⟨x, q, rfl⟩ := exists_cons_of_ne_nil hpos
    obtain ⟨n, rfl⟩ : ∃ m, n = m + 1 := ⟨n - 1, by rw [length_cons] at hn; omega⟩
    obtain ⟨c₁, hc₁, hlen₁, hholds₁⟩ := hholds.read_eq (k := 1) (by simp)
    have hholds₁ : c₁.Holds q := hholds₁
    have hqn : q.length ≤ n := Nat.le_of_succ_le_succ hn
    have hhead : (((some ((x :: q).take 1)).getD []).headD 0) = x := rfl
    rw [rxSkip, hholds.count_eq, if_neg (by simp)]
    simp only [hc₁, hhead]
    cases i with
    | skip b =>
      have hinj := List.cons.inj (hstream : x :: (q ++ future) = b :: encode is)
      have hrest : q ++ future = encode is := hinj.2
      obtain rfl := hinj.1
      rw [length_cons, cutOk, Bool.and_eq_true, bne_iff_ne] at hcut
      obtain ⟨done, p, js, c', q', hitems, hdone, hp, hskip, hlen, hholds', hq, hrest⟩ :=
        ih (fun i hi => hgood i (mem_cons_of_mem _ hi)) hholds₁ hrest
          (fun h => hcut.1 (congrArg List.length h)) hcut.2 x hqn
      refine ⟨.skip x :: done, p, js, c', q', by rw [hitems]; rfl, hdone, hp, ?_,
        hlen.trans hlen₁, hholds', ?_, hrest⟩
      · have hb : x < hciAclMsgType ∨ hciIsoMsgType < x := hgood _ (mem_cons_self ..)
        rw [if_pos hb, hskip]
      · rw [length_cons, hq, encode_cons, length_append, HciItem.bytes,
          length_singleton]
        omega
    | packet p =>
      have hp : p.Good := hgood _ (mem_cons_self ..)
      have hinj := List.cons.inj
        (hstream : x :: (q ++ future) = p.type :: (p.header ++ p.payload ++ encode is))
      have hrest : q ++ future = p.header ++ p.payload ++ encode is := hinj.2
      obtain rfl := hinj.1
      have hvalid : ¬(p.type < hciAclMsgType ∨ hciIsoMsgType < p.type) := by
        rintro (h | h)
        · exact absurd hp.type.1 (UInt8.not_le.mpr h)
        · exact absurd hp.type.2 (UInt8.not_le.mpr h)
      refine ⟨[], p, is, c₁, q, rfl, rfl, hp, if_neg hvalid, hlen₁, hholds₁, ?_, ?_⟩
      · rw [length_cons, encode_nil, length_nil]
        omega
      · rw [hrest, append_assoc]

/-- The bytes that are skipped are in front of the outcome. -/
theorem HciOutcome.prepend {b m : ℕ} {r : HciRecv ⊕ HciRecv} (hdone : packets done = [])
    (h : HciOutcome s rest m b future r) :
    HciOutcome s (done ++ rest) ((encode done).length + m) b future r := by
  have happ : ∀ js, packets (done ++ js) = packets js := by
    intro js
    rw [packets_append, hdone, nil_append]
  cases h with
  | waits hitems hdone' hat hn hcalls hfed hwithin =>
    subst hitems
    refine .waits (append_assoc ..).symm (by rw [happ, hdone']) hat ?_ hcalls hfed ?_
    · rw [hn, encode_append, length_append]
      omega
    · rw [within_append, hdone, hwithin, append_nil]
  | delivers hitems hdone' hat hn hcalls hfed hq =>
    subst hitems
    refine .delivers (append_assoc ..).symm (by rw [happ, hdone']) hat ?_ hcalls hfed hq
    rw [hn, encode_append, length_append]
    omega

/-- `BT_PACKET_IDLE`. -/
theorem outcome_idle (hgood : ∀ i ∈ rest, i.Good) (h : HciHas s 0 rest q future) (hpos : q ≠ [])
    (hcut : cutOk rest q.length = true) :
    HciOutcome s rest q.length (q.length - 1) future (rxIdle s) := by
  obtain ⟨done, p, is, c', q', rfl, hdone, hp, hskip, hlen, hholds, hq, hstream⟩ :=
    skips hgood h.holds h.stream hpos hcut 0 (le_of_eq h.holds.count_eq.symm)
  rw [rxIdle, rxType, hskip]
  set u : HciRecv := { s with
    bytesNeed := hciPreambleSizes.getD (p.type.toNat - 1) 0
    recvCyclicBuf := c'
    currentType := p.type
    packetState := .header
    outside := s.outside || decide (p.type = 0 ∨ hciIsoMsgType < p.type)
    reservedLength := 0 } with hu
  have hvalid : ¬(p.type = 0 ∨ hciIsoMsgType < p.type) := by
    rintro (h | h)
    · exact absurd hp.type.1 (by rw [h]; decide)
    · exact absurd hp.type.2 (UInt8.not_le.mpr h)
  have hhas : HciHas u 1 (.packet p :: is) q' future := by
    refine ⟨hholds, hlen.trans h.len, ?_, h.header, ?_⟩
    · rw [hstream, encode_cons, HciItem.bytes, HciPacket.bytes, cons_append, drop_one,
        tail_cons, append_assoc]
    · rw [hu, decide_eq_false hvalid, Bool.or_false]
      exact h.outside
  rw [hq]
  refine HciOutcome.prepend hdone ?_
  exact (outcome_header hp hhas rfl rfl hp.header.symm rfl).mono rfl rfl (by omega)

/-- **A pass of the parser.** -/
theorem outcome_pass (hgood : ∀ i ∈ rest, i.Good) (h : HciAt s k rest q future)
    (hcut : cutOk rest (k + q.length) = true) (hpos : q ≠ []) :
    HciOutcome s rest (k + q.length) (q.length - (1 - k)) future (rxPass s) := by
  have hcount : cyclicBufCount s.recvCyclicBuf ≠ 0 := by
    rw [h.has.holds.count_eq]
    exact fun h => hpos (length_eq_zero_iff.mp h)
  rw [rxPass, if_neg hcount]
  have hplace := h.place
  cases hplace with
  | between hstate =>
    rw [hstate]
    rw [zero_add] at hcut ⊢
    exact outcome_idle hgood h.has hpos hcut
  | header hstate htype hneed hlength =>
    rw [hstate]
    exact outcome_header (hgood _ (mem_cons_self ..)) h.has hstate htype hneed hlength
  | content hstate htype hneed hheader _ =>
    rw [hstate]
    exact (outcome_content h.has hstate htype hneed hheader).mono rfl rfl (by omega)

/-- Nothing is complete where the parser stands. -/
theorem within_place (hgood : ∀ i ∈ rest, i.Good) (h : HciPlace s k rest) : within rest k = [] := by
  cases h with
  | between hstate =>
    cases rest with
    | nil => rfl
    | cons i is =>
      cases i with
      | skip b => rfl
      | packet p => rw [within, if_neg (by rw [length_bytes]; omega)]
  | @header p is hstate htype hneed hlength =>
    have hp : p.Good := hgood _ (mem_cons_self ..)
    have hpos : 0 < p.header.length := by
      have hall : ∀ j < 5, 0 < hciPreambleSizes.getD j 0 := by decide
      have hhi : p.type.toNat ≤ 5 := UInt8.le_iff_toNat_le.mp hp.type.2
      rw [hp.header]
      exact hall _ (by omega)
    rw [within, if_neg (by rw [length_bytes]; omega)]
  | content hstate htype hneed hheader hpos =>
    rw [within, if_neg (by rw [length_bytes]; omega)]

/-- **A run of the parser** delivers the packets that are complete. -/
theorem parses (hgood : ∀ i ∈ rest, i.Good) (h : HciAt s k rest q future)
    (hcut : cutOk rest (k + q.length) = true) (hn : 2 * q.length + min k 1 < n) :
    ∃ t k' done rest' q', Loop.runFor rxPass n s = some t ∧ rest = done ++ rest' ∧
      HciAt t k' rest' q' future ∧ k + q.length = (encode done).length + (k' + q'.length) ∧
      t.calls = s.calls ++ (packets done).map HciPacket.call ∧ t.fed = s.fed ∧
      within rest (k + q.length) = packets done := by
  induction n generalizing s k rest q with
  | zero => omega
  | succ n ih =>
    by_cases hq : q = []
    · subst hq
      have hpass : rxPass s = .inr s := by
        rw [rxPass, if_pos (by rw [h.has.holds.count_eq, length_nil])]
      refine ⟨s, k, [], rest, [], Loop.runFor_of_inr hpass n, rfl, h, by simp, ?_, rfl, ?_⟩
      · simp [packets]
      · exact within_place hgood h.place
    · have hpos := length_pos_of_ne_nil hq
      have hout := outcome_pass hgood h hcut hq
      rcases hpass : rxPass s with u | u
      · -- a packet has been delivered, and the parser goes on
        rw [hpass] at hout
        cases hout with
        | @delivers _ done p rest₁ q₁ hitems hdone hat hlen hcalls hfed hle =>
        have hencode : (encode (done ++ [.packet p])).length =
            (encode done).length + p.bytes.length := by
          rw [encode_append, length_append]
          simp [HciItem.bytes]
        have hitems' : rest = (done ++ [.packet p]) ++ rest₁ := by
          rw [hitems, append_assoc, singleton_append]
        have hlen' : k + q.length = (encode (done ++ [.packet p])).length + q₁.length := by
          rw [hlen, hencode]
        have hpackets : packets (done ++ [.packet p]) = [p] := by
          rw [packets_append, hdone]
          rfl
        have hcut₁ : cutOk rest₁ (0 + q₁.length) = true := by
          rw [hitems', hlen'] at hcut
          rw [zero_add]
          exact cutOk_append hcut
        have hgood₁ : ∀ i ∈ rest₁, i.Good := fun i hi =>
          hgood i (by rw [hitems']; exact mem_append_right _ hi)
        have hmeasure : 2 * q₁.length + min 0 1 < n := by
          rcases eq_zero_or_pos k with rfl | hk
          · omega
          · omega
        obtain ⟨t, k', done', rest', q', hrun, hrest, hat', hlen'', hcalls', hfed', hwithin⟩ :=
          ih hgood₁ hat hcut₁ hmeasure
        refine ⟨t, k', (done ++ [.packet p]) ++ done', rest', q', ?_, ?_, hat', ?_, ?_,
          hfed'.trans hfed, ?_⟩
        · rw [Loop.runFor_of_inl hpass, hrun]
        · rw [hitems', hrest]
          simp only [append_assoc]
        · rw [hlen', encode_append (done ++ [_]), length_append]
          omega
        · rw [hcalls', hcalls, packets_append, hpackets, map_append, append_assoc]
          rfl
        · rw [zero_add] at hwithin
          rw [hitems', hlen', within_append, hwithin, packets_append (done ++ [_])]
      · rw [hpass] at hout
        obtain ⟨hitems, hdone, hat, hlen, hcalls, hfed, hwithin⟩ := hout
        refine ⟨u, _, _, _, _, Loop.runFor_of_inr hpass n, hitems, hat, hlen, ?_, hfed, ?_⟩
        · rw [hcalls, hdone, map_nil, append_nil]
        · rw [hwithin, hdone]

/-! ### Whole runs -/

/-- **The receiving side between two events.** -/
structure HciKept (items : List HciItem) (s : HciRecv) : Prop where
  stands : ∃ done rest k q future, items = done ++ rest ∧ HciAt s k rest q future ∧
    s.fed ++ future = encode items ∧ s.fed.length = (encode done).length + (k + q.length) ∧
    s.calls = (packets done).map HciPacket.call
  calls : s.calls = (within items s.parsed).map HciPacket.call

theorem kept_hciRecvInit (items : List HciItem) : HciKept items hciRecvInit := by
  refine ⟨⟨[], items, 0, [], encode items, rfl, ⟨⟨?_, rfl, ?_, rfl, rfl⟩, .between rfl⟩, rfl, rfl,
    rfl⟩, ?_⟩
  · exact holds_cyclicBufInit (by decide) (by decide)
  · rw [drop_zero, nil_append]
  · cases items with
    | nil => rfl
    | cons i is =>
      cases i with
      | skip b => rfl
      | packet p =>
        rfl

theorem kept_write {bytes : List UInt8} (h : HciKept items s)
    (hfollows : (HciEvent.write bytes).Follows items s) (ht : virtualHciWrite bytes s = some t) :
    HciKept items t := by
  obtain ⟨done, rest, k, q, future, hitems, hat, hfuture, hlen, hcalls⟩ := h.stands
  have hroom : bytes.length ≤ s.recvCyclicBuf.len - 1 - q.length := by
    by_contra hlt
    have hfail : cyclicBufWrite s.recvCyclicBuf bytes = (false, s.recvCyclicBuf) := by
      rw [cyclicBufWrite, hat.has.holds.room_eq, if_pos (by omega)]
    rw [virtualHciWrite, hfail] at ht
    cases ht
  obtain ⟨c, hc, hclen, hholds⟩ := hat.has.holds.write hroom
  rw [virtualHciWrite, hc, if_pos rfl] at ht
  obtain rfl := Option.some.inj ht
  -- the bytes are the next ones of the stream
  obtain ⟨future', hfuture'⟩ := hfollows
  have hsplit : future = bytes ++ future' := by
    rw [← hfuture, append_assoc] at hfuture'
    exact (append_cancel_left hfuture').symm
  refine ⟨⟨done, rest, k, q ++ bytes, future', hitems, ⟨⟨hholds, hclen.trans hat.has.len, ?_,
    hat.has.header, hat.has.outside⟩, ?_⟩, hfuture', ?_, hcalls⟩, h.calls⟩
  · rw [append_assoc, ← hsplit]
    exact hat.has.stream
  · cases hat.place with
    | between hstate => exact .between hstate
    | header hstate htype hneed hlength => exact .header hstate htype hneed hlength
    | content hstate htype hneed hheader hpos => exact .content hstate htype hneed hheader hpos
  · rw [length_append, length_append, hlen]
    omega

theorem kept_parse (hgood : ∀ i ∈ items, i.Good) (h : HciKept items s)
    (hcalm : HciEvent.parse.Calm items s) (ht : rxParseHandler s = some t) : HciKept items t := by
  obtain ⟨done, rest, k, q, future, hitems, hat, hfuture, hlen, hcalls⟩ := h.stands
  have hcut : cutOk rest (k + q.length) = true := by
    rw [HciEvent.Calm, hitems, hlen] at hcalm
    exact cutOk_append hcalm
  have hgood' : ∀ i ∈ rest, i.Good := fun i hi =>
    hgood i (by rw [hitems]; exact mem_append_right _ hi)
  obtain ⟨u, k', done', rest', q', hrun, hrest, hat', hlen', hcalls', hfed, hwithin⟩ :=
    parses hgood' hat hcut (n := 2 * q.length + 2) (by omega)
  rw [rxParseHandler, hat.has.holds.count_eq, hrun] at ht
  obtain rfl := Option.some.inj ht
  have hpackets : within items u.fed.length = packets (done ++ done') := by
    rw [hitems, hfed, hlen, within_append, hwithin, packets_append]
  have hcalls'' : u.calls = (packets (done ++ done')).map HciPacket.call := by
    rw [hcalls', hcalls, packets_append, map_append]
  refine ⟨⟨done ++ done', rest', k', q', future, ?_, ⟨{ hat'.has with }, ?_⟩, ?_, ?_, hcalls''⟩, ?_⟩
  · rw [hitems, hrest, append_assoc]
  · cases hat'.place with
    | between hstate => exact .between hstate
    | header hstate htype hneed hlength => exact .header hstate htype hneed hlength
    | content hstate htype hneed hheader hpos => exact .content hstate htype hneed hheader hpos
  · rw [hfed]
    exact hfuture
  · rw [hfed, hlen, encode_append, length_append]
    omega
  · rw [hpackets]
    exact hcalls''

theorem HciKept.right (h : HciKept items s) : HciRight items s := by
  obtain ⟨done, rest, k, q, future, -, hat, -⟩ := h.stands
  refine ⟨h.calls, fun hall => ?_, hat.has.outside⟩
  rw [h.calls, hall, within_all]

/-- **The packets of the controller are delivered**, each one once, in order and with its payload in
the buffer, in every run in which the parser does not stop behind a byte that is skipped. -/
theorem hci_receive_calm (hgood : ∀ i ∈ items, i.Good)
    (h : Machine.Reach hciStep (fun s i => i.Follows items s ∧ i.Calm items s) hciRecvInit s) :
    HciRight items s := by
  refine (h.invariant (kept_hciRecvInit items) ?_).right
  rintro t u i hkept ⟨hfollows, hcalm⟩ hu
  cases i with
  | write bytes => exact kept_write hkept hfollows hu
  | parse => exact kept_parse hgood hkept hcalm hu

/-- An event of two bytes, and data without any. -/
def twoPackets : List HciItem :=
  [.skip 0xFF, .packet ⟨4, [0x0E, 2], [1, 2]⟩, .skip 0, .packet ⟨2, [1, 0, 0, 0], []⟩]

theorem good_twoPackets : ∀ i ∈ twoPackets, i.Good := by
  rintro i hi
  rcases mem_cons.mp hi with rfl | hi
  · exact Or.inr (by decide)
  rcases mem_cons.mp hi with rfl | hi
  · exact ⟨by decide, rfl, rfl, by decide⟩
  rcases mem_cons.mp hi with rfl | hi
  · exact Or.inl (by decide)
  obtain rfl := mem_singleton.mp hi
  exact ⟨by decide, rfl, rfl, by decide⟩

/-- The two packets in five pieces. -/
theorem hci_receive_calm_two :
    ∃ s, Machine.run hciStep [.write [0xFF, 4, 0x0E], .parse, .write [2, 1], .parse,
        .write [2, 0, 2], .parse, .parse, .write [1, 0, 0], .parse, .write [0], .parse]
        hciRecvInit = some s ∧
      s.calls = [⟨4, [0x0E, 2], 2, some [1, 2]⟩, ⟨2, [1, 0, 0, 0], 0, some []⟩] ∧
      HciRight twoPackets s := by
  have hrun : Machine.run hciStep [.write [0xFF, 4, 0x0E], .parse, .write [2, 1], .parse,
      .write [2, 0, 2], .parse, .parse, .write [1, 0, 0], .parse, .write [0], .parse]
      hciRecvInit = some _ := rfl
  have hmeets : Machine.Meets hciStep
      (fun s i => i.Follows twoPackets s ∧ i.Calm twoPackets s)
      [.write [0xFF, 4, 0x0E], .parse, .write [2, 1], .parse, .write [2, 0, 2], .parse, .parse,
        .write [1, 0, 0], .parse, .write [0], .parse] hciRecvInit := by decide +kernel
  exact ⟨_, hrun, by decide +kernel,
    hci_receive_calm good_twoPackets (.of_run_of_meets hrun hmeets)⟩

/-- **A byte that is skipped may be taken for a type.** When it is the last one in the buffer, the
table is indexed with it; 1 passes for the type of a command, and the event that follows is given to
the handler of isochronous data. -/
theorem not_hciRight :
    (∃ items s, (∀ i ∈ items, i.Good) ∧
      Machine.Reach hciStep (fun s i => i.Follows items s) hciRecvInit s ∧ s.outside = true ∧
        ¬HciRight items s) ∧
    ∃ items s, (∀ i ∈ items, i.Good) ∧
      Machine.Reach hciStep (fun s i => i.Follows items s) hciRecvInit s ∧
        s.parsed = (encode items).length ∧ s.calls = [⟨1, [4, 0x0E, 2], 2, some [1, 2]⟩] ∧
          ¬HciRight items s := by
  refine ⟨?_, ?_⟩
  · have hrun : Machine.run hciStep [.write [0], .parse] hciRecvInit = some _ := rfl
    have hmeets : Machine.Meets hciStep (fun s i => i.Follows [.skip 0] s)
        [.write [0], .parse] hciRecvInit := by decide +kernel
    refine ⟨[.skip 0], _, ?_, .of_run_of_meets hrun hmeets, by decide +kernel, fun h => ?_⟩
    · intro i hi
      obtain rfl := mem_singleton.mp hi
      exact Or.inl (by decide)
    · exact absurd h.outside (by decide +kernel)
  · have hrun : Machine.run hciStep [.write [1], .parse, .write [4, 0x0E, 2, 1, 2], .parse]
        hciRecvInit = some _ := rfl
    have hmeets : Machine.Meets hciStep
        (fun s i => i.Follows [.skip 1, .packet ⟨4, [0x0E, 2], [1, 2]⟩] s)
        [.write [1], .parse, .write [4, 0x0E, 2, 1, 2], .parse] hciRecvInit := by decide +kernel
    refine ⟨[.skip 1, .packet ⟨4, [0x0E, 2], [1, 2]⟩], _, ?_, .of_run_of_meets hrun hmeets,
      by decide +kernel, by decide +kernel, fun h => ?_⟩
    · intro i hi
      rcases mem_cons.mp hi with rfl | hi
      · exact Or.inl (by decide)
      obtain rfl := mem_singleton.mp hi
      exact ⟨by decide, rfl, rfl, by decide⟩
    · have hcalls := h.all (by decide +kernel)
      exact absurd hcalls (by decide +kernel)

end Gd32.Hci
