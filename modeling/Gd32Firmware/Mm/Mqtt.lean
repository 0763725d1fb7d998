import Gd32Firmware.Lib.LittleEndian
import Gd32Firmware.Lib.Loop
import Gd32Firmware.Lib.Machine
import Gd32Firmware.Util.CString

/-!
# MQTT texts in slices

`mm_cmd_parse.c` cuts a text into slices that fit a frame (`Mm.mqttSendDataCs`) and puts
slices together again (`Mm.packMqttData`); `mm_mqtt.c` takes the text to the thread that
publishes it, in a block of memory whose address is to go through a queue.

The slices are right: what is put together is the text (`Mm.feed_of_cut`). But the queue copies
as many bytes as an address has from the place it is given, and it is given the block and not the
place where the address of the block is. So the thread receives the protocol number that stands at
the start of the block and takes it for an address, and no text is ever published
(`Mm.not_roundTrip`).
-/

namespace Gd32

open List

variable {off : ℕ} {sls : List Slice} {addr : Option ℕ}

namespace Mm

open Loop

/-! ### The data -/

/-- `MQTT_DATA_SLICE_LEN`: a frame of 1600 bytes less the headers and 350 bytes for the rest of the
message. -/
def mqttDataSliceLen : ℕ := 1600 - 12 - 10 - 350

def mqttDataMaxLen : ℕ := 1024 * 8

def mmDataQueueSize : ℕ := 32

/-- What `strncpy` takes from a string. -/
def strncpy (n : ℕ) (s : List UInt8) : List UInt8 := (fieldString s).take n

/-- What `strncpy` writes: it fills up with zeros. -/
def strncpyField (n : ℕ) (s : List UInt8) : List UInt8 :=
  strncpy n s ++ List.replicate (n - (strncpy n s).length) 0

/-- A slice on its way. -/
structure Slice where
  /-- The command is `LP_PROTO_O_MQTT_SEND_DATA_ASYNC`. -/
  async : Bool
  proto : ℕ
  data : List UInt8
  slice : ℕ

/-! ### Cutting -/

def sliceType (dataLen sendLen : ℕ) : ℕ :=
  if dataLen ≤ mqttDataSliceLen then 0
  else if sendLen = 0 then 1
  else if mqttDataSliceLen < dataLen - sendLen then 2
  else 3

/-- One pass of the loop of `ty_lp_proto_mqtt_send_data_cs`, on `send_len` and the slices sent so
far; the result says whether there was memory. -/
def sendDataBody (mem : ℕ → Bool) (data : List UInt8) (dataLen proto : ℕ) (l : ℕ × List Slice) :
    ℕ × List Slice ⊕ Bool × List Slice :=
  if l.1 < dataLen then
    if mem l.2.length then
      let s := strncpy mqttDataSliceLen (data.drop l.1)
      .inl (l.1 + s.length, l.2 ++ [⟨proto = 302, proto, s, sliceType dataLen l.1⟩])
    else .inr (false, l.2)
  else .inr (true, l.2)

/-- `ty_lp_proto_mqtt_send_data_cs`, at most `passes` slices. -/
def mqttSendDataCs (mem : ℕ → Bool) (data : List UInt8) (dataLen proto passes : ℕ) :
    Option (Bool × List Slice) :=
  runFor (sendDataBody mem data dataLen proto) passes (0, [])

/-! ### The service that publishes -/

/-- A message that is published. -/
structure Published where
  topic : List UInt8
  proto : ℕ
  data : List UInt8

/-- The publishing service. -/
structure Svc where
  /-- The blocks of memory for messages, with their addresses. -/
  heap : List (ℕ × List UInt8)
  /-- `mm_data_queue`: words, oldest first. -/
  queue : List ℕ
  /-- `md` of `mm_mqtt_post_proc`. -/
  md : ℕ
  published : List Published
  /-- An address has been used at which there is no block. -/
  wild : Bool

/-- The start. -/
def svcInit : Svc := ⟨[], [], 0, [], false⟩

/-- `struct mqtt_data` as `mm_mqtt_post_data` fills it. -/
def mqttData (data : List UInt8) (proto : ℕ) (topic : List UInt8) : List UInt8 :=
  let dataLen := (strncpy mqttDataMaxLen data).length + 1
  let topicLen := (strncpy 200 topic).length + 1
  LittleEndian.bytes 4 proto ++ LittleEndian.bytes 4 dataLen ++ LittleEndian.bytes 4 topicLen ++
    strncpyField dataLen data ++ strncpyField topicLen topic

/-- `mm_mqtt_post_data`; `addr` is the answer of the allocator. The queue is given the address of
the block, and takes the word that stands there. -/
def mmMqttPostData (data : List UInt8) (proto : ℕ) (topic : List UInt8) (addr : Option ℕ)
    (s : Svc) : Svc :=
  match addr with
  | none => s
  | some md =>
    let block := mqttData data proto topic
    if s.queue.length < mmDataQueueSize then
      { s with
        heap := (md, block) :: s.heap
        queue := s.queue ++ [LittleEndian.value (block.take 4)] }
    else s

/-- The message in a block. -/
def readBlock (block : List UInt8) : Published :=
  let dataLen := LittleEndian.value ((block.drop 4).take 4)
  { topic := fieldString (block.drop (12 + dataLen))
    proto := LittleEndian.value (block.take 4)
    data := (block.drop 12).take dataLen }

/-- One pass of `mm_mqtt_post_proc`; `client` says whether `mqtt_client` is set. `none` while it
waits for a message, and after an address has been used at which there is no block. -/
def mmMqttPostProc (client : Bool) (s : Svc) : Option Svc :=
  if s.wild then none
  else
    let fetched : Option Svc :=
      if s.md = 0 then
        match s.queue with
        | [] => none
        | w :: q => some { s with md := w, queue := q }
      else some s
    fetched.map fun s =>
      if s.md = 0 ∨ client = false then s
      else
        match s.heap.find? (·.1 = s.md) with
        | none => { s with wild := true }
        | some b =>
          { s with
            published := s.published ++ [readBlock b.2]
            heap := s.heap.erase b
            md := 0 }

/-! ### Putting together -/

/-- The static variables of `pack_mqtt_data_web` and of `pack_mqtt_data_app`. -/
structure MqttPack where
  /-- The string at `mqtt_data`; `none` is the null pointer. -/
  mqttData : Option (List UInt8)
  copyLen : ℕ

/-- Nothing is being put together. -/
def MqttPack.empty : MqttPack := ⟨none, 0⟩

/-- What `pack_mqtt_data_web` and `pack_mqtt_data_app` both do, each with its own variables; `mem`
says whether there is memory for the buffer, and `addr` is the answer of the allocator for the
message. -/
def packMqttData (mem : Bool) (addr : Option ℕ) (proto : ℕ) (data : List UInt8) (slice : ℕ)
    (topic : List UInt8) (p : MqttPack) (s : Svc) : MqttPack × Svc :=
  if p.mqttData = none ∧ mem = false then (p, s)
  else
    let copied := (p.mqttData.getD []).take p.copyLen ++
      strncpy (mqttDataMaxLen - p.copyLen - 1) data
    let copyLen := (strncpy (mqttDataMaxLen - 1) copied).length
    if slice = 0 ∨ slice = 3 ∨ mqttDataMaxLen - 1 ≤ copyLen then
      (.empty, if slice = 0 ∨ slice = 3 then mmMqttPostData copied proto topic addr s else s)
    else (⟨some copied, copyLen⟩, s)

def packMqttDataWeb : Bool → Option ℕ → ℕ → List UInt8 → ℕ → List UInt8 → MqttPack → Svc →
    MqttPack × Svc :=
  packMqttData

def packMqttDataApp : Bool → Option ℕ → ℕ → List UInt8 → ℕ → List UInt8 → MqttPack → Svc →
    MqttPack × Svc :=
  packMqttData

/-- The two functions that put slices together; the topic decides between them. -/
inductive PackFn where
  /-- `pack_mqtt_data_web`. -/
  | web
  /-- `pack_mqtt_data_app`. -/
  | app

/-- One slice, with memory for the buffer. -/
def PackFn.pack (k : PackFn) (addr : Option ℕ) (topic : List UInt8) (sl : Slice) (p : MqttPack)
    (s : Svc) : MqttPack × Svc :=
  match k with
  | .web => packMqttDataWeb true addr sl.proto sl.data sl.slice topic p s
  | .app => packMqttDataApp true addr sl.proto sl.data sl.slice topic p s

/-- Slices one after the other. -/
def feed (k : PackFn) (addr : Option ℕ) (topic : List UInt8) :
    List Slice → MqttPack → Svc → MqttPack × Svc
  | [], p, s => (p, s)
  | sl :: sls, p, s =>
    feed k addr topic sls (k.pack addr topic sl p s).1 (k.pack addr topic sl p s).2

/-! ### The slices are right -/

/-- **The slices of a text** from an offset on: all but the last are as long as a slice can be, and
they are marked first or middle; the last is what is left, marked single or last. -/
inductive Cut (proto : ℕ) (text : List UInt8) : ℕ → List Slice → Prop
  | last {off : ℕ} {sl : Slice} (hproto : sl.proto = proto) (hdata : sl.data = text.drop off)
      (hlen : sl.data.length ≤ mqttDataSliceLen) (hne : sl.data ≠ [])
      (hslice : sl.slice = if off = 0 then 0 else 3) : Cut proto text off [sl]
  | more {off : ℕ} {sl : Slice} {sls : List Slice} (hproto : sl.proto = proto)
      (hdata : sl.data = (text.drop off).take mqttDataSliceLen)
      (hoff : off + mqttDataSliceLen < text.length)
      (hslice : sl.slice = if off = 0 then 1 else 2)
      (hrest : Cut proto text (off + mqttDataSliceLen) sls) : Cut proto text off (sl :: sls)

theorem fieldString_eq_self {s : List UInt8} (h : 0 ∉ s) : fieldString s = s := by
  rw [fieldString, takeWhile_eq_self_iff]
  intro c hc
  have hne : c ≠ 0 := fun h0 => h (h0 ▸ hc)
  simpa using hne

theorem strncpy_of_le {n : ℕ} {s : List UInt8} (h : 0 ∉ s) (hle : s.length ≤ n) :
    strncpy n s = s := by
  rw [strncpy, fieldString_eq_self h, take_of_length_le hle]

section Cutting

variable {text : List UInt8} {proto : ℕ}

/-- The string at an offset into a text and its terminator. -/
theorem fieldString_drop (h : 0 ∉ text) (hoff : off ≤ text.length) :
    fieldString ((text ++ [0]).drop off) = text.drop off := by
  rw [drop_append_of_le_length hoff]
  exact fieldString_append ⟨text.drop off, fun h0 => h (mem_of_mem_drop h0)⟩ []

/-- **The text is cut** from an offset on. -/
theorem cut_of_sendData (h : 0 ∉ text) (hoff : off < text.length)
    (hpos : off ≠ 0 → mqttDataSliceLen < text.length) (sent : List Slice) :
    ∃ passes sls, runFor (sendDataBody (fun _ => true) (text ++ [0]) text.length proto) passes
        (off, sent) = some (true, sent ++ sls) ∧ Cut proto text off sls := by
  obtain ⟨k, hk⟩ : ∃ k, text.length - off = k := ⟨_, rfl⟩
  induction k using Nat.strong_induction_on generalizing off sent with
  | _ k ih =>
  have hfield := fieldString_drop h (le_of_lt hoff)
  obtain ⟨sl, hsl⟩ : ∃ sl : Slice, sl = ⟨proto = 302, proto,
    strncpy mqttDataSliceLen ((text ++ [0]).drop off), sliceType text.length off⟩ := ⟨_, rfl⟩
  have hdata : sl.data = (text.drop off).take mqttDataSliceLen := by
    rw [hsl, strncpy, hfield]
  have hlen : (text.drop off).length = text.length - off := length_drop
  have hbody : sendDataBody (fun _ => true) (text ++ [0]) text.length proto (off, sent) =
      .inl (off + sl.data.length, sent ++ [sl]) := by
    rw [sendDataBody, if_pos hoff, if_pos rfl, hsl]
  have htaken : sl.data.length = min mqttDataSliceLen (text.length - off) := by
    rw [hdata, length_take, hlen]
  have hmax : 0 < mqttDataSliceLen := by decide
  rcases lt_or_ge mqttDataSliceLen (text.length - off) with hmore | hlast
  · -- more is left than a slice holds
    obtain ⟨passes, sls, hrun, hcut⟩ := ih (text.length - (off + mqttDataSliceLen)) (by omega)
      (by omega) (fun _ => by omega) (sent ++ [sl]) rfl
    refine ⟨passes + 1, sl :: sls, ?_, .more (by rw [hsl]) hdata (by omega) ?_ hcut⟩
    · rw [runFor_of_inl hbody, show off + sl.data.length = off + mqttDataSliceLen by omega, hrun,
        append_assoc]
      rfl
    · rw [hsl]
      simp only [sliceType]
      rw [if_neg (by omega), if_pos hmore]
  · -- the rest is one slice
    have hend : off + sl.data.length = text.length := by omega
    refine ⟨2, [sl], ?_, .last (by rw [hsl]) ?_ (by omega) (fun hnil => ?_) ?_⟩
    · rw [runFor_of_inl hbody, hend]
      refine runFor_of_inr ?_ 0
      rw [sendDataBody, if_neg (lt_irrefl _)]
    · rw [hdata, take_of_length_le (by omega)]
    · rw [hnil, length_nil] at htaken
      omega
    · rw [hsl]
      simp only [sliceType]
      rcases eq_zero_or_pos off with rfl | h0
      · rw [if_pos (by omega), if_pos rfl]
      · have hne : off ≠ 0 := by omega
        rw [if_neg (by omega), if_neg hne, if_neg (by omega), if_neg hne]

/-- Slices are as short and marked as they should be. -/
theorem Cut.slice_le (h : Cut proto text off sls) :
    ∀ sl ∈ sls, sl.data.length ≤ mqttDataSliceLen ∧ sl.slice ≤ 3 := by
  induction h with
  | last _ _ hlen _ hslice =>
    intro sl hsl
    rw [mem_singleton.mp hsl, hslice]
    refine ⟨hlen, ?_⟩
    split <;> omega
  | more _ hdata _ hslice _ ih =>
    intro sl hsl
    rcases mem_cons.mp hsl with rfl | hsl
    · rw [hdata, hslice, length_take]
      refine ⟨min_le_left _ _, ?_⟩
      split <;> omega
    · exact ih sl hsl

end Cutting

/-! ### Putting together is right -/

/-- What is being put together after `off` bytes of a text. -/
def MqttPack.upTo (text : List UInt8) (off : ℕ) : MqttPack :=
  if off = 0 then .empty else ⟨some (text.take off), off⟩

/-- **The slices of a text**, from an offset on, are put together to the text, which is posted
once. -/
theorem feed_of_cut (k : PackFn) {text : List UInt8} {proto : ℕ}
    (h : Cut proto text off sls) (h0 : 0 ∉ text) (hlen : text.length < mqttDataMaxLen)
    (hoff : off ≤ text.length) (addr : Option ℕ) (topic : List UInt8) (s : Svc) :
    feed k addr topic sls (.upTo text off) s =
      (.empty, mmMqttPostData text proto topic addr s) := by
  have hslice : mqttDataSliceLen = 1228 := rfl
  -- what is put together when a slice is added
  have hadd : ∀ {off : ℕ} {sl : Slice} {n : ℕ}, sl.data = (text.drop off).take n →
      off ≤ text.length → ((MqttPack.upTo text off).mqttData.getD []).take
        (MqttPack.upTo text off).copyLen ++
        strncpy (mqttDataMaxLen - (MqttPack.upTo text off).copyLen - 1) sl.data =
        text.take (off + n) := by
    intro off sl n hdata hoff
    have hz : 0 ∉ sl.data := fun hx => h0 (by
      rw [hdata] at hx
      exact mem_of_mem_drop (mem_of_mem_take hx))
    have hn : sl.data.length ≤ text.length - off := by
      rw [hdata, length_take, length_drop]
      exact min_le_right _ _
    have hcopy : (MqttPack.upTo text off).copyLen = off := by
      rw [MqttPack.upTo]
      split
      next h => exact h.symm
      next => rfl
    have hbuf : ((MqttPack.upTo text off).mqttData.getD []).take off = text.take off := by
      rw [MqttPack.upTo]
      split
      next h => rw [h]; rfl
      next => rw [Option.getD_some, take_take, min_self]
    rw [hcopy, hbuf, strncpy_of_le hz (by omega), hdata, take_add]
  have hcopied : ∀ n ≤ text.length, (strncpy (mqttDataMaxLen - 1) (text.take n)).length = n := by
    intro n hn
    rw [strncpy_of_le (fun hx => h0 (mem_of_mem_take hx)), length_take]
    · omega
    · rw [length_take]
      omega
  induction h with
  | @last off sl hproto hdata hl hne hmark =>
    have htake : sl.data = (text.drop off).take (text.length - off) := by
      rw [hdata, take_of_length_le (by rw [length_drop])]
    have hall := hadd htake hoff
    rw [show off + (text.length - off) = text.length by omega, take_length] at hall
    have hpack : k.pack addr topic sl (.upTo text off) s =
        (.empty, mmMqttPostData text proto topic addr s) := by
      have hend : sl.slice = 0 ∨ sl.slice = 3 := by
        rw [hmark]
        split
        · exact Or.inl rfl
        · exact Or.inr rfl
      have : packMqttData true addr sl.proto sl.data sl.slice topic (.upTo text off) s =
          (.empty, mmMqttPostData text proto topic addr s) := by
        rw [packMqttData, if_neg (by simp)]
        simp only [hall]
        rw [if_pos (by tauto), if_pos hend, hproto]
      cases k <;> exact this
    rw [feed, hpack, feed]
  | @more off sl sls hproto hdata hlt hmark hrest ih =>
    have hall := hadd hdata hoff
    have hpack : k.pack addr topic sl (.upTo text off) s =
        (.upTo text (off + mqttDataSliceLen), s) := by
      have hnot : ¬(sl.slice = 0 ∨ sl.slice = 3) := by
        rw [hmark]
        split <;> omega
      have hlen' := hcopied (off + mqttDataSliceLen) (by omega)
      have : packMqttData true addr sl.proto sl.data sl.slice topic (.upTo text off) s =
          (.upTo text (off + mqttDataSliceLen), s) := by
        rw [packMqttData, if_neg (by simp)]
        simp only [hall, hlen']
        rw [if_neg (by omega), MqttPack.upTo, if_neg (by omega)]
      cases k <;> exact this
    rw [feed, hpack]
    exact ih (by omega)

/-- **A text that is cut and put together** is posted once, and nothing is left behind. -/
theorem posted_once (k : PackFn) {text : List UInt8} (h0 : 0 ∉ text) (hne : text ≠ [])
    (hlen : text.length < mqttDataMaxLen) (proto : ℕ) (addr : Option ℕ) (topic : List UInt8)
    (s : Svc) :
    ∃ passes sls,
      mqttSendDataCs (fun _ => true) (text ++ [0]) text.length proto passes = some (true, sls) ∧
      (∀ sl ∈ sls, sl.data.length ≤ mqttDataSliceLen ∧ sl.slice ≤ 3) ∧
      feed k addr topic sls .empty s = (.empty, mmMqttPostData text proto topic addr s) := by
  obtain ⟨passes, sls, hrun, hcut⟩ := cut_of_sendData h0
    (length_pos_iff.mpr hne) (fun h => absurd rfl h) []
  exact ⟨passes, sls, hrun, hcut.slice_le, feed_of_cut k hcut h0 hlen (Nat.zero_le _) addr topic s⟩

theorem posted_once_oneByte : ∃ passes sls,
    mqttSendDataCs (fun _ => true) ([65] ++ [0]) ([65] : List UInt8).length 302 passes = some (true, sls) ∧
      (∀ sl ∈ sls, sl.data.length ≤ mqttDataSliceLen ∧ sl.slice ≤ 3) ∧
      feed .app none [] sls .empty svcInit = (.empty, mmMqttPostData [65] 302 [] none svcInit) :=
  posted_once .app (by decide) (by decide) (by decide) 302 none [] svcInit

/-! ### What comes out of the queue -/

/-- The start of the memory that is allocated from. -/
def ramStart : ℕ := 0x20000000

/-- Blocks are in RAM, and the words in the queue are protocol numbers. -/
structure SvcSound (s : Svc) : Prop where
  heap : ∀ b ∈ s.heap, ramStart ≤ b.1
  queue : ∀ w ∈ s.queue, w < 2 ^ 16
  md : s.md < 2 ^ 16

/-- **The word taken from a block** is the protocol number. -/
theorem value_mqttData (data : List UInt8) {proto : ℕ} (topic : List UInt8) (h : proto < 2 ^ 16) :
    LittleEndian.value ((mqttData data proto topic).take 4) = proto := by
  simp only [mqttData, append_assoc]
  rw [take_append_of_le_length (by rw [LittleEndian.length_bytes]),
    take_of_length_le (by rw [LittleEndian.length_bytes]),
    LittleEndian.value_bytes (by omega)]

section Sound

variable {s : Svc}

theorem svcSound_post (h : SvcSound s) (data : List UInt8) {proto : ℕ} (topic : List UInt8) (hp : proto < 2 ^ 16) (ha : ∀ a, addr = some a → ramStart ≤ a) :
    SvcSound (mmMqttPostData data proto topic addr s) ∧
      (mmMqttPostData data proto topic addr s).published = s.published := by
  rcases addr with _ | a
  · exact ⟨h, rfl⟩
  rw [mmMqttPostData]
  split
  · refine ⟨⟨fun b hb => ?_, fun w hw => ?_, h.md⟩, rfl⟩
    · rcases mem_cons.mp hb with rfl | hb
      · exact ha a rfl
      · exact h.heap b hb
    · rcases mem_append.mp hw with hw | hw
      · exact h.queue w hw
      · rw [mem_singleton.mp hw, value_mqttData data topic hp]
        exact hp
  · exact ⟨h, rfl⟩

/-- **A pass of the thread publishes nothing.** -/
theorem svcSound_postProc (h : SvcSound s) {client : Bool} {u : Svc}
    (hu : mmMqttPostProc client s = some u) : SvcSound u ∧ u.published = s.published := by
  have hlook : ∀ t : Svc, SvcSound t → t.heap.find? (·.1 = t.md) = none := by
    intro t ht
    rw [List.find?_eq_none]
    intro b hb
    have h1 := ht.heap b hb
    have h2 := ht.md
    have h3 : ramStart = 0x20000000 := rfl
    simp only [decide_eq_true_eq]
    omega
  have hpass : ∀ t : Svc, SvcSound t → t.published = s.published →
      (if t.md = 0 ∨ client = false then t
        else
          match t.heap.find? (·.1 = t.md) with
          | none => { t with wild := true }
          | some b =>
            { t with
              published := t.published ++ [readBlock b.2]
              heap := t.heap.erase b
              md := 0 }) = u → SvcSound u ∧ u.published = s.published := by
    intro t ht hpub hu
    rw [hlook t ht] at hu
    split at hu
    · exact hu ▸ ⟨ht, hpub⟩
    · exact hu ▸ ⟨⟨ht.heap, ht.queue, ht.md⟩, hpub⟩
  rw [mmMqttPostProc] at hu
  split at hu
  · cases hu
  by_cases hmd : s.md = 0
  · simp only [hmd, if_true] at hu
    rcases hq : s.queue with _ | ⟨w, q⟩
    · simp only [hq] at hu
      cases hu
    · simp only [hq, Option.map_some, Option.some.injEq] at hu
      have hqueue := h.queue
      rw [hq] at hqueue
      exact hpass { s with md := w, queue := q }
        ⟨h.heap, fun v hv => hqueue v (mem_cons_of_mem _ hv), hqueue w mem_cons_self⟩
        rfl hu
  · exact hpass s h rfl (by simpa [hmd] using hu)

end Sound

/-! ### Every run -/

/-- What can happen to the service. -/
inductive SvcStep where
  | post (data : List UInt8) (proto : ℕ) (topic : List UInt8) (addr : Option ℕ)
  | pass (client : Bool)

/-- One step. -/
def svcStep : SvcStep → Svc → Option Svc
  | .post data proto topic addr, s => some (mmMqttPostData data proto topic addr s)
  | .pass client, s => mmMqttPostProc client s

/-- A protocol number has 16 bits, and memory is allocated in RAM. -/
def SvcStep.Ok : SvcStep → Prop
  | .post _ proto _ addr => proto < 2 ^ 16 ∧ ∀ a, addr = some a → ramStart ≤ a
  | .pass _ => True

/-- The passes of the thread. -/
def passes (clients : List Bool) (s : Svc) : Option Svc :=
  Machine.run svcStep (clients.map .pass) s

/-- **The round trip of a text**: it is cut into slices that are short and marked, and when these
are put together and the thread runs, exactly one message more is published, which is the text, and
nothing is left behind. -/
def RoundTrip (k : PackFn) (text : List UInt8) (proto : ℕ) (addr : Option ℕ) (topic : List UInt8)
    (p : MqttPack) (s : Svc) : Prop :=
  ∃ n sls clients t m,
    mqttSendDataCs (fun _ => true) (text ++ [0]) text.length proto n = some (true, sls) ∧
    (∀ sl ∈ sls, sl.data.length ≤ mqttDataSliceLen ∧ sl.slice ≤ 3) ∧
    (feed k addr topic sls p s).1 = .empty ∧
    passes clients (feed k addr topic sls p s).2 = some t ∧
    t.published = s.published ++ [m] ∧
    fieldString m.data = text ∧ m.proto = proto ∧ m.topic = topic

section Claim

variable {s : Svc}

theorem svcSound_of_reach (h : Machine.Reach svcStep (fun _ i => i.Ok) svcInit s) : SvcSound s := by
  refine h.invariant ⟨by simp [svcInit], by simp [svcInit], by decide⟩ ?_
  intro t u i ht hok hi
  cases i with
  | post data proto topic addr =>
    cases hi
    exact (svcSound_post ht data topic hok.1 hok.2).1
  | pass client => exact (svcSound_postProc ht hi).1

theorem svcSound_feed (h : SvcSound s) (k : PackFn) (topic : List UInt8)
    (ha : ∀ a, addr = some a → ramStart ≤ a)
    (hp : ∀ sl ∈ sls, sl.proto < 2 ^ 16) (p : MqttPack) :
    SvcSound (feed k addr topic sls p s).2 ∧
      (feed k addr topic sls p s).2.published = s.published := by
  induction sls generalizing p s with
  | nil => exact ⟨h, rfl⟩
  | cons sl sls ih =>
    have hpack : SvcSound (k.pack addr topic sl p s).2 ∧
        (k.pack addr topic sl p s).2.published = s.published := by
      have : SvcSound (packMqttData true addr sl.proto sl.data sl.slice topic p s).2 ∧
          (packMqttData true addr sl.proto sl.data sl.slice topic p s).2.published =
            s.published := by
        rw [packMqttData, if_neg (by simp)]
        dsimp only
        split
        · split
          · exact svcSound_post h _ topic (hp sl mem_cons_self) ha
          · exact ⟨h, rfl⟩
        · exact ⟨h, rfl⟩
      cases k <;> exact this
    obtain ⟨hsound, hpub⟩ := ih hpack.1 (fun x hx => hp x (mem_cons_of_mem _ hx))
      (k.pack addr topic sl p s).1
    exact ⟨hsound, hpub.trans hpack.2⟩

theorem published_passes (h : SvcSound s) (clients : List Bool) {t : Svc}
    (ht : passes clients s = some t) : t.published = s.published := by
  induction clients generalizing s with
  | nil =>
    cases ht
    rfl
  | cons c clients ih =>
    simp only [passes, map_cons, Machine.run, Option.bind_eq_some_iff] at ht
    obtain ⟨u, hu, ht⟩ := ht
    obtain ⟨hsound, hpub⟩ := svcSound_postProc h hu
    exact (ih hsound ht).trans hpub

/-- The slices bear the protocol number of the text. -/
theorem proto_of_sendData {mem : ℕ → Bool} {data : List UInt8} {dataLen proto n : ℕ}
    {l : ℕ × List Slice} {r : Bool × List Slice}
    (h : runFor (sendDataBody mem data dataLen proto) n l = some r)
    (hl : ∀ sl ∈ l.2, sl.proto = proto) : ∀ sl ∈ r.2, sl.proto = proto := by
  induction n generalizing l with
  | zero => cases h
  | succ n ih =>
    rcases hb : sendDataBody mem data dataLen proto l with u | q
    · rw [runFor_of_inl hb] at h
      refine ih h ?_
      rw [sendDataBody] at hb
      split at hb
      · split at hb
        · cases hb
          intro sl hsl
          rcases mem_append.mp hsl with hsl | hsl
          · exact hl sl hsl
          · rw [mem_singleton.mp hsl]
        · cases hb
      · cases hb
    · rw [runFor_of_inr hb] at h
      cases h
      rw [sendDataBody] at hb
      split at hb
      · split at hb
        · cases hb
        · cases hb
          exact hl
      · cases hb
        exact hl

/-- From a sound state nothing comes back. -/
theorem not_roundTrip_of_sound (h : SvcSound s) (k : PackFn) (text : List UInt8) {proto : ℕ} (topic : List UInt8) (p : MqttPack) (hp : proto < 2 ^ 16)
    (ha : ∀ a, addr = some a → ramStart ≤ a) : ¬RoundTrip k text proto addr topic p s := by
  rintro ⟨n, sls, clients, t, m, hsend, -, -, hpass, hpub, -⟩
  have hproto := proto_of_sendData hsend (by simp)
  obtain ⟨hsound, hsame⟩ := svcSound_feed h k topic ha
    (fun sl hsl => by rw [hproto sl hsl]; exact hp) p
  rw [published_passes hsound clients hpass, hsame] at hpub
  have := congrArg List.length hpub
  rw [length_append, length_singleton] at this
  omega

end Claim

/-- **No text makes the round trip**, whatever was posted before and whatever is being put
together. -/
theorem not_roundTrip (k : PackFn) (text : List UInt8) (proto : ℕ) (addr : Option ℕ)
    (topic : List UInt8) (p : MqttPack) (s : Svc)
    (hs : Machine.Reach svcStep (fun _ i => i.Ok) svcInit s) (hproto : proto < 2 ^ 16)
    (haddr : ∀ a, addr = some a → ramStart ≤ a) : ¬RoundTrip k text proto addr topic p s :=
  not_roundTrip_of_sound (svcSound_of_reach hs) k text topic p hproto haddr

/-- After one message. -/
theorem not_roundTrip_second :
    ¬RoundTrip .app [104, 105] 5 (some 0x20001000) [97] .empty
      (mmMqttPostData [104] 5 [97] (some 0x20000800) svcInit) :=
  not_roundTrip .app _ 5 _ _ _ _
    (.next (i := .post [104] 5 [97] (some 0x20000800)) .start
      ⟨by decide, fun a ha => by cases ha; decide⟩ rfl)
    (by decide) (fun a ha => by cases ha; decide)

/-- **A text of one byte** at the start. -/
theorem not_roundTrip_oneByte :
    ¬RoundTrip .app [104] 5 (some 0x20000800) [97] .empty svcInit :=
  not_roundTrip_of_sound ⟨by simp [svcInit], by simp [svcInit], by decide⟩ .app _ _ _ (by decide)
    (fun a ha => by cases ha; decide)

end Mm

end Gd32
