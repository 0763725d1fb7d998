import Gd32Firmware.Config
import Gd32Firmware.Lib.Machine
import Gd32Firmware.Lib.Table

/-!
# Commands that are sent until they are acknowledged

`mm_cmd_parse.c` with `TUYA_SPI_RETRY`: one side numbers its commands and keeps each in a table
until an acknowledgement comes, sending it again in the meantime; the other side executes them in
the order of their numbers, and keeps those that come too early in a table of its own. Frames and
acknowledgements that were sent once may arrive at any time, any number of times or never.

A command is acknowledged before the receiver looks whether it can keep it, two commands are
executed whenever they come, and after three seconds without progress a number is passed over.
`Reliable` is what all this is for, and `commands_reliable` says when it is kept.
-/

namespace Gd32.Mm

open Table List

/-! ### The data -/

def spiTSetMacAddr : ℕ := 31

def tyMaxTxNode : ℕ := 30

def tyMaxRxNode : ℕ := 15

def tySpiRetryTimeOut : ℕ := 1000

/-- A command as it goes over the wire, a message of type 0. -/
structure Frame where
  cmd : ℕ
  /-- `t`, the frame number. -/
  frameNum : ℕ
  param : List UInt8
  deriving DecidableEq

/-- An acknowledgement, a message of type 1. -/
structure Ack where
  cmd : ℕ
  /-- `t`. -/
  frameNum : ℕ
  deriving DecidableEq

/-- `stat` of a slot in use. -/
inductive TxStat where
  /-- `TY_USED`: not sent yet. -/
  | used
  | send
  deriving DecidableEq

/-- A slot of `g_spi_tx_list` in use. -/
structure TxNode where
  stat : TxStat
  /-- `cmd`, `frame_num` and `data`. -/
  frame : Frame
  ticks : ℕ

/-- The side that sends commands. -/
structure Sender where
  frameNum : ℕ
  txList : List (Option TxNode)

/-- The side that executes them. -/
structure Receiver where
  maxProcFn : ℕ
  maxFnInBuffer : ℕ
  lastProcTime : ℕ
  rxList : List (Option Frame)
  /-- The commands `ty_lp_proto_cmd_handle` has been called with so far. -/
  executed : List Frame

/-! ### The table of the sender -/

/-- `__wait_list_insert`; `mem` says whether there is memory. -/
def waitListInsert (mem : Bool) (f : Frame) (now : ℕ) (l : List (Option TxNode)) :
    Option (List (Option TxNode)) :=
  if mem then (modifyFirst (·.isNone) (fun _ => some ⟨.used, f, now⟩) l).map Prod.snd else none

/-- The slot is in use, sent, and for the command of the acknowledgement. -/
def Ack.matches (a : Ack) : Option TxNode → Bool
  | none => false
  | some n => n.stat = .send ∧ n.frame.cmd = a.cmd ∧ n.frame.frameNum = a.frameNum

/-- `__wait_list_delete`, with the slot found. -/
def waitListDelete (a : Ack) (l : List (Option TxNode)) :
    Option (Option TxNode × List (Option TxNode)) :=
  modifyFirst a.matches (fun _ => none) l

/-- A slot that is to be sent: it has not been yet, or that is too long ago. -/
def needSend (now : ℕ) : Option TxNode → Bool
  | none => false
  | some n => n.stat = .used ∨ u32 (n.ticks + tySpiRetryTimeOut) ≤ now

/-- What is noted in a slot that is sent. -/
def touch (now : ℕ) (n : TxNode) : TxNode :=
  match n.stat with
  | .used => { n with stat := .send }
  | .send => { n with ticks := now }

/-- `__wait_list_get_need_send`, with the slot found. -/
def waitListGetNeedSend (now : ℕ) (l : List (Option TxNode)) :
    Option (Option TxNode × List (Option TxNode)) :=
  modifyFirst (needSend now) (Option.map (touch now)) l

/-! ### The table of the receiver -/

def rxListInsert (mem : Bool) (f : Frame) (l : List (Option Frame)) : Option (List (Option Frame)) :=
  if mem then (modifyFirst (·.isNone) (fun _ => some f) l).map Prod.snd else none

/-- `__rx_list_get_node`: the frame of that number, if there is one and there is memory for a copy
of it. The slots with smaller numbers that are passed on the way are cleared. -/
def rxListGetNode (mem : Bool) (frameNum : ℕ) :
    List (Option Frame) → Option Frame × List (Option Frame)
  | [] => (none, [])
  | none :: l => ((rxListGetNode mem frameNum l).1, none :: (rxListGetNode mem frameNum l).2)
  | some f :: l =>
    if f.frameNum = frameNum then if mem then (some f, none :: l) else (none, some f :: l)
    else if f.frameNum < frameNum then
      ((rxListGetNode mem frameNum l).1, none :: (rxListGetNode mem frameNum l).2)
    else ((rxListGetNode mem frameNum l).1, some f :: (rxListGetNode mem frameNum l).2)

/-- `ty_lp_proto_handle_cmd_in_buffer`, at most `n` commands; `mem` are the allocator's answers,
one after the other. -/
def handleCmdInBuffer : ℕ → (ℕ → Bool) → Receiver → Receiver
  | 0, _, r => r
  | n + 1, mem, r =>
    match rxListGetNode (mem 0) (r.maxProcFn + 1) r.rxList with
    | (none, l) => { r with rxList := l }
    | (some f, l) =>
      handleCmdInBuffer n (fun i => mem (i + 1))
        { r with rxList := l, executed := r.executed ++ [f], maxProcFn := r.maxProcFn + 1 }

/-! ### The receiver -/

section Receive

variable (getAuthinfo : ℕ)

/-- A command that is executed whenever it comes; `LP_PROTO_S_GET_AUTHINFO` is not defined in the
header. -/
def bypasses (cmd : ℕ) : Bool := cmd = spiTSetMacAddr || cmd = getAuthinfo

/-- `__lp_proto_cs_json_parse` for a message of type 0, behind the acknowledgement. -/
def csJsonParse (now : ℕ) (mem : ℕ → Bool) (f : Frame) (r : Receiver) : Receiver :=
  if bypasses getAuthinfo f.cmd then
    { r with lastProcTime := now, executed := r.executed ++ [f] }
  else if r.maxProcFn + 1 = f.frameNum then
    let r' : Receiver :=
      { r with
        lastProcTime := now
        executed := r.executed ++ [f]
        maxProcFn := r.maxProcFn + 1 }
    if r'.maxProcFn + 1 ≤ r'.maxFnInBuffer then handleCmdInBuffer (tyMaxRxNode + 1) mem r' else r'
  else if f.frameNum ≤ r.maxProcFn then r
  else
    match rxListInsert (mem 0) f r.rxList with
    | none => r
    | some l =>
      { r with
        rxList := l
        lastProcTime := if r.maxFnInBuffer ≤ r.maxProcFn then now else r.lastProcTime
        maxFnInBuffer := max r.maxFnInBuffer f.frameNum }

/-- The condition of `ty_lp_proto_timeout_check`. -/
def timesOut (now : ℕ) (r : Receiver) : Bool :=
  r.maxProcFn < r.maxFnInBuffer ∧ u32 (r.lastProcTime + 3000) < now

/-- `ty_lp_proto_timeout_check`. -/
def timeoutCheck (now : ℕ) (mem : ℕ → Bool) (r : Receiver) : Receiver :=
  if timesOut now r then
    handleCmdInBuffer (tyMaxRxNode + 1) mem { r with maxProcFn := r.maxProcFn + 1 }
  else r

end Receive

/-! ### The two sides and the wire between them -/

/-- Two peers, commands going one way. -/
structure Peers where
  sender : Sender
  receiver : Receiver
  /-- The frames sent so far; any of them can still arrive. -/
  frames : List Frame
  /-- The acknowledgements sent so far; any of them can still arrive. -/
  acks : List Ack
  /-- The commands that got a slot of the sender's table. -/
  sent : List Frame
  /-- The commands that were taken off the sender's table because of an acknowledgement. -/
  removed : List Frame

/-- The start. -/
def peersInit : Peers :=
  ⟨⟨0, List.replicate tyMaxTxNode none⟩, ⟨0, 0, 0, List.replicate tyMaxRxNode none, []⟩,
    [], [], [], []⟩

/-- `__lp_proto_json_com_pack`: the command takes a number whether it gets a slot or not. -/
def jsonComPack (cmd : ℕ) (param : List UInt8) (mem : Bool) (now : ℕ) (s : Peers) : Peers :=
  let f : Frame := ⟨cmd, s.sender.frameNum + 1, param⟩
  match waitListInsert mem f now s.sender.txList with
  | none => { s with sender := { s.sender with frameNum := s.sender.frameNum + 1 } }
  | some l => { s with sender := ⟨s.sender.frameNum + 1, l⟩, sent := s.sent ++ [f] }

/-- One pass of `ty_spi_cmd_send_thread`; without memory for a copy nothing is sent. -/
def spiCmdSend (mem : Bool) (now : ℕ) (s : Peers) : Peers :=
  match waitListGetNeedSend now s.sender.txList with
  | some (some n, l) =>
    { s with
      sender := { s.sender with txList := l }
      frames := if mem then s.frames ++ [n.frame] else s.frames }
  | _ => s

/-- The arrival of an acknowledgement. -/
def ackArrives (a : Ack) (s : Peers) : Peers :=
  match waitListDelete a s.sender.txList with
  | some (some n, l) =>
    { s with sender := { s.sender with txList := l }, removed := s.removed ++ [n.frame] }
  | _ => s

/-- What can happen. -/
inductive SpiStep where
  | send (cmd : ℕ) (param : List UInt8) (mem : Bool) (now : ℕ)
  | transmit (mem : Bool) (now : ℕ)
  | frame (f : Frame) (now : ℕ) (mem : ℕ → Bool)
  | ack (a : Ack)
  | timeout (now : ℕ) (mem : ℕ → Bool)

/-- One step. What arrives has been sent; and a number that an `int` does not hold is not
defined. -/
def spiStep (getAuthinfo : ℕ) : SpiStep → Peers → Option Peers
  | .send cmd param mem now, s =>
    if s.sender.frameNum + 1 < 2 ^ 31 then some (jsonComPack cmd param mem now s) else none
  | .transmit mem now, s => some (spiCmdSend mem now s)
  | .frame f now mem, s =>
    if f ∈ s.frames then
      some
        { s with
          receiver := csJsonParse getAuthinfo now mem f s.receiver
          acks := s.acks ++ [⟨f.cmd, f.frameNum⟩] }
    else none
  | .ack a, s => if a ∈ s.acks then some (ackArrives a s) else none
  | .timeout now mem, s => some { s with receiver := timeoutCheck now mem s.receiver }

/-! ### What the numbers and the acknowledgements are for -/

/-- **Reliable**: no command is executed twice, commands are executed in the order of their
numbers, and a command that was taken off the sender's table has been executed, or the receiver
holds it and has not passed its number. -/
structure Reliable (s : Peers) : Prop where
  once : s.receiver.executed.Nodup
  inOrder : s.receiver.executed.Pairwise fun f g => f.frameNum < g.frameNum
  kept : ∀ f ∈ s.removed, f ∈ s.receiver.executed ∨
    some f ∈ s.receiver.rxList ∧ s.receiver.maxProcFn < f.frameNum

/-- A number is settled when it has been given out and the command that bears it, if there is one,
has been executed. -/
def Settled (s : Peers) (k : ℕ) : Prop :=
  k ≤ s.sender.frameNum ∧ ∀ f ∈ s.sent, f.frameNum = k → f ∈ s.receiver.executed

/-- A command that bypasses the order comes when all numbers in front of its own are settled, and
only once; another that comes before its turn finds a free slot and memory, unless it is held
already; and only a number that is settled is passed over after a timeout. -/
def SpiStep.Calm (getAuthinfo : ℕ) (s : Peers) : SpiStep → Prop
  | .frame f _ mem =>
    (bypasses getAuthinfo f.cmd → f ∉ s.receiver.executed ∧
      ∀ k, s.receiver.maxProcFn < k → k < f.frameNum → Settled s k) ∧
    (¬bypasses getAuthinfo f.cmd → s.receiver.maxProcFn + 1 < f.frameNum →
      some f ∈ s.receiver.rxList ∨ none ∈ s.receiver.rxList ∧ mem 0)
  | .timeout now _ => timesOut now s.receiver → Settled s (s.receiver.maxProcFn + 1)
  | _ => True

/-! ### What the tables do -/

section Tables

/-- **Reading the table** takes nothing out of it but the frame found and frames whose numbers have
been passed, and adds nothing. -/
theorem rxListGetNode_spec (mem : Bool) (n : ℕ) (l : List (Option Frame)) :
    (∀ g, some g ∈ (rxListGetNode mem n l).2 → some g ∈ l) ∧
    (∀ g, some g ∈ l → some g ∈ (rxListGetNode mem n l).2 ∨ g.frameNum < n ∨
      (rxListGetNode mem n l).1 = some g) ∧
    (∀ f, (rxListGetNode mem n l).1 = some f → some f ∈ l ∧ f.frameNum = n) := by
  induction l with
  | nil => exact ⟨fun g h => h, fun g h => Or.inl h, fun f h => by cases h⟩
  | cons o l ih =>
    obtain ⟨hsub, hkeep, hfound⟩ := ih
    rcases o with _ | f
    · simp only [rxListGetNode, mem_cons, reduceCtorEq, false_or]
      exact ⟨hsub, hkeep, hfound⟩
    · rw [rxListGetNode]
      by_cases heq : f.frameNum = n
      · rw [if_pos heq]
        cases mem
        · refine ⟨fun g h => h, fun g h => Or.inl h, fun f h => by cases h⟩
        · refine ⟨fun g h => ?_, fun g h => ?_, fun g h => ?_⟩
          · rcases mem_cons.mp h with h | h
            · cases h
            · exact mem_cons_of_mem _ h
          · rcases mem_cons.mp h with h | h
            · cases h
              exact Or.inr (Or.inr rfl)
            · exact Or.inl (mem_cons_of_mem _ h)
          · cases h
            exact ⟨mem_cons_self, heq⟩
      · rw [if_neg heq]
        by_cases hlt : f.frameNum < n
        · rw [if_pos hlt]
          refine ⟨fun g h => ?_, fun g h => ?_, fun g h => ?_⟩
          · rcases mem_cons.mp h with h | h
            · cases h
            · exact mem_cons_of_mem _ (hsub g h)
          · rcases mem_cons.mp h with h | h
            · cases h
              exact Or.inr (Or.inl hlt)
            · exact (hkeep g h).imp_left (mem_cons_of_mem _)
          · exact ⟨mem_cons_of_mem _ (hfound g h).1, (hfound g h).2⟩
        · rw [if_neg hlt]
          refine ⟨fun g h => ?_, fun g h => ?_, fun g h => ?_⟩
          · rcases mem_cons.mp h with h | h
            · exact mem_cons.mpr (Or.inl h)
            · exact mem_cons_of_mem _ (hsub g h)
          · rcases mem_cons.mp h with h | h
            · exact Or.inl (mem_cons.mpr (Or.inl h))
            · exact (hkeep g h).imp_left (mem_cons_of_mem _)
          · exact ⟨mem_cons_of_mem _ (hfound g h).1, (hfound g h).2⟩

end Tables

/-! ### What the receiver keeps -/

/-- What is kept on the side of the receiver: `sent` are the commands that bear a number up to
`top`. -/
structure RecvSound (getAuthinfo : ℕ) (sent : List Frame) (top : ℕ) (r : Receiver) : Prop where
  /-- No number is passed before it is given out. -/
  bound : r.maxProcFn ≤ top
  /-- What is held has been sent, and comes in turn. -/
  held : ∀ f, some f ∈ r.rxList → f ∈ sent ∧ ¬bypasses getAuthinfo f.cmd
  real : ∀ f ∈ r.executed, f ∈ sent
  low : ∀ f ∈ sent, f.frameNum ≤ r.maxProcFn → f ∈ r.executed
  /-- What is executed in turn has been passed. -/
  high : ∀ f ∈ r.executed, ¬bypasses getAuthinfo f.cmd → f.frameNum ≤ r.maxProcFn
  order : r.executed.Pairwise fun f g => f.frameNum < g.frameNum
  closed : ∀ g ∈ r.executed, ∀ f ∈ sent, f.frameNum < g.frameNum → f ∈ r.executed

/-- What has been executed stays so, and what was held is still held or has been executed. -/
structure Keeps (r r' : Receiver) : Prop where
  executed : ∀ f ∈ r.executed, f ∈ r'.executed
  held : ∀ f, some f ∈ r.rxList → f ∈ r'.executed ∨ some f ∈ r'.rxList

theorem Keeps.refl (r : Receiver) : Keeps r r := ⟨fun _ h => h, fun _ h => Or.inr h⟩

theorem Keeps.trans {r r' r'' : Receiver} (h : Keeps r r') (h' : Keeps r' r'') : Keeps r r'' where
  executed f hf := h'.executed f (h.executed f hf)
  held f hf := by
    rcases h.held f hf with hx | hx
    · exact Or.inl (h'.executed f hx)
    · exact h'.held f hx

section Receive

variable {getAuthinfo : ℕ} {sent : List Frame} {top : ℕ} {r : Receiver} {f : Frame}

/-- A number belongs to one command. -/
def NumbersDiffer (sent : List Frame) : Prop :=
  ∀ f ∈ sent, ∀ g ∈ sent, f.frameNum = g.frameNum → f = g

/-- **A command is executed that has not been, with all numbers in front of its own settled.** -/
theorem RecvSound.execute (h : RecvSound getAuthinfo sent top r) (hd : NumbersDiffer sent)
    (hf : f ∈ sent) (hnew : f ∉ r.executed)
    (hbefore : ∀ g ∈ sent, g.frameNum < f.frameNum → g ∈ r.executed) :
    (r.executed ++ [f]).Pairwise (fun f g => f.frameNum < g.frameNum) ∧
      ∀ g ∈ r.executed ++ [f], ∀ e ∈ sent, e.frameNum < g.frameNum → e ∈ r.executed ++ [f] := by
  refine ⟨pairwise_append.mpr ⟨h.order, pairwise_singleton _ _, fun g hg e he => ?_⟩,
    fun g hg e he hlt => mem_append_left _ ?_⟩
  · rw [mem_singleton.mp he]
    by_contra hge
    rcases lt_or_ge f.frameNum g.frameNum with hlt | hle
    · exact hnew (h.closed g hg f hf hlt)
    · have heq := hd g (h.real g hg) f hf (le_antisymm hle (not_lt.mp hge))
      exact hnew (heq ▸ hg)
  · rcases mem_append.mp hg with hg | hg
    · exact h.closed g hg e he hlt
    · rw [mem_singleton.mp hg] at hlt
      exact hbefore e he hlt

/-- **The next command** is executed and its number passed. -/
theorem RecvSound.next (h : RecvSound getAuthinfo sent top r) (hd : NumbersDiffer sent)
    (hf : f ∈ sent) (hplain : ¬bypasses getAuthinfo f.cmd) (hnum : f.frameNum = r.maxProcFn + 1)
    (htop : f.frameNum ≤ top) (now : ℕ) :
    RecvSound getAuthinfo sent top
      { r with
        lastProcTime := now, executed := r.executed ++ [f], maxProcFn := r.maxProcFn + 1 } := by
  have hnew : f ∉ r.executed := fun hx => by
    have := h.high f hx hplain
    omega
  obtain ⟨horder, hclosed⟩ := h.execute hd hf hnew fun g hg hlt => h.low g hg (by omega)
  refine ⟨by simp only; omega, h.held, fun g hg => ?_, fun g hg hle => ?_, fun g hg hp => ?_, horder,
    hclosed⟩
  · rcases mem_append.mp hg with hg | hg
    · exact h.real g hg
    · rwa [mem_singleton.mp hg]
  · rcases Nat.eq_or_lt_of_le hle with heq | hlt
    · rw [hd g hg f hf (heq.trans hnum.symm)]
      exact mem_append_right _ (mem_singleton.mpr rfl)
    · exact mem_append_left _ (h.low g hg (Nat.le_of_lt_succ hlt))
  · rcases mem_append.mp hg with hg | hg
    · exact Nat.le_succ_of_le (h.high g hg hp)
    · rw [mem_singleton.mp hg]
      exact le_of_eq hnum

/-- **A number is passed over** when it is settled. -/
theorem RecvSound.skip (h : RecvSound getAuthinfo sent top r) (htop : r.maxProcFn + 1 ≤ top)
    (hset : ∀ f ∈ sent, f.frameNum = r.maxProcFn + 1 → f ∈ r.executed) :
    RecvSound getAuthinfo sent top { r with maxProcFn := r.maxProcFn + 1 } where
  bound := htop
  held := h.held
  real := h.real
  low f hf hle := by
    rcases Nat.eq_or_lt_of_le hle with heq | hlt
    · exact hset f hf heq
    · exact h.low f hf (Nat.le_of_lt_succ hlt)
  high f hf hp := Nat.le_succ_of_le (h.high f hf hp)
  order := h.order
  closed := h.closed

/-- Reading the table keeps what is kept. -/
theorem RecvSound.getNode (h : RecvSound getAuthinfo sent top r) (mem : Bool) :
    RecvSound getAuthinfo sent top
      { r with rxList := (rxListGetNode mem (r.maxProcFn + 1) r.rxList).2 } where
  bound := h.bound
  held f hf := h.held f ((rxListGetNode_spec mem _ r.rxList).1 f hf)
  real := h.real
  low := h.low
  high := h.high
  order := h.order
  closed := h.closed

/-- **Commands that waited** are executed as long as the next one is held. -/
theorem handleCmdInBuffer_spec (hd : NumbersDiffer sent) (hmax : ∀ f ∈ sent, f.frameNum ≤ top)
    (n : ℕ) (mem : ℕ → Bool) (h : RecvSound getAuthinfo sent top r) :
    RecvSound getAuthinfo sent top (handleCmdInBuffer n mem r) ∧
      Keeps r (handleCmdInBuffer n mem r) := by
  induction n generalizing mem r with
  | zero => exact ⟨h, .refl r⟩
  | succ n ih =>
    obtain ⟨-, hkeep, hfound⟩ := rxListGetNode_spec (mem 0) (r.maxProcFn + 1) r.rxList
    have hget := h.getNode (mem 0)
    rw [handleCmdInBuffer]
    rcases hr : rxListGetNode (mem 0) (r.maxProcFn + 1) r.rxList with ⟨_ | f, l⟩ <;>
      rw [hr] at hkeep hfound hget
    · refine ⟨hget, fun g hg => hg, fun g hg => ?_⟩
      rcases hkeep g hg with hx | hx | hx
      · exact Or.inr hx
      · exact Or.inl (h.low g (h.held g hg).1 (Nat.le_of_lt_succ hx))
      · cases hx
    · obtain ⟨hin, hnum⟩ := hfound f rfl
      obtain ⟨hsent, hplain⟩ := h.held f hin
      have hnext := hget.next hd hsent hplain hnum (hmax f hsent) r.lastProcTime
      obtain ⟨hsound, hkeeps⟩ := ih (fun i => mem (i + 1)) hnext
      refine ⟨hsound, Keeps.trans ⟨fun g hg => mem_append_left _ hg, fun g hg => ?_⟩ hkeeps⟩
      rcases hkeep g hg with hx | hx | hx
      · exact Or.inr hx
      · exact Or.inl (mem_append_left _ (h.low g (h.held g hg).1 (Nat.le_of_lt_succ hx)))
      · cases hx
        exact Or.inl (mem_append_right _ (mem_singleton.mpr rfl))

end Receive

/-! ### What every step keeps -/

/-- What is kept by every step. -/
structure SpiSound (getAuthinfo : ℕ) (s : Peers) : Prop where
  recv : RecvSound getAuthinfo s.sent s.sender.frameNum s.receiver
  numbers : ∀ f ∈ s.sent, f.frameNum ≤ s.sender.frameNum
  differ : NumbersDiffer s.sent
  /-- What is in the table, on the wire or off the table has been sent. -/
  table : ∀ n, some n ∈ s.sender.txList → n.frame ∈ s.sent
  wire : ∀ f ∈ s.frames, f ∈ s.sent
  removed : ∀ f ∈ s.removed, f ∈ s.sent ∧ ⟨f.cmd, f.frameNum⟩ ∈ s.acks
  acksOld : ∀ a ∈ s.acks, a.frameNum ≤ s.sender.frameNum
  /-- What is acknowledged has been executed or is held. -/
  acked : ∀ f ∈ s.sent, ⟨f.cmd, f.frameNum⟩ ∈ s.acks →
    f ∈ s.receiver.executed ∨ some f ∈ s.receiver.rxList

section Steps

variable {getAuthinfo : ℕ} {s : Peers}

theorem spiSound_init : SpiSound getAuthinfo peersInit where
  recv :=
    { bound := le_refl _
      held := fun f hf => by cases eq_of_mem_replicate hf
      real := by simp [peersInit]
      low := by simp [peersInit]
      high := by simp [peersInit]
      order := .nil
      closed := by simp [peersInit] }
  numbers := by simp [peersInit]
  differ := fun f hf => by simp [peersInit] at hf
  table n hn := by cases eq_of_mem_replicate hn
  wire := by simp [peersInit]
  removed := by simp [peersInit]
  acksOld := by simp [peersInit]
  acked := by simp [peersInit]

/-- **Reliable is what is kept.** -/
theorem SpiSound.reliable (h : SpiSound getAuthinfo s) : Reliable s where
  once := h.recv.order.imp fun hlt heq => by
    rw [heq] at hlt
    exact lt_irrefl _ hlt
  inOrder := h.recv.order
  kept f hf := by
    obtain ⟨hsent, hack⟩ := h.removed f hf
    rcases h.acked f hsent hack with hx | hx
    · exact Or.inl hx
    · by_cases hle : f.frameNum ≤ s.receiver.maxProcFn
      · exact Or.inl (h.recv.low f hsent hle)
      · exact Or.inr ⟨hx, not_le.mp hle⟩

/-- A command takes a new number. -/
theorem spiSound_send (h : SpiSound getAuthinfo s) (cmd : ℕ) (param : List UInt8) (mem : Bool)
    (now : ℕ) : SpiSound getAuthinfo (jsonComPack cmd param mem now s) := by
  have hbound := h.recv.bound
  rw [jsonComPack]
  rcases hins : waitListInsert mem ⟨cmd, s.sender.frameNum + 1, param⟩ now s.sender.txList with
    _ | l
  · exact ⟨{ h.recv with bound := Nat.le_succ_of_le hbound },
      fun f hf => Nat.le_succ_of_le (h.numbers f hf), h.differ, h.table, h.wire, h.removed,
      fun a ha => Nat.le_succ_of_le (h.acksOld a ha), h.acked⟩
  obtain ⟨f, hf⟩ : ∃ f : Frame, f = ⟨cmd, s.sender.frameNum + 1, param⟩ := ⟨_, rfl⟩
  rw [← hf] at hins ⊢
  have hnum : f.frameNum = s.sender.frameNum + 1 := by rw [hf]
  -- the new command bears a number that no other has and that has not been passed
  have hsent : ∀ g ∈ s.sent ++ [f], g ∈ s.sent ∨ g = f := fun g hg => by
    simpa using mem_append.mp hg
  have hnew : ∀ g ∈ s.sent, g.frameNum < f.frameNum := fun g hg => by
    have := h.numbers g hg
    omega
  refine ⟨⟨Nat.le_succ_of_le hbound, fun g hg => ?_, fun g hg => ?_, fun g hg hle => ?_,
    h.recv.high, h.recv.order, fun g hg e he hlt => ?_⟩, fun g hg => ?_, fun g hg e he heq => ?_,
    fun n hn => ?_, fun g hg => mem_append_left _ (h.wire g hg), fun g hg => ?_,
    fun a ha => Nat.le_succ_of_le (h.acksOld a ha), fun g hg hack => ?_⟩
  · exact ⟨mem_append_left _ (h.recv.held g hg).1, (h.recv.held g hg).2⟩
  · exact mem_append_left _ (h.recv.real g hg)
  · rcases hsent g hg with hg | rfl
    · exact h.recv.low g hg hle
    · simp only at hle
      omega
  · rcases hsent e he with he | rfl
    · exact h.recv.closed g hg e he hlt
    · exact absurd (hnew g (h.recv.real g hg)) (lt_asymm hlt)
  · rcases hsent g hg with hg | rfl
    · exact Nat.le_succ_of_le (h.numbers g hg)
    · exact le_of_eq hnum
  · rcases hsent g hg with hg' | hg' <;> rcases hsent e he with he' | he'
    · exact h.differ g hg' e he' heq
    · exact absurd (he' ▸ heq) (ne_of_lt (hnew g hg'))
    · exact absurd (hg' ▸ heq).symm (ne_of_lt (hnew e he'))
    · rw [hg', he']
  · rw [waitListInsert] at hins
    split at hins
    swap
    · cases hins
    rw [Option.map_eq_some_iff] at hins
    obtain ⟨⟨o, l'⟩, hmod, rfl⟩ := hins
    rcases mem_or_eq_of_modifyFirst hmod hn with hn | hn
    · exact mem_append_left _ (h.table n hn)
    · cases hn
      exact mem_append_right _ (mem_singleton.mpr rfl)
  · exact ⟨mem_append_left _ (h.removed g hg).1, (h.removed g hg).2⟩
  · rcases hsent g hg with hg | rfl
    · exact h.acked g hg hack
    · have := h.acksOld _ hack
      simp only at this
      omega

/-- A frame is sent, or sent again. -/
theorem spiSound_transmit (h : SpiSound getAuthinfo s) (mem : Bool) (now : ℕ) :
    SpiSound getAuthinfo (spiCmdSend mem now s) := by
  rw [spiCmdSend]
  split
  next n l hget =>
    refine ⟨h.recv, h.numbers, h.differ, fun m hm => ?_, fun f hf => ?_, h.removed,
      h.acksOld, h.acked⟩
    · rcases mem_or_eq_of_modifyFirst hget hm with hm | hm
      · exact h.table m hm
      · cases hm
        have : (touch now n).frame = n.frame := by
          rw [touch]
          split <;> rfl
        rw [this]
        exact h.table n (mem_of_modifyFirst hget)
    · split at hf
      · rcases mem_append.mp hf with hf | hf
        · exact h.wire f hf
        · rw [mem_singleton.mp hf]
          exact h.table n (mem_of_modifyFirst hget)
      · exact h.wire f hf
  next => exact h

/-- A command is taken off the table. -/
theorem spiSound_ack {a : Ack} (h : SpiSound getAuthinfo s) (ha : a ∈ s.acks) :
    SpiSound getAuthinfo (ackArrives a s) := by
  rw [ackArrives]
  split
  next n l hdel =>
    refine ⟨h.recv, h.numbers, h.differ, fun m hm => ?_, h.wire, fun f hf => ?_,
      h.acksOld, h.acked⟩
    · rcases mem_or_eq_of_modifyFirst hdel hm with hm | hm
      · exact h.table m hm
      · cases hm
    · rcases mem_append.mp hf with hf | hf
      · exact h.removed f hf
      · obtain ⟨hmatch, -⟩ := modifyFirst_eq_some hdel
        simp only [Ack.matches, decide_eq_true_eq] at hmatch
        rw [mem_singleton.mp hf]
        refine ⟨h.table n (mem_of_modifyFirst hdel), ?_⟩
        rwa [hmatch.2.1, hmatch.2.2]
  next => exact h

end Steps

section Frames

variable {getAuthinfo : ℕ} {s : Peers} {f : Frame} {now : ℕ} {mem : ℕ → Bool}

/-- The receiver after a frame: what it keeps, and that the frame has been executed or is held. -/
structure Taken (getAuthinfo : ℕ) (s : Peers) (f : Frame) (r : Receiver) : Prop where
  sound : RecvSound getAuthinfo s.sent s.sender.frameNum r
  keeps : Keeps s.receiver r
  here : f ∈ r.executed ∨ some f ∈ r.rxList

/-- **A frame that arrives** is executed or held, or has been executed before. -/
theorem taken_csJsonParse (h : SpiSound getAuthinfo s) (hf : f ∈ s.sent)
    (hc : (SpiStep.frame f now mem).Calm getAuthinfo s) :
    Taken getAuthinfo s f (csJsonParse getAuthinfo now mem f s.receiver) := by
  have hbound := h.numbers f hf
  rw [csJsonParse]
  by_cases hby : bypasses getAuthinfo f.cmd
  · -- a command that bypasses the order
    obtain ⟨hnew, hset⟩ := hc.1 hby
    have hbefore : ∀ g ∈ s.sent, g.frameNum < f.frameNum → g ∈ s.receiver.executed := by
      intro g hg hlt
      rcases lt_or_ge s.receiver.maxProcFn g.frameNum with hmax | hmax
      · exact (hset g.frameNum hmax hlt).2 g hg rfl
      · exact h.recv.low g hg hmax
    obtain ⟨horder, hclosed⟩ := h.recv.execute h.differ hf hnew hbefore
    have hin : f ∈ s.receiver.executed ++ [f] :=
      mem_append_right _ (mem_singleton.mpr rfl)
    rw [if_pos hby]
    refine ⟨⟨h.recv.bound, h.recv.held, fun g hg => ?_, fun g hg hle => ?_, fun g hg hp => ?_, horder,
      hclosed⟩, ⟨fun g hg => mem_append_left _ hg, fun g hg => Or.inr hg⟩, Or.inl hin⟩
    · rcases mem_append.mp hg with hg | hg
      · exact h.recv.real g hg
      · rwa [mem_singleton.mp hg]
    · exact mem_append_left _ (h.recv.low g hg hle)
    · rcases mem_append.mp hg with hg | hg
      · exact h.recv.high g hg hp
      · rw [mem_singleton.mp hg] at hp
        exact absurd hby hp
  rw [if_neg hby]
  by_cases hnext : s.receiver.maxProcFn + 1 = f.frameNum
  · -- the next command, and those that waited for it
    have hrecv := h.recv.next h.differ hf hby hnext.symm hbound now
    have hin : f ∈ s.receiver.executed ++ [f] :=
      mem_append_right _ (mem_singleton.mpr rfl)
    have hkeeps : Keeps s.receiver
        { s.receiver with
          lastProcTime := now
          executed := s.receiver.executed ++ [f]
          maxProcFn := s.receiver.maxProcFn + 1 } :=
      ⟨fun g hg => mem_append_left _ hg, fun g hg => Or.inr hg⟩
    rw [if_pos hnext]
    dsimp only
    split
    · obtain ⟨hsound, hmore⟩ := handleCmdInBuffer_spec h.differ h.numbers (tyMaxRxNode + 1) mem hrecv
      exact ⟨hsound, hkeeps.trans hmore, Or.inl (hmore.executed f hin)⟩
    · exact ⟨hrecv, hkeeps, Or.inl hin⟩
  rw [if_neg hnext]
  by_cases hold : f.frameNum ≤ s.receiver.maxProcFn
  · -- a command that came before
    rw [if_pos hold]
    exact ⟨h.recv, .refl _, Or.inl (h.recv.low f hf hold)⟩
  rw [if_neg hold]
  have hroom := hc.2 hby (by omega)
  rcases hins : rxListInsert (mem 0) f s.receiver.rxList with _ | l
  · -- only a copy of a command that is held finds no slot
    refine ⟨h.recv, .refl _, ?_⟩
    rcases hroom with hheld | ⟨hfree, hmem⟩
    · exact Or.inr hheld
    · rw [rxListInsert, if_pos hmem, Option.map_eq_none_iff, modifyFirst_eq_none] at hins
      exact absurd (hins none hfree) (by simp)
  · rw [rxListInsert] at hins
    split at hins
    swap
    · cases hins
    rw [Option.map_eq_some_iff] at hins
    obtain ⟨⟨o, l'⟩, hmod, rfl⟩ := hins
    refine ⟨⟨h.recv.bound, fun g hg => ?_, h.recv.real, h.recv.low, h.recv.high, h.recv.order,
      h.recv.closed⟩, ⟨fun g hg => hg, fun g hg => ?_⟩, Or.inr (mem_modifyFirst hmod)⟩
    · rcases mem_or_eq_of_modifyFirst hmod hg with hg | hg
      · exact h.recv.held g hg
      · cases hg
        exact ⟨hf, hby⟩
    · rcases mem_modifyFirst_or_eq hmod hg with hg | hg
      · exact Or.inr hg
      · have := (modifyFirst_eq_some hmod).1
        rw [← hg] at this
        cases this

/-- A frame is acknowledged and taken. -/
theorem spiSound_frame (h : SpiSound getAuthinfo s) (hf : f ∈ s.frames)
    (hc : (SpiStep.frame f now mem).Calm getAuthinfo s) :
    SpiSound getAuthinfo
      { s with
        receiver := csJsonParse getAuthinfo now mem f s.receiver
        acks := s.acks ++ [⟨f.cmd, f.frameNum⟩] } := by
  have hsent := h.wire f hf
  have htaken := taken_csJsonParse h hsent hc
  refine ⟨htaken.sound, h.numbers, h.differ, h.table, h.wire, fun g hg => ?_, fun a ha => ?_,
    fun g hg hack => ?_⟩
  · exact ⟨(h.removed g hg).1, mem_append_left _ (h.removed g hg).2⟩
  · rcases mem_append.mp ha with ha | ha
    · exact h.acksOld a ha
    · rw [mem_singleton.mp ha]
      exact h.numbers f hsent
  · rcases mem_append.mp hack with hack | hack
    · rcases h.acked g hg hack with hx | hx
      · exact Or.inl (htaken.keeps.executed g hx)
      · exact htaken.keeps.held g hx
    · -- the acknowledgement is the one for this frame
      have heq := mem_singleton.mp hack
      simp only [Ack.mk.injEq] at heq
      rw [h.differ g hg f hsent heq.2]
      exact htaken.here

/-- The receiver looks for a timeout. -/
theorem spiSound_timeout (h : SpiSound getAuthinfo s)
    (hc : (SpiStep.timeout now mem).Calm getAuthinfo s) :
    SpiSound getAuthinfo { s with receiver := timeoutCheck now mem s.receiver } := by
  rw [timeoutCheck]
  split
  next hout =>
    obtain ⟨htop, hset⟩ := hc hout
    obtain ⟨hsound, hmore⟩ := handleCmdInBuffer_spec h.differ h.numbers (tyMaxRxNode + 1) mem
      (h.recv.skip htop hset)
    refine ⟨hsound, h.numbers, h.differ, h.table, h.wire, h.removed, h.acksOld, fun g hg hack => ?_⟩
    rcases h.acked g hg hack with hx | hx
    · exact Or.inl (hmore.executed g hx)
    · exact hmore.held g hx
  next => exact h

end Frames

/-! ### Every run -/

/-- **As long as nothing is executed out of turn, dropped or passed over**, commands are reliable:
none is executed twice, all in the order of their numbers, and none is lost after its
acknowledgement. -/
theorem commands_reliable (getAuthinfo : ℕ) (s : Peers)
    (h : Machine.Reach (spiStep getAuthinfo) (fun s i => i.Calm getAuthinfo s) peersInit s) :
    Reliable s := by
  have hsound : SpiSound getAuthinfo s := by
    refine h.invariant spiSound_init ?_
    intro s u i hs hc hi
    cases i with
    | send cmd param mem now =>
      simp only [spiStep] at hi
      split at hi
      · cases hi
        exact spiSound_send hs cmd param mem now
      · cases hi
    | transmit mem now =>
      cases hi
      exact spiSound_transmit hs mem now
    | frame f now mem =>
      simp only [spiStep] at hi
      split at hi
      next hf =>
        cases hi
        exact spiSound_frame hs hf hc
      next => cases hi
    | ack a =>
      simp only [spiStep] at hi
      split at hi
      next ha =>
        cases hi
        exact spiSound_ack hs ha
      next => cases hi
    | timeout now mem =>
      cases hi
      exact spiSound_timeout hs hc
  exact hsound.reliable

/-- A command that is not one of the two that bypass the order, sent, transmitted and received. -/
def oneCommand : List SpiStep :=
  [.send 4 [] true 0, .transmit true 0, .frame ⟨4, 1, []⟩ 0 fun _ => true, .ack ⟨4, 1⟩]

/-- The start of a run in which a command arrives. -/
theorem commands_reliable_oneCommand :
    ∃ s, (Machine.run (spiStep 32) (oneCommand.take 3) peersInit) = some s ∧
      s.receiver.executed = [⟨4, 1, []⟩] ∧ Reliable s := by
  refine ⟨_, rfl, by decide +kernel, commands_reliable 32 _
    (.next (i := .frame ⟨4, 1, []⟩ 0 fun _ => true)
      (.next (i := .transmit true 0) (.next (i := .send 4 [] true 0) .start trivial rfl) trivial rfl)
      ⟨fun h => absurd h (by decide), fun _ h => absurd h (by decide)⟩ rfl)⟩

/-- A command that sets the address, which arrives twice. -/
def twiceSetMac : List SpiStep :=
  [.send 31 [] true 0, .transmit true 0, .frame ⟨31, 1, []⟩ 0 fun _ => true,
    .frame ⟨31, 1, []⟩ 0 fun _ => true]

/-- **A command that bypasses the order is executed as often as it comes.** -/
theorem not_reliable_twiceSetMac :
    ∃ s, Machine.Reach (spiStep 32) (fun _ _ => True) peersInit s ∧ ¬Reliable s := by
  have h : (Machine.run (spiStep 32) twiceSetMac peersInit).map (fun s => s.receiver.executed) =
      some [⟨31, 1, []⟩, ⟨31, 1, []⟩] := by
    decide +kernel
  rw [Option.map_eq_some_iff] at h
  obtain ⟨s, hs, hexec⟩ := h
  refine ⟨s, .of_run hs, fun hr => ?_⟩
  have := hr.once
  rw [hexec] at this
  revert this
  decide

end Gd32.Mm
