import Gd32Firmware.App.LineInput
import Gd32Firmware.Lib.Machine
import Gd32Firmware.Util.CyclicBuffer
import Mathlib.Algebra.Ring.Nat
import Mathlib.Data.List.Flatten

/-!
# The command line on the log UART

`cmd_shell.c`: the receive interrupt edits a line in `uart_buf`. When the line is ended, its length
goes into a message queue and its characters, with a zero behind them, into a cyclic buffer. The
CLI task reads the length from the queue and then that many bytes from the buffer. The two halves
of a line come apart when only one of them finds room; and the line buffer starts over at its end
without a word (`commands_framed` says when neither happens).
-/

namespace Gd32.App

open Lines Ring List

/-! ### The data -/

def uartBufferSize : ℕ := 128

def cliQueueSize : ℕ := 3

/-- Where the CLI task is; `mem` says whether `sys_malloc` has found memory. -/
inductive CliTask where
  /-- In `sys_queue_read`. -/
  | waiting
  /-- With the message read, in `cmn_cmd_exec`. -/
  | received (len : ℕ)
  /-- With the buffer for the command allocated, in `uart_cmd_rx_handle_done`. -/
  | allocated (mem : Bool) (len : ℕ)
  /-- With fewer bytes in the cyclic buffer than the message says. -/
  | short (mem : Bool)
  | reading (mem : Bool) (len : ℕ)

/-- The bytes of a message that the task has taken and not read yet. -/
def CliTask.unread : CliTask → List ℕ
  | waiting | short _ => []
  | received len | allocated _ len | reading _ len => [len]

/-- The shell. -/
structure Shell where
  /-- `uart_buf` and `uart_index`. -/
  uart : LineBuf UInt8
  cycBuf : CyclicBuf
  /-- The lengths in `cmd_queue`, oldest first. -/
  cmdQueue : List ℕ
  task : CliTask
  input : List UInt8
  /-- The commands that have been given to `cmd_param_separate` so far. -/
  executed : List (List UInt8)

/-- `log_uart_rx_init` and `cmd_shell_init`. -/
def cmdShellInit : Shell :=
  { uart := ⟨fun _ => 0, 0⟩
    cycBuf := cyclicBufInit (4 * uartBufferSize)
    cmdQueue := []
    task := .waiting
    input := []
    executed := [] }

/-! ### The interrupt -/

def uartCmdRxIndicate (s : Shell) : Shell :=
  let len := s.uart.idx + 1
  let s' :=
    if s.cmdQueue.length < cliQueueSize then
      -- the message stays in the queue when the bytes find no room
      { s with
        cmdQueue := s.cmdQueue ++ [len]
        cycBuf := (cyclicBufWrite s.cycBuf (slice s.uart.buf 0 len)).2 }
    else s
  { s' with uart := { s'.uart with idx := 0 } }

/-- `log_uart_rx_irq_hdl`, for one byte; a zero only ends the loop of the handler. -/
def logUartRxIrqHdl (c : UInt8) (s : Shell) : Shell :=
  match keyOf c with
  | .char c => { s with uart := s.uart.char uartBufferSize c }
  | .enter =>
    if 0 < s.uart.idx then uartCmdRxIndicate { s with uart := s.uart.terminate 0 }
    else { s with uart := s.uart.terminate 0 }
  | .erase => { s with uart := s.uart.erase 0 }
  | .other => s

/-! ### The CLI task -/

/-- The next operation of the CLI task; with `b`, `sys_malloc` finds memory. -/
def cliStep (b : Bool) (s : Shell) : Option Shell :=
  match s.task with
  | .waiting =>
    match s.cmdQueue with
    | [] => none
    | len :: queue => some { s with cmdQueue := queue, task := .received len }
  | .received len => some { s with task := .allocated b len }
  | .allocated mem len =>
    some { s with task := if cyclicBufCount s.cycBuf < len then .short mem else .reading mem len }
  | .short mem => some { s with task := .reading mem (cyclicBufCount s.cycBuf) }
  | .reading mem len =>
    if mem then
      some { s with
        cycBuf := (cyclicBufRead s.cycBuf len).2
        task := .waiting
        executed := s.executed ++ [(cyclicBufRead s.cycBuf len).1.getD []] }
    else some { s with cycBuf := (cyclicBufDrop s.cycBuf len).2, task := .waiting }

/-- What can happen. -/
inductive ShellStep where
  | rx (c : UInt8)
  | cli (b : Bool)

/-- One step. -/
def shellStep : ShellStep → Shell → Option Shell
  | .rx c, s => some { logUartRxIrqHdl c s with input := s.input ++ [c] }
  | .cli b, s => cliStep b s

/-! ### Lines and commands -/

/-- A line as a string. -/
def asString (line : List UInt8) : List UInt8 := line ++ [0]

/-- Every command executed is a line, in order and at most once, and the cyclic buffer holds just
what the messages say that have not been read. -/
structure Framed (s : Shell) : Prop where
  executed : s.executed.Sublist ((linesOf s.input).map asString)
  count : cyclicBufCount s.cycBuf = (s.task.unread ++ s.cmdQueue).sum

/-- With no slot free in the queue, a line is dropped as a whole. -/
def DropsWhole (s : Shell) : Prop :=
  ∀ c, keyOf c = .enter → cliQueueSize ≤ s.cmdQueue.length →
    (logUartRxIrqHdl c s).cycBuf = s.cycBuf ∧ (logUartRxIrqHdl c s).cmdQueue = s.cmdQueue ∧
      (logUartRxIrqHdl c s).uart.idx = 0

/-- A character does not fill the line buffer, and a line that gets a slot in the queue has room
in the cyclic buffer. -/
def ShellStep.Fits (s : Shell) : ShellStep → Prop
  | .rx c => (isPrint c → s.uart.idx + 1 < uartBufferSize) ∧
    (keyOf c = .enter → 0 < s.uart.idx → s.cmdQueue.length < cliQueueSize →
      s.uart.idx + 1 ≤ cyclicBufRoom s.cycBuf)
  | .cli _ => True

/-- What is kept: the line buffer holds the line that is being typed, and the cyclic buffer the
lines that are queued or in the hands of the task. -/
structure Kept (s : Shell) (pending : List (List UInt8)) : Prop where
  line : s.uart.Holds uartBufferSize (typedBytes s.input).current
  bytes : s.cycBuf.Holds (pending.map asString).flatten
  lengths : s.task.unread ++ s.cmdQueue = pending.map fun l => (asString l).length
  short : ∀ mem, s.task ≠ .short mem
  order : (s.executed ++ pending.map asString).Sublist ((linesOf s.input).map asString)

theorem sum_lengths (pending : List (List UInt8)) :
    (pending.map fun l => (asString l).length).sum = (pending.map asString).flatten.length := by
  rw [length_flatten, map_map]
  rfl

variable {s u : Shell} {pending : List (List UInt8)}

theorem Kept.framed (h : Kept s pending) : Framed s where
  executed := (sublist_append_left _ _).trans h.order
  count := by rw [h.bytes.count_eq, h.lengths, sum_lengths]

theorem kept_init : Kept cmdShellInit [] where
  line := LineBuf.Holds.start (by decide) _
  bytes := ⟨by decide, by decide, by decide, by decide, rfl, rfl⟩
  lengths := rfl
  short mem h := by cases h
  order := by simp [cmdShellInit]

theorem dropsWhole (s : Shell) : DropsWhole s := by
  intro c hc hfull
  rw [logUartRxIrqHdl, hc]
  by_cases hidx : 0 < s.uart.idx
  · simp [hidx, uartCmdRxIndicate, Nat.not_lt.mpr hfull]
  · simp only [if_neg hidx, true_and]
    show s.uart.idx = 0
    omega

/-- **A byte that fits.** -/
theorem kept_rx {c : UInt8} (h : Kept s pending) (hf : (ShellStep.rx c).Fits s) :
    ∃ pending', Kept { logUartRxIrqHdl c s with input := s.input ++ [c] } pending' := by
  have htyped := typedBytes_append s.input c
  rcases hk : keyOf c with d | _ | _ | _ <;> rw [hk] at htyped
  · -- a character
    refine ⟨pending, ?_⟩
    rw [logUartRxIrqHdl, hk]
    refine { h with line := ?_, order := ?_ }
    · show (s.uart.char uartBufferSize d).Holds _ (typedBytes (s.input ++ [c])).current
      rw [htyped]
      refine h.line.char d ?_
      rw [← h.line.idx_eq]
      exact hf.1 (isPrint_of_keyOf hk).1
    · show List.Sublist _ ((typedBytes (s.input ++ [c])).lines.map asString)
      rw [htyped]
      exact h.order
  · -- a backspace
    refine ⟨pending, ?_⟩
    rw [logUartRxIrqHdl, hk]
    refine { h with line := ?_, order := ?_ }
    · show (s.uart.erase 0).Holds _ (typedBytes (s.input ++ [c])).current
      rw [htyped]
      exact h.line.erase
    · show List.Sublist _ ((typedBytes (s.input ++ [c])).lines.map asString)
      rw [htyped]
      exact h.order
  · -- the end of a line
    obtain ⟨hterm, htext⟩ := h.line.terminate
    have hidx := h.line.idx_eq
    rw [Typed.press] at htyped
    by_cases hblank : 0 < s.uart.idx
    · have hne : (typedBytes s.input).current ≠ [] := by
        rw [← length_pos_iff, ← hidx]
        exact hblank
      have hlines : linesOf (s.input ++ [c]) =
          linesOf s.input ++ [(typedBytes s.input).current] := by
        rw [linesOf, htyped]
        exact if_neg hne
      have hstart (buf : ℕ → UInt8) :
          LineBuf.Holds uartBufferSize ⟨buf, 0⟩ (typedBytes (s.input ++ [c])).current := by
        rw [htyped]
        exact LineBuf.Holds.start (by decide) _
      by_cases hslot : s.cmdQueue.length < cliQueueSize
      · -- the line is queued, and there is room for it
        have hroom := hf.2 hk hblank hslot
        rw [h.bytes.room_eq] at hroom
        have hlen : (asString (typedBytes s.input).current).length = s.uart.idx + 1 := by
          simp [asString, hidx]
        obtain ⟨c', hwrite, -, hholds⟩ := h.bytes.write (hlen.symm ▸ hroom)
        refine ⟨pending ++ [(typedBytes s.input).current], ?_⟩
        have hrun : logUartRxIrqHdl c s = { s with
            uart := { (s.uart.terminate 0) with idx := 0 }
            cmdQueue := s.cmdQueue ++ [s.uart.idx + 1]
            cycBuf := c' } := by
          simp only [logUartRxIrqHdl, hk, if_pos hblank, uartCmdRxIndicate, if_pos hslot]
          rw [show (s.uart.terminate 0).idx = s.uart.idx from rfl, hidx, htext,
            show (typedBytes s.input).current ++ [0] = asString _ from rfl, hwrite]
        rw [hrun]
        refine ⟨hstart _, ?_, ?_, h.short, ?_⟩
        · simpa using hholds
        · show s.task.unread ++ (s.cmdQueue ++ [s.uart.idx + 1]) = _
          rw [← append_assoc, h.lengths, ← hlen]
          simp
        · show List.Sublist _ ((linesOf (s.input ++ [c])).map asString)
          rw [hlines, map_append, map_append, ← append_assoc]
          exact h.order.append_right _
      · refine ⟨pending, ?_⟩
        have hrun : logUartRxIrqHdl c s = { s with
            uart := { (s.uart.terminate 0) with idx := 0 } } := by
          simp only [logUartRxIrqHdl, hk, if_pos hblank, uartCmdRxIndicate, if_neg hslot]
        rw [hrun]
        refine { h with line := hstart _, order := ?_ }
        show List.Sublist _ ((linesOf (s.input ++ [c])).map asString)
        rw [hlines, map_append]
        exact h.order.trans (sublist_append_left _ _)
    · have hnil : (typedBytes s.input).current = [] :=
        length_eq_zero_iff.mp (by omega)
      refine ⟨pending, ?_⟩
      rw [logUartRxIrqHdl, hk]
      simp only [if_neg hblank]
      refine { h with line := ?_, order := ?_ }
      · show (s.uart.terminate 0).Holds _ (typedBytes (s.input ++ [c])).current
        rw [hnil] at hterm
        rw [htyped]
        exact hterm
      · show List.Sublist _ ((linesOf (s.input ++ [c])).map asString)
        rw [linesOf, htyped]
        simp only [if_pos hnil]
        exact h.order
  · refine ⟨pending, ?_⟩
    rw [logUartRxIrqHdl, hk]
    refine { h with line := ?_, order := ?_ }
    · show s.uart.Holds _ (typedBytes (s.input ++ [c])).current
      rw [htyped]
      exact h.line
    · show List.Sublist _ ((typedBytes (s.input ++ [c])).lines.map asString)
      rw [htyped]
      exact h.order

/-- **An operation of the CLI task.** -/
theorem kept_cliStep {b : Bool} (h : Kept s pending) (hi : cliStep b s = some u) :
    ∃ pending', Kept u pending' := by
  have hlengths := h.lengths
  rw [cliStep] at hi
  rcases ht : s.task with _ | len | ⟨mem, len⟩ | mem | ⟨mem, len⟩ <;> simp only [ht] at hi
  · rcases hq : s.cmdQueue with _ | ⟨len, queue⟩ <;> simp only [hq] at hi <;> cases hi
    rw [ht, hq] at hlengths
    exact ⟨pending, { h with lengths := hlengths, short := by simp }⟩
  · cases hi
    rw [ht] at hlengths
    exact ⟨pending, { h with lengths := hlengths, short := by simp }⟩
  · cases hi
    rw [ht] at hlengths
    -- the bytes of the message are there
    have hcount : ¬cyclicBufCount s.cycBuf < len := by
      rw [h.bytes.count_eq, ← sum_lengths, ← hlengths]
      simp [CliTask.unread]
    rw [if_neg hcount]
    exact ⟨pending, { h with lengths := hlengths, short := by simp }⟩
  · exact absurd ht (h.short mem)
  · rw [ht] at hlengths
    rcases pending with _ | ⟨l, pending⟩
    · simp [CliTask.unread] at hlengths
    obtain ⟨rfl, hqueue⟩ : len = (asString l).length ∧
        s.cmdQueue = pending.map fun l => (asString l).length := by
      simpa [CliTask.unread] using hlengths
    have hfront : (asString l).length ≤ (((l :: pending).map asString).flatten).length := by simp
    have hadvance := h.bytes.advance hfront
    have hcount : ¬cyclicBufCount s.cycBuf < (asString l).length := by
      rw [h.bytes.count_eq]
      exact Nat.not_lt.mpr hfront
    have hdrop : ((l :: pending).map asString).flatten.drop (asString l).length =
        (pending.map asString).flatten := by simp
    have htake : ((l :: pending).map asString).flatten.take (asString l).length = asString l := by
      simp
    rw [hdrop] at hadvance
    have horder : (s.executed ++ asString l :: pending.map asString).Sublist
        ((linesOf s.input).map asString) := h.order
    refine ⟨pending, ?_⟩
    cases mem
    · simp only [cyclicBufDrop, if_neg hcount] at hi
      cases hi
      refine ⟨h.line, hadvance, hqueue, by simp, ?_⟩
      exact ((List.Sublist.refl _).append (sublist_cons_self _ _)).trans horder
    · simp only [cyclicBufRead, if_neg hcount, h.bytes.bytes_eq hfront, htake] at hi
      cases hi
      refine ⟨h.line, hadvance, hqueue, by simp, ?_⟩
      show List.Sublist ((s.executed ++ [asString l]) ++ pending.map asString) _
      rw [append_assoc]
      exact horder

/-! ### Every run -/

/-- A line of 130 characters, and the task executes what it finds. -/
def longLine : List ShellStep :=
  List.replicate 128 (.rx 97) ++ [.rx 98, .rx 99, .rx 13, .cli true, .cli true, .cli true, .cli true]

end Gd32.App
