import Gd32Firmware.App.LineInput
import Gd32Firmware.Lib.Machine

/-!
# The reception of AT commands on a UART

`atcmd.c`, without `CONFIG_ATCMD_SPI`: the receive interrupt edits a line in `at_hw_rx_buf`, and at
its end it sets `at_cmd_received`, leaving line and index where they are. The task parses and
executes the line in place, and only then clears buffer, index and flag, in this order. The
interrupt does not look at the flag: so a character that comes while a command is executed goes
behind that command and is thrown away with it, or, coming early, becomes part of it
(`commands_received` says when nothing is lost or merged).
-/

namespace Gd32.App

open Lines Ring List

/-! ### The data -/

/-- The builds that differ in the size of the buffer. -/
inductive AtBuild where
  /-- `CONFIG_AZURE_F527_DEMO_SUPPORT`. -/
  | azure
  /-- `CONFIG_MQTT`, `CONFIG_ATCMD_HTTP_CLIENT` or `CONFIG_TINY_WEBSOCKETS`. -/
  | network
  | plain

def atHwRxBufSize : AtBuild → ℕ
  | .azure => 5000
  | .network => 256
  | .plain => 128

/-- Where `atcmd_task` is. -/
inductive AtTask where
  /-- In the loop that waits for `at_cmd_received`. -/
  | waiting
  /-- Before the look at the first character. -/
  | checking
  /-- Behind `atcmd_parse`, before the end of the command. -/
  | executing
  /-- At `cont`, before `at_hw_rx_buf[0] = '\0'`. -/
  | clearBuf
  /-- Before `at_hw_rx_buf_idx = 0`. -/
  | clearIdx
  /-- Before `at_cmd_received = 0`. -/
  | clearFlag

/-- The data the interrupt and the task share. -/
structure AtCmd where
  /-- `at_hw_rx_buf` and `at_hw_rx_buf_idx`. -/
  rx : LineBuf UInt8
  received : Bool
  task : AtTask
  input : List UInt8
  /-- The strings `atcmd_parse` has been called with so far. -/
  parsed : List (List UInt8)

/-- The start. -/
def atCmdInit : AtCmd := ⟨⟨fun _ => 0, 0⟩, false, .waiting, [], []⟩

/-! ### The interrupt and the task -/

/-- `at_uart_rx_irq_hdl`, for one byte; a zero only ends the loop of the handler. -/
def atUartRxIrqHdl (build : AtBuild) (c : UInt8) (s : AtCmd) : AtCmd :=
  match keyOf c with
  | .char c => { s with rx := s.rx.char (atHwRxBufSize build) c }
  | .enter => { s with rx := s.rx.terminate 0, received := s.received || decide (0 < s.rx.idx) }
  | .erase => { s with rx := s.rx.erase 0 }
  | .other => s

/-- The string in the buffer. -/
def AtCmd.text (build : AtBuild) (s : AtCmd) : List UInt8 :=
  fieldString (slice s.rx.buf 0 (atHwRxBufSize build))

/-- The next operation of `atcmd_task`; `buf` is what `atcmd_parse` and the commands, which work
on the buffer itself, leave in it. -/
def atcmdTaskStep (build : AtBuild) (buf : ℕ → UInt8) (s : AtCmd) : AtCmd :=
  match s.task with
  | .waiting => if s.received then { s with task := .checking } else s
  | .checking =>
    if s.rx.buf 0 = 0 then { s with received := false, task := .clearBuf }
    else
      { s with
        parsed := s.parsed ++ [s.text build]
        rx := { s.rx with buf := buf }
        task := .executing }
  | .executing => { s with rx := { s.rx with buf := buf }, task := .clearBuf }
  | .clearBuf => { s with rx := s.rx.set 0 0, task := .clearIdx }
  | .clearIdx => { s with rx := { s.rx with idx := 0 }, task := .clearFlag }
  | .clearFlag => { s with received := false, task := .waiting }

/-- What can happen. -/
inductive AtStep where
  | rx (c : UInt8)
  | task (buf : ℕ → UInt8)

/-- One step. -/
def atStep (build : AtBuild) : AtStep → AtCmd → Option AtCmd
  | .rx c, s => some { atUartRxIrqHdl build c s with input := s.input ++ [c] }
  | .task buf, s => some (atcmdTaskStep build buf s)

/-! ### Lines and commands -/

/-- The commands parsed are the lines, in order; the last line may be the one that the task is
about to parse, and then it is what stands in the buffer. -/
structure Received (build : AtBuild) (s : AtCmd) : Prop where
  inOrder : s.parsed <+: linesOf s.input
  next : s.parsed ≠ linesOf s.input → s.received = true ∧
    (s.task = .waiting ∨ s.task = .checking) ∧ linesOf s.input = s.parsed ++ [s.text build]

/-- The line that has been ended is still to be parsed. -/
def AtCmd.pending (s : AtCmd) : Prop :=
  s.received = true ∧ (s.task = .waiting ∨ s.task = .checking)

/-- The index is that of the line being typed. -/
def AtCmd.typing (s : AtCmd) : Prop := s.received = false ∨ s.task = .clearFlag

/-- From the end of a line until the index is cleared no character comes, and until the line is
parsed no backspace; no line is ended before the flag is cleared; and no character fills the
buffer. -/
def AtStep.Calm (build : AtBuild) (s : AtCmd) : AtStep → Prop
  | .rx c => (isPrint c → s.typing ∧ s.rx.idx + 1 < atHwRxBufSize build) ∧
    (keyOf c = .erase → ¬s.pending) ∧
    (keyOf c = .enter → s.task = .clearFlag → s.rx.idx = 0)
  | .task _ => True

/-- What is kept. -/
structure Sound (build : AtBuild) (s : AtCmd) : Prop where
  /-- While a line is typed, it is what the buffer holds, and every line has been parsed. -/
  typing : s.typing → s.rx.Holds (atHwRxBufSize build) (typedBytes s.input).current ∧
    s.parsed = linesOf s.input
  /-- A line that has been ended is in the buffer. -/
  pending : s.pending → (typedBytes s.input).current = [] ∧ ∃ l ≠ [],
    s.rx.Holds (atHwRxBufSize build) l ∧ s.rx.buf l.length = 0 ∧
      linesOf s.input = s.parsed ++ [l]
  /-- While it is executed nothing is typed. -/
  handling : s.received = true → (s.task = .executing ∨ s.task = .clearBuf ∨ s.task = .clearIdx) →
    (typedBytes s.input).current = [] ∧ s.parsed = linesOf s.input
  flag : s.task ≠ .waiting → s.received = true

section Steps

variable {build : AtBuild} {s u : AtCmd}

theorem atHwRxBufSize_pos (build : AtBuild) : 0 < atHwRxBufSize build := by
  cases build <;> decide

/-- A line that is terminated in the buffer is the string in it. -/
theorem text_of_holds {l : List UInt8} (h : s.rx.Holds (atHwRxBufSize build) l)
    (hnul : s.rx.buf l.length = 0) (hne : 0 ∉ l) : s.text build = l := by
  obtain ⟨n, hn⟩ : ∃ n, atHwRxBufSize build = l.length + (n + 1) :=
    ⟨atHwRxBufSize build - l.length - 1, by have := h.length_lt; omega⟩
  have hslice : slice s.rx.buf 0 (atHwRxBufSize build) =
      l ++ 0 :: (List.range n).map fun i => s.rx.buf (l.length + (i + 1)) := by
    have hsplit : slice s.rx.buf 0 (l.length + (n + 1)) =
        slice s.rx.buf 0 l.length ++ slice s.rx.buf l.length (n + 1) := by
      simp [slice, range_add, map_map, Function.comp_def]
    rw [hn, hsplit, h.text]
    congr 1
    rw [slice, range_succ_eq_map, map_cons, map_map, Nat.add_zero, hnul]
    rfl
  rw [AtCmd.text, hslice]
  exact fieldString_append ⟨l, hne⟩ _

theorem sound_init (build : AtBuild) : Sound build atCmdInit where
  typing _ := ⟨LineBuf.Holds.start (atHwRxBufSize_pos build) _, rfl⟩
  pending h := by cases h.1
  handling h := by cases h
  flag h := absurd rfl h

/-- **What is kept says that the commands are the lines.** -/
theorem Sound.received (h : Sound build s) : Received build s := by
  by_cases ht : s.typing
  · obtain ⟨-, heq⟩ := h.typing ht
    exact ⟨heq ▸ prefix_refl _, fun hne => absurd heq hne⟩
  have hflag : s.received = true := by
    by_contra hf
    exact ht (Or.inl (by simpa using hf))
  by_cases hp : s.pending
  · obtain ⟨-, l, -, hholds, hnul, hlines⟩ := h.pending hp
    have hl : l ∈ linesOf s.input := by rw [hlines]; simp
    have htext := text_of_holds hholds hnul (ne_zero_of_mem_line hl)
    refine ⟨by rw [hlines]; exact prefix_append _ _, fun _ => ⟨hflag, hp.2, ?_⟩⟩
    rw [htext, hlines]
  · have htask : s.task = .executing ∨ s.task = .clearBuf ∨ s.task = .clearIdx := by
      rcases hs : s.task
      · exact absurd ⟨hflag, Or.inl hs⟩ hp
      · exact absurd ⟨hflag, Or.inr hs⟩ hp
      · exact Or.inl rfl
      · exact Or.inr (Or.inl rfl)
      · exact Or.inr (Or.inr rfl)
      · exact absurd (Or.inr hs) ht
    obtain ⟨-, heq⟩ := h.handling hflag htask
    exact ⟨heq ▸ prefix_refl _, fun hne => absurd heq hne⟩

/-- **A byte.** -/
theorem sound_rx {c : UInt8} (h : Sound build s) (hc : (AtStep.rx c).Calm build s) :
    Sound build { atUartRxIrqHdl build c s with input := s.input ++ [c] } := by
  have htyped := typedBytes_append s.input c
  rcases hk : keyOf c with d | _ | _ | _ <;> rw [hk] at htyped <;>
    simp only [atUartRxIrqHdl, hk]
  · -- a character, while a line is typed
    obtain ⟨htyping, hroom⟩ := hc.1 (isPrint_of_keyOf hk).1
    obtain ⟨hholds, heq⟩ := h.typing htyping
    have hchar := hholds.char d (by rw [← hholds.idx_eq]; exact hroom)
    have hno : ¬(s.received = true ∧ s.task ≠ .clearFlag) := by
      rintro ⟨h1, h2⟩
      rcases htyping with h3 | h3
      · exact absurd (h1.symm.trans h3) (by simp)
      · exact h2 h3
    refine ⟨fun _ => ⟨?_, ?_⟩, fun hp => ?_, fun hf ht => ?_, h.flag⟩
    · rw [htyped]
      exact hchar
    · show s.parsed = (typedBytes (s.input ++ [c])).lines
      rw [htyped]
      exact heq
    · refine absurd ⟨hp.1, ?_⟩ hno
      rcases hp.2 with h' | h' <;> rw [show s.task = _ from h'] <;> simp
    · refine absurd ⟨hf, ?_⟩ hno
      rcases ht with h' | h' | h' <;> rw [show s.task = _ from h'] <;> simp
  · -- a backspace, unless a line waits
    refine ⟨fun ht => ?_, fun hp => absurd hp (hc.2.1 hk), fun hf ht => ?_, h.flag⟩
    · obtain ⟨hholds, heq⟩ := h.typing ht
      refine ⟨?_, ?_⟩
      · rw [htyped]
        exact hholds.erase
      · show s.parsed = (typedBytes (s.input ++ [c])).lines
        rw [htyped]
        exact heq
    · obtain ⟨hnil, heq⟩ := h.handling hf ht
      refine ⟨by rw [htyped, Typed.press, hnil]; rfl, ?_⟩
      show s.parsed = (typedBytes (s.input ++ [c])).lines
      rw [htyped]
      exact heq
  · -- the end of a line
    have hcurrent : (typedBytes (s.input ++ [c])).current = [] := by rw [htyped]; rfl
    have hblank (hnil : (typedBytes s.input).current = []) :
        linesOf (s.input ++ [c]) = linesOf s.input := by
      rw [linesOf, htyped]
      exact if_pos hnil
    have hidle (ht : s.typing) (hidx : s.rx.idx = 0) :
        (s.rx.terminate 0).Holds (atHwRxBufSize build) [] ∧
          s.parsed = linesOf (s.input ++ [c]) := by
      obtain ⟨hholds, heq⟩ := h.typing ht
      have hnil : (typedBytes s.input).current = [] :=
        length_eq_zero_iff.mp (hholds.idx_eq.symm.trans hidx)
      rw [hnil] at hholds
      exact ⟨hholds.terminate.1, heq.trans (hblank hnil).symm⟩
    refine ⟨fun ht => ?_, fun hp => ⟨hcurrent, ?_⟩, fun hf ht => ⟨hcurrent, ?_⟩, fun ht => ?_⟩
    · show (s.rx.terminate 0).Holds _ _ ∧ _
      rw [hcurrent]
      rcases ht with ht | ht
      · simp only [Bool.or_eq_false_iff, decide_eq_false_iff_not] at ht
        exact hidle (Or.inl ht.1) (by omega)
      · exact hidle (Or.inr ht) (hc.2.2 hk ht)
    · show ∃ l ≠ [], (s.rx.terminate 0).Holds _ l ∧ (s.rx.terminate 0).buf l.length = 0 ∧ _
      by_cases hf : s.received = true
      · -- the line that waits already
        obtain ⟨hnil, l, hne, hholds, -, hlines⟩ := h.pending ⟨hf, hp.2⟩
        refine ⟨l, hne, hholds.terminate.1, if_pos hholds.idx_eq.symm, ?_⟩
        exact (hblank hnil).trans hlines
      · have hf' : s.received = false := by simpa using hf
        obtain ⟨hholds, heq⟩ := h.typing (Or.inl hf')
        have hpos : 0 < s.rx.idx := by simpa [hf'] using hp.1
        have hne : (typedBytes s.input).current ≠ [] := by
          rw [← length_pos_iff, ← hholds.idx_eq]
          exact hpos
        refine ⟨_, hne, hholds.terminate.1, if_pos hholds.idx_eq.symm, ?_⟩
        show linesOf (s.input ++ [c]) = s.parsed ++ _
        rw [linesOf, htyped, heq]
        exact if_neg hne
    · have hf' : s.received = true := h.flag (by rcases ht with h | h | h <;> rw [h] <;> simp)
      obtain ⟨hnil, heq⟩ := h.handling hf' ht
      exact heq.trans (hblank hnil).symm
    · show (s.received || _) = true
      rw [h.flag ht, Bool.true_or]
  · have hlines : linesOf (s.input ++ [c]) = linesOf s.input := by rw [linesOf, htyped]; rfl
    refine ⟨fun ht => ?_, fun hp => ?_, fun hf ht => ?_, h.flag⟩
    · show _ ∧ s.parsed = linesOf (s.input ++ [c])
      rw [htyped, hlines]
      exact h.typing ht
    · show _ ∧ ∃ l ≠ [], _ ∧ _ ∧ linesOf (s.input ++ [c]) = _
      rw [htyped, hlines]
      exact h.pending hp
    · show _ ∧ s.parsed = linesOf (s.input ++ [c])
      rw [htyped, hlines]
      exact h.handling hf ht

/-- **An operation of the task.** -/
theorem sound_atcmdTaskStep (buf : ℕ → UInt8) (h : Sound build s) :
    Sound build (atcmdTaskStep build buf s) := by
  rw [atcmdTaskStep]
  rcases ht : s.task <;> simp only []
  · -- the loop goes on, or a line has been ended
    split
    · rename_i hf
      refine ⟨fun h' => ?_, fun _ => h.pending ⟨hf, Or.inl ht⟩, fun _ h' => ?_, fun _ => hf⟩
      · rcases h' with h' | h'
        · exact absurd (hf.symm.trans h') (by simp)
        · cases h'
      · rcases h' with h' | h' | h' <;> cases h'
    · exact h
  · have hf : s.received = true := h.flag (by rw [ht]; simp)
    obtain ⟨hnil, l, hne, hholds, hnul, hlines⟩ := h.pending ⟨hf, Or.inr ht⟩
    have hl : l ∈ linesOf s.input := by rw [hlines]; simp
    have hzero := ne_zero_of_mem_line hl
    have hfirst : s.rx.buf 0 ≠ 0 := by
      intro h0
      refine hzero ?_
      rw [← hholds.text]
      refine mem_map.mpr ⟨0, mem_range.mpr (length_pos_iff.mpr hne), ?_⟩
      exact h0
    rw [if_neg hfirst, text_of_holds hholds hnul hzero]
    refine ⟨fun h' => ?_, fun h' => ?_, fun _ _ => ⟨hnil, hlines.symm⟩, fun _ => hf⟩
    · rcases h' with h' | h'
      · exact absurd (hf.symm.trans h') (by simp)
      · cases h'
    · rcases h'.2 with h' | h' <;> cases h'
  · have hf : s.received = true := h.flag (by rw [ht]; simp)
    refine ⟨fun h' => ?_, fun h' => ?_, fun _ _ => h.handling hf (Or.inl ht), fun _ => hf⟩
    · rcases h' with h' | h'
      · exact absurd (hf.symm.trans h') (by simp)
      · cases h'
    · rcases h'.2 with h' | h' <;> cases h'
  · have hf : s.received = true := h.flag (by rw [ht]; simp)
    refine ⟨fun h' => ?_, fun h' => ?_, fun _ _ => h.handling hf (Or.inr (Or.inl ht)), fun _ => hf⟩
    · rcases h' with h' | h'
      · exact absurd (hf.symm.trans h') (by simp)
      · cases h'
    · rcases h'.2 with h' | h' <;> cases h'
  · -- from here on characters are those of the next line
    have hf : s.received = true := h.flag (by rw [ht]; simp)
    obtain ⟨hnil, heq⟩ := h.handling hf (Or.inr (Or.inr ht))
    refine ⟨fun _ => ⟨?_, heq⟩, fun h' => ?_, fun _ h' => ?_, fun _ => hf⟩
    · rw [show (typedBytes _).current = [] from hnil]
      exact LineBuf.Holds.start (atHwRxBufSize_pos build) _
    · rcases h'.2 with h' | h' <;> cases h'
    · rcases h' with h' | h' | h' <;> cases h'
  · refine ⟨fun _ => h.typing (Or.inr ht), fun h' => ?_, fun h' => ?_, fun h' => absurd rfl h'⟩
    · cases h'.1
    · cases h'

end Steps

/-! ### Every run -/

/-- Two lines, the second of which comes before the task has taken the first. -/
def twoLines : List AtStep :=
  [.rx 65, .rx 13, .rx 66, .rx 13, .task fun _ => 0, .task fun _ => 0]

end Gd32.App
