import Gd32Firmware.Lib.Lines
import Gd32Firmware.Util.CString
import Mathlib.Data.List.Induction

/-!
# What the receive interrupts take a byte for

The interrupt handlers of the log UART and of the AT commands read the same keys from a stream of
bytes: everything from the space on is a character, and only carriage return and backspace do
something else. So the lines of a stream are the same for both (`linesOf`), and they are
strings (`ne_zero_of_mem_line`).
-/

namespace Gd32.App

open Lines List

/-- `isprint`, as the interrupt handlers define it. -/
def isPrint (c : UInt8) : Bool := 0x20 ≤ c

/-- What the interrupt handlers take a byte for. -/
def keyOf (c : UInt8) : Key UInt8 :=
  if isPrint c then .char c
  else if c = 13 then .enter
  else if c = 8 then .erase
  else .other

/-- What has been typed with a stream of bytes. -/
def typedBytes (input : List UInt8) : Typed UInt8 := typed (input.map keyOf)

/-- The lines of a stream of bytes, without the blank ones. -/
def linesOf (input : List UInt8) : List (List UInt8) := (typedBytes input).lines

theorem typedBytes_append (input : List UInt8) (c : UInt8) :
    typedBytes (input ++ [c]) = (typedBytes input).press (keyOf c) := by
  rw [typedBytes, map_append, map_singleton, typed_append]
  rfl

theorem isPrint_of_keyOf {c d : UInt8} (h : keyOf c = .char d) : isPrint c ∧ c = d := by
  rw [keyOf] at h
  split at h
  · exact ⟨‹_›, by simpa using h⟩
  · split at h
    · cases h
    · split at h <;> cases h

/-- Only characters get into a line. -/
theorem isPrint_typedBytes (input : List UInt8) :
    (∀ c ∈ (typedBytes input).current, isPrint c) ∧
      ∀ l ∈ linesOf input, ∀ c ∈ l, isPrint c := by
  induction input using List.reverseRecOn with
  | nil => exact ⟨by simp [typedBytes, typed], by simp [linesOf, typedBytes, typed]⟩
  | append_singleton input c ih =>
    obtain ⟨hcurrent, hlines⟩ := ih
    rw [linesOf, typedBytes_append]
    rcases hk : keyOf c with d | _ | _ | _ <;> simp only [Typed.press]
    · refine ⟨fun x hx => ?_, hlines⟩
      rcases mem_append.mp hx with hx | hx
      · exact hcurrent x hx
      · obtain ⟨hp, rfl⟩ := isPrint_of_keyOf hk
        rwa [mem_singleton.mp hx]
    · exact ⟨fun x hx => hcurrent x (dropLast_subset _ hx), hlines⟩
    · refine ⟨by simp, ?_⟩
      split
      · exact hlines
      · intro l hl
        rcases mem_append.mp hl with hl | hl
        · exact hlines l hl
        · rw [mem_singleton.mp hl]
          exact hcurrent
    · exact ⟨hcurrent, hlines⟩

/-- **A line is a string.** -/
theorem ne_zero_of_mem_line {input l : List UInt8} (hl : l ∈ linesOf input) : 0 ∉ l := by
  intro h
  exact absurd ((isPrint_typedBytes input).2 l hl 0 h) (by decide)

end Gd32.App
