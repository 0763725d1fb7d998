import Mathlib.Data.List.TakeWhile

/-!
# Strings

A C string is the bytes in front of its terminator, none of which is zero.
-/

namespace Gd32

/-- A C string, without its terminator. -/
structure CString where
  /-- The bytes in front of the terminator. -/
  bytes : List UInt8
  bytes_ne_zero : 0 ∉ bytes
  deriving DecidableEq

/-- `strlen`. -/
def CString.len (s : CString) : ℕ := s.bytes.length

theorem CString.ext_bytes {s t : CString} (h : s.bytes = t.bytes) : s = t := by
  cases s
  cases t
  cases h
  rfl

/-- The string in a character field: the bytes in front of the first zero. -/
def fieldString (field : List UInt8) : List UInt8 := field.takeWhile (· ≠ 0)

/-- The string in a character field, as a string. -/
def CString.ofField (field : List UInt8) : CString where
  bytes := fieldString field
  bytes_ne_zero := fun h => by simpa using List.mem_takeWhile_imp h

/-- A string, its terminator and whatever follows read back as the string. -/
theorem fieldString_append (s : CString) (rest : List UInt8) :
    fieldString (s.bytes ++ 0 :: rest) = s.bytes := by
  rw [fieldString, List.takeWhile_append_of_pos]
  · rw [List.takeWhile_cons_of_neg (by simp), List.append_nil]
  · intro b hb
    have hne : b ≠ 0 := fun h => s.bytes_ne_zero (h ▸ hb)
    simpa using hne

end Gd32
