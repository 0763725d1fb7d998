import Mathlib.Algebra.Ring.Int.Defs
import Mathlib.Algebra.Ring.Nat
import Mathlib.Data.Nat.Notation

/-!
# The flash layout and the width of the machine

The offsets of `config_gdm32.h` and `raw_flash_api.h`, in the words of the source, the 32-bit
arithmetic the drivers compute with, and the error codes of the adapter.
-/

namespace Gd32

/-- `FLASH_TOTAL_SIZE`, the size of the SIP flash. -/
def flashTotalSize : ℕ := 0x400000

/-- `FLASH_PAGE_SIZE`, the erase unit of the SIP flash. -/
def flashPageSize : ℕ := 0x1000

def reImg0Offset : ℕ := 0xA000

def reImg1Offset : ℕ := 0x1EA000

/-- `RE_IMG_1_END`; the user data follows. -/
def reImg1End : ℕ := 0x3CA000

/-- A value stored in a `uint32_t`. -/
def u32 (n : ℕ) : ℕ := n % 2 ^ 32

/-- The difference of two `uint32_t`, which wraps. -/
def u32sub (a b : ℕ) : ℕ := (a + 2 ^ 32 - b) % 2 ^ 32

/-- The error codes of the adapter that are used here; `OPRT_OK` is the absence of one. -/
inductive OprtErr where
  | comError
  | invalidParm
  | mallocFailed
  | notSupported
  | notFound
  | exceedUpperLimit

theorem u32_of_lt {n : ℕ} (h : n < 2 ^ 32) : u32 n = n := Nat.mod_eq_of_lt h

theorem u32_lt (n : ℕ) : u32 n < 2 ^ 32 := Nat.mod_lt _ (by decide)

theorem u32sub_of_le {a b : ℕ} (h : b ≤ a) (ha : a < 2 ^ 32) : u32sub a b = a - b := by
  rw [u32sub]
  omega

end Gd32
