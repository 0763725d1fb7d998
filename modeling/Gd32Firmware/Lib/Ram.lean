import Gd32Firmware.Lib.LittleEndian

/-!
# Byte-addressed memory

A memory that is read and written by bytes and by 32-bit words, the low byte first. The lemmas
say what a write leaves alone: everything outside the bytes it covers. Proofs about a data
structure in memory need no more than that and the value read back.
-/

/-- A memory: the byte at every address. -/
def Ram : Type := ℕ → UInt8

namespace Ram

/-- The byte at an address. -/
def byte (m : Ram) (a : ℕ) : UInt8 := m a

/-- The word at an address. -/
def load (m : Ram) (a : ℕ) : ℕ :=
  LittleEndian.value [m.byte a, m.byte (a + 1), m.byte (a + 2), m.byte (a + 3)]

/-- Writing a byte. -/
def put (m : Ram) (a : ℕ) (b : UInt8) : Ram := fun x => if x = a then b else m.byte x

/-- Writing a word. -/
def store (m : Ram) (a v : ℕ) : Ram := fun x =>
  if a ≤ x ∧ x < a + 4 then (LittleEndian.bytes 4 v).getD (x - a) 0 else m.byte x

/-- Writing one byte `n` times. -/
def fill (m : Ram) (a : ℕ) (b : UInt8) (n : ℕ) : Ram := fun x =>
  if a ≤ x ∧ x < a + n then b else m.byte x

/-- Copying `n` bytes to `d` from `s`. -/
def copy (m : Ram) (d s n : ℕ) : Ram := fun x =>
  if d ≤ x ∧ x < d + n then m.byte (s + (x - d)) else m.byte x

/-! ### What is written -/

@[simp] theorem byte_put (m : Ram) (a : ℕ) (b : UInt8) : (m.put a b).byte a = b := if_pos rfl

variable {v n a x : ℕ} {m : Ram}

theorem load_store (m : Ram) (a : ℕ) (hv : v < 2 ^ 32) : (m.store a v).load a = v := by
  have hbytes : [(m.store a v).byte a, (m.store a v).byte (a + 1), (m.store a v).byte (a + 2),
      (m.store a v).byte (a + 3)] = LittleEndian.bytes 4 v := by
    simp [store, byte, LittleEndian.bytes]
  rw [load, hbytes]
  exact LittleEndian.value_bytes (by simpa using hv)

theorem byte_copy (m : Ram) (d s : ℕ) {k : ℕ} (hk : k < n) :
    (m.copy d s n).byte (d + k) = m.byte (s + k) := by
  have hin : d ≤ d + k ∧ d + k < d + n := by omega
  have heq : (m.copy d s n).byte (d + k) = m.byte (s + (d + k - d)) := if_pos hin
  rw [heq, Nat.add_sub_cancel_left]

theorem load_lt (m : Ram) (a : ℕ) : m.load a < 2 ^ 32 := by
  have h := LittleEndian.value_lt [m.byte a, m.byte (a + 1), m.byte (a + 2), m.byte (a + 3)]
  rw [load]
  simpa using h

/-! ### What is left alone -/

theorem byte_put_of_ne {b : UInt8} (h : x ≠ a) :
    (m.put a b).byte x = m.byte x := if_neg h

theorem byte_store_of_notMem (h : x < a ∨ a + 4 ≤ x) :
    (m.store a v).byte x = m.byte x := if_neg (by omega)

theorem byte_fill_of_notMem {b : UInt8} (h : x < a ∨ a + n ≤ x) :
    (m.fill a b n).byte x = m.byte x := if_neg (by omega)

theorem byte_copy_of_notMem {d s : ℕ} (h : x < d ∨ d + n ≤ x) :
    (m.copy d s n).byte x = m.byte x := if_neg (by omega)

/-- A word is its four bytes. -/
theorem load_congr {m' : Ram} (h : ∀ x, a ≤ x → x < a + 4 → m'.byte x = m.byte x) :
    m'.load a = m.load a := by
  rw [load, load, h a (by omega) (by omega), h (a + 1) (by omega) (by omega),
    h (a + 2) (by omega) (by omega), h (a + 3) (by omega) (by omega)]

theorem load_store_of_disjoint {b : ℕ} (h : b + 4 ≤ a ∨ a + 4 ≤ b) :
    (m.store a v).load b = m.load b :=
  load_congr fun _ _ _ => byte_store_of_notMem (by omega)

theorem load_put_of_notMem {b : ℕ} {c : UInt8} (h : a < b ∨ b + 4 ≤ a) :
    (m.put a c).load b = m.load b :=
  load_congr fun _ _ _ => byte_put_of_ne (by omega)

end Ram
