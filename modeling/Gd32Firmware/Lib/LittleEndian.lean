import Mathlib.Data.List.Basic
import Mathlib.Data.Nat.Basic
import Mathlib.Tactic.Ring

/-!
# Little-endian numbers

A number of `n` bytes is stored with its low byte first. `LittleEndian.bytes` writes one and
`LittleEndian.value` reads one back.
-/

namespace LittleEndian

/-- The `n` low bytes of a number, the lowest one first. -/
def bytes : ℕ → ℕ → List UInt8
  | 0, _ => []
  | n + 1, v => UInt8.ofNat (v % 256) :: bytes n (v / 256)

/-- The number stored in some bytes. -/
def value : List UInt8 → ℕ
  | [] => 0
  | b :: bs => b.toNat + 256 * value bs

@[simp] theorem length_bytes (n v : ℕ) : (bytes n v).length = n := by
  induction n generalizing v with
  | zero => rfl
  | succ n ih => rw [bytes, List.length_cons, ih]

/-- **A number that fits is read back.** -/
theorem value_bytes {n v : ℕ} (h : v < 256 ^ n) : value (bytes n v) = v := by
  induction n generalizing v with
  | zero => simp_all [bytes, value]
  | succ n ih =>
    have hdiv : v / 256 < 256 ^ n := by
      rw [Nat.div_lt_iff_lt_mul (by norm_num)]
      simpa [pow_succ] using h
    have hmod : (UInt8.ofNat (v % 256)).toNat = v % 256 := by
      exact Nat.mod_eq_of_lt (Nat.mod_lt _ (by norm_num))
    rw [bytes, value, ih hdiv, hmod]
    exact Nat.mod_add_div v 256

theorem value_lt (bs : List UInt8) : value bs < 256 ^ bs.length := by
  induction bs with
  | nil => simp [value]
  | cons b bs ih =>
    have hb : b.toNat < 256 := b.toNat_lt
    rw [value, List.length_cons, pow_succ]
    omega

/-- The bytes of a bitwise and. -/
theorem bytes_and (n x y : ℕ) :
    bytes n (x &&& y) = List.zipWith (· &&& ·) (bytes n x) (bytes n y) := by
  induction n generalizing x y with
  | zero => rfl
  | succ n ih =>
    have hdiv : (x &&& y) / 256 = x / 256 &&& y / 256 := Nat.and_div_two_pow (n := 8)
    have hmod : (x &&& y) % 256 = x % 256 &&& y % 256 := Nat.and_mod_two_pow (n := 8)
    rw [bytes, bytes, bytes, List.zipWith_cons_cons, hdiv, ih, hmod, UInt8.ofNat_and]

end LittleEndian
