import Gd32Firmware.Util.CString
import Mathlib.Algebra.Group.Nat.Defs
import Mathlib.Data.List.Induction

/-!
# Searching and reading strings in memory

`strstr` and `atoi` of the C library. A pointer into an object is the rest of the object from
there on. A search that finds neither the text nor a terminator leaves the object, which the
language does not define; it is the outer `none` here, and so is a number that runs on to the end
of the object.
-/

namespace Gd32

open List

/-- The difference of two pointers into one object. -/
def ptrDiff (pEnd pStart : List UInt8) : ℕ := pStart.length - pEnd.length

/-- `strstr`: the inner `none` is the null pointer. -/
def strstr (needle : List UInt8) : List UInt8 → Option (Option (List UInt8))
  | [] => none
  | c :: s =>
    if c = 0 then some none
    else if needle <+: c :: s then some (some (c :: s))
    else strstr needle s

/-- `while (*p == ' ') p++`. -/
def skipSpaces (s : List UInt8) : List UInt8 := s.dropWhile (· = 32)

def isSpace (c : UInt8) : Bool := c = 32 || (9 ≤ c && c ≤ 13)

def isDigit (c : UInt8) : Bool := 48 ≤ c && c ≤ 57

/-- The number a list of digits stands for. -/
def decimal (digits : List UInt8) : ℕ := digits.foldl (fun n c => 10 * n + (c.toNat - 48)) 0

/-- The digits at the start of an object, as a number; `none` when they run to its end. -/
def leadingNat (s : List UInt8) : Option ℕ :=
  if s.dropWhile isDigit = [] then none else some (decimal (s.takeWhile isDigit))

/-- `atoi`, of a number that an `int` holds. -/
def atoi (s : List UInt8) : Option ℤ :=
  match s.dropWhile isSpace with
  | 45 :: t => (leadingNat t).map fun n : ℕ => -(n : ℤ)
  | 43 :: t => (leadingNat t).map fun n : ℕ => (n : ℤ)
  | t => (leadingNat t).map fun n : ℕ => (n : ℤ)

/-- What is found is in the object, and starts with what was looked for. -/
theorem suffix_of_strstr {needle s t : List UInt8} (h : strstr needle s = some (some t)) :
    t <:+ s ∧ needle <+: t := by
  induction s with
  | nil => cases h
  | cons c s ih =>
    rw [strstr] at h
    split at h
    · cases h
    split at h
    · cases h
      exact ⟨suffix_rfl, ‹_›⟩
    · exact ⟨(ih h).1.trans (suffix_cons c s), (ih h).2⟩

/-! ### How large a number is -/

theorem decimal_lt {ds : List UInt8} (h : ∀ c ∈ ds, isDigit c) : decimal ds < 10 ^ ds.length := by
  induction ds using List.reverseRecOn with
  | nil => simp [decimal]
  | append_singleton ds c ih =>
    have hlt := ih fun d hd => h d (mem_append_left _ hd)
    have hc := h c (by simp)
    have hc9 : c.toNat - 48 < 10 := by
      simp only [isDigit, Bool.and_eq_true, decide_eq_true_eq] at hc
      have := UInt8.le_iff_toNat_le.mp hc.2
      have h57 : (57 : UInt8).toNat = 57 := rfl
      omega
    rw [decimal] at hlt
    rw [decimal, foldl_append, length_append, length_singleton, Nat.pow_succ,
      foldl_cons, foldl_nil]
    omega

/-- The number at the start of an object has fewer digits than the object has bytes. -/
theorem leadingNat_lt {s : List UInt8} {n : ℕ} (h : leadingNat s = some n) :
    n < 10 ^ (s.length - 1) := by
  rw [leadingNat] at h
  split at h
  · cases h
  next hne =>
  cases h
  have hlen := congrArg List.length (takeWhile_append_dropWhile (p := isDigit) (l := s))
  have hpos := length_pos_iff.mpr hne
  rw [length_append] at hlen
  refine Nat.lt_of_lt_of_le (decimal_lt fun c hc => mem_takeWhile_imp hc) ?_
  exact Nat.pow_le_pow_right (by decide) (by omega)

/-- **What `atoi` reads off an array** has fewer digits than the array has bytes. -/
theorem natAbs_atoi_lt {s : List UInt8} {n : ℤ} (h : atoi s = some n) :
    n.natAbs < 10 ^ (s.length - 1) := by
  have hlen : (s.dropWhile isSpace).length ≤ s.length := (dropWhile_sublist _).length_le
  rw [atoi] at h
  split at h
  all_goals
    rw [Option.map_eq_some_iff] at h
    obtain ⟨k, hk, rfl⟩ := h
    have hlt := leadingNat_lt hk
    simp only [Int.natAbs_neg, Int.natAbs_natCast]
  · next t ht =>
    rw [ht, length_cons] at hlen
    exact Nat.lt_of_lt_of_le hlt (Nat.pow_le_pow_right (by decide) (by omega))
  · next t ht =>
    rw [ht, length_cons] at hlen
    exact Nat.lt_of_lt_of_le hlt (Nat.pow_le_pow_right (by decide) (by omega))
  · exact Nat.lt_of_lt_of_le hlt (Nat.pow_le_pow_right (by decide) (by omega))

end Gd32
