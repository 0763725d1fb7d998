import Mathlib.Data.List.Basic
import Mathlib.Data.List.GetD
import Mathlib.Data.List.TakeDrop
import Mathlib.Tactic.Linarith

/-!
# A NOR flash device

A flash device is a map from addresses to bytes with two destructive primitives.
*Programming* can only clear bits: the new byte is the bitwise and of the old one
and of the one asked for. *Erasing* sets every byte of a range to `0xFF`. Both
are recorded as values of `NorFlash.Prim`, so that the calls a driver
issues form a list, the device after a run is that list applied in order, and the
device after a power cut is a prefix of it applied in order.

Nothing here knows what is stored on the device.
-/

namespace NorFlash

open List

/-- The content of a device: one byte per address. -/
abbrev Flash := ℕ → UInt8

/-- The value of every byte of an erased range. -/
def blank : UInt8 := 0xFF

/-- Programming a range: each byte of the range is and-ed with the byte asked
for. -/
def program (f : Flash) (a : ℕ) (bs : List UInt8) : Flash := fun x =>
  if a ≤ x ∧ x < a + bs.length then f x &&& bs.getD (x - a) blank else f x

/-- Erasing a range. -/
def erase (f : Flash) (a n : ℕ) : Flash := fun x =>
  if a ≤ x ∧ x < a + n then blank else f x

/-- Reading a range. -/
def read (f : Flash) (a n : ℕ) : List UInt8 := (List.range n).map fun i => f (a + i)

/-- The range `[a, a + n)` is blank. -/
def Blank (f : Flash) (a n : ℕ) : Prop := ∀ x, a ≤ x → x < a + n → f x = blank

/-! ### Bytes -/

@[simp] theorem blank_and (b : UInt8) : blank &&& b = b := by
  rw [blank, show (0xFF : UInt8) = -1 from rfl, UInt8.neg_one_and]

@[simp] theorem and_blank (b : UInt8) : b &&& blank = b := by
  rw [UInt8.and_comm, blank_and]

/-! ### Reading -/

@[simp] theorem length_read (f : Flash) (a n : ℕ) : (read f a n).length = n := by
  simp [read]

theorem getElem_read (f : Flash) (a n i : ℕ) (h : i < (read f a n).length) :
    (read f a n)[i] = f (a + i) := by
  simp [read]

variable {n a m b x : ℕ} {f : Flash} {bs : List UInt8} {Q : Flash → Prop} {ps : List Prim}

theorem getD_read (f : Flash) (a : ℕ) {i : ℕ} (h : i < n) (d : UInt8) :
    (read f a n).getD i d = f (a + i) := by
  rw [getD_eq_getElem _ _ (by simpa using h), getElem_read]

@[simp] theorem read_zero (f : Flash) (a : ℕ) : read f a 0 = [] := rfl

/-- A range is read in two parts. -/
theorem read_add (f : Flash) (a m n : ℕ) :
    read f a (m + n) = read f a m ++ read f (a + m) n := by
  refine ext_getElem (by simp) fun i h1 h2 => ?_
  rw [getElem_read]
  rcases Nat.lt_or_ge i m with h | h
  · rw [getElem_append_left (by simpa using h), getElem_read]
  · rw [getElem_append_right (by simpa using h), getElem_read]
    simp only [length_read]
    congr 1
    omega

/-- What is read depends only on the bytes of the range. -/
theorem read_congr {g : Flash} (h : ∀ x, a ≤ x → x < a + n → f x = g x) :
    read f a n = read g a n := by
  refine ext_getElem (by simp) fun i h1 h2 => ?_
  rw [getElem_read, getElem_read]
  simp only [length_read] at h1
  exact h _ (by omega) (by omega)

/-- A blank range reads as blanks. -/
theorem read_of_blank (h : Blank f a n) :
    read f a n = List.replicate n blank := by
  refine ext_getElem (by simp) fun i h1 h2 => ?_
  simp only [length_read] at h1
  rw [getElem_read, getElem_replicate]
  exact h _ (by omega) (by omega)

theorem Blank.mono (h : Blank f a n) (hab : a ≤ b)
    (hbm : b + m ≤ a + n) : Blank f b m := fun x h1 h2 => h x (by omega) (by omega)

/-! ### Programming -/

theorem program_of_lt (h : x < a) :
    program f a bs x = f x := if_neg (by omega)

theorem program_of_ge (h : a + bs.length ≤ x) :
    program f a bs x = f x := if_neg (by omega)

theorem program_apply {i : ℕ} (h : i < bs.length) :
    program f a bs (a + i) = f (a + i) &&& bs[i] := by
  rw [program, if_pos (by omega), Nat.add_sub_cancel_left, getD_eq_getElem _ _ h]

@[simp] theorem program_nil (f : Flash) (a : ℕ) : program f a [] = f := by
  funext x
  exact if_neg (by simp only [length_nil]; omega)

/-- Programming a buffer is programming its two parts one after the other. -/
theorem program_append (f : Flash) (a : ℕ) (bs cs : List UInt8) :
    program f a (bs ++ cs) = program (program f a bs) (a + bs.length) cs := by
  funext x
  simp only [program, length_append]
  by_cases h1 : a ≤ x ∧ x < a + bs.length
  · rw [if_pos (by omega), if_neg (by omega), if_pos h1, getD_append _ _ _ _ (by omega)]
  · rw [if_neg h1]
    by_cases h2 : a + bs.length ≤ x ∧ x < a + bs.length + cs.length
    · rw [if_pos (by omega), if_pos h2, getD_append_right _ _ _ _ (by omega)]
      congr 2
      omega
    · rw [if_neg (by omega), if_neg h2]

/-- A range apart from the one programmed reads as before. -/
theorem read_program_of_disjoint
    (h : b + n ≤ a ∨ a + bs.length ≤ b) : read (program f a bs) b n = read f b n := by
  refine read_congr fun x h1 h2 => ?_
  rcases h with h | h
  · exact program_of_lt (by omega)
  · exact program_of_ge (by omega)

/-- **A blank range reads back what was programmed into it.** -/
theorem read_program_of_blank
    (h : Blank f a bs.length) : read (program f a bs) a bs.length = bs := by
  refine ext_getElem (by simp) fun i h1 h2 => ?_
  rw [getElem_read, program_apply h2, h _ (by omega) (by omega), blank_and]

/-- Programming over what is there already. -/
theorem read_program_self (f : Flash) (a : ℕ) (bs : List UInt8) :
    read (program f a bs) a bs.length = List.zipWith (· &&& ·) (read f a bs.length) bs := by
  refine ext_getElem (by simp) fun i h1 h2 => ?_
  have hi : i < bs.length := by simpa using h1
  rw [getElem_read, program_apply hi, getElem_zipWith, getElem_read]

/-- A blank range behind the start of what is programmed reads as the bytes that reach it, and
as blanks behind them. -/
theorem read_program_of_blank_at {c : ℕ} (bs : List UInt8) (h : Blank f (a + c) n) :
    read (program f a bs) (a + c) n = (List.range n).map fun i => bs.getD (c + i) blank := by
  refine ext_getElem (by simp) fun i h1 h2 => ?_
  have hi : i < n := by simpa using h1
  have hf : f (a + c + i) = blank := h _ (by omega) (by omega)
  rw [getElem_read, getElem_map, getElem_range, program, hf]
  split
  · rw [blank_and]
    congr 1
    omega
  · rw [getD_eq_default _ _ (by omega)]

theorem Blank.program_of_disjoint (hb : Blank f b n)
    (h : b + n ≤ a ∨ a + bs.length ≤ b) : Blank (program f a bs) b n := by
  intro x h1 h2
  rcases h with h | h
  · rw [program_of_lt (by omega)]
    exact hb x h1 h2
  · rw [program_of_ge (by omega)]
    exact hb x h1 h2

/-! ### Erasing -/

theorem blank_erase (f : Flash) (a n : ℕ) : Blank (erase f a n) a n := fun _ h1 h2 =>
  if_pos ⟨h1, h2⟩

theorem erase_of_disjoint (h : x < a ∨ a + n ≤ x) :
    erase f a n x = f x := if_neg (by omega)

theorem read_erase_of_disjoint (h : b + n ≤ a ∨ a + m ≤ b) :
    read (erase f a m) b n = read f b n := by
  refine read_congr fun x h1 h2 => erase_of_disjoint ?_
  omega

/-! ### Calls, runs and power cuts -/

/-- One primitive call on the device. -/
inductive Prim
  | program (addr : ℕ) (data : List UInt8)
  | erase (addr size : ℕ)
  deriving DecidableEq, Repr

/-- What a call does to the device. -/
def Prim.apply (f : Flash) : Prim → Flash
  | .program a bs => NorFlash.program f a bs
  | .erase a n => NorFlash.erase f a n

/-- The first address of the range of a call. -/
def Prim.addr : Prim → ℕ
  | .program a _ => a
  | .erase a _ => a

/-- The length of the range of a call. -/
def Prim.size : Prim → ℕ
  | .program _ bs => bs.length
  | .erase _ n => n

/-- The range of a call lies inside `[lo, hi)`. -/
def Prim.Within (lo hi : ℕ) (p : Prim) : Prop := lo ≤ p.addr ∧ p.addr + p.size ≤ hi

instance (lo hi : ℕ) (p : Prim) : Decidable (p.Within lo hi) :=
  inferInstanceAs (Decidable (_ ∧ _))

/-- The device after a list of calls. -/
def applyAll (f : Flash) (ps : List Prim) : Flash := ps.foldl Prim.apply f

@[simp] theorem applyAll_nil (f : Flash) : applyAll f [] = f := rfl

@[simp] theorem applyAll_cons (f : Flash) (p : Prim) (ps : List Prim) :
    applyAll f (p :: ps) = applyAll (p.apply f) ps := rfl

theorem applyAll_append (f : Flash) (ps qs : List Prim) :
    applyAll f (ps ++ qs) = applyAll (applyAll f ps) qs := foldl_append

/-- A call only asks for what the device can do: a program clears bits and sets none, so that
what is programmed is what is read back. -/
def Prim.Fits (f : Flash) : Prim → Prop
  | .program a bs => List.zipWith (· &&& ·) (read f a bs.length) bs = bs
  | .erase _ _ => True

theorem fits_of_blank (h : Blank f a bs.length) :
    (Prim.program a bs).Fits f := by
  rw [Prim.Fits, ← read_program_self, read_program_of_blank h]

/-- What fits is read back. -/
theorem read_program_of_fits
    (h : (Prim.program a bs).Fits f) : read (program f a bs) a bs.length = bs := by
  rw [read_program_self]
  exact h

/-- Along a list of calls every call fits the device it finds, and every device on the way,
both ends included, satisfies `Q`. -/
def Along (Q : Flash → Prop) : Flash → List Prim → Prop
  | f, [] => Q f
  | f, p :: ps => Q f ∧ p.Fits f ∧ Along Q (p.apply f) ps

theorem Along.append {qs : List Prim} (h : Along Q f ps)
    (h' : Along Q (applyAll f ps) qs) : Along Q f (ps ++ qs) := by
  induction ps generalizing f with
  | nil => exact h'
  | cons p ps ih => exact ⟨h.1, h.2.1, ih h.2.2 h'⟩

theorem Along.mono {R : Flash → Prop} (h : Along Q f ps)
    (hQR : ∀ g, Q g → R g) : Along R f ps := by
  induction ps generalizing f with
  | nil => exact hQR f h
  | cons p ps ih => exact ⟨hQR f h.1, h.2.1, ih h.2.2⟩

/-- A call changes nothing outside its range. -/
theorem Prim.apply_of_not_mem {p : Prim}
    (h : x < p.addr ∨ p.addr + p.size ≤ x) : p.apply f x = f x := by
  cases p with
  | program a bs =>
    rcases h with h | h
    · exact program_of_lt h
    · exact program_of_ge h
  | erase a n => exact erase_of_disjoint h

/-- **Calls inside a range change nothing outside it.** -/
theorem applyAll_of_within {lo hi : ℕ} (h : ∀ p ∈ ps, p.Within lo hi)
    (hx : x < lo ∨ hi ≤ x) (f : Flash) : applyAll f ps x = f x := by
  induction ps generalizing f with
  | nil => rfl
  | cons p ps ih =>
    have hp := h p (by simp)
    rw [applyAll_cons, ih (fun q hq => h q (by simp [hq]))]
    refine Prim.apply_of_not_mem ?_
    rcases hx with hx | hx
    · exact Or.inl (lt_of_lt_of_le hx hp.1)
    · exact Or.inr (le_trans hp.2 hx)

/-- Calls that fit keep what holds of all bytes outside their ranges. -/
theorem Along.within {lo hi : ℕ}
    (h : Along Q f ps) (hw : ∀ p ∈ ps, p.Within lo hi) :
    Along (fun g => Q g ∧ ∀ x, x < lo ∨ hi ≤ x → g x = f x) f ps := by
  induction ps generalizing f with
  | nil => exact ⟨h, fun _ _ => rfl⟩
  | cons p ps ih =>
    have hp := hw p (by simp)
    have hout : ∀ x, x < lo ∨ hi ≤ x → p.apply f x = f x := fun x hx =>
      Prim.apply_of_not_mem (by
      rcases hx with hx | hx
      · exact Or.inl (lt_of_lt_of_le hx hp.1)
      · exact Or.inr (hp.2.trans hx))
    refine ⟨⟨h.1, fun _ _ => rfl⟩, h.2.1, ?_⟩
    refine (ih h.2.2 fun q hq => hw q (by simp [hq])).mono fun g hg => ⟨hg.1, fun x hx => ?_⟩
    rw [hg.2 x hx, hout x hx]

end NorFlash
