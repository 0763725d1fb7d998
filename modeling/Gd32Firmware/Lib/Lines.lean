import Gd32Firmware.Lib.Ring

/-!
# Lines typed on a keyboard

What somebody types is a list of keys: characters, a key that takes the last character back, and
one that ends the line. The *lines* are what has been ended so far, with blank lines left out; the
rest is the *current* line (`Lines.typed`). A terminal keeps the current line in a buffer of fixed
size, behind which it goes on at the start. As long as the line stays shorter than the buffer, the
buffer holds it (`Lines.LineBuf.Holds.press`).
-/

namespace Lines

open Ring List

variable {α : Type}

/-! ### Typing -/

/-- A key. -/
inductive Key (α : Type) where
  | char (a : α)
  /-- The key that takes the last character back. -/
  | erase
  | enter
  | other
  deriving DecidableEq

/-- What has been typed. -/
structure Typed (α : Type) where
  /-- The lines that have been ended, without the blank ones. -/
  lines : List (List α)
  current : List α

/-- One key more. -/
def Typed.press (t : Typed α) : Key α → Typed α
  | .char a => { t with current := t.current ++ [a] }
  | .erase => { t with current := t.current.dropLast }
  | .enter => ⟨if t.current = [] then t.lines else t.lines ++ [t.current], []⟩
  | .other => t

/-- What has been typed with these keys. -/
def typed (keys : List (Key α)) : Typed α := keys.foldl Typed.press ⟨[], []⟩

theorem typed_append (keys : List (Key α)) (k : Key α) :
    typed (keys ++ [k]) = (typed keys).press k := by
  rw [typed, typed, foldl_append]
  rfl

/-! ### The buffer of a terminal -/

/-- A buffer and the place of the next character. -/
structure LineBuf (α : Type) where
  buf : ℕ → α
  idx : ℕ

/-- A cell gets a value. -/
def LineBuf.set (b : LineBuf α) (i : ℕ) (a : α) : LineBuf α :=
  { b with buf := fun x => if x = i then a else b.buf x }

/-- A character is stored in a buffer of `size` cells; behind the last one comes the first. -/
def LineBuf.char (size : ℕ) (a : α) (b : LineBuf α) : LineBuf α :=
  { b.set b.idx a with idx := if size ≤ b.idx + 1 then 0 else b.idx + 1 }

/-- The last character is taken back. -/
def LineBuf.erase (nul : α) (b : LineBuf α) : LineBuf α :=
  if 0 < b.idx then { b.set (b.idx - 1) nul with idx := b.idx - 1 } else b

/-- The line is terminated, and stays. -/
def LineBuf.terminate (nul : α) (b : LineBuf α) : LineBuf α := b.set b.idx nul

/-- The buffer holds the line `l`. -/
structure LineBuf.Holds (size : ℕ) (b : LineBuf α) (l : List α) : Prop where
  idx_eq : b.idx = l.length
  length_lt : l.length < size
  text : slice b.buf 0 l.length = l

theorem slice_set_of_le {b : LineBuf α} {i n : ℕ} (h : n ≤ i) (a : α) :
    slice (b.set i a).buf 0 n = slice b.buf 0 n := by
  refine map_congr_left fun x hx => ?_
  have := mem_range.mp hx
  exact if_neg (by omega)

theorem slice_succ (buf : ℕ → α) (n : ℕ) : slice buf 0 (n + 1) = slice buf 0 n ++ [buf n] := by
  simp [slice, range_succ]

namespace LineBuf.Holds

variable {size : ℕ} {b : LineBuf α} {l : List α} {nul : α}

theorem start (hsize : 0 < size) (buf : ℕ → α) : LineBuf.Holds size ⟨buf, 0⟩ [] :=
  ⟨rfl, hsize, rfl⟩

/-- A character is added, if the buffer is not full with it. -/
theorem char (h : b.Holds size l) (a : α) (hroom : l.length + 1 < size) :
    (b.char size a).Holds size (l ++ [a]) where
  idx_eq := by
    show (if size ≤ b.idx + 1 then 0 else b.idx + 1) = _
    rw [h.idx_eq, if_neg (by omega)]
    simp
  length_lt := by simpa using hroom
  text := by
    show slice (b.set b.idx a).buf 0 _ = _
    rw [length_append, length_singleton, slice_succ,
      slice_set_of_le (Nat.le_of_eq h.idx_eq.symm), h.text]
    congr 2
    exact if_pos h.idx_eq.symm

/-- The last character is taken back. -/
theorem erase (h : b.Holds size l) : (b.erase nul).Holds size l.dropLast := by
  have hidx := h.idx_eq
  have hlt := h.length_lt
  rw [LineBuf.erase]
  split
  · refine ⟨by simp [hidx], by simp; omega, ?_⟩
    show slice (b.set (b.idx - 1) nul).buf 0 _ = _
    have htake : slice b.buf 0 (l.length - 1) = l.dropLast := by
      conv_rhs => rw [← h.text]
      obtain ⟨n, hn⟩ : ∃ n, l.length = n + 1 := ⟨l.length - 1, by omega⟩
      rw [hn, slice_succ, dropLast_concat]
      rfl
    rw [length_dropLast, slice_set_of_le (by omega), htake]
  · have hnil : l = [] := length_eq_zero_iff.mp (by omega)
    rw [hnil] at h ⊢
    exact h

/-- A line that is terminated is still there, with the terminator behind it. -/
theorem terminate (h : b.Holds size l) :
    (b.terminate nul).Holds size l ∧
      slice (b.terminate nul).buf 0 (l.length + 1) = l ++ [nul] := by
  have htext : slice (b.terminate nul).buf 0 l.length = l := by
    rw [LineBuf.terminate, slice_set_of_le (Nat.le_of_eq h.idx_eq.symm), h.text]
  refine ⟨⟨h.idx_eq, h.length_lt, htext⟩, ?_⟩
  rw [slice_succ, htext]
  congr 2
  exact if_pos h.idx_eq.symm

end LineBuf.Holds

end Lines
