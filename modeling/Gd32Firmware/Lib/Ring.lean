import Mathlib.Data.List.GetD
import Mathlib.Tactic.Common

/-!
# Rings of cells

A ring of `len` cells, kept in a plain array. The cells that are taken, in the order in which they
were filled, are a *window*: `n` cells from `o` on, around the end. Copying into the array at the
end of a window, with the copy cut in two at the end of the array, makes the window longer and
changes none of its cells (`Ring.window_deposit`); reading is cut in two the same way
(`Ring.window_of_le`, `Ring.window_of_wrap`).
-/

namespace Ring

open List

variable {α : Type}

/-! ### Copying to and from an array -/

/-- The `n` cells of the array from `a` on. -/
def slice (buf : ℕ → α) (a n : ℕ) : List α := (List.range n).map fun i => buf (a + i)

/-- The array after data has been copied to `a`. -/
def blit (buf : ℕ → α) (a : ℕ) (xs : List α) : ℕ → α := fun x =>
  if a ≤ x then xs.getD (x - a) (buf x) else buf x

theorem blit_of_lt {buf : ℕ → α} {a x : ℕ} {xs : List α} (h : x < a) : blit buf a xs x = buf x :=
  if_neg (by omega)

theorem blit_of_ge {buf : ℕ → α} {a x : ℕ} {xs : List α} (h : a + xs.length ≤ x) :
    blit buf a xs x = buf x := by
  rw [blit, if_pos (by omega), getD_eq_default _ _ (by omega)]

theorem blit_apply {buf : ℕ → α} {a i : ℕ} {xs : List α} (h : i < xs.length) :
    blit buf a xs (a + i) = xs[i] := by
  rw [blit, if_pos (by omega), show a + i - a = i by omega, getD_eq_getElem _ _ h]

/-! ### Windows -/

/-- The `n` cells from `o` on, around the end of a ring of `len` cells. -/
def window (buf : ℕ → α) (len o n : ℕ) : List α :=
  (List.range n).map fun i => buf ((o + i) % len)

@[simp] theorem length_window (buf : ℕ → α) (len o n : ℕ) : (window buf len o n).length = n := by
  simp [window]

theorem window_add (buf : ℕ → α) (len o m n : ℕ) :
    window buf len o (m + n) = window buf len o m ++ window buf len ((o + m) % len) n := by
  rw [window, range_add, map_append, map_map]
  congr 1
  refine map_congr_left fun i _ => ?_
  simp only [Function.comp_apply, Nat.mod_add_mod, Nat.add_assoc]

theorem take_window (buf : ℕ → α) (len o : ℕ) {m n : ℕ} (h : m ≤ n) :
    (window buf len o n).take m = window buf len o m := by
  obtain ⟨d, rfl⟩ := Nat.exists_eq_add_of_le h
  rw [window_add, take_left' (length_window _ _ _ _)]

theorem drop_window (buf : ℕ → α) (len o : ℕ) {m n : ℕ} (h : m ≤ n) :
    (window buf len o n).drop m = window buf len ((o + m) % len) (n - m) := by
  obtain ⟨d, rfl⟩ := Nat.exists_eq_add_of_le h
  rw [window_add, drop_left' (length_window _ _ _ _), Nat.add_sub_cancel_left]

/-- A window that does not pass the end. -/
theorem window_of_le (buf : ℕ → α) {len o n : ℕ} (h : o + n ≤ len) :
    window buf len o n = slice buf o n := by
  refine map_congr_left fun i hi => ?_
  have := mem_range.mp hi
  rw [Nat.mod_eq_of_lt (by omega)]

/-- A window that passes the end is read in two parts. -/
theorem window_of_wrap (buf : ℕ → α) {len o n : ℕ} (ho : o < len) (hn : n ≤ len)
    (h : len ≤ o + n) :
    window buf len o n = slice buf o (len - o) ++ slice buf 0 (n - (len - o)) := by
  have hsplit : n = (len - o) + (n - (len - o)) := by omega
  conv_lhs => rw [hsplit, window_add]
  rw [window_of_le buf (by omega), show o + (len - o) = len by omega, Nat.mod_self,
    window_of_le buf (by omega)]

/-! ### Filling a ring -/

/-- The array after data has been copied to `a`, the copy being cut in two at the end. -/
def deposit (buf : ℕ → α) (len a : ℕ) (xs : List α) : ℕ → α :=
  if a + xs.length ≤ len then blit buf a xs
  else blit (blit buf a (xs.take (len - a))) 0 (xs.drop (len - a))

section Deposit

variable {buf : ℕ → α} {len a : ℕ} {xs : List α} (ha : a < len) (hxs : xs.length ≤ len)
include ha hxs

/-- The cells that are filled. -/
theorem deposit_apply {i : ℕ} (hi : i < xs.length) :
    deposit buf len a xs ((a + i) % len) = xs[i] := by
  rw [deposit]
  split
  · next h => rw [Nat.mod_eq_of_lt (by omega), blit_apply hi]
  · next h =>
    rcases Nat.lt_or_ge (a + i) len with hlt | hge
    · -- in front of the end, and behind the second part
      rw [Nat.mod_eq_of_lt hlt, blit_of_ge (by rw [length_drop]; omega),
        blit_apply (by rw [length_take]; omega), getElem_take]
    · rw [show a + i = (a + i - len) + len by omega, Nat.add_mod_right,
        Nat.mod_eq_of_lt (by omega), ← Nat.zero_add (a + i - len),
        blit_apply (by rw [length_drop]; omega), getElem_drop]
      congr 1
      omega

omit hxs in
/-- The other cells. -/
theorem deposit_of_ne {i : ℕ} (h1 : xs.length ≤ i) (h2 : i < len) :
    deposit buf len a xs ((a + i) % len) = buf ((a + i) % len) := by
  rw [deposit]
  rcases Nat.lt_or_ge (a + i) len with hlt | hge
  · rw [Nat.mod_eq_of_lt hlt]
    split
    · exact blit_of_ge (by omega)
    · omega
  · rw [show a + i = (a + i - len) + len by omega, Nat.add_mod_right, Nat.mod_eq_of_lt (by omega)]
    split
    · exact blit_of_lt (by omega)
    · rw [blit_of_ge (by rw [length_drop]; omega), blit_of_lt (by omega)]

/-- What has been copied is read back. -/
theorem window_deposit_self : window (deposit buf len a xs) len a xs.length = xs := by
  refine ext_getElem (length_window _ _ _ _) fun i h1 h2 => ?_
  have hcell : (window (deposit buf len a xs) len a xs.length)[i] =
      deposit buf len a xs ((a + i) % len) := by simp [window]
  rw [hcell, deposit_apply ha hxs h2]

end Deposit

/-- **Filling a ring at the end of a window** makes the window longer. -/
theorem window_deposit {buf : ℕ → α} {len o n : ℕ} {xs : List α} (hlen : 0 < len)
    (hroom : n + xs.length ≤ len) :
    window (deposit buf len ((o + n) % len) xs) len o (n + xs.length) =
      window buf len o n ++ xs := by
  have ha : (o + n) % len < len := Nat.mod_lt _ hlen
  rw [window_add, window_deposit_self ha (by omega)]
  congr 1
  refine map_congr_left fun i hi => ?_
  have hi' := mem_range.mp hi
  -- the cell, counted from where the data starts
  have hpos : (o + i) % len = ((o + n) % len + (len - n + i)) % len := by
    rw [Nat.mod_add_mod, show o + n + (len - n + i) = o + i + len by omega, Nat.add_mod_right]
  rw [hpos, deposit_of_ne ha (by omega) (by omega)]

end Ring
