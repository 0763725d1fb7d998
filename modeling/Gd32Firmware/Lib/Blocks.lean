import Mathlib.Data.List.Count
import Mathlib.Data.List.Nodup
import Mathlib.Tactic.Common

/-!
# Blocks that are freed once

Blocks are numbered in the order in which they are allocated. What keeps a program from losing one
or freeing one twice is an account: of each block allocated so far there is one record, either among
the blocks that somebody owns or among those that have been freed (`Blocks.Accounted`).
-/

namespace Blocks

variable {allocs id : ℕ} {owned freed owned' freed' : List ℕ}

/-- Each block allocated so far is owned or has been freed, and that once. -/
def Accounted (allocs : ℕ) (owned freed : List ℕ) : Prop :=
  ∀ id, owned.count id + freed.count id = if id < allocs then 1 else 0

theorem accounted_zero : Accounted 0 [] [] := fun _ => rfl

/-- Blocks may change hands. -/
theorem Accounted.of_count (h : Accounted allocs owned freed)
    (hcount : ∀ id, owned'.count id + freed'.count id = owned.count id + freed.count id) :
    Accounted allocs owned' freed' :=
  fun id => (hcount id).trans (h id)

/-- A new block is owned. -/
theorem Accounted.alloc (h : Accounted allocs owned freed) :
    Accounted (allocs + 1) (owned ++ [allocs]) freed := by
  intro id
  have hid := h id
  rw [List.count_append, List.count_singleton]
  simp only [beq_iff_eq]
  split_ifs at hid ⊢ <;> omega

/-- No block is owned twice or freed twice, or owned and freed. -/
theorem Accounted.nodup (h : Accounted allocs owned freed) : (owned ++ freed).Nodup := by
  rw [List.nodup_iff_count_le_one]
  intro id
  rw [List.count_append, h id]
  split_ifs
  · exact Nat.le_refl 1
  · exact Nat.zero_le 1

end Blocks
