import Mathlib.Tactic.Common

/-!
# Tables searched from the front

A table is a list of slots. What is looked for is the first slot that satisfies a test, and what is
done to it replaces it in place (`Table.modifyFirst`); the other slots stay.
-/

namespace Table

open List

variable {α : Type*} {p : α → Bool} {f : α → α} {l l' : List α} {a : α}

/-- The first element that satisfies `p`, and the list with `f` applied to it. -/
def modifyFirst (p : α → Bool) (f : α → α) : List α → Option (α × List α)
  | [] => none
  | a :: l => if p a then some (a, f a :: l) else (modifyFirst p f l).map fun r => (r.1, a :: r.2)

/-- Nothing is found when no element satisfies the test. -/
theorem modifyFirst_eq_none : modifyFirst p f l = none ↔ ∀ a ∈ l, p a = false := by
  induction l with
  | nil => simp [modifyFirst]
  | cons b l ih =>
    rw [modifyFirst]
    by_cases hb : p b
    · simp [hb]
    · simp [hb, ih]

/-- **What is found** satisfies the test and is the element that is replaced. -/
theorem modifyFirst_eq_some (h : modifyFirst p f l = some (a, l')) :
    p a = true ∧ ∃ before after, l = before ++ a :: after ∧ l' = before ++ f a :: after := by
  induction l generalizing l' with
  | nil => cases h
  | cons b l ih =>
    rw [modifyFirst] at h
    by_cases hb : p b
    · rw [if_pos hb] at h
      cases h
      exact ⟨hb, [], l, rfl, rfl⟩
    · rw [if_neg hb, Option.map_eq_some_iff] at h
      obtain ⟨⟨c, m⟩, hm, hcm⟩ := h
      simp only [Prod.mk.injEq] at hcm
      obtain ⟨rfl, rfl⟩ := hcm
      obtain ⟨hp, before, after, rfl, rfl⟩ := ih hm
      exact ⟨hp, b :: before, after, rfl, rfl⟩

theorem mem_of_modifyFirst (h : modifyFirst p f l = some (a, l')) : a ∈ l := by
  obtain ⟨-, before, after, rfl, -⟩ := modifyFirst_eq_some h
  exact mem_append_right _ mem_cons_self

/-- Every element afterwards was there before or is the new one. -/
theorem mem_or_eq_of_modifyFirst (h : modifyFirst p f l = some (a, l')) {b : α} (hb : b ∈ l') :
    b ∈ l ∨ b = f a := by
  obtain ⟨-, before, after, rfl, rfl⟩ := modifyFirst_eq_some h
  simp only [mem_append, mem_cons] at hb ⊢
  tauto

/-- Every element from before is still there or is the one replaced. -/
theorem mem_modifyFirst_or_eq (h : modifyFirst p f l = some (a, l')) {b : α} (hb : b ∈ l) :
    b ∈ l' ∨ b = a := by
  obtain ⟨-, before, after, rfl, rfl⟩ := modifyFirst_eq_some h
  simp only [mem_append, mem_cons] at hb ⊢
  tauto

/-- The new element is there afterwards. -/
theorem mem_modifyFirst (h : modifyFirst p f l = some (a, l')) : f a ∈ l' := by
  obtain ⟨-, before, after, rfl, rfl⟩ := modifyFirst_eq_some h
  exact mem_append_right _ mem_cons_self

/-- What is found in an image of a list is the image of what is found in the list. -/
theorem modifyFirst_map {β : Type*} {q : β → Bool} {f' : β → β} (g : α → β)
    (hp : ∀ a, q (g a) = p a) (hf : ∀ a, f' (g a) = g (f a)) (l : List α) :
    modifyFirst q f' (l.map g) = (modifyFirst p f l).map fun r => (g r.1, r.2.map g) := by
  induction l with
  | nil => rfl
  | cons b l ih =>
    rw [map_cons, modifyFirst, modifyFirst, hp, hf]
    split
    · rfl
    · rw [ih, Option.map_map, Option.map_map]
      rfl

/-- What is replaced is what is found. -/
theorem find?_of_modifyFirst (h : modifyFirst p f l = some (a, l')) : l.find? p = some a := by
  induction l generalizing l' with
  | nil => cases h
  | cons b l ih =>
    rw [modifyFirst] at h
    by_cases hb : p b
    · rw [if_pos hb] at h
      cases h
      exact List.find?_cons_of_pos hb
    · rw [if_neg hb, Option.map_eq_some_iff] at h
      obtain ⟨⟨c, m⟩, hm, hcm⟩ := h
      simp only [Prod.mk.injEq] at hcm
      obtain ⟨rfl, rfl⟩ := hcm
      rw [List.find?_cons_of_neg hb]
      exact ih hm

/-! ### Replacing whether or not something is found -/

/-- The list with `f` applied to the first element that satisfies `p`, if there is one. -/
def update (p : α → Bool) (f : α → α) (l : List α) : List α :=
  ((modifyFirst p f l).map Prod.snd).getD l

/-- Nothing satisfies the test, or the first element that does is replaced. -/
theorem update_cases (p : α → Bool) (f : α → α) (l : List α) :
    (l.filter p = [] ∧ update p f l = l) ∨
      ∃ a before after, p a = true ∧ l = before ++ a :: after ∧
        update p f l = before ++ f a :: after := by
  cases h : modifyFirst p f l with
  | none =>
    left
    refine ⟨filter_eq_nil_iff.mpr fun a ha => ?_, by rw [update, h]; rfl⟩
    rw [modifyFirst_eq_none.mp h a ha]
    decide
  | some r =>
    right
    obtain ⟨ha, before, after, hl, hl'⟩ := modifyFirst_eq_some (a := r.1) h
    exact ⟨r.1, before, after, ha, hl, by rw [update, h]; exact hl'⟩

/-- Every element afterwards was there before or is a new one. -/
theorem mem_update {b : α} (hb : b ∈ update p f l) : b ∈ l ∨ ∃ a ∈ l, p a = true ∧ b = f a := by
  rcases update_cases p f l with ⟨-, h⟩ | ⟨a, before, after, ha, rfl, h⟩
  · rw [h] at hb
    exact Or.inl hb
  · rw [h] at hb
    simp only [mem_append, mem_cons] at hb ⊢
    rcases hb with hb | rfl | hb
    · exact Or.inl (Or.inl hb)
    · exact Or.inr ⟨a, Or.inr (Or.inl rfl), ha, rfl⟩
    · exact Or.inl (Or.inr (Or.inr hb))

/-- Every element afterwards was there before or comes from what is found. -/
theorem mem_update_found {b : α} (hb : b ∈ update p f l) :
    b ∈ l ∨ ∃ a, l.find? p = some a ∧ b = f a := by
  cases h : modifyFirst p f l with
  | none =>
    rw [update, h] at hb
    exact .inl hb
  | some r =>
    rw [update, h] at hb
    rcases mem_or_eq_of_modifyFirst (a := r.1) h hb with hb | rfl
    · exact .inl hb
    · exact .inr ⟨r.1, find?_of_modifyFirst h, rfl⟩

/-- What the replacement does not touch stays. -/
theorem filter_update_of_not {q : α → Bool} (hq : ∀ a, p a = true → q a = false)
    (hf : ∀ a, p a = true → q (f a) = false) : (update p f l).filter q = l.filter q := by
  rcases update_cases p f l with ⟨-, h⟩ | ⟨a, before, after, ha, rfl, h⟩
  · rw [h]
  · rw [h, filter_append, filter_append,
      filter_cons_of_neg (by rw [hf a ha]; decide),
      filter_cons_of_neg (by rw [hq a ha]; decide)]

/-- The only element that satisfies the test is the one replaced. -/
theorem filter_update_self {b : α} (hf : ∀ a, p a = true → p (f a) = true)
    (hb : l.filter p = [b]) : (update p f l).filter p = [f b] := by
  rcases update_cases p f l with ⟨hnil, -⟩ | ⟨a, before, after, ha, rfl, h⟩
  · rw [hnil] at hb
    cases hb
  · rw [filter_append, filter_cons_of_pos ha, append_eq_singleton_iff] at hb
    rcases hb with ⟨hbefore, hcons⟩ | ⟨-, hcons⟩
    · rw [List.cons.injEq] at hcons
      obtain ⟨rfl, hafter⟩ := hcons
      rw [h, filter_append, filter_cons_of_pos (hf a ha), hbefore, hafter]
      rfl
    · cases hcons

/-- Nothing is replaced when nothing satisfies the test. -/
theorem update_of_filter_eq_nil (h : l.filter p = []) : update p f l = l := by
  rcases update_cases p f l with ⟨-, hl⟩ | ⟨a, before, after, ha, rfl, -⟩
  · exact hl
  · rw [filter_append, filter_cons_of_pos ha] at h
    exact absurd h (by simp)

/-- The element found is the only one that satisfies the test. -/
theorem find?_of_filter {b : α} (hb : l.filter p = [b]) : l.find? p = some b := by
  rw [← List.head?_filter, hb]
  rfl

/-- Nothing is found when nothing satisfies the test. -/
theorem find?_of_filter_nil (h : l.filter p = []) : l.find? p = none := by
  rw [← List.head?_filter, h]
  rfl

/-- What is deleted is the only element that satisfies the test. -/
theorem filter_eraseP_self {b : α} (hb : l.filter p = [b]) : (l.eraseP p).filter p = [] := by
  induction l with
  | nil => rfl
  | cons a l ih =>
    by_cases ha : p a = true
    · rw [filter_cons_of_pos ha, List.cons.injEq] at hb
      rw [eraseP_cons_of_pos ha, hb.2]
    · rw [filter_cons_of_neg ha] at hb
      rw [eraseP_cons_of_neg ha, filter_cons_of_neg ha, ih hb]

theorem filter_eraseP_of_not {q : α → Bool} (hq : ∀ a, p a = true → q a = false) :
    (l.eraseP p).filter q = l.filter q := by
  induction l with
  | nil => rfl
  | cons a l ih =>
    by_cases ha : p a = true
    · rw [eraseP_cons_of_pos ha, filter_cons_of_neg (by rw [hq a ha]; decide)]
    · rw [eraseP_cons_of_neg ha, filter_cons, filter_cons, ih]

end Table
