import Gd32Firmware.Lib.Chain

/-!
# Singly linked lists

`slist.c`: a list is a pointer to its first and to its last cell, and every cell carries a
pointer to the next one. The functions modelled are the ones the partition registry goes
through; they act on the two pointers and on the links, so a cell that is still linked can be
changed behind the back of its list. `IsList` is what the functions take a list to be, and
they keep it (`isList_pushBack`, `isList_extract`).
-/

namespace Gd32

open Chain List Function

/-- An address that is not null; a pointer is an `Option Ptr`. -/
abbrev Ptr := ℕ

/-- `struct list`. -/
structure SList where
  first : Option Ptr
  last : Option Ptr

/-- The `next` fields of the cells in memory. -/
abbrev Links := Ptr → Option Ptr

def listInit : SList := ⟨none, none⟩

/-- `list_push_back`. A list with a first cell and no last one makes it dereference the null
pointer, which is `none`. -/
def listPushBack (l : SList) (next : Links) (x : Ptr) : Option (SList × Links) :=
  match l.first, l.last with
  | none, _ => some (⟨some x, some x⟩, update next x none)
  | some f, some y =>
    some (⟨some f, some x⟩, update (update next y (some x)) x none)
  | some _, none => none

/-- `list_extract`. The search for the predecessor takes at most `hops` steps; `none` is a
search that runs in a circle. -/
def listExtract (hops : ℕ) (l : SList) (next : Links) (x : Ptr) : Option (SList × Links) :=
  match l.first with
  | none => some (l, next)
  | some f =>
    if f = x then some (⟨next f, if l.last = some f then none else l.last⟩, next)
    else
      (seek next x hops f).map fun s =>
        match next s with
        | none => (l, next)
        | some _ =>
          (⟨l.first, if l.last = some x then some s else l.last⟩,
            update next s (next x))

/-- The cells of the list are `xs`: the links visit them in this order, each once, and the last
pointer is at the last of them. The last pointer of an empty list can be anything. -/
structure Spells (next : Links) (l : SList) (xs : List Ptr) : Prop where
  chain : IsChain next l.first xs
  last_eq : xs ≠ [] → l.last = xs.getLast?
  nodup : xs.Nodup

/-- A function has made the list `xs` and has changed the links of the cells `own` only. -/
structure Makes (next : Links) (own : List Ptr) (r : SList × Links) (xs : List Ptr) : Prop where
  spells : Spells r.2 r.1 xs
  frame : ∀ y, y ∉ own → r.2 y = next y

/-- **The list holds the cells `xs`**: the links visit them in this order, each once, and the
last pointer is at the last of them. -/
structure IsList (next : Links) (l : SList) (xs : List Ptr) : Prop where
  chain : IsChain next l.first xs
  last_eq : l.last = xs.getLast?
  nodup : xs.Nodup

theorem isList_init (next : Links) : IsList next listInit [] := ⟨rfl, rfl, nodup_nil⟩

variable {next : Links} {l : SList} {xs ys : List Ptr} {s x y : Ptr} {hops : ℕ}

/-- The link of a cell that is not in the list does not matter. -/
theorem IsList.update (h : IsList next l xs) {x : Ptr}
    (hx : x ∉ xs) (v : Option Ptr) : IsList (update next x v) l xs :=
  ⟨h.chain.update hx v, h.last_eq, h.nodup⟩

theorem IsList.spells (h : IsList next l xs) : Spells next l xs :=
  ⟨h.chain, fun _ => h.last_eq, h.nodup⟩

theorem Spells.isList (h : Spells next l xs) (hlast : xs = [] → l.last = none) :
    IsList next l xs := by
  refine ⟨h.chain, ?_, h.nodup⟩
  rcases eq_or_ne xs [] with rfl | hne
  · exact hlast rfl
  · exact h.last_eq hne

/-- The links of cells that are not in the list do not matter. -/
theorem Spells.congr (h : Spells next l xs) {next' : Links} (hn : ∀ y ∈ xs, next' y = next y) :
    Spells next' l xs := ⟨h.chain.congr hn, h.last_eq, h.nodup⟩

theorem Spells.first_eq (h : Spells next l xs) : l.first = xs.head? := h.chain.start_eq

theorem Spells.notMem (h : Spells next l (xs ++ y :: ys)) : y ∉ xs ∧ y ∉ ys := by
  have hy : y ∉ xs ++ ys := (nodup_middle.mp h.nodup).notMem
  exact ⟨fun hm => hy (mem_append_left _ hm), fun hm => hy (mem_append_right _ hm)⟩

theorem getLast?_append_cons (xs ys : List Ptr) (y : Ptr) :
    (xs ++ y :: ys).getLast? = some (ys.getLast?.getD y) := by
  rw [List.getLast?_append, List.getLast?_cons, Option.some_or]

theorem Spells.last_append (h : Spells next l (xs ++ y :: ys)) :
    l.last = some (ys.getLast?.getD y) := by
  rw [h.last_eq (by simp), getLast?_append_cons]

/-- The last pointer is at a cell that has nothing behind it. -/
theorem Spells.last_eq_iff (h : Spells next l (xs ++ y :: ys)) : l.last = some y ↔ ys = [] := by
  rw [h.last_append, Option.some.injEq]
  rcases eq_nil_or_concat ys with rfl | ⟨zs, z, rfl⟩
  · simp
  · rw [concat_eq_append] at h ⊢
    rw [getLast?_append_cons]
    refine iff_of_false (fun e => h.notMem.2 ?_) (by simp)
    rw [← show z = y from e]
    simp

/-! ### A new last cell -/

/-- **Pushing a new cell.** -/
theorem Spells.pushBack (h : Spells next l xs) (hx : x ∉ xs) :
    ∃ r, listPushBack l next x = some r ∧ Makes next (x :: xs) r (xs ++ [x]) := by
  rcases eq_nil_or_concat xs with rfl | ⟨ys, y, rfl⟩
  · have hfirst : l.first = none := h.chain
    refine ⟨(⟨some x, some x⟩, update next x none), ?_, ?_, ?_⟩
    · simp only [listPushBack, hfirst]
    · refine ⟨⟨rfl, ?_⟩, fun _ => rfl, nodup_singleton x⟩
      exact update_self x none next
    · exact fun z hz => update_of_ne (ne_of_not_mem_cons hz) _ _
  · rw [concat_eq_append] at *
    obtain ⟨f, hf⟩ : ∃ f, l.first = some f := by
      rw [h.first_eq, List.head?_append]
      cases ys.head? with
      | none => exact ⟨y, rfl⟩
      | some a => exact ⟨a, rfl⟩
    have hlast : l.last = some y := h.last_append
    refine ⟨(⟨some f, some x⟩, update (update next y (some x)) x none), ?_,
      ⟨?_, ?_, ?_⟩, ?_⟩
    · simp only [listPushBack, hf, hlast]
    · exact hf ▸ h.chain.snoc h.nodup hx
    · exact fun _ => (getLast?_append_cons (ys ++ [y]) [] x).symm
    · exact nodup_append.mpr ⟨h.nodup, nodup_singleton x, by grind⟩
    · intro z hz
      have hzy : z ≠ y := fun e => hz (by simp [e])
      change update (update next y (some x)) x none z = next z
      rw [update_of_ne (ne_of_not_mem_cons hz), update_of_ne hzy]

theorem isList_pushBack (h : IsList next l xs)
    {x : Ptr} (hx : x ∉ xs) :
    ∃ r, listPushBack l next x = some r ∧ IsList r.2 r.1 (xs ++ [x]) := by
  obtain ⟨r, hr, hmakes⟩ := h.spells.pushBack hx
  exact ⟨r, hr, hmakes.spells.isList fun e => absurd e (by simp)⟩

/-! ### Taking a cell out -/

theorem Spells.listExtract_of_notMem (h : Spells next l xs) (hx : x ∉ xs)
    (hhops : xs.length ≤ hops) : listExtract hops l next x = some (l, next) := by
  cases xs with
  | nil => simp only [listExtract, show l.first = none from h.chain]
  | cons w ws =>
    obtain ⟨hfirst, -⟩ := h.chain.cons_inv
    have hwx : w ≠ x := fun e => hx (by simp [e])
    obtain ⟨s, hs, hend⟩ := (hfirst ▸ h.chain).seek_of_notMem hx hhops
    simp only [listExtract, hfirst, if_neg hwx, hs, Option.map_some, hend]

theorem Spells.listExtract_head (h : Spells next l (x :: xs)) :
    listExtract hops l next x =
      some (⟨next x, if l.last = some x then none else l.last⟩, next) := by
  simp only [listExtract, h.chain.cons_inv.1, if_true]

theorem Spells.listExtract_behind (h : Spells next l (xs ++ s :: x :: ys))
    (hhops : (xs ++ s :: x :: ys).length ≤ hops) :
    listExtract hops l next x =
      some (⟨l.first, if l.last = some x then some s else l.last⟩,
        update next s (next x)) := by
  have hx : x ∉ xs ++ [s] := by
    rw [← singleton_append, ← append_assoc] at h
    exact h.notMem.1
  have hs : s ≠ x := fun e => hx (by simp [e])
  obtain ⟨f, hf, hfx⟩ : ∃ f, l.first = some f ∧ f ≠ x := by
    rw [h.first_eq]
    cases xs with
    | nil => exact ⟨s, rfl, hs⟩
    | cons u us => exact ⟨u, rfl, fun e => hx (by simp [e])⟩
  have hlink : next s = some x := h.chain.behind.start_eq
  have hlen : xs.length < hops := by
    simp only [length_append, length_cons] at hhops
    omega
  simp only [listExtract, hf, if_neg hfx,
    (hf ▸ h.chain).seek_of_mem (fun hm => hx (mem_append_left _ hm)) hfx hs hlen,
    Option.map_some, hlink]

/-- A cell of a list is its first one or has one in front of it. -/
theorem eq_cons_or_eq_append_of_mem (hx : x ∈ xs) :
    (∃ ys, xs = x :: ys) ∨ ∃ as s ys, xs = as ++ s :: x :: ys := by
  obtain ⟨as, ys, rfl⟩ := append_of_mem hx
  rcases eq_nil_or_concat as with rfl | ⟨bs, s, rfl⟩
  · exact .inl ⟨ys, rfl⟩
  · exact .inr ⟨bs, s, ys, by simp⟩

/-- **Taking a cell out**; one that is not in the list leaves it as it is. -/
theorem Spells.extract (h : Spells next l xs) (x : Ptr) (hhops : xs.length ≤ hops) :
    ∃ r, listExtract hops l next x = some r ∧ Makes next xs r (xs.erase x) := by
  by_cases hx : x ∈ xs
  swap
  · rw [erase_of_not_mem hx]
    exact ⟨_, h.listExtract_of_notMem hx hhops, h, fun _ _ => rfl⟩
  have hnodup : (xs.erase x).Nodup := h.nodup.erase x
  rcases eq_cons_or_eq_append_of_mem hx with ⟨ys, rfl⟩ | ⟨as, s, ys, rfl⟩
  · -- the first cell goes
    rw [erase_cons_head] at *
    refine ⟨_, h.listExtract_head, ⟨h.chain.cons_inv.2, fun hne => ?_, hnodup⟩, fun _ _ => rfl⟩
    have hlast : l.last = (x :: ys).getLast? := h.last_eq (cons_ne_nil x ys)
    change (if l.last = some x then none else l.last) = _
    rw [if_neg fun e => hne ((show Spells next l ([] ++ x :: ys) from h).last_eq_iff.mp e), hlast]
    exact List.getLast?_cons_of_ne_nil hne
  · -- a later cell goes: the one in front of it is linked to the one behind it
    have hxs : x ∉ as ++ [s] := by
      rw [← singleton_append, ← append_assoc] at h
      exact h.notMem.1
    have herase : (as ++ s :: x :: ys).erase x = as ++ s :: ys := by
      rw [erase_append_right _ fun hm => hxs (mem_append_left _ hm),
        erase_cons_tail (by simpa using fun e : s = x => hxs (by simp [e])),
        erase_cons_head]
    rw [herase] at hnodup ⊢
    refine ⟨_, h.listExtract_behind hhops, ⟨h.chain.remove h.nodup, fun _ => ?_, hnodup⟩, ?_⟩
    · have h' : Spells next l ((as ++ [s]) ++ x :: ys) := by simpa using h
      have hiff : l.last = some x ↔ ys = [] := h'.last_eq_iff
      change (if l.last = some x then some s else l.last) = _
      rw [getLast?_append_cons]
      split_ifs with hlast
      · rw [hiff.mp hlast]
        rfl
      · rw [h.last_append, List.getLast?_cons]
        cases hy : ys.getLast? with
        | none => exact absurd (hiff.mpr (List.getLast?_eq_none_iff.mp hy)) hlast
        | some z => rfl
    · intro y hy
      exact update_of_ne (fun e => hy (by simp [e])) _ _

theorem isList_extract (h : IsList next l xs)
    (x : Ptr) {hops : ℕ} (hhops : xs.length ≤ hops) :
    ∃ r, listExtract hops l next x = some r ∧ IsList r.2 r.1 (xs.erase x) := by
  obtain ⟨r, hr, hmakes⟩ := h.spells.extract x hhops
  refine ⟨r, hr, hmakes.spells.isList fun hnil => ?_⟩
  rcases erase_eq_nil_iff.mp hnil with rfl | rfl
  · rw [h.spells.listExtract_of_notMem not_mem_nil hhops] at hr
    obtain rfl := Option.some.inj hr
    exact h.last_eq
  · rw [h.spells.listExtract_head] at hr
    obtain rfl := Option.some.inj hr
    exact if_pos h.last_eq

end Gd32
