import Mathlib.Data.List.Basic
import Mathlib.Data.List.Nodup
import Mathlib.Logic.Function.Basic

/-!
# Chains of pointers

A singly linked list in memory is a start pointer and a link from each cell to the
next one. `Chain.IsChain next p xs` says that following the links from `p` visits
exactly the cells `xs`, in order, and then stops. The lemmas say what a change of
one link does to a chain, and what a walk along one finds; a walk over links that
may run in a circle takes a bound on the number of hops.
-/

namespace Chain

open List Function

variable {α : Type} {next : α → Option α}

/-- Following `next` from `p` visits the cells `xs` and stops. -/
def IsChain (next : α → Option α) : Option α → List α → Prop
  | p, [] => p = none
  | p, x :: xs => p = some x ∧ IsChain next (next x) xs

variable {p : Option α} {x : α} {xs ys : List α} {n : ℕ}

theorem IsChain.cons_inv (h : IsChain next p (x :: xs)) :
    p = some x ∧ IsChain next (next x) xs := h

theorem IsChain.of_none (h : IsChain next none xs) : xs = [] := by
  cases xs with
  | nil => rfl
  | cons x xs => exact absurd h.1 (by simp)

theorem IsChain.of_some (h : IsChain next (some x) xs) :
    ∃ ys, xs = x :: ys ∧ IsChain next (next x) ys := by
  cases xs with
  | nil => exact absurd h (by simp [IsChain])
  | cons y ys =>
    obtain ⟨hxy, hys⟩ := h
    cases hxy
    exact ⟨ys, rfl, hys⟩

/-- **A chain is determined by its start.** -/
theorem IsChain.unique (hx : IsChain next p xs)
    (hy : IsChain next p ys) : xs = ys := by
  induction xs generalizing p ys with
  | nil =>
    cases hx
    exact hy.of_none.symm
  | cons x xs ih =>
    obtain ⟨rfl, hx⟩ := hx
    obtain ⟨zs, rfl, hz⟩ := hy.of_some
    rw [ih hx hz]

theorem IsChain.start_eq (h : IsChain next p xs) : p = xs.head? := by
  cases xs with
  | nil => exact h
  | cons x xs => exact h.1

/-- A chain depends on the links of its cells only. -/
theorem IsChain.congr (h : IsChain next p xs) {next' : α → Option α}
    (hn : ∀ x ∈ xs, next' x = next x) : IsChain next' p xs := by
  induction xs generalizing p with
  | nil => exact h
  | cons x xs ih =>
    refine ⟨h.1, ?_⟩
    rw [hn x mem_cons_self]
    exact ih h.2 fun y hy => hn y (mem_cons_of_mem _ hy)

/-- What is behind a cell of a chain. -/
theorem IsChain.behind {s : α} (h : IsChain next p (xs ++ s :: ys)) : IsChain next (next s) ys := by
  induction xs generalizing p with
  | nil => exact h.2
  | cons x xs ih => exact ih h.2

section Links

variable [DecidableEq α]

/-- The link of a cell that is not visited does not matter. -/
theorem IsChain.update (h : IsChain next p xs) {y : α} (hy : y ∉ xs)
    (v : Option α) : IsChain (Function.update next y v) p xs := by
  refine h.congr fun x hx => ?_
  have hne : x ≠ y := fun e => hy (e ▸ hx)
  exact update_of_ne hne _ _

/-- Hang a new cell behind the last one. -/
theorem IsChain.snoc {y z : α} (h : IsChain next p (xs ++ [y]))
    (hnd : (xs ++ [y]).Nodup) (hz : z ∉ xs ++ [y]) :
    IsChain (Function.update (Function.update next y (some z)) z none) p (xs ++ [y] ++ [z]) := by
  induction xs generalizing p with
  | nil =>
    have hyz : y ≠ z := fun e => hz (by simp [e])
    refine ⟨h.1, ?_⟩
    rw [update_of_ne hyz, update_self]
    exact ⟨rfl, by rw [update_self]; rfl⟩
  | cons x xs ih =>
    have hxz : x ≠ z := fun e => hz (by simp [e])
    have hxy : x ≠ y := by
      rintro rfl
      simp at hnd
    refine ⟨h.1, ?_⟩
    rw [update_of_ne hxz, update_of_ne hxy]
    exact ih h.2 (nodup_cons.mp hnd).2 fun hm => hz (by
      exact mem_cons_of_mem _ hm)

/-- **Link a cell to another chain**, which takes the place of what was behind it. -/
theorem IsChain.relink {s : α} {q : Option α} {zs : List α}
    (h : IsChain next p (xs ++ s :: ys)) (hxs : s ∉ xs) (hz : IsChain next q zs) (hzs : s ∉ zs) :
    IsChain (Function.update next s q) p (xs ++ s :: zs) := by
  induction xs generalizing p with
  | nil =>
    refine ⟨h.1, ?_⟩
    rw [update_self]
    exact hz.update hzs q
  | cons x xs ih =>
    have hxs' : x ≠ s := fun e => hxs (by simp [e])
    refine ⟨h.1, ?_⟩
    rw [update_of_ne hxs']
    exact ih h.2 fun hm => hxs (mem_cons_of_mem _ hm)

/-- Take a cell out by linking its predecessor to its successor. -/
theorem IsChain.remove {s : α}
    (h : IsChain next p (xs ++ s :: x :: ys)) (hnd : (xs ++ s :: x :: ys).Nodup) :
    IsChain (Function.update next s (next x)) p (xs ++ s :: ys) := by
  have hs : s ∉ xs ++ x :: ys := (nodup_middle.mp hnd).notMem
  have hx : IsChain next (next x) ys := h.behind.2
  refine h.relink (fun hm => hs ?_) hx fun hm => hs ?_
  · exact mem_append_left _ hm
  · exact mem_append_right _ (mem_cons_of_mem _ hm)

/-- A new cell in front. -/
theorem IsChain.push (h : IsChain next p xs) {z : α} (hz : z ∉ xs) :
    IsChain (Function.update next z p) (some z) (z :: xs) := by
  refine ⟨rfl, ?_⟩
  rw [update_self]
  exact h.update hz p

/-- Put a new cell in behind another one. -/
theorem IsChain.insert {s z : α} (h : IsChain next p (xs ++ s :: ys)) (hxs : s ∉ xs) (hys : s ∉ ys)
    (hz : z ∉ xs ++ s :: ys) :
    IsChain (Function.update (Function.update next z (next s)) s (some z)) p
      (xs ++ s :: z :: ys) := by
  have hzs : s ≠ z := fun e => hz (by simp [e])
  have hzys : z ∉ ys := fun hm => hz (by simp [hm])
  refine (h.update hz (next s)).relink hxs (h.behind.push hzys) fun hm => ?_
  rcases mem_cons.mp hm with e | hm
  · exact hzs e
  · exact hys hm

end Links

/-! ### Walks -/

/-- Follow the links, at most so many hops, to the first cell that satisfies `stop`; the
inner `none` is the end of the chain and the outer one a walk that did not get there. -/
def scan (next : α → Option α) (stop : α → Bool) : ℕ → Option α → Option (Option α)
  | _, none => some none
  | 0, some _ => none
  | n + 1, some x => if stop x then some (some x) else scan next stop n (next x)

/-- **A walk along a chain is a search in its list of cells.** -/
theorem IsChain.scan_eq (h : IsChain next p xs) (stop : α → Bool) (hn : xs.length ≤ n) : scan next stop n p = some (xs.find? stop) := by
  induction xs generalizing p n with
  | nil =>
    cases h
    cases n <;> rfl
  | cons x xs ih =>
    obtain ⟨rfl, h⟩ := h
    obtain ⟨m, rfl⟩ : ∃ m, n = m + 1 := ⟨n - 1, by simp only [length_cons] at hn; omega⟩
    rw [scan]
    by_cases hx : stop x = true
    · rw [if_pos hx, List.find?_cons_of_pos hx]
    · rw [if_neg hx, List.find?_cons_of_neg hx]
      exact ih h (by simpa using hn)

/-- The same walk with the cell before the current one; `prev` is the one before the start. -/
def scanPrev (next : α → Option α) (stop : α → Bool) :
    ℕ → Option α → Option α → Option (Option α × Option α)
  | _, prev, none => some (prev, none)
  | 0, _, some _ => none
  | n + 1, prev, some x =>
    if stop x then some (prev, some x) else scanPrev next stop n (some x) (next x)

/-- **The walk splits the chain** at the first cell that satisfies `stop`. -/
theorem IsChain.scanPrev_eq {prev : Option α} {stop : α → Bool} (h : IsChain next p (xs ++ ys))
    (hxs : ∀ x ∈ xs, stop x = false) (hys : ∀ y ∈ ys.head?, stop y = true)
    (hn : (xs ++ ys).length ≤ n) :
    scanPrev next stop n prev p = some (xs.getLast?.or prev, ys.head?) := by
  induction xs generalizing p prev n with
  | nil =>
    cases ys with
    | nil =>
      cases h
      cases n <;> rfl
    | cons y ys =>
      obtain ⟨rfl, -⟩ := h
      obtain ⟨m, rfl⟩ : ∃ m, n = m + 1 := ⟨n - 1, by simp at hn; omega⟩
      rw [scanPrev, if_pos (hys y rfl)]
      rfl
  | cons x xs ih =>
    obtain ⟨rfl, h⟩ := h
    obtain ⟨m, rfl⟩ : ∃ m, n = m + 1 := ⟨n - 1, by simp at hn; omega⟩
    rw [scanPrev, if_neg (by simp [hxs x mem_cons_self]),
      ih h (fun y hy => hxs y (mem_cons_of_mem _ hy)) (by simpa using hn), List.getLast?_cons]
    cases xs.getLast? <;> rfl

/-- The number of cells on a walk. -/
def count (next : α → Option α) : ℕ → Option α → Option ℕ
  | _, none => some 0
  | 0, some _ => none
  | n + 1, some x => (count next n (next x)).map (· + 1)

theorem IsChain.count_eq (h : IsChain next p xs) (hn : xs.length ≤ n) :
    count next n p = some xs.length := by
  induction xs generalizing p n with
  | nil =>
    cases h
    cases n <;> rfl
  | cons x xs ih =>
    obtain ⟨rfl, h⟩ := h
    obtain ⟨m, rfl⟩ : ∃ m, n = m + 1 := ⟨n - 1, by simp only [length_cons] at hn; omega⟩
    rw [count, ih h (by simpa using hn)]
    rfl

/-- **The cell in front of `x`** is the first one whose link leads to it. -/
theorem IsChain.find?_next [DecidableEq α] {s : α} (h : IsChain next p (xs ++ s :: x :: ys))
    (hx : x ∉ xs ++ [s]) :
    (xs ++ s :: x :: ys).find? (fun y => next y == some x) = some s := by
  induction xs generalizing p with
  | nil => exact List.find?_cons_of_pos (by simp [h.2.1])
  | cons z xs ih =>
    have hzx : next z ≠ some x := by
      cases xs with
      | nil => simpa [h.2.1] using fun e : s = x => hx (by simp [e])
      | cons u us => simpa [h.2.1] using fun e : u = x => hx (by simp [e])
    rw [cons_append, List.find?_cons_of_neg (by simpa using hzx)]
    exact ih h.2 fun hm => hx (mem_cons_of_mem _ hm)

/-- No link of a chain leads to a cell that is not in it. -/
theorem IsChain.find?_next_of_notMem [DecidableEq α] (h : IsChain next p xs) (hx : x ∉ xs) :
    xs.find? (fun y => next y == some x) = none := by
  induction xs generalizing p with
  | nil => rfl
  | cons z xs ih =>
    have hzx : next z ≠ some x := by
      cases xs with
      | nil => simp [show next z = none from h.2]
      | cons u us => simpa [h.2.1] using fun e : u = x => hx (by simp [e])
    rw [List.find?_cons_of_neg (by simpa using hzx)]
    exact ih h.2 fun hm => hx (mem_cons_of_mem _ hm)

/-- Follow the links from `s`, at most so many hops, to the cell in front of `x` or to the
last cell. -/
def seek [DecidableEq α] (next : α → Option α) (x : α) : ℕ → α → Option α
  | 0, _ => none
  | n + 1, s =>
    match next s with
    | none => some s
    | some t => if t = x then some s else seek next x n t

theorem IsChain.seek_of_mem [DecidableEq α] {s w : α}
    (h : IsChain next (some w) (xs ++ s :: x :: ys)) (hx : x ∉ xs) (hw : w ≠ x) (hs : s ≠ x) (hn : xs.length < n) : seek next x n w = some s := by
  induction xs generalizing w n with
  | nil =>
    obtain ⟨hp, hs', -⟩ := h
    cases hp
    obtain ⟨m, rfl⟩ : ∃ m, n = m + 1 := ⟨n - 1, by omega⟩
    rw [seek, hs']
    exact if_pos rfl
  | cons z xs ih =>
    obtain ⟨hp, hrest⟩ := h.cons_inv
    cases hp
    obtain ⟨m, rfl⟩ : ∃ m, n = m + 1 := ⟨n - 1, by simp only [length_cons] at hn; omega⟩
    -- the next cell is the head of what is left, which is not `x`
    obtain ⟨t, ht, htx⟩ : ∃ t, next z = some t ∧ t ≠ x := by
      cases xs with
      | nil => exact ⟨s, hrest.1, hs⟩
      | cons u us => exact ⟨u, hrest.1, fun e => hx (by simp [e])⟩
    rw [seek, ht]
    rw [ht] at hrest
    simp only [if_neg htx]
    exact ih hrest (fun hm => hx (by simp [hm])) htx (by simpa using hn)

theorem IsChain.seek_of_notMem [DecidableEq α] {w : α}
    (h : IsChain next (some w) xs) (hx : x ∉ xs) (hn : xs.length ≤ n) :
    ∃ s, seek next x n w = some s ∧ next s = none := by
  induction xs generalizing w n with
  | nil => exact absurd h (by simp [IsChain])
  | cons z xs ih =>
    obtain ⟨hp, hrest⟩ := h.cons_inv
    cases hp
    obtain ⟨m, rfl⟩ : ∃ m, n = m + 1 := ⟨n - 1, by simp only [length_cons] at hn; omega⟩
    rw [seek]
    cases xs with
    | nil =>
      rw [show next z = none from hrest]
      exact ⟨z, rfl, hrest⟩
    | cons u us =>
      rw [hrest.1]
      rw [hrest.1] at hrest
      have hux : u ≠ x := fun e => hx (by simp [e])
      simp only [if_neg hux]
      exact ih hrest (fun hm => hx (by simp [hm])) (by simpa using hn)

end Chain
