import Mathlib.Data.List.Basic
import Mathlib.Data.List.Infix

/-!
# Texts with delimiters

A text in which a delimiter stands is its pieces, each behind a delimiter but for the first one
(`Delimited.delimit`, `Delimited.cut`). A pattern that starts and ends with the delimiter can only
stand where pieces of the text do: the first place where it stands, and what is behind it, are
found among the pieces (`Delimited.after_delimit`).
-/

namespace Delimited

open List

variable {α : Type*} {d : α}

/-! ### Pieces -/

/-- Some pieces, each behind a delimiter. -/
def delimit (d : α) : List (List α) → List α
  | [] => []
  | p :: ps => d :: (p ++ delimit d ps)

@[simp] theorem delimit_nil : delimit d [] = [] := rfl

@[simp] theorem delimit_cons (p : List α) (ps : List (List α)) :
    delimit d (p :: ps) = d :: (p ++ delimit d ps) := rfl

theorem delimit_append (ps qs : List (List α)) :
    delimit d (ps ++ qs) = delimit d ps ++ delimit d qs := by
  induction ps with
  | nil => rfl
  | cons p ps ih => simp [ih]

/-- Some pieces, with delimiters in between. -/
def join (d : α) : List (List α) → List α
  | [] => []
  | p :: ps => p ++ delimit d ps

/-- The delimiter stands in none of the pieces. -/
def Clean (d : α) (ps : List (List α)) : Prop := ∀ p ∈ ps, d ∉ p

theorem Clean.head {p : List α} {ps : List (List α)} (h : Clean d (p :: ps)) : d ∉ p :=
  h p (mem_cons_self ..)

theorem Clean.tail {p : List α} {ps : List (List α)} (h : Clean d (p :: ps)) : Clean d ps :=
  fun q hq => h q (mem_cons_of_mem p hq)

theorem Clean.drop {ps : List (List α)} (h : Clean d ps) (n : ℕ) : Clean d (ps.drop n) :=
  fun q hq => h q (mem_of_mem_drop hq)

/-! ### Patterns of pieces -/

/-- Up to the first delimiter two texts must be the same. -/
theorem append_prefix_iff {k p x y : List α} (hk : d ∉ k) (hp : d ∉ p)
    (hy : y = [] ∨ ∃ z, y = d :: z) :
    k ++ d :: x <+: p ++ y ↔ k = p ∧ d :: x <+: y := by
  induction k generalizing p with
  | nil =>
    cases p with
    | nil => simp
    | cons b p =>
      rw [mem_cons, not_or] at hp
      simp [cons_prefix_cons, hp.1]
  | cons a k ih =>
    rw [mem_cons, not_or] at hk
    cases p with
    | nil =>
      rcases hy with rfl | ⟨z, rfl⟩
      · simp
      · simp [cons_prefix_cons, Ne.symm hk.1]
    | cons b p =>
      rw [mem_cons, not_or] at hp
      rw [cons_append, cons_append, cons_prefix_cons, ih hk.2 hp.2,
        List.cons.injEq, and_assoc]

theorem delimit_eq_nil_or (ps : List (List α)) :
    delimit d ps = [] ∨ ∃ z, delimit d ps = d :: z := by
  cases ps with
  | nil => exact .inl rfl
  | cons p ps => exact .inr ⟨_, rfl⟩

/-- A pattern of pieces stands at the start of a text if its pieces are the first ones, and not all
of them. -/
theorem delimit_prefix_iff {ks ps : List (List α)} (hks : Clean d ks) (hps : Clean d ps) :
    delimit d ks ++ [d] <+: delimit d ps ↔ ks <+: ps ∧ ks.length < ps.length := by
  induction ks generalizing ps with
  | nil => cases ps <;> simp
  | cons k ks ih =>
    cases ps with
    | nil => simp
    | cons p ps =>
      obtain ⟨x, hx⟩ : ∃ x, delimit d ks ++ [d] = d :: x := by
        rcases delimit_eq_nil_or (d := d) ks with h | ⟨z, h⟩ <;> rw [h]
        exacts [⟨[], rfl⟩, ⟨z ++ [d], rfl⟩]
      rw [delimit_cons, delimit_cons, cons_append, append_assoc, hx,
        cons_prefix_cons, append_prefix_iff hks.head hps.head (delimit_eq_nil_or ps), ← hx,
        ih hks.tail hps.tail, cons_prefix_cons, length_cons, length_cons]
      simp [and_assoc]

/-! ### Cutting a text -/

section Cut

variable [DecidableEq α]

/-- The pieces of a text. -/
def cut (d : α) : List α → List (List α)
  | [] => [[]]
  | a :: l =>
    if a = d then [] :: cut d l
    else
      match cut d l with
      | [] => [[a]]
      | p :: ps => (a :: p) :: ps

theorem cut_ne_nil (l : List α) : cut d l ≠ [] := by
  cases l with
  | nil => exact cons_ne_nil _ _
  | cons a l =>
    rw [cut]
    split
    · exact cons_ne_nil _ _
    · split <;> exact cons_ne_nil _ _

/-- The pieces make up the text. -/
theorem delimit_cut (l : List α) : delimit d (cut d l) = d :: l := by
  induction l with
  | nil => rfl
  | cons a l ih =>
    rw [cut]
    split_ifs with had
    · rw [delimit_cons, ih, had, nil_append]
    · rcases hc : cut d l with - | ⟨p, ps⟩
      · exact absurd hc (cut_ne_nil l)
      · rw [hc, delimit_cons, List.cons.injEq] at ih
        simp [ih.2]

theorem clean_cut (l : List α) : Clean d (cut d l) := by
  induction l with
  | nil => simp [cut, Clean]
  | cons a l ih =>
    rw [cut]
    split_ifs with had
    · exact forall_mem_cons.mpr ⟨not_mem_nil, ih⟩
    · rcases hc : cut d l with - | ⟨p, ps⟩
      · exact absurd hc (cut_ne_nil l)
      · rw [hc] at ih
        refine forall_mem_cons.mpr ⟨?_, ih.tail⟩
        rw [mem_cons, not_or]
        exact ⟨Ne.symm had, ih.head⟩

/-- A text without a delimiter is one piece. -/
theorem cut_of_not_mem {l : List α} (h : d ∉ l) : cut d l = [l] := by
  induction l with
  | nil => rfl
  | cons a l ih =>
    rw [mem_cons, not_or] at h
    rw [cut, if_neg (Ne.symm h.1), ih h.2]

/-! ### Where a pattern stands -/

/-- What is behind the first place in a text where a pattern stands. -/
def after (pat : List α) : List α → Option (List α)
  | [] => if pat = [] then some [] else none
  | a :: l => if pat <+: a :: l then some ((a :: l).drop pat.length) else after pat l

/-- What is behind the first place where some pieces stand, with a piece behind them. -/
def afterPieces (ks : List (List α)) : List (List α) → Option (List (List α))
  | [] => none
  | p :: ps =>
    if ks <+: p :: ps ∧ ks.length < (p :: ps).length then some ((p :: ps).drop ks.length)
    else afterPieces ks ps

theorem clean_of_afterPieces {ks ps rest : List (List α)} (hps : Clean d ps)
    (h : afterPieces ks ps = some rest) : Clean d rest := by
  induction ps with
  | nil => cases h
  | cons p ps ih =>
    rw [afterPieces] at h
    split_ifs at h with hpre
    · cases h
      exact hps.drop _
    · exact ih hps.tail h

/-- A pattern does not stand in a text that is shorter. -/
theorem after_eq_none_of_length {pat l : List α} (hne : pat ≠ []) (h : l.length < pat.length) :
    after pat l = none := by
  induction l with
  | nil => rw [after, if_neg hne]
  | cons a l ih =>
    rw [after, if_neg fun hpre => absurd hpre.length_le (by omega)]
    exact ih (by rw [length_cons] at h; omega)

/-- A text is skipped as far as there is no delimiter in it. -/
theorem after_append {pat p y : List α} (hp : d ∉ p) (hpat : ∃ z, pat = d :: z) :
    after pat (p ++ y) = after pat y := by
  induction p with
  | nil => rfl
  | cons b p ih =>
    rw [mem_cons, not_or] at hp
    obtain ⟨z, rfl⟩ := hpat
    rw [cons_append, after, if_neg (by simp [cons_prefix_cons, hp.1])]
    exact ih hp.2

/-- **What is behind a pattern of pieces in a text is found among the pieces of the text.** -/
theorem after_delimit {ks ps : List (List α)} (hks : Clean d ks) (hne : ks ≠ [])
    (hps : Clean d ps) :
    after (delimit d ks ++ [d]) (delimit d ps) = (afterPieces ks ps).map (join d) := by
  have hpat : ∃ z, delimit d ks ++ [d] = d :: z := by
    obtain ⟨k, ks', rfl⟩ := exists_cons_of_ne_nil hne
    exact ⟨_, rfl⟩
  induction ps with
  | nil =>
    obtain ⟨z, hz⟩ := hpat
    rw [hz]
    rfl
  | cons p ps ih =>
    rw [afterPieces]
    have hiff := delimit_prefix_iff hks hps
    rw [delimit_cons] at hiff ⊢
    rw [after]
    by_cases hpre : ks <+: p :: ps ∧ ks.length < (p :: ps).length
    · rw [if_pos (hiff.mpr hpre), if_pos hpre, Option.map_some, ← delimit_cons]
      obtain ⟨⟨rest, hrest⟩, hlt⟩ := hpre
      rw [← hrest, delimit_append, drop_left]
      rw [← hrest, length_append] at hlt
      obtain ⟨r, rs, rfl⟩ := exists_cons_of_ne_nil
        (ne_nil_of_length_pos (show 0 < rest.length by omega))
      rw [delimit_cons, append_cons (delimit d ks) d (r ++ delimit d rs), drop_left]
      rfl
    · rw [if_neg (mt hiff.mp hpre), if_neg hpre, after_append hps.head hpat]
      exact ih hps.tail

end Cut

end Delimited
