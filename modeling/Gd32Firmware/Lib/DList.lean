import Mathlib.Data.List.Chain
import Mathlib.Data.List.Nodup
import Mathlib.Logic.Function.Basic

/-!
# Circular doubly linked lists

Cells with a link forwards and a link backwards, and one cell among them that is the head: the
links lead from the head through the cells of the list and back to it. Read once around, the
cells form the list `h :: xs ++ [h]`, and `DList.IsRing` says that every two neighbours of it
are linked both ways. Each operation changes the links between two neighbours, so its lemma
cuts that list there; that the head stands at both of its ends is the only thing to be careful
about.
-/

namespace DList

open List Function

variable {α : Type}

/-- The links of the cells in memory. -/
structure Links (α : Type) where
  next : α → α
  prev : α → α

/-- Two cells linked both ways. -/
def Links.Joins (l : Links α) (a b : α) : Prop := l.next a = b ∧ l.prev b = a

/-- **The cells `xs` hang between the head and itself**, each once. -/
structure IsRing (l : Links α) (h : α) (xs : List α) : Prop where
  chain : List.IsChain l.Joins (h :: xs ++ [h])
  nodup : (h :: xs).Nodup

/-- A chain needs the forward links of all its cells but the last and the backward links of all
but the first. -/
theorem isChain_congr {l l' : Links α} {c : List α} (h : List.IsChain l.Joins c)
    (hn : ∀ a ∈ c.dropLast, l'.next a = l.next a) (hp : ∀ b ∈ c.tail, l'.prev b = l.prev b) :
    List.IsChain l'.Joins c := by
  induction h with
  | nil => exact .nil
  | singleton a => exact .singleton a
  | @cons_cons a b cs hab hcs ih =>
    refine .cons_cons ⟨?_, ?_⟩ (ih (fun x hx => hn x ?_) (fun x hx => hp x ?_))
    · rw [hn a (by simp), hab.1]
    · rw [hp b (by simp), hab.2]
    · simp only [dropLast_cons_cons, mem_cons]
      exact .inr hx
    · simp only [tail_cons, mem_cons]
      exact .inr hx

/-- A cell outside the ring can be changed at will. -/
theorem IsRing.congr {l l' : Links α} {h : α} {xs : List α} (hr : IsRing l h xs)
    (hn : ∀ a ∈ h :: xs, l'.next a = l.next a) (hp : ∀ a ∈ h :: xs, l'.prev a = l.prev a) :
    IsRing l' h xs := by
  refine ⟨isChain_congr hr.chain (fun a ha => hn a ?_) (fun a ha => hp a ?_), hr.nodup⟩
  · rwa [dropLast_concat] at ha
  · simp only [cons_append, tail_cons, mem_append, mem_singleton] at ha
    rcases ha with ha | rfl
    · exact mem_cons_of_mem _ ha
    · exact mem_cons_self

/-! ### Cutting the round at two neighbours -/

/-- In a round no cell but the head stands twice. -/
theorem round_split {h : α} {xs us vs : List α} {p s : α} (hnd : (h :: xs).Nodup)
    (hc : h :: xs ++ [h] = us ++ p :: s :: vs) :
    p ∉ us ∧ s ∉ (us ++ [p]).tail ∧ p ∉ (s :: vs).dropLast ∧ s ∉ vs := by
  have hfront : (us ++ p :: s :: vs).dropLast.Nodup := by
    rw [← hc, dropLast_concat]
    exact hnd
  have hback : (us ++ p :: s :: vs).tail.Nodup := by
    rw [← hc, cons_append, tail_cons]
    exact (perm_append_singleton h xs).nodup_iff.mpr hnd
  rw [dropLast_append_of_ne_nil (by simp), dropLast_cons_cons, nodup_append,
    nodup_cons] at hfront
  refine ⟨fun hp => hfront.2.2 p hp p (by simp) rfl, ?_, hfront.2.1.1, ?_⟩
  · cases us with
    | nil => simp
    | cons u us =>
      simp only [cons_append, tail_cons] at hback ⊢
      rw [show us ++ p :: s :: vs = (us ++ [p]) ++ s :: vs by simp, nodup_append] at hback
      exact fun hs => hback.2.2 s hs s (by simp) rfl
  · cases us with
    | nil =>
      simp only [nil_append, tail_cons, nodup_cons] at hback
      exact hback.1
    | cons u us =>
      simp only [cons_append, tail_cons] at hback
      rw [show us ++ p :: s :: vs = (us ++ [p]) ++ s :: vs by simp, nodup_append,
        nodup_cons] at hback
      exact hback.2.1.1

/-- A cell more in a round is a cell more in the list. -/
theorem round_perm {h n : α} {xs xs' us vs : List α} {p s : α}
    (hc : h :: xs ++ [h] = us ++ p :: s :: vs)
    (hc' : h :: xs' ++ [h] = us ++ p :: n :: s :: vs) : (h :: xs').Perm (n :: h :: xs) := by
  refine (perm_append_right_iff [h]).mp ?_
  rw [show n :: h :: xs ++ [h] = n :: (h :: xs ++ [h]) from rfl, hc, hc',
    show us ++ p :: n :: s :: vs = us ++ [p] ++ n :: s :: vs by simp,
    show us ++ p :: s :: vs = us ++ [p] ++ s :: vs by simp]
  exact perm_middle

/-! ### The operations -/

variable [DecidableEq α]

/-- Set the forward link of a cell. -/
def Links.setNext (l : Links α) (a b : α) : Links α := { l with next := update l.next a b }

/-- Set the backward link of a cell. -/
def Links.setPrev (l : Links α) (a b : α) : Links α := { l with prev := update l.prev a b }

@[simp] theorem Links.setNext_next (l : Links α) (a b : α) :
    (l.setNext a b).next = update l.next a b := rfl

@[simp] theorem Links.setNext_prev (l : Links α) (a b : α) : (l.setNext a b).prev = l.prev := rfl

@[simp] theorem Links.setPrev_prev (l : Links α) (a b : α) :
    (l.setPrev a b).prev = update l.prev a b := rfl

@[simp] theorem Links.setPrev_next (l : Links α) (a b : α) : (l.setPrev a b).next = l.next := rfl

/-- A cell that points to itself both ways. -/
def Links.alone (l : Links α) (h : α) : Links α := (l.setNext h h).setPrev h h

/-- Put a cell between two others. -/
def Links.insert (l : Links α) (new pred succ : α) : Links α :=
  (((l.setPrev succ new).setNext new succ).setPrev new pred).setNext pred new

/-- Link two cells, past what is between them. -/
def Links.bypass (l : Links α) (pred succ : α) : Links α :=
  (l.setPrev succ pred).setNext pred succ

theorem isRing_alone (l : Links α) (h : α) : IsRing (l.alone h) h [] := by
  refine ⟨.cons_cons ⟨?_, ?_⟩ (.singleton h), nodup_singleton h⟩
  · simp [Links.alone]
  · simp [Links.alone]

/-- **A new cell between two neighbours.** -/
theorem IsRing.insert {l : Links α} {h n : α} {xs xs' : List α} {p s : α}
    (hr : IsRing l h xs) (hn : n ∉ h :: xs) (us vs : List α)
    (hc : h :: xs ++ [h] = us ++ p :: s :: vs)
    (hc' : h :: xs' ++ [h] = us ++ p :: n :: s :: vs) : IsRing (l.insert n p s) h xs' := by
  obtain ⟨hp1, hs1, hp2, hs2⟩ := round_split hr.nodup hc
  have hall : ∀ a ∈ us ++ p :: s :: vs, a ≠ n := by
    rintro a ha rfl
    rw [← hc] at ha
    simp only [mem_append, mem_singleton] at ha
    rcases ha with ha | rfl
    · exact hn ha
    · exact hn mem_cons_self
  have hpn : p ≠ n := hall p (by simp)
  have hsn : s ≠ n := hall s (by simp)
  have hchain := hr.chain
  rw [hc, isChain_append_cons_cons] at hchain
  obtain ⟨hfront, -, hback⟩ := hchain
  refine ⟨?_, ?_⟩
  · rw [hc', isChain_append_cons_cons, isChain_cons_cons]
    refine ⟨isChain_congr hfront (fun a ha => ?_) (fun b hb => ?_), ⟨?_, ?_⟩, ⟨?_, ?_⟩,
      isChain_congr hback (fun a ha => ?_) (fun b hb => ?_)⟩
    · rw [dropLast_concat] at ha
      have hap : a ≠ p := fun e => hp1 (e ▸ ha)
      simp [Links.insert, update_of_ne hap, update_of_ne (hall a (by simp [ha]))]
    · have hbs : b ≠ s := fun e => hs1 (e ▸ hb)
      have hb' : b ∈ us ++ [p] := mem_of_mem_tail hb
      have hbn : b ≠ n := hall b (by
        simp only [mem_append, mem_singleton] at hb'
        rcases hb' with hb' | rfl <;> simp_all)
      simp [Links.insert, update_of_ne hbs, update_of_ne hbn]
    · simp [Links.insert]
    · simp [Links.insert]
    · simp [Links.insert, update_of_ne hpn.symm]
    · simp [Links.insert, update_of_ne hsn]
    · have hap : a ≠ p := fun e => hp2 (e ▸ ha)
      have ha' : a ∈ s :: vs := dropLast_subset _ ha
      have han : a ≠ n := hall a (by simp only [mem_append, mem_cons] at *; tauto)
      simp [Links.insert, update_of_ne hap, update_of_ne han]
    · simp only [tail_cons] at hb
      have hbs : b ≠ s := fun e => hs2 (e ▸ hb)
      have hbn : b ≠ n := hall b (by simp [hb])
      simp [Links.insert, update_of_ne hbs, update_of_ne hbn]
  · exact (round_perm hc hc').nodup_iff.mpr (nodup_cons.mpr ⟨hn, hr.nodup⟩)

/-- **Linking the two neighbours of a cell takes it out.** -/
theorem IsRing.bypass {l : Links α} {h x : α} {xs xs' : List α} {p s : α}
    (hr : IsRing l h xs) (us vs : List α) (hc : h :: xs ++ [h] = us ++ p :: x :: s :: vs)
    (hc' : h :: xs' ++ [h] = us ++ p :: s :: vs) : IsRing (l.bypass p s) h xs' := by
  have hnd : (h :: xs').Nodup :=
    (nodup_cons.mp ((round_perm hc' hc).nodup_iff.mp hr.nodup)).2
  obtain ⟨hp1, hs1, hp2, hs2⟩ := round_split hnd hc'
  have hchain := hr.chain
  rw [hc, isChain_append_cons_cons, isChain_cons_cons] at hchain
  obtain ⟨hfront, -, -, hback⟩ := hchain
  refine ⟨?_, hnd⟩
  rw [hc', isChain_append_cons_cons]
  refine ⟨isChain_congr hfront (fun a ha => ?_) (fun b hb => ?_), ⟨?_, ?_⟩,
    isChain_congr hback (fun a ha => ?_) (fun b hb => ?_)⟩
  · rw [dropLast_concat] at ha
    have hap : a ≠ p := fun e => hp1 (e ▸ ha)
    simp [Links.bypass, update_of_ne hap]
  · have hbs : b ≠ s := fun e => hs1 (e ▸ hb)
    simp [Links.bypass, update_of_ne hbs]
  · simp [Links.bypass]
  · simp [Links.bypass]
  · have hap : a ≠ p := fun e => hp2 (e ▸ ha)
    simp [Links.bypass, update_of_ne hap]
  · have hbs : b ≠ s := fun e => hs2 (e ▸ hb)
    simp [Links.bypass, update_of_ne hbs]

/-! ### At the ends of the list -/

omit [DecidableEq α] in
/-- What the links of the head and of the first cell say, read off the round. -/
theorem IsRing.first {l : Links α} {h : α} {xs : List α} (hr : IsRing l h xs) :
    (xs = [] ∧ l.next h = h ∧ l.prev h = h) ∨
      ∃ x ys, xs = x :: ys ∧ l.next h = x ∧ l.prev x = h := by
  cases xs with
  | nil =>
    obtain ⟨hj, -⟩ := isChain_cons_cons.mp hr.chain
    exact .inl ⟨rfl, hj.1, hj.2⟩
  | cons x ys =>
    obtain ⟨hj, -⟩ := isChain_cons_cons.mp hr.chain
    exact .inr ⟨x, ys, rfl, hj.1, hj.2⟩

/-- **A new cell in front**, between the head and the cell behind it. -/
theorem IsRing.pushFront {l : Links α} {h n : α} {xs : List α} (hr : IsRing l h xs)
    (hn : n ∉ h :: xs) : IsRing (l.insert n h (l.next h)) h (n :: xs) := by
  rcases hr.first with ⟨rfl, hnext, -⟩ | ⟨x, ys, rfl, hnext, -⟩
  · rw [hnext]
    exact hr.insert hn [] [] rfl rfl
  · rw [hnext]
    exact hr.insert hn [] (ys ++ [h]) rfl rfl

/-- **A new cell at the back**, between the cell in front of the head and the head. -/
theorem IsRing.pushBack {l : Links α} {h n : α} {xs : List α} (hr : IsRing l h xs)
    (hn : n ∉ h :: xs) : IsRing (l.insert n (l.prev h) h) h (xs ++ [n]) := by
  rcases eq_nil_or_concat xs with rfl | ⟨ys, y, rfl⟩
  · obtain ⟨hj, -⟩ := isChain_cons_cons.mp hr.chain
    rw [hj.2]
    exact hr.insert hn [] [] rfl rfl
  · rw [concat_eq_append] at *
    have hprev : l.prev h = y := by
      have hc := hr.chain
      rw [show h :: (ys ++ [y]) ++ [h] = (h :: ys) ++ y :: h :: [] by simp,
        isChain_append_cons_cons] at hc
      exact hc.2.1.2
    rw [hprev]
    exact hr.insert hn (h :: ys) [] (by simp) (by simp)

/-- **The first cell taken out.** -/
theorem IsRing.popFront {l : Links α} {h x : α} {xs : List α} (hr : IsRing l h (x :: xs)) :
    IsRing (l.bypass (l.prev x) (l.next x)) h xs := by
  obtain ⟨⟨-, hprev⟩, hrest⟩ := isChain_cons_cons.mp hr.chain
  rw [hprev]
  cases xs with
  | nil =>
    obtain ⟨⟨hnext, -⟩, -⟩ := isChain_cons_cons.mp hrest
    rw [hnext]
    exact hr.bypass [] [] rfl rfl
  | cons y ys =>
    obtain ⟨⟨hnext, -⟩, -⟩ := isChain_cons_cons.mp hrest
    rw [hnext]
    exact hr.bypass [] (ys ++ [h]) rfl rfl

end DList
