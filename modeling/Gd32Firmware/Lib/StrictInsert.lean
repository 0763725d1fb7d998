import Mathlib.Data.List.Sort
import Mathlib.Order.Defs.Unbundled

/-!
# Insertion by a strict order

`List.orderedInsert r` puts an element in front of the first one that `r` says it goes before. Mathlib
uses it with an order that is total. With a strict order `r` it puts the element behind those that
are as good as it, so that a list is sorted when no element goes before an earlier one, and
elements that compare alike stand in the order in which they came (`StrictInsert.filter_insert`).
-/

namespace StrictInsert

open List

variable {α : Type} (r : α → α → Prop)

/-- No element goes before an earlier one. -/
def Sorted (xs : List α) : Prop := xs.Pairwise fun a b => ¬r b a

/-- The elements compare alike with every other one. -/
def Alike (a b : α) : Prop := ∀ c, (r a c ↔ r b c) ∧ (r c a ↔ r c b)

variable {r} {x : α} {xs : List α}

/-- Where all elements compare, those that do not go before each other are alike. -/
theorem alike_iff [IsStrictWeakOrder α r] {a b : α} : Alike r a b ↔ ¬r a b ∧ ¬r b a := by
  constructor
  · intro h
    exact ⟨fun hab => irrefl b ((h b).1.mp hab), fun hba => irrefl b ((h b).2.mp hba)⟩
  · rintro ⟨hab, hba⟩ c
    -- what is between the one and a third is between the other and the third
    have hleft : ∀ {u v : α}, ¬r u v → ¬r v u → r u c → r v c := by
      intro u v huv hvu huc
      by_contra hvc
      have hcv : ¬r c v := fun h => huv (trans_of r huc h)
      exact (IsStrictWeakOrder.incomp_trans u v c ⟨huv, hvu⟩ ⟨hvc, hcv⟩).1 huc
    have hright : ∀ {u v : α}, ¬r u v → ¬r v u → r c u → r c v := by
      intro u v huv hvu hcu
      by_contra hcv
      have hvc : ¬r v c := fun h => hvu (trans_of r h hcu)
      exact (IsStrictWeakOrder.incomp_trans c v u ⟨hcv, hvc⟩ ⟨hvu, huv⟩).1 hcu
    exact ⟨⟨hleft hab hba, hleft hba hab⟩, ⟨hright hab hba, hright hba hab⟩⟩

variable [DecidableRel r]

/-- **Insertion splits the list** at the first element that `x` goes before. -/
theorem exists_split (r : α → α → Prop) [DecidableRel r] (x : α) (xs : List α) :
    ∃ as bs, xs = as ++ bs ∧ (∀ y ∈ as, ¬r x y) ∧ (∀ y ∈ bs.head?, r x y) ∧
      xs.orderedInsert r x = as ++ x :: bs := by
  induction xs with
  | nil => exact ⟨[], [], rfl, nofun, nofun, rfl⟩
  | cons y ys ih =>
    rw [orderedInsert_cons]
    split_ifs with hxy
    · exact ⟨[], y :: ys, rfl, nofun, fun z hz => Option.some.inj hz ▸ hxy, rfl⟩
    · obtain ⟨as, bs, rfl, has, hbs, hinsert⟩ := ih
      refine ⟨y :: as, bs, rfl, fun z hz => ?_, hbs, congrArg (y :: ·) hinsert⟩
      rcases mem_cons.mp hz with rfl | hz
      · exact hxy
      · exact has z hz

/-- **Insertion keeps a list sorted.** -/
theorem Sorted.insert [IsStrictOrder α r] (h : Sorted r xs) (x : α) :
    Sorted r (xs.orderedInsert r x) := by
  induction xs with
  | nil => exact pairwise_singleton _ x
  | cons y ys ih =>
    obtain ⟨hy, hys⟩ := pairwise_cons.mp h
    rw [orderedInsert_cons]
    split_ifs with hxy
    · refine pairwise_cons.mpr ⟨fun z hz hzx => ?_, h⟩
      rcases mem_cons.mp hz with rfl | hz
      · exact asymm hxy hzx
      · exact hy z hz (trans_of r hzx hxy)
    · refine pairwise_cons.mpr ⟨fun z hz => ?_, ih hys⟩
      rcases (mem_orderedInsert r).mp hz with rfl | hz
      · exact hxy
      · exact hy z hz

open Classical in
/-- **Elements that compare alike stay in the order in which they came.** -/
theorem filter_insert [IsStrictOrder α r] (h : Sorted r xs) (x e : α) :
    (xs.orderedInsert r x).filter (fun y => Alike r y e) =
      xs.filter (fun y => Alike r y e) ++ if Alike r x e then [x] else [] := by
  induction xs with
  | nil => by_cases he : Alike r x e <;> simp [he]
  | cons y ys ih =>
    obtain ⟨hy, hys⟩ := pairwise_cons.mp h
    rw [orderedInsert_cons]
    split_ifs with hxy he he
    · -- nothing from `y` on is alike
      have hnone : (y :: ys).filter (fun z => Alike r z e) = [] := by
        rw [filter_eq_nil_iff]
        intro z hz hze
        have hze' : Alike r z e := by simpa using hze
        have hzy : r z y := (hze' y).1.mpr ((he y).1.mp hxy)
        rcases mem_cons.mp hz with rfl | hz
        · exact irrefl z hzy
        · exact hy z hz hzy
      rw [filter_cons_of_pos (by simpa using he), hnone]
      rfl
    · rw [filter_cons_of_neg (by simpa using he), append_nil]
    · rw [filter_cons, filter_cons, ih hys, if_pos he]
      split_ifs <;> rfl
    · rw [filter_cons, filter_cons, ih hys, if_neg he]
      split_ifs <;> rfl

end StrictInsert
