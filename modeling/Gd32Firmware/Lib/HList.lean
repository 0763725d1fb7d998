import Mathlib.Data.List.Nodup
import Mathlib.Logic.Function.Basic

/-!
# Tables of hash lists

A table has a head for each index, and each cell carries a link to the next one and the place
of the link that leads to it. A *slot* is a place a link is stored at, in a head or in a cell,
so that taking a cell out is one assignment through the slot that leads to it, whether that is
the head or another cell.

`HList.IsTable` says that the links of the table spell out a list for each index, the lists
having no cell in common.
-/

namespace HList

open List Function

variable {β α : Type}

/-- Where a link is stored. -/
inductive Slot (β α : Type) where
  | head (b : β)
  | next (a : α)
  deriving DecidableEq

/-- The links in memory. -/
structure Links (β α : Type) where
  link : Slot β α → Option α
  pprev : α → Slot β α

/-- The links from the slot `s` on visit the cells `xs` and stop, and each cell knows the slot
that leads to it. -/
def IsHChain (l : Links β α) : Slot β α → List α → Prop
  | s, [] => l.link s = none
  | s, x :: xs => l.link s = some x ∧ l.pprev x = s ∧ IsHChain l (.next x) xs

variable {l : Links β α} {s : Slot β α} {xs ys : List α} {n x : α} {b : β}

/-- A chain depends on the slots it goes through and on its cells only. -/
theorem IsHChain.congr {l' : Links β α} (h : IsHChain l s xs)
    (hs : l'.link s = l.link s) (hl : ∀ x ∈ xs, l'.link (.next x) = l.link (.next x))
    (hp : ∀ x ∈ xs, l'.pprev x = l.pprev x) : IsHChain l' s xs := by
  induction xs generalizing s with
  | nil => exact hs.trans h
  | cons x xs ih =>
    obtain ⟨h1, h2, h3⟩ := h
    refine ⟨hs.trans h1, (hp x mem_cons_self).trans h2, ih h3 (hl x mem_cons_self) ?_ ?_⟩
    · exact fun y hy => hl y (mem_cons_of_mem _ hy)
    · exact fun y hy => hp y (mem_cons_of_mem _ hy)

/-- The slot that leads to a cell of a chain, and the one behind the cell. -/
theorem IsHChain.around
    (h : IsHChain l s (xs ++ n :: ys)) :
    ((xs = [] ∧ l.pprev n = s) ∨ ∃ p ∈ xs, l.pprev n = .next p) ∧ IsHChain l (.next n) ys := by
  induction xs generalizing s with
  | nil => exact ⟨.inl ⟨rfl, h.2.1⟩, h.2.2⟩
  | cons x xs ih =>
    obtain ⟨hslot, hrest⟩ := ih h.2.2
    refine ⟨.inr ?_, hrest⟩
    rcases hslot with ⟨-, he⟩ | ⟨p, hp, he⟩
    · exact ⟨x, mem_cons_self, he⟩
    · exact ⟨p, mem_cons_of_mem _ hp, he⟩

/-- **The links spell out the lists of a table.** -/
structure IsTable (l : Links β α) (lists : β → List α) : Prop where
  chain : ∀ b, IsHChain l (.head b) (lists b)
  nodup : ∀ b, (lists b).Nodup
  apart : ∀ {b b' x}, x ∈ lists b → x ∈ lists b' → b = b'

theorem isTable_nil (h : ∀ b, l.link (.head b) = none) :
    IsTable l fun _ => [] where
  chain := h
  nodup _ := nodup_nil
  apart hx := by simp at hx

/-! ### The operations -/

variable [DecidableEq β] [DecidableEq α]

/-- Set the link of a slot. -/
def Links.setLink (l : Links β α) (s : Slot β α) (v : Option α) : Links β α :=
  { l with link := update l.link s v }

/-- Set the slot that leads to a cell. -/
def Links.setPprev (l : Links β α) (a : α) (s : Slot β α) : Links β α :=
  { l with pprev := update l.pprev a s }

/-- The same, unless the cell is missing. -/
def Links.setPprev? (l : Links β α) (a : Option α) (s : Slot β α) : Links β α :=
  match a with
  | none => l
  | some a => l.setPprev a s

/-- Put a cell in front of a list. -/
def Links.addHead (l : Links β α) (n : α) (b : β) : Links β α :=
  let first := l.link (.head b)
  (((l.setLink (.next n) first).setPprev? first (.next n)).setLink (.head b) (some n)).setPprev n
    (.head b)

/-- Take a cell out. -/
def Links.del (l : Links β α) (n : α) : Links β α :=
  (l.setLink (l.pprev n) (l.link (.next n))).setPprev? (l.link (.next n)) (l.pprev n)

omit [DecidableEq β] in
theorem Links.setPprev?_link (l : Links β α) (a : Option α) (s : Slot β α) :
    (l.setPprev? a s).link = l.link := by
  cases a <;> rfl

omit [DecidableEq β] in
theorem Links.setPprev?_pprev (l : Links β α) {a : Option α} (s : Slot β α)
    (h : a ≠ some x) : (l.setPprev? a s).pprev x = l.pprev x := by
  cases a with
  | none => rfl
  | some a =>
    have hxa : x ≠ a := fun e => h (by rw [e])
    exact update_of_ne hxa _ _

theorem Links.addHead_link_of_ne (l : Links β α)
    (h : s ≠ .head b) (h' : s ≠ .next n) : (l.addHead n b).link s = l.link s := by
  simp only [addHead, setPprev, setLink, setPprev?_link, update_of_ne h,
    update_of_ne h']

theorem Links.addHead_pprev_of_ne (l : Links β α) (h : x ≠ n)
    (h' : l.link (.head b) ≠ some x) : (l.addHead n b).pprev x = l.pprev x := by
  simp only [addHead, setPprev, setLink, update_of_ne h]
  exact setPprev?_pprev _ _ h'

/-- **A new cell in front of one of the lists.** -/
theorem IsTable.addHead {lists : β → List α} (h : IsTable l lists)
    (hn : ∀ b, n ∉ lists b) (b : β) :
    IsTable (l.addHead n b) (update lists b (n :: lists b)) where
  chain b' := by
    by_cases hb : b' = b
    · subst hb
      rw [update_self]
      refine ⟨?_, ?_, ?_⟩
      · simp [Links.addHead, Links.setPprev, Links.setLink]
      · simp [Links.addHead, Links.setPprev, Links.setLink]
      -- behind the new cell, the list as it was
      have hold := h.chain b'
      have hnot := hn b'
      have hnd := h.nodup b'
      generalize hxs : lists b' = xs at hold hnot hnd
      cases xs with
      | nil =>
        simp only [IsHChain] at hold ⊢
        simp [Links.addHead, Links.setPprev, Links.setLink, Links.setPprev?_link, hold]
      | cons x xs =>
        obtain ⟨h1, -, h3⟩ := hold
        have hnx : ∀ y ∈ x :: xs, y ≠ n := fun y hy e => hnot (e ▸ hy)
        refine ⟨?_, ?_, h3.congr ?_ ?_ ?_⟩
        · simp [Links.addHead, Links.setPprev, Links.setLink, Links.setPprev?_link, h1]
        · simp [Links.addHead, Links.setPprev, Links.setLink, Links.setPprev?, h1,
            update_of_ne (hnx x mem_cons_self)]
        · exact l.addHead_link_of_ne (by simp) (by simpa using hnx x mem_cons_self)
        · exact fun y hy => l.addHead_link_of_ne (by simp)
            (by simpa using hnx y (mem_cons_of_mem _ hy))
        · refine fun y hy => l.addHead_pprev_of_ne (hnx y (mem_cons_of_mem _ hy)) ?_
          rw [h1]
          rintro he
          obtain rfl := Option.some.inj he
          exact (nodup_cons.mp hnd).1 hy
    · -- another list: nothing it goes through has changed
      rw [update_of_ne hb]
      have hne : ∀ y ∈ lists b', y ≠ n := fun y hy e => hn b' (e ▸ hy)
      refine (h.chain b').congr (l.addHead_link_of_ne (by simpa using hb) (by simp)) ?_ ?_
      · exact fun y hy => l.addHead_link_of_ne (by simp) (by simpa using hne y hy)
      · refine fun y hy => l.addHead_pprev_of_ne (hne y hy) fun hf => hb ?_
        have hold := h.chain b
        generalize hxs : lists b = xs at hold
        cases xs with
        | nil =>
          rw [show l.link (.head b) = none from hold] at hf
          simp at hf
        | cons x xs =>
          rw [hold.1] at hf
          obtain rfl := Option.some.inj hf
          exact h.apart hy (hxs ▸ mem_cons_self)
  nodup b' := by
    by_cases hb : b' = b
    · subst hb
      rw [update_self]
      exact nodup_cons.mpr ⟨hn b', h.nodup b'⟩
    · rw [update_of_ne hb]
      exact h.nodup b'
  apart {b₁ b₂ x} h1 h2 := by
    by_cases hx : x = n
    · subst hx
      have honly : ∀ c, x ∈ update lists b (x :: lists b) c → c = b := by
        intro c hc
        by_contra hne
        rw [update_of_ne hne] at hc
        exact hn c hc
      rw [honly _ h1, honly _ h2]
    · have hold : ∀ c, x ∈ update lists b (n :: lists b) c → x ∈ lists c := by
        intro c hc
        by_cases hcb : c = b
        · subst hcb
          rw [update_self] at hc
          exact (mem_cons.mp hc).resolve_left hx
        · rwa [update_of_ne hcb] at hc
      exact h.apart (hold _ h1) (hold _ h2)

theorem Links.del_link_of_ne (l : Links β α) (h : s ≠ l.pprev n) :
    (l.del n).link s = l.link s := by
  simp only [del, setPprev?_link, setLink, update_of_ne h]

theorem Links.del_link (l : Links β α) (n : α) : (l.del n).link (l.pprev n) = l.link (.next n) := by
  simp only [del, setPprev?_link, setLink, update_self]

theorem Links.del_pprev_of_ne (l : Links β α) (h : l.link (.next n) ≠ some x) :
    (l.del n).pprev x = l.pprev x := setPprev?_pprev _ _ h

theorem Links.del_pprev (l : Links β α) (h : l.link (.next n) = some x) :
    (l.del n).pprev x = l.pprev n := by
  simp [del, setPprev?, setPprev, h]

/-- The chain a cell is taken out of. -/
theorem IsHChain.del
    (h : IsHChain l s (xs ++ n :: ys)) (hnd : (xs ++ n :: ys).Nodup)
    (hs : ∀ x ∈ xs ++ n :: ys, s ≠ .next x) : IsHChain (l.del n) s (xs ++ ys) := by
  induction xs generalizing s with
  | nil =>
    obtain ⟨-, hpn, hrest⟩ := h
    cases ys with
    | nil =>
      simp only [nil_append, IsHChain] at hrest ⊢
      rw [← hpn, l.del_link, hrest]
    | cons y ys =>
      obtain ⟨h1, -, h3⟩ := hrest
      refine ⟨by rw [← hpn, l.del_link, h1], by rw [l.del_pprev h1, hpn], h3.congr ?_ ?_ ?_⟩
      · exact l.del_link_of_ne (hpn ▸ (hs y (by simp)).symm)
      · exact fun z hz => l.del_link_of_ne (hpn ▸ (hs z (by simp [hz])).symm)
      · refine fun z hz => l.del_pprev_of_ne ?_
        rw [h1]
        rintro he
        obtain rfl := Option.some.inj he
        simp only [nil_append, nodup_cons] at hnd
        exact hnd.2.1 hz
  | cons x xs ih =>
    obtain ⟨h1, h2, h3⟩ := h
    have hnd' := nodup_cons.mp hnd
    refine ⟨?_, ?_, ih h3 hnd'.2 ?_⟩
    · -- the slot of `n` is further along
      refine (l.del_link_of_ne fun he => ?_).trans h1
      rcases h3.around.1 with ⟨-, hp⟩ | ⟨p, hp, hpn⟩
      · exact hs x (by simp) (he.trans hp)
      · exact hs p (by simp [hp]) (he.trans hpn)
    · refine (l.del_pprev_of_ne fun he => ?_).trans h2
      have hback := h3.around.2
      cases ys with
      | nil =>
        rw [show l.link (.next n) = none from hback] at he
        simp at he
      | cons y ys =>
        rw [hback.1] at he
        obtain rfl := Option.some.inj he
        exact hnd'.1 (by simp)
    · rintro y hy he
      rw [Slot.next.injEq] at he
      subst he
      exact hnd'.1 hy

/-- **A cell taken out of its list.** -/
theorem IsTable.del {lists : β → List α} (h : IsTable l lists) (hb : lists b = xs ++ n :: ys) :
    IsTable (l.del n) (update lists b (xs ++ ys)) := by
  have hsub : ∀ c x, x ∈ update lists b (xs ++ ys) c → x ∈ lists c := by
    intro c x hx
    by_cases hc : c = b
    · subst hc
      rw [update_self, mem_append] at hx
      rw [hb]
      simp only [mem_append, mem_cons]
      tauto
    · rwa [update_of_ne hc] at hx
  refine ⟨fun c => ?_, fun c => ?_, fun h1 h2 => h.apart (hsub _ _ h1) (hsub _ _ h2)⟩
  · by_cases hc : c = b
    · subst hc
      rw [update_self]
      refine IsHChain.del ?_ ?_ (fun x _ => by simp)
      · rw [← hb]
        exact h.chain c
      · rw [← hb]
        exact h.nodup c
    · -- another list: the slot of `n` and the cell behind it are not in it
      rw [update_of_ne hc]
      have hchain := h.chain b
      rw [hb] at hchain
      obtain ⟨hslot, hback⟩ := hchain.around
      have hout : ∀ x, x ∈ lists b → x ∉ lists c := fun x h1 h2 => hc (h.apart h2 h1)
      refine (h.chain c).congr (l.del_link_of_ne fun he => ?_)
        (fun y hy => l.del_link_of_ne fun he => ?_) fun y hy => l.del_pprev_of_ne fun he => ?_
      · rcases hslot with ⟨-, hp⟩ | ⟨p, -, hp⟩
        · rw [hp, Slot.head.injEq] at he
          exact hc he
        · rw [hp] at he
          simp at he
      · rcases hslot with ⟨-, hp⟩ | ⟨p, hmem, hp⟩
        · rw [hp] at he
          simp at he
        · rw [hp, Slot.next.injEq] at he
          subst he
          exact hout y (by simp [hb, hmem]) hy
      · cases ys with
        | nil =>
          rw [show l.link (.next n) = none from hback] at he
          simp at he
        | cons z zs =>
          rw [hback.1] at he
          obtain rfl := Option.some.inj he
          exact hout z (by simp [hb]) hy
  · by_cases hc : c = b
    · subst hc
      rw [update_self]
      have hnd := h.nodup c
      rw [hb] at hnd
      exact hnd.sublist (List.Sublist.append_left (sublist_cons_self n ys) xs)
    · rw [update_of_ne hc]
      exact h.nodup c

end HList
