import Gd32Firmware.Config
import Gd32Firmware.Lib.Loop
import Gd32Firmware.Lib.StrictInsert
import Gd32Firmware.Util.Slist

/-!
# All of the list functions

The rest of `slist.c`, and calls of its functions one after the other on any number of lists. Each
function does to the cells of a list what its name says of a sequence
(`Slists.Holds.step`). The last pointer is a value only while there is a first cell:
`list_concat` leaves one behind in the list that it empties, and what makes that harmless is that
every function looks at the first cell before it uses the last one, which is why a state is
described by `Spells` and not by `IsList`.

A walk over the links takes a bound on the number of hops, `none` being a walk that has not ended
by then.
-/

namespace Gd32

open Chain List Function Option

variable {zs : List Ptr}

variable {next : Links} {l : SList} {xs ys : List Ptr} {s x y : Ptr} {hops : ℕ}

/-! ### The functions -/

def listPushFront (l : SList) (next : Links) (x : Ptr) : SList × Links :=
  (⟨some x, if l.first = none then some x else l.last⟩, update next x l.first)

def listPopFront (l : SList) (next : Links) : Option Ptr × SList :=
  match l.first with
  | none => (none, l)
  | some f => (some f, ⟨next f, if l.last = some f then none else l.last⟩)

def listFind (hops : ℕ) (l : SList) (next : Links) (x : Ptr) : Option Bool :=
  (scan next (· == x) hops l.first).map (· == some x)

/-- `list_cnt`, which counts in a `uint32_t`. -/
def listCnt (hops : ℕ) (l : SList) (next : Links) : Option ℕ := (count next hops l.first).map u32

def listInsert (hops : ℕ) (l : SList) (next : Links) (x : Ptr) (cmp : Ptr → Ptr → Bool) :
    Option (SList × Links) :=
  (scanPrev next (cmp x) hops none l.first).map fun (prev, scan) =>
    let last := if scan = none then some x else l.last
    let next := update next x scan
    match prev with
    | some p => (⟨l.first, last⟩, update next p (some x))
    | none => (⟨some x, last⟩, next)

def listInsertAfterFast (l : SList) (next : Links) (prev : Option Ptr) (x : Ptr) : SList × Links :=
  match prev with
  | none => listPushFront l next x
  | some s =>
    (⟨l.first, if l.last = some s then some x else l.last⟩,
      update (update next x (next s)) s (some x))

def listInsertAfter (hops : ℕ) (l : SList) (next : Links) (prev : Option Ptr) (x : Ptr) :
    Option (SList × Links) :=
  match prev with
  | none => some (listPushFront l next x)
  | some s => (scan next (· == s) hops l.first).map fun
    | none => (l, next)
    | some _ =>
      (⟨l.first, if l.last = some s then some x else l.last⟩,
        update (update next x (next s)) s (some x))

def listInsertBefore (hops : ℕ) (l : SList) (next : Links) (nextElement : Option Ptr) (x : Ptr) :
    Option (SList × Links) :=
  match nextElement with
  | none => listPushBack l next x
  | some y =>
    if l.first = some y then some (listPushFront l next x)
    else (scan next (fun s => next s == some y) hops l.first).map fun
      | none => (l, next)
      | some s => (l, update (update next x (some y)) s (some x))

/-- `list_concat` on two different lists. A first list with a first cell and no last one makes it
dereference the null pointer, which is `none`. -/
def listConcat (l₁ l₂ : SList) (next : Links) : Option (SList × SList × Links) :=
  match l₂.first with
  | none => some (l₁, l₂, next)
  | some f =>
    match l₁.first, l₁.last with
    | none, _ => some (l₂, ⟨none, l₂.last⟩, next)
    | some _, some y =>
      some (⟨l₁.first, l₂.last⟩, ⟨none, l₂.last⟩, update next y (some f))
    | some _, none => none

def listRemove (l : SList) (next : Links) (prev : Option Ptr) (x : Ptr) : SList × Links :=
  let last := if l.last = some x then prev else l.last
  match prev with
  | none => (⟨next x, last⟩, update next x none)
  | some p => (⟨l.first, last⟩, update (update next p (next x)) x none)

/-- `list_pool_init`. The default value of an element, if there is one, has a link of its own at the
front, which `sys_memcpy` puts in the cell before that is pushed. -/
def listPoolInit (next : Links) (pool elmtSize elmtCnt : ℕ) (defaultValue : Option (Option Ptr)) :
    Option (SList × Links) :=
  Loop.counted (fun i (s : SList × Links) =>
    let hdr := pool + i * elmtSize
    let next := match defaultValue with
      | none => s.2
      | some v => update s.2 hdr v
    listPushBack s.1 next hdr) elmtCnt (listInit, next)

/-! ### What they do to the cells -/

/-- The cells `zs` in the place of `s`. -/
def inPlaceOf (s : Ptr) (zs xs : List Ptr) : List Ptr :=
  xs.flatMap fun y => if y = s then zs else [y]

theorem inPlaceOf_of_notMem (hs : s ∉ xs) : inPlaceOf s zs xs = xs := by
  induction xs with
  | nil => rfl
  | cons y ys ih =>
    have hys : y ≠ s := fun e => hs (by simp [e])
    rw [inPlaceOf, flatMap_cons, if_neg hys]
    exact congrArg (y :: ·) (ih fun hm => hs (mem_cons_of_mem _ hm))

theorem inPlaceOf_append (hxs : s ∉ xs) (hys : s ∉ ys) :
    inPlaceOf s zs (xs ++ s :: ys) = xs ++ zs ++ ys := by
  have hleft : inPlaceOf s zs xs = xs := inPlaceOf_of_notMem hxs
  have hright : inPlaceOf s zs ys = ys := inPlaceOf_of_notMem hys
  unfold inPlaceOf at *
  rw [flatMap_append, flatMap_cons, hleft, hright, if_pos rfl, append_assoc]

/-- A new cell in front of `s` or behind it. -/
theorem inPlaceOf_perm (hs : s ∈ xs) (hnodup : xs.Nodup) (hzs : zs.Perm [x, s]) :
    (inPlaceOf s zs xs).Perm (x :: xs) := by
  obtain ⟨as, bs, rfl⟩ := append_of_mem hs
  have hnotMem : s ∉ as ++ bs := (nodup_middle.mp hnodup).notMem
  rw [inPlaceOf_append (fun hm => hnotMem (mem_append_left _ hm))
    fun hm => hnotMem (mem_append_right _ hm), append_assoc]
  exact ((hzs.append_right bs).append_left as).trans perm_middle

namespace Spells

theorem pushFront (h : Spells next l xs) (hx : x ∉ xs) :
    Makes next (x :: xs) (listPushFront l next x) (x :: xs) := by
  refine ⟨⟨h.chain.push hx, fun _ => ?_, nodup_cons.mpr ⟨hx, h.nodup⟩⟩, fun y hy => ?_⟩
  · change (if l.first = none then some x else l.last) = _
    rw [h.first_eq, List.getLast?_cons]
    cases xs with
    | nil => rfl
    | cons z zs =>
      rw [if_neg (by simp), h.last_eq (by simp), List.getLast?_cons]
      rfl
  · exact update_of_ne (ne_of_not_mem_cons hy) _ _

theorem popFront (h : Spells next l xs) :
    (listPopFront l next).1 = xs.head? ∧ Spells next (listPopFront l next).2 xs.tail := by
  cases xs with
  | nil =>
    rw [listPopFront, show l.first = none from h.chain]
    exact ⟨rfl, h⟩
  | cons f ys =>
    obtain ⟨hfirst, hys⟩ := h.chain.cons_inv
    rw [listPopFront, hfirst]
    refine ⟨rfl, hys, fun hne => ?_, (nodup_cons.mp h.nodup).2⟩
    change (if l.last = some f then none else l.last) = ys.getLast?
    rw [if_neg fun e => hne ((show Spells next l ([] ++ f :: ys) from h).last_eq_iff.mp e),
      h.last_eq (cons_ne_nil f ys)]
    exact List.getLast?_cons_of_ne_nil hne

/-- A new cell behind `s`, with the last pointer moved if `s` was the last one. -/
theorem insertBehind (h : Spells next l (xs ++ s :: ys)) (hx : x ∉ xs ++ s :: ys) :
    Makes next (x :: (xs ++ s :: ys))
      (⟨l.first, if l.last = some s then some x else l.last⟩,
        update (update next x (next s)) s (some x)) (xs ++ s :: x :: ys) := by
  refine ⟨⟨h.chain.insert h.notMem.1 h.notMem.2 hx, fun _ => ?_, ?_⟩, fun y hy => ?_⟩
  · change (if l.last = some s then some x else l.last) = _
    rw [getLast?_append_cons, List.getLast?_cons, getD_some]
    split_ifs with hlast
    · rw [h.last_eq_iff.mp hlast]
      rfl
    · rw [h.last_append]
      cases hy : ys.getLast? with
      | none => exact absurd (h.last_eq_iff.mpr (List.getLast?_eq_none_iff.mp hy)) hlast
      | some z => rfl
  · have hnodup : ((xs ++ [s]) ++ x :: ys).Nodup :=
      nodup_middle.mpr (nodup_cons.mpr ⟨by simpa using hx, by simpa using h.nodup⟩)
    simpa using hnodup
  · have hys : y ≠ s := fun e => hy (by simp [e])
    change update (update next x (next s)) s (some x) y = next y
    rw [update_of_ne hys, update_of_ne (ne_of_not_mem_cons hy)]

theorem listFind_eq (h : Spells next l xs) (hhops : xs.length ≤ hops) :
    listFind hops l next x = some (decide (x ∈ xs)) := by
  rw [listFind, h.chain.scan_eq _ hhops, map_some]
  by_cases hx : x ∈ xs
  · obtain ⟨y, hy⟩ : ∃ y, xs.find? (· == x) = some y :=
      isSome_iff_exists.mp (List.find?_isSome.mpr ⟨x, hx, beq_self_eq_true x⟩)
    obtain rfl : y = x := beq_iff_eq.mp (List.find?_some (p := (· == x)) hy)
    rw [hy, decide_eq_true hx, BEq.rfl]
  · have hnone : xs.find? (· == x) = none :=
      List.find?_eq_none.mpr fun y hy e => hx (beq_iff_eq.mp e ▸ hy)
    rw [hnone, decide_eq_false hx]
    rfl

theorem listCnt_eq (h : Spells next l xs) (hhops : xs.length ≤ hops) :
    listCnt hops l next = some (u32 xs.length) := by
  rw [listCnt, h.chain.count_eq hhops, map_some]

theorem insertAfterFast (h : Spells next l xs) (hs : s ∈ xs) (hx : x ∉ xs) :
    Makes next (x :: xs) (listInsertAfterFast l next (some s) x) (inPlaceOf s [s, x] xs) := by
  obtain ⟨as, bs, rfl⟩ := append_of_mem hs
  rw [inPlaceOf_append h.notMem.1 h.notMem.2, append_assoc]
  exact h.insertBehind hx

theorem listInsertAfter_of_notMem (h : Spells next l xs) (hs : s ∉ xs) (hhops : xs.length ≤ hops) :
    listInsertAfter hops l next (some s) x = some (l, next) := by
  have hnone : xs.find? (· == s) = none := by
    rw [List.find?_eq_none]
    intro y hy e
    exact hs (beq_iff_eq.mp e ▸ hy)
  simp only [listInsertAfter, h.chain.scan_eq _ hhops, hnone, map_some]

/-- When the cell in front is in the list, the check finds it. -/
theorem listInsertAfter_of_mem (h : Spells next l xs) (hs : s ∈ xs) (hhops : xs.length ≤ hops) :
    listInsertAfter hops l next (some s) x = some (listInsertAfterFast l next (some s) x) := by
  obtain ⟨y, hy⟩ : ∃ y, xs.find? (· == s) = some y :=
    isSome_iff_exists.mp (List.find?_isSome.mpr ⟨s, hs, beq_self_eq_true s⟩)
  simp only [listInsertAfter, h.chain.scan_eq _ hhops, hy, map_some, listInsertAfterFast]

theorem listInsertBefore_of_notMem (h : Spells next l xs) (hy : y ∉ xs)
    (hhops : xs.length ≤ hops) : listInsertBefore hops l next (some y) x = some (l, next) := by
  have hfirst : l.first ≠ some y := by
    rw [h.first_eq]
    exact fun e => hy (mem_of_mem_head? e)
  simp only [listInsertBefore, if_neg hfirst, h.chain.scan_eq _ hhops,
    h.chain.find?_next_of_notMem hy, map_some]

theorem insertBefore (h : Spells next l xs) (hy : y ∈ xs) (hx : x ∉ xs)
    (hhops : xs.length ≤ hops) :
    ∃ r, listInsertBefore hops l next (some y) x = some r ∧
      Makes next (x :: xs) r (inPlaceOf y [x, y] xs) := by
  rcases eq_cons_or_eq_append_of_mem hy with ⟨ys, rfl⟩ | ⟨as, s, ys, rfl⟩
  · -- in front of the first cell
    have hnotMem : y ∉ ys := (show Spells next l ([] ++ y :: ys) from h).notMem.2
    have heq : inPlaceOf y [x, y] ([] ++ y :: ys) = x :: y :: ys :=
      inPlaceOf_append not_mem_nil hnotMem
    refine ⟨listPushFront l next x, ?_, heq ▸ h.pushFront hx⟩
    simp only [listInsertBefore, h.first_eq, List.head?_cons, if_true]
  · -- behind the cell in front of `y`
    have h' : Spells next l ((as ++ [s]) ++ y :: ys) := by simpa using h
    have hfirst : l.first ≠ some y := by
      rw [h.first_eq]
      intro e
      cases as with
      | nil => exact h'.notMem.1 (by simpa using (Option.some.inj e).symm)
      | cons a as => exact h'.notMem.1 (by simp [Option.some.inj e])
    have hplace : inPlaceOf y [x, y] ((as ++ [s]) ++ y :: ys) = (as ++ [s]) ++ [x, y] ++ ys :=
      inPlaceOf_append h'.notMem.1 h'.notMem.2
    have heq : inPlaceOf y [x, y] (as ++ s :: y :: ys) = as ++ s :: x :: y :: ys := by
      simpa using hplace
    have hlink : next s = some y := h.chain.behind.start_eq
    have hmakes := h.insertBehind hx
    rw [h.last_eq_iff.not.mpr (cons_ne_nil y ys) |> if_neg, hlink] at hmakes
    rw [heq]
    refine ⟨(l, _), ?_, hmakes⟩
    simp only [listInsertBefore, if_neg hfirst, h.chain.scan_eq _ hhops,
      h.chain.find?_next h'.notMem.1, map_some]

theorem insert (h : Spells next l xs) (hx : x ∉ xs) (cmp : Ptr → Ptr → Bool)
    (hhops : xs.length ≤ hops) :
    ∃ r, listInsert hops l next x cmp = some r ∧
      Makes next (x :: xs) r (xs.orderedInsert (fun a b => cmp a b = true) x) := by
  obtain ⟨as, bs, rfl, has, hbs, hinsert⟩ :=
    StrictInsert.exists_split (fun a b => cmp a b = true) x xs
  have hscan : scanPrev next (cmp x) hops none l.first = some (as.getLast?.or none, bs.head?) :=
    h.chain.scanPrev_eq (fun y hy => Bool.eq_false_iff.mpr (has y hy)) hbs hhops
  rw [hinsert]
  rcases eq_nil_or_concat as with rfl | ⟨cs, s, rfl⟩
  · -- in front
    have hfirst : l.first = bs.head? := h.first_eq
    refine ⟨listPushFront l next x, ?_, h.pushFront hx⟩
    rw [listInsert, hscan, listPushFront, hfirst]
    rfl
  · -- behind `s`
    rw [concat_eq_append, append_assoc] at *
    have hlink : next s = bs.head? := h.chain.behind.start_eq
    have hend : bs.head? = none ↔ l.last = some s := by
      rw [List.head?_eq_none_iff]
      exact h.last_eq_iff.symm
    refine ⟨_, ?_, (append_assoc cs [s] (x :: bs)) ▸ h.insertBehind hx⟩
    rw [listInsert, hscan, List.getLast?_append]
    simp only [map_some, List.getLast?_singleton, some_or, hlink, hend]

theorem concat {l₁ l₂ : SList} (h₁ : Spells next l₁ xs) (h₂ : Spells next l₂ ys)
    (hdisj : ∀ z ∈ xs, z ∉ ys) :
    ∃ r₁ r₂ next', listConcat l₁ l₂ next = some (r₁, r₂, next') ∧
      Makes next xs (r₁, next') (xs ++ ys) ∧ r₂.first = none := by
  cases ys with
  | nil =>
    have hfirst : l₂.first = none := h₂.chain
    rw [append_nil]
    refine ⟨l₁, l₂, next, ?_, ⟨h₁, fun _ _ => rfl⟩, hfirst⟩
    simp only [listConcat, hfirst]
  | cons y ys =>
    have hfirst : l₂.first = some y := h₂.first_eq
    rcases eq_nil_or_concat xs with rfl | ⟨as, s, rfl⟩
    · have hempty : l₁.first = none := h₁.chain
      refine ⟨l₂, ⟨none, l₂.last⟩, next, ?_, ⟨h₂, fun _ _ => rfl⟩, rfl⟩
      simp only [listConcat, hfirst, hempty]
    · rw [concat_eq_append] at *
      have hlast : l₁.last = some s := h₁.last_append
      obtain ⟨f, hf⟩ : ∃ f, l₁.first = some f := by
        rw [h₁.first_eq, List.head?_append]
        cases as.head? with
        | none => exact ⟨s, rfl⟩
        | some a => exact ⟨a, rfl⟩
      have hs : s ∉ y :: ys := hdisj s (by simp)
      refine ⟨⟨l₁.first, l₂.last⟩, ⟨none, l₂.last⟩, update next s (some y), ?_,
        ⟨⟨?_, fun _ => ?_, ?_⟩, fun z hz => ?_⟩, rfl⟩
      · simp only [listConcat, hfirst, hf, hlast]
      · rw [append_assoc]
        exact h₁.chain.relink h₁.notMem.1 (hfirst ▸ h₂.chain) hs
      · rw [List.getLast?_append_of_ne_nil _ (cons_ne_nil y ys)]
        exact h₂.last_eq (cons_ne_nil y ys)
      · refine nodup_append.mpr ⟨h₁.nodup, h₂.nodup, ?_⟩
        rintro a ha b hb rfl
        exact hdisj a ha hb
      · exact update_of_ne (fun e => hz (by simp [e])) _ _

end Spells

/-- The link of a cell that is not in the list any more can be cleared. -/
theorem Makes.update {own : List Ptr} {r : SList × Links} (h : Makes next own r ys) (hown : x ∈ own)
    (hx : x ∉ ys) (v : Option Ptr) : Makes next own (r.1, update r.2 x v) ys := by
  refine ⟨⟨h.spells.chain.update hx v, h.spells.last_eq, h.spells.nodup⟩, fun y hy => ?_⟩
  have hyx : y ≠ x := fun e => hy (e ▸ hown)
  exact (update_of_ne hyx v r.2).trans (h.frame y hy)

/-- The cell in front of `x` in a sequence. -/
def before (xs : List Ptr) (x : Ptr) : Option Ptr := (xs.takeWhile (· != x)).getLast?

theorem Spells.remove (h : Spells next l xs) (hx : x ∈ xs) :
    Makes next xs (listRemove l next (before xs x) x) (xs.erase x) := by
  have hnotMem : x ∉ xs.erase x := h.nodup.not_mem_erase
  obtain ⟨r, hr, hmakes⟩ := h.extract x le_rfl
  have hcleared := hmakes.update hx hnotMem none
  rcases eq_cons_or_eq_append_of_mem hx with ⟨ys, rfl⟩ | ⟨as, s, ys, rfl⟩
  · rw [h.listExtract_head] at hr
    obtain rfl := Option.some.inj hr
    have hbefore : before (x :: ys) x = none := by
      rw [before, takeWhile_cons_of_neg (by simp)]
      rfl
    rw [hbefore]
    exact hcleared
  · rw [h.listExtract_behind le_rfl] at hr
    obtain rfl := Option.some.inj hr
    have h' : Spells next l ((as ++ [s]) ++ x :: ys) := by simpa using h
    have hbefore : before (as ++ s :: x :: ys) x = some s := by
      have htake : ((as ++ [s]) ++ x :: ys).takeWhile (· != x) = as ++ [s] := by
        rw [takeWhile_append_of_pos, takeWhile_cons_of_neg (by simp), append_nil]
        intro a ha
        exact bne_iff_ne.mpr fun e => h'.notMem.1 (e ▸ ha)
      rw [before, ← singleton_append, ← append_assoc, htake, List.getLast?_append]
      rfl
    rw [hbefore]
    exact hcleared

/-- The first cells of a pool. -/
def poolCells (pool elmtSize n : ℕ) : List Ptr := (List.range n).map fun i => pool + i * elmtSize

theorem makes_poolInit (next : Links) (pool : ℕ) {elmtSize : ℕ} (hpos : 0 < elmtSize)
    (elmtCnt : ℕ) (defaultValue : Option (Option Ptr)) :
    ∃ r, listPoolInit next pool elmtSize elmtCnt defaultValue = some r ∧
      Makes next (poolCells pool elmtSize elmtCnt) r (poolCells pool elmtSize elmtCnt) := by
  refine Loop.exists_counted (P := fun i r =>
    Makes next (poolCells pool elmtSize i) r (poolCells pool elmtSize i)) ?_ ?_
  · exact ⟨⟨rfl, fun hne => absurd rfl hne, nodup_nil⟩, fun _ _ => rfl⟩
  · intro i r hi h
    have hcells : poolCells pool elmtSize (i + 1) =
        poolCells pool elmtSize i ++ [pool + i * elmtSize] := by
      rw [poolCells, range_succ, map_append]
      rfl
    have hnew : pool + i * elmtSize ∉ poolCells pool elmtSize i := by
      intro hm
      obtain ⟨k, hk, he⟩ := mem_map.mp hm
      have hki : k = i := Nat.eq_of_mul_eq_mul_right hpos (Nat.add_left_cancel he)
      exact (mem_range.mp hk).ne hki
    rw [hcells]
    -- the default value changes the link of the new cell only
    cases defaultValue with
    | none =>
      obtain ⟨u, hu, hmakes⟩ := h.spells.pushBack hnew
      refine ⟨u, hu, hmakes.spells, fun y hy => ?_⟩
      rw [hmakes.frame y (by grind), h.frame y (by grind)]
    | some v =>
      have hspells : Spells (update r.2 (pool + i * elmtSize) v) r.1
          (poolCells pool elmtSize i) :=
        ⟨h.spells.chain.update hnew v, h.spells.last_eq, h.spells.nodup⟩
      obtain ⟨u, hu, hmakes⟩ := hspells.pushBack hnew
      refine ⟨u, hu, hmakes.spells, fun y hy => ?_⟩
      rw [hmakes.frame y (by grind), update_of_ne (by grind), h.frame y (by grind)]

end Gd32
