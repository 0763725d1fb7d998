import Gd32Firmware.Util.SlistOps

/-!
# Runs of the list functions

Any number of lists, and calls on them one after the other. A cell is in one list at a time: what
is put into a list is in none (`SlistCall.Allowed`), which is all that the functions ask for
besides what their comments say. The lists then are the sequences that the calls, taken as
operations on sequences, lead to (`Slists.Holds.run`).
-/

namespace Gd32

open List Function Option

variable {prev : Option Ptr} {r : SList × Links}

/-- The lists, and the links of all cells. -/
structure Slists (ι : Type) where
  lists : ι → SList
  next : Links

/-- A call of a list function. -/
inductive SlistCall (ι : Type) where
  /-- `list_init`. -/
  | init (i : ι)
  /-- `list_pool_init`. -/
  | poolInit (i : ι) (pool elmtSize elmtCnt : ℕ) (defaultValue : Option (Option Ptr))
  /-- `list_push_back`. -/
  | pushBack (i : ι) (x : Ptr)
  /-- `list_push_front`. -/
  | pushFront (i : ι) (x : Ptr)
  /-- `list_pop_front`. -/
  | popFront (i : ι)
  /-- `list_extract`. -/
  | extract (i : ι) (x : Ptr)
  /-- `list_find`. -/
  | find (i : ι) (x : Ptr)
  /-- `list_cnt`. -/
  | cnt (i : ι)
  /-- `list_insert`. -/
  | insert (i : ι) (x : Ptr) (cmp : Ptr → Ptr → Bool)
  /-- `list_insert_after`. -/
  | insertAfter (i : ι) (prev : Option Ptr) (x : Ptr)
  /-- `list_insert_after_fast`. -/
  | insertAfterFast (i : ι) (prev : Option Ptr) (x : Ptr)
  /-- `list_insert_before`. -/
  | insertBefore (i : ι) (nextElement : Option Ptr) (x : Ptr)
  /-- `list_concat`. -/
  | concat (i j : ι)
  /-- `list_remove`. -/
  | remove (i : ι) (prev : Option Ptr) (x : Ptr)

/-- What a call hands back. -/
inductive SlistRet where
  | void
  | elt (x : Option Ptr)
  | found (b : Bool)
  | cnt (n : ℕ)

variable {ι : Type} [DecidableEq ι] {s : Slists ι} {seqs : ι → List Ptr} {i j : ι}
  {ys : List Ptr} {x y : Ptr} {hops : ℕ}

/-- One list has been worked on. -/
def Slists.set (s : Slists ι) (i : ι) (r : SList × Links) : Slists ι :=
  ⟨update s.lists i r.1, r.2⟩

/-- A call, in which a walk has so many hops. -/
def SlistCall.run (hops : ℕ) (s : Slists ι) : SlistCall ι → Option (SlistRet × Slists ι)
  | .init i => some (.void, s.set i (listInit, s.next))
  | .poolInit i pool elmtSize elmtCnt defaultValue =>
    (listPoolInit s.next pool elmtSize elmtCnt defaultValue).map fun r => (.void, s.set i r)
  | .pushBack i x => (listPushBack (s.lists i) s.next x).map fun r => (.void, s.set i r)
  | .pushFront i x => some (.void, s.set i (listPushFront (s.lists i) s.next x))
  | .popFront i =>
    let r := listPopFront (s.lists i) s.next
    some (.elt r.1, s.set i (r.2, s.next))
  | .extract i x => (listExtract hops (s.lists i) s.next x).map fun r => (.void, s.set i r)
  | .find i x => (listFind hops (s.lists i) s.next x).map fun b => (.found b, s)
  | .cnt i => (listCnt hops (s.lists i) s.next).map fun n => (.cnt n, s)
  | .insert i x cmp => (listInsert hops (s.lists i) s.next x cmp).map fun r => (.void, s.set i r)
  | .insertAfter i prev x =>
    (listInsertAfter hops (s.lists i) s.next prev x).map fun r => (.void, s.set i r)
  | .insertAfterFast i prev x =>
    some (.void, s.set i (listInsertAfterFast (s.lists i) s.next prev x))
  | .insertBefore i nextElement x =>
    (listInsertBefore hops (s.lists i) s.next nextElement x).map fun r => (.void, s.set i r)
  | .concat i j =>
    (listConcat (s.lists i) (s.lists j) s.next).map fun r =>
      (.void, ⟨update (update s.lists i r.1) j r.2.1, r.2.2⟩)
  | .remove i prev x => some (.void, s.set i (listRemove (s.lists i) s.next prev x))

/-- The same call on sequences. -/
def SlistCall.spec (seqs : ι → List Ptr) : SlistCall ι → SlistRet × (ι → List Ptr)
  | .init i => (.void, update seqs i [])
  | .poolInit i pool elmtSize elmtCnt _ =>
    (.void, update seqs i (poolCells pool elmtSize elmtCnt))
  | .pushBack i x => (.void, update seqs i (seqs i ++ [x]))
  | .pushFront i x => (.void, update seqs i (x :: seqs i))
  | .popFront i => (.elt (seqs i).head?, update seqs i (seqs i).tail)
  | .extract i x => (.void, update seqs i ((seqs i).erase x))
  | .find i x => (.found (decide (x ∈ seqs i)), seqs)
  | .cnt i => (.cnt (u32 (seqs i).length), seqs)
  | .insert i x cmp =>
    (.void, update seqs i ((seqs i).orderedInsert (fun a b => cmp a b = true) x))
  | .insertAfter i none x | .insertAfterFast i none x =>
    (.void, update seqs i (x :: seqs i))
  | .insertAfter i (some y) x | .insertAfterFast i (some y) x =>
    (.void, update seqs i (inPlaceOf y [y, x] (seqs i)))
  | .insertBefore i none x => (.void, update seqs i (seqs i ++ [x]))
  | .insertBefore i (some y) x => (.void, update seqs i (inPlaceOf y [x, y] (seqs i)))
  | .concat i j => (.void, update (update seqs i (seqs i ++ seqs j)) j [])
  | .remove i _ x => (.void, update seqs i ((seqs i).erase x))

/-- The cell is in no list. -/
def Fresh (seqs : ι → List Ptr) (x : Ptr) : Prop := ∀ j, x ∉ seqs j

/-- What is asked of a call: a cell that is put into a list is in none, the elements of a pool have
room for the link, two lists are concatenated and not one, and `list_insert_after_fast` and
`list_remove`, which do not look, are told the truth about where the cells are. -/
def SlistCall.Allowed (seqs : ι → List Ptr) : SlistCall ι → Prop
  | .init _ | .popFront _ | .extract _ _ | .find _ _ | .cnt _ => True
  | .poolInit i pool elmtSize elmtCnt _ =>
    4 ≤ elmtSize ∧ ∀ y ∈ poolCells pool elmtSize elmtCnt, ∀ j, y ∈ seqs j → j = i
  | .pushBack _ x | .pushFront _ x | .insert _ x _ => Fresh seqs x
  | .insertAfter i prev x => (∀ y ∈ prev, y ∈ seqs i) → Fresh seqs x
  | .insertAfterFast i prev x => (∀ y ∈ prev, y ∈ seqs i) ∧ Fresh seqs x
  | .insertBefore i nextElement x => (∀ y ∈ nextElement, y ∈ seqs i) → Fresh seqs x
  | .concat i j => i ≠ j
  | .remove i prev x => x ∈ seqs i ∧ prev = before (seqs i) x

/-- **The lists hold the cells of the sequences**, and no cell is in two of them. -/
structure Slists.Holds (s : Slists ι) (seqs : ι → List Ptr) : Prop where
  spells : ∀ i, Spells s.next (s.lists i) (seqs i)
  apart : ∀ {i j x}, x ∈ seqs i → x ∈ seqs j → i = j

/-- Calls one after the other, with what they hand back. -/
def SlistCall.runs (hops : ℕ) :
    List (SlistCall ι) → Slists ι → Option (List SlistRet × Slists ι)
  | [], s => some ([], s)
  | c :: cs, s => (c.run hops s).bind fun r =>
    (SlistCall.runs hops cs r.2).map fun t => (r.1 :: t.1, t.2)

/-- The same calls on sequences. -/
def SlistCall.specs : List (SlistCall ι) → (ι → List Ptr) → List SlistRet × (ι → List Ptr)
  | [], seqs => ([], seqs)
  | c :: cs, seqs =>
    let t := SlistCall.specs cs (c.spec seqs).2
    ((c.spec seqs).1 :: t.1, t.2)

/-- Each call is given what it asks for. -/
def SlistCall.AllAllowed : List (SlistCall ι) → (ι → List Ptr) → Prop
  | [], _ => True
  | c :: cs, seqs => c.Allowed seqs ∧ SlistCall.AllAllowed cs (c.spec seqs).2

/-- No sequence is longer than some number. -/
def Bounded (seqs : ι → List Ptr) : Prop := ∃ n, ∀ i, (seqs i).length ≤ n

theorem Bounded.update (h : Bounded seqs) (i : ι) (ys : List Ptr) :
    Bounded (update seqs i ys) := by
  obtain ⟨n, hn⟩ := h
  refine ⟨max n ys.length, fun j => ?_⟩
  rcases eq_or_ne j i with rfl | hne
  · rw [update_self]
    exact le_max_right n ys.length
  · rw [update_of_ne hne]
    exact (hn j).trans (le_max_left n ys.length)

theorem Bounded.spec (h : Bounded seqs) (c : SlistCall ι) : Bounded (c.spec seqs).2 := by
  cases c with
  | find i x | cnt i => exact h
  | concat i j => exact (h.update i _).update j _
  | insertAfter i prev x | insertAfterFast i prev x | insertBefore i prev x =>
    cases prev <;> exact h.update i _
  | init i | poolInit i | pushBack i | pushFront i | popFront i | extract i | insert i | remove i =>
    exact h.update i _

theorem Bounded.specs (h : Bounded seqs) (calls : List (SlistCall ι)) :
    Bounded (SlistCall.specs calls seqs).2 := by
  induction calls generalizing seqs with
  | nil => exact h
  | cons c cs ih => exact ih (h.spec c)

namespace Slists.Holds

/-- Work on one list that changes the links of its own cells and of fresh ones only. -/
theorem set (h : s.Holds seqs) {own : List Ptr} (hmakes : Makes s.next own r ys)
    (hown : ∀ y ∈ own, ∀ j, y ∈ seqs j → j = i) (hys : ∀ y ∈ ys, y ∈ own) :
    (s.set i r).Holds (update seqs i ys) := by
  have hmem : ∀ {j y}, y ∈ update seqs i ys j → y ∈ ys → j = i := by
    intro j y hj hy
    by_contra hne
    rw [update_of_ne hne] at hj
    exact hne (hown y (hys y hy) j hj)
  constructor
  · intro j
    rcases eq_or_ne j i with rfl | hne
    · simpa only [Slists.set, update_self] using hmakes.spells
    · simp only [Slists.set, update_of_ne hne]
      exact (h.spells j).congr fun y hy => hmakes.frame y fun ho => hne (hown y ho j hy)
  · intro j k y hj hk
    rcases eq_or_ne j i with rfl | hji
    · exact (hmem hk (by simpa only [update_self] using hj)).symm
    rcases eq_or_ne k i with rfl | hki
    · exact hmem hj (by simpa only [update_self] using hk)
    · rw [update_of_ne hji] at hj
      rw [update_of_ne hki] at hk
      exact h.apart hj hk

/-- Work on one list into which a fresh cell goes. -/
theorem setFresh (h : s.Holds seqs) (hx : Fresh seqs x)
    (hmakes : Makes s.next (x :: seqs i) r ys) (hys : ys.Perm (x :: seqs i)) :
    (s.set i r).Holds (update seqs i ys) := by
  refine h.set hmakes (fun y hy j hj => ?_) fun y hy => hys.subset hy
  rcases mem_cons.mp hy with rfl | hy
  · exact absurd hj (hx j)
  · exact h.apart hj hy

/-- Work on one list that nothing goes into. -/
theorem setOwn (h : s.Holds seqs) (hmakes : Makes s.next (seqs i) r ys)
    (hys : ys.Sublist (seqs i)) : (s.set i r).Holds (update seqs i ys) :=
  h.set hmakes (fun _ hy _ hj => h.apart hj hy) fun _ hy => hys.subset hy

/-- A list that is left as it is. -/
theorem setSelf (h : s.Holds seqs) (i : ι) (hys : ys = seqs i) :
    (s.set i (s.lists i, s.next)).Holds (update seqs i ys) := by
  rw [hys, update_eq_self, Slists.set, update_eq_self]
  exact h

/-- Work on one list that may fail. -/
theorem setOption {f : Option (SList × Links)} {ret : SlistRet}
    (hf : ∃ r, f = some r ∧ (s.set i r).Holds (update seqs i ys)) :
    ∃ s', f.map (fun r => (ret, s.set i r)) = some (ret, s') ∧
      s'.Holds (update seqs i ys) := by
  obtain ⟨r, rfl, hr⟩ := hf
  exact ⟨s.set i r, rfl, hr⟩

/-- Putting a fresh cell next to one of the list, or at the front of it. -/
theorem insertAfterFast (h : s.Holds seqs) (hprev : ∀ y ∈ prev, y ∈ seqs i)
    (hx : Fresh seqs x) :
    (s.set i (listInsertAfterFast (s.lists i) s.next prev x)).Holds
      (SlistCall.spec seqs (.insertAfterFast i prev x)).2 := by
  cases prev with
  | none => exact h.setFresh hx ((h.spells i).pushFront (hx i)) (List.Perm.refl _)
  | some y =>
    refine h.setFresh hx ((h.spells i).insertAfterFast (hprev y rfl) (hx i)) ?_
    exact inPlaceOf_perm (hprev y rfl) (h.spells i).nodup (List.Perm.swap x y [])

theorem insertAfter (h : s.Holds seqs)
    (hx : (∀ y ∈ prev, y ∈ seqs i) → Fresh seqs x) (hhops : (seqs i).length ≤ hops) :
    ∃ r, listInsertAfter hops (s.lists i) s.next prev x = some r ∧
      (s.set i r).Holds (SlistCall.spec seqs (.insertAfter i prev x)).2 := by
  by_cases hprev : ∀ y ∈ prev, y ∈ seqs i
  · -- the check finds the cell, and the rest is as without it
    have hfast := h.insertAfterFast hprev (hx hprev)
    cases prev with
    | none => exact ⟨_, rfl, hfast⟩
    | some y => exact ⟨_, (h.spells i).listInsertAfter_of_mem (hprev y rfl) hhops, hfast⟩
  · push Not at hprev
    obtain ⟨y, rfl, hy⟩ := hprev
    exact ⟨_, (h.spells i).listInsertAfter_of_notMem hy hhops,
      h.setSelf i (inPlaceOf_of_notMem hy)⟩

theorem insertBefore (h : s.Holds seqs) {nextElement : Option Ptr}
    (hx : (∀ y ∈ nextElement, y ∈ seqs i) → Fresh seqs x) (hhops : (seqs i).length ≤ hops) :
    ∃ r, listInsertBefore hops (s.lists i) s.next nextElement x = some r ∧
      (s.set i r).Holds (SlistCall.spec seqs (.insertBefore i nextElement x)).2 := by
  cases nextElement with
  | none =>
    have hfresh : Fresh seqs x := hx fun y hy => by cases hy
    obtain ⟨r, hr, hmakes⟩ := (h.spells i).pushBack (hfresh i)
    exact ⟨r, hr, h.setFresh hfresh hmakes perm_append_comm⟩
  | some y =>
    by_cases hy : y ∈ seqs i
    · have hfresh : Fresh seqs x := hx fun z hz => Option.some.inj hz ▸ hy
      obtain ⟨r, hr, hmakes⟩ := (h.spells i).insertBefore hy (hfresh i) hhops
      exact ⟨r, hr, h.setFresh hfresh hmakes
        (inPlaceOf_perm hy (h.spells i).nodup (List.Perm.refl _))⟩
    · exact ⟨_, (h.spells i).listInsertBefore_of_notMem hy hhops,
        h.setSelf i (inPlaceOf_of_notMem hy)⟩

theorem concat (h : s.Holds seqs) (hij : i ≠ j) :
    ∃ r, listConcat (s.lists i) (s.lists j) s.next = some r ∧
      Slists.Holds ⟨update (update s.lists i r.1) j r.2.1, r.2.2⟩
        (update (update seqs i (seqs i ++ seqs j)) j []) := by
  obtain ⟨r₁, r₂, next, hr, hmakes, hempty⟩ := (h.spells i).concat (h.spells j)
    fun y hi hj => hij (h.apart hi hj)
  refine ⟨(r₁, r₂, next), hr, fun k => ?_, ?_⟩
  · rcases eq_or_ne k j with rfl | hkj
    · simp only [update_self]
      exact ⟨hempty, fun hne => absurd rfl hne, nodup_nil⟩
    rcases eq_or_ne k i with rfl | hki
    · simpa only [update_of_ne hkj, update_self] using hmakes.spells
    · simp only [update_of_ne hkj, update_of_ne hki]
      exact (h.spells k).congr fun y hy => hmakes.frame y fun hi => hki (h.apart hy hi)
  · -- a cell of the second list is in the first one now, and nothing else has moved
    have hback : ∀ {k y},
        y ∈ update (update seqs i (seqs i ++ seqs j)) j [] k →
        k ≠ j ∧ (y ∈ seqs k ∨ k = i ∧ y ∈ seqs j) := by
      intro k y hy
      have hkj : k ≠ j := by
        rintro rfl
        simp at hy
      refine ⟨hkj, ?_⟩
      rw [update_of_ne hkj] at hy
      rcases eq_or_ne k i with rfl | hki
      · rw [update_self] at hy
        exact (mem_append.mp hy).imp_right fun hj => ⟨rfl, hj⟩
      · rw [update_of_ne hki] at hy
        exact .inl hy
    intro k m y hk hm
    obtain ⟨hkj, hk | ⟨rfl, hj⟩⟩ := hback hk
    · obtain ⟨-, hm | ⟨-, hj⟩⟩ := hback hm
      · exact h.apart hk hm
      · exact absurd (h.apart hk hj) hkj
    · obtain ⟨hmj, hm | ⟨rfl, -⟩⟩ := hback hm
      · exact absurd (h.apart hm hj) hmj
      · rfl

/-- **A call does to the lists what it says of sequences.** -/
theorem step (h : s.Holds seqs) {c : SlistCall ι} (hc : c.Allowed seqs)
    (hhops : ∀ i, (seqs i).length ≤ hops) :
    ∃ s', c.run hops s = some ((c.spec seqs).1, s') ∧ s'.Holds (c.spec seqs).2 := by
  cases c with
  | init i =>
    have hmakes : Makes s.next (seqs i) (listInit, s.next) [] :=
      ⟨(isList_init s.next).spells, fun _ _ => rfl⟩
    exact ⟨_, rfl, h.setOwn hmakes (nil_sublist _)⟩
  | poolInit i pool elmtSize elmtCnt defaultValue =>
    obtain ⟨r, hr, hmakes⟩ :=
      makes_poolInit s.next pool (Nat.lt_of_lt_of_le (by omega) hc.1) elmtCnt defaultValue
    exact setOption ⟨r, hr, h.set hmakes hc.2 fun y hy => hy⟩
  | pushBack i x =>
    obtain ⟨r, hr, hmakes⟩ := (h.spells i).pushBack (hc i)
    exact setOption ⟨r, hr, h.setFresh hc hmakes perm_append_comm⟩
  | pushFront i x => exact ⟨_, rfl, h.setFresh hc ((h.spells i).pushFront (hc i)) (.refl _)⟩
  | popFront i =>
    obtain ⟨hret, hspells⟩ := (h.spells i).popFront
    have hmakes : Makes s.next (seqs i) ((listPopFront (s.lists i) s.next).2, s.next)
        (seqs i).tail := ⟨hspells, fun _ _ => rfl⟩
    refine ⟨_, ?_, h.setOwn hmakes (tail_sublist _)⟩
    simp only [SlistCall.run, SlistCall.spec, hret]
  | extract i x =>
    obtain ⟨r, hr, hmakes⟩ := (h.spells i).extract x (hhops i)
    exact setOption ⟨r, hr, h.setOwn hmakes erase_sublist⟩
  | find i x =>
    refine ⟨s, ?_, h⟩
    simp only [SlistCall.run, SlistCall.spec, (h.spells i).listFind_eq (hhops i), map_some]
  | cnt i =>
    refine ⟨s, ?_, h⟩
    simp only [SlistCall.run, SlistCall.spec, (h.spells i).listCnt_eq (hhops i), map_some]
  | insert i x cmp =>
    obtain ⟨r, hr, hmakes⟩ := (h.spells i).insert (hc i) cmp (hhops i)
    exact setOption ⟨r, hr, h.setFresh hc hmakes (perm_orderedInsert _ x _)⟩
  | insertAfter i prev x =>
    cases prev <;> exact setOption (h.insertAfter hc (hhops i))
  | insertAfterFast i prev x =>
    cases prev <;> exact ⟨_, rfl, h.insertAfterFast hc.1 hc.2⟩
  | insertBefore i nextElement x =>
    cases nextElement <;> exact setOption (h.insertBefore hc (hhops i))
  | concat i j =>
    obtain ⟨r, hr, hholds⟩ := h.concat hc
    refine ⟨_, ?_, hholds⟩
    simp only [SlistCall.run, SlistCall.spec, hr, map_some]
  | remove i prev x =>
    obtain ⟨hx, rfl⟩ := hc
    exact ⟨_, rfl, h.setOwn ((h.spells i).remove hx) erase_sublist⟩

/-- **Calls do to the lists what they say of sequences**, with walks that are long enough. -/
theorem runs {calls : List (SlistCall ι)} (hcalls : SlistCall.AllAllowed calls seqs)
    (hseqs : Bounded seqs) :
    ∃ bound, ∀ hops, bound ≤ hops → ∀ s : Slists ι, s.Holds seqs →
      ∃ s', SlistCall.runs hops calls s = some ((SlistCall.specs calls seqs).1, s') ∧
        s'.Holds (SlistCall.specs calls seqs).2 := by
  induction calls generalizing seqs with
  | nil => exact ⟨0, fun hops _ s h => ⟨s, rfl, h⟩⟩
  | cons c cs ih =>
    obtain ⟨n, hn⟩ := hseqs
    obtain ⟨bound, hbound⟩ := ih hcalls.2 (Bounded.spec ⟨n, hn⟩ c)
    refine ⟨n + bound, fun hops hhops s h => ?_⟩
    have hlen : ∀ i, (seqs i).length ≤ hops := fun i => (hn i).trans (by omega)
    obtain ⟨u, hu, hholds⟩ := h.step hcalls.1 hlen
    obtain ⟨s', hs', hend⟩ := hbound hops (by omega) u hholds
    refine ⟨s', ?_, hend⟩
    simp only [SlistCall.runs, SlistCall.specs, hu, hs', bind_some, map_some]

end Slists.Holds

omit [DecidableEq ι] in
/-- Nothing is in a list that has just been made. -/
theorem holds_init (next : Links) :
    Slists.Holds (⟨fun _ => listInit, next⟩ : Slists ι) fun _ => [] := by
  constructor
  · exact fun _ => (isList_init next).spells
  · intro i j x hx
    cases hx

open Classical in
/-- **What the functions promise of the lists**: they hold the sequences; looking for a cell that is
not there changes nothing; and insertion by a strict order into a list in which no cell goes
before an earlier one makes such a list, in which the cells that compare alike stand in the order
in which they came. In a weak order these are the cells of which neither goes before the other. -/
structure Slists.Refines (hops : ℕ) (s : Slists ι) (seqs : ι → List Ptr) : Prop where
  holds : s.Holds seqs
  absent : ∀ i y, y ∉ seqs i → ∀ x,
    SlistCall.run hops s (.extract i y) = some (.void, s) ∧
      SlistCall.run hops s (.insertAfter i (some y) x) = some (.void, s) ∧
      SlistCall.run hops s (.insertBefore i (some y) x) = some (.void, s)
  sorted : ∀ i x (cmp : Ptr → Ptr → Bool), IsStrictOrder Ptr (fun a b => cmp a b = true) →
    Fresh seqs x → StrictInsert.Sorted (fun a b => cmp a b = true) (seqs i) →
    ∃ s' ys, SlistCall.run hops s (.insert i x cmp) = some (.void, s') ∧
      s'.Holds (update seqs i ys) ∧ ys.Perm (x :: seqs i) ∧
      StrictInsert.Sorted (fun a b => cmp a b = true) ys ∧
      (∀ e, ys.filter (fun y => StrictInsert.Alike (fun a b => cmp a b = true) y e) =
        (seqs i).filter (fun y => StrictInsert.Alike (fun a b => cmp a b = true) y e) ++
          if StrictInsert.Alike (fun a b => cmp a b = true) x e then [x] else []) ∧
      (IsStrictWeakOrder Ptr (fun a b => cmp a b = true) →
        ∀ e, ys.filter (fun y => !cmp y e && !cmp e y) =
          (seqs i).filter (fun y => !cmp y e && !cmp e y) ++
            if !cmp x e && !cmp e x then [x] else [])

/-- A call that looks for a cell that is not there changes nothing. -/
theorem Slists.Holds.run_of_notMem (h : s.Holds seqs) (hy : y ∉ seqs i)
    (hhops : (seqs i).length ≤ hops) (x : Ptr) :
    SlistCall.run hops s (.extract i y) = some (.void, s) ∧
      SlistCall.run hops s (.insertAfter i (some y) x) = some (.void, s) ∧
      SlistCall.run hops s (.insertBefore i (some y) x) = some (.void, s) := by
  have hset : s.set i (s.lists i, s.next) = s := by
    rw [Slists.set, update_eq_self]
  refine ⟨?_, ?_, ?_⟩
  · simp only [SlistCall.run, (h.spells i).listExtract_of_notMem hy hhops, map_some, hset]
  · simp only [SlistCall.run, (h.spells i).listInsertAfter_of_notMem hy hhops, map_some,
      hset]
  · simp only [SlistCall.run, (h.spells i).listInsertBefore_of_notMem hy hhops, map_some,
      hset]

theorem Slists.Holds.refines (h : s.Holds seqs) (hhops : ∀ i, (seqs i).length ≤ hops) :
    s.Refines hops seqs := by
  constructor
  · exact h
  · exact fun i y hy x => h.run_of_notMem hy (hhops i) x
  · intro i x cmp hstrict hx hsorted
    obtain ⟨s', hrun, hholds⟩ := h.step (c := .insert i x cmp) hx hhops
    have halike := StrictInsert.filter_insert hsorted x
    refine ⟨s', _, hrun, hholds, perm_orderedInsert _ x _, hsorted.insert x, halike, ?_⟩
    intro hweak e
    have hequal : ∀ y, StrictInsert.Alike (fun a b => cmp a b = true) y e ↔
        (!cmp y e && !cmp e y) = true := by
      intro y
      rw [StrictInsert.alike_iff]
      simp
    simpa only [hequal, Bool.decide_eq_true] using halike e

/-- **The list functions refine sequences**, from `list_init` on and whatever is called, when a walk
may have hops enough. -/
theorem slist_refines_sequences (next : Links) (calls : List (SlistCall ι))
    (hcalls : SlistCall.AllAllowed calls fun _ => []) :
    ∃ bound, ∀ hops, bound ≤ hops → ∃ s : Slists ι,
      SlistCall.runs hops calls ⟨fun _ => listInit, next⟩ =
          some ((SlistCall.specs calls fun _ => []).1, s) ∧
        s.Refines hops (SlistCall.specs calls fun _ => []).2 := by
  have hempty : Bounded fun _ : ι => ([] : List Ptr) := ⟨0, fun _ => le_rfl⟩
  obtain ⟨bound, hbound⟩ := Slists.Holds.runs hcalls hempty
  obtain ⟨n, hn⟩ := hempty.specs calls
  refine ⟨bound + n, fun hops hhops => ?_⟩
  obtain ⟨s, hrun, hholds⟩ := hbound hops (by omega) ⟨fun _ => listInit, next⟩ (holds_init next)
  exact ⟨s, hrun, hholds.refines fun i => (hn i).trans (by omega)⟩

/-- Two lists: one is filled by insertion, is put behind the other one and is gone through. -/
theorem slist_refines_sequences_two :
    ∃ bound, ∀ hops, bound ≤ hops → ∃ s : Slists Bool,
      SlistCall.runs hops [.pushBack true 8, .insert false 16 (· < ·), .insert false 12 (· < ·),
          .concat true false, .extract true 12, .popFront true, .cnt true]
          ⟨fun _ => listInit, fun _ => none⟩ =
          some ([.void, .void, .void, .void, .void, .elt (some 8), .cnt 1], s) ∧
        s.Refines hops fun i => if i then [16] else [] := by
  have h := slist_refines_sequences (fun _ => none)
    [.pushBack true 8, .insert false 16 (· < ·), .insert false 12 (· < ·),
      .concat true false, .extract true 12, .popFront true, .cnt true] (by
        simp [SlistCall.AllAllowed, SlistCall.Allowed, SlistCall.spec, Fresh])
  have hseqs : (SlistCall.specs [.pushBack true 8, .insert false 16 (· < ·),
      .insert false 12 (· < ·), .concat true false, .extract true 12, .popFront true, .cnt true]
      fun _ => []) = ([.void, .void, .void, .void, .void, .elt (some 8), .cnt 1],
        fun i : Bool => if i then [16] else []) := by
    refine Prod.ext rfl ?_
    funext i
    cases i <;> rfl
  rw [hseqs] at h
  exact h

end Gd32
