import Gd32Firmware.Nvds.Records

/-!
# The store

All used pages together: a store is the lists of used and free pages and, for every used page,
its header and its records. `Nvds.Rep` ties it to an environment and to the flash under it.

The records of the pages that are searched, in the order of the used list, are the *cells* of the
store. `element_find` is a search in the list of cells, wherever it starts
(`Nvds.elementFind_eq`, `Nvds.elementFind_from`), and what it finds is read through the
cell (`Nvds.entryRead_cell`, `Nvds.copyData_cell`).
-/

namespace Gd32

open List

variable {k j : ℕ} {X Y : List Cell} {ks : List ℕ}

namespace Nvds

open NorFlash LittleEndian

/-! ### Stores and cells -/

/-- A page: its header and its records. -/
structure APage where
  header : PageHeader
  recs : List Rec

/-- The page is one that `element_find` looks into. -/
def APage.searched (A : APage) : Bool :=
  decide (A.header.state = pageActive) || decide (A.header.state = pageFull)

/-- The slots in use. -/
def APage.usedCnt (A : APage) : ℕ := recsSize (A.recs.filter Rec.live)

/-- The lists of pages, and the pages. -/
structure Store where
  used : List ℕ
  free : List ℕ
  page : ℕ → APage

/-- A record and where it is. -/
structure Cell where
  page : ℕ
  idx : ℕ
  record : Rec

/-- The cells of the records of page `k` that start at index `o`. -/
def pageCells (k : ℕ) : ℕ → List Rec → List Cell
  | _, [] => []
  | o, r :: rs => ⟨k, o, r⟩ :: pageCells k (o + r.size) rs

/-- The cells of a page. -/
def Store.cellsOf (S : Store) (k : ℕ) : List Cell :=
  if (S.page k).searched then pageCells k 0 (S.page k).recs else []

/-- The cells of a store. -/
def Store.cells (S : Store) : List Cell := S.used.flatMap S.cellsOf

theorem pageCells_append (k o : ℕ) (rs ss : List Rec) :
    pageCells k o (rs ++ ss) = pageCells k o rs ++ pageCells k (o + recsSize rs) ss := by
  induction rs generalizing o with
  | nil => simp [pageCells]
  | cons r rs ih => simp [pageCells, ih, add_assoc]

theorem map_record_pageCells (k o : ℕ) (rs : List Rec) :
    (pageCells k o rs).map Cell.record = rs := by
  induction rs generalizing o with
  | nil => rfl
  | cons r rs ih => simp [pageCells, ih]

/-- A cell of a page, with the records in front of it and behind it. -/
theorem split_pageCells {o : ℕ} {rs : List Rec} {c : Cell}
    (h : pageCells k o rs = X ++ c :: Y) :
    ∃ pre post, rs = pre ++ c.record :: post ∧ c.page = k ∧ c.idx = o + recsSize pre ∧
      X = pageCells k o pre ∧ Y = pageCells k (c.idx + c.record.size) post := by
  induction rs generalizing o X with
  | nil => simp [pageCells] at h
  | cons r rs ih =>
    cases X with
    | nil =>
      obtain ⟨rfl, rfl⟩ := List.cons.inj h
      exact ⟨[], rs, rfl, rfl, rfl, rfl, rfl⟩
    | cons x X =>
      obtain ⟨rfl, htail⟩ := List.cons.inj h
      obtain ⟨pre, post, rfl, hk, hidx, rfl, rfl⟩ := ih htail
      exact ⟨r :: pre, post, rfl, hk, by rw [hidx, recsSize_cons, add_assoc], rfl, rfl⟩

/-- **A cell of the store**, with what is in front of it and behind it. -/
theorem split_cells {S : Store} {c : Cell}
    (h : ks.flatMap S.cellsOf = X ++ c :: Y) :
    ∃ l₁ l₂ pre post, ks = l₁ ++ c.page :: l₂ ∧ (S.page c.page).searched = true ∧
      (S.page c.page).recs = pre ++ c.record :: post ∧ c.idx = recsSize pre ∧
      X = l₁.flatMap S.cellsOf ++ pageCells c.page 0 pre ∧
      Y = pageCells c.page (c.idx + c.record.size) post ++ l₂.flatMap S.cellsOf := by
  induction ks generalizing X with
  | nil => simp at h
  | cons k ks ih =>
    -- the cell is on the first page or behind it
    rcases append_eq_append_iff.mp h with ⟨Z, rfl, hZ⟩ | ⟨Z, hZ, hY⟩
    · obtain ⟨l₁, l₂, pre, post, rfl, hs, hrecs, hidx, hX, hY⟩ := ih hZ
      exact ⟨k :: l₁, l₂, pre, post, rfl, hs, hrecs, hidx, by simp [hX], hY⟩
    · cases Z with
      | nil =>
        obtain ⟨l₁, l₂, pre, post, rfl, hs, hrecs, hidx, hX, hY⟩ := ih (X := []) hY.symm
        refine ⟨k :: l₁, l₂, pre, post, rfl, hs, hrecs, hidx, ?_, hY⟩
        rw [append_nil] at hZ
        rw [← hZ, flatMap_cons, append_assoc, ← hX, append_nil]
      | cons z Z =>
        obtain ⟨rfl, rfl⟩ := List.cons.inj hY
        rw [Store.cellsOf] at hZ
        split at hZ
        · next hs =>
          obtain ⟨pre, post, hrecs, hk, hidx, hX, hZ'⟩ := split_pageCells hZ
          subst hk
          rw [zero_add] at hidx
          refine ⟨[], ks, pre, post, rfl, hs, hrecs, hidx, by simpa using hX, ?_⟩
          rw [← hZ']
          rfl
        · simp at hZ

/-! ### Representation -/

/-- The page `P` has the header and the records of `A`. -/
structure Draws (P : SlotPage) (A : APage) : Prop where
  header : P.header = A.header
  laid : Laid P A.recs

/-- The environment lets the used pages of the store be read. -/
structure View (n : ℕ) (env : FlashEnv) (S : Store) : Prop where
  geo : Geometry env n
  used_eq : env.pageUsed = S.used
  nodup_used : S.used.Nodup
  used_lt : ∀ k ∈ S.used, k < n
  views : ∀ k ∈ S.used, ∃ P, Shows env k P ∧ Draws P (S.page k)

/-- The page `k` of an environment has the header and the records of `A`, with nothing behind
them, and counts them. -/
structure PageRep (env : FlashEnv) (k : ℕ) (A : APage) : Prop where
  page : ∃ P, Mirrors env k P ∧ Draws P A ∧ P.slots = recsSlots A.recs
  cnt : (env.pages k).entryCntUsed = A.usedCnt

/-- The page `k` of an environment is free: its sector is blank, and known to be so. -/
structure FreeRep (env : FlashEnv) (k : ℕ) : Prop where
  state : (env.pages k).header.state = pageUninitialized
  base : (env.pages k).baseAddr = 4096 * k
  holds : Holds env.flash (env.addr k) .blank

/-- **The environment represents the store**, over a partition of `n` sectors. -/
structure Rep (n : ℕ) (env : FlashEnv) (S : Store) : Prop where
  geo : Geometry env n
  used_eq : env.pageUsed = S.used
  free_eq : env.pageFree = S.free
  nodup : (S.used ++ S.free).Nodup
  mem_iff : ∀ k, k ∈ S.used ++ S.free ↔ k < n
  pages : ∀ k ∈ S.used, PageRep env k (S.page k)
  frees : ∀ k ∈ S.free, FreeRep env k

theorem Rep.used_lt {n : ℕ} {env : FlashEnv} {S : Store} (h : Rep n env S)
    (hk : k ∈ S.used) : k < n := (h.mem_iff k).mp (by simp [hk])

theorem Rep.free_lt {n : ℕ} {env : FlashEnv} {S : Store} (h : Rep n env S)
    (hk : k ∈ S.free) : k < n := (h.mem_iff k).mp (by simp [hk])

theorem Rep.view {n : ℕ} {env : FlashEnv} {S : Store} (h : Rep n env S) : View n env S where
  geo := h.geo
  used_eq := h.used_eq
  nodup_used := (nodup_append.mp h.nodup).1
  used_lt _ := h.used_lt
  views k hk := by
    obtain ⟨⟨P, hm, hd, -⟩, -⟩ := h.pages k hk
    exact ⟨P, hm.toShows, hd⟩

/-- The records of a page fit its slots. -/
theorem View.size {n : ℕ} {env : FlashEnv} {S : Store} (h : View n env S) :
    ∀ k ∈ S.used, recsSize (S.page k).recs ≤ 126 := by
  intro k hk
  obtain ⟨P, -, hd⟩ := h.views k hk
  exact hd.laid.size

/-! ### Searching -/

/-- The cell is in use and fits. -/
def Cell.hit (ns : ℕ) (key : CString) (type : ElementType) (c : Cell) : Bool :=
  c.record.live && elementHit ns key type c.record.hdr

/-- The result of a search for a cell. -/
def foundAt : Option Cell → Except NvdsErr (ℕ × ℕ)
  | none => .error .notFound
  | some c => .ok (c.page, c.idx)

theorem firstHit_eq (ns : ℕ) (key : CString) (type : ElementType) (k o : ℕ) (rs : List Rec) :
    firstHit (elementHit ns key type) o rs =
      ((pageCells k o rs).find? (Cell.hit ns key type)).map Cell.idx := by
  induction rs generalizing o with
  | nil => rfl
  | cons r rs ih =>
    rw [firstHit, pageCells]
    by_cases h : (r.live && elementHit ns key type r.hdr) = true
    · rw [if_pos h, List.find?_cons_of_pos (show Cell.hit ns key type ⟨k, o, r⟩ = true from h)]
      rfl
    · rw [if_neg h, List.find?_cons_of_neg (show ¬Cell.hit ns key type ⟨k, o, r⟩ = true from h), ih]

theorem page_of_mem_pageCells {o : ℕ} {rs : List Rec} {c : Cell} (h : c ∈ pageCells k o rs) :
    c.page = k := by
  obtain ⟨X, Y, hXY⟩ := append_of_mem h
  obtain ⟨-, -, -, hk, -⟩ := split_pageCells hXY
  exact hk

section Search

variable {rom : NvdsRom} (hrom : rom.Reliable) {n : ℕ} {env : FlashEnv} {S : Store}
  (hrep : View n env S) (ns : ℕ) (key : CString) (type : ElementType)
include hrep

theorem pageSearched_eq (hk : k ∈ S.used) :
    pageSearched (env.pages k) = (S.page k).searched := by
  obtain ⟨P, hm, hd⟩ := hrep.views k hk
  rw [pageSearched, APage.searched, hm.header, hd.header]

include hrom

/-- The walk over pages, the first one from the record behind `pre` on. -/
theorem pageWalk_cons (hks : ∀ j ∈ k :: ks, j ∈ S.used)
    {pre post : List Rec} (hrecs : (S.page k).recs = pre ++ post)
    (hs : (S.page k).searched = true)
    (hrest : pageWalk rom env ns key type ks 0 =
      some (foundAt ((ks.flatMap S.cellsOf).find? (Cell.hit ns key type)))) :
    pageWalk rom env ns key type (k :: ks) (recsSize pre) =
      some (foundAt ((pageCells k (recsSize pre) post ++ ks.flatMap S.cellsOf).find?
        (Cell.hit ns key type))) := by
  have hk : k ∈ S.used := hks k (by simp)
  obtain ⟨P, hm, -, hlaid⟩ := hrep.views k hk
  rw [hrecs] at hlaid
  have hfuel : post.length < 256 := by
    have h1 := hlaid.size
    have h2 := length_le_recsSize post
    rw [recsSize_append] at h1
    omega
  rw [pageWalk, pageSearched_eq hrep hk, if_pos hs,
    entryWalk_eq hrom hrep.geo (hrep.used_lt k hk) hm ns key type hlaid hfuel,
    firstHit_eq ns key type k, List.find?_append]
  rcases hfind : (pageCells k (recsSize pre) post).find? (Cell.hit ns key type) with _ | c
  · exact hrest
  · have hpage := page_of_mem_pageCells (mem_of_find?_eq_some hfind)
    simp only [Option.map_some, Option.some_or, foundAt, hpage]

theorem pageWalk_eq (hks : ∀ j ∈ ks, j ∈ S.used) :
    pageWalk rom env ns key type ks 0 =
      some (foundAt ((ks.flatMap S.cellsOf).find? (Cell.hit ns key type))) := by
  induction ks with
  | nil => rfl
  | cons k ks ih =>
    have hrest := ih fun j hj => hks j (by simp [hj])
    rw [flatMap_cons, Store.cellsOf]
    cases hs : (S.page k).searched with
    | true =>
      exact pageWalk_cons hrom hrep ns key type hks (nil_append _).symm hs hrest
    | false =>
      rw [pageWalk, pageSearched_eq hrep (hks k (by simp)), hs]
      simpa using hrest

/-- **A search from the start** is a search in the cells of the store. -/
theorem elementFind_eq :
    elementFind rom env ns key none 0 type =
      some (foundAt (S.cells.find? (Cell.hit ns key type))) := by
  rw [elementFind, hrep.used_eq]
  exact pageWalk_eq hrom hrep ns key type fun _ h => h

/-- **A search from behind a cell** is a search in the cells that follow it. -/
theorem elementFind_from {c : Cell} (h : S.cells = X ++ c :: Y) :
    elementFind rom env ns key (some c.page) (c.idx + c.record.size) type =
      some (foundAt (Y.find? (Cell.hit ns key type))) := by
  obtain ⟨l₁, l₂, pre, post, hused, hs, hrecs, hidx, -, rfl⟩ := split_cells h
  have hnd := hrep.nodup_used
  have hdrop : env.pageUsed.dropWhile (· ≠ c.page) = c.page :: l₂ := by
    have hl₁ : c.page ∉ l₁ := by
      rw [hused, nodup_append] at hnd
      intro hmem
      exact hnd.2.2 _ hmem c.page (by simp) rfl
    rw [hrep.used_eq, hused, dropWhile_append_of_pos]
    · rw [dropWhile_cons_of_neg (by simp)]
    · intro j hj
      have hne : j ≠ c.page := fun e => hl₁ (e ▸ hj)
      simpa using hne
  have hstart : c.idx + c.record.size = recsSize (pre ++ [c.record]) := by
    simp [hidx]
  rw [elementFind, hdrop, hstart]
  have hsub : ∀ j ∈ c.page :: l₂, j ∈ S.used := by
    intro j hj
    rw [hused]
    exact mem_append_right _ hj
  exact pageWalk_cons hrom hrep ns key type hsub (by simpa using hrecs) hs
    (pageWalk_eq hrom hrep ns key type fun j hj => hsub j (by simp [hj]))

end Search

/-! ### Reading through a cell -/

section Read

variable {rom : NvdsRom} (hrom : rom.Reliable) {n : ℕ} {env : FlashEnv} {S : Store}
  (hrep : View n env S) {c : Cell} (hc : c ∈ S.cells)
include hrep hc

/-- A cell of the store: the page it is on, laid out around its record. -/
theorem shows_cell :
    ∃ P pre post, c.page ∈ S.used ∧ Shows env c.page P ∧
      (S.page c.page).recs = pre ++ c.record :: post ∧
      Laid P (pre ++ c.record :: post) ∧ c.idx = recsSize pre ∧
      recsSize pre + c.record.size + recsSize post ≤ 126 := by
  obtain ⟨X, Y, hXY⟩ := append_of_mem hc
  obtain ⟨l₁, l₂, pre, post, hused, hs, hrecs, hidx, -, -⟩ := split_cells hXY
  have hmem : c.page ∈ S.used := by
    rw [hused]
    simp
  obtain ⟨P, hm, -, hlaid⟩ := hrep.views c.page hmem
  rw [hrecs] at hlaid
  refine ⟨P, pre, post, hmem, hm, hrecs, hlaid, hidx, ?_⟩
  simpa [add_assoc] using hlaid.size

theorem wf_cell : c.record.Wf := by
  obtain ⟨P, pre, post, -, -, -, hlaid, -⟩ := shows_cell hrep hc
  exact hlaid.wf _ (by simp)

include hrom

/-- The slots of a cell. -/
theorem entryRead_slot_cell (hj : j < c.record.size) :
    entryRead rom env c.page (c.idx + j) = .ok (c.record.slots.getD j blankSlot) := by
  obtain ⟨P, pre, post, hmem, hm, -, hlaid, hidx, hsize⟩ := shows_cell hrep hc
  rw [hidx, entryRead_slot hrom hrep.geo (hrep.used_lt _ hmem) hm (by omega), hlaid.getD_slots hj]

/-- **The header of a cell.** -/
theorem entryRead_cell : entryRead rom env c.page c.idx = .ok c.record.hdr := by
  have h := entryRead_slot_cell hrom hrep hc c.record.size_pos
  simpa [Rec.slots] using h

omit hrom hrep hc in
/-- The first bytes of a slot and of what follows it. -/
theorem take_slot_append {slot : List UInt8} (hslot : slot.length = 32) (rest : List UInt8)
    (m : ℕ) :
    (slot ++ rest).take m = slot.take (min m 32) ++ rest.take (m - min m 32) := by
  rw [take_append, hslot]
  rcases lt_or_ge m 32 with hm | hm
  · rw [min_eq_left (by omega), Nat.sub_self, show m - 32 = 0 by omega]
  · rw [min_eq_right hm, take_of_length_le (show slot.length ≤ m by omega),
      take_of_length_le (show slot.length ≤ 32 by omega)]

omit hrom hrep hc in
/-- Comparing with a slot and then with what follows it. -/
theorem take_eq_take_slot_append {slot : List UInt8} (hslot : slot.length = 32)
    (dst rest : List UInt8) (m : ℕ) :
    dst.take m = (slot ++ rest).take m ↔
      dst.take (min m 32) = slot.take (min m 32) ∧
        (dst.drop (min m 32)).take (m - min m 32) = rest.take (m - min m 32) := by
  have hle : min m 32 ≤ m := min_le_left _ _
  have hdst : dst.take m =
      dst.take (min m 32) ++ (dst.drop (min m 32)).take (m - min m 32) := by
    rw [← take_add, Nat.add_sub_cancel' hle]
  rw [take_slot_append hslot, hdst]
  constructor
  · intro h
    refine append_inj h ?_
    -- a shorter buffer would be shorter than the slot
    have hlen := congrArg List.length h
    simp only [length_append, length_take, length_drop, hslot] at hlen ⊢
    omega
  · rintro ⟨h1, h2⟩
    rw [h1, h2]

/-- A data slot of a cell, where the loops over the slots read it. -/
theorem dataSlot_at (hj : j < c.record.data.length) :
    entryRead rom env c.page (c.idx + 1 + j) = .ok c.record.data[j] ∧
      (c.record.data[j]).length = 32 ∧ u8 (c.idx + 1 + j + 1) = c.idx + 1 + (j + 1) := by
  obtain ⟨P, pre, post, -, -, -, -, hidx, hsize⟩ := shows_cell hrep hc
  rw [Rec.size] at hsize
  refine ⟨?_, (wf_cell hrep hc).length_slot _ (getElem_mem hj), ?_⟩
  · rw [add_assoc c.idx,
      entryRead_slot_cell hrom hrep hc (show 1 + j < c.record.size by rw [Rec.size]; omega),
      Rec.slots, add_comm 1 j, getD_cons_succ, getD_eq_getElem _ _ hj]
  · rw [u8_of_lt (by omega)]
    omega

/-- The copy loop over the last data slots of a cell. -/
theorem copyData_tail {remain fuel : ℕ} (hj : j ≤ c.record.data.length)
    (hfuel : c.record.data.length - j < fuel)
    (hremain : remain ≤ 32 * (c.record.data.length - j)) :
    copyData rom env c.page (c.idx + c.record.data.length) fuel (c.idx + 1 + j) remain =
      some (((c.record.data.drop j).flatten).take remain, .ok ()) := by
  induction fuel generalizing j remain with
  | zero => omega
  | succ fuel ih =>
    rw [copyData]
    rcases lt_or_ge j c.record.data.length with hlt | hge
    · obtain ⟨hread, hlen, hnext⟩ := dataSlot_at hrom hrep hc hlt
      rw [if_neg (by omega), hread]
      simp only [hnext, entrySize]
      rw [ih (by omega) (by omega) (by omega), drop_eq_getElem_cons hlt, flatten_cons,
        take_slot_append hlen, Option.map_some]
    · rw [if_pos (by omega), drop_eq_nil_of_le hge]
      simp

/-- **The copy loop reads the data of a cell.** -/
theorem copyData_cell {len : ℕ} (hlen : entriesOf len = c.record.data.length) :
    copyData rom env c.page (u8 (c.idx + entriesOf len)) 257 (u8 (c.idx + 1)) len =
      some ((c.record.data.flatten).take len, .ok ()) := by
  obtain ⟨P, pre, post, -, -, -, -, hidx, hsize⟩ := shows_cell hrep hc
  rw [Rec.size] at hsize
  rw [hlen, u8_of_lt (by omega), u8_of_lt (by omega)]
  have h := copyData_tail hrom hrep hc (Nat.zero_le _) (show _ < 257 by omega)
    (show len ≤ 32 * (c.record.data.length - 0) by
      simp only [entriesOf, entrySize] at hlen
      omega)
  simpa using h

/-- The compare loop over the last data slots of a cell. -/
theorem compareData_tail {remain fuel : ℕ} (hj : j ≤ c.record.data.length)
    (hfuel : c.record.data.length - j < fuel)
    (hremain : remain ≤ 32 * (c.record.data.length - j)) (dst : List UInt8) :
    compareData rom env c.page (c.idx + c.record.data.length) fuel (c.idx + 1 + j) remain dst =
      some (decide (dst.take remain = ((c.record.data.drop j).flatten).take remain)) := by
  induction fuel generalizing j remain dst with
  | zero => omega
  | succ fuel ih =>
    rw [compareData]
    rcases lt_or_ge j c.record.data.length with hlt | hge
    · obtain ⟨hread, hlen, hnext⟩ := dataSlot_at hrom hrep hc hlt
      rw [if_neg (by omega), hread]
      simp only [hnext, entrySize]
      rw [ih (by omega) (by omega) (by omega), drop_eq_getElem_cons hlt, flatten_cons]
      have hiff := take_eq_take_slot_append hlen dst (c.record.data.drop (j + 1)).flatten remain
      by_cases h1 : dst.take (min remain 32) = (c.record.data[j]).take (min remain 32)
      · rw [if_neg (not_not.mpr h1)]
        simp only [hiff, h1, true_and]
      · rw [if_pos h1]
        simp only [hiff, h1, false_and, decide_false]
    · rw [if_pos (by omega), drop_eq_nil_of_le hge]
      have hzero : remain = 0 := by omega
      simp [hzero]

/-- **The compare loop compares with the data of a cell.** -/
theorem compareData_cell {len : ℕ} (hlen : entriesOf len = c.record.data.length)
    (dst : List UInt8) :
    compareData rom env c.page (u8 (c.idx + entriesOf len)) 257 (u8 (c.idx + 1)) len dst =
      some (decide (dst.take len = (c.record.data.flatten).take len)) := by
  obtain ⟨P, pre, post, -, -, -, -, hidx, hsize⟩ := shows_cell hrep hc
  rw [Rec.size] at hsize
  rw [hlen, u8_of_lt (by omega), u8_of_lt (by omega)]
  have h := compareData_tail hrom hrep hc (Nat.zero_le _) (show _ < 257 by omega)
    (show len ≤ 32 * (c.record.data.length - 0) by
      simp only [entriesOf, entrySize] at hlen
      omega)
  simpa using h dst

end Read

end Nvds

end Gd32
