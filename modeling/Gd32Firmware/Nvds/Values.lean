import Gd32Firmware.Nvds.Turnover
import Mathlib.Algebra.BigOperators.Group.Finset.Basic
import Mathlib.Tactic.Abel

/-!
# The values of a store

The records in use, without their places, are a multiset (`Nvds.liveOf`): all that a read
depends on. A value is kept by one record when it is small or of middle size, and by its
fragments and the record that counts them when it is larger (`Nvds.Keeps`). What is read
and compared is then the value, wherever its records are (`Nvds.dataElementGet_keeps`,
`Nvds.elementCompare_keeps`).
-/

namespace Gd32

open List Function Multiset

variable {m i l : ℕ} {v rest : List UInt8} {b : Body} {lens : List ℕ}

namespace Nvds

open NorFlash LittleEndian

/-! ### The fields of new headers -/

section Header

variable {ns frag len : ℕ} {key : CString} {type : ElementType} {val : List UInt8}

/-- The fields of a header are in the ranges of their widths. -/
structure InFields (ns : ℕ) (type : ElementType) (frag len : ℕ) (key : CString)
    (val : List UInt8) : Prop where
  ns_lt : ns < 256
  type_eq : ElementType.ofCode type.code = type
  code_lt : type.code < 8
  frag_lt : frag < 32
  len_lt : len < 256 ^ 2
  key_lt : key.len < keyNameMaxSize
  length_val : val.length = 8

namespace InFields

variable (h : InFields ns type frag len key val)
include h

theorem length_eq : (newEntry (tagSet ns type frag) len key val).length = 32 :=
  length_layout h.key_lt h.length_val

theorem ns_eq : Entry.ns (newEntry (tagSet ns type frag) len key val) = ns := by
  rw [Entry.ns, newEntry, tag_layout (tagSet_lt _ _ _),
    tagNamespaceGet_tagSet h.ns_lt h.frag_lt h.code_lt]

theorem entryType_eq : Entry.type (newEntry (tagSet ns type frag) len key val) = type := by
  rw [Entry.type, newEntry, tag_layout (tagSet_lt _ _ _),
    tagElementTypeGet_tagSet h.ns_lt h.frag_lt h.code_lt, h.type_eq]

theorem fragno_eq : Entry.fragno (newEntry (tagSet ns type frag) len key val) = frag := by
  rw [Entry.fragno, newEntry, tag_layout (tagSet_lt _ _ _),
    tagFragnoGet_tagSet h.ns_lt h.frag_lt h.code_lt]

theorem len_eq : Entry.len (newEntry (tagSet ns type frag) len key val) = len :=
  len_layout h.len_lt

theorem key_eq : Entry.key (newEntry (tagSet ns type frag) len key val) = key.bytes :=
  key_layout h.key_lt

theorem val_eq : Entry.val (newEntry (tagSet ns type frag) len key val) = val :=
  val_layout h.key_lt h.length_val

/-- **Which searches find a new header.** -/
theorem hit_iff (ns' : ℕ) (key' : CString) (type' : ElementType) :
    elementHit ns' key' type' (newEntry (tagSet ns type frag) len key val) = true ↔
      ns' = ns ∧ key' = key ∧ (type' = .any ∨ type = type') := by
  have hkey : key'.bytes = key.bytes ↔ key' = key :=
    ⟨CString.ext_bytes, fun e => by rw [e]⟩
  simp only [elementHit, h.ns_eq, h.key_eq, h.entryType_eq, crc_newEntry h.key_lt h.length_val,
    Bool.and_eq_true, Bool.or_eq_true, decide_eq_true_eq, hkey, and_true, and_assoc]

/-- The second half of the value field. -/
theorem info_eq (hm : m < 256 ^ 4) (hval : val = infoVal m) :
    value (Entry.field (newEntry (tagSet ns type frag) len key val) 28 4) = m := by
  have hfield : Entry.field (newEntry (tagSet ns type frag) len key val) 28 4 =
      Entry.field val 4 4 := by
    conv_rhs => rw [← h.val_eq, Entry.val, Entry.field, Entry.field, drop_take,
      take_take, drop_drop]
    rfl
  rw [hfield, hval, infoVal, field_append_right (by simp),
    take_of_length_le (by simp), value_bytes hm]

end InFields

theorem length_infoVal (m : ℕ) : (infoVal m).length = 8 := by simp [infoVal]

theorem length_smallVal (h : v.length ≤ 8) : (smallVal v).length = 8 := by
  simp [smallVal, elementSmallMaxSize]
  omega

end Header

/-! ### Data in slots -/

theorem flatten_slots (g : ℕ → UInt8) (m : ℕ) :
    ((List.range m).map fun j => (List.range 32).map fun i => g (32 * j + i)).flatten =
      (List.range (32 * m)).map g := by
  induction m with
  | zero => rfl
  | succ m ih =>
    rw [List.range_succ (n := m), map_append, flatten_append, ih, Nat.mul_succ,
      List.range_add, map_append, List.map_map]
    rfl

/-- **The data are read back from their slots.** -/
theorem take_flatten_slotsOf (bs : List UInt8) : (slotsOf bs).flatten.take bs.length = bs := by
  have hlen : bs.length ≤ 32 * entriesOf bs.length := by
    simp only [entriesOf, entrySize]
    omega
  have hflat : (slotsOf bs).flatten =
      (List.range (32 * entriesOf bs.length)).map fun i => bs.getD i blank :=
    flatten_slots (fun i => bs.getD i blank) _
  rw [hflat]
  refine ext_getElem (by simp [hlen]) fun i h1 h2 => ?_
  rw [getElem_take, getElem_map, getElem_range, getD_eq_getElem _ _ h2]

/-! ### The records in use -/

/-- The header and the data of a record. -/
abbrev Body := Entry × List (List UInt8)

/-- The header and the data of a record. -/
def Rec.body (r : Rec) : Body := (r.hdr, r.data)

/-- The records in use among some records. -/
def recsLive (rs : List Rec) : Multiset Body := ((rs.filter Rec.live).map Rec.body : List Body)

theorem recsLive_append (rs ss : List Rec) : recsLive (rs ++ ss) = recsLive rs + recsLive ss := by
  simp [recsLive]

theorem recsLive_cons (r : Rec) (rs : List Rec) :
    recsLive (r :: rs) = (if r.live then {r.body} else 0) + recsLive rs := by
  cases h : r.live <;> simp [recsLive, h]

@[simp] theorem recsLive_nil : recsLive [] = 0 := rfl

theorem recsLive_filter (rs : List Rec) : recsLive (rs.filter Rec.live) = recsLive rs := by
  simp [recsLive, List.filter_filter]

/-- The records in use of a page that is searched. -/
def pageLive : Option APage → Multiset Body
  | none => 0
  | some A => if A.searched then recsLive A.recs else 0

/-- The records in use of a shot. -/
def liveOf (n : ℕ) (T : Shot) : Multiset Body := ∑ k ∈ Finset.range n, pageLive (T k)

/-- Changing a shot at one sector. -/
theorem liveOf_update {n k : ℕ} (hk : k < n) (T : Shot) (o : Option APage) :
    liveOf n (update T k o) + pageLive (T k) = liveOf n T + pageLive o := by
  have hmem : k ∈ Finset.range n := Finset.mem_range.mpr hk
  rw [liveOf, liveOf, ← Finset.add_sum_erase _ _ hmem,
    ← Finset.add_sum_erase (Finset.range n) _ hmem, update_self]
  have hrest : ∑ j ∈ (Finset.range n).erase k, pageLive (update T k o j) =
      ∑ j ∈ (Finset.range n).erase k, pageLive (T j) := by
    refine Finset.sum_congr rfl fun j hj => ?_
    rw [update_of_ne (Finset.ne_of_mem_erase hj)]
  rw [hrest]
  abel

theorem coe_flatMap_cells (S : Store) (ks : List ℕ) :
    (((ks.flatMap S.cellsOf).filter fun c => c.record.live).map fun c => c.record.body :
      Multiset Body) = (ks.map fun k => pageLive (some (S.page k))).sum := by
  induction ks with
  | nil => rfl
  | cons k ks ih =>
    have hpage : (((S.cellsOf k).filter fun c => c.record.live).map fun c => c.record.body :
        Multiset Body) = pageLive (some (S.page k)) := by
      rw [Store.cellsOf, pageLive]
      split
      · rw [recsLive, ← map_record_pageCells k 0 (S.page k).recs, List.filter_map, List.map_map]
        simp only [map_record_pageCells]
        rfl
      · rfl
    rw [flatMap_cons, filter_append, map_append, ← coe_add, ih, hpage,
      List.map_cons, List.sum_cons]

/-- **The cells in use of a store** are the records in use of its shot. -/
theorem coe_live_cells {n : ℕ} {S : Store} (hnd : S.used.Nodup) (hlt : ∀ k ∈ S.used, k < n) :
    ((S.cells.filter fun c => c.record.live).map fun c => c.record.body : Multiset Body) =
      liveOf n S.shot := by
  rw [Store.cells, coe_flatMap_cells, ← sum_toFinset _ hnd, liveOf]
  refine (Finset.sum_subset_zero_on_sdiff ?_ ?_ ?_)
  · intro k hk
    exact Finset.mem_range.mpr (hlt k (List.mem_toFinset.mp hk))
  · intro k hk
    have hnot : k ∉ S.used := fun h => (Finset.mem_sdiff.mp hk).2 (List.mem_toFinset.mpr h)
    rw [Store.shot, if_neg hnot]
    rfl
  · intro k hk
    rw [Store.shot, if_pos (List.mem_toFinset.mp hk)]

/-- A cell in use is among the records in use, -/
theorem body_mem_liveOf {n : ℕ} {S : Store} (hnd : S.used.Nodup) (hlt : ∀ k ∈ S.used, k < n)
    {c : Cell} (hc : c ∈ S.cells) (hlive : c.record.live = true) :
    c.record.body ∈ liveOf n S.shot := by
  rw [← coe_live_cells hnd hlt, mem_coe, List.mem_map]
  exact ⟨c, mem_filter.mpr ⟨hc, hlive⟩, rfl⟩

/-- and every record in use is in a cell. -/
theorem cell_of_mem_liveOf {n : ℕ} {S : Store} (hnd : S.used.Nodup) (hlt : ∀ k ∈ S.used, k < n) (hb : b ∈ liveOf n S.shot) :
    ∃ c ∈ S.cells, c.record.live = true ∧ c.record.body = b := by
  rw [← coe_live_cells hnd hlt, mem_coe, List.mem_map] at hb
  obtain ⟨c, hc, rfl⟩ := hb
  rw [mem_filter] at hc
  exact ⟨c, hc.1, hc.2, rfl⟩

/-! ### The records of a key -/

/-- The records in use of a key. -/
def own (n : ℕ) (T : Shot) (ns : ℕ) (key : CString) : Multiset Body :=
  (liveOf n T).filter fun b => elementHit ns key .any b.1 = true

/-- A search for a type is a search for any type that looks at the type as well. -/
theorem elementHit_type (ns : ℕ) (key : CString) (type : ElementType) (e : Entry) :
    elementHit ns key type e = (elementHit ns key .any e &&
      (decide (type = .any) || decide (Entry.type e = type))) := by
  rw [elementHit, elementHit]
  cases decide (type = .any) || decide (Entry.type e = type) <;> simp

section Own

variable {n : ℕ} {S : Store} (hnd : S.used.Nodup) (hlt : ∀ k ∈ S.used, k < n) (ns : ℕ)
  (key : CString)
include hnd hlt

/-- Searching the cells for records of a key. -/
theorem find_own (q : Body → Bool) :
    match S.cells.find? fun c => Cell.hit ns key .any c && q c.record.body with
    | none => ∀ b ∈ own n S.shot ns key, q b = false
    | some c => c ∈ S.cells ∧ c.record.body ∈ own n S.shot ns key ∧ q c.record.body = true := by
  split
  · next hnone =>
    intro b hb
    obtain ⟨hb, hhit⟩ := mem_filter.mp hb
    obtain ⟨c, hc, hlive, rfl⟩ := cell_of_mem_liveOf hnd hlt hb
    have hnot := List.find?_eq_none.mp hnone c hc
    simpa [Cell.hit, hlive, show elementHit ns key .any c.record.hdr = true from hhit] using hnot
  · next c hsome =>
    have hp := List.find?_some hsome
    have hc := mem_of_find?_eq_some hsome
    simp only [Cell.hit, Bool.and_eq_true] at hp
    exact ⟨hc, mem_filter.mpr ⟨body_mem_liveOf hnd hlt hc hp.1.1, hp.1.2⟩, hp.2⟩

/-- Searching the cells for records of a key and a type. -/
theorem find_type (type : ElementType) :
    match S.cells.find? (Cell.hit ns key type) with
    | none => ∀ b ∈ own n S.shot ns key, type ≠ .any ∧ Entry.type b.1 ≠ type
    | some c => c ∈ S.cells ∧ c.record.body ∈ own n S.shot ns key ∧
        (type = .any ∨ Entry.type c.record.hdr = type) := by
  have hfun : Cell.hit ns key type = fun c => Cell.hit ns key .any c &&
      (fun b : Body => decide (type = .any) || decide (Entry.type b.1 = type)) c.record.body := by
    funext c
    rw [Cell.hit, elementHit_type, ← Bool.and_assoc]
    rfl
  have h := find_own hnd hlt ns key
    fun b => decide (type = .any) || decide (Entry.type b.1 = type)
  rw [hfun]
  split at h
  · next hnone =>
    rw [hnone]
    simpa using h
  · next c hsome =>
    rw [hsome]
    refine ⟨h.1, h.2.1, ?_⟩
    have htype := h.2.2
    simp only [Bool.or_eq_true, decide_eq_true_eq] at htype
    exact htype

/-- A key that has records has a first one. -/
theorem find_any (h : own n S.shot ns key ≠ 0) :
    ∃ c ∈ S.cells, S.cells.find? (Cell.hit ns key .any) = some c ∧
      c.record.body ∈ own n S.shot ns key := by
  have hfound := find_type hnd hlt ns key .any
  split at hfound
  · obtain ⟨b, hb⟩ := exists_mem_of_ne_zero h
    exact absurd rfl (hfound b hb).1
  · next c hsome => exact ⟨c, hfound.1, hsome, hfound.2.1⟩

end Own

/-! ### Keeping a value -/

/-- A value is cut into fragments of the given lengths. -/
structure Cuts (v : List UInt8) (lens : List ℕ) : Prop where
  pos : ∀ l ∈ lens, 0 < l
  sum_eq : lens.sum = v.length
  count_le : lens.length ≤ 32

/-- The fragments of a value `v`, from number `i` on: `rest` is what they hold. -/
def fragBodies (ns : ℕ) (key : CString) (v : List UInt8) : ℕ → List UInt8 → List ℕ → List Body
  | _, _, [] => []
  | i, rest, l :: lens =>
    (bulkEntry ns key v i l, slotsOf (rest.take l)) :: fragBodies ns key v (i + 1) (rest.drop l) lens

/-- **The records in use of a key keep a value.** -/
inductive Keeps (ns : ℕ) (key : CString) : List UInt8 → Multiset Body → Prop
  | small {v : List UInt8} (hpos : 0 < v.length) (hle : v.length ≤ 8) :
    Keeps ns key v {(smallEntry ns key v, [])}
  | middle {v : List UInt8} (hlt : 8 < v.length) (hle : v.length ≤ 256) :
    Keeps ns key v {(middleEntry ns key v, slotsOf v)}
  | bulk {v : List UInt8} {lens : List ℕ} (hlt : 256 < v.length) (hle : v.length ≤ 12800)
    (hcuts : Cuts v lens) :
    Keeps ns key v ((bulkInfoEntry ns key lens.length v.length, []) ::ₘ
      (fragBodies ns key v 0 v lens : List Body))

section Fields

variable {ns : ℕ} (hns : ns < 256) {key : CString} (hkey : key.len < keyNameMaxSize)
include hns hkey

theorem inFields_small (h : v.length ≤ 8) :
    InFields ns .small tagFragNoDefault v.length key (smallVal v) :=
  ⟨hns, rfl, by decide, by decide, by omega, hkey, length_smallVal h⟩

theorem inFields_middle (h : v.length ≤ 256) :
    InFields ns .middle tagFragNoDefault v.length key (infoVal (elementDataCrc32Calc v)) :=
  ⟨hns, rfl, by decide, by decide, by omega, hkey, length_infoVal _⟩

theorem inFields_bulk (v : List UInt8) (hi : i < 32) (hl : l ≤ 12800) :
    InFields ns .bulk (u8 i) l key (infoVal (elementDataCrc32Calc (v.take l))) := by
  refine ⟨hns, rfl, by decide, ?_, by omega, hkey, length_infoVal _⟩
  rwa [u8_of_lt (by omega)]

theorem inFields_bulkInfo (hm : m ≤ 32) (size : ℕ) :
    InFields ns .bulkinfo tagFragNoDefault m key (infoVal size) :=
  ⟨hns, rfl, by decide, by decide, by omega, hkey, length_infoVal _⟩

theorem fields_small (h : v.length ≤ 8) :
    Entry.type (smallEntry ns key v) = .small ∧ Entry.len (smallEntry ns key v) = v.length ∧
      (Entry.val (smallEntry ns key v)).take v.length = v := by
  have hf := inFields_small hns hkey h
  refine ⟨hf.entryType_eq, hf.len_eq, ?_⟩
  rw [smallEntry, hf.val_eq, smallVal, take_left' rfl]

theorem fields_middle (h : v.length ≤ 256) :
    Entry.type (middleEntry ns key v) = .middle ∧ Entry.len (middleEntry ns key v) = v.length ∧
      Entry.datacrc32 (middleEntry ns key v) = elementDataCrc32Calc v := by
  have hf := inFields_middle hns hkey h
  exact ⟨hf.entryType_eq, hf.len_eq, hf.info_eq (UInt32.toNat_lt _) rfl⟩

theorem fields_bulk (v : List UInt8) (hi : i < 32) (hl : l ≤ 12800) :
    Entry.type (bulkEntry ns key v i l) = .bulk ∧ Entry.len (bulkEntry ns key v i l) = l ∧
      Entry.fragno (bulkEntry ns key v i l) = i := by
  have hf := inFields_bulk hns hkey v hi hl
  refine ⟨hf.entryType_eq, hf.len_eq, ?_⟩
  rw [bulkEntry, hf.fragno_eq, u8_of_lt (by omega)]

theorem fields_bulkInfo (hm : m ≤ 32) {size : ℕ} (hsize : size ≤ 12800) :
    Entry.type (bulkInfoEntry ns key m size) = .bulkinfo ∧
      Entry.len (bulkInfoEntry ns key m size) = m ∧
      Entry.bulksize (bulkInfoEntry ns key m size) = size := by
  have hf := inFields_bulkInfo hns hkey hm size
  exact ⟨hf.entryType_eq, hf.len_eq, hf.info_eq (by omega) rfl⟩

/-- The fragments: their numbers and what they look like. -/
theorem mem_fragBodies
    (hcount : i + lens.length ≤ 32) (hsum : lens.sum ≤ 12800)
    (hb : b ∈ fragBodies ns key v i rest lens) :
    i ≤ Entry.fragno b.1 ∧ Entry.fragno b.1 < i + lens.length ∧ Entry.type b.1 = .bulk ∧
      elementHit ns key .any b.1 = true := by
  induction lens generalizing i rest with
  | nil => simp [fragBodies] at hb
  | cons l lens ih =>
    rw [length_cons] at hcount
    rw [List.sum_cons] at hsum
    rw [fragBodies, List.mem_cons] at hb
    rcases hb with rfl | hb
    · have hf := inFields_bulk hns hkey v (show i < 32 by omega) (show l ≤ 12800 by omega)
      obtain ⟨htype, -, hno⟩ := fields_bulk hns hkey v (show i < 32 by omega)
        (show l ≤ 12800 by omega)
      refine ⟨by rw [hno], by rw [hno, length_cons]; omega, htype, ?_⟩
      exact (hf.hit_iff ns key .any).mpr ⟨rfl, rfl, Or.inl rfl⟩
    · obtain ⟨h1, h2, h3⟩ := ih (by omega) (by omega) hb
      rw [length_cons]
      exact ⟨by omega, by omega, h3⟩

/-- Every record of a kept value is one of its key. -/
theorem Keeps.hit {B : Multiset Body} (h : Keeps ns key v B) :
    ∀ b ∈ B, elementHit ns key .any b.1 = true := by
  intro b hb
  cases h with
  | small hpos hle =>
    rw [Multiset.mem_singleton.mp hb]
    exact ((inFields_small hns hkey hle).hit_iff ns key .any).mpr ⟨rfl, rfl, Or.inl rfl⟩
  | middle hlt hle =>
    rw [Multiset.mem_singleton.mp hb]
    exact ((inFields_middle hns hkey hle).hit_iff ns key .any).mpr ⟨rfl, rfl, Or.inl rfl⟩
  | bulk hlt hle hcuts =>
    rcases Multiset.mem_cons.mp hb with rfl | hb
    · exact ((inFields_bulkInfo hns hkey hcuts.count_le _).hit_iff ns key .any).mpr
        ⟨rfl, rfl, Or.inl rfl⟩
    · exact (mem_fragBodies hns hkey (by simpa using hcuts.count_le)
        (by rw [hcuts.sum_eq]; exact hle) (mem_coe.mp hb)).2.2.2

end Fields

/-! ### Reading a value -/

theorem length_cells_le {S : Store} (hsize : ∀ k ∈ S.used, recsSize (S.page k).recs ≤ 126) :
    S.cells.length ≤ 126 * S.used.length := by
  have hpage : ∀ k ∈ S.used, (S.cellsOf k).length ≤ 126 := by
    intro k hk
    rw [Store.cellsOf]
    split
    · have hlen : (pageCells k 0 (S.page k).recs).length = (S.page k).recs.length := by
        conv_rhs => rw [← map_record_pageCells k 0 (S.page k).recs, length_map]
      have := length_le_recsSize (S.page k).recs
      have := hsize k hk
      omega
    · simp
  have hall : ∀ ks : List ℕ, (∀ k ∈ ks, k ∈ S.used) →
      (ks.flatMap S.cellsOf).length ≤ 126 * ks.length := by
    intro ks hks
    induction ks with
    | nil => simp
    | cons k ks ih =>
      have h1 := hpage k (hks k (by simp))
      have h2 := ih fun j hj => hks j (by simp [hj])
      rw [flatMap_cons, length_append, length_cons]
      omega
  exact hall S.used fun _ h => h

section Read

variable {rom : NvdsRom} (hrom : rom.Reliable) {n : ℕ} {env : FlashEnv} {S : Store}
  (hview : View n env S) {ns : ℕ} (hns : ns < 256) {key : CString}
  (hkey : key.len < keyNameMaxSize)
include hview

/-- Behind a fragment the search goes on at the next record. -/
theorem next_of_bulk {c : Cell} (hc : c ∈ S.cells) (htype : Entry.type c.record.hdr = .bulk) :
    entriesOf (Entry.len c.record.hdr) = c.record.data.length ∧
      u8 (c.idx + 1 + entriesOf (Entry.len c.record.hdr)) = c.idx + c.record.size := by
  obtain ⟨P, pre, post, -, -, -, -, hidx, hsize⟩ := shows_cell hview hc
  have hcnt : entriesOf (Entry.len c.record.hdr) = c.record.data.length := by
    rw [(wf_cell hview hc).length_data, Entry.dataCnt, htype]
  refine ⟨hcnt, ?_⟩
  rw [Rec.size] at hsize ⊢
  rw [hcnt, u8_of_lt (by omega)]
  omega

include hrom

/-- **The search for a fragment** is a search in the cells behind where it starts. -/
theorem bulkFragFind_eq (frag : ℕ) {X Z : List Cell} (hcells : S.cells = X ++ Z)
    {pageStart : Option ℕ} {start : ℕ}
    (hfind : elementFind rom env ns key pageStart start .bulk =
      some (foundAt (Z.find? (Cell.hit ns key .bulk)))) {fuel : ℕ} (hfuel : Z.length < fuel) :
    bulkFragFind rom env ns key frag fuel pageStart start = some (.ok ((Z.find? fun c =>
      Cell.hit ns key .bulk c && decide (Entry.fragno c.record.hdr = frag)).map
        fun c => (c.page, c.idx, c.record.hdr))) := by
  induction fuel generalizing X Z pageStart start with
  | zero => omega
  | succ fuel ih =>
    rw [bulkFragFind, hfind]
    rcases hz : Z.find? (Cell.hit ns key .bulk) with _ | c
    · have hnone : Z.find? (fun c => Cell.hit ns key .bulk c &&
          decide (Entry.fragno c.record.hdr = frag)) = none := by
        refine List.find?_eq_none.mpr fun c hc => ?_
        simp [List.find?_eq_none.mp hz c hc]
      rw [hnone]
      rfl
    · obtain ⟨hhit, Z₁, Z₂, rfl, hZ₁⟩ := List.find?_eq_some_iff_append.mp hz
      have hc : c ∈ S.cells := by
        rw [hcells]
        simp
      have htype : Entry.type c.record.hdr = .bulk := by
        have h := hhit
        rw [Cell.hit, elementHit_type] at h
        simp only [Bool.and_eq_true, Bool.or_eq_true, decide_eq_true_eq, reduceCtorEq,
          false_or] at h
        exact h.2.2
      have hskip : Z₁.find? (fun c => Cell.hit ns key .bulk c &&
          decide (Entry.fragno c.record.hdr = frag)) = none := by
        refine List.find?_eq_none.mpr fun a ha => ?_
        have := hZ₁ a ha
        simp only [Bool.not_eq_true'] at this
        simp [this]
      simp only [foundAt, entryRead_cell hrom hview hc]
      rw [List.find?_append, hskip, Option.none_or]
      by_cases hfrag : Entry.fragno c.record.hdr = frag
      · rw [if_pos hfrag, List.find?_cons_of_pos (by simp [hhit, hfrag])]
        rfl
      · rw [if_neg hfrag, List.find?_cons_of_neg (by simp [hfrag]),
          (next_of_bulk hview hc htype).2]
        refine ih (X := X ++ Z₁ ++ [c]) (by rw [hcells]; simp) ?_ ?_
        · exact elementFind_from hrom hview ns key .bulk (by rw [hcells, ← append_assoc])
        · simp only [length_append, length_cons] at hfuel
          omega

/-- The search for a fragment, from the start. -/
theorem bulkFragFind_start (frag : ℕ) :
    bulkFragFind rom env ns key frag (env.spots + 1) none 0 = some (.ok ((S.cells.find? fun c =>
      Cell.hit ns key .any c && (fun b : Body => decide (Entry.type b.1 = .bulk) &&
        decide (Entry.fragno b.1 = frag)) c.record.body).map
        fun c => (c.page, c.idx, c.record.hdr))) := by
  have hfuel : S.cells.length < env.spots + 1 := by
    have := length_cells_le hview.size
    rw [FlashEnv.spots, hview.used_eq]
    omega
  rw [bulkFragFind_eq hrom hview frag (nil_append _).symm
    (elementFind_eq hrom hview ns key .bulk) hfuel]
  congr 4
  funext c
  rw [Cell.hit, elementHit_type, Cell.hit]
  simp only [reduceCtorEq, decide_false, Bool.false_or, Bool.and_assoc]
  rfl

/-- The search for a key without records. -/
theorem elementFind_none (h : own n S.shot ns key = 0) (type : ElementType) :
    elementFind rom env ns key none 0 type = some (.error .notFound) := by
  have hfound := find_type hview.nodup_used hview.used_lt ns key type
  rw [elementFind_eq hrom hview]
  split at hfound
  · next hnone =>
    rw [hnone]
    rfl
  · next c hsome =>
    rw [h] at hfound
    exact absurd hfound.2.1 (notMem_zero _)

/-- The search for a key that has records. -/
theorem elementFind_any {B : Multiset Body} (h : own n S.shot ns key = B) (hB : B ≠ 0) :
    ∃ c ∈ S.cells, S.cells.find? (Cell.hit ns key .any) = some c ∧ c.record.body ∈ B ∧
      elementFind rom env ns key none 0 .any = some (.ok (c.page, c.idx)) := by
  subst h
  obtain ⟨c, hc, hsome, hmem⟩ := find_any hview.nodup_used hview.used_lt ns key hB
  exact ⟨c, hc, hsome, hmem, by rw [elementFind_eq hrom hview, hsome]; rfl⟩

/-- The only record of a key is found. -/
theorem elementFind_single {b : Body} (h : own n S.shot ns key = {b}) :
    ∃ c ∈ S.cells, elementFind rom env ns key none 0 .any = some (.ok (c.page, c.idx)) ∧
      c.record.hdr = b.1 ∧ c.record.data = b.2 := by
  obtain ⟨c, hc, -, hmem, hfind⟩ := elementFind_any hrom hview h (by simp)
  obtain rfl := Multiset.mem_singleton.mp hmem
  exact ⟨c, hc, hfind, rfl, rfl⟩

/-- What is known of the fragments of a value that is kept, from number `i` on: `rest` is what
they hold, and `done` are the fragments in front of them. -/
structure FragsFrom (n : ℕ) (S : Store) (ns : ℕ) (key : CString) (v : List UInt8) (i : ℕ)
    (rest : List UInt8) (lens : List ℕ) : Prop where
  mem : ∀ b ∈ fragBodies ns key v i rest lens, b ∈ own n S.shot ns key
  only : ∀ b ∈ own n S.shot ns key, Entry.type b.1 = .bulk → i ≤ Entry.fragno b.1 →
    b ∈ fragBodies ns key v i rest lens
  sum_eq : lens.sum = rest.length
  sum_le : lens.sum ≤ 12800
  count_le : i + lens.length ≤ 32

include hns hkey

omit hrom hview in
theorem FragsFrom.tail
    (h : FragsFrom n S ns key v i rest (l :: lens)) :
    FragsFrom n S ns key v (i + 1) (rest.drop l) lens := by
  have hsum := h.sum_eq
  have hle := h.sum_le
  have hcount := h.count_le
  rw [List.sum_cons] at hsum hle
  rw [length_cons] at hcount
  refine ⟨fun b hb => h.mem b (by rw [fragBodies]; exact mem_cons_of_mem _ hb), ?_, ?_,
    by omega, by omega⟩
  · intro b hb htype hi
    have hmem := h.only b hb htype (by omega)
    rw [fragBodies, List.mem_cons] at hmem
    rcases hmem with rfl | hmem
    · -- the first of them has a smaller number
      rw [(fields_bulk hns hkey v (show i < 32 by omega) (show l ≤ 12800 by omega)).2.2] at hi
      omega
    · exact hmem
  · rw [length_drop]
    omega

/-- The first of the fragments is found. -/
theorem FragsFrom.find
    (h : FragsFrom n S ns key v i rest (l :: lens)) :
    ∃ c ∈ S.cells, bulkFragFind rom env ns key i (env.spots + 1) none 0 =
        some (.ok (some (c.page, c.idx, c.record.hdr))) ∧
      Entry.len c.record.hdr = l ∧ entriesOf l = c.record.data.length ∧
      c.record.data.flatten.take l = rest.take l := by
  have hsum := h.sum_eq
  have hle := h.sum_le
  have hcount := h.count_le
  rw [List.sum_cons] at hsum hle
  rw [length_cons] at hcount
  obtain ⟨htype, hblen, hno⟩ := fields_bulk hns hkey v (show i < 32 by omega)
    (show l ≤ 12800 by omega)
  have hhead : (bulkEntry ns key v i l, slotsOf (rest.take l)) ∈ own n S.shot ns key :=
    h.mem _ (by rw [fragBodies]; simp)
  have hfound := find_own hview.nodup_used hview.used_lt ns key
    fun b => decide (Entry.type b.1 = .bulk) && decide (Entry.fragno b.1 = i)
  rw [bulkFragFind_start hrom hview]
  split at hfound
  · have := hfound _ hhead
    simp [hno, htype] at this
  · next c hsome =>
    obtain ⟨hc, hmem, hq⟩ := hfound
    simp only [Bool.and_eq_true, decide_eq_true_eq] at hq
    have hbody : c.record.body = (bulkEntry ns key v i l, slotsOf (rest.take l)) := by
      have := h.only _ hmem hq.1 (by rw [hq.2])
      rw [fragBodies, List.mem_cons] at this
      rcases this with e | htail
      · exact e
      · -- the others have larger numbers
        have := (mem_fragBodies hns hkey (by omega) (by omega) htail).1
        omega
    have hhdr : c.record.hdr = bulkEntry ns key v i l := congrArg Prod.fst hbody
    have hdata : c.record.data = slotsOf (rest.take l) := congrArg Prod.snd hbody
    have hlen : Entry.len c.record.hdr = l := by rw [hhdr, hblen]
    have htake : (rest.take l).length = l := by
      rw [length_take]
      omega
    refine ⟨c, hc, by rw [hsome]; rfl, hlen, ?_, ?_⟩
    · rw [hdata, length_slotsOf, htake]
    · have := take_flatten_slotsOf (rest.take l)
      rw [htake] at this
      rw [hdata, this]

/-- **Reading the fragments.** -/
theorem bulkFragsGet_eq
    (h : FragsFrom n S ns key v i rest lens) :
    bulkFragsGet rom env ns key lens.length i = some (rest, .ok ()) := by
  induction lens generalizing i rest with
  | nil =>
    have hsum := h.sum_eq
    rw [eq_nil_of_length_eq_zero hsum.symm]
    rfl
  | cons l lens ih =>
    obtain ⟨c, hc, hfind, hlen, hcnt, hdata⟩ := h.find hrom hview hns hkey
    rw [length_cons, bulkFragsGet, hfind]
    simp only
    rw [hlen, copyData_cell hrom hview hc hcnt]
    simp only
    rw [ih (h.tail hns hkey), hdata, Option.map_some, take_append_drop]

/-- **Comparing with the fragments.** -/
theorem bulkFragsCompare_eq
    (h : FragsFrom n S ns key v i rest lens) {dst : List UInt8} (hdst : dst.length = rest.length) :
    bulkFragsCompare rom env ns key lens.length i dst = some (decide (rest = dst)) := by
  induction lens generalizing i rest dst with
  | nil =>
    have hsum := h.sum_eq
    have hrest : rest = [] := eq_nil_of_length_eq_zero hsum.symm
    subst hrest
    have hnil : dst = [] := eq_nil_of_length_eq_zero hdst
    subst hnil
    rfl
  | cons l lens ih =>
    obtain ⟨c, hc, hfind, hlen, hcnt, hdata⟩ := h.find hrom hview hns hkey
    rw [length_cons, bulkFragsCompare, hfind]
    simp only
    rw [hlen, compareData_cell hrom hview hc hcnt, hdata]
    have hsplit : rest = dst ↔ dst.take l = rest.take l ∧ rest.drop l = dst.drop l := by
      constructor
      · rintro rfl
        exact ⟨rfl, rfl⟩
      · rintro ⟨h1, h2⟩
        rw [← take_append_drop l rest, ← take_append_drop l dst, h1, h2]
    by_cases htake : dst.take l = rest.take l
    · simp only [htake, decide_true]
      rw [ih (h.tail hns hkey) (by rw [length_drop, length_drop, hdst])]
      simp only [hsplit, htake, true_and]
    · simp only [htake, hsplit, decide_false, false_and]

omit hrom hview in
/-- The fragments of a value that is kept in bulk. -/
theorem fragsFrom_of_bulk (hle : v.length ≤ 12800)
    (hcuts : Cuts v lens) (hown : own n S.shot ns key =
      (bulkInfoEntry ns key lens.length v.length, []) ::ₘ
        (fragBodies ns key v 0 v lens : List Body)) :
    FragsFrom n S ns key v 0 v lens := by
  refine ⟨?_, ?_, hcuts.sum_eq, by rw [hcuts.sum_eq]; exact hle, by simpa using hcuts.count_le⟩
  · intro b hb
    rw [hown]
    exact mem_cons_of_mem (mem_coe.mpr hb)
  · intro b hb htype _
    rw [hown] at hb
    rcases Multiset.mem_cons.mp hb with rfl | hb
    · rw [(fields_bulkInfo hns hkey hcuts.count_le hle).1] at htype
      exact absurd htype (by simp)
    · exact mem_coe.mp hb

omit hrom hview in
/-- The types of the records of a value that is kept in bulk. -/
theorem bulk_type (hle : v.length ≤ 12800) (hcuts : Cuts v lens)
    (hb : b ∈ (bulkInfoEntry ns key lens.length v.length, []) ::ₘ
      (fragBodies ns key v 0 v lens : Multiset Body)) :
    Entry.type b.1 = .bulk ∨ Entry.type b.1 = .bulkinfo := by
  rcases Multiset.mem_cons.mp hb with rfl | hb
  · exact Or.inr (fields_bulkInfo hns hkey hcuts.count_le hle).1
  · exact Or.inl (mem_fragBodies hns hkey (by simpa using hcuts.count_le)
      (by rw [hcuts.sum_eq]; exact hle) (mem_coe.mp hb)).2.2.1

omit hrom hview in
/-- The record that counts the fragments is in a cell. -/
theorem cell_bulkInfo (hnd : S.used.Nodup) (hlt : ∀ k ∈ S.used, k < n) (hle : v.length ≤ 12800)
    (hcuts : Cuts v lens) (hown : own n S.shot ns key =
      (bulkInfoEntry ns key lens.length v.length, []) ::ₘ
        (fragBodies ns key v 0 v lens : List Body)) :
    ∃ c ∈ S.cells, S.cells.find? (Cell.hit ns key .bulkinfo) = some c ∧
      c.record.body = (bulkInfoEntry ns key lens.length v.length, []) := by
  have hfound := find_type hnd hlt ns key .bulkinfo
  split at hfound
  · have := (hfound (bulkInfoEntry ns key lens.length v.length, []) (by rw [hown]; simp)).2
    exact absurd (fields_bulkInfo hns hkey hcuts.count_le hle).1 this
  · next c hsome =>
    obtain ⟨hc, hmem, htype⟩ := hfound
    refine ⟨c, hc, hsome, ?_⟩
    rw [hown, Multiset.mem_cons, mem_coe] at hmem
    rcases hmem with e | hmem
    · exact e
    · -- a fragment has another type
      have hbulk := (mem_fragBodies hns hkey (by simpa using hcuts.count_le)
        (by rw [hcuts.sum_eq]; exact hle) hmem).2.2.1
      rcases htype with h | h
      · exact absurd h (by simp)
      · rw [show c.record.hdr = c.record.body.1 from rfl, hbulk] at h
        exact absurd h (by simp)

/-- The record that counts the fragments is found. -/
theorem find_bulkInfo (hle : v.length ≤ 12800)
    (hcuts : Cuts v lens) (hown : own n S.shot ns key =
      (bulkInfoEntry ns key lens.length v.length, []) ::ₘ
        (fragBodies ns key v 0 v lens : List Body)) :
    ∃ c ∈ S.cells, c.record.body = (bulkInfoEntry ns key lens.length v.length, []) ∧
      elementFind rom env ns key none 0 .bulkinfo = some (.ok (c.page, c.idx)) := by
  obtain ⟨c, hc, hsome, hbody⟩ := cell_bulkInfo hns hkey hview.nodup_used hview.used_lt hle hcuts
    hown
  exact ⟨c, hc, hbody, by rw [elementFind_eq hrom hview, hsome]; rfl⟩

/-- **Reading a value that is kept.** -/
theorem dataElementGet_keeps (h : Keeps ns key v (own n S.shot ns key))
    (buf : Option ℕ) :
    dataElementGet rom env ns key buf = sizeCheck buf v.length (some (v, .ok ())) := by
  generalize hown : own n S.shot ns key = B at h
  cases h with
  | small hpos hle =>
    obtain ⟨c, hc, hfind, hhdr, -⟩ := elementFind_single hrom hview hown
    obtain ⟨htype, hlen, hval⟩ := fields_small hns hkey hle
    rw [dataElementGet, hfind]
    simp only [entryRead_cell hrom hview hc, hhdr, htype, reduceCtorEq, or_self, if_false, hlen]
    rw [elementFill, htype, hlen, hval]
  | middle hlt hle =>
    obtain ⟨c, hc, hfind, hhdr, hdata⟩ := elementFind_single hrom hview hown
    obtain ⟨htype, hlen, hcrc⟩ := fields_middle hns hkey hle
    rw [dataElementGet, hfind]
    simp only [entryRead_cell hrom hview hc, hhdr, htype, reduceCtorEq, or_self, if_false, hlen]
    rw [elementFill, htype, hlen]
    rw [copyData_cell hrom hview hc (by rw [hdata, length_slotsOf]), hdata, take_flatten_slotsOf]
    simp [hcrc]
  | @bulk lens hlt hle hcuts =>
    -- whichever of the records is found first, the one that counts the fragments is found next
    obtain ⟨c, hc, -, hmem, hfind⟩ := elementFind_any hrom hview hown (by simp)
    obtain ⟨ci, hci, hbody, hinfo⟩ := find_bulkInfo hrom hview hns hkey hle hcuts hown
    have hhdr : ci.record.hdr = bulkInfoEntry ns key lens.length v.length :=
      congrArg Prod.fst hbody
    obtain ⟨-, hlen, hsize⟩ := fields_bulkInfo hns hkey hcuts.count_le hle
    have htype := bulk_type hns hkey hle hcuts hmem
    rw [show c.record.body.1 = c.record.hdr from rfl] at htype
    rw [dataElementGet, hfind]
    simp only [entryRead_cell hrom hview hc]
    rw [if_pos htype, bulkElementGet, hinfo]
    simp only [entryRead_cell hrom hview hci, hhdr, hlen, hsize]
    rw [bulkFragsGet_eq hrom hview hns hkey (fragsFrom_of_bulk hns hkey hle hcuts hown)]

/-- **Comparing with a value that is kept.** -/
theorem elementCompare_keeps (h : Keeps ns key v (own n S.shot ns key))
    (buf : List UInt8) : elementCompare rom env ns key buf = some (decide (v = buf)) := by
  rw [elementCompare, dataElementGet_keeps hrom hview hns hkey h]
  simp only [sizeCheck]
  by_cases hsize : v.length = buf.length
  swap
  · have hne : v ≠ buf := fun e => hsize (by rw [e])
    simp [hsize, hne]
  simp only [hsize, ne_eq, not_true_eq_false, if_false]
  generalize hown : own n S.shot ns key = B at h
  cases h with
  | small hpos hle =>
    obtain ⟨c, hc, hfind, hhdr, -⟩ := elementFind_single hrom hview hown
    obtain ⟨htype, hlen, hval⟩ := fields_small hns hkey hle
    rw [elementSame, hfind]
    simp only [entryRead_cell hrom hview hc, hhdr, htype, hlen, hval]
    rw [hsize, take_length]
    simp [eq_comm]
  | middle hlt hle =>
    obtain ⟨c, hc, hfind, hhdr, hdata⟩ := elementFind_single hrom hview hown
    obtain ⟨htype, hlen, -⟩ := fields_middle hns hkey hle
    rw [elementSame, hfind]
    simp only [entryRead_cell hrom hview hc, hhdr, htype, hlen]
    rw [if_neg (by simp [hsize]), compareData_cell hrom hview hc (by rw [hdata, length_slotsOf]),
      hdata, take_flatten_slotsOf, hsize, take_length]
    simp only [eq_comm]
  | @bulk lens hlt hle hcuts =>
    obtain ⟨c, hc, -, hmem, hfind⟩ := elementFind_any hrom hview hown (by simp)
    obtain ⟨ci, hci, hbody, hinfo⟩ := find_bulkInfo hrom hview hns hkey hle hcuts hown
    have hhdr : ci.record.hdr = bulkInfoEntry ns key lens.length v.length :=
      congrArg Prod.fst hbody
    obtain ⟨-, hlen, hbsize⟩ := fields_bulkInfo hns hkey hcuts.count_le hle
    have hbulk : bulkElementCompare rom env ns key buf = some (decide (v = buf)) := by
      rw [bulkElementCompare, hinfo]
      simp only [entryRead_cell hrom hview hci, hhdr, hlen, hbsize]
      rw [if_neg (by simp [hsize]), bulkFragsCompare_eq hrom hview hns hkey
        (fragsFrom_of_bulk hns hkey hle hcuts hown) hsize.symm]
    have htype := bulk_type hns hkey hle hcuts hmem
    rw [show c.record.body.1 = c.record.hdr from rfl] at htype
    rw [elementSame, hfind]
    simp only [entryRead_cell hrom hview hc]
    rcases htype with h | h <;> rw [h] <;> exact hbulk

omit hns hkey in
/-- **Reading a key without a value.** -/
theorem dataElementGet_none (h : own n S.shot ns key = 0) (buf : Option ℕ) :
    dataElementGet rom env ns key buf = some ⟨.error .notFound, none, []⟩ := by
  rw [dataElementGet, elementFind_none hrom hview h]

omit hns hkey in
/-- **Comparing with a key without a value.** -/
theorem elementCompare_none (h : own n S.shot ns key = 0) (buf : List UInt8) :
    elementCompare rom env ns key buf = some false := by
  rw [elementCompare, dataElementGet_none hrom hview h]

end Read

end Nvds

end Gd32
