import Gd32Firmware.Nvds.Stages

/-!
# Deleting and putting a value

What `data_element_del` and `data_element_put` do to a tidy store: the first leaves no record of
the key, the second leaves records that keep the new value, or none when it fails
(`Nvds.Tidy.does_dataElementDel`, `Nvds.Tidy.does_dataElementPut`). The records of the
other keys stay, through all page turnovers on the way.

The loop that writes the fragments of a large value needs a bound on their number, as there are
five bits for it. A fragment that is not the last one fills its page, and from the second one on
the page holds nothing but records in use; such a page is never given up for another, so a
partition of at most 32 sectors has at most 32 fragments of a value.
-/

namespace Gd32

open List Option Multiset
open Bool hiding false_or

variable {k p size : ℕ} {S' : Store} {lens : List ℕ}

namespace Nvds

open NorFlash LittleEndian

section Operations

variable {n ns : ℕ} {key : CString} {L B : Multiset Body} {W : List UInt8 → Prop}
  {cut torn : Prop} {S : Store}

/-! ### Tools -/

theorem mine_zero : Mine W ns key 0 := Or.inr fun b hb => absurd hb (notMem_zero b)

/-- A record in use of a page that is searched is in a cell. -/
theorem cell_of_rec (hk : k ∈ S.used) (hs : (S.page k).searched = true) {r : Rec}
    (hr : r ∈ (S.page k).recs) : ∃ c ∈ S.cells, c.record = r := by
  rw [← map_record_pageCells k 0 (S.page k).recs] at hr
  obtain ⟨c, hc, rfl⟩ := mem_map.mp hr
  refine ⟨c, mem_flatMap.mpr ⟨k, hk, ?_⟩, rfl⟩
  rwa [Store.cellsOf, if_pos hs]

theorem length_used_add_free (hnd : (S.used ++ S.free).Nodup)
    (hmem : ∀ k, k ∈ S.used ++ S.free ↔ k < n) : S.used.length + S.free.length = n := by
  have hperm : (S.used ++ S.free).Perm (List.range n) :=
    (perm_ext_iff_of_nodup hnd nodup_range).mpr fun k => by
      rw [hmem, List.mem_range]
  rw [← length_append, hperm.length_eq, length_range]

/-- Without records of the key there are no torn ones. -/
theorem Tidy.untorn (h : Tidy n ns key L cut torn 0 S) : Tidy n ns key L cut False 0 S := by
  refine ⟨h.sound, h.wf, h.size, h.ne, h.nodup_pages, h.mem_iff, h.spare, h.live, h.nodup, h.others,
    h.hits, fun hfree k hk => ⟨(h.calm hfree k hk).1, fun r hr => ?_⟩⟩
  rcases (h.calm hfree k hk).2 r hr with hclean | ⟨-, hlive, hhit⟩
  · exact Or.inl hclean
  · obtain ⟨c, hc, rfl⟩ := cell_of_rec hk (h.calm hfree k hk).1 hr
    exact absurd (h.mem_of_cell hc hlive hhit) (notMem_zero _)

theorem Tidy.torn_of_false (h : Tidy n ns key L cut False B S) : Tidy n ns key L cut torn B S := by
  refine ⟨h.sound, h.wf, h.size, h.ne, h.nodup_pages, h.mem_iff, h.spare, h.live, h.nodup, h.others,
    h.hits, fun hfree k hk => ⟨(h.clean hfree hk).1, fun r hr => Or.inl ((h.clean hfree hk).2 r hr)⟩⟩

/-- The environment is read, and only what depends on the store matters. -/
theorem does_get {α : Type} {g : FlashEnv → NvdsM α} {x : NvdsM α} {r : Except NvdsErr α} {σ : List NamespaceInfo → List NamespaceInfo} {𝒯 : Shot → Prop}
    (hg : ∀ env, Rep n env S → g env = x) (h : Does n x S r S' σ 𝒯) :
    Does n (NvdsM.get >>= g) S r S' σ 𝒯 := by
  intro env hrep
  rw [NvdsM.get_bind, hg env hrep]
  exact h env hrep

/-- What `ns_del_used_cnt` makes of the namespace records when it lowers a count. -/
def lowerNs (idx : ℕ) (nss : List NamespaceInfo) : List NamespaceInfo :=
  if namespaceMaxCnt < idx then nss else changeNs idx (NamespaceInfo.add (2 ^ 32 - 1)) nss

theorem does_lower {𝒯 : Shot → Prop} (hT : 𝒯 S.shot) (idx : ℕ) :
    Does n (NvdsM.modify (nsLowerUsedCnt idx)) S (.ok ()) S (lowerNs idx) 𝒯 := by
  intro env hrep
  refine ⟨nsLowerUsedCnt idx env, rfl, ?_⟩
  rw [nsLowerUsedCnt, lowerNs]
  split
  · exact ⟨hrep, goes_of_dev_eq rfl rfl rfl hT hrep.depicts, rfl, rfl⟩
  · exact ⟨hrep.of_names _ _, goes_of_dev_eq rfl rfl rfl hT hrep.depicts, rfl, rfl⟩

/-! ### Deleting -/

section Delete

variable {rom : NvdsRom} (hrom : rom.Reliable)
include hrom

/-- **The loop over the fragments** gives them all up. The search goes on behind the cells `X`,
which hold no fragment. -/
theorem Tidy.does_fragsDel (h : Tidy n ns key L cut torn B S)
    (hB : ∀ b ∈ B, Entry.type b.1 = .bulk) {X Z : List Cell} (hcells : S.cells = X ++ Z)
    (hX : ∀ c ∈ X, Cell.hit ns key .bulk c = false) {pageStart : Option ℕ} {start : ℕ}
    (hfind : ∀ env, Rep n env S → elementFind rom env ns key pageStart start .bulk =
      some (foundAt (Z.find? (Cell.hit ns key .bulk)))) {fuel : ℕ} (hfuel : Z.length < fuel) :
    ∃ S', Does n (bulkFragsDel rom ns key fuel pageStart start) S (.ok ()) S' id
      (Stage n ns key L W) ∧ Tidy n ns key L cut torn 0 S' := by
  induction fuel generalizing S B X Z pageStart start with
  | zero => omega
  | succ fuel ih =>
    have hstage : Stage n ns key L W S.shot := h.stage (Or.inr hB)
    have hfound := (does_search hfind hstage).attempt
    rcases hz : Z.find? (Cell.hit ns key .bulk) with _ | c
    · -- there is no fragment left
      have hzero : B = 0 := by
        refine eq_zero_of_forall_notMem fun b hb => ?_
        have hmem : b ∈ liveOf n S.shot := by
          rw [h.live]
          exact mem_add.mpr (Or.inr hb)
        obtain ⟨c, hc, hlive, rfl⟩ := cell_of_mem_liveOf h.nodup_used (fun _ => h.used_lt) hmem
        have hhit : Cell.hit ns key .bulk c = true := by
          rw [Cell.hit, hlive, elementHit_type, show c.record.hdr = c.record.body.1 from rfl,
            h.hits _ hb, hB _ hb]
          rfl
        rw [hcells] at hc
        rcases mem_append.mp hc with hc | hc
        · rw [hX c hc] at hhit
          exact absurd hhit (by simp)
        · exact List.find?_eq_none.mp hz c hc hhit
      rw [hz] at hfound
      rw [hzero] at h
      exact ⟨S, hfound.seq (does_pure () hstage), h⟩
    · obtain ⟨hhit, Z₁, Z₂, rfl, hZ₁⟩ := List.find?_eq_some_iff_append.mp hz
      have hsplit : S.cells = (X ++ Z₁) ++ c :: Z₂ := by rw [hcells, append_assoc]
      have hc : c ∈ S.cells := by
        rw [hsplit]
        simp
      have hparts := hhit
      rw [Cell.hit, elementHit_type] at hparts
      simp only [and_eq_true, or_eq_true, decide_eq_true_eq, reduceCtorEq,
        false_or] at hparts
      obtain ⟨hlive, hany, htype⟩ := hparts
      have hB' : ∀ b ∈ B.erase c.record.body, Entry.type b.1 = .bulk := fun b hb =>
        hB b (mem_of_mem_erase hb)
      obtain ⟨hdrop, htidy⟩ := h.does_drop hrom hsplit hlive hany (Or.inr hB) (Or.inr hB')
      -- the loop goes on behind the cell that has been given up
      have hnext := @Store.cells_kill S h.nodup_used _ _ c hsplit c.record.size
      have hnone : ∀ d ∈ X ++ Z₁ ++ [{ c with record := c.record.giveUp c.record.size }],
          Cell.hit ns key .bulk d = false := by
        intro d hd
        rcases mem_append.mp hd with hd | hd
        · rcases mem_append.mp hd with hd | hd
          · exact hX d hd
          · simpa using hZ₁ d hd
        · rw [List.mem_singleton.mp hd, Cell.hit, Rec.live_giveUp _ c.record.size_pos]
          rfl
      obtain ⟨S', hrest, hdone⟩ := ih htidy hB' (hnext.trans (by simp)) hnone
        (fun env hrep => elementFind_from hrom hrep.view ns key .bulk hnext)
        (by
          simp only [length_append, length_cons] at hfuel
          omega)
      refine ⟨S', ?_, hdone⟩
      rw [hz] at hfound
      refine hfound.seq ?_
      -- the length in the header gives the data behind it
      refine (does_look (fun env hrep => entryRead_cell hrom hrep.view hc) hstage).seq ?_
      intro env hrep
      obtain ⟨hcnt, hidx⟩ := next_of_bulk hrep.view hc htype
      have hidx' : u8 (c.idx + (entriesOf (Entry.len c.record.hdr) + 1)) =
          c.idx + c.record.size := by
        rw [← hidx]
        congr 1
        omega
      rw [hidx', hcnt]
      exact hdrop.seq hrest env hrep

/-- The fragments are looked for from the first cell on. -/
theorem Tidy.does_fragsDel_all (h : Tidy n ns key L cut torn B S)
    (hB : ∀ b ∈ B, Entry.type b.1 = .bulk) :
    ∃ S', Does n (NvdsM.get >>= fun env => bulkFragsDel rom ns key (env.entryTotal + 1) none 0) S
      (.ok ()) S' id (Stage n ns key L W) ∧ Tidy n ns key L cut torn 0 S' := by
  have hlen := length_cells_le h.size
  obtain ⟨S', hdel, htidy⟩ := h.does_fragsDel hrom hB (nil_append _).symm (by simp)
    (fun env hrep => elementFind_eq hrom hrep.view ns key .bulk)
    (show S.cells.length < entryCountPerPage * S.used.length + 1 from Nat.lt_succ_of_le hlen)
  refine ⟨S', does_get (fun env hrep => ?_) hdel, htidy⟩
  rw [FlashEnv.entryTotal, hrep.used_eq]

variable (hns : ns < 256) (hkey : key.len < keyNameMaxSize)
include hns hkey

/-- **`bulk_element_del`** on a value that is kept in bulk. -/
theorem Tidy.does_bulkElementDel {v : List UInt8} (hle : v.length ≤ 12800)
    (hcuts : Cuts v lens) (hlt : 256 < v.length) (hW : W v)
    (h : Tidy n ns key L cut torn ((bulkInfoEntry ns key lens.length v.length, []) ::ₘ
      (fragBodies ns key v 0 v lens : List Body)) S) :
    ∃ S', Does n (bulkElementDel rom ns key) S (.ok ()) S' id (Stage n ns key L W) ∧
      Tidy n ns key L cut torn 0 S' := by
  obtain ⟨c, hc, hsome, hbody⟩ := cell_bulkInfo hns hkey h.nodup_used (fun _ => h.used_lt) hle
    hcuts h.own_eq
  have hmine : Mine W ns key ((bulkInfoEntry ns key lens.length v.length, []) ::ₘ
      (fragBodies ns key v 0 v lens : List Body)) := Or.inl ⟨v, hW, .bulk hlt hle hcuts⟩
  have hbulk : ∀ b ∈ (fragBodies ns key v 0 v lens : Multiset Body), Entry.type b.1 = .bulk :=
    fun b hb => (mem_fragBodies hns hkey (by simpa using hcuts.count_le)
      (by rw [hcuts.sum_eq]; exact hle) (mem_coe.mp hb)).2.2.1
  have hhit := List.find?_some hsome
  rw [Cell.hit, elementHit_type, and_eq_true, and_eq_true] at hhit
  obtain ⟨X, Y, hsplit⟩ := append_of_mem hc
  have herase : ((bulkInfoEntry ns key lens.length v.length, []) ::ₘ
      (fragBodies ns key v 0 v lens : Multiset Body)).erase c.record.body =
      (fragBodies ns key v 0 v lens : Multiset Body) := by
    rw [hbody, Multiset.erase_cons_head]
  obtain ⟨hdrop, htidy⟩ := h.does_drop hrom hsplit hhit.1 hhit.2.1 hmine
    (by rw [herase]; exact Or.inr hbulk)
  rw [herase] at htidy
  obtain ⟨S', hfrags, hdone⟩ := htidy.does_fragsDel_all hrom hbulk
  have hnodata : c.record.data.length = 0 := by
    rw [show c.record.data = c.record.body.2 from rfl, hbody]
    rfl
  rw [hnodata] at hdrop
  refine ⟨S', ?_, hdone⟩
  refine (does_search (r := .ok (c.page, c.idx)) (fun env hrep => ?_) (h.stage hmine)).attempt.seq ?_
  · rw [elementFind_eq hrom hrep.view, hsome]
    rfl
  · exact hdrop.seq hfrags

/-- **`data_element_del`** on a small value: the cell of its record is given up. -/
theorem Tidy.does_dataElementDel_small {v : List UInt8} (hpos : 0 < v.length) (hle : v.length ≤ 8)
    (hW : W v) (h : Tidy n ns key L cut torn {(smallEntry ns key v, [])} S) {c : Cell}
    (hc : c ∈ S.cells) (hsome : S.cells.find? (Cell.hit ns key .any) = some c)
    (hbody : c.record.body = (smallEntry ns key v, [])) :
    Does n (dataElementDel rom ns key) S (.ok ()) (S.kill c c.record.size) id (Stage n ns key L W) ∧
      Tidy n ns key L cut torn 0 (S.kill c c.record.size) := by
  have hmine : Mine W ns key {(smallEntry ns key v, [])} := Or.inl ⟨v, hW, .small hpos hle⟩
  have hstage : Stage n ns key L W S.shot := h.stage hmine
  have hhit := List.find?_some hsome
  rw [Cell.hit, and_eq_true] at hhit
  obtain ⟨X, Y, hsplit⟩ := append_of_mem hc
  obtain ⟨htype, -, -⟩ := fields_small hns hkey hle
  obtain ⟨hdrop, htidy⟩ := h.does_drop hrom hsplit hhit.1 hhit.2 hmine
    (by rw [hbody, erase_singleton]; exact mine_zero)
  rw [hbody, erase_singleton] at htidy
  rw [show c.record.data = c.record.body.2 from rfl, hbody] at hdrop
  have hfound : Does n (NvdsM.search fun env => elementFind rom env ns key none 0 .any) S
      (.ok (c.page, c.idx)) S id (Stage n ns key L W) := by
    refine does_search (fun env hrep => ?_) hstage
    rw [elementFind_eq hrom hrep.view, hsome]
    rfl
  have hread : Does n (NvdsM.look fun env => entryRead rom env c.page c.idx) S
      (.ok c.record.hdr) S id (Stage n ns key L W) :=
    does_look (fun env hrep => entryRead_cell hrom hrep.view hc) hstage
  refine ⟨hfound.seq (hread.seq ?_), htidy⟩
  rw [show c.record.hdr = c.record.body.1 from rfl, hbody, htype]
  exact hdrop

/-- **`data_element_del`** on a value that is kept. -/
theorem Tidy.does_dataElementDel (h : Tidy n ns key L cut torn B S) {v : List UInt8}
    (hv : Keeps ns key v B) (hW : W v) :
    ∃ S', Does n (dataElementDel rom ns key) S (.ok ()) S' id (Stage n ns key L W) ∧
      Tidy n ns key L cut torn 0 S' := by
  have hmine : Mine W ns key B := Or.inl ⟨v, hW, hv⟩
  have hstage : Stage n ns key L W S.shot := h.stage hmine
  have hown := h.own_eq
  have hne : own n S.shot ns key ≠ 0 := by
    rw [hown]
    cases hv <;> simp
  obtain ⟨c, hc, hsome, hmem⟩ := find_any h.nodup_used (fun _ => h.used_lt) ns key hne
  rw [hown] at hmem
  have hhit := List.find?_some hsome
  rw [Cell.hit, and_eq_true] at hhit
  obtain ⟨X, Y, hsplit⟩ := append_of_mem hc
  have hfound : Does n (NvdsM.search fun env => elementFind rom env ns key none 0 .any) S
      (.ok (c.page, c.idx)) S id (Stage n ns key L W) := by
    refine does_search (fun env hrep => ?_) hstage
    rw [elementFind_eq hrom hrep.view, hsome]
    rfl
  have hread : Does n (NvdsM.look fun env => entryRead rom env c.page c.idx) S
      (.ok c.record.hdr) S id (Stage n ns key L W) :=
    does_look (fun env hrep => entryRead_cell hrom hrep.view hc) hstage
  -- which of the cases of the source it is depends on the type of the record that is found
  cases hv with
  | small hpos hle =>
    exact ⟨_, h.does_dataElementDel_small hrom hns hkey hpos hle hW hc hsome
      (Multiset.mem_singleton.mp hmem)⟩
  | middle hlt hle =>
    have hbody := Multiset.mem_singleton.mp hmem
    obtain ⟨htype, hlen, -⟩ := fields_middle hns hkey hle
    have hdrop := h.does_drop hrom hsplit hhit.1 hhit.2 hmine
      (by rw [hbody, erase_singleton]; exact mine_zero)
    rw [hbody, erase_singleton, show c.record.data = c.record.body.2 from rfl, hbody,
      length_slotsOf] at hdrop
    refine ⟨_, hfound.seq (hread.seq ?_), hdrop.2⟩
    rw [show c.record.hdr = c.record.body.1 from rfl, hbody, htype, hlen]
    exact hdrop.1
  | bulk hlt hle hcuts =>
    obtain ⟨S', hdel, htidy⟩ := h.does_bulkElementDel hrom hns hkey hle hcuts hlt hW
    refine ⟨S', hfound.seq (hread.seq ?_), htidy⟩
    have htype := bulk_type hns hkey hle hcuts hmem
    rw [show c.record.body.1 = c.record.hdr from rfl] at htype
    rcases htype with htype | htype <;> rw [htype] <;> exact hdel

omit hns hkey in
/-- `data_element_del` on a key without a value. -/
theorem Tidy.does_dataElementDel_none (h : Tidy n ns key L cut torn 0 S) :
    Does n (dataElementDel rom ns key) S (.error .notFound) S id (Stage n ns key L W) := by
  refine (does_search (fun env hrep => ?_) (h.stage mine_zero)).bind_error _
  exact elementFind_none hrom hrep.view h.own_eq .any

end Delete

/-! ### The page that is written to -/

/-- The number of used pages that are in use throughout. -/
def Store.packed (S : Store) : ℕ := S.used.countP fun k => decide ((S.page k).usedCnt = 126)

/-- A page with room for `size` bytes has been found: page `k` itself, or a new one in its place,
which holds nothing but records in use. -/
structure Ready (S : Store) (k size : ℕ) (S' : Store) (p : ℕ) : Prop where
  last : S'.used.getLast? = some p
  searched : (S'.page p).searched = true
  room : size ≤ (126 - recsSize (S'.page p).recs) * 32
  packed_le : S.packed ≤ S'.packed
  turn : p = k ∧ S' = S ∨ S'.free ≠ [] ∧ ∀ r ∈ (S'.page p).recs, r.live = true

theorem Rep.header_eq {env : FlashEnv} (hrep : Rep n env S) (hk : k ∈ S.used) :
    (env.pages k).header = (S.page k).header := by
  obtain ⟨⟨P, hm, hd, -⟩, -⟩ := hrep.pages k hk
  rw [hm.header, hd.header]

theorem Rep.room_eq {env : FlashEnv} (hrep : Rep n env S) (hk : k ∈ S.used) :
    pageRoomGet (env.pages k) = (126 - recsSize (S.page k).recs) * 32 := by
  obtain ⟨⟨P, hm, -, hs⟩, -⟩ := hrep.pages k hk
  rw [pageRoomGet, hm.next, hs, length_recsSlots]
  rfl

/-- `currentPage` takes the last used page, or refuses it. -/
theorem Tidy.does_currentPage (h : Tidy n ns key L cut torn B S) {𝒯 : Shot → Prop} (hT : 𝒯 S.shot) :
    ∃ k, S.used.getLast? = some k ∧
      (((S.page k).searched = true ∧ Does n currentPage S (.ok k) S id 𝒯) ∨
        ((S.page k).searched = false ∧ Does n currentPage S (.error .fail) S id 𝒯)) := by
  have hlast := List.getLast?_eq_some_getLast h.ne
  refine ⟨_, hlast, ?_⟩
  have hk : S.used.getLast h.ne ∈ S.used := getLast_mem _
  generalize S.used.getLast h.ne = k at hlast hk
  obtain ⟨state, seq, hd, -, hstate⟩ := h.sound k hk
  have hrun : ∀ env, Rep n env S → currentPage env =
      if state = pageInvalid ∨ state = pageError ∨ state = pageCandidate then
        some (.error .fail, env) else some (.ok k, env) := by
    intro env hrep
    have hst : (env.pages k).header.state = state := by
      rw [hrep.header_eq hk, hd]
      rfl
    rw [currentPage, hrep.used_eq, hlast]
    simp only [hst]
  rcases hstate with rfl | rfl | rfl
  · refine Or.inl ⟨?_, does_of_eq (fun env hrep => ?_) hT⟩
    · rw [APage.searched, hd]
      simp [pageHeader]
    · rw [hrun env hrep, if_neg (by decide)]
  · refine Or.inl ⟨?_, does_of_eq (fun env hrep => ?_) hT⟩
    · rw [APage.searched, hd]
      simp [pageHeader]
    · rw [hrun env hrep, if_neg (by decide)]
  · refine Or.inr ⟨?_, does_of_eq (fun env hrep => ?_) hT⟩
    · rw [APage.searched, hd]
      simp [pageHeader, pageCandidate, pageActive, pageFull]
    · rw [hrun env hrep, if_pos (Or.inr (Or.inr rfl))]

theorem Store.packed_eq {S : Store} {l : List ℕ} (hl : ∀ k ∈ l, S'.page k = S.page k) :
    l.countP (fun k => decide ((S'.page k).usedCnt = 126)) =
      l.countP fun k => decide ((S.page k).usedCnt = 126) :=
  countP_congr fun k hk => by rw [hl k hk]

/-- What a new page looks like. -/
theorem Tidy.turned_spec (h : Tidy n ns key L cut torn B S) {seq : ℕ}
    (ht : S.turned seq = some (p, S')) :
    S'.used.getLast? = some p ∧ (S'.page p).searched = true ∧ S.packed ≤ S'.packed ∧
      S'.free ≠ [] ∧ ∀ r ∈ (S'.page p).recs, r.live = true := by
  have hpages : ∀ {q : ℕ}, q ∈ S.free → ∀ k ∈ S.used, k ≠ q := fun hq k hk =>
    ne_of_mem_of_not_mem hk (h.free_notMem hq)
  rw [Store.turned] at ht
  split at ht
  · exact absurd ht (by simp)
  · next q hfree =>
    obtain ⟨v, hvictim, hpair⟩ := map_eq_some_iff.mp ht
    obtain ⟨rfl, rfl⟩ := Prod.mk.inj hpair
    obtain ⟨hv, hcnt⟩ := S.victim_spec hvictim
    have hne := hpages (show q ∈ S.free by rw [hfree]; simp)
    have hused : ((S.opened q seq).evacuated v q).used = S.used.erase v ++ [q] := by
      simp [Store.evacuated, Store.opened, erase_append_left _ hv]
    refine ⟨by rw [hused, List.getLast?_append]; rfl, ?_, ?_, ?_, ?_⟩
    · simp [Store.evacuated, APage.searched, pageHeader]
    · -- the page given up is not in use throughout
      have herase : (S.used.erase v).countP (fun k => decide ((S.page k).usedCnt = 126)) =
          S.packed := by
        rw [Store.packed, (perm_cons_erase hv).countP_eq, countP_cons_of_neg]
        simp only [decide_eq_true_eq]
        omega
      rw [← herase, Store.packed, hused, countP_append]
      refine le_trans (le_of_eq ?_) (Nat.le_add_right _ _)
      refine (Store.packed_eq fun k hk => ?_).symm
      have hkq := hne k (mem_of_mem_erase hk)
      simp only [Store.evacuated, Function.update_of_ne hkq, page_opened_of_ne S hkq]
    · simp [Store.evacuated]
    · intro r hr
      simp only [Store.evacuated, Function.update_self] at hr
      exact (mem_filter.mp hr).2
  · next q q' rest hfree =>
    obtain ⟨rfl, rfl⟩ := Prod.mk.inj (Option.some.inj ht)
    have hne := hpages (show q ∈ S.free by rw [hfree]; simp)
    refine ⟨by simp [Store.opened], ?_, ?_, by simp [Store.opened, hfree], ?_⟩
    · rw [page_opened_self]
      exact searched_opened seq []
    · rw [Store.packed, Store.packed, Store.opened, countP_append]
      refine le_trans (le_of_eq ?_) (Nat.le_add_right _ _)
      exact (Store.packed_eq fun k hk => page_opened_of_ne S (hne k hk)).symm
    · simp

section Room

variable {rom : NvdsRom} (hrom : rom.Reliable)
include hrom

/-- **`nextPage`** on a tidy store. -/
theorem Tidy.does_nextPage (h : Tidy n ns key L cut False B S) (hmine : Mine W ns key B)
    (hk : k ∈ S.used) (hs : (S.page k).searched = true) :
    ∃ seq, seq = u32 ((S.page k).header.seqno + 1) ∧
      Does n (nextPage rom k) S (.ok (((S.mark k pageFull).turned seq).map Prod.fst))
        ((((S.mark k pageFull).turned seq).map Prod.snd).getD (S.mark k pageFull)) id
        (Stage n ns key L W) ∧
      Tidy n ns key L cut False B (S.mark k pageFull) ∧
      Tidy n ns key L cut False B
        ((((S.mark k pageFull).turned seq).map Prod.snd).getD (S.mark k pageFull)) := by
  obtain ⟨hfull, htidy⟩ := h.does_full hrom hk hs hmine
  obtain ⟨hturn, htidy'⟩ := htidy.does_turn hrom hmine
    (u32_lt (((S.mark k pageFull).page k).header.seqno + 1))
  refine ⟨_, ?_, hfull.seq (does_get (fun env hrep => by rw [hrep.header_eq hk]) hturn), htidy,
    htidy'⟩
  -- the state is not part of the number
  rw [Store.mark, Store.page_setPage]
  rfl

omit hrom in
/-- `roomFor`, the page having room. -/
theorem Tidy.does_roomFor_here (h : Tidy n ns key L cut False B S) (hmine : Mine W ns key B)
    (hk : k ∈ S.used) (hsize : size ≤ (126 - recsSize (S.page k).recs) * 32) :
    Does n (roomFor rom size k) S (.ok (some k)) S id (Stage n ns key L W) := by
  refine does_get (fun env hrep => ?_) (does_pure (some k) (h.stage hmine))
  rw [hrep.room_eq hk, if_neg (by omega)]

/-- `roomFor`, the page having no room. -/
theorem Tidy.does_roomFor_turn (h : Tidy n ns key L cut False B S) (hmine : Mine W ns key B)
    (hk : k ∈ S.used) (hs : (S.page k).searched = true)
    (hsize : (126 - recsSize (S.page k).recs) * 32 < size) :
    ∃ seq, seq = u32 ((S.page k).header.seqno + 1) ∧ Does n (roomFor rom size k) S
        (.ok ((((S.mark k pageFull).turned seq).filter fun r =>
          decide (size ≤ (126 - recsSize (r.2.page r.1).recs) * 32)).map Prod.fst))
        ((((S.mark k pageFull).turned seq).map Prod.snd).getD (S.mark k pageFull)) id
        (Stage n ns key L W) ∧
      Tidy n ns key L cut False B (S.mark k pageFull) ∧
      Tidy n ns key L cut False B
        ((((S.mark k pageFull).turned seq).map Prod.snd).getD (S.mark k pageFull)) := by
  obtain ⟨seq, hseq, hnext, htidy, htidy'⟩ := h.does_nextPage hrom hmine hk hs
  have hroom : ∀ env, Rep n env S → pageRoomGet (env.pages k) < size := fun env hrep => by
    rwa [hrep.room_eq hk]
  refine ⟨seq, hseq, does_get (fun env hrep => if_pos (hroom env hrep)) (hnext.seq ?_), htidy,
    htidy'⟩
  rcases hres : (S.mark k pageFull).turned seq with _ | ⟨p, S'⟩
  · rw [hres] at htidy'
    exact does_get (x := pure none) (fun _ _ => rfl) (does_pure none (htidy'.stage hmine))
  · rw [hres] at htidy'
    have hp : p ∈ S'.used := mem_of_getLast? (htidy.turned_spec hres).1
    rw [filter_some]
    refine does_get (fun env hrep => ?_) (does_pure _ (htidy'.stage hmine))
    simp only [map_some]
    rw [show pageRoomGet (env.pages p) = (126 - recsSize (S'.page p).recs) * 32 from
      Rep.room_eq hrep hp]
    by_cases hroom : size ≤ (126 - recsSize (S'.page p).recs) * 32
    · rw [if_neg (by omega), if_pos (by simpa using hroom)]
      rfl
    · rw [if_pos (by omega), if_neg (by simpa using hroom)]
      rfl

omit hrom in
/-- The page that has taken the place of a full one, if it has room. -/
theorem Tidy.ready_of_turned (h : Tidy n ns key L cut torn B (S.mark k pageFull))
    {seq : ℕ} (hres : (S.mark k pageFull).turned seq = some (p, S'))
    (hfits : size ≤ (126 - recsSize (S'.page p).recs) * 32) : Ready S k size S' p := by
  have hpacked : (S.mark k pageFull).packed = S.packed := by
    refine countP_congr fun j _ => ?_
    by_cases hj : j = k
    · rw [hj, Store.mark, Store.page_setPage]
      rfl
    · rw [Store.mark, Store.page_setPage_of_ne S hj]
  obtain ⟨hlast, hs, hle, hfree, hlive⟩ := h.turned_spec hres
  exact ⟨hlast, hs, hfits, hpacked ▸ hle, Or.inr ⟨hfree, hlive⟩⟩

/-- **`roomFor`** on a tidy store. -/
theorem Tidy.does_roomFor (h : Tidy n ns key L cut False B S) (hmine : Mine W ns key B)
    (hlast : S.used.getLast? = some k) (hs : (S.page k).searched = true) (size : ℕ) :
    ∃ o S', Does n (roomFor rom size k) S (.ok o) S' id (Stage n ns key L W) ∧
      Tidy n ns key L cut False B S' ∧ ∀ p, o = some p → Ready S k size S' p := by
  have hk : k ∈ S.used := mem_of_getLast? hlast
  by_cases hsize : (126 - recsSize (S.page k).recs) * 32 < size
  swap
  · refine ⟨some k, S, h.does_roomFor_here hmine hk (by omega), h, ?_⟩
    rintro p hp
    rw [← Option.some.inj hp]
    exact ⟨hlast, hs, by omega, le_rfl, Or.inl ⟨rfl, rfl⟩⟩
  · -- the page is marked full and a new one is requested
    obtain ⟨seq, -, hroom, htidy, htidy'⟩ := h.does_roomFor_turn hrom hmine hk hs hsize
    refine ⟨_, _, hroom, htidy', fun q hq => ?_⟩
    obtain ⟨⟨p, S'⟩, hres, rfl⟩ := map_eq_some_iff.mp hq
    obtain ⟨hres, hfits⟩ := filter_eq_some_iff.mp hres
    rw [hres]
    exact htidy.ready_of_turned hres (by simpa using hfits)

end Room

/-! ### Putting a value that fits a page -/

section Put

variable {rom : NvdsRom} (hrom : rom.Reliable) (hns : ns < 256) (hkey : key.len < keyNameMaxSize)
  {v : List UInt8}

/-- The outcome of a put: the value is kept, or there is an error and no record of the key. -/
def Outcome (ns : ℕ) (key : CString) (v : List UInt8) (r : Except NvdsErr Unit)
    (B : Multiset Body) : Prop :=
  (r = .ok () ∧ Keeps ns key v B) ∨ ((∃ e, r = .error e) ∧ B = 0)

/-- Unless an operation has been cut short before, there is no other error than the lack of
space. -/
def NoSpaceOnly (cut : Prop) (r : Except NvdsErr Unit) : Prop :=
  ¬cut → ∀ e, r = .error e → e = .noSpace

theorem noSpaceOnly_ok : NoSpaceOnly cut (.ok ()) := fun _ _ h => by cases h

theorem noSpaceOnly_noSpace : NoSpaceOnly cut (.error .noSpace) := fun _ _ h => by
  cases h
  rfl

/-- The last used page is searched. -/
theorem Tidy.noSpaceOnly_of_unsearched (h : Tidy n ns key L cut torn B S)
    (hlast : S.used.getLast? = some k) (hs : (S.page k).searched = false)
    (r : Except NvdsErr Unit) : NoSpaceOnly cut r := fun hcut _ _ => by
  have hsearched := (h.calm (fun hnil => hcut (h.spare hnil)) k (mem_of_getLast? hlast)).1
  exact absurd (hs.symm.trans hsearched) false_ne_true

include hrom hns hkey

/-- **The end of `data_element_put`** for a value that fits a page. -/
theorem Tidy.does_pageElementPut (h : Tidy n ns key L cut False 0 S) (hpos : 0 < v.length)
    (hle : v.length ≤ 256) (hW : W v) :
    ∃ r S' B', Does n (pageElementPut rom ns key v) S r S' id (Stage n ns key L W) ∧
      Tidy n ns key L cut False B' S' ∧ Outcome ns key v r B' ∧ NoSpaceOnly cut r := by
  have hstage : Stage n ns key L W S.shot := h.stage mine_zero
  obtain ⟨k, hlast, ⟨hs, hcur⟩ | ⟨hs, hcur⟩⟩ := h.does_currentPage hstage
  swap
  · exact ⟨_, S, 0, hcur.bind_error _, h, Or.inr ⟨⟨_, rfl⟩, rfl⟩,
      h.noSpaceOnly_of_unsearched hlast hs _⟩
  obtain ⟨o, S₁, hroom, htidy, hready⟩ := h.does_roomFor hrom mine_zero hlast hs
    (if v.length ≤ elementSmallMaxSize then entrySize else entrySize + v.length)
  rcases o with _ | p
  · refine ⟨_, S₁, 0, hcur.seq (hroom.seq ?_), htidy,
      Or.inr ⟨⟨.noSpace, rfl⟩, rfl⟩, noSpaceOnly_noSpace⟩
    exact does_throw .noSpace (htidy.stage mine_zero)
  have hp := hready p rfl
  have hpm : p ∈ S₁.used := mem_of_getLast? hp.last
  have hspace := hp.room
  by_cases hsmall : v.length ≤ elementSmallMaxSize
  · -- a header alone
    rw [if_pos hsmall] at hspace
    have hle8 : v.length ≤ 8 := hsmall
    have hf := inFields_small hns hkey hle8
    have hcnt : Entry.dataCnt (smallEntry ns key v) = 0 := by
      rw [Entry.dataCnt, (fields_small hns hkey hle8).1]
    have hroom' : recsSize (S₁.page p).recs < 126 := by
      simp only [entrySize] at hspace
      omega
    obtain ⟨hpush, htidy'⟩ := htidy.does_push hpm hp.searched hf.length_eq (by simp)
      (show ([] : List (List UInt8)).length = _ from hcnt.symm) (by rw [length_nil]; omega)
      ((hf.hit_iff ns key .any).mpr ⟨rfl, rfl, Or.inl rfl⟩) (notMem_zero _) mine_zero
      (Or.inl ⟨v, hW, .small hpos hle8⟩)
      (does_headerWrite hrom hpm hf.length_eq hcnt hroom')
    refine ⟨_, _, _, hcur.seq (hroom.seq ?_), htidy',
      Or.inl ⟨rfl, .small hpos hle8⟩, noSpaceOnly_ok⟩
    simp only [if_pos hsmall]
    exact hpush
  · -- a header and the data behind it
    rw [if_neg hsmall] at hspace
    have hlt : 8 < v.length := by
      simp only [elementSmallMaxSize] at hsmall
      omega
    have hf := inFields_middle hns hkey hle
    have hcnt : entriesOf v.length = Entry.dataCnt (middleEntry ns key v) := by
      rw [Entry.dataCnt, (fields_middle hns hkey hle).1, (fields_middle hns hkey hle).2.1]
    have hroom' : recsSize (S₁.page p).recs + (1 + entriesOf v.length) ≤ 126 := by
      simp only [entrySize] at hspace
      simp only [entriesOf, entrySize]
      omega
    obtain ⟨hpush, htidy'⟩ := htidy.does_push hpm hp.searched hf.length_eq
      (fun _ => length_of_mem_slotsOf) ((length_slotsOf v).trans hcnt)
      (by rw [length_slotsOf]; exact hroom')
      ((hf.hit_iff ns key .any).mpr ⟨rfl, rfl, Or.inl rfl⟩) (notMem_zero _) mine_zero
      (Or.inl ⟨v, hW, .middle hlt hle⟩)
      (does_elementWrite hrom hpm hf.length_eq hcnt hroom')
    refine ⟨_, _, _, hcur.seq (hroom.seq ?_), htidy', Or.inl ⟨rfl, .middle hlt hle⟩, noSpaceOnly_ok⟩
    simp only [if_neg hsmall]
    exact hpush

/-! ### Putting the fragments of a value -/

omit hrom hns hkey in
/-- One more fragment. -/
theorem fragBodies_append (i : ℕ) (rest : List UInt8) (lens : List ℕ) (l : ℕ) :
    fragBodies ns key v i rest (lens ++ [l]) = fragBodies ns key v i rest lens ++
      [(bulkEntry ns key v (i + lens.length) l, slotsOf ((rest.drop lens.sum).take l))] := by
  induction lens generalizing i rest with
  | nil => simp [fragBodies]
  | cons m lens ih =>
    rw [cons_append, fragBodies, ih, fragBodies, length_cons, List.sum_cons,
      drop_drop, cons_append, Nat.add_right_comm, Nat.add_assoc i]

/-- What is known while the fragments are written: those of the given lengths are, page `k` is
the current one, and with the second fragment the current page has become full. -/
structure Fragmenting (n : ℕ) (ns : ℕ) (key : CString) (L : Multiset Body) (cut : Prop)
    (v : List UInt8) (lens : List ℕ) (k : ℕ) (S : Store) : Prop where
  tidy : Tidy n ns key L cut False (fragBodies ns key v 0 v lens : List Body) S
  pos : ∀ l ∈ lens, 0 < l
  sum_le : lens.sum ≤ v.length
  count_le : lens.length ≤ 32
  packed_le : lens.length ≤ S.packed + 1
  last : S.used.getLast? = some k
  searched : (S.page k).searched = true
  full : lens.length = 0 ∨ recsSize (S.page k).recs = 126

omit hrom in
/-- The fragments written are all fragments. -/
theorem Fragmenting.bulk {lens : List ℕ} {k : ℕ} (h : Fragmenting n ns key L cut v lens k S)
    (hle : v.length ≤ 12800) :
    ∀ b ∈ (fragBodies ns key v 0 v lens : Multiset Body), Entry.type b.1 = .bulk := by
  have hsum := h.sum_le
  have hcount := h.count_le
  intro b hb
  exact (mem_fragBodies hns hkey (by omega) (by omega) (mem_coe.mp hb)).2.2.1

omit hrom hns hkey in
/-- **The number of the next fragment fits its field.** -/
theorem Fragmenting.count_lt
    (h : Fragmenting n ns key L cut v lens k S) (hn : n ≤ 32) (htidy' : Tidy n ns key L cut torn B S')
    (hready : Ready S k (2 * entrySize) S' p) : lens.length < 32 := by
  have hroom := hready.room
  simp only [entrySize] at hroom
  rcases h.full with h0 | hfull
  · omega
  · rcases hready.turn with ⟨rfl, rfl⟩ | ⟨hfree, -⟩
    · omega
    · -- the pages that are in use throughout, the new page and a free page are all different
      have hp : p ∈ S'.used := mem_of_getLast? hready.last
      have hnot : ¬decide ((S'.page p).usedCnt = 126) = true := by
        have := @usedCnt_le (S'.page p)
        simp only [decide_eq_true_eq]
        omega
      have hlt : S'.packed < S'.used.length := by
        rw [Store.packed, countP_eq_length_filter]
        exact length_filter_lt_length_iff_exists.mpr ⟨p, hp, hnot⟩
      have hpos := length_pos_iff.mpr hfree
      have hcard := length_used_add_free htidy'.nodup_pages htidy'.mem_iff
      have := h.packed_le
      have := hready.packed_le
      omega

omit hns hkey hrom in
/-- A record put behind the records in use of a page, up to its end. -/
theorem Store.packed_push {S : Store} (hnd : S.used.Nodup)
    (hp : S.used.getLast? = some p) {r : Rec} (hr : r.live = true)
    (hlive : ∀ s ∈ (S.page p).recs, s.live = true)
    (hsize : recsSize ((S.page p).recs ++ [r]) = 126) : (S.push p r).packed = S.packed + 1 := by
  obtain ⟨l, hl⟩ := List.getLast?_eq_some_iff.mp hp
  have hnot : p ∉ l := by
    rw [hl, nodup_append] at hnd
    exact fun h => hnd.2.2 p h p (by simp) rfl
  have hall : ∀ s ∈ (S.page p).recs ++ [r], s.live = true := by
    intro s hs
    rcases mem_append.mp hs with hs | hs
    · exact hlive s hs
    · rw [List.mem_singleton.mp hs, hr]
  have hnew : ((S.push p r).page p).usedCnt = 126 := by
    rw [Store.push, Store.page_setPage, APage.usedCnt, filter_eq_self.mpr hall, hsize]
  have hold : (S.page p).usedCnt ≠ 126 := by
    have := @usedCnt_le (S.page p)
    have := r.size_pos
    rw [recsSize_append, recsSize_cons] at hsize
    omega
  have hrest := Store.packed_eq fun k (hk : k ∈ l) =>
    S.page_setPage_of_ne (ne_of_mem_of_not_mem hk hnot)
      { S.page p with recs := (S.page p).recs ++ [r] }
  rw [Store.packed, Store.packed, show (S.push p r).used = S.used from rfl, hl, countP_append,
    countP_append, countP_singleton, countP_singleton, if_pos (by simpa using hnew),
    if_neg (by simpa using hold)]
  exact congrArg (· + 1) hrest

/-- **The next fragment is written**, its number fitting its field. -/
theorem Fragmenting.does_next (hle : v.length ≤ 12800)
    (h : Fragmenting n ns key L cut v lens k S) (hcount : lens.length < 32)
    (hlt : lens.sum < v.length)
    (htidy : Tidy n ns key L cut False (fragBodies ns key v 0 v lens : List Body) S')
    (hready : Ready S k (2 * entrySize) S' p) {len : ℕ}
    (hlen : len = min ((126 - recsSize (S'.page p).recs) * 32 - entrySize) (v.length - lens.sum)) :
    ∃ S'', S'' = S'.push p (.fresh (bulkEntry ns key v lens.length len)
        (slotsOf ((v.drop lens.sum).take len))) ∧
      Does n (elementWrite rom p (bulkEntry ns key v lens.length len)
        ((v.drop lens.sum).take len)) S' (.ok ()) S'' id (Stage n ns key L W) ∧
      Tidy n ns key L cut False (fragBodies ns key v 0 v (lens ++ [len]) : List Body) S'' ∧
      S''.used.getLast? = some p ∧ (S''.page p).searched = true ∧ 0 < len ∧
      lens.sum + len ≤ v.length ∧
      (lens.sum + len < v.length → Fragmenting n ns key L cut v (lens ++ [len]) p S'') := by
  have hroom := hready.room
  simp only [entrySize] at hroom hlen
  have hpos : 0 < len := by omega
  have hsum : lens.sum + len ≤ v.length := by omega
  have hp : p ∈ S'.used := mem_of_getLast? hready.last
  have hf := inFields_bulk hns hkey v hcount (show len ≤ 12800 by omega)
  obtain ⟨htype, hblen, hno⟩ := fields_bulk hns hkey v hcount (show len ≤ 12800 by omega)
  have he : (bulkEntry ns key v lens.length len).length = 32 := hf.length_eq
  have hdata : ((v.drop lens.sum).take len).length = len := by
    rw [length_take, length_drop]
    omega
  have hcnt : entriesOf ((v.drop lens.sum).take len).length =
      Entry.dataCnt (bulkEntry ns key v lens.length len) := by
    rw [Entry.dataCnt, htype, hblen, hdata]
  have hspace : recsSize (S'.page p).recs +
      (1 + entriesOf ((v.drop lens.sum).take len).length) ≤ 126 := by
    rw [hdata, entriesOf, entrySize]
    omega
  have hbulk := h.bulk hns hkey hle
  have hcons : (fragBodies ns key v 0 v (lens ++ [len]) : Multiset Body) =
      (bulkEntry ns key v lens.length len, slotsOf ((v.drop lens.sum).take len)) ::ₘ
        (fragBodies ns key v 0 v lens : List Body) := by
    rw [fragBodies_append, ← coe_add, add_comm, Nat.zero_add]
    rfl
  -- the new fragment has a number of its own
  have hnew : (bulkEntry ns key v lens.length len, slotsOf ((v.drop lens.sum).take len)) ∉
      (fragBodies ns key v 0 v lens : Multiset Body) := by
    intro hmem
    have := (mem_fragBodies hns hkey (by omega) (by omega) (mem_coe.mp hmem)).2.1
    rw [hno] at this
    omega
  obtain ⟨hdoes, htidy'⟩ := htidy.does_push hp hready.searched he
    (fun _ => length_of_mem_slotsOf) ((length_slotsOf _).trans hcnt)
    (by rw [length_slotsOf]; exact hspace)
    ((hf.hit_iff ns key .any).mpr ⟨rfl, rfl, Or.inl rfl⟩) hnew (Or.inr hbulk)
    (Or.inr (by
      intro b hb
      rcases Multiset.mem_cons.mp hb with rfl | hb
      · exact htype
      · exact hbulk b hb))
    (does_elementWrite hrom hp he hcnt hspace)
  have hsearched : ((S'.push p (.fresh (bulkEntry ns key v lens.length len)
      (slotsOf ((v.drop lens.sum).take len)))).page p).searched = true := by
    rw [Store.push, Store.page_setPage]
    exact hready.searched
  refine ⟨_, rfl, hdoes, by rw [hcons]; exact htidy', hready.last, hsearched, hpos, hsum,
    fun hmore => ?_⟩
  -- the fragment takes all the room there is
  have hfull : recsSize ((S'.page p).recs ++ [.fresh (bulkEntry ns key v lens.length len)
      (slotsOf ((v.drop lens.sum).take len))]) = 126 := by
    rw [recsSize_append, recsSize_cons, recsSize_nil, Rec.size_fresh, length_slotsOf, hdata,
      entriesOf, entrySize]
    omega
  refine ⟨by rw [hcons]; exact htidy', ?_, ?_, ?_, ?_, hready.last, hsearched, Or.inr ?_⟩
  · intro l hl
    rcases mem_append.mp hl with hl | hl
    · exact h.pos l hl
    · rwa [List.mem_singleton.mp hl]
  · rw [sum_append, List.sum_singleton]
    exact hsum
  · rw [length_append, length_singleton]
    omega
  · have := h.packed_le
    have := hready.packed_le
    rw [length_append, length_singleton]
    rcases hready.turn with ⟨rfl, rfl⟩ | ⟨-, hlive⟩
    · rcases h.full with h0 | hk
      · omega
      · omega
    · rw [Store.packed_push htidy.nodup_used hready.last (Rec.live_fresh _ _) hlive hfull]
      omega
  · rw [Store.push, Store.page_setPage]
    exact hfull

/-- **The loop of `bulk_element_put`.** -/
theorem Fragmenting.does_fragsPut {fuel : ℕ} (hle : v.length ≤ 12800)
    (hn : n ≤ 32) (h : Fragmenting n ns key L cut v lens k S) (hlt : lens.sum < v.length)
    (hfuel : v.length - lens.sum < fuel) :
    ∃ o S' lens' , Does n (bulkFragsPut rom ns key v fuel k (v.drop lens.sum) lens.length) S (.ok o)
        S' id (Stage n ns key L W) ∧
      Tidy n ns key L cut False (fragBodies ns key v 0 v lens' : List Body) S' ∧
      (∀ b ∈ (fragBodies ns key v 0 v lens' : Multiset Body), Entry.type b.1 = .bulk) ∧
      ∀ m, o = some m → m = lens'.length ∧ Cuts v lens' ∧
        ∃ p, S'.used.getLast? = some p ∧ (S'.page p).searched = true := by
  induction fuel generalizing S lens k with
  | zero => omega
  | succ fuel ih =>
    have hbulk := h.bulk hns hkey hle
    obtain ⟨o, S₁, hroom, htidy, hready⟩ := h.tidy.does_roomFor hrom (Or.inr hbulk) h.last
      h.searched (2 * entrySize)
    rcases o with _ | p
    · refine ⟨none, S₁, lens, hroom.seq ?_, htidy, hbulk, by simp⟩
      exact does_pure none (htidy.stage (Or.inr hbulk))
    have hp := hready p rfl
    have hpm : p ∈ S₁.used := mem_of_getLast? hp.last
    have hcount := h.count_lt hn htidy hp
    obtain ⟨S₂, -, hwrite, htidy₂, hlast, hsearched, hpos, hsum, hmore⟩ :=
      h.does_next hrom hns hkey hle hcount hlt htidy hp rfl
    generalize hlen : min ((126 - recsSize (S₁.page p).recs) * 32 - entrySize)
      (v.length - lens.sum) = len at hwrite htidy₂ hpos hsum hmore
    -- the length of the fragment is the one the loop computes
    have hround : ∀ {o' S'}, Does n (do
          elementWrite rom p (bulkEntry ns key v lens.length len) ((v.drop lens.sum).take len)
          if (v.drop lens.sum).length - len = 0 then pure (some (lens.length + 1))
          else bulkFragsPut rom ns key v fuel p ((v.drop lens.sum).drop len) (lens.length + 1))
        S₁ (.ok o') S' id (Stage n ns key L W) →
        Does n (bulkFragsPut rom ns key v (fuel + 1) k (v.drop lens.sum) lens.length) S (.ok o') S'
          id (Stage n ns key L W) := by
      intro o' S' hdoes
      refine hroom.seq (does_get (fun env hrep => ?_) hdoes)
      rw [hrep.room_eq hpm, length_drop, hlen]
    rw [length_drop] at hround
    rcases Nat.lt_or_ge (lens.sum + len) v.length with hrest | hdone
    · have hnext := hmore hrest
      have hdrop : (v.drop lens.sum).drop len = v.drop (lens ++ [len]).sum := by
        rw [drop_drop, sum_append, List.sum_singleton]
      have hcnt : lens.length + 1 = (lens ++ [len]).length := by simp
      obtain ⟨o, S', lens', hdoes, hend⟩ := ih hnext (by simpa using hrest)
        (by rw [sum_append, List.sum_singleton]; omega)
      refine ⟨o, S', lens', hround (hwrite.seq ?_), hend⟩
      rw [if_neg (by omega), hdrop, hcnt]
      exact hdoes
    · have hcuts : Cuts v (lens ++ [len]) := by
        refine ⟨?_, ?_, ?_⟩
        · intro l hl
          rcases mem_append.mp hl with hl | hl
          · exact h.pos l hl
          · rwa [List.mem_singleton.mp hl]
        · rw [sum_append, List.sum_singleton]
          omega
        · rw [length_append, length_singleton]
          omega
      have hbulk₂ : ∀ b ∈ (fragBodies ns key v 0 v (lens ++ [len]) : Multiset Body),
          Entry.type b.1 = .bulk := fun b hb =>
        (mem_fragBodies hns hkey (by simpa using hcuts.count_le)
          (by rw [hcuts.sum_eq]; exact hle) (mem_coe.mp hb)).2.2.1
      refine ⟨some (lens.length + 1), S₂, lens ++ [len], hround (hwrite.seq ?_), htidy₂, hbulk₂, ?_⟩
      · rw [if_pos (by omega)]
        exact does_pure _ (htidy₂.stage (Or.inr hbulk₂))
      · intro m hm
        rw [← Option.some.inj hm]
        exact ⟨by simp, hcuts, p, hlast, hsearched⟩

omit hns hkey in
/-- `no_space_out`: all fragments are given up. -/
theorem Tidy.does_noSpaceOut (h : Tidy n ns key L cut torn B S)
    (hB : ∀ b ∈ B, Entry.type b.1 = .bulk) :
    ∃ S', Does n (noSpaceOut rom ns key) S (.error .noSpace) S' id (Stage n ns key L W) ∧
      Tidy n ns key L cut torn 0 S' := by
  obtain ⟨S', hdel, htidy⟩ := h.does_fragsDel_all hrom hB
  exact ⟨S', hdel.seq (does_throw .noSpace (htidy.stage mine_zero)), htidy⟩

/-- **`bulk_element_put`.** -/
theorem Tidy.does_bulkElementPut (hn : n ≤ 32) (h : Tidy n ns key L cut False 0 S)
    (hlt : 256 < v.length) (hle : v.length ≤ 12800) (hW : W v) :
    ∃ r S' B', Does n (bulkElementPut rom ns key v) S r S' id (Stage n ns key L W) ∧
      Tidy n ns key L cut False B' S' ∧ Outcome ns key v r B' ∧ NoSpaceOnly cut r := by
  have hstage : Stage n ns key L W S.shot := h.stage mine_zero
  obtain ⟨k, hlast, ⟨hs, hcur⟩ | ⟨hs, hcur⟩⟩ := h.does_currentPage hstage
  swap
  · exact ⟨_, S, 0, hcur.bind_error _, h, Or.inr ⟨⟨_, rfl⟩, rfl⟩,
      h.noSpaceOnly_of_unsearched hlast hs _⟩
  have hstart : Fragmenting n ns key L cut v [] k S :=
    ⟨h, by simp, by simp, by simp, by simp, hlast, hs, Or.inl rfl⟩
  obtain ⟨o, S₁, lens, hloop, htidy, hbulk, hdone⟩ := hstart.does_fragsPut hrom hns hkey hle hn
    (show ([] : List ℕ).sum < v.length by rw [sum_nil]; omega)
    (show v.length - ([] : List ℕ).sum < v.length + 1 by omega)
  rcases o with _ | m
  · obtain ⟨S', hout, htidy'⟩ := htidy.does_noSpaceOut hrom hbulk
    exact ⟨_, S', 0, hcur.seq (hloop.seq hout), htidy', Or.inr ⟨⟨_, rfl⟩, rfl⟩, noSpaceOnly_noSpace⟩
  obtain ⟨rfl, hcuts, k', hlast', hs'⟩ := hdone m rfl
  have hmine : Mine W ns key (fragBodies ns key v 0 v lens : List Body) := Or.inr hbulk
  -- the current page is the one of the last fragment
  have hcur' : Does n currentPage S₁ (.ok k') S₁ id (Stage n ns key L W) := by
    obtain ⟨j, hj, hok⟩ := htidy.does_currentPage (htidy.stage hmine)
    rw [hlast'] at hj
    obtain rfl := Option.some.inj hj
    rcases hok with ⟨-, hok⟩ | ⟨hunsearched, -⟩
    · exact hok
    · exact absurd (hunsearched.symm.trans hs') false_ne_true
  obtain ⟨o, S₂, hroom, htidy₂, hready⟩ := htidy.does_roomFor hrom hmine hlast' hs' entrySize
  rcases o with _ | p
  · obtain ⟨S', hout, htidy'⟩ := htidy₂.does_noSpaceOut hrom hbulk
    exact ⟨_, S', 0, hcur.seq (hloop.seq (hcur'.seq (hroom.seq hout))), htidy',
      Or.inr ⟨⟨_, rfl⟩, rfl⟩, noSpaceOnly_noSpace⟩
  have hp := hready p rfl
  have hpm : p ∈ S₂.used := mem_of_getLast? hp.last
  have hf := inFields_bulkInfo hns hkey hcuts.count_le v.length
  have he : (bulkInfoEntry ns key lens.length v.length).length = 32 := hf.length_eq
  have htype := (fields_bulkInfo hns hkey hcuts.count_le hle).1
  have hcnt : Entry.dataCnt (bulkInfoEntry ns key lens.length v.length) = 0 := by
    rw [Entry.dataCnt, htype]
  have hroom' : recsSize (S₂.page p).recs < 126 := by
    have := hp.room
    simp only [entrySize] at this
    omega
  have hnew : (bulkInfoEntry ns key lens.length v.length, []) ∉
      (fragBodies ns key v 0 v lens : Multiset Body) := by
    intro hmem
    have := hbulk _ hmem
    rw [htype] at this
    exact absurd this (by simp)
  obtain ⟨hdoes, htidy₃⟩ := htidy₂.does_push hpm hp.searched he (by simp)
    (show ([] : List (List UInt8)).length = _ from hcnt.symm) (by rw [length_nil]; omega)
    ((hf.hit_iff ns key .any).mpr ⟨rfl, rfl, Or.inl rfl⟩) hnew hmine
    (Or.inl ⟨v, hW, .bulk hlt hle hcuts⟩) (does_headerWrite hrom hpm he hcnt hroom')
  exact ⟨_, _, _, hcur.seq (hloop.seq (hcur'.seq (hroom.seq hdoes))), htidy₃,
    Or.inl ⟨rfl, .bulk hlt hle hcuts⟩, noSpaceOnly_ok⟩

/-! ### `data_element_put` -/

/-- The records of a key between two operations: they keep a value, or there are none. -/
def Stored (ns : ℕ) (key : CString) (B : Multiset Body) : Prop :=
  (∃ v, Keeps ns key v B) ∨ B = 0

omit hrom hns hkey in
theorem Stored.mine (h : Stored ns key B) (hW : ∀ w, Keeps ns key w B → W w) :
    Mine W ns key B := by
  rcases h with ⟨w, hw⟩ | rfl
  · exact Or.inl ⟨w, hW w hw, hw⟩
  · exact mine_zero

omit hrom hns hkey in
theorem Keeps.ne_zero (h : Keeps ns key v B) : B ≠ 0 := by
  cases h <;> simp

/-- The old value is deleted, if there is one. -/
theorem Tidy.does_dropOld (h : Tidy n ns key L cut torn B S) (hB : Stored ns key B)
    (hW : ∀ w, Keeps ns key w B → W w) :
    ∃ S', Does n (dropOld rom ns key) S (.ok ()) S' (if B = 0 then id else lowerNs ns)
      (Stage n ns key L W) ∧ Tidy n ns key L cut False 0 S' := by
  rcases hB with ⟨w, hw⟩ | rfl
  · obtain ⟨S', hdel, htidy⟩ := h.does_dataElementDel hrom hns hkey hw (hW w hw)
    refine ⟨S', ?_, htidy.untorn⟩
    rw [if_neg hw.ne_zero]
    exact hdel.attempt.seq (does_lower (htidy.stage mine_zero) ns)
  · refine ⟨S, ?_, h.untorn⟩
    exact (h.does_dataElementDel_none hrom).attempt.seq (does_pure () (h.stage mine_zero))

/-- **`data_element_put`**: afterwards the value is kept, or there is no record of the key. A
count that stood for an older value is taken back. -/
theorem Tidy.does_dataElementPut (hn : n ≤ 32) (h : Tidy n ns key L cut torn B S)
    (hB : Stored ns key B) (hpos : 0 < v.length) (hle : v.length ≤ 12800) (hW : W v)
    (hW' : ∀ w, Keeps ns key w B → W w) :
    ∃ r S' B', Does n (dataElementPut rom ns key v) S r S' (if B = 0 then id else lowerNs ns)
        (Stage n ns key L W) ∧ Tidy n ns key L cut torn B' S' ∧ Outcome ns key v r B' ∧
          NoSpaceOnly cut r := by
  have hstage : Stage n ns key L W S.shot := h.stage (hB.mine hW')
  have hcompare : ∃ b, Does n (NvdsM.search fun env => (elementCompare rom env ns key v).map .ok) S
      (.ok b) S id (Stage n ns key L W) ∧ (b = true → Keeps ns key v B) := by
    rcases hB with ⟨w, hw⟩ | rfl
    · refine ⟨decide (w = v), does_search (fun env hrep => ?_) hstage, fun hb => ?_⟩
      · rw [elementCompare_keeps hrom hrep.view hns hkey (by rw [h.own_eq]; exact hw)]
        rfl
      · rwa [decide_eq_true_eq.mp hb] at hw
    · refine ⟨false, does_search (fun env hrep => ?_) hstage, by simp⟩
      rw [elementCompare_none hrom hrep.view h.own_eq]
      rfl
  obtain ⟨b, hsearch, hsame⟩ := hcompare
  cases b with
  | true =>
    have hv := hsame rfl
    rw [if_neg hv.ne_zero]
    exact ⟨_, S, B, hsearch.seq (does_lower hstage ns), h, Or.inl ⟨rfl, hv⟩, noSpaceOnly_ok⟩
  | false =>
    obtain ⟨S₁, hdrop, htidy⟩ := h.does_dropOld hrom hns hkey hB hW'
    by_cases hmiddle : elementMiddleMaxSize < v.length
    · obtain ⟨r, S', B', hdoes, htidy', hout⟩ := htidy.does_bulkElementPut hrom hns hkey hn hmiddle
        hle hW
      refine ⟨r, S', B', ?_, htidy'.torn_of_false, hout⟩
      have hboth := hdrop.bind (f := fun _ => bulkElementPut rom ns key v) hdoes
      refine hsearch.seq ?_
      simp only [if_pos hmiddle]
      exact hboth
    · obtain ⟨r, S', B', hdoes, htidy', hout⟩ := htidy.does_pageElementPut hrom hns hkey hpos
        (by simp only [elementMiddleMaxSize] at hmiddle; omega) hW
      refine ⟨r, S', B', ?_, htidy'.torn_of_false, hout⟩
      have hboth := hdrop.bind (f := fun _ => pageElementPut rom ns key v) hdoes
      refine hsearch.seq ?_
      simp only [if_neg hmiddle]
      exact hboth

end Put

end Operations

end Nvds

end Gd32
