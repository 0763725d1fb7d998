import Gd32Firmware.Nvds.Order
import Gd32Firmware.Nvds.Crowded

/-!
# The top bit of the sequence numbers

A new page gets the sequence number of the current one plus one, in 32 bits, and `cmp_sequence_no`,
by which `pages_load` lists the pages, leaves the top bit out. A value that is put and deleted again
takes a slot and leaves nothing in use, so putting and deleting it over and over takes one page after
the other (`Spent`), and some run gets to every sequence number. The page with the number
2 ^ 31 is then listed in front of the one before it, when the flash is loaded afresh.

So not every restart agrees with the environment that was running (`not_restart_agrees`).
-/

namespace Gd32.Nvds

open NorFlash LittleEndian List Option

/-! ### Pages with nothing in use -/

/-- Nothing is in use. The sequence numbers of the used pages go up one by one, to `s` on the last
one, page `k`, which has `r` slots written; from the second page on there are two of them. -/
structure Spent (s r k : ℕ) (S : Store) : Prop where
  dead : ∀ j ∈ S.used, (S.page j).usedCnt = 0
  last : S.used.getLast? = some k
  level : recsSize (S.page k).recs = r
  seqs : ∃ a, a + S.used.length = s + 1 ∧
    S.used.map (fun j => (S.page j).header.seqno) = List.range' a S.used.length
  two : s ≠ 0 → 2 ≤ S.used.length

/-- The first page is the victim, if nothing is in use. -/
theorem Store.victim_of_dead {S : Store} {v : ℕ} {vs : List ℕ} (hused : S.used = v :: vs)
    (h : ∀ j ∈ S.used, (S.page j).usedCnt = 0) : S.victim = some v := by
  have hfold : ∀ (ks : List ℕ) (acc : ℕ × Option ℕ), acc.1 = 0 → (ks.foldl (fun acc p =>
      if (S.page p).usedCnt < acc.1 then ((S.page p).usedCnt, some p) else acc) acc) = acc := by
    intro ks
    induction ks with
    | nil => exact fun _ _ => rfl
    | cons k ks ih =>
      intro acc hacc
      rw [foldl_cons, if_neg (by omega)]
      exact ih acc hacc
  have hv := h v (by rw [hused]; exact mem_cons_self)
  rw [Store.victim, hused, foldl_cons, if_pos (by rw [hv]; decide), hfold vs _ hv]

namespace Spent

variable {n m s r k : ℕ} {S : Store}

theorem mem_used (h : Spent s r k S) : k ∈ S.used := mem_of_getLast? h.last

/-- The number of a used page. -/
theorem exists_seqno (h : Spent s r k S) : ∃ a, a + S.used.length = s + 1 ∧
    ∀ (i : ℕ) (hi : i < S.used.length), (S.page (S.used[i])).header.seqno = a + i := by
  obtain ⟨a, hsum, hseqs⟩ := h.seqs
  refine ⟨a, hsum, fun i hi => ?_⟩
  have hget := congrArg (fun l => l[i]?) hseqs
  simp only [List.getElem?_map, List.getElem?_eq_getElem hi, map_some,
    List.getElem?_range' hi] at hget
  rw [Option.some.inj hget, Nat.one_mul]

theorem seqno_last (h : Spent s r k S) : (S.page k).header.seqno = s := by
  obtain ⟨a, hsum, hseq⟩ := h.exists_seqno
  have hlast := h.last
  have hpos := length_pos_of_mem h.mem_used
  rw [List.getLast?_eq_getElem?, List.getElem?_eq_getElem (by omega)] at hlast
  rw [← Option.some.inj hlast, hseq _ (by omega)]
  omega

/-- A store with nothing in use has no values. -/
theorem plain (h : Spent s r k S) (hp : Plain n m S) : Plain n 0 S := by
  refine ⟨hp.neat, hp.kept, fun b hb => ?_⟩
  have hnd := (nodup_append.mp hp.neat.nodup_pages).1
  have hlt : ∀ k ∈ S.used, k < n := fun k hk => (hp.neat.mem_iff k).mp (mem_append_left _ hk)
  rw [← coe_live_cells hnd hlt, Multiset.mem_coe] at hb
  obtain ⟨c, hc, -⟩ := mem_map.mp hb
  obtain ⟨hc, hlive⟩ := mem_filter.mp hc
  -- the cell would be one of a page
  obtain ⟨j, hj, hcell⟩ := mem_flatMap.mp hc
  rw [Store.cellsOf, if_pos (hp.neat.calm (hp.neat.spare · |>.elim) j hj).1] at hcell
  have hrec : c.record ∈ (S.page j).recs := by
    rw [← map_record_pageCells j 0 (S.page j).recs]
    exact mem_map_of_mem hcell
  have hpos := length_pos_of_mem (mem_filter.mpr ⟨hrec, hlive⟩)
  have hle := length_le_recsSize ((S.page j).recs.filter Rec.live)
  have hdead := h.dead j hj
  rw [APage.usedCnt] at hdead
  omega

/-- The state of a page does not count. -/
theorem mark (h : Spent s r k S) : Spent s r k (S.mark k pageFull) := by
  have hseq : ∀ j, ((S.mark k pageFull).page j).header.seqno = (S.page j).header.seqno := by
    intro j
    rcases eq_or_ne j k with rfl | hj
    · rw [Store.mark, Store.page_setPage]
      rfl
    · rw [Store.mark, Store.page_setPage_of_ne S hj]
  refine ⟨fun j hj => ?_, h.last, ?_, ?_, h.two⟩
  · rw [APage.usedCnt, S.recs_mark]
    exact h.dead j hj
  · rw [S.recs_mark]
    exact h.level
  · simp only [hseq]
    exact h.seqs

/-- Another slot of the last page, that is written and given up. -/
theorem push_kill (h : Spent s r k S) {e : Entry} {c : Cell}
    (hc : c ∈ (S.push k (.fresh e [])).cells) (hpage : c.page = k) (hlive : c.record.live = true)
    (hsize : c.record.size = 1) :
    Spent s (r + 1) k ((S.push k (.fresh e [])).kill c c.record.size) := by
  obtain ⟨hlevel, hcnt, hother⟩ := Store.page_kill hc hlive
  have hself : (S.push k (.fresh e [])).page k =
      { S.page k with recs := (S.page k).recs ++ [.fresh e []] } := S.page_setPage k _
  have hseq : ∀ j, (((S.push k (.fresh e [])).kill c c.record.size).page j).header.seqno =
      (S.page j).header.seqno := by
    intro j
    rcases eq_or_ne j k with rfl | hj
    · rw [Store.kill, hpage, Store.page_setPage, hself]
    · rw [hother j (by rwa [hpage]), S.page_push_of_ne hj]
  refine ⟨fun j hj => ?_, h.last, ?_, ?_, h.two⟩
  · rcases eq_or_ne j k with rfl | hjk
    · rw [hpage, hself, usedCnt_concat _ (Rec.live_fresh _ _), h.dead j hj, Rec.size_fresh] at hcnt
      rw [length_nil] at hcnt
      omega
    · rw [hother j (by rwa [hpage]), S.page_push_of_ne hjk]
      exact h.dead j hj
  · rw [hlevel, hself, recsSize_append, h.level]
    rfl
  · simp only [hseq]
    exact h.seqs

/-- Another page behind the used ones, or behind all but the first of them. -/
theorem append (h : Spent s r k S) {S' : Store} {p i : ℕ} (hi : i < S.used.length)
    (hused : S'.used = S.used.drop i ++ [p]) (hpage : ∀ j ∈ S.used, S'.page j = S.page j)
    (hself : S'.page p = ⟨pageHeader pageActive (s + 1), []⟩) : Spent (s + 1) 0 p S' := by
  obtain ⟨a, hsum, hseqs⟩ := h.seqs
  have hlen : S'.used.length = S.used.length - i + 1 := by
    rw [hused, length_append, length_drop, length_singleton]
  refine ⟨fun j hj => ?_, by rw [hused, List.getLast?_append]; rfl, by rw [hself]; rfl,
    ⟨a + i, by omega, ?_⟩, fun _ => by omega⟩
  · rw [hused] at hj
    rcases mem_append.mp hj with hj | hj
    · rw [hpage j (mem_of_mem_drop hj)]
      exact h.dead j (mem_of_mem_drop hj)
    · rw [mem_singleton.mp hj, hself]
      rfl
  · have hmap : (S.used.drop i).map (fun j => (S'.page j).header.seqno) =
        (S.used.map fun j => (S.page j).header.seqno).drop i := by
      rw [← map_drop]
      exact map_congr_left fun j hj => by rw [hpage j (mem_of_mem_drop hj)]
    rw [hlen, List.range'_1_concat, hused, map_append, hmap, hseqs, drop_range',
      map_singleton, hself, show a + i + (S.used.length - i) = s + 1 by omega, Nat.mul_one]
    rfl

/-- **The next page**: with the next number, and nothing written on it. -/
theorem turned (h : Spent s r k S) (hnd : (S.used ++ S.free).Nodup)
    (hlen : S.used.length + S.free.length = n) (h3 : 3 ≤ n) (hfree : S.free ≠ []) :
    ∃ p S', S.turned (s + 1) = some (p, S') ∧ Spent (s + 1) 0 p S' := by
  obtain ⟨p, rest, hfree⟩ := exists_cons_of_ne_nil hfree
  obtain ⟨v, vs, hused⟩ := exists_cons_of_ne_nil (ne_nil_of_mem h.mem_used)
  have hv : v ∈ S.used := by rw [hused]; exact mem_cons_self
  have hne : ∀ j ∈ S.used, j ≠ p := fun j hj e =>
    (nodup_append.mp hnd).2.2 j hj p (by simp [hfree]) e
  have hopened : ∀ j ∈ S.used, (S.opened p (s + 1)).page j = S.page j := fun j hj =>
    page_opened_of_ne S (hne j hj)
  rcases rest with _ | ⟨q, rest⟩
  · -- the first page is given up for it
    have hnone : (S.page v).recs.filter Rec.live = [] := by
      have hle := length_le_recsSize ((S.page v).recs.filter Rec.live)
      have hdead := h.dead v hv
      rw [APage.usedCnt] at hdead
      exact length_eq_zero_iff.mp (by omega)
    refine ⟨p, (S.opened p (s + 1)).evacuated v p, ?_, h.append (i := 1) ?_ ?_ (fun j hj => ?_) ?_⟩
    · rw [Store.turned, hfree]
      simp only [S.victim_of_dead hused h.dead, map_some]
    · rw [hfree, length_singleton] at hlen
      omega
    · simp [Store.evacuated, Store.opened, hused]
    · simp only [Store.evacuated, Function.update_of_ne (hne j hj), hopened j hj]
    · simp only [Store.evacuated, Function.update_self, hopened v hv, hnone, page_opened_self]
  · -- there is another free page
    refine ⟨p, S.opened p (s + 1), by rw [Store.turned, hfree], h.append (i := 0) ?_ rfl hopened ?_⟩
    · rw [hused]
      exact Nat.succ_pos _
    · rw [page_opened_self]

end Spent

/-! ### A run to every number -/

section Run

variable {rom : NvdsRom} (hrom : rom.Reliable) {n s r k : ℕ} {S : Store}
include hrom

/-- A value is put on the page that is found for it, and deleted. -/
theorem Spent.put_del (hp : Plain n 0 S) (hlast : S.used.getLast? = some k) {p : ℕ} {S₁ : Store}
    (hroom : Does n (roomFor rom entrySize k) S (.ok (some p)) S₁ id
      (Stage n namespaceNullIdx (numKey 0) (liveOf n S.shot) fun _ => True))
    (htidy : Tidy n namespaceNullIdx (numKey 0) (liveOf n S.shot) False False 0 S₁)
    (h₁ : Spent s r p S₁) (hsp : (S₁.page p).searched = true) (hr : r < 126) :
    ∃ S', Updates rom n S S' ∧ Plain n 0 S' ∧ Spent s (r + 1) p S' := by
  have hk : k ∈ S.used := mem_of_getLast? hlast
  obtain ⟨hput, hplain⟩ := hp.put hrom (by decide) hlast
    (hp.neat.calm (hp.neat.spare · |>.elim) k hk).1 hroom htidy h₁.mem_used hsp
    (by rw [h₁.level]; exact hr)
  have hself : (S₁.push p (.fresh (numBody 0).1 [])).page p =
      { S₁.page p with recs := (S₁.page p).recs ++ [.fresh (numBody 0).1 []] } :=
    S₁.page_setPage p _
  have hpos : 0 < ((S₁.push p (.fresh (numBody 0).1 [])).page p).usedCnt := by
    rw [hself, usedCnt_concat _ (Rec.live_fresh _ _)]
    exact Nat.lt_of_lt_of_le (Rec.size_pos _) (Nat.le_add_left _ _)
  obtain ⟨c, hc, hpage, hlive, hsize, hdel, hplain'⟩ :=
    hplain.delete_cell hrom (by decide) h₁.mem_used hpos
  have hspent := h₁.push_kill hc hpage hlive hsize
  exact ⟨_, hput.trans hdel, hspent.plain hplain', hspent⟩

/-- **Up to the end of the page.** -/
theorem Spent.fill (hp : Plain n 0 S) (h : Spent s r k S) {d : ℕ} (hd : r + d ≤ 126) :
    ∃ S', Updates rom n S S' ∧ Plain n 0 S' ∧ Spent s (r + d) k S' := by
  induction d with
  | zero => exact ⟨S, .refl S, hp, h⟩
  | succ d ih =>
    obtain ⟨S₁, hreach₁, hp₁, h₁⟩ := ih (by omega)
    have htidy := hp₁.tidy_new (show 0 < 255 ^ 3 by decide)
    have hroom : Does n (roomFor rom entrySize k) S₁ (.ok (some k)) S₁ id _ :=
      htidy.does_roomFor_here (W := fun _ => True) mine_zero h₁.mem_used (by
        rw [h₁.level, entrySize]
        omega)
    obtain ⟨S₂, hreach₂, hp₂, h₂⟩ := Spent.put_del hrom hp₁ h₁.last hroom htidy h₁
      (hp₁.neat.calm (hp₁.neat.spare · |>.elim) k h₁.mem_used).1 (by omega)
    exact ⟨S₂, hreach₁.trans hreach₂, hp₂, h₂⟩

/-- **From one page to the next**, as long as the numbers fit 32 bits. -/
theorem Spent.next (h3 : 3 ≤ n) (hp : Plain n 0 S) (h : Spent s 126 k S) (hs : s + 1 < 2 ^ 32) :
    ∃ S' p, Updates rom n S S' ∧ Plain n 0 S' ∧ Spent (s + 1) 1 p S' := by
  have htidy := hp.tidy_new (show 0 < 255 ^ 3 by decide)
  obtain ⟨seq, hseq, hroom, -, htidy'⟩ := htidy.does_roomFor_turn (W := fun _ => True) hrom
    mine_zero h.mem_used (hp.neat.calm (hp.neat.spare · |>.elim) k h.mem_used).1
    (show (126 - recsSize (S.page k).recs) * 32 < entrySize by
      rw [h.level]
      decide)
  obtain rfl : seq = s + 1 := by
    rw [hseq, h.seqno_last]
    exact Nat.mod_eq_of_lt hs
  obtain ⟨p, S₁, hturned, h₁⟩ := h.mark.turned hp.neat.nodup_pages
    (length_used_add_free hp.neat.nodup_pages hp.neat.mem_iff) h3 hp.neat.spare
  rw [hturned, filter_some, if_pos (by simp [h₁.level, entrySize])] at hroom
  rw [hturned] at htidy'
  obtain ⟨S₂, hreach, hp₂, h₂⟩ := Spent.put_del hrom hp h.last hroom htidy' h₁
    (htidy'.calm (htidy'.spare · |>.elim) p h₁.mem_used).1 (by decide)
  exact ⟨S₂, p, hreach, hp₂, h₂⟩

omit hrom in
/-- An erased partition has its first page, with the number 0. -/
theorem spent_erased (n : ℕ) : Spent 0 0 0 ((emptyStore n).opened 0 0) := by
  have h := filled_erased n
  refine ⟨fun j hj => ?_, h.last, h.level, ⟨0, rfl, ?_⟩, fun h0 => absurd rfl h0⟩
  · obtain rfl : j = 0 := by simpa [Store.opened, emptyStore] using hj
    rw [h.whole 0 hj, h.level]
  · simp [Store.opened, emptyStore, pageHeader]

/-- **Some run gets to every number.** -/
theorem exists_spent (h3 : 3 ≤ n) (hp : Plain n 0 S) (h : Spent 0 0 k S) {t : ℕ}
    (ht : t < 2 ^ 32) :
    ∃ S' r p, Updates rom n S S' ∧ Plain n 0 S' ∧ Spent t r p S' ∧ r ≤ 126 := by
  induction t with
  | zero => exact ⟨S, 0, k, .refl S, hp, h, by decide⟩
  | succ t ih =>
    obtain ⟨S₁, r, p, hreach₁, hp₁, h₁, hr⟩ := ih (by omega)
    obtain ⟨S₂, hreach₂, hp₂, h₂⟩ := Spent.fill hrom hp₁ h₁ (d := 126 - r) (by omega)
    rw [Nat.add_sub_cancel' hr] at h₂
    obtain ⟨S₃, q, hreach₃, hp₃, h₃⟩ := Spent.next hrom h3 hp₂ h₂ ht
    exact ⟨S₃, 1, q, (hreach₁.trans hreach₂).trans hreach₃, hp₃, h₃, by decide⟩

end Run

/-! ### The page in front -/

/-- The page with the number 2 ^ 31 is listed in front of the one before it. -/
theorem Spent.not_pairwise {n r k : ℕ} {S : Store} (h : Spent (2 ^ 31) r k S) {env : FlashEnv}
    (hrep : Rep n env S) : ¬env.pageUsed.Pairwise (listedBefore env.pages) := by
  intro hall
  obtain ⟨a, hsum, hseq⟩ := h.exists_seqno
  have hlen := h.two (by decide)
  have hpages : ∀ (i : ℕ) (hi : i < S.used.length),
      (env.pages (S.used[i])).header.seqno = a + i := by
    intro i hi
    rw [hrep.header_eq (getElem_mem hi), hseq i hi]
  rw [hrep.used_eq, pairwise_iff_getElem] at hall
  have hlisted := hall (S.used.length - 2) (S.used.length - 1) (by omega) (by omega) (by omega)
  rw [listedBefore, cmpSequenceNo, cmpSequenceNo, hpages _ (by omega), hpages _ (by omega),
    decide_eq_true_eq, decide_eq_false_iff_not] at hlisted
  omega

/-- **A restart that does not agree**: puts and deletes on the internal partition of an erased device
lead to a page with the number 2 ^ 31. -/
theorem not_restart_agrees :
    ∃ env₀ es hist env env', nvdsFlashEnvInit steadyRom nvdsFlashInternalAddr nvdsFlashInternalSize
        erasedDev = some (.ok (), env₀) ∧
      (∀ e ∈ es, Event.IsUpdate e) ∧ runEvents steadyRom es env₀ = some (hist, env) ∧
      nvdsFlashEnvInit steadyRom env.baseAddr env.length env.dev = some (.ok (), env') ∧
      ¬Agree steadyRom env env' := by
  obtain ⟨env₀, hinit, hwell₀, -⟩ := @init_erased steadyRom steadyRom_reliable 4
    nvdsFlashInternalAddr erasedDev (by decide) (by decide) fun _ _ _ => rfl
  obtain ⟨S, r, k, hupdates, -, hspent, -⟩ := exists_spent steadyRom_reliable (by decide)
    (hwell₀.plain_erased (by decide)) (spent_erased 4) (show 2 ^ 31 < 2 ^ 32 by decide)
  obtain ⟨es, hist, env, hes, hrun, hrep, -⟩ :=
    hupdates env₀ hwell₀.rep (hwell₀.nsList_erased (by decide))
  obtain ⟨hist', env', S', hrun', hwell, -⟩ := (hwell₀.mono (Nat.zero_le 4032)).events
    steadyRom_reliable (by decide) (by decide) es
  obtain ⟨rfl, rfl⟩ := Prod.mk.inj (Option.some.inj (hrun'.symm.trans hrun))
  obtain ⟨env'', hload, hiff⟩ := hwell.agree_iff steadyRom_reliable (by decide)
  exact ⟨env₀, es, hist', env', env'', hinit, hes, hrun, hload,
    fun hagree => hspent.not_pairwise hrep (hiff.mp hagree)⟩

end Gd32.Nvds
