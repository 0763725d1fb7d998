import Gd32Firmware.Plf.NandPair

/-!
# The tables of the NAND driver in their blocks

The tables are updated one after the other. Here the chip is wide enough for its page numbers and
nothing fails. An update is a list of primitives on the two blocks of its table
(`Nand.updateBbt2Nand_eq`, `Nand.updateRbt2Nand_eq`), and a prefix of the list leaves the
table as it was or as it is to be (`Nand.TablesHold.cut`), unless it ends between the two pages of
a copy of `RBT`. The search after a start finds the last copy of each table
(`Nand.rebuildBbt_eq`, `Nand.rebuildRbt_eq`), unless it takes a block that is still full for
the current one.
-/

namespace Gd32

open Option hiding or_self

variable {pair : ℕ}

namespace Nand

open NandFlash Function

/-! ### Both tables -/

/-- One of the two blocks. -/
def Copies.Has (c : Copies) (b : ℕ) : Prop := b = c.cur ∨ b = c.partner

/-- **The table area**: the two pairs, and nothing else that looks like a table. -/
structure TablesHold (f : Pages) (c : Kind → Copies) : Prop where
  pair : ∀ k, PairHolds k f (c k)
  apart : ∀ b, (c .bbt).Has b → ¬(c .rbt).Has b
  rest : ∀ b, tableAreaStart ≤ b → b ≤ tableAreaEnd → (∀ k, ¬(c k).Has b) →
    ∀ k : Kind, isMarked k.mark (spareOf (f (pageOf b 0))) = false
  readable : ∀ p, (f p).uncorrectable = false

section Tables

variable {f g : Pages} {c : Kind → Copies} {c' : Copies} {k k' : Kind} {b : ℕ} {t : ℕ → ℕ}

theorem Copies.SameBlocks.has_iff {c c' : Copies} (h : c.SameBlocks c') : c'.Has b ↔ c.Has b := by
  rcases h with ⟨hc, hp⟩ | ⟨hc, hp⟩
  · rw [Copies.Has, hc, hp, Copies.Has]
  · rw [Copies.Has, hc, hp, Copies.Has]
    exact or_comm

theorem update_has_iff (h : (c k).SameBlocks c') :
    (update c k c' k').Has b ↔ (c k').Has b := by
  by_cases hk : k' = k
  · subst hk
    rw [update_self, h.has_iff]
  · rw [update_of_ne hk]

theorem TablesHold.apart_kind (h : TablesHold f c) (hk : k ≠ k') (hb : (c k).Has b) :
    ¬(c k').Has b := by
  cases k <;> cases k'
  · exact absurd rfl hk
  · exact h.apart b hb
  · exact fun hb' => h.apart b hb' hb
  · exact absurd rfl hk

/-- **One pair changes.** -/
theorem TablesHold.of_pair (h : TablesHold f c) (hpair : PairHolds k g c')
    (hsame : (c k).SameBlocks c')
    (hframe : ∀ x, (∀ q < nandBlockSize, x ≠ pageOf (c k).cur q ∧ x ≠ pageOf (c k).partner q) →
      g x = f x)
    (hread : ∀ p, (g p).uncorrectable = false) : TablesHold g (update c k c') := by
  have hother : ∀ {b q : ℕ}, ¬(c k).Has b → q < nandBlockSize → g (pageOf b q) = f (pageOf b q) := by
    intro b q hb hq
    refine hframe _ fun q' hq' => ⟨pageOf_ne (fun heq => hb (Or.inl heq)) hq hq',
      pageOf_ne (fun heq => hb (Or.inr heq)) hq hq'⟩
  refine ⟨fun k' => ?_, fun b hb => ?_, fun b hlo hhi hb k' => ?_, hread⟩
  · by_cases hk : k' = k
    · subst hk
      rwa [update_self]
    · rw [update_of_ne hk]
      exact (h.pair k').congr (fun q hq => hother (h.apart_kind hk (Or.inl rfl)) hq)
        fun q hq => hother (h.apart_kind hk (Or.inr rfl)) hq
  · rw [update_has_iff hsame] at hb ⊢
    exact h.apart b hb
  · have hb' : ∀ k', ¬(c k').Has b := fun k' hk' => hb k' ((update_has_iff hsame).mpr hk')
    rw [hother (hb' k) (by decide)]
    exact h.rest b hlo hhi hb' k'

/-- A primitive that does not fail keeps every page readable. -/
theorem readable_apply (p : Prim) (h : ∀ x, (f x).uncorrectable = false) (x : ℕ) :
    (p.apply false f x).uncorrectable = false := by
  cases p with
  | erase first count =>
    simp only [Prim.apply]
    split_ifs
    · rfl
    · exact h x
  | program page offset len buf =>
    by_cases hx : x = page
    · subst hx
      rw [apply_program_self, Page.program, h, Bool.or_false]
    · rw [apply_program_of_ne hx, h]

theorem readable_applyAll (ps : List Prim) (h : ∀ p, (f p).uncorrectable = false) :
    ∀ p, (applyAll ps f p).uncorrectable = false := by
  induction ps generalizing f with
  | nil => exact h
  | cons p ps ih => exact ih (readable_apply p h)

/-- **After a prefix of an update** both tables are there, the one as it was or as it is to be. -/
theorem TablesHold.cut (h : TablesHold f c) {n : ℕ} (hn : ¬HalfCopy k (c k) n) :
    TablesHold (applyAll ((updatePrims k (c k) t).take n) f) c ∨
      TablesHold (applyAll ((updatePrims k (c k) t).take n) f)
        (update c k ((c k).updated k t)) := by
  have hframe : ∀ x, (∀ q < nandBlockSize, x ≠ pageOf (c k).cur q ∧ x ≠ pageOf (c k).partner q) →
      applyAll ((updatePrims k (c k) t).take n) f x = f x := fun x hx =>
    applyAll_of_onBlocks (fun p hp => (h.pair k).onBlocks p (List.mem_of_mem_take hp)) hx
  have hread := readable_applyAll ((updatePrims k (c k) t).take n) h.readable
  rcases (h.pair k).cut hn with hpair | hpair
  · have := h.of_pair hpair (Or.inl ⟨rfl, rfl⟩) hframe hread
    rw [update_eq_self] at this
    exact Or.inl this
  · exact Or.inr (h.of_pair hpair sameBlocks_updated hframe hread)

/-- **After an update.** -/
theorem TablesHold.updated (h : TablesHold f c) :
    TablesHold (applyAll (updatePrims k (c k) t) f) (update c k ((c k).updated k t)) :=
  h.of_pair (h.pair k).updated sameBlocks_updated
    (fun _ hx => applyAll_of_onBlocks (h.pair k).onBlocks hx) (readable_applyAll _ h.readable)

end Tables

/-! ### The driver's updates -/

/-- **The driver and its chip agree** on where the copies are. -/
structure Holds (s : Driver) (c : Kind → Copies) : Prop where
  chip : TablesHold s.chip.pages c
  /-- The current block of `BBT`. -/
  bbtCur : s.bbtBlock s.bbtCrtBlockIdx = (c .bbt).cur
  /-- The other block of `BBT`. -/
  bbtPartner : s.bbtBlock (1 - s.bbtCrtBlockIdx) = (c .bbt).partner
  /-- The page of the last copy of `BBT`. -/
  bbtPage : s.bbtCrtPage = (c .bbt).last
  /-- The current block of `RBT`. -/
  rbtCur : s.rbtBlock s.rbtCrtBlockIdx = (c .rbt).cur
  /-- The other block of `RBT`. -/
  rbtPartner : s.rbtBlock (1 - s.rbtCrtBlockIdx) = (c .rbt).partner
  /-- The second page of the last copy of `RBT`. -/
  rbtPage : s.rbtCrtPage = 2 * (c .rbt).last + 1

/-- What is issued by the driver. -/
def Driver.issueAll (hw : Hw) (s : Driver) (ps : List Prim) : Driver :=
  { s with chip := s.chip.issueAll hw.fails ps }

/-- The page numbers of the chip fit, and nothing fails. -/
structure Hw.Sound (hw : Hw) : Prop where
  wide : 17 ≤ hw.width
  never : ∀ i, hw.fails i = false

section Updates

variable {hw : Hw} {s : Driver} {c : Kind → Copies} {b q : ℕ} {t : ℕ → ℕ} {i : Fin 2}

theorem sent_pageOf (h : hw.Sound) (hb : b ≤ tableAreaEnd) (hq : q < nandBlockSize) :
    hw.sent (pageOf b q) = pageOf b q := by
  have hpow : 2 ^ 17 ≤ 2 ^ hw.width := Nat.pow_le_pow_right (by decide) h.wide
  refine Nat.mod_eq_of_lt (lt_of_lt_of_le ?_ hpow)
  simp only [pageOf, tableAreaEnd, nandBlockSize] at hb hq ⊢
  omega

theorem erase_eq (h : hw.Sound) (hb : b ≤ tableAreaEnd) :
    (s.erase hw b).2 = s.issueAll hw [.erase (b * nandBlockSize) nandBlockSize] := by
  have hsent := sent_pageOf h hb (q := 0) (by decide)
  rw [pageOf, add_zero] at hsent
  simp only [Driver.erase, qspiNandflashBlockErase, hsent]
  rfl

theorem writeCheck_eq (h : hw.Sound) (hread : s.Readable) (hb : b ≤ tableAreaEnd)
    (hq : q < nandBlockSize) (buf : ℕ → UInt8) :
    s.writeCheck hw buf (b * nandBlockSize + q) 0 nandPageTotalSize =
      (.noError, s.issueAll hw [.program (pageOf b q) 0 nandPageTotalSize buf]) := by
  have hsent : hw.sent (b * nandBlockSize + q) = pageOf b q := sent_pageOf h hb hq
  obtain ⟨h1, h2, -⟩ := writeCheck_of_readable h.never hread buf
    (b * nandBlockSize + q) (o := 0) (n := nandPageTotalSize) (by decide)
  rw [hsent] at h2
  exact Prod.ext h1 h2

theorem issueAll_issueAll (ps qs : List Prim) :
    (s.issueAll hw ps).issueAll hw qs = s.issueAll hw (ps ++ qs) := by
  simp only [Driver.issueAll, Device.issueAll, List.foldl_append]

theorem readable_issueAll (h : hw.Sound) (hread : s.Readable) (ps : List Prim) :
    (s.issueAll hw ps).Readable := by
  rw [Driver.Readable, Driver.issueAll, (Device.issueAll_of_never h.never ps).1]
  exact readable_applyAll ps hread

theorem sub_sub_fin : ∀ i : Fin 2, 1 - (1 - i) = i
  | 0 => rfl
  | 1 => rfl

/-- `BBT` has no room for another copy. -/
theorem bbtFull_iff (h : Holds s c) :
    s.bbtFull = true ↔ ¬Kind.bbt.span * ((c .bbt).last + 2) ≤ nandBlockSize := by
  have hfits := (h.chip.pair .bbt).fits
  have hpage := h.bbtPage
  simp only [Kind.span, nandBlockSize] at hfits ⊢
  rw [Driver.bbtFull, decide_eq_true_eq, nandBlockSize, invalPageVal]
  omega

theorem updatePrims_bbt_room {c : Copies} (h : Kind.bbt.span * (c.last + 2) ≤ nandBlockSize) :
    updatePrims .bbt c t = [.program (pageOf c.cur (c.last + 1)) 0 nandPageTotalSize
      (tablePage markBbt t 0 bbtBytes c.partner)] := by
  rw [updatePrims, if_pos h, Kind.span, one_mul]
  rfl

theorem updatePrims_bbt_full {c : Copies} (h : ¬Kind.bbt.span * (c.last + 2) ≤ nandBlockSize) :
    updatePrims .bbt c t = [.erase (c.partner * nandBlockSize) nandBlockSize,
      .program (pageOf c.partner 0) 0 nandPageTotalSize (tablePage markBbt t 0 bbtBytes c.cur),
      .erase (c.cur * nandBlockSize) nandBlockSize] :=
  if_neg h

/-- The chip after an update. -/
theorem chip_updated (hs : hw.Sound) (h : Holds s c) {k : Kind} {s' : Driver}
    (hchip : s'.chip = (s.issueAll hw (updatePrims k (c k) t)).chip) :
    TablesHold s'.chip.pages (update c k ((c k).updated k t)) := by
  rw [hchip, Driver.issueAll, (Device.issueAll_of_never hs.never _).1]
  exact h.chip.updated

/-- **`BBT` is saved** by the primitives of an update. -/
theorem updateBbt2Nand_eq (hs : hw.Sound) (h : Holds s c) :
    ∃ s', updateBbt2Nand hw s = some s' ∧
      s'.chip = (s.issueAll hw (updatePrims .bbt (c .bbt) s.tables.bbt)).chip ∧
      s'.tables = s.tables ∧
      Holds s' (update c .bbt ((c .bbt).updated .bbt s.tables.bbt)) := by
  have hpair := h.chip.pair .bbt
  have hread : s.Readable := h.chip.readable
  have hcur : (c .bbt).cur ≤ tableAreaEnd := hpair.curArea.2
  have hpartner : (c .bbt).partner ≤ tableAreaEnd := hpair.partnerArea.2
  by_cases hroom : Kind.bbt.span * ((c .bbt).last + 2) ≤ nandBlockSize
  · have hfull : s.bbtFull = false :=
      Bool.eq_false_iff.mpr fun hfull => (bbtFull_iff h).mp hfull hroom
    have hlast : (c .bbt).last + 1 < nandBlockSize := by
      simp only [Kind.span, nandBlockSize] at hroom ⊢
      omega
    have hpage : s.bbtCrtPage ≠ invalPageVal := by
      rw [h.bbtPage, invalPageVal]
      simp only [nandBlockSize] at hlast
      omega
    have hadvance : s.bbtAdvance hw = { s with bbtCrtPage := (c .bbt).last + 1 } := by
      rw [Driver.bbtAdvance, if_neg (by rw [hfull]; exact Bool.false_ne_true), if_neg hpage,
        h.bbtPage]
    have hwrite : (s.bbtAdvance hw).bbtWrite hw = (.noError,
        Driver.issueAll hw { s with bbtCrtPage := (c .bbt).last + 1 }
          (updatePrims .bbt (c .bbt) s.tables.bbt)) := by
      rw [Driver.bbtWrite, hadvance, updatePrims_bbt_room hroom]
      simp only [h.bbtCur, h.bbtPartner]
      exact writeCheck_eq (s := { s with bbtCrtPage := (c .bbt).last + 1 }) hs hread hcur hlast _
    refine ⟨Driver.issueAll hw { s with bbtCrtPage := (c .bbt).last + 1 }
      (updatePrims .bbt (c .bbt) s.tables.bbt), ?_, rfl, rfl, ?_⟩
    · rw [updateBbt2Nand, updateBbtBlock2Nand_of_write (by rw [hwrite]), hwrite, hfull]
      rfl
    · refine { h with
        chip := chip_updated hs h rfl
        bbtCur := ?_
        bbtPartner := ?_
        bbtPage := ?_ }
      all_goals rw [update_self, Copies.updated, if_pos hroom]
      · exact h.bbtCur
      · exact h.bbtPartner
      · rfl
  · have hfull : s.bbtFull = true := (bbtFull_iff h).mpr hroom
    -- the other block is erased, takes the copy, and the full one is erased
    obtain ⟨u, hu⟩ : ∃ u : Driver, u = { s with
      bbtCrtBlockIdx := 1 - s.bbtCrtBlockIdx, bbtCrtPage := 0 } := ⟨_, rfl⟩
    have hucur : u.bbtBlock u.bbtCrtBlockIdx = (c .bbt).partner := by
      rw [hu]
      exact h.bbtPartner
    have hupartner : u.bbtBlock (1 - u.bbtCrtBlockIdx) = (c .bbt).cur := by
      rw [hu]
      simp only [sub_sub_fin]
      exact h.bbtCur
    have hureadable : u.Readable := by
      rw [hu]
      exact hread
    have hadvance : s.bbtAdvance hw =
        u.issueAll hw [.erase ((c .bbt).partner * nandBlockSize) nandBlockSize] := by
      rw [Driver.bbtAdvance, if_pos hfull]
      simp only [h.bbtPartner, ← hu]
      exact erase_eq hs hpartner
    have hwrite : (s.bbtAdvance hw).bbtWrite hw = (.noError,
        u.issueAll hw [.erase ((c .bbt).partner * nandBlockSize) nandBlockSize,
          .program (pageOf (c .bbt).partner 0) 0 nandPageTotalSize
            (tablePage markBbt s.tables.bbt 0 bbtBytes (c .bbt).cur)]) := by
      have hpage : u.bbtCrtPage = 0 := by rw [hu]
      have htables : u.tables = s.tables := by rw [hu]
      rw [Driver.bbtWrite, hadvance]
      change Driver.writeCheck hw (u.issueAll hw _) (tablePage markBbt u.tables.bbt 0 bbtBytes
        (u.bbtBlock (1 - u.bbtCrtBlockIdx))) (u.bbtBlock u.bbtCrtBlockIdx * nandBlockSize +
          u.bbtCrtPage) 0 nandPageTotalSize = _
      rw [hupartner, hucur, hpage, htables, writeCheck_eq hs (readable_issueAll hs hureadable _)
        hpartner (by decide), issueAll_issueAll]
      rfl
    have hsaved : updateBbt2Nand hw s =
        some (u.issueAll hw (updatePrims .bbt (c .bbt) s.tables.bbt)) := by
      rw [updateBbt2Nand, updateBbtBlock2Nand_of_write (by rw [hwrite]), hwrite, hfull]
      change some (Driver.erase hw (u.issueAll hw _) (u.bbtBlock (1 - u.bbtCrtBlockIdx))).2 = _
      rw [hupartner, erase_eq hs hcur, issueAll_issueAll, updatePrims_bbt_full hroom]
      rfl
    have hchip : (u.issueAll hw (updatePrims .bbt (c .bbt) s.tables.bbt)).chip =
        (s.issueAll hw (updatePrims .bbt (c .bbt) s.tables.bbt)).chip := by
      rw [hu]
      rfl
    refine ⟨_, hsaved, hchip, by rw [hu]; rfl, ?_⟩
    have hrbt : ∀ b, update c .bbt b .rbt = c .rbt := fun b =>
      update_of_ne (by decide) _ _
    have hlast : u.bbtCrtPage = 0 := by rw [hu]
    constructor
    · exact chip_updated hs h hchip
    · rw [update_self, Copies.updated, if_neg hroom]
      exact hucur
    · rw [update_self, Copies.updated, if_neg hroom]
      exact hupartner
    · rw [update_self, Copies.updated, if_neg hroom]
      exact hlast
    · rw [hrbt, ← h.rbtCur, hu]
      rfl
    · rw [hrbt, ← h.rbtPartner, hu]
      rfl
    · rw [hrbt, ← h.rbtPage, hu]
      rfl

/-- `RBT` has no room for another copy. -/
theorem rbtFull_iff (h : Holds s c) :
    s.rbtFull = true ↔ ¬Kind.rbt.span * ((c .rbt).last + 2) ≤ nandBlockSize := by
  have hfits := (h.chip.pair .rbt).fits
  have hpage := h.rbtPage
  simp only [Kind.span, rbtPageNum, nandBlockSize] at hfits ⊢
  rw [Driver.rbtFull, decide_eq_true_eq, nandBlockSize, invalPageVal, rbtPageNum]
  omega

/-- The two pages of a copy of `RBT`. -/
theorem rbtWrite_eq (hs : hw.Sound) (hread : s.Readable) (hb : b ≤ tableAreaEnd)
    (hq : q + 1 < nandBlockSize) :
    rbtWrite hw b pair rbtPageNum 0 q s =
      (true, q + 2, s.issueAll hw (copyPrims .rbt s.tables.rbt pair (pageOf b q))) := by
  have hlen : min nandPageSize (rbtBytes - 0) = nandPageSize := by decide
  have hlen' : min nandPageSize (rbtBytes - nandPageSize) = rbtBytes - nandPageSize := by decide
  have hfirst : ¬rbtBytes ≤ 0 := by decide
  rw [rbtPageNum, rbtWrite, if_neg hfirst]
  simp only [hlen, writeCheck_eq hs hread hb (show q < nandBlockSize by omega), if_true,
    Nat.zero_add]
  simp only [hlen', writeCheck_eq hs (readable_issueAll hs hread _) hb hq, if_true, rbtWrite,
    issueAll_issueAll]
  rfl

/-- **`RBT` is saved** by the primitives of an update. -/
theorem updateRbt2Nand_eq (hs : hw.Sound) (h : Holds s c) :
    ∃ s', updateRbt2Nand hw s = some s' ∧
      s'.chip = (s.issueAll hw (updatePrims .rbt (c .rbt) s.tables.rbt)).chip ∧
      s'.tables = s.tables ∧
      Holds s' (update c .rbt ((c .rbt).updated .rbt s.tables.rbt)) := by
  have hpair := h.chip.pair .rbt
  have hread : s.Readable := h.chip.readable
  have hcur : (c .rbt).cur ≤ tableAreaEnd := hpair.curArea.2
  have hpartner : (c .rbt).partner ≤ tableAreaEnd := hpair.partnerArea.2
  have hbbt : ∀ b, update c .rbt b .bbt = c .bbt := fun b =>
    update_of_ne (by decide) _ _
  by_cases hroom : Kind.rbt.span * ((c .rbt).last + 2) ≤ nandBlockSize
  · have hfull : s.rbtFull = false :=
      Bool.eq_false_iff.mpr fun hfull => (rbtFull_iff h).mp hfull hroom
    have hlast : Kind.rbt.span * ((c .rbt).last + 1) + 1 < nandBlockSize := by
      simp only [Kind.span, rbtPageNum, nandBlockSize] at hroom ⊢
      omega
    have hpage : s.rbtCrtPage ≠ invalPageVal := by
      rw [h.rbtPage, invalPageVal]
      simp only [Kind.span, rbtPageNum, nandBlockSize] at hlast
      omega
    obtain ⟨u, hu⟩ : ∃ u : Driver,
      u = { s with rbtCrtPage := Kind.rbt.span * ((c .rbt).last + 1) } := ⟨_, rfl⟩
    have hadvance : s.rbtAdvance hw = u := by
      rw [Driver.rbtAdvance, if_neg (by rw [hfull]; exact Bool.false_ne_true), if_neg hpage,
        h.rbtPage, hu]
      rfl
    have hwrite : rbtWrite hw (u.rbtBlock u.rbtCrtBlockIdx) (u.rbtBlock (1 - u.rbtCrtBlockIdx))
        rbtPageNum 0 u.rbtCrtPage u = (true, Kind.rbt.span * ((c .rbt).last + 1) + 2,
          u.issueAll hw (updatePrims .rbt (c .rbt) s.tables.rbt)) := by
      rw [updatePrims, if_pos hroom, ← h.rbtCur, ← h.rbtPartner, hu]
      exact rbtWrite_eq (s := { s with rbtCrtPage := Kind.rbt.span * ((c .rbt).last + 1) }) hs hread
        (h.rbtCur ▸ hcur) hlast
    have hsaved : updateRbt2Nand hw s =
        some { u.issueAll hw (updatePrims .rbt (c .rbt) s.tables.rbt) with
          rbtCrtPage := Kind.rbt.span * ((c .rbt).last + 1) + 2 - 1 } := by
      rw [updateRbt2Nand, updateRbtBlock2Nand_of_write hadvance hwrite, hfull]
      rfl
    have hchip : (u.issueAll hw (updatePrims .rbt (c .rbt) s.tables.rbt)).chip =
        (s.issueAll hw (updatePrims .rbt (c .rbt) s.tables.rbt)).chip := by
      rw [hu]
      rfl
    refine ⟨_, hsaved, hchip, by rw [hu]; rfl, ?_⟩
    constructor
    · exact chip_updated hs h hchip
    · rw [hbbt, ← h.bbtCur, hu]
      rfl
    · rw [hbbt, ← h.bbtPartner, hu]
      rfl
    · rw [hbbt, ← h.bbtPage, hu]
      rfl
    · rw [update_self, Copies.updated, if_pos hroom, ← h.rbtCur, hu]
      rfl
    · rw [update_self, Copies.updated, if_pos hroom, ← h.rbtPartner, hu]
      rfl
    · rw [update_self, Copies.updated, if_pos hroom]
      simp only [Kind.span, rbtPageNum]
      omega
  · have hfull : s.rbtFull = true := (rbtFull_iff h).mpr hroom
    obtain ⟨u, hu⟩ : ∃ u : Driver, u = { s with
      rbtCrtBlockIdx := 1 - s.rbtCrtBlockIdx, rbtCrtPage := 0 } := ⟨_, rfl⟩
    have hucur : u.rbtBlock u.rbtCrtBlockIdx = (c .rbt).partner := by
      rw [hu]
      exact h.rbtPartner
    have hupartner : u.rbtBlock (1 - u.rbtCrtBlockIdx) = (c .rbt).cur := by
      rw [hu]
      simp only [sub_sub_fin]
      exact h.rbtCur
    have hupage : u.rbtCrtPage = 0 := by rw [hu]
    have hutables : u.tables = s.tables := by rw [hu]
    have hureadable : u.Readable := by
      rw [hu]
      exact hread
    have hadvance : s.rbtAdvance hw =
        u.issueAll hw [.erase ((c .rbt).partner * nandBlockSize) nandBlockSize] := by
      rw [Driver.rbtAdvance, if_pos hfull]
      simp only [h.rbtPartner, ← hu]
      exact erase_eq hs hpartner
    obtain ⟨v, hv⟩ : ∃ v : Driver, v =
      u.issueAll hw [.erase ((c .rbt).partner * nandBlockSize) nandBlockSize] := ⟨_, rfl⟩
    have hvcur : v.rbtBlock v.rbtCrtBlockIdx = (c .rbt).partner := by
      rw [hv]
      exact hucur
    have hvpartner : v.rbtBlock (1 - v.rbtCrtBlockIdx) = (c .rbt).cur := by
      rw [hv]
      exact hupartner
    have hvpage : v.rbtCrtPage = 0 := by
      rw [hv]
      exact hupage
    have hvtables : v.tables = s.tables := by
      rw [hv]
      exact hutables
    have hvread : v.Readable := by
      rw [hv]
      exact readable_issueAll hs hureadable _
    have hwrite : rbtWrite hw (v.rbtBlock v.rbtCrtBlockIdx) (v.rbtBlock (1 - v.rbtCrtBlockIdx))
        rbtPageNum 0 v.rbtCrtPage v = (true, 0 + 2,
          v.issueAll hw (copyPrims .rbt s.tables.rbt (c .rbt).cur (pageOf (c .rbt).partner 0))) := by
      rw [hvcur, hvpartner, hvpage, rbtWrite_eq hs hvread hpartner (by decide), hvtables]
    have hsaved : updateRbt2Nand hw s =
        some { u.issueAll hw (updatePrims .rbt (c .rbt) s.tables.rbt) with rbtCrtPage := 1 } := by
      rw [updateRbt2Nand, updateRbtBlock2Nand_of_write (hadvance.trans hv.symm) hwrite, hfull]
      change some (Driver.erase hw { v.issueAll hw _ with rbtCrtPage := 0 + 2 - 1 }
        (v.rbtBlock (1 - v.rbtCrtBlockIdx))).2 = _
      rw [hvpartner, erase_eq hs hcur, hv, issueAll_issueAll, updatePrims, if_neg hroom]
      rfl
    have hchip : (u.issueAll hw (updatePrims .rbt (c .rbt) s.tables.rbt)).chip =
        (s.issueAll hw (updatePrims .rbt (c .rbt) s.tables.rbt)).chip := by
      rw [hu]
      rfl
    refine ⟨_, hsaved, hchip, by rw [hu]; rfl, ?_⟩
    constructor
    · exact chip_updated hs h hchip
    · rw [hbbt, ← h.bbtCur, hu]
      rfl
    · rw [hbbt, ← h.bbtPartner, hu]
      rfl
    · rw [hbbt, ← h.bbtPage, hu]
      rfl
    · rw [update_self, Copies.updated, if_neg hroom]
      exact hucur
    · rw [update_self, Copies.updated, if_neg hroom]
      exact hupartner
    · rw [update_self, Copies.updated, if_neg hroom]
      rfl

end Updates

/-! ### What the search finds -/

/-- A page of a block has the mark of a table. -/
def markedAt (k : Kind) (f : Pages) (b q : ℕ) : Bool := isMarked k.mark (spareOf (f (pageOf b q)))

/-- The block that a page of a table names. -/
def pairAt (f : Pages) (b q : ℕ) : ℕ :=
  (spareOf (f (pageOf b q)) 4).toNat + (spareOf (f (pageOf b q)) 5).toNat * 2 ^ 8

/-- The block that the search takes for the current one: the last one whose first page is marked. -/
def FoundFirst (k : Kind) (f : Pages) (b : ℕ) : Prop :=
  tableAreaStart ≤ b ∧ b ≤ tableAreaEnd ∧ markedAt k f b 0 = true ∧
    ∀ b', b < b' → b' ≤ tableAreaEnd → markedAt k f b' 0 = false

/-- **When the block found is full** and the other one is marked too, the other one has one copy. -/
def OneCopy (k : Kind) (f : Pages) : Prop :=
  ∀ b, FoundFirst k f b → markedAt k f b (nandBlockSize - 1) = true →
    markedAt k f (pairAt f b (nandBlockSize - 1)) 0 = true →
      markedAt k f (pairAt f b (nandBlockSize - 1)) k.span = false

/-- The search is not misled by a block that is still full. -/
def Resolved (k : Kind) (f : Pages) (c : Copies) : Prop :=
  f (pageOf c.partner 0) = .blank ∨
    (c.partner < c.cur ∧ k.span * (c.last + 1) < nandBlockSize) ∨ (c.cur < c.partner ∧ c.last = 0)

section Search

variable {hw : Hw} {s : Driver} {f : Pages} {c : Kind → Copies} {d : Copies} {k : Kind} {b q n : ℕ}
  {g : Page}

theorem Kind.IsCopy.marked (h : k.IsCopy pair (f (pageOf b q))) :
    markedAt k f b q = true := by
  obtain ⟨t, r, hg⟩ := h
  rw [markedAt, hg, isMarked_page, decide_eq_true rfl]

theorem Kind.IsCopy.pairAt (h : k.IsCopy pair (f (pageOf b q))) (hpair : pair < 2 ^ 16) :
    pairAt f b q = pair := by
  obtain ⟨t, r, hg⟩ := h
  rw [Nand.pairAt, hg]
  exact pair_page hpair

theorem markedAt_blank (h : f (pageOf b q) = .blank) : markedAt k f b q = false := by
  rw [markedAt, h]
  exact isMarked_blank

/-- A block of a pair has no mark of the other table. -/
theorem PairHolds.unmarked {k' : Kind} (h : PairHolds k' f d) (hk : k ≠ k')
    (hb : d.Has b) : markedAt k f b 0 = false := by
  have hother : ∀ {pair : ℕ}, k'.IsCopy pair (f (pageOf b 0)) → markedAt k f b 0 = false := by
    rintro pair ⟨t, r, hg⟩
    rw [markedAt, hg, isMarked_page, decide_eq_false hk]
  rcases hb with rfl | rfl
  · exact hother (h.copies 0 (Nat.mul_pos k'.span_pos (Nat.succ_pos _)))
  · rcases h.other with hblank | hfull
    · exact markedAt_blank hblank
    · exact hother (hfull 0 (by decide))

/-- **One table on the chip**: its pair, and no other block that has its mark. -/
structure TableHolds (k : Kind) (f : Pages) (d : Copies) : Prop where
  pair : PairHolds k f d
  only : ∀ b, tableAreaStart ≤ b → b ≤ tableAreaEnd → markedAt k f b 0 = true → d.Has b
  readable : ∀ p, (f p).uncorrectable = false

theorem TablesHold.table (h : TablesHold f c) (k : Kind) : TableHolds k f (c k) := by
  refine ⟨h.pair k, fun b hlo hhi hmark => ?_, h.readable⟩
  by_contra hb
  have hfalse : markedAt k f b 0 = false := by
    by_cases hall : ∀ k', ¬(c k').Has b
    · exact h.rest b hlo hhi hall k
    · rw [not_forall] at hall
      obtain ⟨k', hk'⟩ := hall
      rw [not_not] at hk'
      exact (h.pair k').unmarked (fun heq => hb (heq ▸ hk')) hk'
  exact Bool.false_ne_true (hfalse.symm.trans hmark)

/-- The first page of the current block is marked. -/
theorem PairHolds.marked_cur (h : PairHolds k f d) : markedAt k f d.cur 0 = true :=
  (h.copies 0 (Nat.mul_pos k.span_pos (Nat.succ_pos _))).marked

theorem TableHolds.foundFirst_cur (h : TableHolds k f d)
    (hother : f (pageOf d.partner 0) = .blank ∨ d.partner < d.cur) : FoundFirst k f d.cur := by
  have hpair := h.pair
  have hlo := le_of_lt hpair.curArea.1
  refine ⟨hlo, hpair.curArea.2, hpair.marked_cur, fun b hlt hhi => ?_⟩
  refine Bool.eq_false_iff.mpr fun hmark => ?_
  have hhas : d.Has b := h.only b (le_trans hlo (le_of_lt hlt)) hhi hmark
  rcases hhas with rfl | rfl
  · exact lt_irrefl _ hlt
  · rcases hother with hblank | hlow
    · exact Bool.false_ne_true ((markedAt_blank hblank).symm.trans hmark)
    · omega

theorem TableHolds.foundFirst_partner (h : TableHolds k f d)
    (hmark : markedAt k f d.partner 0 = true) (hlow : d.cur < d.partner) :
    FoundFirst k f d.partner := by
  have hpair := h.pair
  have hlo := le_of_lt hpair.partnerArea.1
  refine ⟨hlo, hpair.partnerArea.2, hmark, fun b hlt hhi => ?_⟩
  refine Bool.eq_false_iff.mpr fun hb => ?_
  have hhas : d.Has b := h.only b (le_trans hlo (le_of_lt hlt)) hhi hb
  rcases hhas with rfl | rfl
  · omega
  · exact lt_irrefl _ hlt

theorem InTableArea.lt (h : InTableArea b) : b < 2 ^ 16 := by
  have := h.2
  simp only [tableAreaEnd] at this
  omega

/-- **The condition on the marks** says that the search is not misled. -/
theorem TableHolds.resolved (h : TableHolds k f d) (hone : OneCopy k f) : Resolved k f d := by
  have hpair := h.pair
  have hspan : k.span < nandBlockSize := by cases k <;> decide
  rcases hpair.other with hblank | hfull
  · exact Or.inl hblank
  have hmark : ∀ q < nandBlockSize, markedAt k f d.partner q = true := fun q hq =>
    (hfull q hq).marked
  rcases lt_or_gt_of_ne hpair.ne with hlow | hhigh
  · refine Or.inr (Or.inr ⟨hlow, ?_⟩)
    have hlast := hfull (nandBlockSize - 1) (by decide)
    have hcopy := hone _ (h.foundFirst_partner (hmark 0 (by decide)) hlow) hlast.marked
    rw [hlast.pairAt hpair.curArea.lt] at hcopy
    by_contra hne
    have hlt : k.span * 1 < k.span * (d.last + 1) :=
      Nat.mul_lt_mul_of_pos_left (by omega) k.span_pos
    rw [mul_one] at hlt
    exact Bool.false_ne_true
      ((hcopy hpair.marked_cur).symm.trans (hpair.copies k.span hlt).marked)
  · refine Or.inr (Or.inl ⟨hhigh, lt_of_le_of_ne hpair.fits fun hend => ?_⟩)
    have hlast := hpair.copies (nandBlockSize - 1) (by rw [hend]; decide)
    have hcopy := hone _ (h.foundFirst_cur (Or.inr hhigh)) hlast.marked
    rw [hlast.pairAt hpair.partnerArea.lt] at hcopy
    exact Bool.false_ne_true ((hcopy (hmark 0 (by decide))).symm.trans (hmark k.span hspan))

/-- **A search that is not misled** meets the condition on the marks. -/
theorem TableHolds.oneCopy (h : TableHolds k f d) (hres : Resolved k f d) : OneCopy k f := by
  have hpair := h.pair
  have hspan : k.span < nandBlockSize := by cases k <;> decide
  rintro b ⟨hlo, hhi, hmark, hnone⟩ hend hother
  rcases h.only b hlo hhi hmark with rfl | rfl
  · -- the current block is full, and the other one is not blank
    have hlast : ¬k.span * (d.last + 1) ≤ nandBlockSize - 1 := fun hle =>
      Bool.false_ne_true ((markedAt_blank (hpair.blank _ hle (by decide))).symm.trans hend)
    have hcopy := hpair.copies (nandBlockSize - 1) (by omega)
    rw [hcopy.pairAt hpair.partnerArea.lt] at hother
    rcases hres with hblank | ⟨-, hroom⟩ | ⟨-, hzero⟩
    · exact absurd ((markedAt_blank hblank).symm.trans hother) Bool.false_ne_true
    · omega
    · rw [hzero, Nat.zero_add, mul_one] at hlast
      omega
  · rcases hpair.other with hblank | hfull
    · exact absurd ((markedAt_blank hblank).symm.trans hmark) Bool.false_ne_true
    · have hcopy := hfull (nandBlockSize - 1) (by decide)
      rw [hcopy.pairAt hpair.curArea.lt]
      rcases hres with hblank | ⟨hlow, -⟩ | ⟨-, hzero⟩
      · exact absurd ((markedAt_blank hblank).symm.trans hmark) Bool.false_ne_true
      · exact absurd ((hnone _ hlow hpair.curArea.2).symm.trans hpair.marked_cur)
          Bool.false_ne_true
      · refine markedAt_blank (hpair.blank _ ?_ hspan)
        rw [hzero, Nat.zero_add, mul_one]

end Search

section Rebuild

variable {hw : Hw} {s : Driver} {f : Pages} {c : Kind → Copies} {k : Kind} {b q n p : ℕ} {d : Copies}

theorem spareData_eq (hs : hw.Sound) (hread : s.Readable) (hb : b ≤ tableAreaEnd)
    (hq : q < nandBlockSize) :
    s.spareData hw b q = (.noError, spareOf (s.chip.pages (pageOf b q))) := by
  have hsize : ¬nandPageTotalSize < nandPageSize + nandSpareDataOffset + 6 := by decide
  have hsent : hw.sent (b * nandBlockSize + q) = pageOf b q := sent_pageOf hs hb hq
  rw [Driver.spareData, qspiNandflashRead, if_neg hsize, hsent, hread, if_neg Bool.false_ne_true]
  rfl

theorem marked_eq (hs : hw.Sound) (hread : s.Readable) (hb : b ≤ tableAreaEnd)
    (hq : q < nandBlockSize) : s.marked hw k.mark b q = markedAt k s.chip.pages b q := by
  simp only [Driver.marked, spareData_eq hs hread hb hq, decide_true, Bool.true_and, markedAt]

theorem pairBlock_eq (hs : hw.Sound) (hread : s.Readable) (hb : b ≤ tableAreaEnd)
    (hq : q < nandBlockSize) : s.pairBlock hw b q = pairAt s.chip.pages b q := by
  simp only [Driver.pairBlock, spareData_eq hs hread hb hq, pairAt]

theorem checkIsBadBlockByRead_eq (hread : s.Readable) : checkIsBadBlockByRead hw s b = false :=
  List.any_eq_false.mpr fun q _ => by
    rw [qspiNandflashCheckIsBadpageByRead, hread]
    exact Bool.false_ne_true

/-- **The search for a block** finds the last one whose first page is marked. -/
theorem findTable_eq (hs : hw.Sound) (hread : s.Readable) (hfound : FoundFirst k s.chip.pages b)
    (hbn : b ≤ n) (hn : n ≤ tableAreaEnd) : findTable hw k.mark s n = some b := by
  obtain ⟨hlo, hhi, hmark, hnone⟩ := hfound
  induction n with
  | zero => exact absurd (le_trans hlo hbn) (by decide)
  | succ n ih =>
    rw [findTable, if_neg (not_lt.mpr (le_trans hlo hbn)), marked_eq hs hread hn (by decide),
      checkIsBadBlockByRead_eq hread]
    rcases lt_or_ge b (n + 1) with hlt | hge
    · rw [hnone _ hlt hn, if_neg (by decide)]
      exact ih (Nat.le_of_lt_succ hlt) (Nat.le_of_succ_le hn)
    · obtain rfl : b = n + 1 := le_antisymm hbn hge
      rw [hmark]
      exact if_pos rfl

/-- **The search in a block** finds the last marked page. -/
theorem lastMarkedPage_eq (hs : hw.Sound) (hread : s.Readable) (hb : b ≤ tableAreaEnd)
    (hp : p < n) (hn : n ≤ nandBlockSize) (hmark : markedAt k s.chip.pages b p = true)
    (hnone : ∀ q, p < q → q < n → markedAt k s.chip.pages b q = false) :
    lastMarkedPage hw k.mark s b n = some p := by
  induction n with
  | zero => exact absurd hp (Nat.not_lt_zero _)
  | succ n ih =>
    rw [lastMarkedPage, spareData_eq hs hread hb hn, if_neg (not_not.mpr rfl),
      marked_eq hs hread hb hn]
    rcases lt_or_ge p n with hlt | hge
    · rw [hnone n hlt (Nat.lt_succ_self n), if_neg Bool.false_ne_true]
      exact ih hlt (Nat.le_of_succ_le hn) fun q hpq hq => hnone q hpq (Nat.lt_succ_of_lt hq)
    · obtain rfl : p = n := le_antisymm (Nat.le_of_lt_succ hp) hge
      rw [hmark, if_pos rfl]

/-- The last marked page of the current block. -/
theorem PairHolds.lastMarkedPage_cur (hs : hw.Sound) (hread : s.Readable)
    (h : PairHolds k s.chip.pages d) :
    lastMarkedPage hw k.mark s d.cur nandBlockSize = some (k.span * (d.last + 1) - 1) := by
  have hfits := h.fits
  have hpos : 0 < k.span * (d.last + 1) := Nat.mul_pos k.span_pos (Nat.succ_pos _)
  refine lastMarkedPage_eq hs hread h.curArea.2 (by omega) le_rfl
    (h.copies _ (by omega)).marked fun q hlt hq => markedAt_blank (h.blank q (by omega) hq)

/-- A full block is marked up to its last page. -/
theorem lastMarkedPage_full (hs : hw.Sound) (hread : s.Readable) (hb : b ≤ tableAreaEnd)
    (hfull : ∀ q < nandBlockSize, k.IsCopy pair (s.chip.pages (pageOf b q))) :
    lastMarkedPage hw k.mark s b nandBlockSize = some (nandBlockSize - 1) :=
  lastMarkedPage_eq hs hread hb (by decide) le_rfl (hfull _ (by decide)).marked
    fun q hlt hq => absurd hq (by omega)

/-- **`BBT` is loaded** from its last copy. -/
theorem loadBbtFromNand_eq (hs : hw.Sound) (h : PairHolds .bbt s.chip.pages d)
    (hcur : s.bbtBlock s.bbtCrtBlockIdx = d.cur) (hpage : s.bbtCrtPage = d.last) :
    ∃ t, loadBbtFromNand hw s = some { s with tables := { s.tables with bbt := t } } ∧
      ∀ i, 2 * i < bbtBytes → t i = d.table i % 2 ^ 16 := by
  have hfits := h.fits
  simp only [Kind.span, one_mul] at hfits
  have hnewest : s.chip.pages (pageOf d.cur d.last) = Kind.bbt.page d.table d.partner 0 := by
    have := h.newest 0 (by decide)
    rwa [Kind.span, one_mul, add_zero] at this
  have hsize : ¬nandPageTotalSize < 0 + bbtBytes := by decide
  have hsent : hw.sent (d.cur * nandBlockSize + d.last) = pageOf d.cur d.last :=
    sent_pageOf hs h.curArea.2 hfits
  have hload : qspiNandflashRead hw (d.cur * nandBlockSize + d.last) 0 bbtBytes s.chip =
      (.noError, fun i => (Kind.bbt.page d.table d.partner 0).bytes (0 + i)) := by
    rw [qspiNandflashRead, if_neg hsize, hsent, hnewest]
    rfl
  have hbyte : ∀ j, j < bbtBytes →
      (Kind.bbt.page d.table d.partner 0).bytes (0 + j) = tableByte d.table j := by
    intro j hj
    rw [page_bytes (by simp only [bbtBytes, nandPageTotalSize, nandPageSize,
      nandSpareAreaSize] at hj ⊢; omega), Kind.buffer, tablePage, if_pos (by omega), Nat.zero_add,
      Nat.zero_add]
  refine ⟨_, by rw [loadBbtFromNand, hcur, hpage, hload, if_neg (not_not.mpr rfl)], ?_⟩
  intro i hi
  simp only [if_pos hi]
  have hi' : 2 * i + 1 < bbtBytes := by
    simp only [bbtBytes] at hi ⊢
    omega
  exact tableOfBytes_of_bytes (hbyte _ hi) (hbyte _ hi')

/-- **`RBT` is loaded** from its last copy. -/
theorem loadRbtFromNand_eq (hs : hw.Sound) (h : PairHolds .rbt s.chip.pages d)
    (hcur : s.rbtBlock s.rbtCrtBlockIdx = d.cur) (hpage : s.rbtCrtPage = 2 * d.last + 1) :
    ∃ t, loadRbtFromNand hw s = some { s with tables := { s.tables with rbt := t } } ∧
      ∀ i, 2 * i < rbtBytes → t i = d.table i % 2 ^ 16 := by
  have hfits := h.fits
  simp only [Kind.span, rbtPageNum] at hfits
  have hfirst : s.chip.pages (pageOf d.cur (2 * d.last)) = Kind.rbt.page d.table d.partner 0 :=
    h.newest 0 (by decide)
  have hsecond : s.chip.pages (pageOf d.cur (2 * d.last + 1)) = Kind.rbt.page d.table d.partner 1 :=
    h.newest 1 (by decide)
  have hnum : d.cur * nandBlockSize + (2 * d.last + 1) - (rbtPageNum - 1) =
      pageOf d.cur (2 * d.last) := by
    simp only [pageOf, rbtPageNum]
    omega
  have hnum' : pageOf d.cur (2 * d.last) + 1 = pageOf d.cur (2 * d.last + 1) := rfl
  have hload : qspiNandflashRead hw (pageOf d.cur (2 * d.last)) 0 nandPageSize s.chip =
      (.noError, fun i => (Kind.rbt.page d.table d.partner 0).bytes (0 + i)) := by
    rw [qspiNandflashRead, if_neg (by decide), sent_pageOf hs h.curArea.2 (by omega), hfirst]
    rfl
  have hload' : qspiNandflashRead hw (pageOf d.cur (2 * d.last + 1)) 0 (rbtBytes - nandPageSize)
      s.chip = (.noError, fun i => (Kind.rbt.page d.table d.partner 1).bytes (0 + i)) := by
    rw [qspiNandflashRead, if_neg (by decide), sent_pageOf hs h.curArea.2 (by omega), hsecond]
    rfl
  have hbyte : ∀ j, j < nandPageSize →
      (Kind.rbt.page d.table d.partner 0).bytes (0 + j) = tableByte d.table j := by
    intro j hj
    rw [page_bytes (by simp only [nandPageTotalSize]; omega), Kind.buffer, tablePage,
      if_pos (by omega), Nat.zero_add, Nat.zero_add]
  have hbyte' : ∀ j, nandPageSize ≤ j → j < rbtBytes →
      (Kind.rbt.page d.table d.partner 1).bytes (0 + (j - nandPageSize)) = tableByte d.table j := by
    intro j hlo hj
    rw [page_bytes (by simp only [nandPageTotalSize, nandPageSize, rbtBytes] at hlo hj ⊢; omega),
      Kind.buffer, tablePage, if_pos (by omega), Nat.zero_add, Nat.add_sub_cancel' hlo]
  refine ⟨fun i =>
    if 2 * i < nandPageSize then
      tableOfBytes (fun j => (Kind.rbt.page d.table d.partner 0).bytes (0 + j)) i
    else if 2 * i < rbtBytes then
      tableOfBytes (fun j => (Kind.rbt.page d.table d.partner 1).bytes (0 + (j - nandPageSize))) i
    else s.tables.rbt i, ?_, ?_⟩
  · simp only [loadRbtFromNand, hcur, hpage, hnum, hnum', hload, hload', ne_eq, not_true_eq_false,
      or_self, if_false]
  intro i hi
  have hi' : 2 * i + 1 < rbtBytes := by
    simp only [rbtBytes] at hi ⊢
    omega
  by_cases hlow : 2 * i < nandPageSize
  · have hlow' : 2 * i + 1 < nandPageSize := by
      simp only [nandPageSize] at hlow ⊢
      omega
    simp only [if_pos hlow]
    exact tableOfBytes_of_bytes (hbyte _ hlow) (hbyte _ hlow')
  · simp only [if_neg hlow, if_pos hi]
    exact tableOfBytes_of_bytes (hbyte' _ (not_lt.mp hlow) hi) (hbyte' _ (by omega) hi')

/-- What the search reads of a pair: the block that it finds, its last marked page, the block named
there, and whether that one is the newer of the two. -/
structure Reads (hw : Hw) (s : Driver) (k : Kind) (b p pair : ℕ) (newer : Bool) : Prop where
  find : findTable hw k.mark s tableAreaEnd = some b
  lt : p < nandBlockSize
  last : lastMarkedPage hw k.mark s b nandBlockSize = some p
  named : s.pairBlock hw b p = pair
  spare : (s.spareData hw pair 0).1 = .noError
  newer : (decide (p = nandBlockSize - 1) && s.marked hw k.mark pair 0) = newer

/-- **Either the current block is found, or the other one, which is still full.** -/
theorem TableHolds.reads (hs : hw.Sound) (h : TableHolds k s.chip.pages d)
    (hres : Resolved k s.chip.pages d) :
    Reads hw s k d.cur (k.span * (d.last + 1) - 1) d.partner false ∨
      d.last = 0 ∧ Reads hw s k d.partner (nandBlockSize - 1) d.cur true := by
  have hpair := h.pair
  have hread : s.Readable := h.readable
  have hcur := hpair.curArea
  have hpartner := hpair.partnerArea
  have hfits := hpair.fits
  have hpos : 0 < k.span * (d.last + 1) := Nat.mul_pos k.span_pos (Nat.succ_pos _)
  have hspare : ∀ {b : ℕ}, b ≤ tableAreaEnd → (s.spareData hw b 0).1 = .noError := fun hb => by
    rw [spareData_eq hs hread hb (by decide)]
  have hcases : ((s.chip.pages (pageOf d.partner 0) = .blank ∨ d.partner < d.cur) ∧
      (decide (k.span * (d.last + 1) - 1 = nandBlockSize - 1) &&
        markedAt k s.chip.pages d.partner 0) = false) ∨
      (d.cur < d.partner ∧ d.last = 0 ∧ ∀ q < nandBlockSize, k.IsCopy d.cur
          (s.chip.pages (pageOf d.partner q))) := by
    rcases hres with hblank | ⟨hlow, hroom⟩ | ⟨hhigh, hzero⟩
    · exact Or.inl ⟨Or.inl hblank, by rw [markedAt_blank hblank, Bool.and_false]⟩
    · have hne : k.span * (d.last + 1) - 1 ≠ nandBlockSize - 1 := by omega
      exact Or.inl ⟨Or.inr hlow, by rw [decide_eq_false hne, Bool.false_and]⟩
    · rcases hpair.other with hblank | hfull
      · exact Or.inl ⟨Or.inl hblank, by rw [markedAt_blank hblank, Bool.and_false]⟩
      · exact Or.inr ⟨hhigh, hzero, hfull⟩
  rcases hcases with ⟨hfound, hnewer⟩ | ⟨hhigh, hzero, hfull⟩
  · have hlt : k.span * (d.last + 1) - 1 < nandBlockSize := by omega
    refine Or.inl ⟨findTable_eq hs hread (h.foundFirst_cur hfound) hcur.2 le_rfl, hlt,
      hpair.lastMarkedPage_cur hs hread, ?_, hspare hpartner.2, ?_⟩
    · rw [pairBlock_eq hs hread hcur.2 hlt]
      exact (hpair.copies _ (by omega)).pairAt hpartner.lt
    · rw [marked_eq hs hread hpartner.2 (q := 0) (by decide), hnewer]
  · refine Or.inr ⟨hzero, findTable_eq hs hread
      (h.foundFirst_partner (hfull 0 (by decide)).marked hhigh) hpartner.2 le_rfl, by decide,
      lastMarkedPage_full hs hread hpartner.2 hfull, ?_, hspare hcur.2, ?_⟩
    · rw [pairBlock_eq hs hread hpartner.2 (by decide)]
      exact (hfull _ (by decide)).pairAt hcur.lt
    · rw [marked_eq hs hread hcur.2 (q := 0) (by decide), hpair.marked_cur]
      rfl

/-- What the first half of the search leaves, given what it reads. -/
theorem Reads.rebuildBbt_eq {newer : Bool} (h : Reads hw s .bbt b p pair newer) :
    rebuildBbt hw b s = (loadBbtFromNand hw { (if newer then (s.erase hw b).2 else s) with
      bbtBlock := fun i => if i = 0 then b else pair
      bbtCrtBlockIdx := if newer then 1 else 0
      bbtCrtPage := if newer then 0 else p % 2 ^ 8 }).map fun s => { s with
        tables := { s.tables with
          badBlockNum := s.tables.bbt bbtBadNumIdx
          lastValidRepBlock := s.tables.bbt bbtLastRepValidIdx
          lastValidTabBlock := s.tables.bbt bbtLastTabValidIdx } } := by
  have hspare : ¬(s.spareData hw pair 0).1 ≠ .noError := not_not.mpr h.spare
  have hlast : lastMarkedPage hw markBbt s b nandBlockSize = some p := h.last
  have hnewer : (decide (p = nandBlockSize - 1) && s.marked hw markBbt pair 0) = newer := h.newer
  simp only [rebuildBbt, hlast, bind_eq_bind, bind_some, if_pos h.lt, h.named, hnewer,
    if_neg hspare, map_eq_bind]
  rfl

/-- What has been found of `BBT`. -/
structure BbtFound (s : Driver) (d : Copies) : Prop where
  cur : s.bbtBlock s.bbtCrtBlockIdx = d.cur
  partner : s.bbtBlock (1 - s.bbtCrtBlockIdx) = d.partner
  page : s.bbtCrtPage = d.last
  loaded : ∀ i, 2 * i < bbtBytes → s.tables.bbt i = d.table i % 2 ^ 16

/-- **`BBT` is found**, and a block that is still full is erased. -/
theorem rebuildBbt_eq (hs : hw.Sound) (h : TableHolds .bbt s.chip.pages d)
    (hres : Resolved .bbt s.chip.pages d) :
    ∃ b s', findTable hw markBbt s tableAreaEnd = some b ∧ rebuildBbt hw b s = some s' ∧
      BbtFound s' d ∧ (s'.chip = s.chip ∨ s'.chip = (s.issueAll hw
        [.erase (d.partner * nandBlockSize) nandBlockSize]).chip) := by
  have hpair := h.pair
  rcases h.reads hs hres with hreads | ⟨hzero, hreads⟩
  · have hlt : d.last < 2 ^ 8 := by
      have := hpair.fits
      simp only [Kind.span, one_mul, nandBlockSize] at this
      omega
    have hrebuild := hreads.rebuildBbt_eq
    rw [Kind.span, one_mul, Nat.add_sub_cancel] at hrebuild
    obtain ⟨t, ht, hloaded⟩ := loadBbtFromNand_eq (d := d) (s := { s with
      bbtBlock := fun i => if i = 0 then d.cur else d.partner
      bbtCrtBlockIdx := 0
      bbtCrtPage := d.last % 2 ^ 8 }) hs hpair rfl (Nat.mod_eq_of_lt hlt)
    simp only [Bool.false_eq_true, if_false] at hrebuild
    rw [ht, map_some] at hrebuild
    exact ⟨_, _, hreads.find, hrebuild, ⟨rfl, rfl, Nat.mod_eq_of_lt hlt, hloaded⟩, Or.inl rfl⟩
  · have hrebuild := hreads.rebuildBbt_eq
    rw [erase_eq hs hpair.partnerArea.2] at hrebuild
    have hpages := (Device.issueAll_of_never (d := s.chip) hs.never
      [.erase (d.partner * nandBlockSize) nandBlockSize]).1
    have herased : PairHolds .bbt (s.issueAll hw
        [.erase (d.partner * nandBlockSize) nandBlockSize]).chip.pages d := by
      rw [Driver.issueAll, hpages]
      exact hpair.erasePartner
    obtain ⟨t, ht, hloaded⟩ := loadBbtFromNand_eq (d := d) (s := { s.issueAll hw
      [.erase (d.partner * nandBlockSize) nandBlockSize] with
      bbtBlock := fun i => if i = 0 then d.partner else d.cur
      bbtCrtBlockIdx := 1
      bbtCrtPage := 0 }) hs herased rfl hzero.symm
    simp only [if_true] at hrebuild
    rw [ht, map_some] at hrebuild
    exact ⟨_, _, hreads.find, hrebuild, ⟨rfl, rfl, hzero.symm, hloaded⟩, Or.inr rfl⟩

/-- What the second half of the search leaves, given what it reads. -/
theorem Reads.rebuildRbt_eq {newer : Bool} (h : Reads hw s .rbt b p pair newer)
    (heven : (p + 1) % rbtPageNum = 0) :
    rebuildRbt hw b s = loadRbtFromNand hw { s with
      rbtBlock := fun i => if i = 0 then b else pair
      rbtCrtBlockIdx := if newer then 1 else 0
      rbtCrtPage := if newer then rbtPageNum - 1 else p % 2 ^ 8 } := by
  have hspare : ¬(s.spareData hw pair 0).1 ≠ .noError := not_not.mpr h.spare
  have hlastPage : nandBlockSize / (rbtPageNum - 1) * (rbtPageNum - 1) - 1 = nandBlockSize - 1 := by
    decide
  have hlast : lastMarkedPage hw markRbt s b nandBlockSize = some p := h.last
  have hnewer : (decide (p = nandBlockSize - 1) && s.marked hw markRbt pair 0) = newer := h.newer
  simp only [rebuildRbt, hlast, bind_eq_bind, bind_some, if_pos h.lt, h.named,
    hlastPage, hnewer, if_neg hspare, if_neg (not_not.mpr heven)]

/-- **`RBT` is found**, and nothing is erased. -/
theorem rebuildRbt_eq (hs : hw.Sound) (h : TableHolds .rbt s.chip.pages d)
    (hres : Resolved .rbt s.chip.pages d) :
    ∃ b t i r, findTable hw markRbt s tableAreaEnd = some b ∧
      rebuildRbt hw b s = some { s with
        rbtBlock := r, rbtCrtBlockIdx := i, rbtCrtPage := 2 * d.last + 1
        tables := { s.tables with rbt := t } } ∧
      r i = d.cur ∧ r (1 - i) = d.partner ∧
      ∀ j, 2 * j < rbtBytes → t j = d.table j % 2 ^ 16 := by
  have hpair := h.pair
  rcases h.reads hs hres with hreads | ⟨hzero, hreads⟩
  · have hpage : Kind.rbt.span * (d.last + 1) - 1 = 2 * d.last + 1 := by
      simp only [Kind.span, rbtPageNum]
      omega
    have hlt : 2 * d.last + 1 < 2 ^ 8 := by
      have := hreads.lt
      simp only [hpage, nandBlockSize] at this
      omega
    have hrebuild := hreads.rebuildRbt_eq (by simp only [hpage, rbtPageNum]; omega)
    simp only [Bool.false_eq_true, if_false, hpage, Nat.mod_eq_of_lt hlt] at hrebuild
    obtain ⟨t, ht, hloaded⟩ := loadRbtFromNand_eq (d := d) (s := { s with
      rbtBlock := fun i => if i = 0 then d.cur else d.partner
      rbtCrtBlockIdx := 0
      rbtCrtPage := 2 * d.last + 1 }) hs hpair rfl rfl
    exact ⟨_, _, _, _, hreads.find, hrebuild.trans ht, rfl, rfl, hloaded⟩
  · have hrebuild := hreads.rebuildRbt_eq (by decide)
    have hpage : rbtPageNum - 1 = 2 * d.last + 1 := by
      rw [hzero]
      rfl
    simp only [if_true, hpage] at hrebuild
    obtain ⟨t, ht, hloaded⟩ := loadRbtFromNand_eq (d := d) (s := { s with
      rbtBlock := fun i => if i = 0 then d.partner else d.cur
      rbtCrtBlockIdx := 1
      rbtCrtPage := 2 * d.last + 1 }) hs hpair rfl rfl
    exact ⟨_, _, _, _, hreads.find, hrebuild.trans ht, rfl, rfl, hloaded⟩

end Rebuild

end Nand

end Gd32
