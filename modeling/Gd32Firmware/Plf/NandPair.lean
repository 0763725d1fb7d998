import Gd32Firmware.Plf.NandDriver

/-!
# The blocks of a table

Each table of the NAND driver has a pair of blocks. Its copies are written one after the other into
the current block; when that is full the other one is erased and takes the next copy, and then the
full one is erased. `PairHolds` says what the pages of a pair are, whatever was cut short on
the way: the copies of the current block, and another block that is blank or still full.
-/

namespace Gd32.Nand

open NandFlash List

/-! ### A page of a table -/

/-- The two tables. -/
inductive Kind where
  | bbt
  | rbt
  deriving DecidableEq, Repr

/-- The first byte of the mark. -/
def Kind.mark : Kind → UInt8
  | .bbt => markBbt
  | .rbt => markRbt

/-- The pages of a copy. -/
def Kind.span : Kind → ℕ
  | .bbt => 1
  | .rbt => rbtPageNum

/-- What is written into page `r` of a copy. -/
def Kind.buffer (t : ℕ → ℕ) (pair : ℕ) : Kind → ℕ → ℕ → UInt8
  | .bbt, _ => tablePage markBbt t 0 bbtBytes pair
  | .rbt, 0 => tablePage markRbt t 0 nandPageSize pair
  | .rbt, _ + 1 => tablePage markRbt t nandPageSize (rbtBytes - nandPageSize) pair

/-- The page after it has been written. -/
def Kind.page (t : ℕ → ℕ) (pair : ℕ) (k : Kind) (r : ℕ) : Page :=
  Page.blank.program 0 nandPageTotalSize (k.buffer t pair r) false

/-- The spare data of a page. -/
def spareOf (g : Page) (i : ℕ) : UInt8 := g.bytes (nandPageSize + nandSpareDataOffset + i)

section Page

variable {k k' : Kind} {t : ℕ → ℕ} {pair r i : ℕ}

theorem blank_and (b : UInt8) : 0xFF &&& b = b := by
  rw [show (0xFF : UInt8) = -1 from rfl, UInt8.neg_one_and]

theorem page_bytes (h : i < nandPageTotalSize) : (k.page t pair r).bytes i = k.buffer t pair r i := by
  rw [Kind.page, program_bytes_of_mem ⟨Nat.zero_le _, by omega⟩]
  exact blank_and _

/-- What the spare data of a page says. -/
theorem spareOf_page : spareOf (k.page t pair r) 0 = k.mark ∧ spareOf (k.page t pair r) 1 = 0x42 ∧
    spareOf (k.page t pair r) 2 = 0x54 ∧ spareOf (k.page t pair r) 3 = 0x21 ∧
    spareOf (k.page t pair r) 4 = UInt8.ofNat pair ∧
    spareOf (k.page t pair r) 5 = UInt8.ofNat (pair / 256) := by
  have hspare : ∀ i < 6, spareOf (k.page t pair r) i =
      k.buffer t pair r (nandPageSize + nandSpareDataOffset + i) := fun i hi =>
    page_bytes (by simp only [nandPageSize, nandSpareDataOffset, nandPageTotalSize,
      nandSpareAreaSize]; omega)
  rw [hspare 0 (by omega), hspare 1 (by omega), hspare 2 (by omega), hspare 3 (by omega),
    hspare 4 (by omega), hspare 5 (by omega)]
  rcases k with _ | _
  · exact ⟨rfl, rfl, rfl, rfl, rfl, rfl⟩
  · rcases r with _ | r
    · exact ⟨rfl, rfl, rfl, rfl, rfl, rfl⟩
    · exact ⟨rfl, rfl, rfl, rfl, rfl, rfl⟩

/-- **A page of a table has the mark of that table** and of no other. -/
theorem isMarked_page : isMarked k'.mark (spareOf (k.page t pair r)) = decide (k' = k) := by
  obtain ⟨h0, h1, h2, h3, -⟩ := @spareOf_page k t pair r
  simp only [isMarked, h0, h1, h2, h3]
  cases k <;> cases k' <;> rfl

/-- A blank page has no mark. -/
theorem isMarked_blank : isMarked k.mark (spareOf .blank) = false := by
  cases k <;> rfl

/-- The number of the other block. -/
theorem pair_page (h : pair < 2 ^ 16) :
    (spareOf (k.page t pair r) 4).toNat + (spareOf (k.page t pair r) 5).toNat * 2 ^ 8 = pair := by
  obtain ⟨-, -, -, -, h4, h5⟩ := @spareOf_page k t pair r
  rw [h4, h5, UInt8.toNat_ofNat', UInt8.toNat_ofNat']
  omega

/-- **A table is read back** from its bytes, as 16-bit numbers. -/
theorem tableOfBytes_of_bytes {bs : ℕ → UInt8} (h0 : bs (2 * i) = tableByte t (2 * i))
    (h1 : bs (2 * i + 1) = tableByte t (2 * i + 1)) : tableOfBytes bs i = t i % 2 ^ 16 := by
  have hdiv : (2 * i + 1) / 2 = i := by omega
  have hmod : (2 * i + 1) % 2 = 1 := by omega
  rw [tableOfBytes, h0, h1, tableByte, tableByte, Nat.mul_div_cancel_left i (by decide),
    Nat.mul_mod_right, hdiv, hmod, UInt8.toNat_ofNat', UInt8.toNat_ofNat', Nat.pow_zero, Nat.pow_one,
    Nat.div_one]
  omega

end Page

/-! ### A copy of a table -/

/-- The programs that write a copy. -/
def copyPrims (k : Kind) (t : ℕ → ℕ) (pair page : ℕ) : List Prim :=
  (List.range k.span).map fun r => .program (page + r) 0 nandPageTotalSize (k.buffer t pair r)

section Copy

variable {k : Kind} {t : ℕ → ℕ} {pair page p r : ℕ} {f : Pages}

theorem applyAll_bbt : applyAll (copyPrims .bbt t pair page) f =
    (Prim.program page 0 nandPageTotalSize (Kind.buffer t pair .bbt 0)).apply false f := rfl

theorem applyAll_rbt : applyAll (copyPrims .rbt t pair page) f =
    (Prim.program (page + 1) 0 nandPageTotalSize (Kind.buffer t pair .rbt 1)).apply false
      ((Prim.program page 0 nandPageTotalSize (Kind.buffer t pair .rbt 0)).apply false f) := rfl

/-- A copy leaves the other pages alone. -/
theorem applyAll_copyPrims_of_ne (h : ∀ r < k.span, p ≠ page + r) :
    applyAll (copyPrims k t pair page) f p = f p := by
  cases k with
  | bbt =>
    exact apply_program_of_ne (h 0 (by decide))
  | rbt =>
    rw [applyAll_rbt, apply_program_of_ne (h 1 (by decide))]
    exact apply_program_of_ne (h 0 (by decide))

/-- **A copy written into blank pages.** -/
theorem applyAll_copyPrims_self (hr : r < k.span) (hblank : ∀ r < k.span, f (page + r) = .blank) :
    applyAll (copyPrims k t pair page) f (page + r) = k.page t pair r := by
  cases k with
  | bbt =>
    obtain rfl : r = 0 := Nat.lt_one_iff.mp hr
    have hfirst : f page = .blank := hblank 0 (by decide)
    rw [applyAll_bbt, add_zero page, apply_program_self, hfirst]
    rfl
  | rbt =>
    have hne : page ≠ page + 1 := by omega
    rw [applyAll_rbt]
    obtain rfl | rfl : r = 0 ∨ r = 1 := by
      simp only [Kind.span, rbtPageNum] at hr
      omega
    · have hfirst : f page = .blank := hblank 0 (by decide)
      rw [add_zero page, apply_program_of_ne hne, apply_program_self, hfirst]
      rfl
    · rw [apply_program_self, apply_program_of_ne hne.symm, hblank 1 (by decide)]
      rfl

end Copy

/-! ### The pair -/

/-- Where the copies of a table are. -/
structure Copies where
  cur : ℕ
  partner : ℕ
  /-- The number of the last copy in the current block. -/
  last : ℕ
  table : ℕ → ℕ

/-- A block of the table area other than the first, which is never taken. -/
def InTableArea (b : ℕ) : Prop := tableAreaStart < b ∧ b ≤ tableAreaEnd

/-- The pages of a block. -/
def pageOf (b q : ℕ) : ℕ := b * nandBlockSize + q

/-- A page of a copy of the table, which names the other block. -/
def Kind.IsCopy (k : Kind) (pair : ℕ) (g : Page) : Prop := ∃ t r, g = k.page t pair r

/-- **The pages of a pair.** -/
structure PairHolds (k : Kind) (f : Pages) (c : Copies) : Prop where
  curArea : InTableArea c.cur
  partnerArea : InTableArea c.partner
  ne : c.cur ≠ c.partner
  fits : k.span * (c.last + 1) ≤ nandBlockSize
  /-- The current block has copies that name the other block. -/
  copies : ∀ q < k.span * (c.last + 1), k.IsCopy c.partner (f (pageOf c.cur q))
  newest : ∀ r < k.span, f (pageOf c.cur (k.span * c.last + r)) = k.page c.table c.partner r
  /-- The rest of the current block is blank. -/
  blank : ∀ q, k.span * (c.last + 1) ≤ q → q < nandBlockSize → f (pageOf c.cur q) = .blank
  /-- The other block is blank, or it is still full of copies that name the current one. -/
  other : f (pageOf c.partner 0) = .blank ∨
    ∀ q < nandBlockSize, k.IsCopy c.cur (f (pageOf c.partner q))

section Pair

variable {k : Kind} {f g : Pages} {c : Copies} {t : ℕ → ℕ} {b b' q q' : ℕ}

theorem pageOf_ne (h : b ≠ b') (hq : q < nandBlockSize) (hq' : q' < nandBlockSize) :
    pageOf b q ≠ pageOf b' q' := by
  simp only [pageOf, nandBlockSize] at hq hq' ⊢
  omega

theorem pageOf_add (b q r : ℕ) : pageOf b q + r = pageOf b (q + r) := add_assoc _ _ _

theorem Kind.span_pos (k : Kind) : 0 < k.span := by
  cases k <;> decide

/-- A copy leaves the other blocks alone. -/
theorem applyAll_copyPrims_of_block_ne {pair r : ℕ} (h : b' ≠ b) (hq : q < nandBlockSize)
    (hr : r + k.span ≤ nandBlockSize) :
    applyAll (copyPrims k t pair (pageOf b r)) f (pageOf b' q) = f (pageOf b' q) := by
  refine applyAll_copyPrims_of_ne fun i hi => ?_
  rw [pageOf_add]
  exact pageOf_ne h hq (by omega)

/-- Only the pages of the two blocks matter. -/
theorem PairHolds.congr (h : PairHolds k f c)
    (hcur : ∀ q < nandBlockSize, g (pageOf c.cur q) = f (pageOf c.cur q))
    (hpartner : ∀ q < nandBlockSize, g (pageOf c.partner q) = f (pageOf c.partner q)) :
    PairHolds k g c := by
  have hfits := h.fits
  refine ⟨h.curArea, h.partnerArea, h.ne, h.fits, ?_, ?_, ?_, ?_⟩
  · intro q hq
    rw [hcur q (by omega)]
    exact h.copies q hq
  · intro r hr
    rw [hcur _ (by rw [Nat.mul_succ] at hfits; omega)]
    exact h.newest r hr
  · intro q hq hlt
    rw [hcur q hlt]
    exact h.blank q hq hlt
  · refine h.other.imp (fun hblank => ?_) fun hfull q hq => ?_
    · rw [hpartner 0 (by decide)]
      exact hblank
    · rw [hpartner q hq]
      exact hfull q hq

/-- **The next copy** goes behind the last one. -/
theorem PairHolds.append (h : PairHolds k f c) (hroom : k.span * (c.last + 2) ≤ nandBlockSize) :
    PairHolds k (applyAll (copyPrims k t c.partner (pageOf c.cur (k.span * (c.last + 1)))) f)
      { c with last := c.last + 1, table := t } := by
  have hnext : k.span * (c.last + 2) = k.span * (c.last + 1) + k.span := Nat.mul_succ _ _
  have hold : ∀ q < nandBlockSize, q < k.span * (c.last + 1) ∨ k.span * (c.last + 2) ≤ q →
      applyAll (copyPrims k t c.partner (pageOf c.cur (k.span * (c.last + 1)))) f (pageOf c.cur q) =
        f (pageOf c.cur q) := by
    intro q _ hq
    refine applyAll_copyPrims_of_ne fun r hr => ?_
    simp only [pageOf]
    omega
  have hnew : ∀ r < k.span,
      applyAll (copyPrims k t c.partner (pageOf c.cur (k.span * (c.last + 1)))) f
        (pageOf c.cur (k.span * (c.last + 1) + r)) = k.page t c.partner r := by
    intro r hr
    rw [← pageOf_add]
    refine applyAll_copyPrims_self hr fun r hr => ?_
    rw [pageOf_add]
    exact h.blank _ (Nat.le_add_right _ _) (by omega)
  refine ⟨h.curArea, h.partnerArea, h.ne, hroom, ?_, ?_, ?_, ?_⟩
  · intro q hq
    change q < k.span * (c.last + 2) at hq
    by_cases hlt : q < k.span * (c.last + 1)
    · rw [hold q (by omega) (Or.inl hlt)]
      exact h.copies q hlt
    · obtain ⟨r, rfl⟩ := Nat.exists_eq_add_of_le (not_lt.mp hlt)
      exact ⟨t, r, hnew r (by omega)⟩
  · exact hnew
  · intro q hq hlt
    rw [hold q hlt (Or.inr hq)]
    exact h.blank q (by change k.span * (c.last + 2) ≤ q at hq; omega) hlt
  · have hpartner : ∀ q < nandBlockSize,
        applyAll (copyPrims k t c.partner (pageOf c.cur (k.span * (c.last + 1)))) f
          (pageOf c.partner q) = f (pageOf c.partner q) := by
      intro q hq
      exact applyAll_copyPrims_of_block_ne h.ne.symm hq (by rw [← hnext]; exact hroom)
    refine h.other.imp (fun hblank => ?_) fun hfull q hq => ?_
    · exact (hpartner 0 (by decide)).trans hblank
    · rw [hpartner q hq]
      exact hfull q hq

/-- The pages of a block are erased. -/
theorem erase_pageOf (hq : q < nandBlockSize) :
    (Prim.erase (b * nandBlockSize) nandBlockSize).apply false f (pageOf b q) = .blank :=
  apply_erase_of_mem ⟨Nat.le_add_right _ _, Nat.add_lt_add_left hq _⟩

/-- Those of the other blocks are not. -/
theorem erase_pageOf_of_ne (h : b' ≠ b) (hq : q < nandBlockSize) :
    (Prim.erase (b * nandBlockSize) nandBlockSize).apply false f (pageOf b' q) = f (pageOf b' q) := by
  refine apply_erase_of_notMem fun hmem => ?_
  simp only [pageOf, nandBlockSize] at hmem hq
  omega

/-- **The other block is erased.** -/
theorem PairHolds.erasePartner (h : PairHolds k f c) :
    PairHolds k ((Prim.erase (c.partner * nandBlockSize) nandBlockSize).apply false f) c := by
  have hcur : ∀ q < nandBlockSize, (Prim.erase (c.partner * nandBlockSize) nandBlockSize).apply false
      f (pageOf c.cur q) = f (pageOf c.cur q) := fun q hq => erase_pageOf_of_ne h.ne hq
  have hfits := h.fits
  refine ⟨h.curArea, h.partnerArea, h.ne, h.fits, ?_, ?_, ?_, Or.inl (erase_pageOf (by decide))⟩
  · intro q hq
    rw [hcur q (by omega)]
    exact h.copies q hq
  · intro r hr
    rw [hcur _ (by rw [Nat.mul_succ] at hfits; omega)]
    exact h.newest r hr
  · intro q hq hlt
    rw [hcur q hlt]
    exact h.blank q hq hlt

/-- **The first copy of a block**, written when the block is blank. -/
theorem pairHolds_first {pair : ℕ} (hcur : InTableArea b) (hpair : InTableArea pair)
    (hne : b ≠ pair) (hblank : ∀ q < nandBlockSize, f (pageOf b q) = .blank)
    (hother : f (pageOf pair 0) = .blank ∨ ∀ q < nandBlockSize, k.IsCopy b (f (pageOf pair q))) :
    PairHolds k (applyAll (copyPrims k t pair (pageOf b 0)) f) ⟨b, pair, 0, t⟩ := by
  have hone : k.span * (0 + 1) = k.span := by rw [zero_add, mul_one]
  have hle : k.span ≤ nandBlockSize := by cases k <;> decide
  have hnew : ∀ r < k.span, applyAll (copyPrims k t pair (pageOf b 0)) f
      (pageOf b (k.span * 0 + r)) = k.page t pair r := by
    intro r hr
    rw [mul_zero, ← pageOf_add]
    refine applyAll_copyPrims_self hr fun r hr => ?_
    exact hblank _ (by omega)
  have hleft : ∀ q < nandBlockSize, applyAll (copyPrims k t pair (pageOf b 0)) f (pageOf pair q) =
      f (pageOf pair q) := by
    intro q hq
    exact applyAll_copyPrims_of_block_ne hne.symm hq (by rwa [zero_add])
  refine ⟨hcur, hpair, hne, by rwa [hone], ?_, hnew, ?_, ?_⟩
  · intro q hq
    rw [hone] at hq
    have := hnew q hq
    rw [mul_zero, zero_add] at this
    exact ⟨t, q, this⟩
  · intro q hq hlt
    rw [hone] at hq
    refine (applyAll_copyPrims_of_ne fun r hr => ?_).trans (hblank q hlt)
    simp only [pageOf]
    omega
  · refine hother.imp (fun hblank => ?_) fun hfull q hq => ?_
    · exact (hleft 0 (by decide)).trans hblank
    · rw [hleft q hq]
      exact hfull q hq

/-- **When the current block is full** the next copy is the first one of the other block. -/
theorem PairHolds.toggle (h : PairHolds k f c) (hfull : k.span * (c.last + 1) = nandBlockSize)
    (hblank : ∀ q < nandBlockSize, f (pageOf c.partner q) = .blank) :
    PairHolds k (applyAll (copyPrims k t c.cur (pageOf c.partner 0)) f)
      ⟨c.partner, c.cur, 0, t⟩ :=
  pairHolds_first h.partnerArea h.curArea h.ne.symm hblank
    (Or.inr fun q hq => h.copies q (by rwa [hfull]))

/-! ### An update, cut short or not -/

/-- The primitives of an update. -/
def updatePrims (k : Kind) (c : Copies) (t : ℕ → ℕ) : List Prim :=
  if k.span * (c.last + 2) ≤ nandBlockSize then
    copyPrims k t c.partner (pageOf c.cur (k.span * (c.last + 1)))
  else
    .erase (c.partner * nandBlockSize) nandBlockSize ::
      (copyPrims k t c.cur (pageOf c.partner 0) ++ [.erase (c.cur * nandBlockSize) nandBlockSize])

/-- Where the copies are after an update. -/
def Copies.updated (k : Kind) (c : Copies) (t : ℕ → ℕ) : Copies :=
  if k.span * (c.last + 2) ≤ nandBlockSize then { c with last := c.last + 1, table := t }
  else ⟨c.partner, c.cur, 0, t⟩

/-- The update is cut between the two pages of a copy of `RBT`. -/
def HalfCopy (k : Kind) (c : Copies) (n : ℕ) : Prop :=
  k = .rbt ∧ n = if k.span * (c.last + 2) ≤ nandBlockSize then 1 else 2

/-- A block that does not have room for another copy is full. -/
theorem PairHolds.full (h : PairHolds k f c) (hroom : ¬k.span * (c.last + 2) ≤ nandBlockSize) :
    k.span * (c.last + 1) = nandBlockSize := by
  have hfits := h.fits
  cases k with
  | bbt =>
    simp only [Kind.span, nandBlockSize] at hfits hroom ⊢
    omega
  | rbt =>
    simp only [Kind.span, rbtPageNum, nandBlockSize] at hfits hroom ⊢
    omega

/-- **After an update** the pair has the table that was written. -/
theorem PairHolds.updated (h : PairHolds k f c) :
    PairHolds k (applyAll (updatePrims k c t) f) (c.updated k t) := by
  by_cases hroom : k.span * (c.last + 2) ≤ nandBlockSize
  · rw [updatePrims, Copies.updated, if_pos hroom, if_pos hroom]
    exact h.append hroom
  · rw [updatePrims, Copies.updated, if_neg hroom, if_neg hroom]
    have htoggle := h.erasePartner.toggle (t := t) (h.full hroom) fun q hq => erase_pageOf hq
    have happly : ∀ (p : Prim) ps f, applyAll (p :: ps) f = applyAll ps (p.apply false f) :=
      fun _ _ _ => rfl
    rw [happly, applyAll_append]
    exact htoggle.erasePartner

theorem length_copyPrims (pair page : ℕ) : (copyPrims k t pair page).length = k.span := by
  rw [copyPrims, length_map, length_range]

/-- **An update that was cut** leaves the pair as it was before or as it is after, unless it was cut
between two pages of a copy. -/
theorem PairHolds.cut (h : PairHolds k f c) {n : ℕ} (hn : ¬HalfCopy k c n) :
    PairHolds k (applyAll ((updatePrims k c t).take n) f) c ∨
      PairHolds k (applyAll ((updatePrims k c t).take n) f) (c.updated k t) := by
  have hall : (updatePrims k c t).length ≤ n →
      PairHolds k (applyAll ((updatePrims k c t).take n) f) (c.updated k t) := by
    intro hlen
    rw [take_of_length_le hlen]
    exact h.updated
  have hspan : k.span = 1 ∨ k = .rbt ∧ k.span = 2 := by
    cases k
    · exact Or.inl rfl
    · exact Or.inr ⟨rfl, rfl⟩
  rcases Nat.eq_zero_or_pos n with rfl | hpos
  · exact Or.inl h
  by_cases hroom : k.span * (c.last + 2) ≤ nandBlockSize
  · -- one copy, in one piece
    refine Or.inr (hall ?_)
    rw [updatePrims, if_pos hroom, length_copyPrims]
    rcases hspan with hspan | ⟨rfl, hspan⟩
    · omega
    · have hne : n ≠ 1 := fun heq => hn ⟨rfl, by rw [if_pos hroom, heq]⟩
      omega
  · have hprims : updatePrims k c t = .erase (c.partner * nandBlockSize) nandBlockSize ::
        (copyPrims k t c.cur (pageOf c.partner 0) ++
          [.erase (c.cur * nandBlockSize) nandBlockSize]) := if_neg hroom
    have hlen : (updatePrims k c t).length = k.span + 2 := by
      rw [hprims, length_cons, length_append, length_copyPrims, length_singleton]
    have hne : k = .rbt → n ≠ 2 := fun hk heq => hn ⟨hk, by rw [if_neg hroom, heq]⟩
    rcases lt_or_ge n (k.span + 2) with hlt | hge
    · rcases lt_or_ge n (k.span + 1) with hlt' | hge'
      · -- only the other block has been erased
        obtain rfl : n = 1 := by
          rcases hspan with hspan | ⟨hk, hspan⟩
          · omega
          · have := hne hk
            omega
        refine Or.inl ?_
        rw [hprims]
        exact h.erasePartner
      · -- the copy has been written, and the full block is still there
        obtain rfl : n = k.span + 1 := by omega
        have htake : (updatePrims k c t).take (k.span + 1) =
            .erase (c.partner * nandBlockSize) nandBlockSize ::
              copyPrims k t c.cur (pageOf c.partner 0) := by
          rw [hprims, take_succ_cons, take_append_of_le_length (by rw [length_copyPrims]),
            take_of_length_le (by rw [length_copyPrims])]
        refine Or.inr ?_
        rw [htake, Copies.updated, if_neg hroom]
        exact h.erasePartner.toggle (h.full hroom) fun q hq => erase_pageOf hq
    · exact Or.inr (hall (by omega))

/-- The same two blocks. -/
def Copies.SameBlocks (c c' : Copies) : Prop :=
  c'.cur = c.cur ∧ c'.partner = c.partner ∨ c'.cur = c.partner ∧ c'.partner = c.cur

theorem sameBlocks_updated : c.SameBlocks (c.updated k t) := by
  rw [Copies.updated]
  split_ifs
  · exact Or.inl ⟨rfl, rfl⟩
  · exact Or.inr ⟨rfl, rfl⟩

/-- Primitives on the pages of two blocks. -/
def OnBlocks (b b' : ℕ) (p : Prim) : Prop :=
  ∀ f : Pages, (∀ x, (∀ q < nandBlockSize, x ≠ pageOf b q ∧ x ≠ pageOf b' q) →
    p.apply false f x = f x)

theorem onBlocks_erase (hb : b = c.cur ∨ b = c.partner) :
    OnBlocks c.cur c.partner (.erase (b * nandBlockSize) nandBlockSize) := by
  intro f x hx
  refine apply_erase_of_notMem fun ⟨hle, hlt⟩ => ?_
  obtain ⟨q, rfl⟩ := Nat.exists_eq_add_of_le hle
  have hq : q < nandBlockSize := by omega
  rcases hb with rfl | rfl
  · exact (hx q hq).1 rfl
  · exact (hx q hq).2 rfl

theorem onBlocks_copyPrims {pair : ℕ} (hb : b = c.cur ∨ b = c.partner)
    (hq : q + k.span ≤ nandBlockSize) :
    ∀ p ∈ copyPrims k t pair (pageOf b q), OnBlocks c.cur c.partner p := by
  intro p hp f x hx
  obtain ⟨r, hr, rfl⟩ := mem_map.mp hp
  have hr := mem_range.mp hr
  refine apply_program_of_ne ?_
  rw [pageOf_add]
  rcases hb with rfl | rfl
  · exact (hx _ (by omega)).1
  · exact (hx _ (by omega)).2

/-- **An update stays on the two blocks.** -/
theorem PairHolds.onBlocks (h : PairHolds k f c) :
    ∀ p ∈ updatePrims k c t, OnBlocks c.cur c.partner p := by
  have hone : k.span ≤ nandBlockSize := by cases k <;> decide
  rw [updatePrims]
  split_ifs with hroom
  · exact onBlocks_copyPrims (Or.inl rfl) (by rw [← Nat.mul_succ]; exact hroom)
  · simp only [mem_cons, mem_append, not_mem_nil, or_false]
    rintro p (rfl | hp | rfl)
    · exact onBlocks_erase (Or.inr rfl)
    · exact onBlocks_copyPrims (Or.inr rfl) (by omega) p hp
    · exact onBlocks_erase (Or.inl rfl)

theorem applyAll_of_onBlocks {ps : List Prim} (h : ∀ p ∈ ps, OnBlocks b b' p) {x : ℕ}
    (hx : ∀ q < nandBlockSize, x ≠ pageOf b q ∧ x ≠ pageOf b' q) : applyAll ps f x = f x := by
  induction ps generalizing f with
  | nil => rfl
  | cons p ps ih =>
    exact (ih fun p hp => h p (mem_cons_of_mem _ hp)).trans (h p mem_cons_self f x hx)

end Pair

end Gd32.Nand
