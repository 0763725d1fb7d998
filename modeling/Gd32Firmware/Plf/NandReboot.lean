import Gd32Firmware.Plf.NandArray
import Gd32Firmware.Plf.NandPowerCut

/-!
# The tables of the NAND driver across power cuts

The tables are updated one after the other, with power cuts between any two primitives of an update
and of the search that follows the next start.

After every start the search finds the last copies that were written completely, or those in
progress, unless a cut came between the two pages of a copy of `RBT`, or an update was cut before it
erased the full block and that block is taken for the current one
(`powerCut_calm`).
-/

namespace Gd32.Nand

open NandFlash List Option

open Function (update update_eq_self update_of_ne update_self)

/-! ### Both tables are found -/

/-- The bytes of a table. -/
def Kind.bytes : Kind → ℕ
  | .bbt => bbtBytes
  | .rbt => rbtBytes

/-- The table in the memory of the driver. -/
def Tables.words (t : Tables) : Kind → ℕ → ℕ
  | .bbt => t.bbt
  | .rbt => t.rbt

/-- The same 16-bit numbers. -/
def SameWords (k : Kind) (t u : ℕ → ℕ) : Prop := ∀ i, 2 * i < k.bytes → t i % 2 ^ 16 = u i % 2 ^ 16

/-- What the search leaves when both tables are found. -/
structure Rebuilt (hw : Hw) (s s' : Driver) (c : Kind → Copies) : Prop where
  holds : Holds s' c
  /-- The tables are those of the last copies. -/
  loaded : ∀ k, SameWords k (s'.tables.words k) (c k).table
  /-- At most a block that is still full is erased. -/
  chip : s'.chip = s.chip ∨
    s'.chip = (s.issueAll hw [.erase ((c .bbt).partner * nandBlockSize) nandBlockSize]).chip

section Found

variable {hw : Hw} {s : Driver} {f : Pages} {c : Kind → Copies} {k k' : Kind}

theorem SameWords.refl (k : Kind) (t : ℕ → ℕ) : SameWords k t t := fun _ _ => rfl

theorem SameWords.trans {t u v : ℕ → ℕ} (h : SameWords k t u) (h' : SameWords k u v) :
    SameWords k t v := fun i hi => (h i hi).trans (h' i hi)

theorem sameWords_of_loaded {t u : ℕ → ℕ} (h : ∀ i, 2 * i < k.bytes → t i = u i % 2 ^ 16) :
    SameWords k t u := fun i hi => by rw [h i hi, Nat.mod_mod]

/-- The other block of a pair is erased, and both tables are still there. -/
theorem TablesHold.erasePartner (h : TablesHold f c) (k : Kind) :
    TablesHold ((Prim.erase ((c k).partner * nandBlockSize) nandBlockSize).apply false f) c := by
  have hsame : (c k).SameBlocks (c k) := Or.inl ⟨rfl, rfl⟩
  have h' := h.of_pair (h.pair k).erasePartner hsame (onBlocks_erase (Or.inr rfl) f)
    (readable_apply _ h.readable)
  rwa [update_eq_self] at h'

/-- A block that is blank or still full is left alone by what is done to the other table. -/
theorem TablesHold.resolved_erase (h : TablesHold f c) (hk : k ≠ k')
    (hres : Resolved k f (c k)) :
    Resolved k ((Prim.erase ((c k').partner * nandBlockSize) nandBlockSize).apply false f) (c k) := by
  have hne : (c k).partner ≠ (c k').partner := fun heq =>
    h.apart_kind hk (Or.inr rfl) (Or.inr heq)
  rw [Resolved, erase_pageOf_of_ne hne (by decide)]
  exact hres

/-- **Both tables are found.** -/
theorem rebuildBbtrbt_eq (hs : hw.Sound) (h : TablesHold s.chip.pages c)
    (hone : ∀ k, OneCopy k s.chip.pages) :
    ∃ s', rebuildBbtrbt hw s = some (true, s') ∧ Rebuilt hw s s' c := by
  obtain ⟨b, s₁, hfind, hbbt, hfound, hchip⟩ := rebuildBbt_eq hs (h.table .bbt)
    ((h.table .bbt).resolved (hone .bbt))
  have hrbt := (h.table .rbt).resolved (hone .rbt)
  have hkept : TablesHold s₁.chip.pages c ∧ Resolved .rbt s₁.chip.pages (c .rbt) := by
    rcases hchip with hchip | hchip
    · rw [hchip]
      exact ⟨h, hrbt⟩
    · rw [hchip, Driver.issueAll, (Device.issueAll_of_never hs.never _).1]
      exact ⟨h.erasePartner .bbt, h.resolved_erase (by decide) hrbt⟩
  obtain ⟨b', t, i, r, hfind', hrbt', hcur, hpartner, hloaded⟩ :=
    rebuildRbt_eq hs (hkept.1.table .rbt) hkept.2
  refine ⟨{ s₁ with
    rbtBlock := r, rbtCrtBlockIdx := i, rbtCrtPage := 2 * (c .rbt).last + 1
    tables := { s₁.tables with rbt := t } }, ?_, ?_, ?_, hchip⟩
  · rw [rebuildBbtrbt, hfind]
    simp only [hbbt, hfind', hrbt', bind_eq_bind, bind_some, map_some]
  · exact ⟨hkept.1, hfound.cur, hfound.partner, hfound.page, hcur, hpartner, rfl⟩
  rintro (_ | _)
  · exact sameWords_of_loaded hfound.loaded
  · exact sameWords_of_loaded hloaded

end Found

/-! ### Runs with power cuts -/

/-- A table in the memory of the driver is changed. -/
def Driver.setTable (s : Driver) (t : ℕ → ℕ) : Kind → Driver
  | .bbt => { s with tables := { s.tables with bbt := t } }
  | .rbt => { s with tables := { s.tables with rbt := t } }

def updateBbtrbt2Nand (hw : Hw) : Kind → Driver → Option Driver
  | .bbt => updateBbt2Nand hw
  | .rbt => updateRbt2Nand hw

/-- What happens to the driver. -/
inductive PowerEvent where
  | save (k : Kind) (t : ℕ → ℕ)
  /-- The same, and the power is cut after `n` primitives. -/
  | cut (k : Kind) (t : ℕ → ℕ) (n : ℕ)
  /-- The power is cut between two updates. -/
  | off
  /-- The driver is started, and the tables are searched. -/
  | rebuild
  /-- The same, and the power is cut after `n` primitives. -/
  | rebuildCut (n : ℕ)

/-- What a search has found. -/
structure Rebuild where
  /-- What was last written completely, or found by the search before. -/
  last : Kind → ℕ → ℕ
  /-- What was being written when the power was cut. -/
  now : Kind → Option (ℕ → ℕ)
  loaded : Kind → ℕ → ℕ

/-- Each table is the last one written completely or the one in progress. -/
def Rebuild.Right (r : Rebuild) : Prop :=
  ∀ k, SameWords k (r.loaded k) (r.last k) ∨ ∃ u ∈ r.now k, SameWords k (r.loaded k) u

/-- The driver, and what has happened. -/
structure PowerState where
  /-- The driver; without power only its chip counts. -/
  driver : Driver
  /-- There is power, and the tables have been searched. -/
  on : Bool
  /-- What was last written completely, or found by the last search. -/
  last : Kind → ℕ → ℕ
  /-- What was being written when the power was cut. -/
  now : Kind → Option (ℕ → ℕ)
  asserted : Bool
  /-- The searches that came to an end, oldest first. -/
  rebuilds : List Rebuild

/-- A driver in use. -/
def PowerState.start (s : Driver) : PowerState := ⟨s, true, s.tables.words, fun _ => none, false, []⟩

/-- **What is asked for**: no assertion has failed, and every search has found the right tables. -/
def PowerState.Right (p : PowerState) : Prop := p.asserted = false ∧ ∀ r ∈ p.rebuilds, r.Right

/-- The program stops at an assertion. -/
def PowerState.stop (p : PowerState) : PowerState := { p with on := false, asserted := true }

/-- The power is cut after `n` of the primitives that lead to `s`; an update that has issued all of
them is complete. -/
def PowerState.cut (p : PowerState) (k : Kind) (t : ℕ → ℕ) (n : ℕ) (s : Driver) : PowerState :=
  if s.chip.log.length ≤ p.driver.chip.log.length + n then
    { p with
      driver := .start (p.driver.chip.cut s.chip n), on := false, last := update p.last k t }
  else
    { p with
      driver := .start (p.driver.chip.cut s.chip n), on := false
      now := update p.now k (some t) }

/-- The search is over. -/
def PowerState.found (p : PowerState) (s : Driver) : PowerState where
  driver := s
  on := true
  last := s.tables.words
  now _ := none
  asserted := p.asserted
  rebuilds := p.rebuilds ++ [⟨p.last, p.now, s.tables.words⟩]

/-- One event. -/
def powerStep (hw : Hw) : PowerEvent → PowerState → Option PowerState
  | .save k t, p =>
    if p.on then
      some (match updateBbtrbt2Nand hw k (p.driver.setTable t k) with
        | some s => { p with driver := s, last := update p.last k t }
        | none => p.stop)
    else none
  | .cut k t n, p =>
    if p.on then
      some (match updateBbtrbt2Nand hw k (p.driver.setTable t k) with
        | some s => p.cut k t n s
        | none => p.stop)
    else none
  | .off, p => if p.on then some { p with on := false } else none
  | .rebuild, p =>
    if p.on then none
    else
      some (match rebuildBbtrbt hw (.start p.driver.chip) with
        | some (_, s) => p.found s
        | none => p.stop)
  | .rebuildCut n, p =>
    if p.on then none
    else
      some (match rebuildBbtrbt hw (.start p.driver.chip) with
        | some (_, s) => { p with driver := .start (p.driver.chip.cut s.chip n) }
        | none => p.stop)

/-- **What must not happen**: a cut between the two pages of a copy of `RBT`, and a search on a chip
where the block found is full and its partner has more than one copy. -/
def PowerEvent.Calm (p : PowerState) : PowerEvent → Prop
  | .cut k _ n => ¬(k = .rbt ∧ n = if p.driver.rbtFull then 2 else 1)
  | .rebuild => ∀ k, OneCopy k p.driver.chip.pages
  | .rebuildCut _ => ∀ k, OneCopy k p.driver.chip.pages
  | _ => True

section Runs

variable {hw : Hw} {s : Driver} {c : Kind → Copies} {p : PowerState} {k : Kind} {t : ℕ → ℕ} {n : ℕ}

/-- The tables on the chip are the last ones or those in progress; those of a driver in use are the
last ones. -/
structure PowerHolds (p : PowerState) (c : Kind → Copies) : Prop where
  chip : TablesHold p.driver.chip.pages c
  table : ∀ k, SameWords k (c k).table (p.last k) ∨ ∃ u ∈ p.now k, SameWords k (c k).table u
  driver : p.on = true → Holds p.driver c ∧ ∀ k, SameWords k (c k).table (p.last k)

theorem holds_setTable (h : Holds s c) (t : ℕ → ℕ) (k : Kind) : Holds (s.setTable t k) c := by
  cases k with
  | bbt => exact ⟨h.chip, h.bbtCur, h.bbtPartner, h.bbtPage, h.rbtCur, h.rbtPartner, h.rbtPage⟩
  | rbt => exact ⟨h.chip, h.bbtCur, h.bbtPartner, h.bbtPage, h.rbtCur, h.rbtPartner, h.rbtPage⟩

/-- **A table is saved** by the primitives of its update. -/
theorem updateBbtrbt2Nand_eq (hs : hw.Sound) (h : Holds s c) (k : Kind) (t : ℕ → ℕ) :
    ∃ s', updateBbtrbt2Nand hw k (s.setTable t k) = some s' ∧
      s'.chip = (s.issueAll hw (updatePrims k (c k) t)).chip ∧
      Holds s' (update c k ((c k).updated k t)) := by
  have h' := holds_setTable h t k
  cases k with
  | bbt =>
    obtain ⟨s', hrun, hchip, -, hholds⟩ := updateBbt2Nand_eq hs h'
    exact ⟨s', hrun, hchip, hholds⟩
  | rbt =>
    obtain ⟨s', hrun, hchip, -, hholds⟩ := updateRbt2Nand_eq hs h'
    exact ⟨s', hrun, hchip, hholds⟩

theorem table_updated (c : Copies) : (c.updated k t).table = t := by
  rw [Copies.updated]
  split_ifs <;> rfl

/-- What the copies say after an update. -/
theorem table_update (h : ∀ k, SameWords k (c k).table (p.last k)) (k' : Kind) :
    SameWords k' (update c k ((c k).updated k t) k').table
      (update p.last k t k') := by
  by_cases hk : k' = k
  · subst hk
    rw [update_self, update_self, table_updated]
    exact SameWords.refl k' t
  · rw [update_of_ne hk, update_of_ne hk]
    exact h k'

/-- **A complete update.** -/
theorem PowerHolds.save (hs : hw.Sound) (h : PowerHolds p c) (hon : p.on = true) {q : PowerState}
    (hq : powerStep hw (.save k t) p = some q) :
    PowerHolds q (update c k ((c k).updated k t)) ∧ q.asserted = p.asserted ∧
      q.rebuilds = p.rebuilds := by
  obtain ⟨hholds, htable⟩ := h.driver hon
  obtain ⟨s', hrun, -, hholds'⟩ := updateBbtrbt2Nand_eq hs hholds k t
  rw [powerStep, if_pos hon, hrun] at hq
  obtain rfl := Option.some.inj hq
  have htable' := table_update (k := k) (t := t) htable
  exact ⟨⟨hholds'.chip, fun k' => Or.inl (htable' k'), fun _ => ⟨hholds', htable'⟩⟩, rfl, rfl⟩

/-- The cut that must not happen, as a cut of the pair. -/
theorem halfCopy_iff (h : Holds s c) :
    HalfCopy k (c k) n ↔ k = .rbt ∧ n = if s.rbtFull then 2 else 1 := by
  refine and_congr_right ?_
  rintro rfl
  by_cases hroom : Kind.rbt.span * ((c .rbt).last + 2) ≤ nandBlockSize
  · have hfull : s.rbtFull = false :=
      Bool.eq_false_iff.mpr fun hfull => (rbtFull_iff h).mp hfull hroom
    rw [if_pos hroom, hfull, if_neg Bool.false_ne_true]
  · rw [if_neg hroom, (rbtFull_iff h).mpr hroom, if_pos rfl]

/-- The chip after a cut. -/
theorem pages_cut (hs : hw.Sound) {s' : Driver} {ps : List Prim}
    (hchip : s'.chip = (s.issueAll hw ps).chip) (n : ℕ) :
    (s.chip.cut s'.chip n).pages = applyAll (ps.take n) s.chip.pages := by
  refine Device.cut_of_never ?_ n
  rw [hchip]
  exact (Device.issueAll_of_never hs.never ps).2

/-- **An update that is cut** leaves some of its primitives on the chip. -/
theorem exists_cut (hs : hw.Sound) (h : PowerHolds p c) (hon : p.on = true) (k : Kind) (t : ℕ → ℕ)
    (n : ℕ) : ∃ s', powerStep hw (.cut k t n) p = some (p.cut k t n s') ∧
      s'.chip.log.length = p.driver.chip.log.length + (updatePrims k (c k) t).length ∧
      (p.cut k t n s').driver.chip.pages =
        applyAll ((updatePrims k (c k) t).take n) p.driver.chip.pages := by
  obtain ⟨s', hrun, hchip, -⟩ := updateBbtrbt2Nand_eq hs (h.driver hon).1 k t
  refine ⟨s', ?_, ?_, ?_⟩
  · rw [powerStep, if_pos hon, hrun]
  · rw [hchip, Driver.issueAll, (Device.issueAll_of_never hs.never _).2, length_append,
      length_map]
  · rw [PowerState.cut]
    split_ifs <;> exact pages_cut hs hchip n

theorem on_cut (p : PowerState) (k : Kind) (t : ℕ → ℕ) (n : ℕ) (s : Driver) :
    (p.cut k t n s).on = false := by
  rw [PowerState.cut]
  split_ifs <;> rfl

/-- **An update that is cut**, but not between two pages of a copy. -/
theorem PowerHolds.cut (hs : hw.Sound) (h : PowerHolds p c) (hon : p.on = true) {q : PowerState}
    (hcalm : PowerEvent.Calm p (.cut k t n)) (hq : powerStep hw (.cut k t n) p = some q) :
    (∃ c', PowerHolds q c') ∧ q.asserted = p.asserted ∧ q.rebuilds = p.rebuilds := by
  obtain ⟨hholds, htable⟩ := h.driver hon
  obtain ⟨s', hrun, hlen, hpages⟩ := exists_cut hs h hon k t n
  obtain rfl := Option.some.inj (hq.symm.trans hrun)
  have hoff : (p.cut k t n s').on ≠ true := by
    rw [on_cut]
    exact Bool.false_ne_true
  by_cases hdone : s'.chip.log.length ≤ p.driver.chip.log.length + n
  · -- everything has been issued
    have hcut : p.cut k t n s' = { p with
        driver := .start (p.driver.chip.cut s'.chip n), on := false
        last := update p.last k t } := if_pos hdone
    refine ⟨⟨update c k ((c k).updated k t), ?_, fun k' => Or.inl ?_,
      fun hon' => absurd hon' hoff⟩, by rw [hcut], by rw [hcut]⟩
    · rw [hpages, take_of_length_le (by omega)]
      exact h.chip.updated
    · rw [hcut]
      exact table_update (k := k) (t := t) htable k'
  · have hcut : p.cut k t n s' = { p with
        driver := .start (p.driver.chip.cut s'.chip n), on := false
        now := update p.now k (some t) } := if_neg hdone
    refine ⟨?_, by rw [hcut], by rw [hcut]⟩
    rcases h.chip.cut (t := t) (n := n) (fun hhalf => hcalm ((halfCopy_iff hholds).mp hhalf)) with
      hold | hnew
    · refine ⟨c, by rwa [hpages], fun k' => Or.inl ?_, fun hon' => absurd hon' hoff⟩
      rw [hcut]
      exact htable k'
    · refine ⟨update c k ((c k).updated k t), by rwa [hpages], fun k' => ?_,
        fun hon' => absurd hon' hoff⟩
      rw [hcut]
      by_cases hk : k' = k
      · subst hk
        refine Or.inr ⟨t, update_self _ _ _, ?_⟩
        rw [update_self, table_updated]
        exact SameWords.refl k' t
      · refine Or.inl ?_
        rw [update_of_ne hk]
        exact htable k'

/-- **A search that comes to an end.** -/
theorem PowerHolds.rebuild (hs : hw.Sound) (h : PowerHolds p c) (hoff : p.on = false)
    {q : PowerState} (hcalm : PowerEvent.Calm p .rebuild) (hq : powerStep hw .rebuild p = some q) :
    PowerHolds q c ∧ q.asserted = p.asserted ∧ ∃ r : Rebuild, r.Right ∧
      q.rebuilds = p.rebuilds ++ [r] := by
  obtain ⟨s', hrun, hrebuilt⟩ := rebuildBbtrbt_eq (s := .start p.driver.chip) hs h.chip hcalm
  rw [powerStep, if_neg (by rw [hoff]; exact Bool.false_ne_true), hrun] at hq
  obtain rfl := Option.some.inj hq
  have htable : ∀ k, SameWords k (c k).table (s'.tables.words k) := fun k i hi =>
    (hrebuilt.loaded k i hi).symm
  refine ⟨⟨hrebuilt.holds.chip, fun k => Or.inl (htable k), fun _ => ⟨hrebuilt.holds, htable⟩⟩, rfl,
    _, fun k => ?_, rfl⟩
  rcases h.table k with hlast | ⟨u, hu, hnow⟩
  · exact Or.inl ((hrebuilt.loaded k).trans hlast)
  · exact Or.inr ⟨u, hu, (hrebuilt.loaded k).trans hnow⟩

/-- The chip after a cut in a search. -/
theorem tablesHold_cut (hs : hw.Sound) {s' : Driver} (h : TablesHold s.chip.pages c)
    (hrebuilt : Rebuilt hw s s' c) (n : ℕ) : TablesHold (s.chip.cut s'.chip n).pages c := by
  rcases hrebuilt.chip with hchip | hchip
  · have hpages := pages_cut hs (show s'.chip = (s.issueAll hw []).chip from hchip) n
    rw [take_nil] at hpages
    rw [hpages]
    exact h
  · rw [pages_cut hs hchip n]
    rcases Nat.eq_zero_or_pos n with rfl | hpos
    · exact h
    · rw [take_of_length_le hpos]
      exact h.erasePartner .bbt

/-- **A search that is cut.** -/
theorem PowerHolds.rebuildCut (hs : hw.Sound) (h : PowerHolds p c) (hoff : p.on = false)
    {q : PowerState} (hcalm : PowerEvent.Calm p (.rebuildCut n))
    (hq : powerStep hw (.rebuildCut n) p = some q) :
    PowerHolds q c ∧ q.asserted = p.asserted ∧ q.rebuilds = p.rebuilds := by
  obtain ⟨s', hrun, hrebuilt⟩ := rebuildBbtrbt_eq (s := .start p.driver.chip) hs h.chip hcalm
  have hnot : ¬p.on = true := by
    rw [hoff]
    exact Bool.false_ne_true
  rw [powerStep, if_neg hnot, hrun] at hq
  obtain rfl := Option.some.inj hq
  exact ⟨⟨tablesHold_cut (s := .start p.driver.chip) hs h.chip hrebuilt n, h.table,
    fun hon => absurd hon hnot⟩, rfl, rfl⟩

/-- **Every event** that may happen keeps the tables, and nothing goes wrong. -/
theorem powerHolds_step (hs : hw.Sound) {e : PowerEvent} {q : PowerState}
    (h : (∃ c, PowerHolds p c) ∧ p.Right) (hcalm : e.Calm p) (hq : powerStep hw e p = some q) :
    (∃ c, PowerHolds q c) ∧ q.Right := by
  obtain ⟨⟨c, h⟩, hassert, hright⟩ := h
  cases e with
  | save k t =>
    have hon : p.on = true := by
      by_contra hoff
      rw [powerStep, if_neg hoff] at hq
      cases hq
    obtain ⟨h', hassert', hrebuilds⟩ := h.save hs hon hq
    exact ⟨⟨_, h'⟩, hassert'.trans hassert, hrebuilds ▸ hright⟩
  | cut k t n =>
    have hon : p.on = true := by
      by_contra hoff
      rw [powerStep, if_neg hoff] at hq
      cases hq
    obtain ⟨h', hassert', hrebuilds⟩ := h.cut hs hon hcalm hq
    exact ⟨h', hassert'.trans hassert, hrebuilds ▸ hright⟩
  | off =>
    have hon : p.on = true := by
      by_contra hoff
      rw [powerStep, if_neg hoff] at hq
      cases hq
    rw [powerStep, if_pos hon] at hq
    obtain rfl := Option.some.inj hq
    exact ⟨⟨c, h.chip, h.table, nofun⟩, hassert, hright⟩
  | rebuild =>
    have hoff : p.on = false := by
      by_contra hon
      rw [powerStep, if_pos (Bool.not_eq_false _ |>.mp hon)] at hq
      cases hq
    obtain ⟨h', hassert', r, hr, hrebuilds⟩ := h.rebuild hs hoff hcalm hq
    refine ⟨⟨c, h'⟩, hassert'.trans hassert, fun r' hr' => ?_⟩
    rw [hrebuilds] at hr'
    rcases mem_append.mp hr' with hr' | hr'
    · exact hright r' hr'
    · rw [mem_singleton.mp hr']
      exact hr
  | rebuildCut n =>
    have hoff : p.on = false := by
      by_contra hon
      rw [powerStep, if_pos (Bool.not_eq_false _ |>.mp hon)] at hq
      cases hq
    obtain ⟨h', hassert', hrebuilds⟩ := h.rebuildCut hs hoff hcalm hq
    exact ⟨⟨c, h'⟩, hassert'.trans hassert, hrebuilds ▸ hright⟩

end Runs

/-! ### The first start -/

section First

variable {hw : Hw} {s u : Driver} {f : Pages} {bad : ℕ → Bool} {k : Kind} {b q : ℕ}

/-- Blocks erased one after the other. -/
theorem applyAll_erases (bs : List ℕ) (hq : q < nandBlockSize) :
    applyAll (bs.map fun b => .erase (b * nandBlockSize) nandBlockSize) f (pageOf b q) =
      if b ∈ bs then .blank else f (pageOf b q) := by
  induction bs generalizing f with
  | nil => rfl
  | cons b' bs ih =>
    refine (ih (f := (Prim.erase (b' * nandBlockSize) nandBlockSize).apply false f)).trans ?_
    by_cases hmem : b ∈ bs
    · rw [if_pos hmem, if_pos (mem_cons_of_mem _ hmem)]
    · rw [if_neg hmem]
      rcases eq_or_ne b b' with rfl | hne
      · rw [if_pos mem_cons_self]
        exact erase_pageOf hq
      · rw [if_neg fun h => (mem_cons.mp h).elim hne hmem]
        exact erase_pageOf_of_ne hne hq

/-- **The first copy of `BBT`.** -/
theorem updateBbt2Nand_first (hs : hw.Sound) (hread : s.Readable) (hpage : s.bbtCrtPage = invalPageVal)
    (hb : s.bbtBlock s.bbtCrtBlockIdx ≤ tableAreaEnd) :
    updateBbt2Nand hw s = some (Driver.issueAll hw { s with bbtCrtPage := 0 }
      (copyPrims .bbt s.tables.bbt (s.bbtBlock (1 - s.bbtCrtBlockIdx))
        (pageOf (s.bbtBlock s.bbtCrtBlockIdx) 0))) := by
  have hfull : s.bbtFull = false := decide_eq_false fun h => h.2 hpage
  have hadvance : s.bbtAdvance hw = { s with bbtCrtPage := 0 } := by
    rw [Driver.bbtAdvance, if_neg (by rw [hfull]; exact Bool.false_ne_true), if_pos hpage]
  have hwrite : (s.bbtAdvance hw).bbtWrite hw = (.noError,
      Driver.issueAll hw { s with bbtCrtPage := 0 }
        (copyPrims .bbt s.tables.bbt (s.bbtBlock (1 - s.bbtCrtBlockIdx))
          (pageOf (s.bbtBlock s.bbtCrtBlockIdx) 0))) := by
    rw [Driver.bbtWrite, hadvance]
    exact writeCheck_eq (s := { s with bbtCrtPage := 0 }) (q := 0) hs hread hb (by decide) _
  rw [updateBbt2Nand, updateBbtBlock2Nand_of_write (by rw [hwrite]), hwrite, hfull]
  rfl

/-- **The first copy of `RBT`.** -/
theorem updateRbt2Nand_first (hs : hw.Sound) (hread : s.Readable) (hpage : s.rbtCrtPage = invalPageVal)
    (hb : s.rbtBlock s.rbtCrtBlockIdx ≤ tableAreaEnd) :
    updateRbt2Nand hw s = some (Driver.issueAll hw { s with rbtCrtPage := 1 }
      (copyPrims .rbt s.tables.rbt (s.rbtBlock (1 - s.rbtCrtBlockIdx))
        (pageOf (s.rbtBlock s.rbtCrtBlockIdx) 0))) := by
  have hfull : s.rbtFull = false := decide_eq_false fun h => h.2 hpage
  have hadvance : s.rbtAdvance hw = { s with rbtCrtPage := 0 } := by
    rw [Driver.rbtAdvance, if_neg (by rw [hfull]; exact Bool.false_ne_true), if_pos hpage]
  have hwrite : rbtWrite hw (s.rbtBlock s.rbtCrtBlockIdx) (s.rbtBlock (1 - s.rbtCrtBlockIdx))
      rbtPageNum 0 0 { s with rbtCrtPage := 0 } = _ :=
    rbtWrite_eq (s := { s with rbtCrtPage := 0 }) (q := 0) hs hread hb (by decide)
  rw [updateRbt2Nand, updateRbtBlock2Nand_of_write hadvance hwrite, hfull]
  rfl

/-- A block of a fresh chip has no mark. -/
theorem unmarked_fresh (hf : Fresh bad f) : isMarked k.mark (spareOf (f (pageOf b q))) = false := by
  have hspare : spareOf (f (pageOf b q)) 0 = 0xFF := hf.blank _ _ (by decide)
  rw [isMarked, hspare]
  cases k <;> rfl

/-- The first copy of a block leaves the other blocks alone. -/
theorem applyAll_first_of_ne {t : ℕ → ℕ} {pair b' : ℕ} (h : b' ≠ b) (hq : q < nandBlockSize) :
    applyAll (copyPrims k t pair (pageOf b 0)) f (pageOf b' q) = f (pageOf b' q) :=
  applyAll_copyPrims_of_block_ne h hq (by cases k <;> decide)

/-- Where the first copies are. -/
def firstCopies (a₀ a₁ b₀ b₁ : ℕ) (t : Tables) : Kind → Copies
  | .bbt => ⟨a₀, a₁, 0, t.bbt⟩
  | .rbt => ⟨b₀, b₁, 0, t.rbt⟩

/-- **The first copies** in four blocks that have been erased. -/
theorem tablesHold_first {g : Pages} {a₀ a₁ b₀ b₁ : ℕ} (hf : Fresh bad f)
    (horder : tableAreaStart < b₁ ∧ b₁ < b₀ ∧ b₀ < a₁ ∧ a₁ < a₀ ∧ a₀ ≤ tableAreaEnd)
    (hg : ∀ b q, q < nandBlockSize →
      g (pageOf b q) = if b ∈ [a₀, a₁, b₀, b₁] then .blank else f (pageOf b q))
    (hread : ∀ p, (g p).uncorrectable = false) (t : Tables) :
    TablesHold (applyAll (copyPrims .rbt t.rbt b₁ (pageOf b₀ 0))
      (applyAll (copyPrims .bbt t.bbt a₁ (pageOf a₀ 0)) g)) (firstCopies a₀ a₁ b₀ b₁ t) := by
  obtain ⟨ho₁, ho₂, ho₃, ho₄, ho₅⟩ := horder
  have hblank : ∀ b ∈ [a₀, a₁, b₀, b₁], ∀ q < nandBlockSize, g (pageOf b q) = .blank :=
    fun b hb q hq => (hg b q hq).trans (if_pos hb)
  have hleft : ∀ {k : Kind} {t : ℕ → ℕ} {pair b b' q : ℕ} {f : Pages}, b' ≠ b → q < nandBlockSize →
      applyAll (copyPrims k t pair (pageOf b 0)) f (pageOf b' q) = f (pageOf b' q) :=
    applyAll_first_of_ne
  constructor
  · rintro (_ | _)
    · have hbbt : PairHolds .bbt (applyAll (copyPrims .bbt t.bbt a₁ (pageOf a₀ 0)) g)
          ⟨a₀, a₁, 0, t.bbt⟩ :=
        pairHolds_first ⟨by omega, ho₅⟩ ⟨by omega, by omega⟩ (by omega)
          (hblank a₀ (by simp)) (Or.inl (hblank a₁ (by simp) 0 (by decide)))
      refine hbbt.congr (fun q hq => hleft ?_ hq) fun q hq => hleft ?_ hq
      · exact (by omega : a₀ ≠ b₀)
      · exact (by omega : a₁ ≠ b₀)
    · refine pairHolds_first ⟨by omega, by omega⟩ ⟨ho₁, by omega⟩ (by omega) (fun q hq => ?_)
        (Or.inl ?_)
      · exact (hleft (by omega) hq).trans (hblank b₀ (by simp) q hq)
      · exact (hleft (by omega) (by decide)).trans (hblank b₁ (by simp) 0 (by decide))
  · rintro b (rfl | rfl) (h | h)
    · exact (by omega : b ≠ b₀) h
    · exact (by omega : b ≠ b₁) h
    · exact (by omega : b ≠ b₀) h
    · exact (by omega : b ≠ b₁) h
  · intro b _ _ hb k
    have ha₀ : b ≠ a₀ := fun h => hb .bbt (Or.inl h)
    have ha₁ : b ≠ a₁ := fun h => hb .bbt (Or.inr h)
    have hb₀ : b ≠ b₀ := fun h => hb .rbt (Or.inl h)
    have hb₁ : b ≠ b₁ := fun h => hb .rbt (Or.inr h)
    rw [hleft hb₀ (by decide), hleft ha₀ (by decide), hg b 0 (by decide),
      if_neg (by simp [ha₀, ha₁, hb₀, hb₁])]
    exact unmarked_fresh hf
  · exact readable_applyAll _ (readable_applyAll _ hread)

/-- **After the first start** both tables are on the chip, each with one copy. -/
theorem exists_holds_init (hs : hw.Sound) (hf : Fresh bad f)
    (h : nandflashApiInit hw (.start ⟨f, []⟩) = some s) :
    ∃ c, Holds s c ∧ (∀ k, SameWords k (c k).table (s.tables.words k)) ∧
      ∀ k, (c k).last = 0 ∧ s.chip.pages (pageOf (c k).partner 0) = .blank := by
  rw [nandflashApiInit_fresh hf] at h
  obtain ⟨t, -, h⟩ := bind_eq_some_iff.mp h
  obtain ⟨u, hu, h⟩ := bind_eq_some_iff.mp h
  obtain ⟨a₀, a₁, b₀, b₁, htaken⟩ := exists_taken rfl rfl hu
  obtain ⟨ho₁, ho₂, ho₃, ho₄, ho₅⟩ := htaken.order
  obtain ⟨hbbt₀, hbbt₁⟩ := htaken.bbt
  obtain ⟨hrbt₀, hrbt₁⟩ := htaken.rbt
  obtain ⟨hidx, hpage, hidx', hpage'⟩ := htaken.fresh
  -- the four blocks are blank, the others as they were
  have herased : ∀ b q, q < nandBlockSize → u.chip.pages (pageOf b q) =
      if b ∈ [a₀, a₁, b₀, b₁] then .blank else f (pageOf b q) := by
    intro b q hq
    rw [htaken.chip, erase_eq hs (by omega), erase_eq hs (by omega), erase_eq hs (by omega),
      erase_eq hs ho₅, issueAll_issueAll, issueAll_issueAll, issueAll_issueAll, Driver.issueAll,
      (Device.issueAll_of_never hs.never _).1]
    exact applyAll_erases [a₀, a₁, b₀, b₁] hq
  have hread : u.Readable := by
    rw [Driver.Readable, htaken.chip]
    exact readable_erase (readable_erase (readable_erase (readable_erase (s := { Driver.start ⟨f, []⟩
      with tables := t }) hf.correctable _) _) _) _
  have hcur : u.bbtBlock u.bbtCrtBlockIdx = a₀ := (congrArg u.bbtBlock hidx).trans hbbt₀
  have hpartner : u.bbtBlock (1 - u.bbtCrtBlockIdx) = a₁ :=
    (congrArg (fun i => u.bbtBlock (1 - i)) hidx).trans hbbt₁
  have hcur' : u.rbtBlock u.rbtCrtBlockIdx = b₀ := (congrArg u.rbtBlock hidx').trans hrbt₀
  have hpartner' : u.rbtBlock (1 - u.rbtCrtBlockIdx) = b₁ :=
    (congrArg (fun i => u.rbtBlock (1 - i)) hidx').trans hrbt₁
  obtain ⟨v, hv⟩ : ∃ v, v = Driver.issueAll hw { u with bbtCrtPage := 0 }
    (copyPrims .bbt u.tables.bbt a₁ (pageOf a₀ 0)) := ⟨_, rfl⟩
  have hbbt : updateBbt2Nand hw u = some v := by
    rw [updateBbt2Nand_first hs hread hpage (by rw [hcur]; exact ho₅), hcur, hpartner, hv]
  have hvread : v.Readable := by
    rw [hv]
    exact readable_issueAll (s := { u with bbtCrtPage := 0 }) hs hread _
  have hrbt : updateRbt2Nand hw v = some (Driver.issueAll hw { v with rbtCrtPage := 1 }
      (copyPrims .rbt u.tables.rbt b₁ (pageOf b₀ 0))) := by
    have hv₀ : v.rbtBlock v.rbtCrtBlockIdx = b₀ := by
      rw [hv]
      exact hcur'
    have hv₁ : v.rbtBlock (1 - v.rbtCrtBlockIdx) = b₁ := by
      rw [hv]
      exact hpartner'
    have hvtables : v.tables = u.tables := by rw [hv]; rfl
    have hvpage : v.rbtCrtPage = invalPageVal := by
      rw [hv]
      exact hpage'
    rw [updateRbt2Nand_first hs hvread hvpage (by rw [hv₀]; omega), hv₀, hv₁, hvtables]
  rw [Driver.saveTables, hbbt] at h
  have hs' := Option.some.inj (hrbt.symm.trans h)
  have hchip : s.chip.pages = applyAll (copyPrims .rbt u.tables.rbt b₁ (pageOf b₀ 0))
      (applyAll (copyPrims .bbt u.tables.bbt a₁ (pageOf a₀ 0)) u.chip.pages) := by
    rw [← hs', Driver.issueAll, (Device.issueAll_of_never hs.never _).1, hv, Driver.issueAll]
    exact congrArg _ (Device.issueAll_of_never hs.never _).1
  refine ⟨firstCopies a₀ a₁ b₀ b₁ u.tables, ⟨?_, ?_, ?_, ?_, ?_, ?_, ?_⟩, ?_, ?_⟩
  · rw [hchip]
    exact tablesHold_first hf htaken.order herased hread u.tables
  · rw [← hs', hv]
    exact hcur
  · rw [← hs', hv]
    exact hpartner
  · rw [← hs', hv]
    rfl
  · rw [← hs', hv]
    exact hcur'
  · rw [← hs', hv]
    exact hpartner'
  · rw [← hs']
    rfl
  · rw [← hs', hv]
    rintro (_ | _)
    · exact SameWords.refl _ _
    · exact SameWords.refl _ _
  · rw [hchip]
    rintro (_ | _)
    · refine ⟨rfl, ?_⟩
      change applyAll _ _ (pageOf a₁ 0) = _
      rw [applyAll_first_of_ne (by omega) (by decide), applyAll_first_of_ne (by omega) (by decide),
        herased a₁ 0 (by decide), if_pos (by simp)]
    · refine ⟨rfl, ?_⟩
      change applyAll _ _ (pageOf b₁ 0) = _
      rw [applyAll_first_of_ne (by omega) (by decide), applyAll_first_of_ne (by omega) (by decide),
        herased b₁ 0 (by decide), if_pos (by simp)]

end First

/-! ### The tables after every power cut -/

section PowerCut

variable {hw : Hw} {s s₀ : Driver} {f g : Pages} {bad : ℕ → Bool} {c : Kind → Copies} {d : Copies}
  {k : Kind} {p : PowerState} {events : List PowerEvent}

/-- A driver that has been started. -/
theorem powerHolds_start (h : Holds s c) (ht : ∀ k, SameWords k (c k).table (s.tables.words k)) :
    PowerHolds (.start s) c :=
  ⟨h.chip, fun k => Or.inl (ht k), fun _ => ⟨h, ht⟩⟩

/-- **The tables survive power cuts.** On a chip on which nothing fails and the page numbers fit, and
whatever updates, power cuts and searches there have been: when no cut comes between the two pages of
a copy of `RBT`, and no search meets a full block whose partner has several copies, no assertion
fails, and every search loads the tables that were written last or were in progress. -/
theorem powerCut_calm (hs : hw.Sound) (hf : Fresh bad f)
    (h₀ : nandflashApiInit hw (.start ⟨f, []⟩) = some s₀)
    (hrun : Machine.run (powerStep hw) events (.start s₀) = some p)
    (hcalm : Machine.Meets (powerStep hw) PowerEvent.Calm events (.start s₀)) : p.Right := by
  obtain ⟨c, hholds, ht, -⟩ := exists_holds_init hs hf h₀
  have hstart : (∃ c, PowerHolds (.start s₀) c) ∧ (PowerState.start s₀).Right :=
    ⟨⟨c, powerHolds_start hholds ht⟩, rfl, nofun⟩
  exact ((Machine.Reach.of_run_of_meets hrun hcalm).invariant hstart
    fun h hok hi => powerHolds_step hs h hok hi).2

/-- A chip whose page numbers fit, and nothing fails. -/
def hw17 : Hw := ⟨17, fun _ => false⟩

theorem sound_hw17 : hw17.Sound := ⟨le_rfl, fun _ => rfl⟩

/-- After the start of a blank chip, a cut in front of an update, and the search. -/
theorem powerCut_blank : ∃ s₀ p, nandflashApiInit hw17 (.start ⟨fun _ => .blank, []⟩) = some s₀ ∧
    Machine.run (powerStep hw17) [.cut .bbt (fun _ => 0) 0, .rebuild] (.start s₀) = some p ∧
      p.Right := by
  obtain ⟨s₀, h₀⟩ := exists_init_blank hw17 fun _ => rfl
  obtain ⟨c, hholds, ht, hfirst⟩ := exists_holds_init sound_hw17 fresh_blank h₀
  have hholds' := powerHolds_start hholds ht
  obtain ⟨s₁, hcut, -, hpages⟩ := exists_cut sound_hw17 hholds' rfl .bbt (fun _ => 0) 0
  obtain ⟨q, hq⟩ : ∃ q, q = (PowerState.start s₀).cut .bbt (fun _ => 0) 0 s₁ := ⟨_, rfl⟩
  rw [← hq] at hcut hpages
  have hoff : q.on = false := by rw [hq, on_cut]
  -- the blocks of the tables have one copy each
  have hone : ∀ k, OneCopy k q.driver.chip.pages := fun k => by
    rw [hpages]
    exact (hholds.chip.table k).oneCopy (Or.inl (hfirst k).2)
  have htables : TablesHold q.driver.chip.pages c := by
    rw [hpages]
    exact hholds.chip
  obtain ⟨s₂, hrebuild, -⟩ := rebuildBbtrbt_eq (s := .start q.driver.chip) sound_hw17 htables hone
  have hstep : powerStep hw17 .rebuild q = some (q.found s₂) := by
    rw [powerStep, if_neg (by rw [hoff]; exact Bool.false_ne_true), hrebuild]
  have hrun : Machine.run (powerStep hw17) [.cut .bbt (fun _ => 0) 0, .rebuild] (.start s₀) =
      some (q.found s₂) := by
    rw [Machine.run, hcut, bind_some, Machine.run, hstep, bind_some, Machine.run]
  refine ⟨s₀, _, h₀, hrun, powerCut_calm sound_hw17 fresh_blank h₀ hrun
    ⟨fun hrbt => absurd hrbt.1 (by decide), fun q' hq' => ?_⟩⟩
  obtain rfl := Option.some.inj (hcut.symm.trans hq')
  exact ⟨hone, fun _ _ => trivial⟩

/-- **A cut between the two pages of a copy of `RBT`**: the search finds an odd number of pages, and
the assertion fails. -/
theorem rebuildBbtrbt_halfCopy (hs : hw.Sound) (h : TablesHold f c)
    (hres : Resolved .bbt f (c .bbt)) (hblank : f (pageOf (c .rbt).partner 0) = .blank)
    (hroom : Kind.rbt.span * ((c .rbt).last + 2) ≤ nandBlockSize) {t : ℕ → ℕ}
    (hpages : s.chip.pages = applyAll ((updatePrims .rbt (c .rbt) t).take 1) f) :
    rebuildBbtrbt hw s = none := by
  have hpair := h.pair .rbt
  have hspan : Kind.rbt.span * ((c .rbt).last + 1) = 2 * ((c .rbt).last + 1) := rfl
  have hlt : 2 * ((c .rbt).last + 1) + 1 < nandBlockSize := by
    rw [show Kind.rbt.span * ((c .rbt).last + 2) = 2 * ((c .rbt).last + 2) from rfl] at hroom
    omega
  -- only the first page of the copy has been written
  have hprims : (updatePrims .rbt (c .rbt) t).take 1 = [.program
      (pageOf (c .rbt).cur (2 * ((c .rbt).last + 1))) 0 nandPageTotalSize
      (Kind.buffer t (c .rbt).partner .rbt 0)] := by
    rw [updatePrims, if_pos hroom]
    rfl
  rw [hprims] at hpages
  have hsame : ∀ {x : ℕ}, x ≠ pageOf (c .rbt).cur (2 * ((c .rbt).last + 1)) →
      s.chip.pages x = f x := fun hx => by
    rw [hpages]
    exact apply_program_of_ne hx
  have hhalf : s.chip.pages (pageOf (c .rbt).cur (2 * ((c .rbt).last + 1))) =
      Kind.rbt.page t (c .rbt).partner 0 := by
    rw [hpages]
    refine apply_program_self.trans ?_
    rw [hpair.blank _ (le_of_eq hspan) (by omega)]
    rfl
  have hzero : ∀ b, s.chip.pages (pageOf b 0) = f (pageOf b 0) := fun b => hsame fun heq => by
    simp only [pageOf, nandBlockSize] at heq hlt
    omega
  have hread : s.Readable := by
    rw [Driver.Readable, hpages]
    exact readable_applyAll _ h.readable
  have hbbtPair := h.pair .bbt
  have hne : ∀ {b : ℕ}, (c .bbt).Has b → b ≠ (c .rbt).cur := fun hb heq =>
    h.apart _ hb (Or.inl heq)
  -- so `BBT` is found
  have hbbt : TableHolds .bbt s.chip.pages (c .bbt) := by
    refine ⟨hbbtPair.congr (fun q hq => hsame ?_) fun q hq => hsame ?_, fun b hlo hhi hmark => ?_,
      hread⟩
    · exact pageOf_ne (hne (Or.inl rfl)) hq (by omega)
    · exact pageOf_ne (hne (Or.inr rfl)) hq (by omega)
    · rw [markedAt, hzero] at hmark
      exact (h.table .bbt).only b hlo hhi hmark
  obtain ⟨b, s₁, hfind, hrun, -, hchip⟩ := rebuildBbt_eq hs hbbt (by rw [Resolved, hzero]; exact hres)
  have hkept : (∀ q < nandBlockSize, s₁.chip.pages (pageOf (c .rbt).cur q) =
      s.chip.pages (pageOf (c .rbt).cur q)) ∧ s₁.Readable ∧
      ∀ x, s₁.chip.pages x = s.chip.pages x ∨ s₁.chip.pages x = .blank := by
    rcases hchip with hchip | hchip
    · rw [Driver.Readable, hchip]
      exact ⟨fun _ _ => rfl, hread, fun _ => Or.inl rfl⟩
    · rw [Driver.Readable, hchip, Driver.issueAll, (Device.issueAll_of_never hs.never _).1]
      refine ⟨fun q hq => erase_pageOf_of_ne (hne (Or.inr rfl)).symm hq,
        readable_applyAll _ hread, fun x => ?_⟩
      by_cases hx : (c .bbt).partner * nandBlockSize ≤ x ∧
          x < (c .bbt).partner * nandBlockSize + nandBlockSize
      · exact Or.inr (apply_erase_of_mem hx)
      · exact Or.inl (apply_erase_of_notMem hx)
  obtain ⟨hcur, hread₁, hor⟩ := hkept
  have hcopy : ∀ q, q < 2 * ((c .rbt).last + 1) → markedAt .rbt s.chip.pages (c .rbt).cur q = true := by
    intro q hq
    rw [markedAt, hsame (by simp only [pageOf]; omega)]
    exact (hpair.copies q hq).marked
  -- and so is the block of `RBT`
  have hfirst : FoundFirst .rbt s₁.chip.pages (c .rbt).cur := by
    obtain ⟨hlo, hhi, -, hnone⟩ := (h.table .rbt).foundFirst_cur (Or.inl hblank)
    refine ⟨hlo, hhi, ?_, fun b hb hle => ?_⟩
    · rw [markedAt, hcur 0 (by decide)]
      exact hcopy 0 (by omega)
    · rcases hor (pageOf b 0) with heq | heq
      · rw [markedAt, heq, hzero]
        exact hnone b hb hle
      · exact markedAt_blank heq
  have hlast : lastMarkedPage hw markRbt s₁ (c .rbt).cur nandBlockSize =
      some (2 * ((c .rbt).last + 1)) := by
    refine lastMarkedPage_eq (k := .rbt) hs hread₁ hpair.curArea.2 (by omega) le_rfl ?_
      fun q hq hq' => ?_
    · rw [markedAt, hcur _ (by omega), hhalf, isMarked_page]
      rfl
    · rw [markedAt, hcur q hq', hsame (by simp only [pageOf]; omega)]
      exact markedAt_blank (hpair.blank q (by rw [hspan]; omega) hq')
  have hodd : (2 * ((c .rbt).last + 1) + 1) % rbtPageNum ≠ 0 := by
    simp only [rbtPageNum]
    omega
  have hrbt : rebuildRbt hw (c .rbt).cur s₁ = none := by
    simp only [rebuildRbt, hlast, bind_eq_bind, bind_some, if_pos hodd]
  have hfind' : findTable hw markRbt s₁ tableAreaEnd = some (c .rbt).cur :=
    findTable_eq (k := .rbt) hs hread₁ hfirst hpair.curArea.2 le_rfl
  rw [rebuildBbtrbt, hfind]
  simp only [hrun, hfind', hrbt, bind_eq_bind, bind_some, map_none]

/-- **The tables do not survive every power cut**: after the start of a blank chip, one between the
two pages of a copy of `RBT`. -/
theorem not_powerCut : ¬∀ (hw : Hw), hw.Sound → ∀ (bad : ℕ → Bool) (f : Pages), Fresh bad f →
    ∀ s₀, nandflashApiInit hw (.start ⟨f, []⟩) = some s₀ → ∀ (events : List PowerEvent) p,
      Machine.run (powerStep hw) events (.start s₀) = some p → p.Right := by
  intro hall
  obtain ⟨s₀, h₀⟩ := exists_init_blank hw17 fun _ => rfl
  obtain ⟨c, hholds, ht, hfirst⟩ := exists_holds_init sound_hw17 fresh_blank h₀
  have hholds' := powerHolds_start hholds ht
  obtain ⟨s₁, hcut, -, hpages⟩ := exists_cut sound_hw17 hholds' rfl .rbt (fun _ => 0) 1
  obtain ⟨q, hq⟩ : ∃ q, q = (PowerState.start s₀).cut .rbt (fun _ => 0) 1 s₁ := ⟨_, rfl⟩
  rw [← hq] at hcut hpages
  have hoff : q.on = false := by rw [hq, on_cut]
  have hnone : rebuildBbtrbt hw17 (.start q.driver.chip) = none :=
    rebuildBbtrbt_halfCopy sound_hw17 hholds.chip (Or.inl (hfirst .bbt).2) (hfirst .rbt).2
      (by rw [(hfirst .rbt).1]; decide) hpages
  have hstep : powerStep hw17 .rebuild q = some q.stop := by
    rw [powerStep, if_neg (by rw [hoff]; exact Bool.false_ne_true), hnone]
  have hrun : Machine.run (powerStep hw17) [.cut .rbt (fun _ => 0) 1, .rebuild] (.start s₀) =
      some q.stop := by
    rw [Machine.run, hcut, bind_some, Machine.run, hstep, bind_some, Machine.run]
  obtain ⟨hassert, -⟩ := hall hw17 sound_hw17 _ _ fresh_blank s₀ h₀ _ _ hrun
  cases hassert

end PowerCut

end Gd32.Nand
