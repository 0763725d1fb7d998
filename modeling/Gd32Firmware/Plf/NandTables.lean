import Gd32Firmware.Config
import Gd32Firmware.Lib.Loop
import Gd32Firmware.Lib.Machine
import Mathlib.Data.List.Nodup
import Mathlib.Data.Nat.Basic
import Mathlib.Logic.Function.Basic

/-!
# The replacement tables of the NAND flash

`nand_flash_api.c` records the bad blocks in `BBT` and the block that stands for each user block in
`RBT`. Replacement blocks are handed out from the end of their area downwards, `last_valid_rep_block`
being the next to be tried. This module has the part of the driver that works on these tables alone;
what the chip reports about its blocks comes in from outside.

A failed `PLF_ASSERT_ERR` never returns; the functions then have no result.
-/

namespace Gd32.Nand

open Function List Option Bool

/-! ### The areas -/

def userAreaEnd : ℕ := 1899

def replaceBlockAreaStart : ℕ := 1900

def replaceBlockAreaEnd : ℕ := 1997

def tableAreaStart : ℕ := 1998

def tableAreaEnd : ℕ := 2047

def bbtBadNumIdx : ℕ := 0

def bbtLastRepValidIdx : ℕ := 1

def bbtLastTabValidIdx : ℕ := 2

def bbtStartBadIdx : ℕ := 3

def bbtMaxRecBbNum : ℕ := 197

/-! ### The tables -/

/-- The static variables of the tables. -/
structure Tables where
  bbt : ℕ → ℕ
  rbt : ℕ → ℕ
  badBlockNum : ℕ
  lastValidRepBlock : ℕ
  lastValidTabBlock : ℕ

/-- The static variables at the start of the program. -/
def Tables.zero : Tables := ⟨fun _ => 0, fun _ => 0, 0, 0, 0⟩

def checkIsInBbt (t : Tables) (blockNo : ℕ) : Bool :=
  (List.range t.badBlockNum).any fun i => t.bbt (bbtStartBadIdx + i) == blockNo

/-- The block that user accesses go to. -/
def currentTarget (t : Tables) (blockNo : ℕ) : ℕ :=
  if checkIsInBbt t blockNo then t.rbt blockNo else blockNo

/-- A block more in the list of the bad blocks. -/
def Tables.push (t : Tables) (blockNo : ℕ) : Tables :=
  { t with
    badBlockNum := t.badBlockNum + 1
    bbt := update t.bbt (bbtStartBadIdx + (t.badBlockNum + 1) - 1) blockNo }

/-- `BBT[BBT_BAD_NUM_IDX] = bad_block_num`. -/
def Tables.saveBadNum (t : Tables) : Tables :=
  { t with bbt := update t.bbt bbtBadNumIdx t.badBlockNum }

/-- `BBT[BBT_LAST_REP_VALID_IDX] = last_valid_rep_block`. -/
def Tables.saveLastRep (t : Tables) : Tables :=
  { t with bbt := update t.bbt bbtLastRepValidIdx t.lastValidRepBlock }

/-- The loop of `update_bb_2_bbtrbt`: the block found, if any, and where `last_valid_rep_block`
ends. -/
def searchReplace (t : Tables) : ℕ → Option ℕ × ℕ
  | 0 => (none, 0)
  | n + 1 =>
    if replaceBlockAreaStart ≤ n + 1 then
      if checkIsInBbt t (n + 1) then searchReplace t n else (some (n + 1), n)
    else (none, n + 1)

/-- The second half of `update_bb_2_bbtrbt`, once the bad block has been recorded. -/
def replaceUser (userBlockNo : ℕ) (t : Tables) : Option (Bool × Tables) :=
  if t.lastValidRepBlock < replaceBlockAreaStart then none
  else
    match searchReplace t t.lastValidRepBlock with
    | (some r, last) =>
      some (true, { t with
        rbt := update t.rbt userBlockNo r
        lastValidRepBlock := last }.saveLastRep)
    | (none, last) => some (false, { t with lastValidRepBlock := last }.saveLastRep)

def updateBb2Bbtrbt (userBlockNo oldReplaceBlockNo : ℕ) (t : Tables) : Option (Bool × Tables) :=
  if userAreaEnd < userBlockNo then some (false, t)
  else if checkIsInBbt t userBlockNo = false then
    if userBlockNo ≠ oldReplaceBlockNo then none
    else if bbtMaxRecBbNum ≤ t.badBlockNum then some (false, t)
    else replaceUser userBlockNo (t.push userBlockNo).saveBadNum
  else if userBlockNo = oldReplaceBlockNo then none
  else if ¬(replaceBlockAreaStart ≤ oldReplaceBlockNo ∧
      oldReplaceBlockNo ≤ replaceBlockAreaEnd) then none
  else if checkIsInBbt t oldReplaceBlockNo then none
  else if bbtMaxRecBbNum ≤ t.badBlockNum then none
  else replaceUser userBlockNo (t.push oldReplaceBlockNo).saveBadNum

/-- The loop of `find_alloc_a_new_table_block`. -/
def searchTable (t : Tables) : ℕ → ℕ
  | 0 => 0
  | n + 1 =>
    if tableAreaStart < n + 1 then if checkIsInBbt t (n + 1) then searchTable t n else n + 1
    else n + 1

/-- `find_alloc_a_new_table_block`; `block_no - 1` is stored in 16 bits. -/
def findAllocANewTableBlock (t : Tables) : ℕ × Tables :=
  let blockNo := searchTable t t.lastValidTabBlock
  let last := if blockNo = tableAreaStart then blockNo else (blockNo + 2 ^ 16 - 1) % 2 ^ 16
  (if blockNo = tableAreaStart then 0xFFFF else blockNo,
    { t with
      lastValidTabBlock := last
      bbt := update t.bbt bbtLastTabValidIdx last })

/-- One pass of the first loop of `scan_all_2_build_bbtrbt`. -/
def scanRecord (bad : ℕ → Bool) (blockNo : ℕ) (t : Tables) : Option Tables :=
  if bad blockNo then if bbtMaxRecBbNum ≤ t.badBlockNum then none else some (t.push blockNo)
  else some t

/-- The inner loop of `scan_all_2_build_bbtrbt`: the block it ends at. Below the area the assertion
fails. -/
def scanSkip (t : Tables) : ℕ → Option ℕ
  | 0 => if checkIsInBbt t 0 then none else some 0
  | n + 1 =>
    if checkIsInBbt t (n + 1) then if n < replaceBlockAreaStart then none else scanSkip t n
    else some (n + 1)

/-- One pass of the second loop of `scan_all_2_build_bbtrbt`. -/
def scanReplace (blockNo : ℕ) (t : Tables) : Option Tables :=
  if replaceBlockAreaStart ≤ t.lastValidRepBlock ∧ checkIsInBbt t blockNo then
    (scanSkip t t.lastValidRepBlock).map fun r =>
      { t with rbt := update t.rbt blockNo r, lastValidRepBlock := r - 1 }
  else if t.lastValidRepBlock < replaceBlockAreaStart then none
  else some { t with rbt := update t.rbt blockNo blockNo }

/-- `scan_all_2_build_bbtrbt`, which returns only with `true`. -/
def scanAll2BuildBbtrbt (bad : ℕ → Bool) (t : Tables) : Option Tables :=
  (Loop.counted (scanRecord bad) (tableAreaEnd + 1) t).bind fun t =>
    (Loop.counted scanReplace (userAreaEnd + 1)
      { t.saveBadNum with lastValidRepBlock := replaceBlockAreaEnd }).map Tables.saveLastRep

/-! ### The recorded blocks -/

section Recorded

variable {t u : Tables} {b c n r m : ℕ}

theorem checkIsInBbt_iff :
    checkIsInBbt t b = true ↔ ∃ i < t.badBlockNum, t.bbt (bbtStartBadIdx + i) = b := by
  simp only [checkIsInBbt, List.any_eq_true, mem_range, beq_iff_eq]

/-- Only the list itself matters. -/
theorem checkIsInBbt_congr (hnum : t.badBlockNum = u.badBlockNum)
    (hbbt : ∀ i, t.bbt (bbtStartBadIdx + i) = u.bbt (bbtStartBadIdx + i)) (b : ℕ) :
    checkIsInBbt t b = checkIsInBbt u b := by
  simp only [checkIsInBbt, hnum, hbbt]

theorem saveBadNum_bbt (i : ℕ) :
    t.saveBadNum.bbt (bbtStartBadIdx + i) = t.bbt (bbtStartBadIdx + i) :=
  update_of_ne (by simp [bbtStartBadIdx, bbtBadNumIdx]) _ _

theorem saveLastRep_bbt (i : ℕ) :
    t.saveLastRep.bbt (bbtStartBadIdx + i) = t.bbt (bbtStartBadIdx + i) :=
  update_of_ne (by simp only [bbtStartBadIdx, bbtLastRepValidIdx]; omega) _ _

@[simp] theorem checkIsInBbt_saveBadNum : checkIsInBbt t.saveBadNum b = checkIsInBbt t b :=
  checkIsInBbt_congr (t := t.saveBadNum) (u := t) rfl saveBadNum_bbt b

@[simp] theorem checkIsInBbt_saveLastRep : checkIsInBbt t.saveLastRep b = checkIsInBbt t b :=
  checkIsInBbt_congr (t := t.saveLastRep) (u := t) rfl saveLastRep_bbt b

@[simp] theorem checkIsInBbt_last :
    checkIsInBbt { t with lastValidRepBlock := n } b = checkIsInBbt t b := rfl

theorem push_bbt_last : (t.push b).bbt (bbtStartBadIdx + t.badBlockNum) = b :=
  update_self _ _ _

theorem push_bbt_of_lt {i : ℕ} (hi : i < t.badBlockNum) :
    (t.push b).bbt (bbtStartBadIdx + i) = t.bbt (bbtStartBadIdx + i) :=
  update_of_ne (by omega) _ _

@[simp] theorem checkIsInBbt_push :
    checkIsInBbt (t.push b) c = true ↔ checkIsInBbt t c = true ∨ c = b := by
  simp only [checkIsInBbt_iff]
  constructor
  · rintro ⟨i, hi, hc⟩
    rcases Nat.lt_succ_iff_lt_or_eq.mp hi with hlt | rfl
    · rw [push_bbt_of_lt hlt] at hc
      exact Or.inl ⟨i, hlt, hc⟩
    · rw [push_bbt_last] at hc
      exact Or.inr hc.symm
  · rintro (⟨i, hi, hc⟩ | rfl)
    · exact ⟨i, Nat.lt_succ_of_lt hi, by rw [push_bbt_of_lt hi, hc]⟩
    · exact ⟨t.badBlockNum, Nat.lt_succ_self _, push_bbt_last⟩

/-- The recorded blocks are pairwise distinct. -/
def Tables.Distinct (t : Tables) : Prop :=
  ∀ i < t.badBlockNum, ∀ j < t.badBlockNum,
    t.bbt (bbtStartBadIdx + i) = t.bbt (bbtStartBadIdx + j) → i = j

theorem Tables.Distinct.congr (h : t.Distinct) (hnum : t.badBlockNum = u.badBlockNum)
    (hbbt : ∀ i, t.bbt (bbtStartBadIdx + i) = u.bbt (bbtStartBadIdx + i)) : u.Distinct := by
  intro i hi j hj hij
  rw [← hbbt, ← hbbt] at hij
  exact h i (hnum ▸ hi) j (hnum ▸ hj) hij

theorem Tables.Distinct.push (h : t.Distinct) (hb : checkIsInBbt t b = false) :
    (t.push b).Distinct := by
  have hnew : ∀ i < t.badBlockNum, t.bbt (bbtStartBadIdx + i) ≠ b := by
    intro i hi hib
    rw [checkIsInBbt_iff.mpr ⟨i, hi, hib⟩] at hb
    cases hb
  intro i hi j hj hij
  rcases Nat.lt_succ_iff_lt_or_eq.mp hi with hi | rfl <;>
    rcases Nat.lt_succ_iff_lt_or_eq.mp hj with hj | rfl
  · rw [push_bbt_of_lt hi, push_bbt_of_lt hj] at hij
    exact h i hi j hj hij
  · rw [push_bbt_of_lt hi, push_bbt_last] at hij
    exact absurd hij (hnew i hi)
  · rw [push_bbt_of_lt hj, push_bbt_last] at hij
    exact absurd hij.symm (hnew j hj)
  · rfl

/-! ### The searches -/

/-- **A block found** is a block of the area that has not been recorded. -/
theorem searchReplace_some (h : searchReplace t n = (some r, m)) :
    r = m + 1 ∧ replaceBlockAreaStart ≤ r ∧ r ≤ n ∧ checkIsInBbt t r = false := by
  induction n with
  | zero => cases h
  | succ n ih =>
    rw [searchReplace] at h
    split_ifs at h with harea hbad
    · obtain ⟨hr, hstart, hle, hgood⟩ := ih h
      exact ⟨hr, hstart, Nat.le_succ_of_le hle, hgood⟩
    · cases h
      exact ⟨rfl, harea, le_rfl, eq_false_iff.mpr hbad⟩
    · cases h

/-- **Nothing is found** when all blocks that are left have been recorded. -/
theorem searchReplace_none (h : searchReplace t n = (none, m)) :
    m < replaceBlockAreaStart ∧ m ≤ n ∧
      ∀ r ≤ n, replaceBlockAreaStart ≤ r → checkIsInBbt t r = true := by
  induction n with
  | zero =>
    cases h
    exact ⟨by decide, le_rfl, fun r hr hstart => absurd (le_trans hstart hr) (by decide)⟩
  | succ n ih =>
    rw [searchReplace] at h
    split_ifs at h with harea hbad
    · obtain ⟨hm, hle, hall⟩ := ih h
      refine ⟨hm, Nat.le_succ_of_le hle, fun r hr hstart => ?_⟩
      rcases Nat.le_succ_iff.mp hr with hr | rfl
      · exact hall r hr hstart
      · exact hbad
    · cases h
    · cases h
      exact ⟨by omega, le_rfl, fun r hr hstart => absurd (le_trans hstart hr) harea⟩

theorem scanSkip_some (hn : replaceBlockAreaStart ≤ n) (h : scanSkip t n = some r) :
    replaceBlockAreaStart ≤ r ∧ r ≤ n ∧ checkIsInBbt t r = false := by
  induction n with
  | zero => exact absurd hn (by decide)
  | succ n ih =>
    rw [scanSkip] at h
    split_ifs at h with hbad hlow
    · obtain ⟨hstart, hle, hgood⟩ := ih (not_lt.mp hlow) h
      exact ⟨hstart, Nat.le_succ_of_le hle, hgood⟩
    · obtain rfl := Option.some.inj h
      exact ⟨hn, le_rfl, eq_false_iff.mpr hbad⟩

end Recorded

/-! ### What the tables say -/

/-- The tables are right about the user blocks that satisfy `p`. -/
structure Tables.Assigned (t : Tables) (p : ℕ → Prop) : Prop where
  user : ∀ b, p b → b ≤ userAreaEnd
  /-- The recorded blocks are pairwise distinct. -/
  distinct : t.Distinct
  few : t.badBlockNum ≤ bbtMaxRecBbNum
  /-- The next replacement block to be tried is not above the area. -/
  inArea : t.lastValidRepBlock ≤ replaceBlockAreaEnd
  /-- A user block that has not been recorded stands for itself. -/
  good : ∀ b, p b → checkIsInBbt t b = false → t.rbt b = b
  /-- One that has been recorded has a replacement block that has not. -/
  target : ∀ b, p b → checkIsInBbt t b = true →
    replaceBlockAreaStart ≤ t.rbt b ∧ t.rbt b ≤ replaceBlockAreaEnd ∧
      checkIsInBbt t (t.rbt b) = false
  /-- No other user block has this replacement block. -/
  apart : ∀ b c, p b → p c → checkIsInBbt t b = true → b ≠ c → t.rbt b ≠ t.rbt c
  /-- The replacement blocks that have not been tried are below. -/
  below : ∀ b, p b → checkIsInBbt t b = true → t.lastValidRepBlock < t.rbt b

/-- **The tables are right**: about all user blocks, and `BBT` has `last_valid_rep_block`. -/
structure Tables.Right (t : Tables) : Prop where
  assigned : t.Assigned (· ≤ userAreaEnd)
  /-- What is stored on the chip with `BBT` is `last_valid_rep_block`. -/
  saved : t.lastValidRepBlock = t.bbt bbtLastRepValidIdx

section Assigned

variable {t u : Tables} {p q : ℕ → Prop} {b x r m : ℕ}

theorem Tables.Assigned.mono (h : t.Assigned p) (hq : ∀ c, q c → p c) : t.Assigned q where
  user c hc := h.user c (hq c hc)
  distinct := h.distinct
  few := h.few
  inArea := h.inArea
  good c hc := h.good c (hq c hc)
  target c hc := h.target c (hq c hc)
  apart c d hc hd := h.apart c d (hq c hc) (hq d hd)
  below c hc := h.below c (hq c hc)

/-- The first three entries of `BBT` do not matter. -/
theorem Tables.Assigned.congr (h : t.Assigned p) (hnum : t.badBlockNum = u.badBlockNum)
    (hbbt : ∀ i, t.bbt (bbtStartBadIdx + i) = u.bbt (bbtStartBadIdx + i)) (hrbt : t.rbt = u.rbt)
    (hlast : t.lastValidRepBlock = u.lastValidRepBlock) : u.Assigned p := by
  have hcheck := checkIsInBbt_congr hnum hbbt
  constructor
  · exact h.user
  · exact h.distinct.congr hnum hbbt
  · exact hnum ▸ h.few
  · exact hlast ▸ h.inArea
  · simpa only [hcheck, hrbt] using h.good
  · simpa only [hcheck, hrbt] using h.target
  · simpa only [hcheck, hrbt] using h.apart
  · simpa only [hcheck, hrbt, hlast] using h.below

theorem Tables.Assigned.saveBadNum (h : t.Assigned p) : t.saveBadNum.Assigned p :=
  h.congr rfl (fun i => (saveBadNum_bbt i).symm) rfl rfl

theorem Tables.Assigned.saveLastRep (h : t.Assigned p) : t.saveLastRep.Assigned p :=
  h.congr rfl (fun i => (saveLastRep_bbt i).symm) rfl rfl

/-- **Recording** a block that no user block stands for changes nothing else. -/
theorem Tables.Assigned.push (h : t.Assigned p) (hx : checkIsInBbt t x = false)
    (hroom : t.badBlockNum < bbtMaxRecBbNum) (hp : ∀ c, p c → c ≠ x ∧ t.rbt c ≠ x) :
    (t.push x).Assigned p := by
  have hold : ∀ c, p c → (checkIsInBbt (t.push x) c = true ↔ checkIsInBbt t c = true) := by
    intro c hc
    rw [checkIsInBbt_push]
    exact or_iff_left (hp c hc).1
  constructor
  · exact h.user
  · exact h.distinct.push hx
  · exact hroom
  · exact h.inArea
  · intro c hc hgood
    refine h.good c hc (eq_false_iff.mpr fun hbad => ?_)
    rw [(hold c hc).mpr hbad] at hgood
    cases hgood
  · intro c hc hbad
    obtain ⟨hstart, hend, hgood⟩ := h.target c hc ((hold c hc).mp hbad)
    refine ⟨hstart, hend, eq_false_iff.mpr fun hnew => ?_⟩
    rcases checkIsInBbt_push.mp hnew with hnew | hnew
    · exact false_ne_true (hgood.symm.trans hnew)
    · exact (hp c hc).2 hnew
  · exact fun c d hc hd hbad => h.apart c d hc hd ((hold c hc).mp hbad)
  · exact fun c hc hbad => h.below c hc ((hold c hc).mp hbad)

/-- **A replacement block is given** to a recorded user block: one that has not been tried yet. -/
theorem Tables.Assigned.replace (h : t.Assigned p) (hb : checkIsInBbt t b = true)
    (huser : b ≤ userAreaEnd) (hr : r = m + 1) (hstart : replaceBlockAreaStart ≤ r)
    (hle : r ≤ t.lastValidRepBlock) (hgood : checkIsInBbt t r = false)
    (hq : ∀ c, q c → c = b ∨ p c) :
    { t with rbt := update t.rbt b r, lastValidRepBlock := m }.Assigned q := by
  have hlow : ∀ c, p c → r ≠ t.rbt c := by
    intro c hc
    have hcu := h.user c hc
    cases hcb : checkIsInBbt t c with
    | false =>
      rw [h.good c hc hcb]
      simp only [userAreaEnd, replaceBlockAreaStart] at hcu hstart
      omega
    | true => exact ne_of_lt (lt_of_le_of_lt hle (h.below c hc hcb))
  have hother : ∀ c, q c → c ≠ b → p c := fun c hc hne => (hq c hc).resolve_left hne
  have hrbt : ∀ c, c ≠ b → update t.rbt b r c = t.rbt c :=
    fun c hne => update_of_ne hne _ _
  have hself : update t.rbt b r b = r := update_self _ _ _
  have hend := le_trans hle h.inArea
  constructor
  · intro c hc
    rcases hq c hc with rfl | hc
    · exact huser
    · exact h.user c hc
  · exact h.distinct
  · exact h.few
  · exact le_trans (Nat.le_of_succ_le (le_of_eq hr.symm)) hend
  · intro c hc hcg
    have hne : c ≠ b := by
      rintro rfl
      exact false_ne_true (hcg.symm.trans hb)
    exact (hrbt c hne).trans (h.good c (hother c hc hne) hcg)
  · intro c hc hcb
    by_cases hne : c = b
    · subst hne
      simp only [hself]
      exact ⟨hstart, hend, hgood⟩
    · simp only [hrbt c hne]
      exact h.target c (hother c hc hne) hcb
  · intro c d hc hd hcb hcd
    by_cases hcb' : c = b
    · subst hcb'
      simp only [hself, hrbt d hcd.symm]
      exact hlow d (hother d hd hcd.symm)
    · by_cases hdb : d = b
      · subst hdb
        simp only [hself, hrbt c hcd]
        exact (hlow c (hother c hc hcd)).symm
      · simp only [hrbt c hcb', hrbt d hdb]
        exact h.apart c d (hother c hc hcb') (hother d hd hdb) hcb hcd
  · intro c hc hcb
    by_cases hne : c = b
    · subst hne
      simp only [hself]
      omega
    · simp only [hrbt c hne]
      have := h.below c (hother c hc hne) hcb
      omega

/-- A user block that has not been recorded stands for itself. -/
theorem Tables.Assigned.own (h : t.Assigned p) (huser : b ≤ userAreaEnd)
    (hb : checkIsInBbt t b = false) (hq : ∀ c, q c → c = b ∨ p c) :
    { t with rbt := update t.rbt b b }.Assigned q := by
  have hother : ∀ c, q c → c ≠ b → p c := fun c hc hne => (hq c hc).resolve_left hne
  have hne : ∀ c, checkIsInBbt t c = true → c ≠ b := by
    rintro c hc rfl
    exact false_ne_true (hb.symm.trans hc)
  have hrbt : ∀ c, c ≠ b → update t.rbt b b c = t.rbt c :=
    fun c hne => update_of_ne hne _ _
  have hself : update t.rbt b b b = b := update_self _ _ _
  constructor
  · intro c hc
    rcases hq c hc with rfl | hc
    · exact huser
    · exact h.user c hc
  · exact h.distinct
  · exact h.few
  · exact h.inArea
  · intro c hc hcg
    by_cases hcb : c = b
    · subst hcb
      exact hself
    · exact (hrbt c hcb).trans (h.good c (hother c hc hcb) hcg)
  · intro c hc hcb
    simp only [hrbt c (hne c hcb)]
    exact h.target c (hother c hc (hne c hcb)) hcb
  · intro c d hc hd hcb hcd
    have hpc := hother c hc (hne c hcb)
    by_cases hdb : d = b
    · subst hdb
      simp only [hself, hrbt c hcd]
      exact ne_of_gt (lt_of_le_of_lt huser (lt_of_lt_of_le (by decide) (h.target c hpc hcb).1))
    · simp only [hrbt c (hne c hcb), hrbt d hdb]
      exact h.apart c d hpc (hother d hd hdb) hcb hcd
  · intro c hc hcb
    simp only [hrbt c (hne c hcb)]
    exact h.below c (hother c hc (hne c hcb)) hcb

end Assigned

/-! ### The calls -/

section Calls

variable {t u : Tables} {b x : ℕ} {ok : Bool}

/-- **What the search for a replacement block does**: it finds one, or there is none left. -/
theorem replaceUser_cases (h : replaceUser b t = some (ok, u)) :
    (ok = true ∧ ∃ m, replaceBlockAreaStart ≤ m + 1 ∧ m + 1 ≤ t.lastValidRepBlock ∧
      checkIsInBbt t (m + 1) = false ∧
      u = { t with
        rbt := update t.rbt b (m + 1)
        lastValidRepBlock := m }.saveLastRep) ∨
    (ok = false ∧ (∀ r ≤ t.lastValidRepBlock, replaceBlockAreaStart ≤ r →
      checkIsInBbt t r = true) ∧ ∃ m, u = { t with lastValidRepBlock := m }.saveLastRep) := by
  rw [replaceUser] at h
  split_ifs at h with hlow
  rcases hs : searchReplace t t.lastValidRepBlock with ⟨_ | r, m⟩
  · simp only [hs, Option.some.injEq, Prod.mk.injEq] at h
    obtain ⟨rfl, rfl⟩ := h
    obtain ⟨-, -, hall⟩ := searchReplace_none hs
    exact Or.inr ⟨rfl, hall, m, rfl⟩
  · simp only [hs, Option.some.injEq, Prod.mk.injEq] at h
    obtain ⟨rfl, rfl⟩ := h
    obtain ⟨rfl, hstart, hle, hgood⟩ := searchReplace_some hs
    exact Or.inl ⟨rfl, m, hstart, hle, hgood, rfl⟩

/-- **What `update_bb_2_bbtrbt` does**: it refuses without a change, or records the block that
stood for the user block and looks for another. -/
theorem updateBb2Bbtrbt_cases (h : updateBb2Bbtrbt b (currentTarget t b) t = some (ok, u)) :
    (ok = false ∧ u = t ∧
      (userAreaEnd < b ∨ checkIsInBbt t b = false ∧ bbtMaxRecBbNum ≤ t.badBlockNum)) ∨
    (b ≤ userAreaEnd ∧ checkIsInBbt t (currentTarget t b) = false ∧ t.badBlockNum < bbtMaxRecBbNum ∧
      replaceUser b (t.push (currentTarget t b)).saveBadNum = some (ok, u)) := by
  rw [updateBb2Bbtrbt] at h
  by_cases huser : userAreaEnd < b
  · rw [if_pos huser] at h
    cases h
    exact Or.inl ⟨rfl, rfl, Or.inl huser⟩
  rw [if_neg huser] at h
  cases hb : checkIsInBbt t b with
  | false =>
    have htarget : currentTarget t b = b := if_neg (by rw [hb]; exact false_ne_true)
    rw [htarget] at h ⊢
    rw [if_pos hb, if_neg (not_not.mpr rfl)] at h
    by_cases hfull : bbtMaxRecBbNum ≤ t.badBlockNum
    · rw [if_pos hfull] at h
      cases h
      exact Or.inl ⟨rfl, rfl, Or.inr ⟨rfl, hfull⟩⟩
    · rw [if_neg hfull] at h
      exact Or.inr ⟨not_lt.mp huser, hb, not_le.mp hfull, h⟩
  | true =>
    rw [if_neg (by rw [hb]; exact Bool.noConfusion)] at h
    split_ifs at h with hself harea hbad hfull
    exact Or.inr ⟨not_lt.mp huser, eq_false_iff.mpr hbad, not_le.mp hfull, h⟩

/-- The block that stands for a user block. -/
theorem Tables.Assigned.currentTarget_cases (h : t.Assigned (· ≤ userAreaEnd))
    (hb : b ≤ userAreaEnd) :
    checkIsInBbt t b = false ∧ currentTarget t b = b ∧ t.rbt b = b ∨
      checkIsInBbt t b = true ∧ currentTarget t b = t.rbt b := by
  cases hcb : checkIsInBbt t b with
  | false => exact Or.inl ⟨rfl, if_neg (by rw [hcb]; exact false_ne_true), h.good b hb hcb⟩
  | true => exact Or.inr ⟨rfl, if_pos hcb⟩

/-- Once the block that stood for a user block has been recorded, so has the user block. -/
theorem Tables.Assigned.recorded (h : t.Assigned (· ≤ userAreaEnd)) (hb : b ≤ userAreaEnd) :
    checkIsInBbt (t.push (currentTarget t b)) b = true := by
  rw [checkIsInBbt_push]
  rcases h.currentTarget_cases hb with ⟨-, htarget, -⟩ | ⟨hbad, -⟩
  · exact Or.inr htarget.symm
  · exact Or.inl hbad

/-- The block that stands for a user block is no other user block and stands for no other. -/
theorem Tables.Assigned.push_currentTarget (h : t.Assigned (· ≤ userAreaEnd))
    (hb : b ≤ userAreaEnd) (hgood : checkIsInBbt t (currentTarget t b) = false)
    (hroom : t.badBlockNum < bbtMaxRecBbNum) :
    (t.push (currentTarget t b)).Assigned fun c => c ≤ userAreaEnd ∧ c ≠ b := by
  refine (h.mono fun c hc => hc.1).push hgood hroom ?_
  rintro c ⟨hc, hcb⟩
  have harea : ∀ {d : ℕ}, d ≤ userAreaEnd → checkIsInBbt t d = true → userAreaEnd < t.rbt d := by
    intro d hd hbad
    exact lt_of_lt_of_le (by decide) (h.target d hd hbad).1
  rcases h.currentTarget_cases hb with ⟨-, htarget, -⟩ | ⟨hbad, htarget⟩
  · rw [htarget]
    refine ⟨hcb, ?_⟩
    rcases h.currentTarget_cases hc with ⟨hcgood, -, -⟩ | ⟨hcbad, -⟩
    · rw [h.good c hc hcgood]
      exact hcb
    · exact ne_of_gt (lt_of_le_of_lt hb (harea hc hcbad))
  · rw [htarget]
    exact ⟨ne_of_lt (lt_of_le_of_lt hc (harea hb hbad)), (h.apart b c hb hc hbad hcb.symm).symm⟩

end Calls

/-! ### Runs -/

/-- The tables, and the replacement blocks handed out so far. -/
structure Handing where
  tables : Tables
  /-- The replacement blocks, the last one first. -/
  handed : List ℕ

/-- The calls that change the tables. -/
inductive TableEvent where
  /-- `update_bb_2_bbtrbt` for a user block, with the block that stands for it. -/
  | update (userBlockNo : ℕ)
  /-- `find_alloc_a_new_table_block`. -/
  | alloc

/-- A call; there is no result when an assertion fails. -/
def tableStep : TableEvent → Handing → Option Handing
  | .update b, s =>
    (updateBb2Bbtrbt b (currentTarget s.tables b) s.tables).map fun r =>
      ⟨r.2, if r.1 then r.2.rbt b :: s.handed else s.handed⟩
  | .alloc, s => some ⟨(findAllocANewTableBlock s.tables).2, s.handed⟩

/-- The replacement blocks of the recorded blocks below `n`. -/
def Tables.targets (t : Tables) (n : ℕ) : List ℕ :=
  ((List.range n).filter (checkIsInBbt t)).map t.rbt

/-- The tables after the scan of a chip with these bad blocks. -/
def handingStart (bad : ℕ → Bool) : Option Handing :=
  (scanAll2BuildBbtrbt bad .zero).map fun t => ⟨t, t.targets (userAreaEnd + 1)⟩

/-- **The tables are right and no replacement block has been handed out twice.** -/
structure Handing.Right (s : Handing) : Prop where
  tables : s.tables.Right
  nodup : s.handed.Nodup
  /-- Those that have not been tried are below. -/
  below : ∀ r ∈ s.handed, s.tables.lastValidRepBlock < r

/-- The call refuses without a change, or there is a replacement block left that has not been
recorded. -/
def TableEvent.Calm (s : Handing) : TableEvent → Prop
  | .update b =>
    userAreaEnd < b ∨
      (checkIsInBbt s.tables b = false ∧ bbtMaxRecBbNum ≤ s.tables.badBlockNum) ∨
      ∃ r, replaceBlockAreaStart ≤ r ∧ r ≤ s.tables.lastValidRepBlock ∧
        checkIsInBbt s.tables r = false
  | .alloc => True

section Runs

variable {s s' : Handing} {t u : Tables} {b : ℕ} {e : TableEvent} {ok : Bool}

theorem Tables.Right.of_saveLastRep (h : t.Assigned (· ≤ userAreaEnd)) : t.saveLastRep.Right := by
  have hsaved : t.saveLastRep.bbt bbtLastRepValidIdx = t.lastValidRepBlock := by
    simp only [Tables.saveLastRep, update_self]
  exact ⟨h.saveLastRep, hsaved.symm⟩

/-- `last_valid_tab_block` does not matter. -/
theorem Tables.Right.findAlloc (h : t.Right) : (findAllocANewTableBlock t).2.Right := by
  have hne : ∀ i, bbtStartBadIdx + i ≠ bbtLastTabValidIdx := fun i => by
    simp only [bbtStartBadIdx, bbtLastTabValidIdx]
    omega
  have hsaved : (findAllocANewTableBlock t).2.bbt bbtLastRepValidIdx = t.bbt bbtLastRepValidIdx :=
    update_of_ne (show bbtLastRepValidIdx ≠ bbtLastTabValidIdx by decide)
      (findAllocANewTableBlock t).2.lastValidTabBlock t.bbt
  refine ⟨h.assigned.congr rfl (fun i => ?_) rfl rfl, h.saved.trans hsaved.symm⟩
  exact (update_of_ne (hne i) _ _).symm

/-- **A replacement block that was found** keeps the tables right. -/
theorem right_found {m : ℕ} (h : s.Right) (hb : b ≤ userAreaEnd)
    (hgood : checkIsInBbt s.tables (currentTarget s.tables b) = false)
    (hroom : s.tables.badBlockNum < bbtMaxRecBbNum)
    (hu : u = (s.tables.push (currentTarget s.tables b)).saveBadNum)
    (hstart : replaceBlockAreaStart ≤ m + 1) (hle : m + 1 ≤ u.lastValidRepBlock)
    (hm : checkIsInBbt u (m + 1) = false) :
    Handing.Right ⟨{ u with
      rbt := update u.rbt b (m + 1)
      lastValidRepBlock := m }.saveLastRep,
      update u.rbt b (m + 1) b :: s.handed⟩ := by
  have ha := h.tables.assigned
  have hpush := (ha.push_currentTarget hb hgood hroom).saveBadNum
  rw [← hu] at hpush
  have hbad : checkIsInBbt u b = true := by
    rw [hu, checkIsInBbt_saveBadNum]
    exact ha.recorded hb
  have hlast : u.lastValidRepBlock = s.tables.lastValidRepBlock := by rw [hu]; rfl
  have hnew : ∀ r ∈ s.handed, m + 1 < r := fun r hr =>
    lt_of_le_of_lt (hlast ▸ hle) (h.below r hr)
  rw [update_self]
  refine ⟨.of_saveLastRep (hpush.replace hbad hb rfl hstart hle hm fun c hc => ?_), ?_, ?_⟩
  · exact (em (c = b)).imp id fun hne => ⟨hc, hne⟩
  · exact nodup_cons.mpr ⟨fun hmem => lt_irrefl _ (hnew _ hmem), h.nodup⟩
  · intro r hr
    rcases mem_cons.mp hr with rfl | hr
    · exact Nat.lt_succ_self m
    · exact Nat.lt_of_succ_lt (hnew r hr)

/-- **When there is none left** the user block is recorded and has no replacement block. -/
theorem not_right_none {m : ℕ} {l : List ℕ} (h : s.Right) (hb : b ≤ userAreaEnd)
    (hu : u = (s.tables.push (currentTarget s.tables b)).saveBadNum) :
    ¬Handing.Right ⟨{ u with lastValidRepBlock := m }.saveLastRep, l⟩ := by
  intro hright
  have ha := h.tables.assigned
  have hcheck : ∀ c, checkIsInBbt { u with lastValidRepBlock := m }.saveLastRep c =
      checkIsInBbt (s.tables.push (currentTarget s.tables b)) c := by
    intro c
    rw [checkIsInBbt_saveLastRep, checkIsInBbt_last, hu, checkIsInBbt_saveBadNum]
  have hrbt : { u with lastValidRepBlock := m }.saveLastRep.rbt = s.tables.rbt := by
    rw [hu]
    rfl
  obtain ⟨hstart, -, hfree⟩ := hright.tables.assigned.target b hb ((hcheck b).trans (ha.recorded hb))
  rw [hcheck, hrbt] at hfree
  rw [hrbt] at hstart
  rcases ha.currentTarget_cases hb with ⟨-, -, hself⟩ | ⟨-, htarget⟩
  · rw [hself] at hstart
    exact absurd (le_trans hstart hb) (by decide)
  · rw [checkIsInBbt_push.mpr (Or.inr htarget.symm)] at hfree
    cases hfree

end Runs

section Steps

variable {s s' : Handing} {b : ℕ} {e : TableEvent}

/-- **A call keeps the tables right exactly when it is calm.** -/
theorem right_tableStep_iff (h : s.Right) (hstep : tableStep e s = some s') :
    s'.Right ↔ e.Calm s := by
  cases e with
  | alloc =>
    obtain rfl := Option.some.inj hstep
    exact iff_of_true ⟨h.tables.findAlloc, h.nodup, h.below⟩ trivial
  | update b =>
    obtain ⟨⟨ok, u⟩, hu, rfl⟩ := map_eq_some_iff.mp hstep
    rcases updateBb2Bbtrbt_cases hu with ⟨rfl, rfl, hrefused⟩ | ⟨hb, hgood, hroom, hu⟩
    · refine iff_of_true h ?_
      rcases hrefused with huser | hfull
      · exact Or.inl huser
      · exact Or.inr (Or.inl hfull)
    · have hcheck : ∀ r, checkIsInBbt (s.tables.push (currentTarget s.tables b)).saveBadNum r =
          checkIsInBbt (s.tables.push (currentTarget s.tables b)) r := fun _ =>
        checkIsInBbt_saveBadNum
      rcases replaceUser_cases hu with ⟨rfl, m, hstart, hle, hm, rfl⟩ | ⟨rfl, hall, m, rfl⟩
      · refine iff_of_true (right_found h hb hgood hroom rfl hstart hle hm) ?_
        refine Or.inr (Or.inr ⟨m + 1, hstart, hle, eq_false_iff.mpr fun hbad => ?_⟩)
        rw [hcheck, checkIsInBbt_push.mpr (Or.inl hbad)] at hm
        cases hm
      · refine iff_of_false (not_right_none h hb rfl) ?_
        rintro (huser | ⟨-, hfull⟩ | ⟨r, hstart, hle, hfree⟩)
        · omega
        · omega
        · -- what has just been recorded is not among the blocks that are left
          have ha := h.tables.assigned
          have hbad := hall r hle hstart
          rw [hcheck, checkIsInBbt_push, hfree] at hbad
          obtain rfl := hbad.resolve_left false_ne_true
          rcases ha.currentTarget_cases hb with ⟨-, htarget, -⟩ | ⟨hcb, htarget⟩
          · rw [htarget] at hstart
            exact absurd (le_trans hstart hb) (by decide)
          · rw [htarget] at hle
            exact absurd hle (not_le.mpr (ha.below b hb hcb))

/-- The first time a user block is bad no assertion fails while the area is not exhausted. -/
theorem exists_update (hb : checkIsInBbt s.tables b = false)
    (hlast : replaceBlockAreaStart ≤ s.tables.lastValidRepBlock) :
    ∃ s', tableStep (.update b) s = some s' := by
  have hreplace : ∀ {t : Tables}, replaceBlockAreaStart ≤ t.lastValidRepBlock →
      ∃ r, replaceUser b t = some r := by
    intro t ht
    rw [replaceUser, if_neg (not_lt.mpr ht)]
    rcases searchReplace t t.lastValidRepBlock with ⟨_ | r, m⟩
    · exact ⟨_, rfl⟩
    · exact ⟨_, rfl⟩
  have htarget : currentTarget s.tables b = b := if_neg (by rw [hb]; exact false_ne_true)
  obtain ⟨r, hr⟩ : ∃ r, updateBb2Bbtrbt b (currentTarget s.tables b) s.tables = some r := by
    rw [updateBb2Bbtrbt, htarget, if_pos hb, if_neg (not_not.mpr rfl)]
    split_ifs with huser hfull
    · exact ⟨_, rfl⟩
    · exact ⟨_, rfl⟩
    · exact hreplace hlast
  exact ⟨_, by rw [tableStep, hr, map_some]⟩

end Steps

/-! ### The scan -/

section Scan

variable {bad : ℕ → Bool} {t u : Tables} {b i : ℕ}

theorem zero_distinct : Tables.zero.Distinct := fun _ hi => absurd hi (Nat.not_lt_zero _)

theorem zero_recorded : checkIsInBbt .zero b = false := rfl

/-- What the first loop has recorded. -/
structure Scanned (bad : ℕ → Bool) (i : ℕ) (t : Tables) : Prop where
  /-- The recorded blocks are pairwise distinct. -/
  distinct : t.Distinct
  few : t.badBlockNum ≤ bbtMaxRecBbNum
  recorded : ∀ b, checkIsInBbt t b = true ↔ b < i ∧ bad b = true

theorem scanned_zero : Scanned bad 0 .zero where
  distinct := zero_distinct
  few := Nat.zero_le _
  recorded b := iff_of_false (by rw [zero_recorded]; exact false_ne_true) (by omega)

theorem Scanned.step (h : Scanned bad i t) (hu : scanRecord bad i t = some u) :
    Scanned bad (i + 1) u := by
  rw [scanRecord] at hu
  split_ifs at hu with hbad hfull <;> obtain rfl := Option.some.inj hu
  · have hnew : checkIsInBbt t i = false :=
      eq_false_iff.mpr fun hi => lt_irrefl _ ((h.recorded i).mp hi).1
    refine ⟨h.distinct.push hnew, not_le.mp hfull, fun b => ?_⟩
    rw [checkIsInBbt_push, h.recorded, Nat.lt_succ_iff_lt_or_eq]
    constructor
    · rintro (⟨hlt, hb⟩ | rfl)
      · exact ⟨Or.inl hlt, hb⟩
      · exact ⟨Or.inr rfl, hbad⟩
    · rintro ⟨hlt | rfl, hb⟩
      · exact Or.inl ⟨hlt, hb⟩
      · exact Or.inr rfl
  · refine ⟨h.distinct, h.few, fun b => (h.recorded b).trans ⟨?_, ?_⟩⟩
    · rintro ⟨hlt, hb⟩
      exact ⟨Nat.lt_succ_of_lt hlt, hb⟩
    · rintro ⟨hlt, hb⟩
      rcases Nat.lt_succ_iff_lt_or_eq.mp hlt with hlt | rfl
      · exact ⟨hlt, hb⟩
      · exact absurd hb hbad

/-- **The second loop** gives a user block its replacement block, or itself. -/
theorem assigned_scanReplace (h : t.Assigned (· < i)) (hi : i ≤ userAreaEnd)
    (hu : scanReplace i t = some u) : u.Assigned (· < i + 1) := by
  have hlt : ∀ c, c < i + 1 → c = i ∨ c < i := fun c hc => (Nat.lt_succ_iff_lt_or_eq.mp hc).symm
  rw [scanReplace] at hu
  split_ifs at hu with hbad hlow
  · obtain ⟨r, hr, rfl⟩ := map_eq_some_iff.mp hu
    obtain ⟨hstart, hle, hgood⟩ := scanSkip_some hbad.1 hr
    have hpos : r = r - 1 + 1 := (Nat.sub_add_cancel (le_trans (by decide) hstart)).symm
    exact h.replace hbad.2 hi hpos hstart hle hgood hlt
  · obtain rfl := Option.some.inj hu
    have hgood : checkIsInBbt t i = false :=
      eq_false_iff.mpr fun hb => hbad ⟨not_lt.mp hlow, hb⟩
    exact h.own hi hgood hlt

end Scan

section Start

variable {bad : ℕ → Bool} {s s₀ : Handing} {t u : Tables} {b : ℕ}

/-- **The tables are right after the scan.** -/
theorem right_scan (h : scanAll2BuildBbtrbt bad .zero = some u) : u.Right := by
  obtain ⟨t, ht, hu⟩ := bind_eq_some_iff.mp h
  obtain ⟨v, hv, rfl⟩ := map_eq_some_iff.mp hu
  have hscan : Scanned bad (tableAreaEnd + 1) t :=
    Loop.counted_invariant ht scanned_zero fun _ hP hi => hP.step hi
  refine .of_saveLastRep ?_
  have hassigned : v.Assigned (· < userAreaEnd + 1) := by
    refine Loop.counted_invariant (P := fun i t => t.Assigned (· < i)) hv ?_ ?_
    · have hdistinct := hscan.distinct.congr (u := t.saveBadNum) rfl fun i => (saveBadNum_bbt i).symm
      exact ⟨fun _ hc => absurd hc (Nat.not_lt_zero _), hdistinct, hscan.few, le_rfl,
        fun _ hc => absurd hc (Nat.not_lt_zero _), fun _ hc => absurd hc (Nat.not_lt_zero _),
        fun _ _ hc => absurd hc (Nat.not_lt_zero _), fun _ hc => absurd hc (Nat.not_lt_zero _)⟩
    · exact fun hi hP hstep => assigned_scanReplace hP (Nat.le_of_lt_succ hi) hstep
  exact hassigned.mono fun c hc => Nat.lt_succ_of_le hc

theorem targets_nodup (ha : t.Assigned (· ≤ userAreaEnd)) {n : ℕ} (hn : ∀ b < n, b ≤ userAreaEnd) :
    (t.targets n).Nodup ∧ ∀ r ∈ t.targets n, t.lastValidRepBlock < r := by
  constructor
  · refine (nodup_range.filter _).map_on fun b hb c hc hbc => ?_
    rw [mem_filter, mem_range] at hb hc
    by_contra hne
    exact ha.apart b c (hn b hb.1) (hn c hc.1) hb.2 hne hbc
  · intro r hr
    obtain ⟨b, hb, rfl⟩ := mem_map.mp hr
    rw [mem_filter, mem_range] at hb
    exact ha.below b (hn b hb.1) hb.2

theorem right_start (h : handingStart bad = some s₀) : s₀.Right := by
  obtain ⟨t, ht, rfl⟩ := map_eq_some_iff.mp h
  have hright := right_scan ht
  obtain ⟨hnodup, hbelow⟩ := targets_nodup hright.assigned (n := userAreaEnd + 1)
    fun b hb => Nat.le_of_lt_succ hb
  constructor <;> dsimp only
  · exact hright
  · exact hnodup
  · exact hbelow

/-- The first loop goes through when the bad blocks are few enough. -/
theorem exists_scanRecord {lo hi : ℕ} (hbad : ∀ b, bad b = true → lo ≤ b ∧ b < hi)
    (hfew : hi - lo ≤ bbtMaxRecBbNum) (n : ℕ) :
    ∃ t, Loop.counted (scanRecord bad) n .zero = some t ∧ Scanned bad n t ∧
      t.badBlockNum ≤ hi - lo := by
  have hstart : Scanned bad 0 .zero ∧ Tables.zero.badBlockNum ≤ 0 - lo ∧
      Tables.zero.badBlockNum ≤ hi - lo := ⟨scanned_zero, Nat.zero_le _, Nat.zero_le _⟩
  obtain ⟨t, ht, hscan, -, hnum⟩ := Loop.exists_counted (n := n)
    (P := fun i t => Scanned bad i t ∧ t.badBlockNum ≤ i - lo ∧ t.badBlockNum ≤ hi - lo) hstart
    (by
      rintro i v - ⟨hP, hi, hend⟩
      cases hb : bad i with
      | false =>
        have hpass : scanRecord bad i v = some v := by
          rw [scanRecord, if_neg (by rw [hb]; exact false_ne_true)]
        exact ⟨v, hpass, hP.step hpass, by omega, hend⟩
      | true =>
        obtain ⟨hlow, hhigh⟩ := hbad i hb
        have hpass : scanRecord bad i v = some (v.push i) := by
          rw [scanRecord, if_pos hb, if_neg (by omega)]
        have hpush : (v.push i).badBlockNum = v.badBlockNum + 1 := rfl
        exact ⟨v.push i, hpass, hP.step hpass, by omega, by omega⟩)
  exact ⟨t, ht, hscan, hnum⟩

/-- The second loop goes through, and hands out nothing, when no user block has been recorded. -/
theorem exists_scanReplace (hlast : replaceBlockAreaStart ≤ t.lastValidRepBlock) {n : ℕ}
    (hgood : ∀ b < n, checkIsInBbt t b = false) :
    ∃ u, Loop.counted scanReplace n t = some u ∧ u.lastValidRepBlock = t.lastValidRepBlock ∧
      u.badBlockNum = t.badBlockNum ∧ ∀ b, checkIsInBbt u b = checkIsInBbt t b := by
  refine Loop.exists_counted (P := fun _ u => u.lastValidRepBlock = t.lastValidRepBlock ∧
    u.badBlockNum = t.badBlockNum ∧ ∀ b, checkIsInBbt u b = checkIsInBbt t b)
    ⟨rfl, rfl, fun _ => rfl⟩ ?_
  rintro i w hi ⟨hw, hnum, hcheck⟩
  have hpass : ¬checkIsInBbt w i = true := by
    rw [hcheck, hgood i hi]
    exact false_ne_true
  refine ⟨{ w with rbt := update w.rbt i i }, ?_, hw, hnum, hcheck⟩
  rw [scanReplace, if_neg fun h => hpass h.2, if_neg (by omega)]

/-- **The scan goes through** when only replacement blocks are bad, and hands none out. -/
theorem exists_scan (bad : ℕ → Bool)
    (hbad : ∀ b, bad b = true → replaceBlockAreaStart ≤ b ∧ b < replaceBlockAreaEnd + 1) :
    ∃ u, scanAll2BuildBbtrbt bad .zero = some u ∧ u.lastValidRepBlock = replaceBlockAreaEnd ∧
      u.badBlockNum < bbtMaxRecBbNum ∧
      ∀ b, checkIsInBbt u b = true ↔ b ≤ tableAreaEnd ∧ bad b = true := by
  obtain ⟨t, ht, hscan, hnum⟩ := exists_scanRecord hbad (by decide) (tableAreaEnd + 1)
  have hrep : replaceBlockAreaStart ≤ replaceBlockAreaEnd := by decide
  obtain ⟨v, hv, hlast, hvnum, hcheck⟩ := exists_scanReplace (n := userAreaEnd + 1)
    (t := { t.saveBadNum with lastValidRepBlock := replaceBlockAreaEnd }) hrep (by
      intro b hb
      rw [checkIsInBbt_last, checkIsInBbt_saveBadNum]
      refine eq_false_iff.mpr fun hrec => ?_
      have hlow := (hbad b ((hscan.recorded b).mp hrec).2).1
      exact absurd (le_trans hlow (Nat.le_of_lt_succ hb)) (by decide))
  refine ⟨v.saveLastRep, ?_, hlast, ?_, fun b => ?_⟩
  · rw [scanAll2BuildBbtrbt, ht, bind_some, hv, map_some]
  · exact lt_of_le_of_lt (le_trans (le_of_eq hvnum) hnum) (by decide)
  · rw [checkIsInBbt_saveLastRep, hcheck, checkIsInBbt_last, checkIsInBbt_saveBadNum,
      hscan.recorded, Nat.lt_succ_iff]

/-- **The tables are right all the way exactly when every call is calm**: whenever a block is to be
replaced, there is a replacement block left that has not been recorded. -/
theorem tables_right_iff (bad : ℕ → Bool) (events : List TableEvent)
    (h₀ : handingStart bad = some s₀) (h : Machine.run tableStep events s₀ = some s) :
    Machine.Always tableStep Handing.Right events s₀ ↔
      Machine.Meets tableStep (fun s e => e.Calm s) events s₀ :=
  Machine.always_iff_meets h (right_start h₀) right_tableStep_iff

end Start

/-- Without a bad block, the first one to be replaced is. -/
theorem tables_right_iff_one :
    ∃ s₀ s, handingStart (fun _ => false) = some s₀ ∧
      Machine.run tableStep [.update 0] s₀ = some s ∧
        Machine.Always tableStep Handing.Right [.update 0] s₀ := by
  obtain ⟨u, hu, hlast, -, hcheck⟩ := exists_scan (fun _ => false) (fun _ => nofun)
  have hgood : ∀ b, checkIsInBbt u b = false := fun b =>
    eq_false_iff.mpr fun hb => false_ne_true ((hcheck b).mp hb).2
  have hstart : handingStart (fun _ => false) = some ⟨u, u.targets (userAreaEnd + 1)⟩ := by
    rw [handingStart, hu, map_some]
  have harea : replaceBlockAreaStart ≤ u.lastValidRepBlock := by
    rw [hlast]
    decide
  obtain ⟨s, hs⟩ := exists_update (s := ⟨u, u.targets (userAreaEnd + 1)⟩) (hgood 0) harea
  have hrun : Machine.run tableStep [.update 0] ⟨u, u.targets (userAreaEnd + 1)⟩ = some s := by
    rw [Machine.run, hs, bind_some, Machine.run]
  refine ⟨_, s, hstart, hrun, (tables_right_iff _ _ hstart hrun).mpr ⟨?_, fun _ _ => trivial⟩⟩
  exact Or.inr (Or.inr ⟨_, harea, le_rfl, hgood _⟩)

/-- All replacement blocks are bad. -/
def badReplaceArea (b : ℕ) : Bool :=
  decide (replaceBlockAreaStart ≤ b ∧ b < replaceBlockAreaEnd + 1)

/-- **The tables are not right** once a user block has turned bad and all replacement blocks are:
the search returns without an assertion, and the user block stands for itself. -/
theorem not_tables_right :
    ¬∀ (bad : ℕ → Bool) (events : List TableEvent) (s₀ s : Handing), handingStart bad = some s₀ →
      Machine.run tableStep events s₀ = some s → s.Right := by
  intro hall
  obtain ⟨u, hu, hlast, hroom, hcheck⟩ :=
    exists_scan badReplaceArea fun _ hb => of_decide_eq_true hb
  have hstart : handingStart badReplaceArea = some ⟨u, u.targets (userAreaEnd + 1)⟩ := by
    rw [handingStart, hu, map_some]
  have hgood : checkIsInBbt u 0 = false := by
    refine eq_false_iff.mpr fun hb => ?_
    have := ((hcheck 0).mp hb).2
    cases this
  obtain ⟨s, hs⟩ := exists_update (s := ⟨u, u.targets (userAreaEnd + 1)⟩) hgood
    (le_trans (by decide) (le_of_eq hlast.symm))
  have hright := hall _ [.update 0] _ s hstart (by
    rw [Machine.run, hs, bind_some, Machine.run])
  rcases (right_tableStep_iff (right_start hstart) hs).mp hright with
    huser | ⟨-, hfull⟩ | ⟨r, hr, hle, hfree⟩
  · exact absurd huser (by decide)
  · exact absurd hfull (not_le.mpr hroom)
  · have hle : r ≤ replaceBlockAreaEnd := le_trans hle (le_of_eq hlast)
    have hbad := (hcheck r).mpr
      ⟨le_trans hle (by decide), decide_eq_true ⟨hr, Nat.lt_succ_of_le hle⟩⟩
    exact false_ne_true (hfree.symm.trans hbad)

end Gd32.Nand
