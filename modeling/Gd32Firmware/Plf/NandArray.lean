import Gd32Firmware.Plf.NandStart
import Mathlib.Data.Fintype.Card
import Mathlib.Data.Fintype.Pigeonhole
import Mathlib.Tactic.NormNum

/-!
# The user blocks as an array

A user of the NAND driver sees blocks of pages that are erased and programmed. What they should hold
is an array of bytes (`UserCall.onArray`). Page numbers are sent in 16 bits, which is half
of the chip: block `b + 1024` is block `b`. There are more user blocks than that, so on every chip two
of them share their pages (`exists_alias`), and the driver is an array only where it never
gets to be used (`plainArray_iff`).
-/

namespace Gd32.Nand

open NandFlash

/-! ### The array -/

/-- A call of the user. -/
inductive UserCall where
  /-- `nandflash_block_erase`. -/
  | erase (blockNo : ℕ)
  /-- `nandflash_page_program`. -/
  | program (blockNo pageNo offsetInPage bufLen : ℕ) (buffer : ℕ → UInt8)

/-- The call on the driver. -/
def UserCall.onDriver (hw : Hw) : UserCall → Driver → Option (ℤ × Driver)
  | .erase b, s => nandflashBlockErase hw b s
  | .program b p o n buf, s => nandflashPageProgram hw buf b p o n s

/-- Calls one after the other, all of which return 0. -/
def userRun (hw : Hw) : List UserCall → Driver → Option Driver
  | [], s => some s
  | c :: cs, s => (c.onDriver hw s).bind fun r => if r.1 = 0 then userRun hw cs r.2 else none

/-- The call on an array, by block, page and offset. -/
def UserCall.onArray : UserCall → (ℕ → ℕ → ℕ → UInt8) → ℕ → ℕ → ℕ → UInt8
  | .erase b, a => fun b' p i => if b' = b then 0xFF else a b' p i
  | .program b p o n buf, a => fun b' p' i =>
    if b' = b ∧ p' = p ∧ o ≤ i ∧ i < o + n then buf (i - o) else a b' p' i

/-- What the calls leave in an array that was erased. -/
def userContent (cs : List UserCall) : ℕ → ℕ → ℕ → UInt8 :=
  cs.foldl (fun a c => c.onArray a) fun _ _ _ => 0xFF

/-- **Between two erases of a block** its pages are programmed in ascending order, and the ranges
programmed in a page do not overlap. -/
def InOrder (cs : List UserCall) : Prop :=
  ∀ before mid after b p o n buf p' o' n' buf',
    cs = before ++ .program b p o n buf :: (mid ++ .program b p' o' n' buf' :: after) →
      .erase b ∉ mid → p < p' ∨ p = p' ∧ (o + n ≤ o' ∨ o' + n' ≤ o)

/-- The hardware with the driver as it is. -/
def hw16 (fails : ℕ → Bool) : Hw := ⟨16, fails⟩

/-- There are no more failures than replacement blocks. -/
def FewFailures (fails : ℕ → Bool) : Prop :=
  ∃ l : List ℕ, l.length ≤ replaceBlockAreaEnd + 1 - replaceBlockAreaStart ∧
    ∀ i, fails i = true → i ∈ l

/-- **The user blocks behave as an array**: after every sequence of calls in order that all returned
0, and whatever failed on the way, reading gives what the array holds. -/
def PlainArray (f : Pages) : Prop :=
  ∀ fails, FewFailures fails → ∀ s₀, nandflashApiInit (hw16 fails) (.start ⟨f, []⟩) = some s₀ →
    ∀ cs, InOrder cs → ∀ s, userRun (hw16 fails) cs s₀ = some s →
      ∀ b p o n, b ≤ userAreaEnd → p < nandBlockSize → o + n ≤ nandPageSize →
        (nandflashPageRead (hw16 fails) s b p o n).1 = 0 ∧
          ∀ i < n, (nandflashPageRead (hw16 fails) s b p o n).2 i = userContent cs b p (o + i)

/-! ### Two user blocks on the same pages -/

section Alias

variable {fails : ℕ → Bool} {s : Driver} {f : Pages} {bad : ℕ → Bool} {b c p : ℕ}

/-- **Two user blocks share their pages**, whatever the tables say. -/
theorem exists_alias (t : Tables) : ∃ b c, b ≤ userAreaEnd ∧ c ≤ userAreaEnd ∧ b ≠ c ∧
    currentTarget t b % 1024 = currentTarget t c % 1024 := by
  obtain ⟨b, c, hne, heq⟩ := Fintype.exists_ne_map_eq_of_card_lt
    (fun b : Fin (userAreaEnd + 1) =>
      (⟨currentTarget t b % 1024, Nat.mod_lt _ (by decide)⟩ : Fin 1024))
    (by rw [Fintype.card_fin, Fintype.card_fin]; decide)
  refine ⟨b, c, Nat.le_of_lt_succ b.isLt, Nat.le_of_lt_succ c.isLt, fun h => hne (Fin.ext h), ?_⟩
  simpa using heq

/-- The pages that are sent are the same. -/
theorem sent_congr {x y : ℕ} (h : x % 1024 = y % 1024) (p : ℕ) :
    (hw16 fails).sent (x * nandBlockSize + p) = (hw16 fails).sent (y * nandBlockSize + p) := by
  simp only [Hw.sent, hw16, nandBlockSize]
  omega

/-- One call is in order. -/
theorem inOrder_singleton (c : UserCall) : InOrder [c] := by
  intro before mid after b p o n buf p' o' n' buf' h
  have hlen := congrArg List.length h
  simp only [List.length_append, List.length_cons, List.length_nil] at hlen
  omega

/-- A byte programmed, when nothing fails. -/
theorem userRun_program_zero (fails : ℕ → Bool) (hfails : ∀ i, fails i = false)
    (h : s.Readable) (hb : b ≤ userAreaEnd) :
    userRun (hw16 fails) [.program b 0 0 1 fun _ => 0] s =
      some { s with
        chip := s.chip.issue fails (.program
          ((hw16 fails).sent (currentTarget s.tables b * nandBlockSize + 0)) 0 1 fun _ => 0) } := by
  have hrange : ¬(userAreaEnd < b ∨ nandBlockSize ≤ 0 ∨ nandPageSize < 0 + 1) := by
    rintro (h | h | h)
    · omega
    · exact absurd h (by decide)
    · exact absurd h (by decide)
  obtain ⟨hw1, hw2, -⟩ := writeCheck_of_readable
    (show ∀ i, (hw16 fails).fails i = false from hfails) h (fun _ => 0)
    (currentTarget s.tables b * nandBlockSize + 0) (o := 0) (n := 1) (by decide)
  have hpasses : searchPasses = searchPasses - 1 + 1 := by decide
  rw [userRun, UserCall.onDriver, nandflashPageProgram, if_neg hrange, hpasses, programLoop]
  simp only [hw1, hw2, if_true, if_false, reduceCtorEq, Option.bind_some, userRun]
  rfl

/-- The first byte of a user block. -/
theorem nandflashPageRead_zero (hc : c ≤ userAreaEnd) :
    (nandflashPageRead (hw16 fails) s c 0 0 1).2 0 =
      (s.chip.pages ((hw16 fails).sent (currentTarget s.tables c * nandBlockSize + 0))).bytes 0 := by
  have hrange : ¬(userAreaEnd < c ∨ nandBlockSize ≤ 0 ∨ nandPageSize < 1) := by
    rintro (h | h | h)
    · omega
    · exact absurd h (by decide)
    · exact absurd h (by decide)
  have hsize : ¬nandPageTotalSize < 0 + 1 := by decide
  simp only [nandflashPageRead, if_neg hrange, qspiNandflashRead, if_neg hsize]

/-- **Once the start has gone through** the driver is not an array: of two user blocks on the same
pages one is programmed and the other changes. -/
theorem not_plainArray_of_init {hw : Hw} (hf : Fresh bad f)
    (hs : nandflashApiInit hw (.start ⟨f, []⟩) = some s) : ¬PlainArray f := by
  intro harray
  obtain ⟨u, hu, hread⟩ := exists_init (hw16 fun _ => false) hf (fun _ => rfl) hs
  obtain ⟨b, c, hb, hc, hne, halias⟩ := exists_alias u.tables
  have hrun := userRun_program_zero (fun _ => false) (fun _ => rfl) hread hb
  obtain ⟨-, hbyte⟩ := harray (fun _ => false) ⟨[], Nat.zero_le _, nofun⟩ u hu _
    (inOrder_singleton _) _ hrun c 0 0 1 hc (by decide) (by decide)
  have hcontent : userContent [.program b 0 0 1 fun _ => 0] c 0 0 = 0xFF :=
    if_neg fun h => hne h.1.symm
  have hone := (hbyte 0 Nat.one_pos).trans hcontent
  rw [nandflashPageRead_zero hc, ← sent_congr halias] at hone
  simp only [Device.issue, apply_program_self,
    program_bytes_of_mem (show 0 ≤ 0 ∧ 0 < 0 + 1 by decide), UInt8.and_zero] at hone
  cases hone

end Alias

/-! ### A chip without bad blocks -/

theorem fresh_blank : Fresh (fun _ => false) fun _ => .blank where
  correctable _ := rfl
  blank _ _ _ := rfl
  good _ _ := rfl
  bad _ := nofun

/-- A good block is taken. -/
theorem allocInto_good {hw : Hw} {set : Driver → ℕ → Driver} {n : ℕ} {s : Driver}
    (hgood : ∀ b, checkIsInBbt s.tables b = false) (hn : tableAreaStart < n + 1) :
    allocInto hw set (n + 1, s) = (n, ((set s (n + 1)).erase hw (n + 1)).2) := by
  simp only [allocInto, takeBlock, hgood, if_pos hn, Bool.false_eq_true, if_false]

/-- Blocks for the tables are found when all are good. -/
theorem exists_alloc_good (hw : Hw) {s : Driver}
    (hgood : ∀ b, checkIsInBbt s.tables b = false) :
    ∃ u, allocBbtrbtBlockAddr hw s = some u := by
  have h₀ : allocInto hw (·.setBbtBlock 0) (tableAreaEnd, s) = _ :=
    allocInto_good (n := 2046) hgood (by decide)
  have h₁ : allocInto hw (·.setBbtBlock 1) (2046, ((s.setBbtBlock 0 2047).erase hw 2047).2) = _ :=
    allocInto_good (n := 2045) hgood (by decide)
  obtain ⟨u, hu⟩ : ∃ u, u = ((((s.setBbtBlock 0 2047).erase hw 2047).2.setBbtBlock 1 2046).erase
    hw 2046).2 := ⟨_, rfl⟩
  have htables : u.tables = s.tables := by
    rw [hu]
    rfl
  have hgood' : ∀ b, checkIsInBbt u.tables b = false := htables ▸ hgood
  have h₂ : allocInto hw (·.setRbtBlock 0) (2045, u) = _ :=
    allocInto_good (n := 2044) hgood' (by decide)
  have h₃ : allocInto hw (·.setRbtBlock 1) (2044, ((u.setRbtBlock 0 2045).erase hw 2045).2) = _ :=
    allocInto_good (n := 2043) hgood' (by decide)
  rw [allocBbtrbtBlockAddr, h₀, h₁, ← hu, h₂, h₃, allocFinish]
  refine ⟨_, if_neg ?_⟩
  have hb0 : u.bbtBlock 0 = 2047 := by rw [hu]; rfl
  have hb1 : u.bbtBlock 1 = 2046 := by rw [hu]; rfl
  rintro (h | h | h | h)
  · change u.bbtBlock 0 < tableAreaStart at h
    exact absurd (hb0 ▸ h) (by decide)
  · change u.bbtBlock 1 < tableAreaStart at h
    exact absurd (hb1 ▸ h) (by decide)
  · change 2045 < tableAreaStart at h
    exact absurd h (by decide)
  · change 2044 < tableAreaStart at h
    exact absurd h (by decide)

/-- The start goes through on a chip without bad blocks when nothing fails. -/
theorem exists_init_blank (hw : Hw) (hfails : ∀ i, hw.fails i = false) :
    ∃ s, nandflashApiInit hw (.start ⟨fun _ => .blank, []⟩) = some s := by
  obtain ⟨t, ht, -, -, hcheck⟩ := exists_scan (fun _ => false) (fun _ => nofun)
  have hgood : ∀ b, checkIsInBbt t b = false := fun b =>
    Bool.eq_false_iff.mpr fun hb => Bool.false_ne_true ((hcheck b).mp hb).2
  have hread : Driver.Readable { Driver.start ⟨fun _ => .blank, []⟩ with tables := t } :=
    fun _ => rfl
  obtain ⟨u, hu⟩ := exists_alloc_good hw
    (s := { Driver.start ⟨fun _ => .blank, []⟩ with tables := t }) hgood
  obtain ⟨u', hu', -, hread'⟩ := exists_alloc hw (.refl _) hread hu
  obtain ⟨v, hv, -⟩ := saveTables_of_readable hfails hread'
  exact ⟨v, by rw [nandflashApiInit_fresh fresh_blank, ht, Option.bind_some, hu', Option.bind_some, hv]⟩

/-- **The driver is not an array** on a chip without bad blocks. -/
theorem not_plainArray : ¬∀ (bad : ℕ → Bool) (f : Pages), Fresh bad f → PlainArray f := by
  intro hall
  obtain ⟨s, hs⟩ := exists_init_blank (hw16 fun _ => false) fun _ => rfl
  exact not_plainArray_of_init fresh_blank hs (hall _ _ fresh_blank)

/-- **The driver is an array only where it cannot be used**: on a fresh chip on which the start does
not go through even if nothing fails. -/
theorem plainArray_iff {f : Pages} (bad : ℕ → Bool) (hf : Fresh bad f) :
    PlainArray f ↔ nandflashApiInit (hw16 fun _ => false) (.start ⟨f, []⟩) = none := by
  constructor
  · intro harray
    exact Option.eq_none_iff_forall_ne_some.mpr fun s hs => not_plainArray_of_init hf hs harray
  · intro hnone fails _ s₀ hs₀
    obtain ⟨s', hs', -⟩ := exists_init (hw16 fun _ => false) hf (fun _ => rfl) hs₀
    rw [hnone] at hs'
    cases hs'

theorem plainArray_iff_blank :
    PlainArray (fun _ => .blank) ↔
      nandflashApiInit (hw16 fun _ => false) (.start ⟨fun _ => .blank, []⟩) = none :=
  plainArray_iff (fun _ => false) fresh_blank

end Gd32.Nand
