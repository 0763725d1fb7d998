import Gd32Firmware.Plf.NandDriver

/-!
# The start of the NAND driver on a fresh chip

On a chip that has never been used the search for the tables finds nothing. The bad blocks are then
read from their marks, four blocks are taken for the tables, and both tables are saved
(`nandflashApiInit_fresh`). Whether that goes through does not depend on what fails
(`exists_init`).
-/

namespace Gd32.Nand

open NandFlash Option

/-- A chip that has never been used: everything is blank, but for the marks of the bad blocks. -/
structure Fresh (bad : ℕ → Bool) (f : Pages) : Prop where
  correctable : ∀ p, (f p).uncorrectable = false
  /-- Nothing else than the marks has been programmed. -/
  blank : ∀ p i, i ≠ nandPageSize → (f p).bytes i = 0xFF
  good : ∀ p, bad (p / nandBlockSize) = false → (f p).bytes nandPageSize = 0xFF
  /-- A bad one has it in its first or its second page. -/
  bad : ∀ b, bad b = true → (f (b * nandBlockSize)).bytes nandPageSize ≠ 0xFF ∨
    (f (b * nandBlockSize + 1)).bytes nandPageSize ≠ 0xFF

/-! ### What does not depend on the chip -/

section Agree

variable {hw : Hw} {s s' : Driver}

/-- **What does not depend on the chip**: the states agree in everything else. -/
def Driver.Agree (s s' : Driver) : Prop := { s with chip := s'.chip } = s'

theorem Driver.Agree.refl (s : Driver) : s.Agree s := rfl

theorem Driver.Agree.exists_chip (h : s.Agree s') : ∃ d, s' = { s with chip := d } :=
  ⟨s'.chip, h.symm⟩

/-- Two stages of the allocation agree, and the second chip can be read. -/
structure AllocAgree (r r' : ℕ × Driver) : Prop where
  next : r.1 = r'.1
  agree : r.2.Agree r'.2
  readable : r'.2.Readable

/-- A block taken does not depend on the chip. -/
theorem AllocAgree.allocInto (hw hw' : Hw) {r r' : ℕ × Driver} (set : Driver → ℕ → Driver)
    (h : AllocAgree r r') (hset : ∀ (s : Driver) (d : Device) (b : ℕ),
      set { s with chip := d } b = { set s b with chip := d }) :
    AllocAgree (allocInto hw set r) (Nand.allocInto hw' set r') := by
  obtain ⟨n, s⟩ := r
  obtain ⟨n', s'⟩ := r'
  obtain ⟨rfl, hagree, hread⟩ := h
  obtain ⟨d, rfl⟩ := hagree.exists_chip
  simp only [Nand.allocInto]
  rcases takeBlock s.tables n with ⟨_ | b, m⟩
  · exact ⟨rfl, rfl, hread⟩
  · have hb := hset s d b
    refine ⟨rfl, ?_, ?_⟩
    · change ((set s b).erase hw b).2.Agree ((set { s with chip := d } b).erase hw' b).2
      rw [hb]
      rfl
    · change ((set { s with chip := d } b).erase hw' b).2.Readable
      rw [hb]
      exact readable_erase (s := { set s b with chip := d }) hread b

/-- **Blocks for the tables are found or not** whatever fails. -/
theorem exists_alloc (hw' : Hw) {u : Driver} (h : s.Agree s') (hread : s'.Readable)
    (hu : allocBbtrbtBlockAddr hw s = some u) :
    ∃ u', allocBbtrbtBlockAddr hw' s' = some u' ∧ u.Agree u' ∧ u'.Readable := by
  have h₀ : AllocAgree (tableAreaEnd, s) (tableAreaEnd, s') := ⟨rfl, h, hread⟩
  have h₁ := h₀.allocInto hw hw' (·.setBbtBlock 0) fun _ _ _ => rfl
  have h₂ := h₁.allocInto hw hw' (·.setBbtBlock 1) fun _ _ _ => rfl
  have h₃ := h₂.allocInto hw hw' (·.setRbtBlock 0) fun _ _ _ => rfl
  have h₄ := h₃.allocInto hw hw' (·.setRbtBlock 1) fun _ _ _ => rfl
  rw [allocBbtrbtBlockAddr] at hu ⊢
  revert hu h₄
  generalize allocInto hw _ _ = r
  generalize allocInto hw' _ _ = r'
  intro hu h₄
  obtain ⟨n', s'⟩ := r'
  obtain ⟨rfl, hagree, hread⟩ := h₄
  obtain ⟨d, rfl⟩ := hagree.exists_chip
  rw [allocFinish] at hu ⊢
  split_ifs at hu ⊢ with hlow
  obtain rfl := Option.some.inj hu
  exact ⟨_, rfl, rfl, hread⟩

end Agree

/-! ### A fresh chip -/

section Start

variable {hw : Hw} {s s' : Driver} {f : Pages} {bad : ℕ → Bool}

/-- No page of a fresh chip has a mark. -/
theorem marked_fresh (hf : Fresh bad f) (mark : UInt8) (hmark : mark ≠ 0xFF) (b p : ℕ)
    (l : List (Bool × Prim)) : (Driver.start ⟨f, l⟩).marked hw mark b p = false := by
  have hspare : ((Driver.start ⟨f, l⟩).spareData hw b p).2 0 = 0xFF :=
    hf.blank _ _ (by decide)
  simp only [Driver.marked, isMarked, hspare, Bool.and_eq_false_imp, decide_eq_true_eq]
  intro _
  simp [hmark.symm]

theorem findTable_fresh (hf : Fresh bad f) (mark : UInt8) (hmark : mark ≠ 0xFF)
    (l : List (Bool × Prim)) (n : ℕ) : findTable hw mark (.start ⟨f, l⟩) n = none := by
  induction n with
  | zero => rfl
  | succ n ih =>
    rw [findTable, marked_fresh hf mark hmark, Bool.false_and, if_neg Bool.false_ne_true, ih, ite_self]

/-- The scan finds the bad blocks. -/
theorem isBadblock_fresh (hf : Fresh bad f) (l : List (Bool × Prim)) :
    qspiNandflashIsBadblock ⟨f, l⟩ = bad := by
  funext b
  have h0 : b * nandBlockSize / nandBlockSize = b := Nat.mul_div_cancel b (by decide)
  have h1 : (b * nandBlockSize + 1) / nandBlockSize = b := by
    simp only [nandBlockSize]
    omega
  cases hb : bad b with
  | false =>
    simp only [qspiNandflashIsBadblock, hf.good _ (h0.symm ▸ hb), hf.good _ (h1.symm ▸ hb)]
    rfl
  | true =>
    rw [qspiNandflashIsBadblock, Bool.or_eq_true, bne_iff_ne, bne_iff_ne]
    exact hf.bad b hb

/-- **The start on a fresh chip**: the scan, the blocks for the tables, and both tables saved. -/
theorem nandflashApiInit_fresh (hf : Fresh bad f) :
    nandflashApiInit hw (.start ⟨f, []⟩) =
      (scanAll2BuildBbtrbt bad .zero).bind fun t =>
        (allocBbtrbtBlockAddr hw { Driver.start ⟨f, []⟩ with tables := t }).bind
          fun s => s.saveTables hw := by
  have hscan : qspiNandflashIsBadblock (Driver.start ⟨f, []⟩).chip = bad := isBadblock_fresh hf []
  have htables : (Driver.start ⟨f, []⟩).tables = .zero := rfl
  have hnone : findTable hw markBbt (.start ⟨f, []⟩) tableAreaEnd = none :=
    findTable_fresh hf markBbt (by decide) [] tableAreaEnd
  simp only [nandflashApiInit, rebuildBbtrbt, hnone, hscan, htables, bind_eq_bind,
    map_bind, Driver.saveTables, Function.comp_def, map_map, map_id']

theorem saveTables_of_readable (hfails : ∀ i, hw.fails i = false) (h : s.Readable) :
    ∃ s', s.saveTables hw = some s' ∧ s'.Readable ∧ s'.tables = s.tables := by
  obtain ⟨u, hu, hread, htables⟩ := updateBbt2Nand_of_readable hfails h
  obtain ⟨v, hv, hread', htables'⟩ := updateRbt2Nand_of_readable hfails hread
  refine ⟨v, ?_, hread', htables'.trans htables⟩
  simp only [Driver.saveTables, hu, hv, bind_eq_bind, bind_some]

/-- **When the start goes through at all**, it goes through when nothing fails. -/
theorem exists_init (hw' : Hw) (hf : Fresh bad f) (hfails : ∀ i, hw'.fails i = false)
    (h : nandflashApiInit hw (.start ⟨f, []⟩) = some s) :
    ∃ s', nandflashApiInit hw' (.start ⟨f, []⟩) = some s' ∧ s'.Readable := by
  rw [nandflashApiInit_fresh hf] at h ⊢
  obtain ⟨t, ht, h⟩ := bind_eq_some_iff.mp h
  obtain ⟨u, hu, -⟩ := bind_eq_some_iff.mp h
  have hread : Driver.Readable { Driver.start ⟨f, []⟩ with tables := t } := hf.correctable
  obtain ⟨u', hu', -, hread⟩ := exists_alloc hw' (.refl _) hread hu
  obtain ⟨v, hv, hread', -⟩ := saveTables_of_readable hfails hread
  exact ⟨v, by rw [ht, bind_some, hu', bind_some, hv], hread'⟩

end Start

/-! ### The blocks taken -/

section Taken

variable {hw : Hw} {set : Driver → ℕ → Driver} {t : Tables} {s u : Driver} {r : ℕ × Driver}
  {b m n : ℕ}

theorem takeBlock_some (h : takeBlock t n = (some b, m)) :
    tableAreaStart < b ∧ b ≤ n ∧ b = m + 1 := by
  induction n with
  | zero => cases h
  | succ n ih =>
    rw [takeBlock] at h
    split_ifs at h with harea hbad
    · obtain ⟨hlo, hle, hm⟩ := ih h
      exact ⟨hlo, Nat.le_succ_of_le hle, hm⟩
    · cases h
      exact ⟨harea, le_rfl, rfl⟩
    · cases h

/-- **A block is taken**, or the state is as it was. -/
theorem allocInto_cases (hw : Hw) (set : Driver → ℕ → Driver) (r : ℕ × Driver) :
    (∃ b m, tableAreaStart < b ∧ b ≤ r.1 ∧ b = m + 1 ∧
      allocInto hw set r = (m, ((set r.2 b).erase hw b).2)) ∨
    (allocInto hw set r).2 = r.2 := by
  rcases htake : takeBlock r.2.tables r.1 with ⟨_ | b, m⟩
  · exact Or.inr (by simp only [allocInto, htake])
  · obtain ⟨hlo, hle, hm⟩ := takeBlock_some htake
    exact Or.inl ⟨b, m, hlo, hle, hm, by simp only [allocInto, htake]⟩

/-- What a block taken for another purpose leaves alone. -/
theorem allocInto_field {α : Type*} (g : Driver → α) (set : Driver → ℕ → Driver) (r : ℕ × Driver)
    (hset : ∀ (s : Driver) (b : ℕ) (d : Device), g { set s b with chip := d } = g s) :
    g (allocInto hw set r).2 = g r.2 := by
  rcases allocInto_cases hw set r with ⟨b, m, -, -, -, h⟩ | h
  · rw [h]
    exact hset _ _ _
  · rw [h]

theorem setBbtBlock_of_ne {i j : Fin 2} (h : j ≠ i) : (s.setBbtBlock i b).bbtBlock j = s.bbtBlock j :=
  Function.update_of_ne h _ _

theorem setRbtBlock_of_ne {i j : Fin 2} (h : j ≠ i) : (s.setRbtBlock i b).rbtBlock j = s.rbtBlock j :=
  Function.update_of_ne h _ _

/-- What has been taken and erased for the tables. -/
structure Taken (hw : Hw) (s u : Driver) (a₀ a₁ b₀ b₁ : ℕ) : Prop where
  /-- The blocks are in the area and taken from its end. -/
  order : tableAreaStart < b₁ ∧ b₁ < b₀ ∧ b₀ < a₁ ∧ a₁ < a₀ ∧ a₀ ≤ tableAreaEnd
  /-- The blocks of `BBT`. -/
  bbt : u.bbtBlock 0 = a₀ ∧ u.bbtBlock 1 = a₁
  /-- The blocks of `RBT`. -/
  rbt : u.rbtBlock 0 = b₀ ∧ u.rbtBlock 1 = b₁
  fresh : u.bbtCrtBlockIdx = 0 ∧ u.bbtCrtPage = invalPageVal ∧ u.rbtCrtBlockIdx = 0 ∧
    u.rbtCrtPage = invalPageVal
  chip : u.chip = ((((s.erase hw a₀).2.erase hw a₁).2.erase hw b₀).2.erase hw b₁).2.chip

/-- **Four blocks are taken** when the allocation goes through. -/
theorem exists_taken (hbbt : s.bbtBlock = fun _ => 0) (hrbt : s.rbtBlock = fun _ => 0)
    (h : allocBbtrbtBlockAddr hw s = some u) : ∃ a₀ a₁ b₀ b₁, Taken hw s u a₀ a₁ b₀ b₁ := by
  obtain ⟨r₁, hr₁⟩ : ∃ r, allocInto hw (·.setBbtBlock 0) (tableAreaEnd, s) = r := ⟨_, rfl⟩
  obtain ⟨r₂, hr₂⟩ : ∃ r, allocInto hw (·.setBbtBlock 1) r₁ = r := ⟨_, rfl⟩
  obtain ⟨r₃, hr₃⟩ : ∃ r, allocInto hw (·.setRbtBlock 0) r₂ = r := ⟨_, rfl⟩
  obtain ⟨r₄, hr₄⟩ : ∃ r, allocInto hw (·.setRbtBlock 1) r₃ = r := ⟨_, rfl⟩
  rw [allocBbtrbtBlockAddr, hr₁, hr₂, hr₃, hr₄, allocFinish] at h
  split_ifs at h with hmissing
  obtain rfl := Option.some.inj h
  simp only [not_or, not_lt] at hmissing
  obtain ⟨hm₀, hm₁, hm₂, hm₃⟩ := hmissing
  have hzero : ¬tableAreaStart ≤ 0 := by decide
  -- a block that is not taken stays 0
  have hbbt₄ : r₄.2.bbtBlock = r₂.2.bbtBlock := by
    rw [← hr₄, ← hr₃]
    exact (allocInto_field (·.bbtBlock) (·.setRbtBlock 1) _ fun _ _ _ => rfl).trans
      (allocInto_field (·.bbtBlock) (·.setRbtBlock 0) _ fun _ _ _ => rfl)
  have hbbt₂ : r₂.2.bbtBlock 0 = r₁.2.bbtBlock 0 := by
    rw [← hr₂]
    exact allocInto_field (·.bbtBlock 0) (·.setBbtBlock 1) _ fun s b _ =>
      setBbtBlock_of_ne (s := s) (b := b) (i := 1) (j := 0) (by decide)
  have hrbt₂ : r₂.2.rbtBlock = s.rbtBlock := by
    rw [← hr₂, ← hr₁]
    exact (allocInto_field (·.rbtBlock) (·.setBbtBlock 1) _ fun _ _ _ => rfl).trans
      (allocInto_field (·.rbtBlock) (·.setBbtBlock 0) _ fun _ _ _ => rfl)
  have hrbt₄ : r₄.2.rbtBlock 0 = r₃.2.rbtBlock 0 := by
    rw [← hr₄]
    exact allocInto_field (·.rbtBlock 0) (·.setRbtBlock 1) _ fun s b _ =>
      setRbtBlock_of_ne (s := s) (b := b) (i := 1) (j := 0) (by decide)
  rcases allocInto_cases hw (·.setBbtBlock 0) (tableAreaEnd, s) with
    ⟨a₀, m₀, hlo₀, hle₀, he₀, h₁⟩ | h₁
  swap
  · rw [hr₁] at h₁
    rw [hbbt₄, hbbt₂, h₁, hbbt] at hm₀
    exact absurd hm₀ hzero
  rw [hr₁] at h₁
  rcases allocInto_cases hw (·.setBbtBlock 1) r₁ with ⟨a₁, m₁, hlo₁, hle₁, he₁, h₂⟩ | h₂
  swap
  · rw [hr₂] at h₂
    have hone : r₁.2.bbtBlock 1 = s.bbtBlock 1 := by
      rw [h₁]
      exact setBbtBlock_of_ne (s := s) (b := a₀) (i := 0) (j := 1) (by decide)
    rw [hbbt₄, h₂, hone, hbbt] at hm₁
    exact absurd hm₁ hzero
  rw [hr₂] at h₂
  rcases allocInto_cases hw (·.setRbtBlock 0) r₂ with ⟨b₀, m₂, hlo₂, hle₂, he₂, h₃⟩ | h₃
  swap
  · rw [hr₃] at h₃
    rw [hrbt₄, h₃, hrbt₂, hrbt] at hm₂
    exact absurd hm₂ hzero
  rw [hr₃] at h₃
  rcases allocInto_cases hw (·.setRbtBlock 1) r₃ with ⟨b₁, m₃, hlo₃, hle₃, he₃, h₄⟩ | h₄
  swap
  · rw [hr₄] at h₄
    have hone : r₃.2.rbtBlock 1 = r₂.2.rbtBlock 1 := by
      rw [h₃]
      exact setRbtBlock_of_ne (s := r₂.2) (b := b₀) (i := 0) (j := 1) (by decide)
    rw [h₄, hone, hrbt₂, hrbt] at hm₃
    exact absurd hm₃ hzero
  rw [hr₄] at h₄
  subst h₄ h₃ h₂ h₁
  exact ⟨a₀, a₁, b₀, b₁, ⟨by omega, by omega, by omega, by omega, hle₀⟩, ⟨rfl, rfl⟩, ⟨rfl, rfl⟩,
    ⟨rfl, rfl, rfl, rfl⟩, rfl⟩

end Taken

end Gd32.Nand
