import Gd32Firmware.Lib.NorFlash

/-!
# Ranges of the external flash

`qspi_flash_api.c`: a write is cut at the page boundaries of the chip, an erase is made of 64 KB,
32 KB and 4 KB commands, the largest that the alignment of the offset and the remaining length
allow.

Both check their range by its first and its last byte, the last one being computed modulo `2^32`,
so that a length near `2^32` passes. A write keeps the number of its pages in 16 bits, so that the
pages from `65536` on are forgotten: a 16 MB chip is not written as a whole.
-/

namespace Gd32.Qspi

open NorFlash List UInt32

/-! ### The chip -/

/-- `QSPI_FLASH_MEM`, in megabytes. -/
inductive QspiFlashMem
  | mem2 | mem16 | mem32

def QspiFlashMem.totalSize : QspiFlashMem → UInt32
  | .mem16 => 0x1000000
  | .mem32 => 0x2000000
  | .mem2 => 0x200000

/-- The erase commands. The 32 MB chip has commands of its own for the same units. -/
inductive EraseCmd
  | sector | block32k | block64k

/-- The size of the unit that a command erases. -/
def EraseCmd.size : EraseCmd → ℕ
  | .sector => 0x1000
  | .block32k => 32768
  | .block64k => 65536

/-- The unit of a command that contains an address. -/
def EraseCmd.Unit (cmd : EraseCmd) (addr : UInt32) (x : ℕ) : Prop :=
  x / cmd.size = addr.toNat / cmd.size

/-- A command sent to the chip. -/
inductive Cmd
  /-- `qspi_flash_program`. -/
  | program (addr : UInt32) (data : List UInt8)
  /-- `qspi_flash_various_erase`. -/
  | erase (cmd : EraseCmd) (addr : UInt32)

/-- The byte that a page program holds for the cell `i` places behind its address: of the data
that come to this cell, the last. -/
def latched (data : List UInt8) (i : ℕ) : UInt8 :=
  data.getD (i + (data.length - 1 - i) / 256 * 256) blank

/-- What the chip does: a page program wraps inside its page, an erase clears the unit that
contains its address. -/
def Cmd.apply (f : Flash) : Cmd → Flash
  | .program addr data => fun x =>
    if x / 256 = addr.toNat / 256 then
      f x &&& latched data ((x + (256 - addr.toNat % 256)) % 256)
    else f x
  | .erase cmd addr => NorFlash.erase f (addr.toNat / cmd.size * cmd.size) cmd.size

/-- The chip after some commands. -/
def run (f : Flash) (cmds : List Cmd) : Flash := cmds.foldl Cmd.apply f

/-! ### The driver -/

variable (mem : QspiFlashMem)

def qspiFlashIsValidOffset (offset : UInt32) : Bool := offset < mem.totalSize

/-- The check of a range. -/
def rangeOk (enabled : Bool) (offset len : UInt32) : Bool :=
  enabled && qspiFlashIsValidOffset mem offset && len != 0 &&
    qspiFlashIsValidOffset mem (offset + len - 1)

/-- `erase_len`: what lies behind the offset in its sector. -/
def eraseLen (offset : UInt32) : UInt32 :=
  if offset &&& 0x0FFF = 0 then 0x1000 else 0x1000 - (offset &&& 0x0FFF)

/-- One round of the erase loop: the command, and the offset and the length behind it. -/
def erasePass (offset len : UInt32) : EraseCmd × UInt32 × UInt32 :=
  if len ≥ 65536 ∧ offset &&& 0xFFFF = 0 then (.block64k, offset + 65536, len - 65536)
  else if len ≥ 32768 ∧ offset &&& 0x7FFF = 0 then (.block32k, offset + 32768, len - 32768)
  else
    (.sector, offset + eraseLen offset, if len > eraseLen offset then len - eraseLen offset else 0)

theorem toNat_and_mask (offset : UInt32) :
    (offset &&& 0xFFFF).toNat = offset.toNat % 65536 ∧
      (offset &&& 0x7FFF).toNat = offset.toNat % 32768 ∧
        (offset &&& 0x0FFF).toNat = offset.toNat % 4096 := by
  exact ⟨Nat.and_two_pow_sub_one_eq_mod _ 16, Nat.and_two_pow_sub_one_eq_mod _ 15,
    Nat.and_two_pow_sub_one_eq_mod _ 12⟩

theorem toNat_eraseLen (offset : UInt32) :
    (eraseLen offset).toNat = 4096 - offset.toNat % 4096 := by
  obtain ⟨-, -, h12⟩ := toNat_and_mask offset
  rw [← h12, eraseLen]
  split_ifs with h
  · rw [h]
    rfl
  · refine UInt32.toNat_sub_of_le _ _ ?_
    rw [le_iff_toNat_le, h12]
    exact (Nat.mod_lt _ (by norm_num)).le

/-- A round takes `n` bytes off the range: a unit that the range begins with, or what lies in it
of its first sector. -/
theorem erasePass_spec (offset len : UInt32) :
    ∃ n, (erasePass offset len).2.1 = offset + UInt32.ofNat n ∧
      (erasePass offset len).2.2.toNat = len.toNat - n ∧
        (offset.toNat % (erasePass offset len).1.size = 0 ∧
            n = (erasePass offset len).1.size ∧ n ≤ len.toNat ∨
          (erasePass offset len).1 = .sector ∧ n = 4096 - offset.toNat % 4096) := by
  obtain ⟨h16, h15, -⟩ := toNat_and_mask offset
  unfold erasePass
  split_ifs with h64 h32 h
  · refine ⟨65536, rfl, UInt32.toNat_sub_of_le _ _ h64.1, Or.inl ⟨?_, rfl, ?_⟩⟩
    · rw [EraseCmd.size, ← h16, h64.2]
      rfl
    · exact le_iff_toNat_le.mp h64.1
  · refine ⟨32768, rfl, UInt32.toNat_sub_of_le _ _ h32.1, Or.inl ⟨?_, rfl, ?_⟩⟩
    · rw [EraseCmd.size, ← h15, h32.2]
      rfl
    · exact le_iff_toNat_le.mp h32.1
  · exact ⟨(eraseLen offset).toNat, by simp, UInt32.toNat_sub_of_le _ _ (UInt32.le_of_lt h),
      Or.inr ⟨rfl, toNat_eraseLen offset⟩⟩
  · have hle := not_lt.mp fun h' => h (lt_iff_toNat_lt.mpr h')
    exact ⟨(eraseLen offset).toNat, by simp, (Nat.sub_eq_zero_of_le hle).symm,
      Or.inr ⟨rfl, toNat_eraseLen offset⟩⟩

/-- A round with something left has shortened the length. -/
theorem erasePass_lt {offset len : UInt32} (h : 0 < (erasePass offset len).2.2) :
    (erasePass offset len).2.2.toNat < len.toNat := by
  obtain ⟨n, -, hlen, hn⟩ := erasePass_spec offset len
  have hpos : 0 < (erasePass offset len).2.2.toNat := lt_iff_toNat_lt.mp h
  rcases hn with ⟨-, hn, -⟩ | ⟨-, hn⟩
  · have : 0 < (erasePass offset len).1.size := by
      cases (erasePass offset len).1 <;> decide
    omega
  · omega

/-- The erase loop. -/
def eraseLoop (offset len : UInt32) : List Cmd :=
  .erase (erasePass offset len).1 offset ::
    if 0 < (erasePass offset len).2.2 then
      eraseLoop (erasePass offset len).2.1 (erasePass offset len).2.2
    else []
termination_by len.toNat
decreasing_by exact erasePass_lt ‹_›

/-- `qspi_flash_erase`, with the commands it sends. -/
def qspiFlashErase (enabled : Bool) (offset len : UInt32) : ℤ × List Cmd :=
  if rangeOk mem enabled offset len then (0, eraseLoop offset len) else (-1, [])

/-- The loop over `num_of_page` pages and the program of `num_of_single` bytes behind it. -/
def writePages (numOfSingle : UInt8) : ℕ → UInt32 → List UInt8 → List Cmd
  | 0, offset, data =>
    if numOfSingle ≠ 0 then [.program offset (data.take numOfSingle.toNat)] else []
  | numOfPage + 1, offset, data =>
    .program offset (data.take 256) ::
      writePages numOfSingle numOfPage (offset + 256) (data.drop 256)

/-- The write behind its first, partial page. -/
def writeRest (offset : UInt32) (data : List UInt8) (len : UInt32) : List Cmd :=
  writePages (len % 256).toUInt8 (len / 256).toUInt16.toNat offset data

def pageLeft (offset : UInt32) : UInt32 := 256 - offset % 256

/-- `qspi_flash_write`, with the commands it sends. -/
def qspiFlashWrite (enabled : Bool) (offset : UInt32) (data : Option (List UInt8)) (len : UInt32) :
    ℤ × List Cmd :=
  match data with
  | none => (-1, [])
  | some data =>
    if !rangeOk mem enabled offset len then (-1, [])
    else if pageLeft offset ≠ 256 ∧ pageLeft offset < len then
      (0, .program offset (data.take (pageLeft offset).toNat) ::
        writeRest (offset + pageLeft offset) (data.drop (pageLeft offset).toNat)
          (len - pageLeft offset))
    else (0, writeRest offset data len)

/-! ### What is asked of the driver -/

/-- The range lies on the chip. -/
def InChip (offset len : UInt32) : Prop :=
  1 ≤ len.toNat ∧ offset.toNat + len.toNat ≤ mem.totalSize.toNat

/-- The 4 KB sectors that meet a range. -/
def Met (offset len : UInt32) (x : ℕ) : Prop :=
  ∃ y, offset.toNat ≤ y ∧ y < offset.toNat + len.toNat ∧ x / 4096 = y / 4096

/-- The commands are erases inside a set of cells, and clear the whole of it. -/
structure Erases (S : ℕ → Prop) (cmds : List Cmd) : Prop where
  inside : ∀ c ∈ cmds, ∃ cmd addr, c = .erase cmd addr ∧ ∀ x, cmd.Unit addr x → S x
  cleared : ∀ f x, S x → run f cmds x = blank
  kept : ∀ f x, ¬ S x → run f cmds x = f x

/-- **What is asked of the driver on a range**: both calls accept it exactly if it lies on the
chip, and then a write programs its bytes and nothing else, and an erase clears the sectors that
meet it and nothing else. -/
structure RangeRight (offset len : UInt32) : Prop where
  write : ∀ data : List UInt8, data.length = len.toNat →
    ((qspiFlashWrite mem true offset (some data) len).1 = 0 ↔ InChip mem offset len)
  programs : InChip mem offset len → ∀ (f : Flash) (data : List UInt8), data.length = len.toNat →
    run f (qspiFlashWrite mem true offset (some data) len).2 = program f offset.toNat data
  erase : (qspiFlashErase mem true offset len).1 = 0 ↔ InChip mem offset len
  erases : InChip mem offset len →
    Erases (Met offset len) (qspiFlashErase mem true offset len).2

/-- The range does not run over the end of the 32-bit addresses, and if it lies on the chip then
it ends before the `65536`th page that it has behind its first page boundary. -/
def Regular (offset len : UInt32) : Prop :=
  offset.toNat < mem.totalSize.toNat →
    offset.toNat + len.toNat ≤ 2 ^ 32 ∧
      (offset.toNat + len.toNat ≤ mem.totalSize.toNat →
        offset.toNat + len.toNat < (offset.toNat + 255) / 256 * 256 + 2 ^ 24)

/-! ### The check -/

variable {mem} {offset len : UInt32} {f : Flash} {data : List UInt8}

theorem totalSize_le (mem : QspiFlashMem) : mem.totalSize.toNat ≤ 2 ^ 25 := by
  cases mem <;> decide

/-- The check accepts the ranges on the chip and those that run over the end of the addresses. -/
theorem rangeOk_iff : rangeOk mem true offset len = true ↔
    InChip mem offset len ∨
      offset.toNat < mem.totalSize.toNat ∧ 2 ^ 32 < offset.toNat + len.toNat := by
  have hsize := totalSize_le mem
  have hl := len.toNat_lt
  have hlast : (offset + len - 1).toNat = (offset.toNat + len.toNat + (2 ^ 32 - 1)) % 2 ^ 32 := by
    rw [UInt32.toNat_sub, UInt32.toNat_add]
    simp only [UInt32.reduceToNat]
    omega
  have hzero : len = 0 ↔ len.toNat = 0 := UInt32.toNat_inj.symm
  simp only [rangeOk, qspiFlashIsValidOffset, InChip, Bool.true_and, Bool.and_eq_true,
    decide_eq_true_eq, bne_iff_ne, ne_eq, hzero, lt_iff_toNat_lt, hlast]
  omega

/-- On a regular range the check is exact. -/
theorem rangeOk_exact_iff :
    (rangeOk mem true offset len = true ↔ InChip mem offset len) ↔
      (offset.toNat < mem.totalSize.toNat → offset.toNat + len.toNat ≤ 2 ^ 32) := by
  have hsize := totalSize_le mem
  rw [rangeOk_iff]
  unfold InChip
  omega

/-! ### The erase loop -/

instance (cmd : EraseCmd) (addr : UInt32) (x : ℕ) : Decidable (cmd.Unit addr x) :=
  inferInstanceAs (Decidable (_ = _))

theorem erase_apply (cmd : EraseCmd) (addr : UInt32) (f : Flash) (x : ℕ) :
    (Cmd.erase cmd addr).apply f x = if cmd.Unit addr x then blank else f x := by
  refine if_congr ?_ rfl rfl
  cases cmd <;> simp only [EraseCmd.Unit, EraseCmd.size] <;> omega

theorem met_iff {x : ℕ} (h : 0 < len.toNat) : Met offset len x ↔
    offset.toNat / 4096 ≤ x / 4096 ∧ x / 4096 ≤ (offset.toNat + len.toNat - 1) / 4096 := by
  constructor
  · rintro ⟨y, h1, h2, h3⟩
    omega
  · rintro ⟨h1, h2⟩
    rcases Nat.lt_or_ge (x / 4096 * 4096) offset.toNat with hx | hx
    · exact ⟨offset.toNat, le_rfl, by omega, by omega⟩
    · exact ⟨x / 4096 * 4096, hx, by omega, by omega⟩

/-- **A round clears a unit of the sectors to clear, and leaves the others to the next.** -/
theorem met_erasePass (hlen : 0 < len.toNat) (hfit : offset.toNat + len.toNat ≤ 2 ^ 25) :
    (0 < (erasePass offset len).2.2 →
        (erasePass offset len).2.1.toNat + (erasePass offset len).2.2.toNat ≤ 2 ^ 25) ∧
      ∀ x, Met offset len x ↔ (erasePass offset len).1.Unit offset x ∨
        0 < (erasePass offset len).2.2 ∧
          Met (erasePass offset len).2.1 (erasePass offset len).2.2 x := by
  obtain ⟨n, ho, hl, hn⟩ := erasePass_spec offset len
  generalize erasePass offset len = pass at ho hl hn ⊢
  obtain ⟨cmd, o, l⟩ := pass
  dsimp only at ho hl hn ⊢
  have ho' : o.toNat = offset.toNat + n := by
    rw [ho, UInt32.toNat_add, toNat_ofNat_of_lt' (by norm_num; omega)]
    omega
  have hpos : 0 < l ↔ n < len.toNat := by
    rw [lt_iff_toNat_lt, hl]
    simp only [UInt32.toNat_zero]
    omega
  refine ⟨fun h => by rw [hpos] at h; omega, fun x => ?_⟩
  rw [hpos, EraseCmd.Unit, met_iff hlen]
  by_cases hrest : n < len.toNat
  · rw [met_iff (by omega), ho', hl]
    rcases hn with ⟨hmod, hn, -⟩ | ⟨rfl, hn⟩
    · cases cmd <;> simp only [EraseCmd.size] at hmod hn ⊢ <;> omega
    · simp only [EraseCmd.size]
      omega
  · rcases hn with ⟨hmod, hn, hle⟩ | ⟨rfl, hn⟩
    · cases cmd <;> simp only [EraseCmd.size] at hmod hn ⊢ <;> omega
    · simp only [EraseCmd.size]
      omega

/-- A command in front of others. -/
theorem Erases.cons {S T : ℕ → Prop} {cmd : EraseCmd} {addr : UInt32} {cmds : List Cmd}
    (h : Erases T cmds) (hS : ∀ x, S x ↔ cmd.Unit addr x ∨ T x) :
    Erases S (.erase cmd addr :: cmds) := by
  refine ⟨fun c hc => ?_, fun f x hx => ?_, fun f x hx => ?_⟩
  · rcases mem_cons.mp hc with rfl | hc
    · exact ⟨cmd, addr, rfl, fun x hx => (hS x).mpr (Or.inl hx)⟩
    · obtain ⟨cmd', addr', rfl, hin⟩ := h.inside c hc
      exact ⟨cmd', addr', rfl, fun x hx => (hS x).mpr (Or.inr (hin x hx))⟩
  · by_cases hT : T x
    · exact h.cleared _ x hT
    · refine (h.kept _ x hT).trans ?_
      rw [erase_apply, if_pos (((hS x).mp hx).resolve_right hT)]
  · rw [hS, not_or] at hx
    refine (h.kept _ x hx.2).trans ?_
    rw [erase_apply, if_neg hx.1]

theorem erases_nil : Erases (fun _ => False) [] :=
  ⟨fun _ h => absurd h not_mem_nil, fun _ _ h => h.elim, fun _ _ _ => rfl⟩

/-- **The erase loop clears the sectors that meet the range.** -/
theorem erases_eraseLoop (hlen : 0 < len.toNat) (hfit : offset.toNat + len.toNat ≤ 2 ^ 25) :
    Erases (Met offset len) (eraseLoop offset len) := by
  induction offset, len using eraseLoop.induct with
  | case1 offset len ih =>
    obtain ⟨hnext, hmet⟩ := met_erasePass hlen hfit
    rw [eraseLoop]
    split_ifs with h
    · refine (ih h (lt_iff_toNat_lt.mp h) (hnext h)).cons fun x => ?_
      rw [hmet x, and_iff_right h]
    · refine erases_nil.cons fun x => ?_
      rw [hmet x, iff_false_intro h, false_and]

/-! ### The page programs -/

/-- A page program that does not reach the end of its page programs its data. -/
theorem program_apply (f : Flash) {addr : UInt32} (h : addr.toNat % 256 + data.length ≤ 256) :
    (Cmd.program addr data).apply f = program f addr.toNat data := by
  funext x
  simp only [Cmd.apply, program, latched]
  by_cases hx : addr.toNat ≤ x ∧ x < addr.toNat + data.length
  · have hi : (x + (256 - addr.toNat % 256)) % 256 = x - addr.toNat := by omega
    rw [if_pos (by omega), if_pos hx, hi]
    congr 2
    omega
  · split_ifs with hp
    · rw [getD_eq_default _ _ (by omega), and_blank]
    · rfl

/-- The pages and the single bytes behind them are programmed one behind the other. -/
theorem run_writePages {single : UInt8} {n : ℕ}
    (hpage : offset.toNat % 256 = 0 ∨ n = 0 ∧ offset.toNat % 256 + single.toNat ≤ 256)
    (hfit : offset.toNat + 256 * n < 2 ^ 32) (hdata : 256 * n + single.toNat ≤ data.length) :
    run f (writePages single n offset data) =
      program f offset.toNat (data.take (256 * n + single.toNat)) := by
  induction n generalizing f offset data with
  | zero =>
    rw [writePages]
    split_ifs with h
    · have hlen : (data.take single.toNat).length = single.toNat := by
        rw [length_take]
        omega
      have hs := single.toNat_lt
      refine (program_apply f (by omega)).trans ?_
      rw [Nat.mul_zero, Nat.zero_add]
    · rw [not_not.mp h]
      simp [run]
  | succ n ih =>
    have hnext : (offset + 256).toNat = offset.toNat + 256 := by
      rw [UInt32.toNat_add]
      simp only [UInt32.reduceToNat]
      omega
    have hlen : (data.take 256).length = 256 := by
      rw [length_take]
      omega
    have hsplit : data.take (256 * (n + 1) + single.toNat) =
        data.take 256 ++ (data.drop 256).take (256 * n + single.toNat) := by
      rw [← take_add]
      congr 1
      omega
    refine (ih (Or.inl (by omega)) (by omega) (by simp; omega)).trans ?_
    rw [program_apply f (by omega), hsplit, program_append, hlen, hnext]

/-! ### Ranges -/

/-- The bytes in front of the first page boundary, when the range goes on behind it. -/
def firstPart (offset len : ℕ) : ℕ :=
  if offset % 256 ≠ 0 ∧ 256 - offset % 256 < len then 256 - offset % 256 else 0

/-- What is programmed of a range: the number of whole pages is kept in 16 bits. -/
def programmed (offset len : ℕ) : ℕ :=
  firstPart offset len + 256 * ((len - firstPart offset len) / 256 % 65536) +
    (len - firstPart offset len) % 256

theorem programmed_le (offset len : ℕ) : programmed offset len ≤ len := by
  unfold programmed firstPart
  split_ifs <;> omega

theorem run_writeRest (hoff : offset.toNat % 256 = 0 ∨ offset.toNat % 256 + len.toNat ≤ 256)
    (hfit : offset.toNat + len.toNat < 2 ^ 32) (hdata : data.length = len.toNat) :
    run f (writeRest offset data len) = program f offset.toNat
      (data.take (256 * (len.toNat / 256 % 65536) + len.toNat % 256)) := by
  have hsingle : (len % 256).toUInt8.toNat = len.toNat % 256 := by simp
  have hpages : (len / 256).toUInt16.toNat = len.toNat / 256 % 65536 := by simp
  rw [writeRest, run_writePages, hsingle, hpages] <;> rw [hpages] <;> try rw [hsingle]
  all_goals omega

/-- **A write to the chip programs the bytes that its 16-bit page count covers.** -/
theorem run_qspiFlashWrite (h : InChip mem offset len) (hdata : data.length = len.toNat) :
    run f (qspiFlashWrite mem true offset (some data) len).2 =
      program f offset.toNat (data.take (programmed offset.toNat len.toNat)) := by
  obtain ⟨hpos, hfit⟩ := h
  have hsize := totalSize_le mem
  have hleft : (pageLeft offset).toNat = 256 - offset.toNat % 256 := by
    refine (UInt32.toNat_sub_of_le _ _ ?_).trans (by simp)
    exact (Nat.mod_lt _ (by decide)).le
  have hfirst : pageLeft offset ≠ 256 ∧ pageLeft offset < len ↔
      offset.toNat % 256 ≠ 0 ∧ 256 - offset.toNat % 256 < len.toNat := by
    rw [ne_eq, ← UInt32.toNat_inj, lt_iff_toNat_lt, hleft]
    simp only [UInt32.reduceToNat]
    omega
  rw [qspiFlashWrite, rangeOk_iff.mpr (Or.inl ⟨hpos, hfit⟩)]
  simp only [Bool.not_true, Bool.false_eq_true, if_false, hfirst]
  split_ifs with hc
  · have hnext : (offset + pageLeft offset).toNat = offset.toNat + (256 - offset.toNat % 256) := by
      rw [UInt32.toNat_add, hleft]
      omega
    have hlen : (len - pageLeft offset).toNat = len.toNat - (256 - offset.toNat % 256) := by
      rw [UInt32.toNat_sub_of_le _ _ (UInt32.le_of_lt (hfirst.mpr hc).2), hleft]
    have htake : (data.take (pageLeft offset).toNat).length = 256 - offset.toNat % 256 := by
      rw [length_take, hleft]
      omega
    have hsplit : data.take (programmed offset.toNat len.toNat) =
        data.take (pageLeft offset).toNat ++ (data.drop (pageLeft offset).toNat).take
          (256 * ((len - pageLeft offset).toNat / 256 % 65536) +
            (len - pageLeft offset).toNat % 256) := by
      rw [programmed, firstPart, if_pos hc, hlen, hleft, Nat.add_assoc, take_add]
    refine (run_writeRest (Or.inl ?_) ?_ ?_).trans ?_
    · omega
    · omega
    · rw [length_drop, hlen, hleft, hdata]
    · rw [program_apply f (by omega), hsplit, program_append, htake, hnext]
  · rw [run_writeRest (by omega) (by omega) hdata, programmed, firstPart, if_neg hc, Nat.zero_add,
      Nat.sub_zero]

/-- All of a range on the chip is programmed exactly if it does not reach the page whose number no
longer fits. -/
theorem programmed_iff (offset len : ℕ) (h : 1 ≤ len) (hfit : offset + len ≤ 2 ^ 25) :
    programmed offset len = len ↔ offset + len < (offset + 255) / 256 * 256 + 2 ^ 24 := by
  unfold programmed firstPart
  split_ifs <;> omega

/-! ### When the ranges are right -/

/-- A chip of ones on which zeros are written shows what is programmed. -/
theorem programs_iff (h : InChip mem offset len) :
    (∀ (f : Flash) (data : List UInt8), data.length = len.toNat →
      run f (qspiFlashWrite mem true offset (some data) len).2 = program f offset.toNat data) ↔
      programmed offset.toNat len.toNat = len.toNat := by
  constructor
  · intro hall
    by_contra hne
    have hlt := lt_of_le_of_ne (programmed_le offset.toNat len.toNat) hne
    have hdata : (List.replicate len.toNat (0 : UInt8)).length = len.toNat := length_replicate
    have hcell := congrFun (hall (fun _ => blank) _ hdata) (offset.toNat + (len.toNat - 1))
    rw [run_qspiFlashWrite h hdata, NorFlash.program_of_ge (by simp; omega),
      NorFlash.program_apply (by simp; omega), getElem_replicate] at hcell
    exact absurd hcell (by decide)
  · intro hall f data hdata
    rw [run_qspiFlashWrite h hdata, hall, take_of_length_le hdata.le]

theorem write_rc_iff :
    (qspiFlashWrite mem true offset (some data) len).1 = 0 ↔
      rangeOk mem true offset len = true := by
  rw [qspiFlashWrite]
  cases rangeOk mem true offset len
  · simp
  · simp only [Bool.not_true, Bool.false_eq_true, if_false, iff_true]
    split_ifs <;> rfl

theorem erase_rc_iff :
    (qspiFlashErase mem true offset len).1 = 0 ↔ rangeOk mem true offset len = true := by
  rw [qspiFlashErase]
  split_ifs <;> simp [*]

/-- **The ranges on which both calls do what is asked are the regular ones.** -/
theorem rangeRight_iff (mem : QspiFlashMem) (offset len : UInt32) :
    RangeRight mem offset len ↔ Regular mem offset len := by
  have hsize := totalSize_le mem
  constructor
  · intro h hoff
    refine ⟨rangeOk_exact_iff.mp (erase_rc_iff.symm.trans h.erase) hoff, fun hfit => ?_⟩
    rcases Nat.eq_zero_or_pos len.toNat with hz | hpos
    · omega
    · exact (programmed_iff _ _ hpos (by omega)).mp
        ((programs_iff ⟨hpos, hfit⟩).mp (h.programs ⟨hpos, hfit⟩))
  · intro h
    have hok := rangeOk_exact_iff.mpr fun hoff => (h hoff).1
    refine ⟨fun data _ => write_rc_iff.trans hok, fun hin => ?_,
      erase_rc_iff.trans hok, fun hin => ?_⟩
    · obtain ⟨hpos, hfit⟩ := hin
      rw [programs_iff ⟨hpos, hfit⟩, programmed_iff _ _ hpos (by omega)]
      exact (h (by omega)).2 hfit
    · rw [qspiFlashErase, if_pos (hok.mpr hin)]
      exact erases_eraseLoop hin.1 (by have := hin.2; omega)

/-- Erasing all but 4095 of the `2^32` bytes from the second sector on is accepted, and writing the
whole of a 16 MB chip programs nothing. -/
theorem not_rangeRight : ¬ RangeRight .mem2 4096 0xFFFFF001 ∧ ¬ RangeRight .mem16 0 0x1000000 := by
  constructor
  · intro h
    have hin := h.erase.mp (erase_rc_iff.mpr (by decide))
    exact absurd hin.2 (by decide)
  · intro h
    have hin : InChip .mem16 0 0x1000000 := ⟨by decide, by decide⟩
    exact absurd ((programs_iff hin).mp (h.programs hin)) (by decide)

end Gd32.Qspi
