import Gd32Firmware.Config
import Gd32Firmware.Lib.NorFlash

/-!
# The raw flash driver

`raw_flash_api.c`: range checks in front of the ROM's erase and program calls, and the fast
write, which programs the word-aligned middle of a buffer in one go and its two ragged ends
through the plain write.

The ROM routines and the flash controller are outside the repository. They enter as
`Rom`, which says for every call, given the calls before it, what it returns; a call
that returns `0` has its effect on the device and one that does not leaves it alone. Every
call issued is recorded, whatever it returns.
-/

namespace Gd32

open NorFlash List

/-- The ROM's and the flash controller's answers: the return code of a call, given the
calls issued before it. -/
structure Rom where
  /-- The return code; `0` is success. -/
  rc : List Prim → Prim → ℤ

/-- A device together with the calls issued to it so far, oldest first. -/
structure Dev where
  flash : Flash
  log : List Prim

/-- Issue one call. -/
def Rom.issue (rom : Rom) (p : Prim) (d : Dev) : ℤ × Dev :=
  (rom.rc d.log p,
    { flash := if rom.rc d.log p = 0 then p.apply d.flash else d.flash, log := d.log ++ [p] })

/-- No call ever fails. -/
def Rom.Reliable (rom : Rom) : Prop := ∀ ps p, rom.rc ps p = 0

variable (rom : Rom)

/-! ### The driver -/

def rawFlashIsValidOffset (offset : ℕ) : Bool := decide (offset < flashTotalSize)

/-- The check in front of every erase and program: the first and the last byte lie on the
device, and `len`, an `int`, is positive. -/
def rawFlashRangeOk (offset len : ℕ) : Bool :=
  rawFlashIsValidOffset offset && decide (0 < len ∧ len < 2 ^ 31) &&
    rawFlashIsValidOffset (u32 (offset + len - 1))

def rawFlashErase (offset len : ℕ) (d : Dev) : ℤ × Dev :=
  if rawFlashRangeOk offset len then rom.issue (.erase offset len) d else (-1, d)

/-- `raw_flash_write`, the buffer being `data` with its length. -/
def rawFlashWrite (offset : ℕ) (data : List UInt8) (d : Dev) : ℤ × Dev :=
  if rawFlashRangeOk offset data.length then
    let w := rom.issue (.program offset data) d
    (if w.1 = 0 then 0 else -1, w.2)
  else (-1, d)

/-- `fmc_continuous_program`: the whole words of the buffer. -/
def fmcContinuousProgram (address : ℕ) (data : List UInt8) (d : Dev) : ℤ × Dev :=
  rom.issue (.program address (data.take (data.length / 4 * 4))) d

/-- The bytes in front of the first word boundary, `r` in the source. -/
def fastHead (offset : ℕ) : ℕ := if 4 - offset % 4 = 4 then 0 else 4 - offset % 4

/-- The bytes after the last word boundary, `rr` in the source. -/
def fastTail (offset len : ℕ) : ℕ := (offset + len) % 4

/-- The head of a fast write, skipped when the offset is aligned. -/
def fastWriteHead (offset : ℕ) (data : List UInt8) (d : Dev) : ℤ × Dev :=
  if fastHead offset ≠ 0 then rawFlashWrite rom offset (data.take (fastHead offset)) d else (0, d)

/-- The middle of a fast write. -/
def fastWriteMiddle (offset : ℕ) (data : List UInt8) (d : Dev) : ℤ × Dev :=
  fmcContinuousProgram rom (offset + fastHead offset)
    ((data.drop (fastHead offset)).take
      (data.length - fastHead offset - fastTail offset data.length)) d

/-- The tail of a fast write; its return code replaces the one of the middle. -/
def fastWriteTail (offset : ℕ) (data : List UInt8) (ret : ℤ) (d : Dev) : ℤ × Dev :=
  if fastTail offset data.length ≠ 0 then
    rawFlashWrite rom (offset + data.length - fastTail offset data.length)
      (data.drop (data.length - fastTail offset data.length)) d
  else (ret, d)

def rawFlashWriteFast (offset : ℕ) (data : List UInt8) (d : Dev) : ℤ × Dev :=
  if rawFlashRangeOk offset data.length then
    if data.length ≤ 4 then rawFlashWrite rom offset data d
    else
      let head := fastWriteHead rom offset data d
      if head.1 ≠ 0 then head
      else
        let middle := fastWriteMiddle rom offset data head.2
        fastWriteTail rom offset data middle.1 middle.2
  else (-1, d)

variable {offset len lo hi x : ℕ} {data : List UInt8} {d d' : Dev}

theorem rawFlashRangeOk_iff (hlen : len < 2 ^ 31) :
    rawFlashRangeOk offset len = true ↔ 0 < len ∧ offset + len ≤ flashTotalSize := by
  simp only [rawFlashRangeOk, rawFlashIsValidOffset, Bool.and_eq_true, decide_eq_true_eq]
  simp only [flashTotalSize, u32]
  omega

/-! ### Reading

The flash controller can show one part of the flash at the addresses of another. The boot loader
has it show the second image at the addresses of the first when the second one runs, and
`raw_flash_read` switches this on and off around a read of an image that does not run.
-/

/-- What the flash controller shows where: the pages from `spage` to `epage` are the ones `value`
pages behind them. -/
structure FmcOffset where
  /-- The first page, of `fmc_offset_region_config`. -/
  spage : ℕ
  epage : ℕ
  /-- `FMC_OFVR`. -/
  value : ℕ

/-- Where a byte is that is read at an address. -/
def FmcOffset.addr (o : FmcOffset) (a : ℕ) : ℕ :=
  if o.spage ≤ a / flashPageSize ∧ a / flashPageSize ≤ o.epage then a + o.value * flashPageSize
  else a

/-- The second image at the addresses of the first, with the given `FMC_OFVR`. -/
def fmcOffset (value : ℕ) : FmcOffset :=
  ⟨reImg0Offset / flashPageSize, reImg1Offset / flashPageSize - 1, value⟩

/-- The `FMC_OFVR` that shows the second image. -/
def imgOffset : ℕ := (reImg1Offset - reImg0Offset) / flashPageSize

/-- The flash controller and the address at which `raw_flash_read` has the ROM read, with image
`running` in use. -/
def rawFlashReadAt (running offset : ℕ) : FmcOffset × ℕ :=
  if running ≠ 0 then
    if reImg0Offset ≤ offset ∧ offset < reImg1Offset then (fmcOffset 0, offset)
    else if reImg1Offset ≤ offset ∧ offset < reImg1End then
      (fmcOffset imgOffset, offset - (reImg1Offset - reImg0Offset))
    else (fmcOffset imgOffset, offset)
  else if reImg1Offset ≤ offset ∧ offset < reImg1End then
    (fmcOffset imgOffset, offset - (reImg1Offset - reImg0Offset))
  else (fmcOffset 0, offset)

/-- `raw_flash_read` into the buffer `data`, of as many bytes. `failed` is what `rom_flash_read`
leaves in the buffer when it fails. -/
def rawFlashRead (running offset : ℕ) (failed : Option (List UInt8)) (f : Flash)
    (data : List UInt8) : ℤ × List UInt8 :=
  if rawFlashRangeOk offset data.length then
    match failed with
    | none =>
      let r := rawFlashReadAt running offset
      (0, (List.range data.length).map fun i => f (r.1.addr (r.2 + i)))
    | some left => (-1, left)
  else (-1, data)

/-- A read of nothing is refused. -/
theorem rawFlashRead_nil (running offset : ℕ) (failed : Option (List UInt8)) (f : Flash) :
    rawFlashRead running offset failed f [] = (-1, []) := by
  simp [rawFlashRead, rawFlashRangeOk]

/-- **A range of the image that does not run is read as it is.** -/
theorem rawFlashRead_inactive {running : ℕ} {f : Flash}
    (h : if running = 0 then reImg1Offset ≤ offset ∧ offset + data.length ≤ reImg1End
      else reImg0Offset ≤ offset ∧ offset + data.length ≤ reImg1Offset) :
    (rawFlashRead running offset none f data).2 = read f offset data.length := by
  have hconsts : reImg0Offset = 0xA000 ∧ reImg1Offset = 0x1EA000 ∧ reImg1End = 0x3CA000 ∧
      flashTotalSize = 0x400000 ∧ flashPageSize = 0x1000 := ⟨rfl, rfl, rfl, rfl, rfl⟩
  have hlen : offset + data.length ≤ flashTotalSize := by split_ifs at h <;> omega
  rw [rawFlashRead]
  by_cases hok : rawFlashRangeOk offset data.length = true
  swap
  · -- only an empty range is refused
    have hnil : data.length = 0 := by
      rw [rawFlashRangeOk_iff (by omega)] at hok
      omega
    rw [if_neg hok, hnil, read_zero]
    exact length_eq_zero_iff.mp hnil
  rw [if_pos hok]
  refine map_congr_left fun i hi => congrArg f ?_
  have hi' : i < data.length := mem_range.mp hi
  by_cases hr : running = 0
  · rw [if_pos hr] at h
    have hat : rawFlashReadAt running offset =
        (fmcOffset imgOffset, offset - (reImg1Offset - reImg0Offset)) := by
      rw [rawFlashReadAt, if_neg (not_not_intro hr), if_pos (by omega)]
    have hpages : (fmcOffset imgOffset).spage = 0xA ∧ (fmcOffset imgOffset).epage = 0x1E9 ∧
        (fmcOffset imgOffset).value * flashPageSize = 0x1E0000 := ⟨rfl, rfl, rfl⟩
    rw [hat]
    dsimp only
    rw [FmcOffset.addr, if_pos (by rw [hconsts.2.2.2.2]; omega)]
    omega
  · rw [if_neg hr] at h
    have hat : rawFlashReadAt running offset = (fmcOffset 0, offset) := by
      rw [rawFlashReadAt, if_pos hr, if_pos (by omega)]
    rw [hat]
    dsimp only
    exact ite_self _

/-! ### What the driver issues -/

/-- **A driver step**: from `d` to `d'` only calls inside `[lo, hi)` are issued. -/
def Issues (lo hi : ℕ) (d d' : Dev) : Prop :=
  ∃ ps, d'.log = d.log ++ ps ∧ ∀ p ∈ ps, p.Within lo hi

theorem Issues.refl (lo hi : ℕ) (d : Dev) : Issues lo hi d d := ⟨[], by simp, by simp⟩

theorem Issues.trans {d'' : Dev} (h : Issues lo hi d d')
    (h' : Issues lo hi d' d'') : Issues lo hi d d'' := by
  obtain ⟨ps, hps, hw⟩ := h
  obtain ⟨qs, hqs, hw'⟩ := h'
  refine ⟨ps ++ qs, by rw [hqs, hps, append_assoc], fun p hp => ?_⟩
  rcases mem_append.mp hp with h | h
  · exact hw p h
  · exact hw' p h

theorem Issues.mono {lo' hi' : ℕ} (h : Issues lo hi d d') (hlo : lo' ≤ lo)
    (hhi : hi ≤ hi') : Issues lo' hi' d d' := by
  obtain ⟨ps, hps, hw⟩ := h
  exact ⟨ps, hps, fun p hp => ⟨hlo.trans (hw p hp).1, (hw p hp).2.trans hhi⟩⟩

theorem Issues.log_grows (h : Issues lo hi d d') : d.log <+: d'.log := by
  obtain ⟨ps, hps, -⟩ := h
  exact ⟨ps, hps.symm⟩

theorem issues_issue {p : Prim} (h : p.Within lo hi) (d : Dev) :
    Issues lo hi d (rom.issue p d).2 := ⟨[p], rfl, by simpa using h⟩

theorem issues_rawFlashErase (offset len : ℕ) (d : Dev) :
    Issues offset (offset + len) d (rawFlashErase rom offset len d).2 := by
  rw [rawFlashErase]
  split
  · exact issues_issue rom ⟨le_rfl, le_rfl⟩ d
  · exact Issues.refl _ _ d

theorem issues_rawFlashWrite (offset : ℕ) (data : List UInt8) (d : Dev) :
    Issues offset (offset + data.length) d (rawFlashWrite rom offset data d).2 := by
  rw [rawFlashWrite]
  split
  · exact issues_issue rom ⟨le_rfl, le_rfl⟩ d
  · exact Issues.refl _ _ d

theorem fastHead_add_fastTail_le (offset : ℕ) (h : 4 < len) :
    fastHead offset + fastTail offset len ≤ len := by
  rw [fastHead, fastTail]
  split <;> omega

/-- The middle of a fast write is made of whole words. -/
theorem four_dvd_middle (len offset : ℕ) :
    (len - fastHead offset - fastTail offset len) / 4 * 4 =
      len - fastHead offset - fastTail offset len := by
  rw [fastHead, fastTail] at *
  split <;> omega

/-- The buffer falls into the three parts the driver writes. -/
theorem program_parts (f : Flash) (offset : ℕ) (h : 4 < data.length) :
    program (program (program f offset (data.take (fastHead offset))) (offset + fastHead offset)
        ((data.drop (fastHead offset)).take
          (data.length - fastHead offset - fastTail offset data.length)))
        (offset + data.length - fastTail offset data.length)
        (data.drop (data.length - fastTail offset data.length)) =
      program f offset data := by
  have hht := fastHead_add_fastTail_le offset h
  generalize fastTail offset data.length = rr at hht ⊢
  generalize fastHead offset = r at hht ⊢
  have hsplit : data = data.take r ++ (data.drop r).take (data.length - r - rr) ++
      data.drop (data.length - rr) := by
    have h1 : (data.drop r).drop (data.length - r - rr) = data.drop (data.length - rr) := by
      rw [drop_drop]
      congr 1
      omega
    rw [append_assoc, ← h1, take_append_drop, take_append_drop]
  have hl1 : (data.take r).length = r := by
    rw [length_take]
    omega
  have hl2 : (data.take r ++ (data.drop r).take (data.length - r - rr)).length =
      data.length - rr := by
    rw [length_append, hl1, length_take, length_drop]
    omega
  conv_rhs => rw [hsplit]
  rw [program_append, program_append, hl1, hl2,
    show offset + data.length - rr = offset + (data.length - rr) by omega]

/-- **A fast write stays inside its range**, whatever fails. -/
theorem issues_rawFlashWriteFast (offset : ℕ) (data : List UInt8) (d : Dev) :
    Issues offset (offset + data.length) d (rawFlashWriteFast rom offset data d).2 := by
  rw [rawFlashWriteFast]
  split
  swap
  · exact Issues.refl _ _ d
  split
  · exact issues_rawFlashWrite rom _ _ d
  next hlen =>
  have hht := fastHead_add_fastTail_le offset (not_le.mp hlen)
  have hhead : Issues offset (offset + data.length) d (fastWriteHead rom offset data d).2 := by
    rw [fastWriteHead]
    split
    · refine (issues_rawFlashWrite rom _ _ d).mono le_rfl ?_
      rw [length_take]
      omega
    · exact Issues.refl _ _ d
  dsimp only
  split
  · exact hhead
  have hmiddle : Issues offset (offset + data.length) (fastWriteHead rom offset data d).2
      (fastWriteMiddle rom offset data (fastWriteHead rom offset data d).2).2 := by
    refine (issues_issue rom ⟨le_rfl, le_rfl⟩ _).mono ?_ ?_
    · simp only [Prim.addr]
      omega
    · simp only [Prim.addr, Prim.size, length_take, length_drop]
      omega
  refine hhead.trans (hmiddle.trans ?_)
  rw [fastWriteTail]
  split
  · refine (issues_rawFlashWrite rom _ _ _).mono (by omega) ?_
    rw [length_drop]
    omega
  · exact Issues.refl _ _ _

/-! ### What the driver leaves alone -/

/-- A call leaves the bytes outside its range alone, whether it succeeds or not. -/
theorem issue_flash_of_not_mem {p : Prim} (h : x < p.addr ∨ p.addr + p.size ≤ x)
    (d : Dev) : (rom.issue p d).2.flash x = d.flash x := by
  rw [Rom.issue]
  split
  · exact Prim.apply_of_not_mem h
  · rfl

theorem rawFlashErase_flash_of_not_mem (h : x < offset ∨ offset + len ≤ x)
    (d : Dev) : (rawFlashErase rom offset len d).2.flash x = d.flash x := by
  rw [rawFlashErase]
  split
  · exact issue_flash_of_not_mem rom h d
  · rfl

theorem rawFlashWrite_flash_of_not_mem
    (h : x < offset ∨ offset + data.length ≤ x) (d : Dev) :
    (rawFlashWrite rom offset data d).2.flash x = d.flash x := by
  rw [rawFlashWrite]
  split
  · exact issue_flash_of_not_mem rom h d
  · rfl

/-! ### What the driver writes when nothing fails -/

section Reliable

variable {rom}

theorem Rom.Reliable.issue_eq (h : rom.Reliable) (p : Prim) (d : Dev) :
    rom.issue p d = (0, { flash := p.apply d.flash, log := d.log ++ [p] }) := by
  rw [Rom.issue, h, if_pos rfl]

theorem Rom.Reliable.rawFlashErase_eq (h : rom.Reliable) (offset : ℕ) (hlen : 0 < len)
    (hl : len < 2 ^ 31) (hr : offset + len ≤ flashTotalSize) (d : Dev) :
    rawFlashErase rom offset len d =
      (0, { flash := erase d.flash offset len, log := d.log ++ [.erase offset len] }) := by
  rw [rawFlashErase, if_pos ((rawFlashRangeOk_iff hl).mpr ⟨hlen, hr⟩), h.issue_eq]
  rfl

theorem Rom.Reliable.rawFlashWrite_eq (h : rom.Reliable)
    (hne : 0 < data.length) (hl : data.length < 2 ^ 31)
    (hr : offset + data.length ≤ flashTotalSize) (d : Dev) :
    rawFlashWrite rom offset data d =
      (0, { flash := program d.flash offset data, log := d.log ++ [.program offset data] }) := by
  rw [rawFlashWrite, if_pos ((rawFlashRangeOk_iff hl).mpr ⟨hne, hr⟩), h.issue_eq]
  rfl

/-- A fast write of nothing is refused. -/
theorem rawFlashWriteFast_nil (rom : Rom) (offset : ℕ) (d : Dev) :
    rawFlashWriteFast rom offset [] d = (-1, d) := by
  simp [rawFlashWriteFast, rawFlashRangeOk]

/-- **A fast write of a non-empty range on the device programs exactly its bytes.** -/
theorem Rom.Reliable.rawFlashWriteFast_eq (h : rom.Reliable) (offset : ℕ) (data : List UInt8)
    (hne : 0 < data.length) (hl : data.length < 2 ^ 31)
    (hr : offset + data.length ≤ flashTotalSize) (d : Dev) :
    (rawFlashWriteFast rom offset data d).1 = 0 ∧
      (rawFlashWriteFast rom offset data d).2.flash = program d.flash offset data := by
  rw [rawFlashWriteFast, if_pos ((rawFlashRangeOk_iff hl).mpr ⟨hne, hr⟩)]
  by_cases h4 : data.length ≤ 4
  · rw [if_pos h4, h.rawFlashWrite_eq hne hl hr]
    exact ⟨rfl, rfl⟩
  rw [if_neg h4]
  have hlen : 4 < data.length := by omega
  have hht := fastHead_add_fastTail_le offset hlen
  obtain ⟨r, hrdef⟩ : ∃ r, fastHead offset = r := ⟨_, rfl⟩
  obtain ⟨rr, hrrdef⟩ : ∃ rr, fastTail offset data.length = rr := ⟨_, rfl⟩
  have hhead : fastWriteHead rom offset data d =
      (0, ⟨program d.flash offset (data.take r), (fastWriteHead rom offset data d).2.log⟩) := by
    rw [fastWriteHead, hrdef]
    split
    next hr0 =>
      have hlt : (data.take r).length = r := by
        rw [length_take]
        omega
      rw [h.rawFlashWrite_eq (by omega) (by omega) (by omega)]
    next hr0 =>
      have hr0' : r = 0 := by simpa using hr0
      rw [hr0', take_zero, program_nil]
  have hmid : ∀ e : Dev, fastWriteMiddle rom offset data e =
      (0, ⟨program e.flash (offset + r) ((data.drop r).take (data.length - r - rr)),
        (fastWriteMiddle rom offset data e).2.log⟩) := by
    intro e
    have hwords := four_dvd_middle data.length offset
    rw [hrdef, hrrdef] at hwords
    have htl : ((data.drop r).take (data.length - r - rr)).length = data.length - r - rr := by
      rw [length_take, length_drop]
      omega
    rw [fastWriteMiddle, fmcContinuousProgram, hrdef, hrrdef, htl, hwords, take_of_length_le
      (le_of_eq htl), h.issue_eq]
    rfl
  have htail : ∀ e : Dev, fastWriteTail rom offset data 0 e =
      (0, ⟨program e.flash (offset + (data.length - rr)) (data.drop (data.length - rr)),
        (fastWriteTail rom offset data 0 e).2.log⟩) := by
    intro e
    have htl : (data.drop (data.length - rr)).length = rr := by
      rw [length_drop]
      omega
    rw [fastWriteTail, hrrdef]
    split
    next hr0 =>
      rw [h.rawFlashWrite_eq (by omega) (by omega) (by omega)]
      have : offset + data.length - rr = offset + (data.length - rr) := by omega
      rw [this]
    next hr0 =>
      have hr0' : data.drop (data.length - rr) = [] := by
        refine drop_eq_nil_of_le ?_
        omega
      rw [hr0', program_nil]
  rw [hhead]
  simp only [ne_eq, not_true_eq_false, if_false]
  rw [hmid]
  rw [htail]
  refine ⟨rfl, ?_⟩
  have hparts := program_parts d.flash offset hlen
  rw [hrdef, hrrdef] at hparts
  rw [← hparts, show offset + data.length - rr = offset + (data.length - rr) by omega]

end Reliable

end Gd32
