import Gd32Firmware.Plf.RawFlash

/-!
# Reading flash under a mapping

The flash controller shows the second image at the addresses of the first while the second one
runs. `raw_flash_read` is meant to hide this: it looks at where a range begins, switches the
mapping off or on for the whole read, or moves the address, and puts the mapping back.

| image | the range begins in | read at | mapping |
|---|---|---|---|
| 1 | image 0 | its own address | off |
| 1 | image 1 | the address in image 0 | on |
| 1 | elsewhere | its own address | on |
| 0 | image 1 | the address in image 0 | on |
| 0 | elsewhere | its own address | off |

A range that goes on behind the part it begins in is read under the same mapping throughout. This
is right where the mapping is off, and shows other bytes in two cases: image 1 runs and the range
leads from the boot loader into image 0, or the range leads out of image 1
(`rawFlashReadMapped_right_iff`).
-/

namespace Gd32

open NorFlash

/-! ### The controller -/

/-- `rom_flash_read`, through the flash controller. -/
def romFlashRead (o : FmcOffset) (f : Flash) (a n : ℕ) : List UInt8 :=
  (List.range n).map fun i => f (o.addr (a + i))

/-- `fmc_offset_value_config`. -/
def FmcOffset.setValue (o : FmcOffset) (value : ℕ) : FmcOffset := { o with value := value }

/-- `raw_flash_read` of `len` bytes under the mapping `o`, when `rom_flash_read` succeeds: the
return code, the bytes copied to the buffer and the mapping left behind. -/
def rawFlashReadMapped (o : FmcOffset) (offset len : ℕ) (f : Flash) :
    (ℤ × List UInt8) × FmcOffset :=
  if rawFlashRangeOk offset len then
    if 0 < o.value then
      -- working on image 1
      if reImg0Offset ≤ offset ∧ offset < reImg1Offset then
        let off := o.setValue 0
        ((0, romFlashRead off f offset len), off.setValue o.value)
      else if reImg1Offset ≤ offset ∧ offset < reImg1End then
        ((0, romFlashRead o f (offset - (reImg1Offset - reImg0Offset)) len), o)
      else ((0, romFlashRead o f offset len), o)
    else if reImg1Offset ≤ offset ∧ offset < reImg1End then
      -- working on image 0
      let on := fmcOffset imgOffset
      ((0, romFlashRead on f (offset - (reImg1Offset - reImg0Offset)) len), ⟨0x1fff, 0, 0⟩)
    else ((0, romFlashRead o f offset len), o)
  else ((-1, []), o)

/-- The mapping while an image runs: the one of `flash_offset_mapping` for image 1, and for image 0
one that moves nothing. -/
def FmcOffset.OfImage (running : ℕ) (o : FmcOffset) : Prop :=
  if running = 0 then o.value = 0 else o = fmcOffset imgOffset

theorem addr_of_value_zero {o : FmcOffset} (h : o.value = 0) (a : ℕ) : o.addr a = a := by
  rw [FmcOffset.addr, h, Nat.zero_mul, Nat.add_zero, ite_self]

theorem addr_fmcOffset (value a : ℕ) : (fmcOffset value).addr a =
    if reImg0Offset ≤ a ∧ a < reImg1Offset then a + value * flashPageSize else a := by
  have hconsts : reImg0Offset = 0xA000 ∧ reImg1Offset = 0x1EA000 ∧ flashPageSize = 0x1000 :=
    ⟨rfl, rfl, rfl⟩
  have hpages : (fmcOffset value).spage = 0xA ∧ (fmcOffset value).epage = 0x1E9 ∧
      (fmcOffset value).value = value := ⟨rfl, rfl, rfl⟩
  refine if_congr ?_ rfl rfl
  rw [hpages.1, hpages.2.1, hconsts.1, hconsts.2.1, hconsts.2.2]
  omega

theorem romFlashRead_off {o : FmcOffset} (h : o.value = 0) (f : Flash) (a n : ℕ) :
    romFlashRead o f a n = read f a n :=
  List.map_congr_left fun i _ => by rw [addr_of_value_zero h]

/-- Two reads agree when they agree byte by byte. -/
theorem romFlashRead_eq_iff (o : FmcOffset) (f : Flash) (a offset n : ℕ) :
    romFlashRead o f a n = read f offset n ↔
      ∀ x, offset ≤ x → x < offset + n → f (o.addr (a + (x - offset))) = f x := by
  rw [romFlashRead, NorFlash.read, List.map_inj_left]
  constructor
  · rintro h x h1 h2
    have hx := h (x - offset) (List.mem_range.mpr (by omega))
    rwa [Nat.add_sub_cancel' h1] at hx
  · rintro h i hi
    have hx := h (offset + i) (by omega) (by have := List.mem_range.mp hi; omega)
    rwa [Nat.add_sub_cancel_left] at hx

/-! ### The reads that are right -/

/-- The bytes that are read under a mapping that is not meant for them: behind the boot loader, in
image 0, while image 1 runs, and behind image 1. The controller shows for each of them the byte
at another place. -/
def ReadsElsewhere (running offset len : ℕ) (x y : ℕ) : Prop :=
  offset ≤ x ∧ x < offset + len ∧
    ((running ≠ 0 ∧ offset < reImg0Offset ∧ reImg0Offset ≤ x ∧ x < reImg1Offset ∧
        y = x + (reImg1Offset - reImg0Offset)) ∨
      (reImg1Offset ≤ offset ∧ offset < reImg1End ∧ reImg1End ≤ x ∧
        y = x - (reImg1Offset - reImg0Offset)))

/-- `raw_flash_read` gives the bytes of the range, and `FMC_OFVR` is what it was. -/
def ReadMappedRight (o : FmcOffset) (offset len : ℕ) (f : Flash) : Prop :=
  (rawFlashReadMapped o offset len f).1 = (0, read f offset len) ∧
    (rawFlashReadMapped o offset len f).2.value = o.value

section Right

variable {o : FmcOffset} {running offset len : ℕ}

theorem addr_imgOffset (a : ℕ) : (fmcOffset imgOffset).addr a =
    if reImg0Offset ≤ a ∧ a < reImg1Offset then a + (reImg1Offset - reImg0Offset) else a :=
  addr_fmcOffset imgOffset a

/-- A range that begins in image 1 is read through image 0: right up to the end of image 1. -/
theorem romFlashRead_image1 (h1 : reImg1Offset ≤ offset) (h2 : offset < reImg1End) (f : Flash) :
    romFlashRead (fmcOffset imgOffset) f (offset - (reImg1Offset - reImg0Offset)) len =
        read f offset len ↔
      ∀ x y, ReadsElsewhere running offset len x y → f y = f x := by
  have hconsts : reImg0Offset = 0xA000 ∧ reImg1Offset = 0x1EA000 ∧ reImg1End = 0x3CA000 :=
    ⟨rfl, rfl, rfl⟩
  rw [romFlashRead_eq_iff]
  constructor
  · rintro h x y ⟨hx1, hx2, ⟨-, hlow, -⟩ | ⟨-, -, hend, hy⟩⟩
    · omega
    · have hx := h x hx1 hx2
      rw [hy]
      rwa [addr_imgOffset, if_neg (by omega), show offset - (reImg1Offset - reImg0Offset) +
        (x - offset) = x - (reImg1Offset - reImg0Offset) by omega] at hx
  · intro h x hx1 hx2
    rw [addr_imgOffset]
    by_cases hin : x < reImg1End
    · rw [if_pos (by omega)]
      congr 1
      omega
    · rw [if_neg (by omega)]
      have hy : offset - (reImg1Offset - reImg0Offset) + (x - offset) =
          x - (reImg1Offset - reImg0Offset) := by omega
      rw [hy]
      exact h x _ ⟨hx1, hx2, Or.inr ⟨h1, h2, Nat.not_lt.mp hin, rfl⟩⟩

/-- A range that begins outside the images is read with the mapping on: right but for the bytes of
image 0. -/
theorem romFlashRead_outside (hrun : running ≠ 0) (h0 : ¬(reImg0Offset ≤ offset ∧
      offset < reImg1Offset)) (h1 : ¬(reImg1Offset ≤ offset ∧ offset < reImg1End)) (f : Flash) :
    romFlashRead (fmcOffset imgOffset) f offset len = read f offset len ↔
      ∀ x y, ReadsElsewhere running offset len x y → f y = f x := by
  rw [romFlashRead_eq_iff]
  constructor
  · rintro h x y ⟨hx1, hx2, ⟨-, -, h3, h4, hy⟩ | ⟨h3, h4, -⟩⟩
    · have hx := h x hx1 hx2
      rw [hy]
      rwa [Nat.add_sub_cancel' hx1, addr_imgOffset, if_pos ⟨h3, h4⟩] at hx
    · exact absurd ⟨h3, h4⟩ h1
  · intro h x hx1 hx2
    rw [Nat.add_sub_cancel' hx1, addr_imgOffset]
    split
    · next hin =>
      refine h x _ ⟨hx1, hx2, Or.inl ⟨hrun, ?_, hin.1, hin.2, rfl⟩⟩
      by_contra hge
      exact h0 ⟨by omega, by omega⟩
    · rfl

/-- **A read is right exactly when** the bytes that are read under a mapping not meant for them
are the same at the place that the controller shows instead. -/
theorem rawFlashReadMapped_right_iff (ho : o.OfImage running) (hpos : 0 < len)
    (hfit : offset + len ≤ flashTotalSize) (f : Flash) :
    ReadMappedRight o offset len f ↔
      ∀ x y, ReadsElsewhere running offset len x y → f y = f x := by
  have hconsts : reImg0Offset = 0xA000 ∧ reImg1Offset = 0x1EA000 ∧ reImg1End = 0x3CA000 ∧
      flashTotalSize = 0x400000 := ⟨rfl, rfl, rfl, rfl⟩
  have hok : rawFlashRangeOk offset len = true :=
    (rawFlashRangeOk_iff (by omega)).mpr ⟨hpos, hfit⟩
  rw [ReadMappedRight, rawFlashReadMapped, if_pos hok]
  by_cases hrun : running = 0
  · -- image 0 runs
    rw [FmcOffset.OfImage, if_pos hrun] at ho
    rw [if_neg (by omega)]
    by_cases h1 : reImg1Offset ≤ offset ∧ offset < reImg1End
    · rw [if_pos h1, ← romFlashRead_image1 h1.1 h1.2 f]
      simp [ho]
    · rw [if_neg h1, romFlashRead_off ho]
      refine iff_of_true ⟨rfl, rfl⟩ ?_
      rintro x y ⟨-, -, ⟨hne, -⟩ | ⟨h2, h3, -⟩⟩
      · exact absurd hrun hne
      · exact absurd ⟨h2, h3⟩ h1
  · -- image 1 runs
    rw [FmcOffset.OfImage, if_neg hrun] at ho
    subst ho
    rw [if_pos (show 0 < (fmcOffset imgOffset).value by decide)]
    by_cases h0 : reImg0Offset ≤ offset ∧ offset < reImg1Offset
    · rw [if_pos h0]
      refine iff_of_true ⟨?_, rfl⟩ ?_
      · exact congrArg _ (romFlashRead_off rfl f offset len)
      · rintro x y ⟨-, -, ⟨-, hlow, -⟩ | ⟨h2, -⟩⟩
        · omega
        · omega
    · rw [if_neg h0]
      by_cases h1 : reImg1Offset ≤ offset ∧ offset < reImg1End
      · rw [if_pos h1, ← romFlashRead_image1 h1.1 h1.2 f]
        simp
      · rw [if_neg h1, ← romFlashRead_outside hrun h0 h1 f]
        simp

/-- The read of a range on the device is the one that looks at the running image alone. -/
theorem rawFlashRead_eq_mapped (ho : o.OfImage running) (f : Flash) (data : List UInt8)
    (hok : rawFlashRangeOk offset data.length = true) :
    rawFlashRead running offset none f data = (rawFlashReadMapped o offset data.length f).1 := by
  rw [rawFlashRead, rawFlashReadMapped, if_pos hok, if_pos hok, rawFlashReadAt]
  by_cases hrun : running = 0
  · rw [FmcOffset.OfImage, if_pos hrun] at ho
    have hvalue : ¬0 < o.value := by omega
    rw [if_neg (not_not_intro hrun), if_neg hvalue]
    by_cases h1 : reImg1Offset ≤ offset ∧ offset < reImg1End
    · rw [if_pos h1, if_pos h1]
      rfl
    · have hoff : romFlashRead (fmcOffset 0) f offset data.length =
          romFlashRead o f offset data.length := by
        rw [romFlashRead_off ho, romFlashRead_off rfl]
      rw [if_neg h1, if_neg h1, ← hoff]
      rfl
  · rw [FmcOffset.OfImage, if_neg hrun] at ho
    subst ho
    rw [if_pos hrun, if_pos (show 0 < (fmcOffset imgOffset).value by decide)]
    by_cases h0 : reImg0Offset ≤ offset ∧ offset < reImg1Offset
    · rw [if_pos h0, if_pos h0]
      rfl
    · rw [if_neg h0, if_neg h0]
      split <;> rfl

end Right

theorem rawFlashRead_eq_mapped_image1 :
    rawFlashRead 1 0x1E9000 none UInt8.ofNat [0, 0] =
      (rawFlashReadMapped (fmcOffset imgOffset) 0x1E9000 2 UInt8.ofNat).1 :=
  rawFlashRead_eq_mapped (show (fmcOffset imgOffset).OfImage 1 from rfl) UInt8.ofNat [0, 0]
    (by decide)

/-- Image 1 runs: a range in image 0 is read, and one that leads from it into image 1. -/
theorem rawFlashReadMapped_right_iff_image0 :
    ReadMappedRight (fmcOffset imgOffset) 0x1E9000 0x2000 UInt8.ofNat := by
  have himage : (fmcOffset imgOffset).OfImage 1 := rfl
  refine (rawFlashReadMapped_right_iff himage (by decide) (by decide) UInt8.ofNat).mpr ?_
  rintro x y ⟨-, -, ⟨-, hlow, -⟩ | ⟨h2, -⟩⟩
  · exact absurd hlow (by decide)
  · exact absurd h2 (by decide)

/-- **Behind the boot loader, image 1 is read for image 0**: with different first bytes in the two
images, the last byte of the boot loader and the byte behind it are not read right. -/
theorem not_rawFlashReadMapped_right :
    ¬ReadMappedRight (fmcOffset imgOffset) 0x9FFF 2 fun x => if x = 0xA000 then 0 else 0xFF := by
  intro h
  exact absurd h.1 (by decide)

end Gd32
