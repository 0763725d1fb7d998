import Gd32Firmware.Ota.Session

/-!
# Reassembling an image from chunks

A download hands the image over in chunks. Under the protocol of `tkl_ota_data_process` each
call passes the bytes the previous call left unconsumed followed by a new chunk; that is
`deliver`, and `Reassembled` says that it went well: every call returned
`OPRT_OK`, nothing is left over, the counter has reached the length of the image and the slot
holds it.

With flash calls that do not fail the outcome depends on the length of the image alone. After
every chunk but the last the session is in step with the image
(`InStep`): what it has consumed is a number of whole blocks and is in the slot, and
the slot is blank from there to the erase frontier. The last chunk decides.

* Below 512 bytes `total_len - 512` wraps around, so every packet is handed back.
* At a multiple of 512 the block loop writes all of the image, and the tail write that follows
  is asked for an empty range, which `raw_flash_write_fast` refuses.
* Otherwise the tail write completes the image.
-/

namespace Gd32.Ota

open NorFlash List

/-! ### The protocol -/

/-- **A download**: every chunk is passed behind the bytes left over by the call before. The
result is what is left over after the last call, with the session; `none` when a call does
not return `OPRT_OK`. -/
def deliver (rom : Rom) (totalLen : ℕ) :
    List UInt8 → List (List UInt8) → Session → Option (List UInt8 × Session)
  | left, [], s => some (left, s)
  | left, c :: cs, s =>
    if h : totalLen < 2 ^ 32 ∧ (left ++ c).length < 2 ^ 32 then
      match tklOtaDataProcess rom (some ⟨totalLen, left ++ c, h.1, h.2⟩) (some 0) s with
      | (.ok, some r, s') =>
        deliver rom totalLen ((left ++ c).drop ((left ++ c).length - r)) cs s'
      | _ => none
    else none

/-- The download of `image` went well and the slot at `start` holds it. -/
def Reassembled (rom : Rom) (start : ℕ) (image : List UInt8) (chunks : List (List UInt8))
    (s : Session) : Prop :=
  ∃ s' p, deliver rom image.length [] chunks s = some ([], s') ∧ s'.ugProc = some p ∧
    p.recvDataCnt = image.length ∧ read s'.dev.flash start image.length = image

/-! ### The two loops when nothing fails -/

section Loops

variable {rom : Rom}

/-- **The erase loop** moves the frontier to a sector boundary at or beyond `limit`, leaves
the bytes below the old frontier alone and blanks the ones above. `top` is a boundary it
does not need to cross. -/
theorem eraseAhead_spec (h : rom.Reliable) {limit top : ℕ} (htop : top ≤ flashTotalSize)
    (hlim : limit ≤ top) (rest : List UInt8) (p : UgProc) (d : Dev)
    (hle : p.eraseStartAddr ≤ top) (hdvd : eraseSize ∣ top - p.eraseStartAddr) :
    ∃ e d', eraseAhead rom limit rest p d = ⟨true, rest, { p with eraseStartAddr := e }, d'⟩ ∧
      limit ≤ e ∧ p.eraseStartAddr ≤ e ∧ e ≤ top ∧ eraseSize ∣ top - e ∧
      (∀ x < p.eraseStartAddr, d'.flash x = d.flash x) ∧
      Blank d'.flash p.eraseStartAddr (e - p.eraseStartAddr) := by
  rw [eraseAhead]
  by_cases hlt : p.eraseStartAddr < limit
  swap
  · rw [if_neg hlt]
    refine ⟨p.eraseStartAddr, d, rfl, by omega, le_rfl, hle, hdvd, fun _ _ => rfl, ?_⟩
    intro x h1 h2
    omega
  -- one sector is erased, and the rest is the loop from the next frontier
  have hroom : p.eraseStartAddr + eraseSize ≤ top := by
    obtain ⟨k, hk⟩ := hdvd
    rcases k with _ | k
    · omega
    · rw [Nat.mul_succ] at hk
      omega
  have hwrap : u32 (p.eraseStartAddr + eraseSize) = p.eraseStartAddr + eraseSize :=
    u32_of_lt (lt_of_le_of_lt (hroom.trans htop) (by decide))
  have he := h.rawFlashErase_eq p.eraseStartAddr (show 0 < eraseSize by decide) (by decide)
    (hroom.trans htop) d
  rw [if_pos hlt, dif_neg (by rw [he]; simp), he, hwrap]
  have hdvd' : eraseSize ∣ top - (p.eraseStartAddr + eraseSize) := by
    rw [← Nat.sub_sub]
    exact Nat.dvd_sub hdvd dvd_rfl
  obtain ⟨e, d', heq, h1, h2, h3, h4, hkeep, hblank⟩ := eraseAhead_spec h htop hlim rest
    { p with eraseStartAddr := p.eraseStartAddr + eraseSize }
    ⟨erase d.flash p.eraseStartAddr eraseSize, d.log ++ [.erase p.eraseStartAddr eraseSize]⟩
    hroom hdvd'
  simp only at heq h2 hkeep hblank
  refine ⟨e, d', heq, h1, by omega, h3, h4, fun x hx => ?_, fun x hx1 hx2 => ?_⟩
  · rw [hkeep x (by omega)]
    exact erase_of_disjoint (Or.inl hx)
  · rcases Nat.lt_or_ge x (p.eraseStartAddr + eraseSize) with hx | hx
    · rw [hkeep x hx]
      exact blank_erase _ _ _ x hx1 hx
    · exact hblank x hx (by omega)
termination_by top - p.eraseStartAddr
decreasing_by
  simp only [eraseSize, flashPageSize] at *
  omega

theorem UgProc.advance_advance (p : UgProc) (m n : ℕ) :
    (p.advance m).advance n = p.advance (m + n) := by
  simp only [UgProc.advance, u32, Nat.mod_add_mod, Nat.add_assoc]

theorem UgProc.advance_zero {p : UgProc} (h : p.flashOffset < 2 ^ 32)
    (h' : p.recvDataCnt < 2 ^ 32) : p.advance 0 = p := by
  simp only [UgProc.advance, Nat.add_zero, u32_of_lt h, u32_of_lt h']

@[simp] theorem UgProc.advance_startAddr (p : UgProc) (n : ℕ) :
    (p.advance n).startAddr = p.startAddr := rfl

@[simp] theorem UgProc.advance_eraseStartAddr (p : UgProc) (n : ℕ) :
    (p.advance n).eraseStartAddr = p.eraseStartAddr := rfl

/-- The bytes of a buffer that form whole blocks. -/
def wholeBlocks (n : ℕ) : ℕ := n / imageWriteSize * imageWriteSize

theorem wholeBlocks_le (n : ℕ) : wholeBlocks n ≤ n := Nat.div_mul_le_self _ _

theorem wholeBlocks_of_lt {n : ℕ} (h : n < imageWriteSize) : wholeBlocks n = 0 := by
  rw [wholeBlocks, Nat.div_eq_of_lt h, Nat.zero_mul]

theorem lt_wholeBlocks_add (n : ℕ) : n < wholeBlocks n + imageWriteSize := by
  simp only [wholeBlocks, imageWriteSize]
  omega

theorem wholeBlocks_of_le {n : ℕ} (h : imageWriteSize ≤ n) :
    wholeBlocks n = imageWriteSize + wholeBlocks (n - imageWriteSize) := by
  simp only [wholeBlocks, imageWriteSize] at *
  omega

/-- **The block loop** programs the whole blocks of the packet and leaves the rest. -/
theorem writeBlocks_spec (h : rom.Reliable) (rest : List UInt8) (p : UgProc) (d : Dev)
    (hrecv : p.recvDataCnt < 2 ^ 32)
    (hfit : p.startAddr + p.flashOffset + rest.length ≤ flashTotalSize) :
    ∃ log, writeBlocks rom rest p d =
      ⟨true, rest.drop (wholeBlocks rest.length), p.advance (wholeBlocks rest.length),
        program d.flash (p.startAddr + p.flashOffset) (rest.take (wholeBlocks rest.length)),
        log⟩ := by
  have htot : flashTotalSize < 2 ^ 32 := by decide
  induction hn : rest.length using Nat.strong_induction_on generalizing rest p d with
  | _ n ih =>
  subst hn
  rw [writeBlocks]
  by_cases hlen : imageWriteSize ≤ rest.length
  swap
  · rw [if_neg hlen, wholeBlocks_of_lt (by omega)]
    refine ⟨d.log, ?_⟩
    simp [UgProc.advance_zero (show p.flashOffset < 2 ^ 32 by omega) hrecv]
  have hpos : 0 < imageWriteSize := by decide
  have hlt : (rest.take imageWriteSize).length = imageWriteSize := by
    rw [length_take]
    omega
  rw [if_pos hlen, u32_of_lt (by omega)]
  obtain ⟨hw, hf⟩ := h.rawFlashWriteFast_eq (p.startAddr + p.flashOffset)
    (rest.take imageWriteSize) (by omega) (by rw [hlt]; decide) (by omega) d
  rw [if_neg (by rw [hw]; simp)]
  have hoff : (p.advance imageWriteSize).flashOffset = p.flashOffset + imageWriteSize :=
    u32_of_lt (by omega)
  have hdrop : (rest.drop imageWriteSize).length < rest.length := by
    rw [length_drop]
    omega
  obtain ⟨log, hrec⟩ := ih _ hdrop (rest.drop imageWriteSize) (p.advance imageWriteSize)
    (rawFlashWriteFast rom (p.startAddr + p.flashOffset) (rest.take imageWriteSize) d).2
    (u32_lt _) (by
      rw [hoff, UgProc.advance_startAddr, length_drop]
      omega) rfl
  refine ⟨log, ?_⟩
  rw [hrec, hf, hoff, wholeBlocks_of_le hlen, length_drop, UgProc.advance_startAddr]
  rw [UgProc.advance_advance, drop_drop, take_add, program_append, hlt, Nat.add_assoc]

end Loops

/-! ### The session in step with the image -/

/-- What the proofs need of a slot: it lies on the device and is made of whole sectors. -/
structure SlotOk (slot : ℕ × ℕ) : Prop where
  onDevice : slot.1 + slot.2 ≤ flashTotalSize
  sectors : eraseSize ∣ slot.2

theorem slotOk_of_inactiveSlot {idx : ℕ} {slot : ℕ × ℕ} (h : inactiveSlot idx = some slot) :
    SlotOk slot := by
  rw [inactiveSlot] at h
  split at h
  · cases h
    exact ⟨by decide, by decide⟩
  · split at h
    · cases h
      exact ⟨by decide, by decide⟩
    · cases h

/-- **The session is in step with the image** after `n` of its bytes: they form whole blocks
and are in the slot, and the slot is blank from there to the erase frontier, which is a
sector boundary of the slot. -/
structure InStep (slot : ℕ × ℕ) (image : List UInt8) (n : ℕ) (p : UgProc) (d : Dev) : Prop where
  start : p.startAddr = slot.1
  recv : p.recvDataCnt = n
  offset : p.flashOffset = n
  blocks : imageWriteSize ∣ n
  below : slot.1 + n ≤ p.eraseStartAddr
  frontier : p.eraseStartAddr ≤ slot.1 + slot.2
  aligned : eraseSize ∣ slot.1 + slot.2 - p.eraseStartAddr
  held : read d.flash slot.1 n = image.take n
  blankAbove : Blank d.flash (slot.1 + n) (p.eraseStartAddr - (slot.1 + n))

theorem inStep_fresh {slot : ℕ × ℕ} (hs : SlotOk slot) (image : List UInt8) (idx : ℕ) (d : Dev) :
    InStep slot image 0 (.fresh idx slot) d where
  start := rfl
  recv := rfl
  offset := rfl
  blocks := dvd_zero _
  below := le_rfl
  frontier := Nat.le_add_right _ _
  aligned := by
    simp only [UgProc.fresh, Nat.add_sub_cancel_left]
    exact hs.sectors
  held := by simp
  blankAbove := fun x h1 h2 => by
    simp only [UgProc.fresh] at h1 h2
    omega

/-- The bytes delivered up to `m` and not consumed up to `n`. -/
def window (image : List UInt8) (n m : ℕ) : List UInt8 := (image.take m).drop n

theorem length_window {image : List UInt8} {n m : ℕ} (hm : m ≤ image.length) :
    (window image n m).length = m - n := by
  rw [window, length_drop, length_take, Nat.min_eq_left hm]

theorem take_window (image : List UInt8) {n m k : ℕ} (hk : n + k ≤ m) :
    image.take n ++ (window image n m).take k = image.take (n + k) := by
  have h : (window image n m).take k = (image.drop n).take k := by
    rw [window, drop_take, take_take, Nat.min_eq_left (by omega)]
  rw [h, ← take_add]

theorem drop_window (image : List UInt8) (n m k : ℕ) :
    (window image n m).drop k = window image (n + k) m := by
  rw [window, window, drop_drop]

theorem window_append (image : List UInt8) {n m : ℕ} (hn : n ≤ m) (hm : m ≤ image.length)
    (c : List UInt8) (hc : c <+: image.drop m) :
    window image n m ++ c = window image n (m + c.length) := by
  obtain ⟨r, hr⟩ := hc
  have h : image.take (m + c.length) = image.take m ++ c := by
    rw [take_add, ← hr, take_left' rfl]
  rw [window, window, h, drop_append_of_le_length]
  rw [length_take]
  omega

section Packet

variable {rom : Rom} {slot : ℕ × ℕ} {image : List UInt8} {n m : ℕ} {p : UgProc} {d : Dev}

/-- **The two loops keep the session in step**: on a packet that holds the bytes `n` to `m` of
the image they consume its whole blocks, and the slot is erased up to `m`. -/
theorem InStep.loops (h : rom.Reliable) (hs : SlotOk slot) (hi : InStep slot image n p d)
    (hn : n ≤ m) (hm : m ≤ image.length) (hfit : image.length ≤ slot.2) (pk : Pack)
    (hpk : pk.data = window image n m) :
    ∃ q e, processPacket rom pk p d = writeLast rom pk.totalLen
        ⟨true, window image (n + wholeBlocks (m - n)) m, q, e⟩ ∧
      InStep slot image (n + wholeBlocks (m - n)) q e ∧ slot.1 + m ≤ q.eraseStartAddr := by
  have hdev := hs.onDevice
  have htot : flashTotalSize < 2 ^ 32 := by decide
  have hlen : pk.data.length = m - n := by rw [hpk, length_window hm]
  have hlimit : u32 (p.recvDataCnt + p.startAddr + pk.len) = slot.1 + m := by
    rw [Pack.len, hlen, hi.recv, hi.start, u32_of_lt (by omega)]
    omega
  have htop : slot.1 + m ≤ slot.1 + slot.2 := by omega
  obtain ⟨e, d', heq, h1, h2, h3, h4, hkeep, hblank⟩ := eraseAhead_spec h hdev htop pk.data p d
    hi.frontier hi.aligned
  -- what was blank stays so, and the newly erased sectors join it
  have hblank' : Blank d'.flash (slot.1 + n) (e - (slot.1 + n)) := by
    intro x hx1 hx2
    rcases Nat.lt_or_ge x p.eraseStartAddr with hx | hx
    · rw [hkeep x hx]
      exact hi.blankAbove x hx1 (by omega)
    · exact hblank x hx (by omega)
  have hrecv := hi.recv
  have hoff := hi.offset
  obtain ⟨log, hw⟩ := writeBlocks_spec h pk.data { p with eraseStartAddr := e } d'
    (by simp only; omega) (by simp only [hi.start, hlen]; omega)
  have hk := wholeBlocks_le (m - n)
  rw [hlen] at hw
  obtain ⟨k, hkdef⟩ : ∃ k, wholeBlocks (m - n) = k := ⟨_, rfl⟩
  obtain ⟨q, hq⟩ : ∃ q, ({ p with eraseStartAddr := e } : UgProc).advance k = q := ⟨_, rfl⟩
  have g1 : q.startAddr = slot.1 := by rw [← hq, UgProc.advance_startAddr, hi.start]
  have g2 : q.recvDataCnt = n + k := by
    rw [← hq, UgProc.advance]
    exact (u32_of_lt (by simp only; omega)).trans (by simp only [hrecv])
  have g3 : q.flashOffset = n + k := by
    rw [← hq, UgProc.advance]
    exact (u32_of_lt (by simp only; omega)).trans (by simp only [hoff])
  have g4 : q.eraseStartAddr = e := by rw [← hq, UgProc.advance_eraseStartAddr]
  rw [hkdef, hpk, drop_window, hq, hi.start, hoff] at hw
  rw [hkdef] at hk ⊢
  have hdata : ((window image n m).take k).length = k := by
    rw [length_take, length_window hm]
    omega
  have hbelow := hi.below
  refine ⟨q, ⟨program d'.flash (slot.1 + n) ((window image n m).take k), log⟩, ?_,
    ⟨g1, g2, g3, ?_, ?_, ?_, ?_, ?_, ?_⟩, by omega⟩
  · rw [processPacket, hlimit, heq]
    simp only [if_true, hpk, hi.start, hoff]
    rw [hw]
    simp only [if_true]
  · rw [← hkdef]
    exact Nat.dvd_add hi.blocks (Nat.dvd_mul_left _ _)
  · omega
  · rw [g4]
    exact h3
  · rw [g4]
    exact h4
  · have hold : read d'.flash slot.1 n = image.take n := by
      rw [← hi.held]
      exact read_congr fun x _ hx => hkeep x (by omega)
    have hblankk : Blank d'.flash (slot.1 + n) ((window image n m).take k).length :=
      hblank'.mono le_rfl (by omega)
    have hnew := read_program_of_blank hblankk
    rw [hdata] at hnew
    rw [read_add, read_program_of_disjoint (Or.inl le_rfl), hold, hnew,
      take_window image (by omega)]
  · refine Blank.program_of_disjoint (hblank'.mono (by omega) (by omega)) (Or.inr ?_)
    omega

/-- Before the last chunk the rest of a packet is kept for later. -/
theorem writeLast_of_lt {q : UgProc} {e : Dev} (hq : q.recvDataCnt = n) (hn : n ≤ m)
    (hm : m < image.length) (hT : image.length < 2 ^ 32) :
    writeLast rom image.length ⟨true, window image n m, q, e⟩ = ⟨true, window image n m, q, e⟩ := by
  rw [writeLast, if_neg]
  rintro ⟨-, hlast⟩
  rw [hq, u32sub_of_le (by omega) hT] at hlast
  simp only [length_window hm.le] at hlast
  omega

/-- With the last chunk the rest of the packet is due. -/
theorem lastPart_of_eq {q : UgProc} (hq : q.recvDataCnt = n) (hn : n ≤ image.length)
    (hT : image.length < 2 ^ 32) (hsize : imageWriteSize ≤ image.length)
    (hrest : image.length < n + imageWriteSize) :
    LastPart image.length (window image n image.length) q := by
  refine ⟨?_, ?_⟩
  · rw [hq, u32sub_of_le hsize hT]
    omega
  · rw [hq, u32sub_of_le hn hT, length_window le_rfl]

/-- **The tail write completes an image** that does not end at a block boundary. -/
theorem InStep.writeLast_ok (h : rom.Reliable) (hs : SlotOk slot) (hi : InStep slot image n p d)
    (hfit : image.length ≤ slot.2) (hn : n < image.length)
    (hsize : imageWriteSize ≤ image.length) (hrest : image.length < n + imageWriteSize)
    (hera : slot.1 + image.length ≤ p.eraseStartAddr) :
    ∃ q e, writeLast rom image.length ⟨true, window image n image.length, p, d⟩ =
        ⟨true, [], q, e⟩ ∧ q.recvDataCnt = image.length ∧
      read e.flash slot.1 image.length = image := by
  have hdev := hs.onDevice
  have htot : flashTotalSize < 2 ^ 32 := by decide
  have hrecv := hi.recv
  have hlen : (window image n image.length).length = image.length - n := length_window le_rfl
  have haddr : u32 (p.startAddr + p.flashOffset) = slot.1 + n := by
    rw [hi.start, hi.offset, u32_of_lt (by omega)]
  obtain ⟨hw, hf⟩ := h.rawFlashWriteFast_eq (slot.1 + n) (window image n image.length) (by omega)
    (by simp only [imageWriteSize] at hrest; omega) (by omega) d
  have hlast := lastPart_of_eq hrecv hn.le (by omega) hsize hrest
  refine ⟨p.advance (window image n image.length).length,
    (rawFlashWriteFast rom (slot.1 + n) (window image n image.length) d).2, ?_, ?_, ?_⟩
  · rw [writeLast, if_pos hlast]
    simp only [haddr]
    rw [if_neg (by rw [hw]; simp)]
  · refine (u32_of_lt ?_).trans ?_ <;> rw [hlen, hrecv] <;> omega
  · have hblank : Blank d.flash (slot.1 + n) (window image n image.length).length :=
      hi.blankAbove.mono le_rfl (by omega)
    have hsplit : image.length = n + (window image n image.length).length := by omega
    have hread : read (program d.flash (slot.1 + n) (window image n image.length)) slot.1
        (n + (window image n image.length).length) = image := by
      rw [read_add, read_program_of_disjoint (Or.inl le_rfl), read_program_of_blank hblank,
        hi.held, window, take_length, take_append_drop]
    rw [hf]
    exact (congrArg _ hsplit).trans hread

variable (rom) in
/-- **The tail write fails on an image of whole blocks**: there is nothing left to write. -/
theorem InStep.writeLast_fail (hi : InStep slot image image.length p d)
    (hT : image.length < 2 ^ 32) (hsize : imageWriteSize ≤ image.length) :
    (writeLast rom image.length ⟨true, window image image.length image.length, p, d⟩).done =
      false := by
  have hlast := lastPart_of_eq hi.recv le_rfl hT hsize (Nat.lt_add_of_pos_right (by decide))
  have hnil : window image image.length image.length = [] :=
    length_eq_zero_iff.mp (by rw [length_window le_rfl, Nat.sub_self])
  rw [writeLast, if_pos hlast]
  simp only [hnil, rawFlashWriteFast_nil]
  rfl

end Packet

/-! ### Runs -/

section Runs

variable {rom : Rom} {slot : ℕ × ℕ} {image : List UInt8} {n m : ℕ} {p : UgProc} {s : Session}

/-- A call on a packet that is not handed back at once. -/
theorem tklOtaDataProcess_of_not_early {pk : Pack} {o : LoopOut} (hp : s.ugProc = some p)
    (hearly : ¬Early pk p) (ho : processPacket rom pk p s.dev = o) (r : ℕ) :
    tklOtaDataProcess rom (some pk) (some r) s =
      (if o.done then .ok else .otaProcessFailed, some o.rest.length,
        { s with ugProc := some o.proc, dev := o.dev }) := by
  subst ho
  simp only [tklOtaDataProcess, hp, if_neg hearly]

theorem tklOtaDataProcess_of_early {pk : Pack} (hp : s.ugProc = some p) (hearly : Early pk p)
    (r : ℕ) : tklOtaDataProcess rom (some pk) (some r) s = (.ok, some pk.len, s) := by
  simp only [tklOtaDataProcess, hp, if_pos hearly]

/-- **One call before the last chunk** returns `OPRT_OK` and keeps the session in step. -/
theorem InStep.step (h : rom.Reliable) (hs : SlotOk slot) (hfit : image.length ≤ slot.2)
    (hp : s.ugProc = some p) (hi : InStep slot image n p s.dev) (hn : n ≤ m)
    (hm : m < image.length) (pk : Pack) (hT : pk.totalLen = image.length)
    (hpk : pk.data = window image n m) :
    ∃ n' s' p', tklOtaDataProcess rom (some pk) (some 0) s = (.ok, some (m - n'), s') ∧
      s'.ugProc = some p' ∧ InStep slot image n' p' s'.dev ∧ n ≤ n' ∧ n' ≤ m := by
  have hlen : pk.len = m - n := by rw [Pack.len, hpk, length_window hm.le]
  by_cases hearly : Early pk p
  · refine ⟨n, s, p, ?_, hp, hi, le_rfl, hn⟩
    rw [tklOtaDataProcess_of_early hp hearly, hlen]
  · obtain ⟨q, e, heq, hi', -⟩ := hi.loops h hs hn hm.le hfit pk hpk
    have hk := wholeBlocks_le (m - n)
    have hTlt := pk.totalLen_lt
    rw [hT, writeLast_of_lt hi'.recv (by omega) hm (by omega)] at heq
    refine ⟨n + wholeBlocks (m - n), { s with ugProc := some q, dev := e }, q, ?_, rfl, hi',
      by omega, by omega⟩
    rw [tklOtaDataProcess_of_not_early hp hearly heq]
    simp only [if_true, length_window hm.le]

/-- The last packet is never handed back: what is missing is less than a block only when the
counter is within a block of the end. -/
theorem not_early_last (hi : InStep slot image n p s.dev) (hn : n ≤ image.length)
    (hsize : imageWriteSize ≤ image.length) (pk : Pack) (hT : pk.totalLen = image.length)
    (hpk : pk.data = window image n image.length) : ¬Early pk p := by
  rintro ⟨hlen, hrecv⟩
  have hTlt := pk.totalLen_lt
  rw [Pack.len, hpk, length_window le_rfl] at hlen
  rw [hi.recv, hT, u32sub_of_le hsize (by omega)] at hrecv
  omega

/-- **The call with the last chunk** of an image that does not end at a block boundary. -/
theorem InStep.last_ok (h : rom.Reliable) (hs : SlotOk slot) (hfit : image.length ≤ slot.2)
    (hp : s.ugProc = some p) (hi : InStep slot image n p s.dev) (hn : n ≤ image.length)
    (hsize : imageWriteSize ≤ image.length) (hmod : ¬imageWriteSize ∣ image.length) (pk : Pack)
    (hT : pk.totalLen = image.length) (hpk : pk.data = window image n image.length) :
    ∃ s' p', tklOtaDataProcess rom (some pk) (some 0) s = (.ok, some 0, s') ∧
      s'.ugProc = some p' ∧ p'.recvDataCnt = image.length ∧
      read s'.dev.flash slot.1 image.length = image := by
  have hearly := not_early_last hi hn hsize pk hT hpk
  obtain ⟨q, e, heq, hi', hera⟩ := hi.loops h hs hn le_rfl hfit pk hpk
  have hk := wholeBlocks_le (image.length - n)
  have hk' := lt_wholeBlocks_add (image.length - n)
  have hlt : n + wholeBlocks (image.length - n) < image.length := by
    refine lt_of_le_of_ne (by omega) fun hc => hmod ?_
    rw [← hc]
    exact hi'.blocks
  obtain ⟨q', e', heq', hrecv, hread⟩ := hi'.writeLast_ok h hs hfit hlt hsize (by omega) hera
  rw [hT, heq'] at heq
  refine ⟨{ s with ugProc := some q', dev := e' }, q', ?_, rfl, hrecv, hread⟩
  rw [tklOtaDataProcess_of_not_early hp hearly heq]
  simp

/-- **The call with the last chunk** of an image of whole blocks does not return
`OPRT_OK`. -/
theorem InStep.last_fail (h : rom.Reliable) (hs : SlotOk slot) (hfit : image.length ≤ slot.2)
    (hp : s.ugProc = some p) (hi : InStep slot image n p s.dev) (hn : n ≤ image.length)
    (hsize : imageWriteSize ≤ image.length) (hmod : imageWriteSize ∣ image.length) (pk : Pack)
    (hT : pk.totalLen = image.length) (hpk : pk.data = window image n image.length) :
    (tklOtaDataProcess rom (some pk) (some 0) s).1 = .otaProcessFailed := by
  have hearly := not_early_last hi hn hsize pk hT hpk
  obtain ⟨q, e, heq, hi', -⟩ := hi.loops h hs hn le_rfl hfit pk hpk
  have hTlt := pk.totalLen_lt
  have hall : n + wholeBlocks (image.length - n) = image.length := by
    have hdvd : imageWriteSize ∣ image.length - n := Nat.dvd_sub hmod hi.blocks
    rw [wholeBlocks, Nat.div_mul_cancel hdvd]
    omega
  rw [hall] at heq hi'
  have hfail := hi'.writeLast_fail rom (by omega) hsize
  rw [tklOtaDataProcess_of_not_early hp hearly heq, hT, hfail]
  rfl

/-- What the call before it consumed is dropped from a packet. -/
theorem drop_packet {n' : ℕ} (hn : n ≤ n') (hm : n' ≤ m) (hml : m ≤ image.length) :
    (window image n m).drop ((window image n m).length - (m - n')) = window image n' m := by
  rw [length_window hml, drop_window]
  congr 1
  omega

/-- A chunk of a cut is followed by nothing exactly when it reaches the end of the image. -/
theorem cut_cons {c : List UInt8} {cs : List (List UInt8)}
    (hne : ∀ x ∈ c :: cs, x ≠ []) (hcut : (c :: cs).flatten = image.drop m)
    (hm : m ≤ image.length) :
    c <+: image.drop m ∧ cs.flatten = image.drop (m + c.length) ∧ m + c.length ≤ image.length ∧
      (m + c.length = image.length ↔ cs = []) := by
  rw [flatten_cons] at hcut
  have hlen := congrArg List.length hcut
  rw [length_append, length_drop] at hlen
  have hrest : cs.flatten = image.drop (m + c.length) := by
    rw [← drop_drop, ← hcut, drop_left' rfl]
  refine ⟨⟨_, hcut⟩, hrest, by omega, ⟨fun heq => ?_, fun hnil => ?_⟩⟩
  · rcases cs with _ | ⟨c', cs⟩
    · rfl
    · exfalso
      have hc' : c' ≠ [] := hne c' (by simp)
      rw [heq, drop_length, flatten_cons] at hrest
      exact hc' (append_eq_nil_iff.mp hrest).1
  · rw [hnil] at hlen
    simp only [flatten_nil, length_nil] at hlen
    omega

/-- **A download of an image of at least a block** reaches its last chunk in step with the
image, and that chunk decides. -/
theorem InStep.deliver (h : rom.Reliable) (hs : SlotOk slot) (hfit : image.length ≤ slot.2)
    (hsize : imageWriteSize ≤ image.length) (chunks : List (List UInt8)) (hnil : chunks ≠ [])
    (hne : ∀ c ∈ chunks, c ≠ []) (hp : s.ugProc = some p) (hi : InStep slot image n p s.dev)
    (hn : n ≤ m) (hm : m ≤ image.length) (hcut : chunks.flatten = image.drop m) :
    (¬imageWriteSize ∣ image.length →
      ∃ s' p', deliver rom image.length (window image n m) chunks s = some ([], s') ∧
        s'.ugProc = some p' ∧ p'.recvDataCnt = image.length ∧
        read s'.dev.flash slot.1 image.length = image) ∧
    (imageWriteSize ∣ image.length →
      deliver rom image.length (window image n m) chunks s = none) := by
  have hdev := hs.onDevice
  have htot : flashTotalSize < 2 ^ 32 := by decide
  induction chunks generalizing n m p s with
  | nil => exact absurd rfl hnil
  | cons c cs ih =>
    obtain ⟨hpre, hrest, hmc, hend⟩ := cut_cons hne hcut hm
    have hdata : window image n m ++ c = window image n (m + c.length) :=
      window_append image hn hm c hpre
    have hlen : (window image n (m + c.length)).length < 2 ^ 32 := by
      rw [length_window hmc]
      omega
    simp only [Ota.deliver, hdata, show image.length < 2 ^ 32 from by omega, hlen, and_self,
      dif_pos]
    rcases eq_or_ne cs [] with hcs | hcs
    · -- the last chunk
      have hfull := hend.mpr hcs
      rw [hcs]
      refine ⟨fun hmod => ?_, fun hmod => ?_⟩
      · obtain ⟨s', p', heq, h1, h2, h3⟩ := hi.last_ok h hs hfit hp (by omega) hsize hmod
          ⟨image.length, window image n (m + c.length), by omega, hlen⟩ rfl
          (congrArg (window image n) hfull)
        rw [heq]
        refine ⟨s', p', ?_, h1, h2, h3⟩
        simp [Ota.deliver]
      · have hfail := hi.last_fail h hs hfit hp (by omega) hsize hmod
          ⟨image.length, window image n (m + c.length), by omega, hlen⟩ rfl
          (congrArg (window image n) hfull)
        split
        next heq =>
          rw [heq] at hfail
          cases hfail
        next => rfl
    · -- a chunk before it
      have hlt : m + c.length < image.length :=
        lt_of_le_of_ne hmc fun hc => hcs (hend.mp hc)
      obtain ⟨n', s', p', heq, hp', hi', h1, h2⟩ := hi.step h hs hfit hp (by omega) hlt
        ⟨image.length, window image n (m + c.length), by omega, hlen⟩ rfl rfl
      rw [heq]
      simp only
      rw [drop_packet h1 h2 hmc]
      exact ih hcs (fun x hx => hne x (by simp [hx])) hp' hi' h2 hmc hrest

variable (rom) in
/-- **A download of less than a block** consumes nothing: `total_len - 512` wraps around and
every packet is handed back. -/
theorem deliver_short (hT : image.length < imageWriteSize) (chunks : List (List UInt8))
    (left : List UInt8) (hcut : left ++ chunks.flatten = image) (hp : s.ugProc = some p)
    (hrecv : p.recvDataCnt = 0) : deliver rom image.length left chunks s = some (image, s) := by
  simp only [imageWriteSize] at hT
  induction chunks generalizing left with
  | nil =>
    rw [flatten_nil, append_nil] at hcut
    rw [Ota.deliver, hcut]
  | cons c cs ih =>
    rw [flatten_cons, ← append_assoc] at hcut
    have hlen : (left ++ c).length ≤ image.length := by
      have h := congrArg List.length hcut
      rw [length_append] at h
      omega
    have hlt : image.length < 2 ^ 32 ∧ (left ++ c).length < 2 ^ 32 := by omega
    have hearly : Early ⟨image.length, left ++ c, hlt.1, hlt.2⟩ p := by
      refine ⟨lt_of_le_of_lt hlen hT, ?_⟩
      rw [hrecv]
      exact Nat.zero_le _
    rw [Ota.deliver, dif_pos hlt, tklOtaDataProcess_of_early hp hearly]
    simp only [Pack.len, Nat.sub_self, drop_zero]
    exact ih (left ++ c) hcut

end Runs

/-! ### When a download succeeds -/

section Outcome

variable {rom : Rom} {idx : ℕ} {slot : ℕ × ℕ} {image : List UInt8} {chunks : List (List UInt8)}

/-- A start on an image that fits opens a fresh session. -/
theorem tklOtaStartNotify_eq (hslot : inactiveSlot idx = some slot) (hpos : 1 ≤ image.length)
    (hfit : image.length ≤ slot.2) (s : Session) :
    tklOtaStartNotify image.length true (some idx) s =
      (.ok, { s with ugProc := some (.fresh idx slot) }) := by
  rw [tklOtaStartNotify, if_neg (by omega), if_neg (by simp)]
  simp only [hslot, if_neg (not_lt.mpr hfit)]

theorem chunks_ne_nil (hpos : 1 ≤ image.length) (hcut : chunks.flatten = image) :
    chunks ≠ [] := by
  rintro rfl
  rw [← hcut] at hpos
  simp at hpos

theorem reassembled_of_not_dvd (h : rom.Reliable) (hslot : inactiveSlot idx = some slot)
    (hfit : image.length ≤ slot.2) (hne : ∀ c ∈ chunks, c ≠ []) (hcut : chunks.flatten = image)
    (hsize : imageWriteSize ≤ image.length) (hmod : ¬imageWriteSize ∣ image.length)
    (s : Session) :
    Reassembled rom slot.1 image chunks { s with ugProc := some (.fresh idx slot) } := by
  have hs := slotOk_of_inactiveSlot hslot
  have hpos : 1 ≤ image.length := le_trans (by decide) hsize
  obtain ⟨s', p', h1, h2, h3, h4⟩ := ((inStep_fresh hs image idx s.dev).deliver h hs hfit hsize
    chunks (chunks_ne_nil hpos hcut) hne (s := { s with ugProc := some (.fresh idx slot) }) rfl
    le_rfl (Nat.zero_le _) (by simpa using hcut)).1 hmod
  exact ⟨s', p', by simpa [window] using h1, h2, h3, h4⟩

theorem not_reassembled_of_dvd (h : rom.Reliable) (hslot : inactiveSlot idx = some slot)
    (hfit : image.length ≤ slot.2) (hne : ∀ c ∈ chunks, c ≠ []) (hcut : chunks.flatten = image)
    (hsize : imageWriteSize ≤ image.length) (hmod : imageWriteSize ∣ image.length)
    (s : Session) :
    ¬Reassembled rom slot.1 image chunks { s with ugProc := some (.fresh idx slot) } := by
  have hs := slotOk_of_inactiveSlot hslot
  have hpos : 1 ≤ image.length := le_trans (by decide) hsize
  have hnone := ((inStep_fresh hs image idx s.dev).deliver h hs hfit hsize
    chunks (chunks_ne_nil hpos hcut) hne (s := { s with ugProc := some (.fresh idx slot) }) rfl
    le_rfl (Nat.zero_le _) (by simpa using hcut)).2 hmod
  rintro ⟨s', p', h1, -⟩
  rw [show window image 0 0 = [] from by simp [window]] at hnone
  rw [hnone] at h1
  cases h1

theorem not_reassembled_of_short (hpos : 1 ≤ image.length) (hcut : chunks.flatten = image)
    (hsize : image.length < imageWriteSize) (s : Session) :
    ¬Reassembled rom slot.1 image chunks { s with ugProc := some (.fresh idx slot) } := by
  have hkeep := deliver_short rom hsize chunks [] (by simpa using hcut)
    (s := { s with ugProc := some (.fresh idx slot) }) rfl rfl
  rintro ⟨s', p', h1, -⟩
  rw [hkeep] at h1
  simp only [Option.some.injEq, Prod.mk.injEq] at h1
  rw [h1.1] at hpos
  simp at hpos

/-- **A download succeeds exactly when the image is longer than a block and does not end at a
block boundary**, whatever the slot and however the image is cut. -/
theorem reassembled_iff (h : rom.Reliable) (hslot : inactiveSlot idx = some slot)
    (hpos : 1 ≤ image.length) (hfit : image.length ≤ slot.2) (hne : ∀ c ∈ chunks, c ≠ [])
    (hcut : chunks.flatten = image) (s : Session) :
    Reassembled rom slot.1 image chunks
        (tklOtaStartNotify image.length true (some idx) s).2 ↔
      imageWriteSize < image.length ∧ image.length % imageWriteSize ≠ 0 := by
  rw [tklOtaStartNotify_eq hslot hpos hfit]
  constructor
  · intro hr
    have hsize : imageWriteSize ≤ image.length := by
      by_contra hc
      exact not_reassembled_of_short hpos hcut (not_le.mp hc) s hr
    have hmod : ¬imageWriteSize ∣ image.length := fun hc =>
      not_reassembled_of_dvd h hslot hfit hne hcut hsize hc s hr
    refine ⟨lt_of_le_of_ne hsize fun hc => hmod (by rw [← hc]), ?_⟩
    exact fun hc => hmod (Nat.dvd_of_mod_eq_zero hc)
  · rintro ⟨hsize, hmod⟩
    exact reassembled_of_not_dvd h hslot hfit hne hcut hsize.le
      (fun hc => hmod (Nat.mod_eq_zero_of_dvd hc)) s

end Outcome

/-! ### Two downloads -/

/-- A ROM that never fails. -/
def okRom : Rom := ⟨fun _ _ => 0⟩

/-- A device that has never been written, with no session. -/
def idleSession : Session := ⟨none, ⟨fun _ => blank, []⟩, ⟨0, 0⟩, []⟩

theorem replicate_ne_nil (n : ℕ) (b : UInt8) : List.replicate (n + 1) b ≠ [] := by
  exact cons_ne_nil _ _

/-- An image of one block and a byte, cut in the middle, is reassembled. -/
theorem reassembled_iff_block_and_byte :
    Reassembled okRom reImg1Offset (List.replicate 513 0xA5)
      [List.replicate 300 0xA5, List.replicate 213 0xA5]
      (tklOtaStartNotify (List.replicate 513 (0xA5 : UInt8)).length true (some 0)
        idleSession).2 := by
  have hslot : inactiveSlot 0 = some (reImg1Offset, reImg1End - reImg1Offset) := rfl
  have hlen : (List.replicate 513 (0xA5 : UInt8)).length = 513 := length_replicate
  refine (reassembled_iff (fun _ _ => rfl) hslot (by rw [hlen]; decide) (by rw [hlen]; decide)
    (fun c hc => ?_) ?_ idleSession).mpr (by rw [hlen]; decide)
  · rcases mem_cons.mp hc with rfl | hc
    · exact replicate_ne_nil 299 _
    · rw [mem_singleton.mp hc]
      exact replicate_ne_nil 212 _
  · rw [flatten_cons, flatten_cons, flatten_nil, append_nil,
      replicate_append_replicate]

/-- An image of exactly one block, delivered whole, is not: the call that writes it returns
`OPRT_OS_ADAPTER_OTA_PROCESS_FAILED`. -/
theorem not_reassembled_one_block :
    ¬Reassembled okRom reImg1Offset (List.replicate 512 0xA5) [List.replicate 512 0xA5]
      (tklOtaStartNotify (List.replicate 512 (0xA5 : UInt8)).length true (some 0)
        idleSession).2 := by
  have hslot : inactiveSlot 0 = some (reImg1Offset, reImg1End - reImg1Offset) := rfl
  have hlen : (List.replicate 512 (0xA5 : UInt8)).length = 512 := length_replicate
  rw [tklOtaStartNotify_eq hslot (by rw [hlen]; decide) (by rw [hlen]; decide)]
  refine not_reassembled_of_dvd (fun _ _ => rfl) hslot (by rw [hlen]; decide) (fun c hc => ?_) ?_
    (by rw [hlen]; decide) (by rw [hlen]; decide) idleSession
  · rw [mem_singleton.mp hc]
    exact replicate_ne_nil 511 _
  · rw [flatten_cons, flatten_nil, append_nil]

end Gd32.Ota
