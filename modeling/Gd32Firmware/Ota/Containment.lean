import Gd32Firmware.Ota.Reassembly

/-!
# Where a download writes

The erase frontier of a session follows the end of the packets it is given, and nothing in
`tkl_ota_data_process` compares that end with the size of the slot: the size announced to
`tkl_ota_start_notify` is not kept, and `total_len` is the packet's own. So a packet that
reaches past the slot has the sectors behind it erased.

The condition under which a call stays inside the slot is on the call and the session before
it: the packet is handed back at once, or it fits behind the bytes received so far
(`Fits`). When every call of a run meets it, every flash call of the run lies inside
the slot, whatever the flash answers.
-/

namespace Gd32.Ota

open NorFlash List

/-! ### Runs of calls -/

/-- The arguments of one call of `tkl_ota_data_process`, null pointers included. -/
structure ProcessCall where
  pack : Option Pack
  remainLen : Option ℕ

/-- The session after a call. -/
def afterCall (rom : Rom) (s : Session) (c : ProcessCall) : Session :=
  (tklOtaDataProcess rom c.pack c.remainLen s).2.2

/-- The session after a list of calls. -/
def afterCalls (rom : Rom) (s : Session) (cs : List ProcessCall) : Session :=
  cs.foldl (afterCall rom) s

/-- **A call fits the session**: its packet is handed back at once, or it ends inside the slot
when put behind the bytes received so far. -/
def Fits (s : Session) (c : ProcessCall) : Prop :=
  ∀ pk p, c.pack = some pk → s.ugProc = some p →
    Early pk p ∨ p.recvDataCnt + pk.len ≤ p.imageMaxSize

/-- Every call of a run fits the session it finds. -/
def AllFit (rom : Rom) : Session → List ProcessCall → Prop
  | _, [] => True
  | s, c :: cs => Fits s c ∧ AllFit rom (afterCall rom s c) cs

/-! ### The invariant -/

/-- **A session confined to a slot**: its counters agree and stay in the slot, and so does the
erase frontier, which is a sector boundary. -/
structure Confined (slot : ℕ × ℕ) (p : UgProc) : Prop where
  start : p.startAddr = slot.1
  size : p.imageMaxSize = slot.2
  offset : p.flashOffset = p.recvDataCnt
  recv : p.recvDataCnt ≤ slot.2
  low : slot.1 ≤ p.eraseStartAddr
  high : p.eraseStartAddr ≤ slot.1 + slot.2
  aligned : eraseSize ∣ slot.1 + slot.2 - p.eraseStartAddr

theorem confined_fresh {slot : ℕ × ℕ} (hs : SlotOk slot) (idx : ℕ) :
    Confined slot (.fresh idx slot) where
  start := rfl
  size := rfl
  offset := rfl
  recv := Nat.zero_le _
  low := le_rfl
  high := Nat.le_add_right _ _
  aligned := by
    simp only [UgProc.fresh, Nat.add_sub_cancel_left]
    exact hs.sectors

section Steps

variable {slot : ℕ × ℕ} {p : UgProc}

/-- The next sector of a confined session that is not at the end of its slot. -/
theorem Confined.erase_room (hc : Confined slot p) (hlt : p.eraseStartAddr < slot.1 + slot.2) :
    p.eraseStartAddr + eraseSize ≤ slot.1 + slot.2 := by
  obtain ⟨k, hk⟩ := hc.aligned
  rcases k with _ | k
  · omega
  · rw [Nat.mul_succ] at hk
    omega

theorem Confined.erased (hc : Confined slot p) (hlt : p.eraseStartAddr < slot.1 + slot.2) :
    Confined slot { p with eraseStartAddr := p.eraseStartAddr + eraseSize } where
  start := hc.start
  size := hc.size
  offset := hc.offset
  recv := hc.recv
  low := hc.low.trans (Nat.le_add_right _ _)
  high := hc.erase_room hlt
  aligned := by
    rw [← Nat.sub_sub]
    exact Nat.dvd_sub hc.aligned dvd_rfl

theorem Confined.advance (hc : Confined slot p) {n : ℕ} (hs : SlotOk slot)
    (hn : p.recvDataCnt + n ≤ slot.2) :
    Confined slot (p.advance n) ∧ (p.advance n).recvDataCnt = p.recvDataCnt + n := by
  have hdev := hs.onDevice
  have htot : flashTotalSize < 2 ^ 32 := by decide
  have hrecv : (p.advance n).recvDataCnt = p.recvDataCnt + n := u32_of_lt (by omega)
  have hoff : (p.advance n).flashOffset = p.recvDataCnt + n := by
    rw [UgProc.advance, hc.offset]
    exact u32_of_lt (by omega)
  exact ⟨⟨hc.start, hc.size, hoff.trans hrecv.symm, hrecv ▸ hn, hc.low, hc.high, hc.aligned⟩, hrecv⟩

variable (rom : Rom)

/-- The erase loop of a confined session stays in the slot when `limit` does. -/
theorem Confined.eraseAhead (hs : SlotOk slot) (hc : Confined slot p) {limit : ℕ}
    (hlim : limit ≤ slot.1 + slot.2) (rest : List UInt8) (d : Dev) :
    Issues slot.1 (slot.1 + slot.2) d (Ota.eraseAhead rom limit rest p d).dev ∧
      Confined slot (Ota.eraseAhead rom limit rest p d).proc ∧
      (Ota.eraseAhead rom limit rest p d).proc.recvDataCnt = p.recvDataCnt ∧
      (Ota.eraseAhead rom limit rest p d).rest = rest := by
  induction hn : slot.1 + slot.2 - p.eraseStartAddr using Nat.strong_induction_on
    generalizing p d with
  | _ n ih =>
  rw [Ota.eraseAhead]
  by_cases hlt : p.eraseStartAddr < limit
  swap
  · rw [if_neg hlt]
    exact ⟨Issues.refl _ _ d, hc, rfl, rfl⟩
  have hroom := hc.erase_room (lt_of_lt_of_le hlt hlim)
  have hissue : Issues slot.1 (slot.1 + slot.2) d
      (rawFlashErase rom p.eraseStartAddr eraseSize d).2 :=
    (issues_rawFlashErase rom _ _ d).mono hc.low hroom
  rw [if_pos hlt]
  split
  · exact ⟨hissue, hc, rfl, rfl⟩
  · have hwrap : u32 (p.eraseStartAddr + eraseSize) = p.eraseStartAddr + eraseSize :=
      u32_of_lt (lt_of_le_of_lt (hroom.trans hs.onDevice) (by decide))
    have hpos : 0 < eraseSize := by decide
    rw [hwrap]
    obtain ⟨h1, h2, h3, h4⟩ := ih _ (by simp only; omega)
      (hc.erased (lt_of_lt_of_le hlt hlim)) (rawFlashErase rom p.eraseStartAddr eraseSize d).2 rfl
    exact ⟨hissue.trans h1, h2, h3, h4⟩

/-- A write of a confined session that fits stays in the slot. -/
theorem Confined.issues_write (hs : SlotOk slot) (hc : Confined slot p) {data : List UInt8}
    (hfit : p.recvDataCnt + data.length ≤ slot.2) (d : Dev) :
    Issues slot.1 (slot.1 + slot.2) d
      (rawFlashWriteFast rom (u32 (p.startAddr + p.flashOffset)) data d).2 := by
  have hdev := hs.onDevice
  have htot : flashTotalSize < 2 ^ 32 := by decide
  rw [hc.start, hc.offset, u32_of_lt (by omega)]
  exact (issues_rawFlashWriteFast rom _ _ d).mono (by omega) (by omega)

/-- The block loop of a confined session stays in the slot when the packet fits. -/
theorem Confined.writeBlocks (hs : SlotOk slot) (hc : Confined slot p) (rest : List UInt8)
    (hfit : p.recvDataCnt + rest.length ≤ slot.2) (d : Dev) :
    Issues slot.1 (slot.1 + slot.2) d (Ota.writeBlocks rom rest p d).dev ∧
      Confined slot (Ota.writeBlocks rom rest p d).proc ∧
      (Ota.writeBlocks rom rest p d).proc.recvDataCnt +
        (Ota.writeBlocks rom rest p d).rest.length ≤ slot.2 := by
  induction hn : rest.length using Nat.strong_induction_on generalizing rest p d with
  | _ n ih =>
  rw [Ota.writeBlocks]
  by_cases hlen : imageWriteSize ≤ rest.length
  swap
  · rw [if_neg hlen]
    exact ⟨Issues.refl _ _ d, hc, hfit⟩
  have hpos : 0 < imageWriteSize := by decide
  have htake : p.recvDataCnt + (rest.take imageWriteSize).length ≤ slot.2 := by
    rw [length_take]
    omega
  have hissue := hc.issues_write rom hs htake d
  rw [if_pos hlen]
  split
  · exact ⟨hissue, hc, hfit⟩
  · obtain ⟨hc', hrecv⟩ := hc.advance (n := imageWriteSize) hs (by omega)
    obtain ⟨h1, h2, h3⟩ := ih _ (by rw [length_drop]; omega) hc' (rest.drop imageWriteSize)
      (by rw [hrecv, length_drop]; omega) _ rfl
    exact ⟨hissue.trans h1, h2, h3⟩

/-- The tail write of a confined session stays in the slot when it fits. -/
theorem Confined.writeLast (hs : SlotOk slot) (totalLen : ℕ) (o : LoopOut)
    (hc : Confined slot o.proc) (hfit : o.proc.recvDataCnt + o.rest.length ≤ slot.2) :
    Issues slot.1 (slot.1 + slot.2) o.dev (Ota.writeLast rom totalLen o).dev ∧
      Confined slot (Ota.writeLast rom totalLen o).proc := by
  have hissue := hc.issues_write rom hs hfit o.dev
  rw [Ota.writeLast]
  split
  · split
    · exact ⟨hissue, hc⟩
    · exact ⟨hissue, (hc.advance hs hfit).1⟩
  · exact ⟨Issues.refl _ _ _, hc⟩

/-- **A packet that fits is processed inside the slot**, whatever the flash answers. -/
theorem Confined.processPacket (hs : SlotOk slot) (hc : Confined slot p) (pk : Pack)
    (hfit : p.recvDataCnt + pk.len ≤ slot.2) (d : Dev) :
    Issues slot.1 (slot.1 + slot.2) d (Ota.processPacket rom pk p d).dev ∧
      Confined slot (Ota.processPacket rom pk p d).proc := by
  have hdev := hs.onDevice
  have htot : flashTotalSize < 2 ^ 32 := by decide
  have hlimit : u32 (p.recvDataCnt + p.startAddr + pk.len) ≤ slot.1 + slot.2 := by
    rw [hc.start, u32_of_lt (by omega)]
    omega
  obtain ⟨he1, he2, he3, he4⟩ := hc.eraseAhead rom hs hlimit pk.data d
  rw [Ota.processPacket]
  dsimp only
  split
  swap
  · exact ⟨he1, he2⟩
  obtain ⟨hw1, hw2, hw3⟩ := he2.writeBlocks rom hs
    (Ota.eraseAhead rom (u32 (p.recvDataCnt + p.startAddr + pk.len)) pk.data p d).rest
    (by rw [he3, he4]; exact hfit) _
  split
  · obtain ⟨hl1, hl2⟩ := Confined.writeLast rom hs pk.totalLen _ hw2 hw3
    exact ⟨he1.trans (hw1.trans hl1), hl2⟩
  · exact ⟨he1.trans hw1, hw2⟩

/-- **One call that fits** stays in the slot and leaves a confined session. -/
theorem Confined.afterCall {s : Session} (hs : SlotOk slot) (hp : s.ugProc = some p)
    (hc : Confined slot p) {c : ProcessCall} (hfit : Fits s c) :
    Issues slot.1 (slot.1 + slot.2) s.dev (Ota.afterCall rom s c).dev ∧
      ∃ p', (Ota.afterCall rom s c).ugProc = some p' ∧ Confined slot p' := by
  obtain ⟨pack, remainLen⟩ := c
  rcases pack with _ | pk
  · exact ⟨Issues.refl _ _ _, p, hp, hc⟩
  rcases remainLen with _ | r
  · exact ⟨Issues.refl _ _ _, p, hp, hc⟩
  rw [Ota.afterCall]
  by_cases hearly : Early pk p
  · rw [tklOtaDataProcess_of_early hp hearly]
    exact ⟨Issues.refl _ _ _, p, hp, hc⟩
  · rw [tklOtaDataProcess_of_not_early hp hearly rfl]
    have hroom := (hfit pk p rfl hp).resolve_left hearly
    rw [hc.size] at hroom
    obtain ⟨h1, h2⟩ := hc.processPacket rom hs pk hroom s.dev
    exact ⟨h1, _, rfl, h2⟩

end Steps

/-! ### Runs -/

theorem Confined.afterCalls (rom : Rom) {slot : ℕ × ℕ} {p : UgProc} {s : Session}
    (hs : SlotOk slot) (hp : s.ugProc = some p) (hc : Confined slot p) (cs : List ProcessCall)
    (hfit : AllFit rom s cs) :
    Issues slot.1 (slot.1 + slot.2) s.dev (Ota.afterCalls rom s cs).dev := by
  induction cs generalizing s p with
  | nil => exact Issues.refl _ _ _
  | cons c cs ih =>
    obtain ⟨h1, p', hp', hc'⟩ := hc.afterCall rom hs hp hfit.1
    exact h1.trans (ih hp' hc' hfit.2)

/-- An accepted start opens a fresh session on the slot that is not running. -/
theorem ugProc_of_start_ok {imageSize idx : ℕ} {mallocOk : Bool} {s : Session}
    (hstart : (tklOtaStartNotify imageSize mallocOk (some idx) s).1 = .ok) :
    ∃ slot, inactiveSlot idx = some slot ∧
      (tklOtaStartNotify imageSize mallocOk (some idx) s).2 =
        { s with ugProc := some (.fresh idx slot) } := by
  rw [tklOtaStartNotify] at hstart ⊢
  split at hstart
  · cases hstart
  split at hstart
  · cases hstart
  next h1 h2 =>
  rw [if_neg h1, if_neg h2]
  rcases hslot : inactiveSlot idx with _ | slot
  · simp only [hslot] at hstart
    cases hstart
  · exact ⟨slot, rfl, rfl⟩

/-- **A download whose packets fit stays inside the inactive slot**: after an accepted start on
either running image, every erase and program issued by any sequence of calls that all fit
lies in `[start_addr, start_addr + image_max_size)`, whatever the flash answers. -/
theorem download_contained (rom : Rom) {imageSize idx : ℕ} {mallocOk : Bool} {s : Session}
    (hstart : (tklOtaStartNotify imageSize mallocOk (some idx) s).1 = .ok)
    (cs : List ProcessCall)
    (hfit : AllFit rom (tklOtaStartNotify imageSize mallocOk (some idx) s).2 cs) :
    ∃ p, (tklOtaStartNotify imageSize mallocOk (some idx) s).2.ugProc = some p ∧
      ∃ ps, (afterCalls rom (tklOtaStartNotify imageSize mallocOk (some idx) s).2 cs).dev.log =
          s.dev.log ++ ps ∧
        ∀ q ∈ ps, q.Within p.startAddr (p.startAddr + p.imageMaxSize) := by
  obtain ⟨slot, hslot, heq⟩ := ugProc_of_start_ok hstart
  have hs := slotOk_of_inactiveSlot hslot
  rw [heq] at hfit ⊢
  refine ⟨.fresh idx slot, rfl, ?_⟩
  exact (confined_fresh hs idx).afterCalls rom hs
    (s := { s with ugProc := some (.fresh idx slot) }) rfl cs hfit

/-! ### A packet that does not fit -/

section Past

variable {rom : Rom}

variable (rom) in
theorem writeBlocks_log_grows (rest : List UInt8) (p : UgProc) (d : Dev) :
    d.log <+: (writeBlocks rom rest p d).dev.log := by
  induction hn : rest.length using Nat.strong_induction_on generalizing rest p d with
  | _ n ih =>
  have hissue := (issues_rawFlashWriteFast rom (u32 (p.startAddr + p.flashOffset))
    (rest.take imageWriteSize) d).log_grows
  rw [writeBlocks]
  split
  next hlen =>
    have hpos : 0 < imageWriteSize := by decide
    split
    · exact hissue
    · exact hissue.trans (ih _ (by rw [length_drop]; omega) _ _ _ rfl)
  next => exact prefix_refl _

variable (rom) in
theorem writeLast_log_grows (totalLen : ℕ) (o : LoopOut) :
    o.dev.log <+: (writeLast rom totalLen o).dev.log := by
  have hissue := (issues_rawFlashWriteFast rom (u32 (o.proc.startAddr + o.proc.flashOffset))
    o.rest o.dev).log_grows
  rw [writeLast]
  split
  · split
    · exact hissue
    · exact hissue
  · exact prefix_refl _

variable (rom) in
theorem eraseAhead_log_grows (limit : ℕ) (rest : List UInt8) (p : UgProc) (d : Dev) :
    d.log <+: (eraseAhead rom limit rest p d).dev.log := by
  induction hn : 2 * flashTotalSize - p.eraseStartAddr using Nat.strong_induction_on
    generalizing p d with
  | _ n ih =>
  have hissue := (issues_rawFlashErase rom p.eraseStartAddr eraseSize d).log_grows
  rw [eraseAhead]
  split
  · split
    · exact hissue
    next h =>
      refine hissue.trans (ih _ ?_ _ _ rfl)
      rw [← hn]
      exact eraseAhead_decreasing h
  · exact prefix_refl _

/-- **The erase loop crosses a sector boundary below its limit**: the sector at the boundary is
erased. -/
theorem mem_log_eraseAhead (h : rom.Reliable) {limit top : ℕ}
    (htop : top + eraseSize ≤ flashTotalSize) (hlim : top < limit) (rest : List UInt8)
    (p : UgProc) (d : Dev) (hle : p.eraseStartAddr ≤ top)
    (hdvd : eraseSize ∣ top - p.eraseStartAddr) :
    Prim.erase top eraseSize ∈ (eraseAhead rom limit rest p d).dev.log := by
  induction hn : top - p.eraseStartAddr using Nat.strong_induction_on generalizing p d with
  | _ n ih =>
  have hpos : 0 < eraseSize := by decide
  have he := h.rawFlashErase_eq p.eraseStartAddr hpos (by decide) (by omega) d
  have hwrap : u32 (p.eraseStartAddr + eraseSize) = p.eraseStartAddr + eraseSize :=
    u32_of_lt (lt_of_le_of_lt (show _ ≤ flashTotalSize by omega) (by decide))
  rw [eraseAhead, if_pos (by omega), dif_neg (by rw [he]; simp), hwrap, he]
  rcases eq_or_ne p.eraseStartAddr top with heq | hne
  · refine (eraseAhead_log_grows rom _ _ _ _).subset ?_
    rw [heq]
    simp
  · -- the boundary is at least a sector ahead
    have hroom : p.eraseStartAddr + eraseSize ≤ top := by
      obtain ⟨k, hk⟩ := hdvd
      rcases k with _ | k
      · omega
      · rw [Nat.mul_succ] at hk
        omega
    refine ih _ (by simp only; omega) _ _ hroom ?_ rfl
    rw [← Nat.sub_sub]
    exact Nat.dvd_sub hdvd dvd_rfl

/-- A packet that reaches past the slot has the first sector behind the slot erased. -/
theorem mem_log_processPacket (h : rom.Reliable) {slot : ℕ × ℕ}
    (hroom : slot.1 + slot.2 + eraseSize ≤ flashTotalSize) {p : UgProc} (hc : Confined slot p)
    (pk : Pack)
    (hlen : p.recvDataCnt + slot.1 + pk.len < 2 ^ 32)
    (hpast : slot.2 < p.recvDataCnt + pk.len) (d : Dev) :
    Prim.erase (slot.1 + slot.2) eraseSize ∈ (processPacket rom pk p d).dev.log := by
  have herase := mem_log_eraseAhead h hroom
    (show slot.1 + slot.2 < u32 (p.recvDataCnt + p.startAddr + pk.len) by
      rw [hc.start, u32_of_lt hlen]
      omega) pk.data p d hc.high hc.aligned
  rw [processPacket]
  dsimp only
  split
  · split
    · exact (writeLast_log_grows rom _ _).subset ((writeBlocks_log_grows rom _ _ _).subset herase)
    · exact (writeBlocks_log_grows rom _ _ _).subset herase
  · exact herase

end Past

/-- A packet one sector longer than slot 1, all zero. -/
def longPack : Pack where
  totalLen := 0x1E1000
  data := List.replicate 0x1E1000 0
  totalLen_lt := by decide
  len_lt := by
    rw [length_replicate]
    decide

/-- A packet of one block, for an image of 1000 bytes. -/
def blockPack : Pack where
  totalLen := 1000
  data := List.replicate 512 0xA5
  totalLen_lt := by decide
  len_lt := by
    rw [length_replicate]
    decide

/-- The run of a single block fits, so it is contained. -/
theorem download_contained_blockPack :
    ∃ p, (tklOtaStartNotify 1000 true (some 0) idleSession).2.ugProc = some p ∧
      ∃ ps, (afterCalls okRom (tklOtaStartNotify 1000 true (some 0) idleSession).2
          [⟨some blockPack, some 0⟩]).dev.log = idleSession.dev.log ++ ps ∧
        ∀ q ∈ ps, q.Within p.startAddr (p.startAddr + p.imageMaxSize) := by
  have hlen : blockPack.len = 512 := length_replicate
  refine download_contained okRom rfl _ ⟨?_, trivial⟩
  intro pk p hpk hp
  cases hpk
  cases hp
  refine Or.inr ?_
  rw [hlen]
  decide

/-- One packet longer than slot 1, sent to a fresh session while image 0 runs. -/
theorem mem_log_long {pk : Pack} (hlong : reImg1End - reImg1Offset < pk.len)
    (hshort : reImg1Offset + pk.len < 2 ^ 32) :
    Prim.erase reImg1End eraseSize ∈ (afterCalls okRom
      (tklOtaStartNotify 1000 true (some 0) idleSession).2 [⟨some pk, some 0⟩]).dev.log := by
  have hslot : inactiveSlot 0 = some (reImg1Offset, reImg1End - reImg1Offset) := rfl
  have hs := slotOk_of_inactiveSlot hslot
  have hrom : okRom.Reliable := fun _ _ => rfl
  have hp : (tklOtaStartNotify 1000 true (some 0) idleSession).2.ugProc =
    some (.fresh 0 (reImg1Offset, reImg1End - reImg1Offset)) := rfl
  have hearly : ¬Early pk (.fresh 0 (reImg1Offset, reImg1End - reImg1Offset)) := by
    rintro ⟨h, -⟩
    simp only [reImg1End, reImg1Offset, imageWriteSize] at h hlong
    omega
  rw [afterCalls, foldl_cons, foldl_nil, afterCall,
    tklOtaDataProcess_of_not_early hp hearly rfl]
  refine mem_log_processPacket hrom (by decide) (confined_fresh hs 0) pk ?_ ?_ _
  · simpa [UgProc.fresh] using hshort
  · simpa [UgProc.fresh] using hlong

/-- **A download that leaves its slot**: with image 0 running and an accepted start, one packet
a sector longer than slot 1 has the first sector of the user data, behind the slot, erased. -/
theorem download_not_contained :
    (tklOtaStartNotify 1000 true (some 0) idleSession).1 = .ok ∧
      ∃ q ∈ (afterCalls okRom (tklOtaStartNotify 1000 true (some 0) idleSession).2
          [⟨some longPack, some 0⟩]).dev.log,
        ¬q.Within reImg1Offset (reImg1Offset + (reImg1End - reImg1Offset)) := by
  have hlen : longPack.len = 0x1E1000 := length_replicate
  exact ⟨rfl, Prim.erase reImg1End eraseSize,
    mem_log_long (by rw [hlen]; decide) (by rw [hlen]; decide), by decide⟩

end Gd32.Ota
