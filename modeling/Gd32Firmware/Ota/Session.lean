import Gd32Firmware.Plf.RawFlash

/-!
# The over-the-air update session

`tkl_ota.c`: one heap-allocated session `ug_proc`, opened by `tkl_ota_start_notify`, fed by
`tkl_ota_data_process` and closed by `tkl_ota_end_notify`.

A call of `tkl_ota_data_process` receives a packet whose leading bytes may be ones it has
already been shown: the function reports in `*remain_len` how many bytes at the end of the
packet it did not consume, and the caller passes them again in front of the next ones. A
packet shorter than a block is left alone unless the image is nearly complete. Otherwise the
sectors up to the end of the packet are erased (`eraseAhead`), the whole
blocks are written (`writeBlocks`), and what is left is written only when it
completes the image.

The heap, the status words and the image flags of the ROM are outside the repository: a
start carries what the allocator and `rom_sys_status_get` answer, and the flag writes go
through `BootRom`.
-/

namespace Gd32.Ota

open NorFlash

/-! ### The data -/

def imageWriteSize : ℕ := 512

def eraseSize : ℕ := flashPageSize

/-- `UG_PROC_S`, the state of a session; every field is a `uint32_t`. -/
structure UgProc where
  startAddr : ℕ
  eraseStartAddr : ℕ
  recvDataCnt : ℕ
  /-- Offset of the next write in the slot. -/
  flashOffset : ℕ
  runingImageIdx : ℕ
  imageMaxSize : ℕ

/-- The session after `memset`. -/
def UgProc.zero : UgProc := ⟨0, 0, 0, 0, 0, 0⟩

/-- `TUYA_OTA_DATA_T`, the fields the session reads: the announced length of the image and
the bytes of the packet, both lengths being `uint32_t`. -/
structure Pack where
  totalLen : ℕ
  /-- The bytes at `data`, `len` of them. -/
  data : List UInt8
  totalLen_lt : totalLen < 2 ^ 32
  len_lt : data.length < 2 ^ 32

def Pack.len (pk : Pack) : ℕ := pk.data.length

/-- The values of `OPERATE_RET` the session returns. -/
inductive OperateRet
  | ok
  | comError
  | invalidParm
  | mallocFailed
  | otaPktSizeFailed
  | otaStartInformFailed
  | otaProcessFailed
  | otaEndInformFailed
  deriving DecidableEq, Repr

/-- The flag byte of each image. -/
structure ImgFlags where
  img0 : UInt8
  img1 : UInt8
  deriving DecidableEq, Repr

/-- One call of `rom_sys_set_img_flag`. -/
structure FlagCall where
  idx : ℕ
  mask : UInt8
  flag : UInt8

/-- The ROM's `rom_sys_set_img_flag`: its return code and its effect on the flags. -/
structure BootRom where
  /-- Return code, `0` being success, and the flags afterwards. -/
  setImgFlag : ImgFlags → FlagCall → ℤ × ImgFlags

/-- What the three entry points share: the session pointer, the flash and the image
flags, together with the flag writes issued so far. -/
structure Session where
  /-- `ug_proc`; `none` is the null pointer. -/
  ugProc : Option UgProc
  dev : Dev
  flags : ImgFlags
  /-- The calls of `rom_sys_set_img_flag`, oldest first. -/
  flagLog : List FlagCall

/-! ### Opening a session -/

/-- Start address and size of the slot that is not running; `none` for an index that is
neither `IMAGE_0` nor `IMAGE_1`. -/
def inactiveSlot (runningIdx : ℕ) : Option (ℕ × ℕ) :=
  if runningIdx = 0 then some (reImg1Offset, reImg1End - reImg1Offset)
  else if runningIdx = 1 then some (reImg0Offset, reImg1Offset - reImg0Offset)
  else none

/-- `tkl_ota_get_ability`: the largest image the inactive slot takes. `status` is what
`rom_sys_status_get` delivers, `none` when it fails. -/
def tklOtaGetAbility (status : Option ℕ) : OperateRet × Option ℕ :=
  match status.bind inactiveSlot with
  | some slot => (.ok, some slot.2)
  | none => (.comError, none)

/-- The session set up for the slot that is not running. -/
def UgProc.fresh (runningIdx : ℕ) (slot : ℕ × ℕ) : UgProc where
  startAddr := slot.1
  eraseStartAddr := slot.1
  recvDataCnt := 0
  flashOffset := 0
  runingImageIdx := runningIdx
  imageMaxSize := slot.2

/-- `tkl_ota_start_notify`. `mallocOk` is the allocator's answer, consulted when there is no
session yet, and `status` is what `rom_sys_status_get` delivers. The session is cleared
before anything can fail, and a size that does not fit is refused after it is set up. -/
def tklOtaStartNotify (imageSize : ℕ) (mallocOk : Bool) (status : Option ℕ) (s : Session) :
    OperateRet × Session :=
  if imageSize = 0 then (.otaPktSizeFailed, s)
  else if s.ugProc = none ∧ mallocOk = false then (.mallocFailed, s)
  else
    match status with
    | none => (.otaStartInformFailed, { s with ugProc := some .zero })
    | some runningIdx =>
      match inactiveSlot runningIdx with
      | none => (.otaStartInformFailed, { s with ugProc := some .zero })
      | some slot =>
        (if slot.2 < imageSize then .otaPktSizeFailed else .ok,
          { s with ugProc := some (.fresh runningIdx slot) })

/-! ### Receiving data -/

/-- What a loop of `tkl_ota_data_process` leaves behind. -/
structure LoopOut where
  /-- The loop ran to its end; `false` when a flash call failed. -/
  done : Bool
  /-- The bytes of the packet not written yet. -/
  rest : List UInt8
  proc : UgProc
  dev : Dev

section Process

variable (rom : Rom)

theorem eraseAhead_decreasing {rom : Rom} {a : ℕ} {d : Dev}
    (h : ¬(rawFlashErase rom a eraseSize d).1 ≠ 0) :
    2 * flashTotalSize - u32 (a + eraseSize) < 2 * flashTotalSize - a := by
  have ha : rawFlashRangeOk a eraseSize = true := by
    by_contra hc
    rw [rawFlashErase, if_neg hc] at h
    exact h (show (-1 : ℤ) ≠ 0 by decide)
  have hr := ((rawFlashRangeOk_iff (by decide)).mp ha).2
  simp only [eraseSize, flashPageSize, flashTotalSize, u32] at *
  omega

/-- The erase loop: erase sector after sector until the frontier reaches `limit`. -/
def eraseAhead (limit : ℕ) (rest : List UInt8) (p : UgProc) (d : Dev) : LoopOut :=
  if p.eraseStartAddr < limit then
    if _h : (rawFlashErase rom p.eraseStartAddr eraseSize d).1 ≠ 0 then
      ⟨false, rest, p, (rawFlashErase rom p.eraseStartAddr eraseSize d).2⟩
    else
      eraseAhead limit rest { p with eraseStartAddr := u32 (p.eraseStartAddr + eraseSize) }
        (rawFlashErase rom p.eraseStartAddr eraseSize d).2
  else ⟨true, rest, p, d⟩
termination_by 2 * flashTotalSize - p.eraseStartAddr
decreasing_by exact eraseAhead_decreasing _h

/-- The session after `n` more bytes have been written. -/
def UgProc.advance (p : UgProc) (n : ℕ) : UgProc :=
  { p with flashOffset := u32 (p.flashOffset + n), recvDataCnt := u32 (p.recvDataCnt + n) }

/-- The block loop: write the whole blocks of the packet. -/
def writeBlocks (rest : List UInt8) (p : UgProc) (d : Dev) : LoopOut :=
  if imageWriteSize ≤ rest.length then
    if (rawFlashWriteFast rom (u32 (p.startAddr + p.flashOffset))
        (rest.take imageWriteSize) d).1 ≠ 0 then
      ⟨false, rest, p, (rawFlashWriteFast rom (u32 (p.startAddr + p.flashOffset))
        (rest.take imageWriteSize) d).2⟩
    else
      writeBlocks (rest.drop imageWriteSize) (p.advance imageWriteSize)
        (rawFlashWriteFast rom (u32 (p.startAddr + p.flashOffset)) (rest.take imageWriteSize) d).2
  else ⟨true, rest, p, d⟩
termination_by rest.length
decreasing_by
  simp only [List.length_drop, imageWriteSize] at *
  omega

/-- The packet is too short for a block and the image is not nearly complete, so the whole
packet is handed back. The difference is one of `uint32_t`. -/
def Early (pk : Pack) (p : UgProc) : Prop :=
  pk.len < imageWriteSize ∧ p.recvDataCnt ≤ u32sub pk.totalLen imageWriteSize

instance (pk : Pack) (p : UgProc) : Decidable (Early pk p) := inferInstanceAs (Decidable (_ ∧ _))

/-- The bytes left over after the block loop complete the image. -/
def LastPart (totalLen : ℕ) (rest : List UInt8) (p : UgProc) : Prop :=
  u32sub totalLen imageWriteSize < p.recvDataCnt ∧ u32sub totalLen p.recvDataCnt ≤ rest.length

instance (totalLen : ℕ) (rest : List UInt8) (p : UgProc) : Decidable (LastPart totalLen rest p) :=
  inferInstanceAs (Decidable (_ ∧ _))

/-- The end of `tkl_ota_data_process`: the last part of the image, when it has arrived. -/
def writeLast (totalLen : ℕ) (o : LoopOut) : LoopOut :=
  if LastPart totalLen o.rest o.proc then
    if (rawFlashWriteFast rom (u32 (o.proc.startAddr + o.proc.flashOffset)) o.rest o.dev).1 ≠ 0 then
      { o with
        done := false
        dev := (rawFlashWriteFast rom (u32 (o.proc.startAddr + o.proc.flashOffset)) o.rest
          o.dev).2 }
    else
      { done := true
        rest := []
        proc := o.proc.advance o.rest.length
        dev := (rawFlashWriteFast rom (u32 (o.proc.startAddr + o.proc.flashOffset)) o.rest
          o.dev).2 }
  else o

/-- The body of `tkl_ota_data_process` on a packet that is not handed back at once. -/
def processPacket (pk : Pack) (p : UgProc) (d : Dev) : LoopOut :=
  let e := eraseAhead rom (u32 (p.recvDataCnt + p.startAddr + pk.len)) pk.data p d
  if e.done then
    let w := writeBlocks rom e.rest e.proc e.dev
    if w.done then writeLast rom pk.totalLen w else w
  else e

/-- `tkl_ota_data_process`. A null `pack` or `remain_len` is `none`; the second result is the
value left in `*remain_len`. -/
def tklOtaDataProcess (pack : Option Pack) (remainLen : Option ℕ) (s : Session) :
    OperateRet × Option ℕ × Session :=
  match pack, remainLen, s.ugProc with
  | some pk, some _, some p =>
    if Early pk p then (.ok, some pk.len, s)
    else
      let o := processPacket rom pk p s.dev
      (if o.done then .ok else .otaProcessFailed, some o.rest.length,
        { s with ugProc := some o.proc, dev := o.dev })
  | _, _, _ => (.invalidParm, remainLen, s)

end Process

/-! ### Closing a session -/

def imgFlagNewerMask : UInt8 := 0x01

def imgFlagVerifyMask : UInt8 := 0x06

def imgFlagIaMask : UInt8 := 0x18

def imgFlagOlder : UInt8 := 0x0

def imgFlagNewer : UInt8 := 0x1

def imgFlagIaOk : UInt8 := 0x08

/-- The index of the other image, `!idx` in the source. -/
def otherIdx (idx : ℕ) : ℕ := if idx = 0 then 1 else 0

/-- The three flag writes of `tkl_ota_end_notify`: the running image becomes the older one,
the other one is cleared and becomes the newer one. -/
def endFlagCalls (idx : ℕ) : List FlagCall :=
  [⟨idx, imgFlagIaMask ||| imgFlagNewerMask, imgFlagIaOk ||| imgFlagOlder⟩,
    ⟨otherIdx idx, imgFlagIaMask ||| imgFlagVerifyMask ||| imgFlagNewerMask, 0⟩,
    ⟨otherIdx idx, imgFlagNewerMask, imgFlagNewer⟩]

/-- Issue one flag write; the return codes are collected. -/
def flagStep (boot : BootRom) (acc : List ℤ × ImgFlags) (c : FlagCall) : List ℤ × ImgFlags :=
  (acc.1 ++ [(boot.setImgFlag acc.2 c).1], (boot.setImgFlag acc.2 c).2)

/-- The return codes and the flags after a list of flag writes. -/
def setFlags (boot : BootRom) (f : ImgFlags) (cs : List FlagCall) : List ℤ × ImgFlags :=
  cs.foldl (flagStep boot) ([], f)

/-- `tkl_ota_end_notify`. The source reads `ug_proc` without a check, so a call without a
session is `none`, a null dereference. A reset clears the session pointer with the rest of
the memory. -/
def tklOtaEndNotify (boot : BootRom) (reset : Bool) (s : Session) :
    Option (OperateRet × Session) :=
  s.ugProc.map fun p =>
    let r := setFlags boot s.flags (endFlagCalls p.runingImageIdx)
    let s' := { s with flags := r.2, flagLog := s.flagLog ++ endFlagCalls p.runingImageIdx }
    if r.1.all (· == 0) then (.ok, if reset then { s' with ugProc := none } else s')
    else (.otaEndInformFailed, s')

end Gd32.Ota
