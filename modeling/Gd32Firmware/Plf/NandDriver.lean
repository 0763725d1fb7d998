import Gd32Firmware.Lib.NandFlash
import Gd32Firmware.Plf.NandTables

/-!
# The NAND flash driver

`qspi_nand_flash_api.c` issues the primitives of the chip, and `nand_flash_api.c` keeps two tables
on it, each in a pair of blocks that are filled one after the other, and moves a user block that
fails to a replacement block.

Page numbers are passed to the primitives in `width` bits; in the source these are 16. Which
primitives fail is decided outside. A failed assertion never returns, and the functions then have no
result; buffers are always allocated, so that the tables are always saved when the call returns.
-/

namespace Gd32.Nand

open NandFlash Function

/-- What is outside of the driver's control. -/
structure Hw where
  /-- The bits of a page number; 16 in the source. -/
  width : ℕ
  /-- Whether a primitive fails, by the number of those issued before. -/
  fails : ℕ → Bool

/-! ### The chip -/

def nandPageSize : ℕ := 0x800

/-- `NAND_BLOCK_SIZE`, the pages of a block. -/
def nandBlockSize : ℕ := 0x40

def nandSpareAreaSize : ℕ := 0x40

def nandPageTotalSize : ℕ := nandPageSize + nandSpareAreaSize

def nandSpareDataOffset : ℕ := 4

/-- `flash_err_t`, as far as it is used. -/
inductive FlashErr where
  | noError
  | outOfBound
  | eccErr
  | eraseFail
  deriving DecidableEq, Repr

variable (hw : Hw)

/-- A page number as it is sent. -/
def Hw.sent (n : ℕ) : ℕ := n % 2 ^ hw.width

/-- `qspi_nandflash_block_erase`, the retries being one primitive. -/
def qspiNandflashBlockErase (blockNo : ℕ) (d : Device) : FlashErr × Device :=
  (if hw.fails d.log.length then .eraseFail else .noError,
    d.issue hw.fails (.erase (hw.sent (blockNo * nandBlockSize)) nandBlockSize))

/-- `qspi_nandflash_read`: the result and the bytes read. -/
def qspiNandflashRead (pageNo offsetInPage byteCnt : ℕ) (d : Device) : FlashErr × (ℕ → UInt8) :=
  if nandPageTotalSize < offsetInPage + byteCnt then (.outOfBound, fun _ => 0)
  else
    (if (d.pages (hw.sent pageNo)).uncorrectable then .eccErr else .noError,
      fun i => (d.pages (hw.sent pageNo)).bytes (offsetInPage + i))

def qspiNandflashCheckIsBadpageByRead (pageNo : ℕ) (d : Device) : Bool :=
  (d.pages (hw.sent pageNo)).uncorrectable

/-- `qspi_nandflash_write`, which does not ask whether the program failed. -/
def qspiNandflashWrite (buffer : ℕ → UInt8) (pageNo offsetInPage byteCnt : ℕ) (d : Device) :
    FlashErr × Device :=
  if nandPageTotalSize < offsetInPage + byteCnt then (.outOfBound, d)
  else
    (.noError, d.issue hw.fails (.program (hw.sent pageNo) offsetInPage byteCnt buffer))

/-- `qspi_nandflash_is_badblock`, which passes the page numbers in 32 bits. -/
def qspiNandflashIsBadblock (d : Device) (blockNo : ℕ) : Bool :=
  (d.pages (blockNo * nandBlockSize)).bytes nandPageSize != 0xFF ||
    (d.pages (blockNo * nandBlockSize + 1)).bytes nandPageSize != 0xFF

/-! ### The state of the driver -/

/-- The static variables of `nand_flash_api.c`, and the chip. -/
structure Driver where
  /-- `BBT`, `RBT` and what goes with them. -/
  tables : Tables
  bbtBlock : Fin 2 → ℕ
  bbtCrtBlockIdx : Fin 2
  bbtCrtPage : ℕ
  rbtBlock : Fin 2 → ℕ
  rbtCrtBlockIdx : Fin 2
  rbtCrtPage : ℕ
  chip : Device

def invalPageVal : ℕ := 0xFF

/-- The driver at the start of the program. -/
def Driver.start (chip : Device) : Driver :=
  ⟨.zero, fun _ => 0, 0, invalPageVal, fun _ => 0, 0, invalPageVal, chip⟩

/-- `qspi_nandflash_block_erase`, on the driver's chip. -/
def Driver.erase (s : Driver) (blockNo : ℕ) : FlashErr × Driver :=
  let r := qspiNandflashBlockErase hw blockNo s.chip
  (r.1, { s with chip := r.2 })

/-- `qspi_nandflash_write` on the driver's chip, and whether the page is bad afterwards. -/
def Driver.writeCheck (s : Driver) (buffer : ℕ → UInt8) (pageNo offsetInPage byteCnt : ℕ) :
    FlashErr × Driver :=
  let r := qspiNandflashWrite hw buffer pageNo offsetInPage byteCnt s.chip
  (if r.1 = .noError ∧ qspiNandflashCheckIsBadpageByRead hw pageNo r.2 then .eccErr else r.1,
    { s with chip := r.2 })

/-! ### Tables as bytes -/

/-- A byte of a table of 16-bit numbers. -/
def tableByte (t : ℕ → ℕ) (i : ℕ) : UInt8 := UInt8.ofNat (t (i / 2) / 256 ^ (i % 2))

/-- The table that the bytes make. -/
def tableOfBytes (bs : ℕ → UInt8) (i : ℕ) : ℕ := (bs (2 * i)).toNat + 256 * (bs (2 * i + 1)).toNat

/-- `BBT_SIZE * sizeof(BBT[0])`. -/
def bbtBytes : ℕ := 400

/-- `sizeof(RBT)`. -/
def rbtBytes : ℕ := 3800

/-- The page that `temp_buf` is filled with: some bytes of a table, the mark, and the other block of
the pair. -/
def tablePage (mark : UInt8) (t : ℕ → ℕ) (idx copyLen pair : ℕ) (i : ℕ) : UInt8 :=
  if i < copyLen then tableByte t (idx + i)
  else if i = nandPageSize + nandSpareDataOffset then mark
  else if i = nandPageSize + nandSpareDataOffset + 1 then 0x42
  else if i = nandPageSize + nandSpareDataOffset + 2 then 0x54
  else if i = nandPageSize + nandSpareDataOffset + 3 then 0x21
  else if i = nandPageSize + nandSpareDataOffset + 4 then UInt8.ofNat pair
  else if i = nandPageSize + nandSpareDataOffset + 5 then UInt8.ofNat (pair / 256)
  else 0xFF

/-- `'D'`, the first byte of the mark of `BBT`. -/
def markBbt : UInt8 := 0x44

/-- `'R'`, the first byte of the mark of `RBT`. -/
def markRbt : UInt8 := 0x52

/-- The mark in the spare data read. -/
def isMarked (mark : UInt8) (spare : ℕ → UInt8) : Bool :=
  spare 0 == mark && spare 1 == 0x42 && spare 2 == 0x54 && spare 3 == 0x21

/-! ### Saving the tables -/

/-- A bound on the passes of the loops that look for another block: every pass takes one from the
16-bit numbers that are left. -/
def searchPasses : ℕ := 2 ^ 17

/-- A block that failed is recorded, if it has not been. -/
def Driver.recordBad (s : Driver) (blockNo : ℕ) : Option Driver :=
  if checkIsInBbt s.tables blockNo then some s
  else if bbtMaxRecBbNum ≤ s.tables.badBlockNum then none
  else some { s with tables := (s.tables.push blockNo).saveBadNum }

/-- A new block for a table; the assertion fails when there is none. -/
def Driver.allocTable (s : Driver) : Option (ℕ × Driver) :=
  let r := findAllocANewTableBlock s.tables
  if r.1 = 0xFFFF then none else some (r.1, { s with tables := r.2 })

/-- The loop of `update_bbt_block_2_nand` that moves `BBT` to a new block. -/
def bbtRetry (pair : ℕ) : ℕ → ℕ → Driver → Option (ℕ × Driver)
  | 0, _, _ => none
  | n + 1, blockNo, s => do
    let s ← s.recordBad blockNo
    let (blockNo, s) ← s.allocTable
    let (result, s) := s.erase hw blockNo
    if result = .noError then
      let (result, s) := s.writeCheck hw (tablePage markBbt s.tables.bbt 0 bbtBytes pair)
        (blockNo * nandBlockSize) 0 nandPageTotalSize
      if result = .noError then some (blockNo, s)
      else bbtRetry pair n blockNo (s.erase hw blockNo).2
    else bbtRetry pair n blockNo s

/-- The current block of `BBT` is full. -/
def Driver.bbtFull (s : Driver) : Bool :=
  decide (nandBlockSize - 1 ≤ s.bbtCrtPage ∧ s.bbtCrtPage ≠ invalPageVal)

/-- The page that `BBT` goes to next; the other block of the pair is erased first when this one is
full. -/
def Driver.bbtAdvance (s : Driver) : Driver :=
  if s.bbtFull then
    let s := { s with bbtCrtBlockIdx := 1 - s.bbtCrtBlockIdx, bbtCrtPage := 0 }
    (s.erase hw (s.bbtBlock s.bbtCrtBlockIdx)).2
  else
    { s with bbtCrtPage := if s.bbtCrtPage = invalPageVal then 0 else s.bbtCrtPage + 1 }

/-- `update_bbt_block_2_nand`, and `erase_bbt`. -/
def updateBbtBlock2Nand (s : Driver) : Option (Bool × Driver) := do
  let eraseBbt := s.bbtFull
  let s := s.bbtAdvance hw
  let old := s.bbtBlock s.bbtCrtBlockIdx
  let pair := s.bbtBlock (1 - s.bbtCrtBlockIdx)
  let (result, s) := s.writeCheck hw (tablePage markBbt s.tables.bbt 0 bbtBytes pair)
    (old * nandBlockSize + s.bbtCrtPage) 0 nandPageTotalSize
  let (blockNo, s) ← if result = .noError then some (old, s) else bbtRetry hw pair searchPasses old s
  if old = blockNo then some (eraseBbt, s)
  else
    let s := (s.erase hw old).2
    some (eraseBbt, { s with
      bbtBlock := update s.bbtBlock s.bbtCrtBlockIdx blockNo
      bbtCrtPage := 0 })

/-- `update_bbtrbt_2_nand(TYPE_BBT)`. -/
def updateBbt2Nand (s : Driver) : Option Driver := do
  let (eraseBbt, s) ← updateBbtBlock2Nand hw s
  some (if eraseBbt then (s.erase hw (s.bbtBlock (1 - s.bbtCrtBlockIdx))).2 else s)

/-- The pages of `RBT`. -/
def rbtPageNum : ℕ := 2

/-- The loop of `update_rbt_block_2_nand` that writes the pages of `RBT`: whether all of them were
written, and the page after the last one. -/
def rbtWrite (blockNo pair : ℕ) : ℕ → ℕ → ℕ → Driver → Bool × ℕ × Driver
  | 0, _, crtPage, s => (true, crtPage, s)
  | n + 1, idx, crtPage, s =>
    if rbtBytes ≤ idx then (true, crtPage, s)
    else
      let copyLen := min nandPageSize (rbtBytes - idx)
      let (result, s) := s.writeCheck hw (tablePage markRbt s.tables.rbt idx copyLen pair)
        (blockNo * nandBlockSize + crtPage) 0 nandPageTotalSize
      if result = .noError then rbtWrite blockNo pair n (idx + copyLen) (crtPage + 1) s
      else (false, crtPage, s)

/-- The loop of `update_rbt_block_2_nand` that looks for a new block, and `need_sv_bbt`. -/
def rbtFind : ℕ → ℕ → Bool → Driver → Option (ℕ × Bool × Driver)
  | 0, _, _, _ => none
  | n + 1, blockNo, needSvBbt, s => do
    let needSvBbt := needSvBbt || !checkIsInBbt s.tables blockNo
    let s ← s.recordBad blockNo
    let s := if blockNo = s.rbtBlock s.rbtCrtBlockIdx then s else (s.erase hw blockNo).2
    let (blockNo, s) ← s.allocTable
    let (result, s) := s.erase hw blockNo
    if result = .noError then some (blockNo, needSvBbt, s) else rbtFind n blockNo needSvBbt s

/-- The outer loop of `update_rbt_block_2_nand`. -/
def rbtSave (pair : ℕ) : ℕ → ℕ → ℕ → Bool → Driver → Option (ℕ × ℕ × Bool × Driver)
  | 0, _, _, _, _ => none
  | n + 1, blockNo, crtPage, needSvBbt, s => do
    let (ok, crtPage, s) := rbtWrite hw blockNo pair rbtPageNum 0 crtPage s
    if ok then some (blockNo, crtPage, needSvBbt, s)
    else
      let (blockNo, needSvBbt, s) ← rbtFind hw searchPasses blockNo needSvBbt s
      rbtSave pair n blockNo 0 needSvBbt s

/-- The current block of `RBT` is full. -/
def Driver.rbtFull (s : Driver) : Bool :=
  decide (nandBlockSize - 1 < s.rbtCrtPage + rbtPageNum ∧ s.rbtCrtPage ≠ invalPageVal)

/-- The page that `RBT` goes to next. -/
def Driver.rbtAdvance (s : Driver) : Driver :=
  if s.rbtFull then
    let s := { s with rbtCrtBlockIdx := 1 - s.rbtCrtBlockIdx, rbtCrtPage := 0 }
    (s.erase hw (s.rbtBlock s.rbtCrtBlockIdx)).2
  else
    { s with rbtCrtPage := if s.rbtCrtPage = invalPageVal then 0 else s.rbtCrtPage + 1 }

/-- `update_rbt_block_2_nand`, and `erase_rbt`. -/
def updateRbtBlock2Nand (s : Driver) : Option (Bool × Driver) := do
  let eraseRbt := s.rbtFull
  let s := s.rbtAdvance hw
  let old := s.rbtBlock s.rbtCrtBlockIdx
  let pair := s.rbtBlock (1 - s.rbtCrtBlockIdx)
  let (blockNo, crtPage, needSvBbt, s) ← rbtSave hw pair searchPasses old s.rbtCrtPage false s
  let s ← if needSvBbt then updateBbt2Nand hw s else some s
  let s := if old = blockNo then s
    else
      let s := (s.erase hw old).2
      { s with rbtBlock := update s.rbtBlock s.rbtCrtBlockIdx blockNo }
  some (eraseRbt, { s with rbtCrtPage := crtPage - 1 })

/-- `update_bbtrbt_2_nand(TYPE_RBT)`. -/
def updateRbt2Nand (s : Driver) : Option Driver := do
  let (eraseRbt, s) ← updateRbtBlock2Nand hw s
  some (if eraseRbt then (s.erase hw (s.rbtBlock (1 - s.rbtCrtBlockIdx))).2 else s)

/-! ### Finding the tables -/

/-- The loop of `alloc_bbtrbt_block_addr` that takes one block: the block, if any, and where
`block_no` ends. -/
def takeBlock (t : Tables) : ℕ → Option ℕ × ℕ
  | 0 => (none, 0)
  | n + 1 =>
    if tableAreaStart < n + 1 then if checkIsInBbt t (n + 1) then takeBlock t n else (some (n + 1), n)
    else (none, n + 1)

/-- `bbt_block[idx] = block_no`. -/
def Driver.setBbtBlock (s : Driver) (idx : Fin 2) (blockNo : ℕ) : Driver :=
  { s with bbtBlock := update s.bbtBlock idx blockNo }

/-- `rbt_block[idx] = block_no`. -/
def Driver.setRbtBlock (s : Driver) (idx : Fin 2) (blockNo : ℕ) : Driver :=
  { s with rbtBlock := update s.rbtBlock idx blockNo }

/-- One block of a pair is taken and erased. -/
def allocInto (set : Driver → ℕ → Driver) (r : ℕ × Driver) : ℕ × Driver :=
  match takeBlock r.2.tables r.1 with
  | (some b, n) => (n, ((set r.2 b).erase hw b).2)
  | (none, n) => (n, r.2)

/-- The end of `alloc_bbtrbt_block_addr`; the assertion fails when a block is missing. -/
def allocFinish (r : ℕ × Driver) : Option Driver :=
  if r.2.bbtBlock 0 < tableAreaStart ∨ r.2.bbtBlock 1 < tableAreaStart ∨
      r.2.rbtBlock 0 < tableAreaStart ∨ r.2.rbtBlock 1 < tableAreaStart then none
  else some { r.2 with
    bbtCrtBlockIdx := 0, bbtCrtPage := invalPageVal
    rbtCrtBlockIdx := 0, rbtCrtPage := invalPageVal
    tables := { r.2.tables with
      lastValidTabBlock := r.1
      bbt := update r.2.tables.bbt bbtLastTabValidIdx r.1 } }

/-- `alloc_bbtrbt_block_addr`, which returns only with `true`. -/
def allocBbtrbtBlockAddr (s : Driver) : Option Driver :=
  let r := allocInto hw (·.setBbtBlock 0) (tableAreaEnd, s)
  let r := allocInto hw (·.setBbtBlock 1) r
  let r := allocInto hw (·.setRbtBlock 0) r
  allocFinish (allocInto hw (·.setRbtBlock 1) r)

/-- The spare data of a page. -/
def Driver.spareData (s : Driver) (blockNo pageNo : ℕ) : FlashErr × (ℕ → UInt8) :=
  qspiNandflashRead hw (blockNo * nandBlockSize + pageNo) (nandPageSize + nandSpareDataOffset) 6
    s.chip

/-- The page can be read and has the mark. -/
def Driver.marked (s : Driver) (mark : UInt8) (blockNo pageNo : ℕ) : Bool :=
  let r := s.spareData hw blockNo pageNo
  decide (r.1 = .noError) && isMarked mark r.2

/-- The number of the other block in the spare data. -/
def Driver.pairBlock (s : Driver) (blockNo pageNo : ℕ) : ℕ :=
  let spare := (s.spareData hw blockNo pageNo).2
  (spare 4).toNat + (spare 5).toNat * 2 ^ 8

def checkIsBadBlockByRead (s : Driver) (blockNo : ℕ) : Bool :=
  (List.range nandBlockSize).any fun pageNo =>
    qspiNandflashCheckIsBadpageByRead hw (blockNo * nandBlockSize + pageNo) s.chip

/-- The loop of `rebuild_bbtrbt` that looks for a block of a table, from the last one down. -/
def findTable (mark : UInt8) (s : Driver) : ℕ → Option ℕ
  | 0 => none
  | n + 1 =>
    if n + 1 < tableAreaStart then none
    else if s.marked hw mark (n + 1) 0 && !checkIsBadBlockByRead hw s (n + 1) then some (n + 1)
    else findTable mark s n

/-- The loop of `rebuild_bbtrbt` that looks for the last marked page of a block; the assertion fails
when a page cannot be read. A `page_no` that has passed `0` is 65535. -/
def lastMarkedPage (mark : UInt8) (s : Driver) (blockNo : ℕ) : ℕ → Option ℕ
  | 0 => some 0xFFFF
  | n + 1 =>
    if (s.spareData hw blockNo n).1 ≠ .noError then none
    else if s.marked hw mark blockNo n then some n
    else lastMarkedPage mark s blockNo n

/-- `load_bbtrbt_from_nand(TYPE_BBT)`. -/
def loadBbtFromNand (s : Driver) : Option Driver :=
  let r := qspiNandflashRead hw (s.bbtBlock s.bbtCrtBlockIdx * nandBlockSize + s.bbtCrtPage) 0
    bbtBytes s.chip
  if r.1 ≠ .noError then none
  else some { s with
    tables := { s.tables with
      bbt := fun i => if 2 * i < bbtBytes then tableOfBytes r.2 i else s.tables.bbt i } }

/-- `load_bbtrbt_from_nand(TYPE_RBT)`: the first page, and the rest from the second. -/
def loadRbtFromNand (s : Driver) : Option Driver :=
  let page := s.rbtBlock s.rbtCrtBlockIdx * nandBlockSize + s.rbtCrtPage - (rbtPageNum - 1)
  let r := qspiNandflashRead hw page 0 nandPageSize s.chip
  let r' := qspiNandflashRead hw (page + 1) 0 (rbtBytes - nandPageSize) s.chip
  if r.1 ≠ .noError ∨ r'.1 ≠ .noError then none
  else some { s with
    tables := { s.tables with
      rbt := fun i =>
        if 2 * i < nandPageSize then tableOfBytes r.2 i
        else if 2 * i < rbtBytes then tableOfBytes (fun j => r'.2 (j - nandPageSize)) i
        else s.tables.rbt i } }

/-- The first half of `rebuild_bbtrbt`: `BBT` is in the block found, or in the first page of the other
block of the pair. -/
def rebuildBbt (blockNo : ℕ) (s : Driver) : Option Driver := do
  let pageNo ← lastMarkedPage hw markBbt s blockNo nandBlockSize
  let pair := s.pairBlock hw blockNo (if pageNo < nandBlockSize then pageNo else 0)
  let newer := decide (pageNo = nandBlockSize - 1) && s.marked hw markBbt pair 0
  let s := if (s.spareData hw pair 0).1 ≠ .noError then (s.erase hw pair).2
    else if newer then (s.erase hw blockNo).2
    else s
  let s ← loadBbtFromNand hw { s with
    bbtBlock := fun i => if i = 0 then blockNo else pair
    bbtCrtBlockIdx := if newer then 1 else 0
    bbtCrtPage := if newer then 0 else pageNo % 2 ^ 8 }
  some { s with
    tables := { s.tables with
      badBlockNum := s.tables.bbt bbtBadNumIdx
      lastValidRepBlock := s.tables.bbt bbtLastRepValidIdx
      lastValidTabBlock := s.tables.bbt bbtLastTabValidIdx } }

/-- The second half of `rebuild_bbtrbt`: the same for `RBT`. An odd number of pages makes the
assertion fail. -/
def rebuildRbt (blockNo : ℕ) (s : Driver) : Option Driver := do
  let pageNo ← lastMarkedPage hw markRbt s blockNo nandBlockSize
  if (pageNo + 1) % rbtPageNum ≠ 0 then none
  else
    let pair := s.pairBlock hw blockNo (if pageNo < nandBlockSize then pageNo else 0)
    let newer := decide (pageNo = nandBlockSize / (rbtPageNum - 1) * (rbtPageNum - 1) - 1) &&
      s.marked hw markRbt pair 0
    let s := if (s.spareData hw pair 0).1 ≠ .noError then (s.erase hw pair).2 else s
    loadRbtFromNand hw { s with
      rbtBlock := fun i => if i = 0 then blockNo else pair
      rbtCrtBlockIdx := if newer then 1 else 0
      rbtCrtPage := if newer then rbtPageNum - 1 else pageNo % 2 ^ 8 }

def rebuildBbtrbt (s : Driver) : Option (Bool × Driver) :=
  match findTable hw markBbt s tableAreaEnd with
  | some blockNo => do
    let s ← rebuildBbt hw blockNo s
    match findTable hw markRbt s tableAreaEnd with
    | some blockNo => (rebuildRbt hw blockNo s).map fun s => (true, s)
    | none => some (false, s)
  | none => do
    let t ← scanAll2BuildBbtrbt (qspiNandflashIsBadblock s.chip) s.tables
    let s ← allocBbtrbtBlockAddr hw { s with tables := t }
    let s ← updateBbt2Nand hw s
    (updateRbt2Nand hw s).map fun s => (true, s)

/-- `nandflash_api_init`, which does not look at what `rebuild_bbtrbt` returns. -/
def nandflashApiInit (s : Driver) : Option Driver := (rebuildBbtrbt hw s).map Prod.snd

/-! ### The calls of the user -/

def nandflashPageRead (s : Driver) (blockNo pageNo offsetInPage bufLen : ℕ) : ℤ × (ℕ → UInt8) :=
  if userAreaEnd < blockNo ∨ nandBlockSize ≤ pageNo ∨ nandPageSize < bufLen then (-1, fun _ => 0)
  else
    let r := qspiNandflashRead hw (currentTarget s.tables blockNo * nandBlockSize + pageNo)
      offsetInPage bufLen s.chip
    (if r.1 = .noError then 0 else -2, r.2)

/-- Both tables are saved. -/
def Driver.saveTables (s : Driver) : Option Driver := do
  let s ← updateBbt2Nand hw s
  updateRbt2Nand hw s

/-- The loop of `nandflash_block_erase`. -/
def eraseLoop (blockNo : ℕ) : ℕ → Driver → Option (ℤ × Driver)
  | 0, _ => none
  | n + 1, s => do
    let replaceBlock := currentTarget s.tables blockNo
    let (result, s) := s.erase hw replaceBlock
    if result = .noError then some (0, s)
    else
      let (ok, t) ← updateBb2Bbtrbt blockNo replaceBlock s.tables
      if ok then
        let s ← Driver.saveTables hw { s with tables := t }
        eraseLoop blockNo n s
      else some (-2, { s with tables := t })

def nandflashBlockErase (blockNo : ℕ) (s : Driver) : Option (ℤ × Driver) :=
  if userAreaEnd < blockNo then some (-1, s) else eraseLoop hw blockNo searchPasses s

/-- `nandflash_move_page_data`; the assertion fails when the page cannot be read. -/
def nandflashMovePageData (destBlockNo srcBlockNo pageNo : ℕ) (s : Driver) :
    Option (FlashErr × Driver) :=
  let r := qspiNandflashRead hw (srcBlockNo * nandBlockSize + pageNo) 0
    (nandPageSize + nandSpareAreaSize) s.chip
  if r.1 ≠ .noError then none
  else
    some (s.writeCheck hw r.2 (destBlockNo * nandBlockSize + pageNo) 0
      (nandPageSize + nandSpareAreaSize))

/-- The loop of `nandflash_page_program` that copies the pages below the one to be programmed, and
whether all of them could be. -/
def copyPages (destBlockNo srcBlockNo : ℕ) : List ℕ → Driver → Option (Bool × Driver)
  | [], s => some (true, s)
  | pageIdx :: pages, s => do
    let (result, s) ← nandflashMovePageData hw destBlockNo srcBlockNo pageIdx s
    if result = .noError then copyPages destBlockNo srcBlockNo pages s else some (false, s)

/-- The inner loop of `nandflash_page_program`: a new block is found and has the pages below the one
to be programmed; `false` when there is none. -/
def moveLoop (blockNo replaceBlock pageNo : ℕ) : ℕ → ℕ → Driver → Option (Bool × Driver)
  | 0, _, _ => none
  | n + 1, newReplaceBlock, s => do
    let (ok, t) ← updateBb2Bbtrbt blockNo newReplaceBlock s.tables
    let s := { s with tables := t }
    if ok then
      let newReplaceBlock := s.tables.rbt blockNo
      let (copied, s) ← copyPages hw newReplaceBlock replaceBlock (List.range pageNo) s
      if copied then some (true, s)
      else moveLoop blockNo replaceBlock pageNo n newReplaceBlock (s.erase hw newReplaceBlock).2
    else some (false, s)

/-- The outer loop of `nandflash_page_program`. -/
def programLoop (buffer : ℕ → UInt8) (blockNo pageNo offsetInPage bufLen : ℕ) :
    ℕ → Driver → Option (ℤ × Driver)
  | 0, _ => none
  | n + 1, s => do
    let replaceBlock := currentTarget s.tables blockNo
    let (result, s) := s.writeCheck hw buffer (replaceBlock * nandBlockSize + pageNo) offsetInPage
      bufLen
    if result = .outOfBound then some (-1, s)
    else if result = .noError then some (0, s)
    else
      let (ok, s) ← moveLoop hw blockNo replaceBlock pageNo searchPasses replaceBlock s
      if ok then
        let s ← s.saveTables hw
        programLoop buffer blockNo pageNo offsetInPage bufLen n s
      else some (-2, s)

def nandflashPageProgram (buffer : ℕ → UInt8) (blockNo pageNo offsetInPage bufLen : ℕ) (s : Driver) :
    Option (ℤ × Driver) :=
  if userAreaEnd < blockNo ∨ nandBlockSize ≤ pageNo ∨ nandPageSize < offsetInPage + bufLen then
    some (-1, s)
  else programLoop hw buffer blockNo pageNo offsetInPage bufLen searchPasses s

/-! ### When nothing fails -/

section NoFailure

variable {hw : Hw} {s s' : Driver}

/-- Every page of the chip can be read. -/
def Driver.Readable (s : Driver) : Prop := ∀ p, (s.chip.pages p).uncorrectable = false

theorem readable_erase (h : s.Readable) (b : ℕ) : (s.erase hw b).2.Readable := by
  intro p
  simp only [Driver.erase, qspiNandflashBlockErase, Device.issue, Prim.apply]
  split_ifs
  · rfl
  · exact h p

/-- **A write succeeds** when programs do not fail. -/
theorem writeCheck_of_readable (hfails : ∀ i, hw.fails i = false) (h : s.Readable)
    (buf : ℕ → UInt8) (page : ℕ) {o n : ℕ} (hn : o + n ≤ nandPageTotalSize) :
    (s.writeCheck hw buf page o n).1 = .noError ∧
      (s.writeCheck hw buf page o n).2 =
        { s with chip := s.chip.issue hw.fails (.program (hw.sent page) o n buf) } ∧
      (s.writeCheck hw buf page o n).2.Readable := by
  have hwrite : qspiNandflashWrite hw buf page o n s.chip =
      (.noError, s.chip.issue hw.fails (.program (hw.sent page) o n buf)) :=
    if_neg (not_lt.mpr hn)
  have hread : ∀ p, ((s.chip.issue hw.fails (.program (hw.sent page) o n buf)).pages
      p).uncorrectable = false := by
    intro p
    simp only [Device.issue, hfails]
    by_cases hp : p = hw.sent page
    · subst hp
      rw [apply_program_self, Page.program, h, Bool.or_false]
    · rw [apply_program_of_ne hp, h]
  have hcheck : (s.writeCheck hw buf page o n).1 = .noError := by
    simp only [Driver.writeCheck, hwrite, qspiNandflashCheckIsBadpageByRead, hread]
    rfl
  have hstate : (s.writeCheck hw buf page o n).2 =
      { s with chip := s.chip.issue hw.fails (.program (hw.sent page) o n buf) } := by
    simp only [Driver.writeCheck, hwrite]
  exact ⟨hcheck, hstate, by rw [hstate]; exact hread⟩

/-- The page that `BBT` is written to. -/
def Driver.bbtWrite (hw : Hw) (s : Driver) : FlashErr × Driver :=
  s.writeCheck hw (tablePage markBbt s.tables.bbt 0 bbtBytes (s.bbtBlock (1 - s.bbtCrtBlockIdx)))
    (s.bbtBlock s.bbtCrtBlockIdx * nandBlockSize + s.bbtCrtPage) 0 nandPageTotalSize

theorem readable_bbtAdvance (h : s.Readable) : (s.bbtAdvance hw).Readable := by
  rw [Driver.bbtAdvance]
  by_cases hfull : s.bbtFull = true
  · rw [if_pos hfull]
    exact readable_erase (s := { s with
      bbtCrtBlockIdx := 1 - s.bbtCrtBlockIdx, bbtCrtPage := 0 }) h _
  · rw [if_neg hfull]
    exact h

theorem updateBbtBlock2Nand_of_write (h : ((s.bbtAdvance hw).bbtWrite hw).1 = .noError) :
    updateBbtBlock2Nand hw s = some (s.bbtFull, ((s.bbtAdvance hw).bbtWrite hw).2) := by
  simp only [Driver.bbtWrite] at h ⊢
  simp only [updateBbtBlock2Nand, h, if_true, Option.bind_eq_bind, Option.bind_some]

/-- **`BBT` is saved** when nothing fails. -/
theorem updateBbt2Nand_of_readable (hfails : ∀ i, hw.fails i = false) (h : s.Readable) :
    ∃ s', updateBbt2Nand hw s = some s' ∧ s'.Readable ∧ s'.tables = s.tables := by
  obtain ⟨hw1, hw2, hw3⟩ := writeCheck_of_readable hfails (@readable_bbtAdvance hw _ h)
    (tablePage markBbt (s.bbtAdvance hw).tables.bbt 0 bbtBytes
      ((s.bbtAdvance hw).bbtBlock (1 - (s.bbtAdvance hw).bbtCrtBlockIdx)))
    ((s.bbtAdvance hw).bbtBlock (s.bbtAdvance hw).bbtCrtBlockIdx * nandBlockSize +
      (s.bbtAdvance hw).bbtCrtPage) (o := 0) (n := nandPageTotalSize) (by decide)
  have hadvance : (s.bbtAdvance hw).tables = s.tables := by
    rw [Driver.bbtAdvance]
    split_ifs <;> rfl
  refine ⟨_, by rw [updateBbt2Nand, updateBbtBlock2Nand_of_write hw1]; rfl, ?_, ?_⟩
  · split_ifs
    · exact readable_erase hw3 _
    · exact hw3
  · rw [← hadvance, Driver.bbtWrite, hw2]
    split_ifs <;> rfl

theorem rbtWrite_of_readable (hfails : ∀ i, hw.fails i = false) (blockNo pair n idx crtPage : ℕ)
    (h : s.Readable) : ∃ crt s', rbtWrite hw blockNo pair n idx crtPage s = (true, crt, s') ∧
      s'.Readable ∧ s'.tables = s.tables := by
  induction n generalizing idx crtPage s with
  | zero => exact ⟨crtPage, s, rfl, h, rfl⟩
  | succ n ih =>
    by_cases hidx : rbtBytes ≤ idx
    · exact ⟨crtPage, s, if_pos hidx, h, rfl⟩
    · obtain ⟨hw1, hw2, hw3⟩ := writeCheck_of_readable hfails h
        (tablePage markRbt s.tables.rbt idx (min nandPageSize (rbtBytes - idx)) pair)
        (blockNo * nandBlockSize + crtPage) (o := 0) (n := nandPageTotalSize) (by decide)
      obtain ⟨crt, s', hs, hread, htables⟩ :=
        ih (idx + min nandPageSize (rbtBytes - idx)) (crtPage + 1) hw3
      refine ⟨crt, s', ?_, hread, htables.trans (by rw [hw2])⟩
      rw [rbtWrite, if_neg hidx]
      simp only [hw1, if_true, hs]

theorem updateRbtBlock2Nand_of_write {crt : ℕ} {u : Driver} (hu : s.rbtAdvance hw = u)
    (h : rbtWrite hw (u.rbtBlock u.rbtCrtBlockIdx) (u.rbtBlock (1 - u.rbtCrtBlockIdx)) rbtPageNum 0
      u.rbtCrtPage u = (true, crt, s')) :
    updateRbtBlock2Nand hw s = some (s.rbtFull, { s' with rbtCrtPage := crt - 1 }) := by
  have hsave : ∀ k, rbtSave hw (u.rbtBlock (1 - u.rbtCrtBlockIdx)) (k + 1)
      (u.rbtBlock u.rbtCrtBlockIdx) u.rbtCrtPage false u =
      some (u.rbtBlock u.rbtCrtBlockIdx, crt, false, s') := by
    intro k
    simp only [rbtSave, h, if_true]
  have hpasses : searchPasses = searchPasses - 1 + 1 := by decide
  rw [updateRbtBlock2Nand, hpasses]
  simp only [hu, hsave, Option.bind_eq_bind, Option.bind_some, Bool.false_eq_true, if_false, if_true]

/-- **`RBT` is saved** when nothing fails. -/
theorem updateRbt2Nand_of_readable (hfails : ∀ i, hw.fails i = false) (h : s.Readable) :
    ∃ s', updateRbt2Nand hw s = some s' ∧ s'.Readable ∧ s'.tables = s.tables := by
  have hadvance : (s.rbtAdvance hw).Readable ∧ (s.rbtAdvance hw).tables = s.tables := by
    rw [Driver.rbtAdvance]
    by_cases hfull : s.rbtFull = true
    · rw [if_pos hfull]
      exact ⟨readable_erase (s := { s with
        rbtCrtBlockIdx := 1 - s.rbtCrtBlockIdx, rbtCrtPage := 0 }) h _, rfl⟩
    · rw [if_neg hfull]
      exact ⟨h, rfl⟩
  obtain ⟨crt, s', hs, hread, htables⟩ := rbtWrite_of_readable hfails
    ((s.rbtAdvance hw).rbtBlock (s.rbtAdvance hw).rbtCrtBlockIdx)
    ((s.rbtAdvance hw).rbtBlock (1 - (s.rbtAdvance hw).rbtCrtBlockIdx)) rbtPageNum 0
    (s.rbtAdvance hw).rbtCrtPage hadvance.1
  refine ⟨_, by rw [updateRbt2Nand, updateRbtBlock2Nand_of_write rfl hs]; rfl, ?_, ?_⟩
  · split_ifs
    · exact readable_erase (s := { s' with rbtCrtPage := crt - 1 }) hread _
    · exact hread
  · split_ifs
    · exact htables.trans hadvance.2
    · exact htables.trans hadvance.2

end NoFailure

end Gd32.Nand
