import Gd32Firmware.Config
import Gd32Firmware.Lib.Ram
import Mathlib.Algebra.BigOperators.Fin

/-!
# The heaps of the adapter

`tuya_mem_heap.c`: up to four heaps, each over a region of memory given to it. A heap is cut
into blocks that lie one behind the other; a block begins with its size and ends with a guard
byte that says whether it is in use, and a free block has, behind its size, the address of the
next free one. An allocation cuts its block from the end of a free block found by a best-fit
search of bounded depth, and a release puts the block back in its place in the list of free
blocks and merges it with its neighbours.

All of this lies in the memory that the clients use too, so the model keeps a memory of bytes
and reads and writes it as the source does. A pointer is an address, `0` being null, and the
arithmetic is that of `unsigned long`, 32 bits wide.

Left out are the critical sections, the debug output, the assertions (`MEM_DEBUG_ASSERT_ON` is
`0`), the filling of free memory (`MEM_DEBUG_FREE_FILL` is `0`) and the entry points that only
report. Those that record where a block was allocated are in `Gd32Firmware.Tuya.HeapDebug`.
-/

namespace Gd32.Tuya

/-! ### Constants -/

def memBlockMinSize : ℕ := 24

/-- `MEM_BLOCK_HEAD_SIZE`: the payload begins where a free block has its link. -/
def memBlockHeadSize : ℕ := 4

def memHeapMinSize : ℕ := memBlockMinSize + memBlockHeadSize

def fitFindDepth : ℕ := 3

def memBlockStatUse : UInt8 := 0x55

def memBlockStatFree : UInt8 := 0xaa

abbrev memHeapListNum : ℕ := 4

/-- `ALIGN_DOWN`; `MEM_ALIGN_NUM` is `4`. -/
def alignDown (x : ℕ) : ℕ := x / 4 * 4

/-- `ALIGN_UP`, which wraps. -/
def alignUp (x : ℕ) : ℕ := alignDown (u32 (x + 3))

/-! ### Blocks in memory -/

def blockSize (m : Ram) (block : ℕ) : ℕ := m.load block

def blockNext (m : Ram) (block : ℕ) : ℕ := m.load (block + 4)

/-- `block->size = v`. -/
def setBlockSize (m : Ram) (block v : ℕ) : Ram := m.store block v

/-- `block->next = v`. -/
def setBlockNext (m : Ram) (block v : ℕ) : Ram := m.store (block + 4) v

def memDogAddr (m : Ram) (block : ℕ) : ℕ := u32sub (block + blockSize m block) 1

/-! ### One heap -/

/-- `MEM_Heap_t`. -/
structure MemHeap where
  freeList : ℕ
  base : ℕ
  /-- `size`, and `0` in an entry that is not in use. -/
  size : ℕ
  free : ℕ
  freeWatermark : ℕ
  deriving DecidableEq

/-- What a call on one heap reads and changes: the memory, the entry of the heap and the two
counters all heaps share. -/
structure HeapEnv where
  mem : Ram
  heap : MemHeap
  freeSize : ℕ
  freeSizeWatermark : ℕ

/-- The size of the one block of a fresh heap, as `mem_heap_init` computes it. -/
def memHeapInitSize (ptr size : ℕ) : ℕ := alignDown (u32sub size (u32sub (alignUp ptr) ptr))

/-- `mem_heap_init`, and whether it succeeds. -/
def memHeapInit (v : HeapEnv) (ptr size : ℕ) : HeapEnv × Bool :=
  let v := { v with heap := { v.heap with base := ptr, size := size } }
  let p := alignUp ptr
  let n := memHeapInitSize ptr size
  if n < memHeapMinSize then (v, false)
  else
    let m := setBlockSize (setBlockNext v.mem p 0) p n
    let freeSize := u32 (v.freeSize + n)
    ({ mem := m.put (memDogAddr m p) memBlockStatFree
       heap := { v.heap with freeList := p, free := n, freeWatermark := n }
       freeSize := freeSize
       freeSizeWatermark := freeSize }, true)

/-- The inner loop of `mem_chunk_get`: from the block found first, look further for one that
fits and is no larger. The result is `pre_block` and `this_block`. -/
def fitLoop (m : Ram) (size : ℕ) : ℕ → ℕ → ℕ → ℕ → ℕ → ℕ → ℕ × ℕ
  | 0, pre, this, _, _, _ => (pre, this)
  | fuel + 1, pre, this, preBak, thisBak, findNum =>
    if thisBak = 0 then (pre, this)
    else if size ≤ blockSize m thisBak ∧ blockSize m thisBak ≤ blockSize m this then
      if fitFindDepth ≤ findNum + 1 then (preBak, thisBak)
      else fitLoop m size fuel preBak thisBak thisBak (blockNext m thisBak) (findNum + 1)
    else
      if fitFindDepth ≤ findNum then (pre, this)
      else fitLoop m size fuel pre this thisBak (blockNext m thisBak) findNum

/-- The outer loop of `mem_chunk_get`: `pre_block` and `this_block`, when a block fits. -/
def chunkLoop (m : Ram) (size : ℕ) : ℕ → ℕ → ℕ → Option (ℕ × ℕ)
  | 0, _, _ => none
  | fuel + 1, pre, this =>
    if this = 0 then none
    else if size ≤ blockSize m this then
      some (fitLoop m size fuel pre this this (blockNext m this) 0)
    else chunkLoop m size fuel this (blockNext m this)

/-- Cutting a block of `size` bytes from the end of `this`. -/
def cutBlock (m : Ram) (this size : ℕ) : Ram × ℕ :=
  let m := setBlockSize m this (u32sub (blockSize m this) size)
  let m := m.put (memDogAddr m this) memBlockStatFree
  let new := u32 (this + blockSize m this)
  let m := setBlockSize m new size
  (m.put (memDogAddr m new) memBlockStatUse, new)

/-- Taking the block `this`, which `pre` leads to, out of the list of free blocks. -/
def takeBlock (v : HeapEnv) (pre this : ℕ) : HeapEnv :=
  let next := blockNext v.mem this
  let v := if pre ≠ 0 then { v with mem := setBlockNext v.mem pre next }
    else { v with heap := { v.heap with freeList := next } }
  { v with mem := v.mem.put (memDogAddr v.mem this) memBlockStatUse }

/-- `mem_chunk_get`; the list of free blocks has fewer blocks than the heap has bytes. -/
def memChunkGet (v : HeapEnv) (size : ℕ) : HeapEnv × ℕ :=
  match chunkLoop v.mem size v.heap.size 0 v.heap.freeList with
  | none => (v, 0)
  | some (pre, this) =>
    if memHeapMinSize ≤ u32sub (blockSize v.mem this) size then
      ({ v with mem := (cutBlock v.mem this size).1 }, (cutBlock v.mem this size).2)
    else (takeBlock v pre this, this)

/-- The size of the block for `size` bytes: the header, the bytes and the guard, aligned. -/
def memNewSize (size : ℕ) : ℕ := u32 (alignUp (u32 (size + 1)) + memBlockHeadSize)

/-- The counters after a block of `n` bytes is taken. -/
def countTaken (v : HeapEnv) (n : ℕ) : HeapEnv :=
  let free := u32sub v.heap.free n
  let freeSize := u32sub v.freeSize n
  { v with
    heap := { v.heap with free := free, freeWatermark := min v.heap.freeWatermark free }
    freeSize := freeSize
    freeSizeWatermark := min v.freeSizeWatermark freeSize }

def memAllocate (v : HeapEnv) (size : ℕ) : HeapEnv × ℕ :=
  if size = 0 then (v, 0)
  else
    let size := if size < 4 then 4 else size
    let newSize := memNewSize size
    if newSize < size then (v, 0)
    else
      let (v, block) := memChunkGet v newSize
      if block = 0 then (v, 0)
      else (countTaken v (blockSize v.mem block), u32 (block + memBlockHeadSize))

/-- The loop of `MEM_Deallocate`: the free blocks around the block `fb`. -/
def placeLoop (m : Ram) (fb : ℕ) : ℕ → ℕ → ℕ → ℕ × ℕ
  | 0, pre, next => (pre, next)
  | fuel + 1, pre, next =>
    if next ≠ 0 ∧ next < fb then placeLoop m fb fuel next (blockNext m next) else (pre, next)

/-- Linking `fb` behind `pre`, or merging it into `pre` when it follows at once. The second
result is `pre_block` afterwards: the block that `fb` is now in. -/
def linkBlock (v : HeapEnv) (pre fb : ℕ) : HeapEnv × ℕ :=
  if pre = 0 then ({ v with heap := { v.heap with freeList := fb } }, fb)
  else if u32 (pre + blockSize v.mem pre) = fb then
    ({ v with mem := setBlockSize v.mem pre (u32 (blockSize v.mem pre + blockSize v.mem fb)) }, pre)
  else ({ v with mem := setBlockNext v.mem pre fb }, fb)

/-- Merging the free block `next` into `pre` when it follows at once. -/
def mergeNext (m : Ram) (pre next : ℕ) : Ram :=
  if next ≠ 0 ∧ u32 (pre + blockSize m pre) = next then
    let m := setBlockSize m pre (u32 (blockSize m pre + blockSize m next))
    setBlockNext m pre (blockNext m next)
  else m

/-- The block `fb` marked and counted as free. -/
def markFree (v : HeapEnv) (fb : ℕ) : HeapEnv :=
  let m := v.mem.put (memDogAddr v.mem fb) memBlockStatFree
  { v with
    mem := m
    heap := { v.heap with free := u32 (v.heap.free + blockSize m fb) }
    freeSize := u32 (v.freeSize + blockSize m fb) }

/-- The block `fb` put in its place in the list of free blocks. -/
def placeBlock (v : HeapEnv) (fb : ℕ) : HeapEnv :=
  let (pre, next) := placeLoop v.mem fb v.heap.size 0 v.heap.freeList
  let (v, pre) := linkBlock { v with mem := setBlockNext v.mem fb next } pre fb
  { v with mem := mergeNext v.mem pre next }

def memDeallocate (v : HeapEnv) (ptr : ℕ) : HeapEnv :=
  if ptr = 0 then v
  else
    let fb := u32sub ptr memBlockHeadSize
    if v.mem.byte (memDogAddr v.mem fb) ≠ memBlockStatUse then v
    else placeBlock (markFree v fb) fb

/-! ### All heaps -/

/-- The state of the module. -/
structure HeapState where
  mem : Ram
  memHeapList : Fin memHeapListNum → MemHeap
  freeSize : ℕ
  freeSizeWatermark : ℕ

/-- An entry that is not in use. -/
def MemHeap.zero : MemHeap := ⟨0, 0, 0, 0, 0⟩

/-- What a call on the heap `i` sees. -/
def HeapState.env (s : HeapState) (i : Fin memHeapListNum) : HeapEnv :=
  ⟨s.mem, s.memHeapList i, s.freeSize, s.freeSizeWatermark⟩

/-- The state after a call on the heap `i`. -/
def HeapState.set (s : HeapState) (i : Fin memHeapListNum) (v : HeapEnv) : HeapState :=
  ⟨v.mem, Function.update s.memHeapList i v.heap, v.freeSize, v.freeSizeWatermark⟩

@[simp] theorem HeapState.set_env (s : HeapState) (i : Fin memHeapListNum) :
    s.set i (s.env i) = s := by
  rw [HeapState.set, HeapState.env, Function.update_eq_self]

/-- `tuya_mem_heap_create`, which is `MEM_HeapCreate`, and the handle it gives. -/
def tuyaMemHeapCreate (s : HeapState) (ptr size : ℕ) :
    HeapState × Option (Fin memHeapListNum) :=
  if ptr = 0 ∨ size = 0 then (s, none)
  else
    match (List.finRange memHeapListNum).find? fun i => (s.memHeapList i).size = 0 with
    | none => (s, none)
    | some i =>
      let r := memHeapInit (s.env i) ptr size
      if r.2 then (s.set i r.1, some i)
      else (s.set i { r.1 with heap := { r.1.heap with size := 0 } }, none)

/-- `tuya_mem_heap_delete`, which is `MEM_HeapDelete`. -/
def tuyaMemHeapDelete (s : HeapState) : Option (Fin memHeapListNum) → HeapState
  | none => s
  | some i => { s with memHeapList := Function.update s.memHeapList i MemHeap.zero }

/-- The loop of `tuya_mem_heap_malloc` with the handle `0`, over the entries that follow. -/
def mallocLoop (s : HeapState) (size : ℕ) : List (Fin memHeapListNum) → HeapState × ℕ
  | [] => (s, 0)
  | i :: is =>
    if 0 < (s.memHeapList i).size then
      if u32 (size + memBlockMinSize) < (s.memHeapList i).free then
        let (v, ptr) := memAllocate (s.env i) size
        if ptr ≠ 0 then (s.set i v, ptr) else mallocLoop (s.set i v) size is
      else mallocLoop s size is
    else (s, 0)

def tuyaMemHeapMalloc (s : HeapState) (handle : Option (Fin memHeapListNum)) (size : ℕ) :
    HeapState × ℕ :=
  match handle with
  | some i =>
    let (v, ptr) := memAllocate (s.env i) size
    (s.set i v, ptr)
  | none => mallocLoop s size (List.finRange memHeapListNum)

def tuyaMemHeapCalloc (s : HeapState) (handle : Option (Fin memHeapListNum)) (size : ℕ) :
    HeapState × ℕ :=
  let (s, ptr) := tuyaMemHeapMalloc s handle size
  if ptr ≠ 0 then ({ s with mem := s.mem.fill ptr 0 size }, ptr) else (s, ptr)

/-- The loop of `tuya_mem_heap_free` with the handle `0`, over the entries that follow. -/
def freeLoop (s : HeapState) (ptr : ℕ) : List (Fin memHeapListNum) → HeapState
  | [] => s
  | i :: is =>
    if 0 < (s.memHeapList i).size then
      if (s.memHeapList i).base < ptr ∧
          ptr < u32 ((s.memHeapList i).base + (s.memHeapList i).size) then
        s.set i (memDeallocate (s.env i) ptr)
      else freeLoop s ptr is
    else s

def tuyaMemHeapFree (s : HeapState) (handle : Option (Fin memHeapListNum)) (ptr : ℕ) :
    HeapState :=
  match handle with
  | some i => s.set i (memDeallocate (s.env i) ptr)
  | none => freeLoop s ptr (List.finRange memHeapListNum)

/-- `tuya_mem_heap_realloc` up to the release of the old block: the state, the result, and
whether the content has moved to a new block. -/
def reallocMove (s : HeapState) (handle : Option (Fin memHeapListNum)) (ptr size : ℕ) :
    HeapState × ℕ × Bool :=
  if ptr = 0 then
    let (s, tmp) := tuyaMemHeapMalloc s handle size
    (s, tmp, false)
  else
    let old := u32sub ptr memBlockHeadSize
    if s.mem.byte (memDogAddr s.mem old) ≠ memBlockStatUse then (s, 0, false)
    else
      let size := if size < 4 then 4 else size
      -- unlike `MEM_Allocate`, this does not look whether the sum has wrapped
      let newSize := memNewSize size
      if newSize ≤ blockSize s.mem old then (s, ptr, false)
      else
        let (s, tmp) := tuyaMemHeapMalloc s handle size
        if tmp = 0 then (s, 0, false)
        else
          ({ s with
              mem := s.mem.copy tmp ptr (u32sub (blockSize s.mem old) memBlockHeadSize) },
            tmp, true)

def tuyaMemHeapRealloc (s : HeapState) (handle : Option (Fin memHeapListNum)) (ptr size : ℕ) :
    HeapState × ℕ :=
  let (s, tmp, moved) := reallocMove s handle ptr size
  if moved then (tuyaMemHeapFree s handle ptr, tmp) else (s, tmp)

/-- The `int` with the bits of an `unsigned long`. -/
def toInt (n : ℕ) : ℤ := if n < 2 ^ 31 then n else n - 2 ^ 32

def tuyaMemHeapAvailable (s : HeapState) : Option (Fin memHeapListNum) → ℤ
  | none => toInt s.freeSize
  | some i => toInt (s.memHeapList i).free

end Gd32.Tuya
