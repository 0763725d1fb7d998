import Gd32Firmware.Nvds.Put

/-!
# Loading a partition

`nvds_flash.c`, `page_header_read` and `pages_load`: the environment is rebuilt from what the
flash holds. Pages whose header is sound go to the used list, in the order of their sequence
numbers; the others are free. A first walk over the entries of a page counts them and collects
the namespace definitions, a second one over all pages counts the elements of every namespace.

The allocation of the records is taken to succeed.
-/

namespace Gd32.Nvds

open NorFlash LittleEndian

section Load

variable (rom : NvdsRom)

/-! ### Page headers -/

/-- The blocks in which a page is read to see that it is empty. -/
def emptyBlocks (env : FlashEnv) (pageAddr : ℕ) : List ℕ → ℕ
  | [] => pageUninitialized
  | i :: is =>
    match nvdsFlashRead rom env (pageAddr + i * 512) 512 with
    | .error _ => pageInvalid
    | .ok bs => if bs.all (· == 0xFF) then emptyBlocks env pageAddr is else pageError

/-- `page_header_read`: the header, its state replaced when it is not sound. -/
def pageHeaderRead (env : FlashEnv) (pageAddr : ℕ) : PageHeader :=
  match nvdsFlashRead rom env pageAddr entrySize with
  | .error _ => { PageHeader.decode (List.replicate entrySize 0) with state := pageInvalid }
  | .ok bs =>
    let h := PageHeader.decode bs
    if h.state = pageUninitialized then
      { h with state := emptyBlocks rom env pageAddr (List.range 8) }
    else if h.crc ≠ pageHeaderCrc32Calc h then { h with state := pageError }
    else if h.magic ≠ nvdsFlashMagic then { h with state := pageError }
    else h

/-! ### The walk over the entries of a page -/

/-- What the first walk does at an entry in use: a damaged header is given up, a namespace
definition is recorded, and the entries of the element are counted. The result is the number of
data entries behind it. -/
def loadEntry (k idx : ℕ) (entry : Entry) : NvdsM ℕ := do
  let _ ← NvdsM.attempt
    (if Entry.crc entry ≠ elementHeaderCrc32Calc entry then entryStateAlter rom k idx .updated
      else pure ())
  NvdsM.modify fun env =>
    if Entry.ns entry = 0 then
      let index := ((Entry.val entry).getD 0 0).toNat
      nsStateSet index true
        { env with nsList := env.nsList ++
            [⟨.ofField (Entry.field entry 8 keyNameMaxSize), index, 0⟩] }
    else env
  NvdsM.modify fun env => env.setPage k (addUsed (env.pages k) (1 + Entry.dataCnt entry))
  pure (Entry.dataCnt entry)

/-- The first walk over a page; an entry that cannot be read ends it with an error. The index
only grows, so there are no more rounds than entries. -/
def loadWalk (k : ℕ) : ℕ → ℕ → NvdsM Unit
  | 0, _ => pure ()
  | n + 1, idx =>
    if entryCountPerPage ≤ idx then pure ()
    else do
      let env ← NvdsM.get
      match stateAt (env.pages k).entryStates idx with
      | .free => NvdsM.modify fun env => env.setPage k { env.pages k with nextFreeIdx := idx }
      | .illegal => do
        let _ ← NvdsM.attempt (entryStateAlter rom k idx .updated)
        loadWalk k n (idx + 1)
      | .updated => loadWalk k n (idx + 1)
      | .used => do
        let entry ← NvdsM.look fun env => entryRead rom env k idx
        let cnt ← loadEntry rom k idx entry
        loadWalk k n (idx + 1 + cnt)

/-- `cmp_sequence_no`: the top bit of the sequence numbers is left out. -/
def cmpSequenceNo (pages : ℕ → PageEnv) (a b : ℕ) : Bool :=
  decide ((pages a).header.seqno % 2 ^ 31 < (pages b).header.seqno % 2 ^ 31)

/-- `list_insert`: in front of the first element that the new one compares below. -/
def listInsert (cmp : ℕ → ℕ → Bool) (x : ℕ) : List ℕ → List ℕ
  | [] => [x]
  | y :: ys => if cmp x y then x :: y :: ys else y :: listInsert cmp x ys

/-- The page record before the walk. -/
def freshPage (k : ℕ) (header : PageHeader) : PageEnv :=
  ⟨header, List.replicate 8 0#32, k * spiFlashSecSize, 0, 0⟩

/-- `list_push_back` to the free list. -/
def pushFree (k : ℕ) : NvdsM Unit :=
  NvdsM.modify fun env => { env with pageFree := env.pageFree ++ [k] }

/-- The pages whose header is not sound are not looked into. -/
def headerUnsound (h : PageHeader) : Bool :=
  decide (h.state = pageUninitialized) || decide (h.state = pageError) ||
    decide (h.state = pageInvalid)

/-- The entries of a page with a sound header. `isErr` is the flag of `pages_load`, which is set
when an entry cannot be read and not cleared for the next sector. -/
def loadUsed (k : ℕ) (states : StateTable) (isErr : Bool) : NvdsM Bool := do
  NvdsM.modify fun env => env.setPage k { env.pages k with
    entryStates := states
    nextFreeIdx := entryCountPerPage
    entryCntUsed := 0 }
  let r ← NvdsM.attempt (loadWalk rom k entryCountPerPage 0)
  if isErr || !r.isOk then do
    pushFree k
    pure true
  else do
    NvdsM.modify fun env =>
      { env with pageUsed := listInsert (cmpSequenceNo env.pages) k env.pageUsed }
    pure false

/-- One round of the loop over the sectors in `pages_load`, from the flag to the flag. -/
def loadSector (k : ℕ) (isErr : Bool) : NvdsM Bool := do
  NvdsM.modify fun env =>
    env.setPage k (freshPage k (pageHeaderRead rom env (k * spiFlashSecSize)))
  let env ← NvdsM.get
  if headerUnsound (env.pages k).header then do
    pushFree k
    pure isErr
  else
    match entryStatesTableRead rom env (k * spiFlashSecSize) with
    | .error _ => do
      pushFree k
      pure isErr
    | .ok states => loadUsed rom k states isErr

/-- The loop over the sectors. -/
def loadSectors : List ℕ → Bool → NvdsM Bool
  | [], isErr => pure isErr
  | k :: ks, isErr => do
    let isErr ← loadSector rom k isErr
    loadSectors ks isErr

/-! ### The second walk -/

/-- The second walk over a page: the elements in use are counted for their namespaces. An
entry that cannot be read ends it. -/
def countWalk (env : FlashEnv) (k : ℕ) : ℕ → ℕ → List NamespaceInfo → List NamespaceInfo
  | 0, _, nss => nss
  | n + 1, idx, nss =>
    if entryCountPerPage ≤ idx then nss
    else
      match entryRead rom env k idx with
      | .error _ => nss
      | .ok entry =>
        countWalk env k n (idx + 1 + Entry.dataCnt entry)
          (if stateAt (env.pages k).entryStates idx = .used then
            changeNs (Entry.ns entry) (NamespaceInfo.add 1) nss else nss)

/-- The second walk over all used pages. -/
def countAll (env : FlashEnv) : List NamespaceInfo :=
  env.pageUsed.foldl (fun nss k => countWalk rom env k entryCountPerPage 0 nss) env.nsList

/-- `pages_load`, into an environment whose lists are empty. -/
def pagesLoad : NvdsM Unit := do
  let env ← NvdsM.get
  NvdsM.check (decide (env.length % spiFlashSecSize = 0)) .invalParam
  let _ ← loadSectors rom (List.range (env.length / spiFlashSecSize)) false
  NvdsM.modify fun env => { env with nsList := countAll rom env }
  let env ← NvdsM.get
  if env.pageUsed = [] then do
    let _ ← newPageRequest rom 0
    pure ()
  else pure ()

/-- The environment of a partition before it is loaded, on a device. -/
def freshEnv (baseAddr length : ℕ) (dev : Dev) : FlashEnv where
  baseAddr := baseAddr
  length := length
  nsList := []
  nsStates := fun _ => false
  pageFree := []
  pageUsed := []
  pages := fun k => freshPage k (.decode (List.replicate entrySize 0))
  dev := dev

/-- `nvds_flash_env_init` on a device: the partition is loaded into a fresh environment. -/
def nvdsFlashEnvInit (baseAddr length : ℕ) (dev : Dev) :
    Option (Except NvdsErr Unit × FlashEnv) :=
  pagesLoad rom (freshEnv baseAddr length dev)

end Load

end Gd32.Nvds
