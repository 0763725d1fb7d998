import Gd32Firmware.Nvds.Element

/-!
# Putting values

`nvds_flash.c`, from `new_page_request` to `ns_del_used_cnt` and the four entry points
`nvds_data_put`, `nvds_data_get`, `nvds_data_find` and `nvds_data_del`.

A put appends to the last used page. When there is no room left in it, the page is marked full
and a page is taken off the free list; the last free page is only taken in exchange for the
used page with the fewest entries in use, whose entries are copied to it.
-/

namespace Gd32.Nvds

open NorFlash LittleEndian

section Put

variable (rom : NvdsRom)

/-! ### Namespace records -/

def nsStateSet (idx : ℕ) (used : Bool) (env : FlashEnv) : FlashEnv :=
  { env with nsStates := Function.update env.nsStates idx used }

/-- Change the first record with the given index. -/
def changeNs (idx : ℕ) (f : NamespaceInfo → NamespaceInfo) : List NamespaceInfo →
    List NamespaceInfo
  | [] => []
  | ns :: rest => if ns.index = idx then f ns :: rest else ns :: changeNs idx f rest

/-- `used_cnt++` and `used_cnt--`, of type `uint32_t`. -/
def NamespaceInfo.add (n : ℕ) (ns : NamespaceInfo) : NamespaceInfo :=
  { ns with usedCnt := (ns.usedCnt + n) % 2 ^ 32 }

/-- `ns_add_used_cnt`; the return code is not looked at. -/
def nsAddUsedCnt (idx : ℕ) (env : FlashEnv) : FlashEnv :=
  if namespaceMaxCnt < idx then env
  else { env with nsList := changeNs idx (NamespaceInfo.add 1) env.nsList }

/-- The part of `ns_del_used_cnt` that lowers the count. -/
def nsLowerUsedCnt (idx : ℕ) (env : FlashEnv) : FlashEnv :=
  if namespaceMaxCnt < idx then env
  else { env with nsList := changeNs idx (NamespaceInfo.add (2 ^ 32 - 1)) env.nsList }

/-- `ns_del_used_cnt` with `del_flag` set: the record of a namespace without a key goes, and
its definition with it. -/
def nsDelUsedCnt (idx : ℕ) : NvdsM Unit := do
  NvdsM.modify (nsLowerUsedCnt idx)
  let env ← NvdsM.get
  match env.nsList.find? fun ns => decide (ns.index = idx) with
  | none => pure ()
  | some ns =>
    if ns.usedCnt = 0 ∧ idx ≤ namespaceMaxCnt then do
      NvdsM.modify fun env => nsStateSet idx false { env with nsList := env.nsList.erase ns }
      dataElementDel rom 0 ns.name
    else pure ()

/-! ### `new_page_request` -/

/-- The used page with the fewest entries in use, the first one of them; a page that is in use
throughout does not count. -/
def pickVictim (env : FlashEnv) : Option ℕ :=
  (env.pageUsed.foldl (fun acc p =>
    if (env.pages p).entryCntUsed < acc.1 then ((env.pages p).entryCntUsed, some p) else acc)
    (entryCountPerPage, none)).2

/-- One round of the copy loop. -/
def copyEntry (victim page idx : ℕ) : NvdsM Unit := do
  let env ← NvdsM.get
  if stateAt (env.pages victim).entryStates idx ≠ .used then pure ()
  else do
    let entry ← NvdsM.look fun env => entryRead rom env victim idx
    entryWrite rom page entry
    let env ← NvdsM.get
    entryStateAlter rom page (u8 ((env.pages page).nextFreeIdx - 1)) .used

/-- The end of `new_page_request`: the entries of the page given up move to the new one. -/
def evacuate (victim page : ℕ) : NvdsM Unit := do
  NvdsM.modify fun env =>
    { env with pageUsed := env.pageUsed.erase victim, pageFree := env.pageFree ++ [victim] }
  pageStateAlter rom victim pageCandidate
  NvdsM.forEach (copyEntry rom victim page) (List.range entryCountPerPage)
  let env ← NvdsM.get
  nvdsFlashErase rom (env.pages victim).baseAddr spiFlashSecSize
  NvdsM.modify fun env => env.setPage victim (pageClear (env.pages victim))

/-- A free page that was not found empty is erased before it is used. -/
def eraseStale (page : ℕ) : NvdsM Unit := do
  let env ← NvdsM.get
  if (env.pages page).header.state ≠ pageUninitialized then
    nvdsFlashErase rom (env.pages page).baseAddr spiFlashSecSize
  else pure ()

/-- A page is set up in flash and moved to the end of the used list. -/
def openPage (page seq : ℕ) : NvdsM Unit := do
  eraseStale rom page
  NvdsM.modify fun env =>
    env.setPage page { pageClear (env.pages page) with header := pageHeader pageActive seq }
  let env ← NvdsM.get
  nvdsFlashWrite rom (env.pages page).baseAddr (env.pages page).header.encode
  pageStateAlter rom page pageActive
  NvdsM.modify fun env =>
    { env with pageFree := env.pageFree.erase page, pageUsed := env.pageUsed ++ [page] }

/-- The body of `new_page_request`; every error is a null result. -/
def newPage (seq : ℕ) : NvdsM ℕ := do
  let env ← NvdsM.get
  match env.pageFree with
  | [] => NvdsM.throw .fail
  | [page] =>
    match pickVictim env with
    | none => NvdsM.throw .fail
    | some victim => do
      openPage rom page seq
      evacuate rom victim page
      pure page
  | page :: _ :: _ => do
    openPage rom page seq
    pure page

def newPageRequest (seq : ℕ) : NvdsM (Option ℕ) := do
  let r ← NvdsM.attempt (newPage rom seq)
  pure r.toOption

/-! ### Writing elements -/

/-- The current page, `list_pick_last` of the used ones, after its sanity check; without a used
page the source dereferences the null pointer. -/
def currentPage : NvdsM ℕ := fun env =>
  match env.pageUsed.getLast? with
  | none => none
  | some k =>
    let state := (env.pages k).header.state
    if state = pageInvalid ∨ state = pageError ∨ state = pageCandidate then
      some (.error .fail, env)
    else some (.ok k, env)

/-- The current page is marked full and a new one takes its place. -/
def nextPage (k : ℕ) : NvdsM (Option ℕ) := do
  pageStateAlter rom k pageFull
  let env ← NvdsM.get
  newPageRequest rom (u32 ((env.pages k).header.seqno + 1))

/-- A page with so much room: the current one, or a new one in its place; `none` when there is
no such page. -/
def roomFor (size k : ℕ) : NvdsM (Option ℕ) := do
  let env ← NvdsM.get
  if pageRoomGet (env.pages k) < size then do
    let page ← nextPage rom k
    let env ← NvdsM.get
    match page with
    | none => pure none
    | some p => if pageRoomGet (env.pages p) < size then pure none else pure (some p)
  else pure (some k)

/-- Write a header, the data behind it, and then the states of all its entries. -/
def elementWrite (k : ℕ) (entry : Entry) (data : List UInt8) : NvdsM Unit := do
  let env ← NvdsM.get
  let start := (env.pages k).nextFreeIdx
  entryWrite rom k entry
  let env ← NvdsM.get
  entryDataWrite rom ((env.pages k).baseAddr + pageEntryOffset +
    (env.pages k).nextFreeIdx * entrySize) data
  NvdsM.modify fun env =>
    env.setPage k (addUsed { env.pages k with
      nextFreeIdx := (env.pages k).nextFreeIdx + entriesOf data.length } (entriesOf data.length))
  entryStateRangeAlter rom k (u8 start) (u8 (start + entriesOf data.length)) .used

/-- Write a header that has no data behind it. -/
def headerWrite (k : ℕ) (entry : Entry) : NvdsM Unit := do
  let env ← NvdsM.get
  let start := (env.pages k).nextFreeIdx
  entryWrite rom k entry
  entryStateRangeAlter rom k (u8 start) (u8 start) .used

/-- The header of a bulk fragment. Its data check is the one of the first bytes of the whole
value, as many as the fragment has. -/
def bulkEntry (ns : ℕ) (key : CString) (buf : List UInt8) (frag len : ℕ) : Entry :=
  newEntry (tagSet ns .bulk (u8 frag)) len key (infoVal (elementDataCrc32Calc (buf.take len)))

/-- The header that counts the fragments. -/
def bulkInfoEntry (ns : ℕ) (key : CString) (fragCnt size : ℕ) : Entry :=
  newEntry (tagSet ns .bulkinfo tagFragNoDefault) fragCnt key (infoVal size)

/-- The loop of `bulk_element_put`: `rest` is what is left of the value `buf`. The result is
the number of fragments, or `none` when there is no space for the next one. Every round writes
at least a byte. -/
def bulkFragsPut (ns : ℕ) (key : CString) (buf : List UInt8) :
    ℕ → ℕ → List UInt8 → ℕ → NvdsM (Option ℕ)
  | 0, _, _, _ => fun _ => none
  | n + 1, k, rest, frag => do
    let page ← roomFor rom (2 * entrySize) k
    match page with
    | none => pure none
    | some p => do
      let env ← NvdsM.get
      let len := min (pageRoomGet (env.pages p) - entrySize) rest.length
      elementWrite rom p (bulkEntry ns key buf frag len) (rest.take len)
      if rest.length - len = 0 then pure (some (frag + 1))
      else bulkFragsPut ns key buf n p (rest.drop len) (frag + 1)

/-- `no_space_out`: the fragments written so far are given up. -/
def noSpaceOut (ns : ℕ) (key : CString) : NvdsM Unit := do
  let env ← NvdsM.get
  bulkFragsDel rom ns key (env.entryTotal + 1) none 0
  NvdsM.throw .noSpace

def bulkElementPut (ns : ℕ) (key : CString) (buf : List UInt8) : NvdsM Unit := do
  let k ← currentPage
  let frags ← bulkFragsPut rom ns key buf (buf.length + 1) k buf 0
  match frags with
  | none => noSpaceOut rom ns key
  | some fragCnt => do
    let k ← currentPage
    let page ← roomFor rom entrySize k
    match page with
    | none => noSpaceOut rom ns key
    | some p => headerWrite rom p (bulkInfoEntry ns key fragCnt buf.length)

/-- The header of a small element. -/
def smallEntry (ns : ℕ) (key : CString) (buf : List UInt8) : Entry :=
  newEntry (tagSet ns .small tagFragNoDefault) buf.length key (smallVal buf)

/-- The header of a middle element. -/
def middleEntry (ns : ℕ) (key : CString) (buf : List UInt8) : Entry :=
  newEntry (tagSet ns .middle tagFragNoDefault) buf.length key
    (infoVal (elementDataCrc32Calc buf))

/-- The end of `data_element_put`, for a value that fits a page. -/
def pageElementPut (ns : ℕ) (key : CString) (buf : List UInt8) : NvdsM Unit := do
  let k ← currentPage
  let page ← roomFor rom
    (if buf.length ≤ elementSmallMaxSize then entrySize else entrySize + buf.length) k
  match page with
  | none => NvdsM.throw .noSpace
  | some p =>
    if buf.length ≤ elementSmallMaxSize then headerWrite rom p (smallEntry ns key buf)
    else elementWrite rom p (middleEntry ns key buf) buf

/-- The old element is deleted, if there is one. -/
def dropOld (ns : ℕ) (key : CString) : NvdsM Unit := do
  let r ← NvdsM.attempt (dataElementDel rom ns key)
  match r with
  | .ok () => NvdsM.modify (nsLowerUsedCnt ns)
  | .error .notFound => pure ()
  | .error e => NvdsM.throw e

def dataElementPut (ns : ℕ) (key : CString) (buf : List UInt8) : NvdsM Unit := do
  let same ← NvdsM.search fun env => (elementCompare rom env ns key buf).map .ok
  if same then NvdsM.modify (nsLowerUsedCnt ns)
  else do
    dropOld rom ns key
    if elementMiddleMaxSize < buf.length then bulkElementPut rom ns key buf
    else pageElementPut rom ns key buf

/-! ### Namespaces -/

/-- The lowest index that is not taken; `NAMESPACE_NULL_IDX` when all are. -/
def freeNsIdx (env : FlashEnv) : ℕ :=
  ((List.range' 1 (namespaceNullIdx - 1)).find? fun i => !env.nsStates i).getD namespaceNullIdx

/-- `namespace_create`, the allocation of the record succeeding. -/
def namespaceCreate (name : CString) : NvdsM ℕ := do
  let env ← NvdsM.get
  NvdsM.check (decide (freeNsIdx env ≠ namespaceNullIdx)) .noSpace
  dataElementPut rom 0 name [UInt8.ofNat (freeNsIdx env)]
  NvdsM.modify fun e =>
    nsStateSet (freeNsIdx env) true { e with nsList := e.nsList ++ [⟨name, freeNsIdx env, 0⟩] }
  pure (freeNsIdx env)

/-- `ns_index_by_namespace`; the namespace without a name is `none`. -/
def nsIndexByNamespace (name : Option CString) (create : Bool) : NvdsM ℕ :=
  match name with
  | none => pure namespaceNullIdx
  | some name => do
    NvdsM.check (decide (name.len ≤ keyNameMaxSize - 1)) .invalParam
    let env ← NvdsM.get
    match env.nsList.find? fun ns => decide (ns.name = name) with
    | some ns => pure ns.index
    | none => if create then namespaceCreate rom name else NvdsM.throw .notFound

/-! ### The entry points -/

/-- `nvds_data_put`, the mutex being taken. -/
def nvdsDataPut (name : Option CString) (key : Option CString) (data : Option (List UInt8)) :
    NvdsM Unit :=
  match key, data with
  | some key, some data => do
    NvdsM.check (decide (0 < data.length ∧ data.length ≤ elementBulkMaxSize ∧
      key.len ≤ keyNameMaxSize - 1)) .invalParam
    let idx ← nsIndexByNamespace rom name true
    dataElementPut rom idx key data
    NvdsM.modify (nsAddUsedCnt idx)
  | _, _ => NvdsM.throw .invalParam

/-- `nvds_data_get`, the mutex being taken: `buf` is the size of the caller's buffer, `none`
for a null one. -/
def nvdsDataGet (name : Option CString) (key : Option CString) (buf : Option ℕ) :
    NvdsM GetOut :=
  match key with
  | some key => do
    NvdsM.check (decide (key.len ≤ keyNameMaxSize - 1)) .invalParam
    let idx ← nsIndexByNamespace rom name false
    NvdsM.search fun env => (dataElementGet rom env idx key buf).map .ok
  | none => NvdsM.throw .invalParam

/-- `nvds_data_find`, the mutex being taken. -/
def nvdsDataFind (name : Option CString) (key : Option CString) : NvdsM Unit :=
  match key with
  | some key => do
    NvdsM.check (decide (key.len ≤ keyNameMaxSize - 1)) .invalParam
    let idx ← nsIndexByNamespace rom name false
    NvdsM.search fun env => dataElementFind rom env idx key
  | none => NvdsM.throw .invalParam

/-- `nvds_data_del`, the mutex being taken. -/
def nvdsDataDel (name : Option CString) (key : Option CString) : NvdsM Unit :=
  match key with
  | some key => do
    NvdsM.check (decide (key.len ≤ keyNameMaxSize - 1)) .invalParam
    let idx ← nsIndexByNamespace rom name false
    dataElementDel rom idx key
    let _ ← NvdsM.attempt (nsDelUsedCnt rom idx)
    pure ()
  | none => NvdsM.throw .invalParam

end Put

end Gd32.Nvds
