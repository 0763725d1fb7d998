import Gd32Firmware.Nvds.States
import Gd32Firmware.Plf.RawFlash

/-!
# The environment of a partition

`nvds_flash.c`, the bottom of it: the environment a partition is run from, the checked access
to the flash, and reading and writing entries, entry states and page states.

A page is known by the number of its sector. The lists of used and free pages are lists of
sector numbers, and `FlashEnv.pages` holds the record of every page. The storage is
built without `NVDS_FLASH_ENCRYPTED_SUPPORT`, so entries are stored as they are.
-/

namespace Gd32.Nvds

open NorFlash LittleEndian

variable {env env' : FlashEnv}

/-! ### Data -/

/-- The ROM, with its reads: the return code of a read, given the calls issued before it. -/
structure NvdsRom extends Rom where
  /-- The return code of `rom_flash_read`; `0` is success. -/
  readRc : List Prim → ℕ → ℕ → ℤ

/-- No call ever fails. -/
structure NvdsRom.Reliable (rom : NvdsRom) : Prop where
  calls : rom.toRom.Reliable
  reads : ∀ ps a n, rom.readRc ps a n = 0

/-- `struct namespace_info`. -/
structure NamespaceInfo where
  name : CString
  index : ℕ
  /-- `used_cnt`, a `uint32_t`. -/
  usedCnt : ℕ
  deriving DecidableEq

/-- `struct page_env_tag`, the fields that are used. -/
structure PageEnv where
  header : PageHeader
  entryStates : StateTable
  /-- `base_addr`, from the start of the partition. -/
  baseAddr : ℕ
  /-- `entry_cnt_used`, a `uint16_t`. -/
  entryCntUsed : ℕ
  nextFreeIdx : ℕ

/-- `struct nvds_flash_env_tag`, with the device it works on. -/
structure FlashEnv where
  baseAddr : ℕ
  length : ℕ
  nsList : List NamespaceInfo
  /-- `ns_states`, one bit for each index. -/
  nsStates : ℕ → Bool
  pageFree : List ℕ
  pageUsed : List ℕ
  pages : ℕ → PageEnv
  dev : Dev

/-- The content of the flash. -/
def FlashEnv.flash (env : FlashEnv) : Flash := env.dev.flash

/-- The environment with one page record changed. -/
def FlashEnv.setPage (env : FlashEnv) (k : ℕ) (p : PageEnv) : FlashEnv :=
  { env with pages := Function.update env.pages k p }

/-- A computation on an environment: it returns a value or an error code and leaves an
environment, whatever it returns. `none` is a call that never returns or dereferences the null
pointer. -/
def NvdsM (α : Type) : Type := FlashEnv → Option (Except NvdsErr α × FlashEnv)

namespace NvdsM

variable {α β : Type}

/-- Return a value. -/
def ret (a : α) : NvdsM α := fun env => some (.ok a, env)

/-- One computation after the other; an error code ends the whole. -/
def andThen (x : NvdsM α) (f : α → NvdsM β) : NvdsM β := fun env =>
  match x env with
  | none => none
  | some (.error e, env') => some (.error e, env')
  | some (.ok a, env') => f a env'

instance : Monad NvdsM where
  pure := ret
  bind := andThen

/-- Return an error code. -/
def throw (e : NvdsErr) : NvdsM α := fun env => some (.error e, env)

/-- `NVDS_ERR_RET`. -/
def check (c : Bool) (e : NvdsErr) : NvdsM Unit := if c then pure () else throw e

/-- The environment. -/
def get : NvdsM FlashEnv := fun env => some (.ok env, env)

/-- Change the environment. -/
def modify (f : FlashEnv → FlashEnv) : NvdsM Unit := fun env => some (.ok (), f env)

/-- A computation that only looks at the environment. -/
def look (f : FlashEnv → Except NvdsErr α) : NvdsM α := fun env => some (f env, env)

/-- A computation that only looks at the environment and may not return. -/
def search (f : FlashEnv → Option (Except NvdsErr α)) : NvdsM α := fun env =>
  (f env).map fun r => (r, env)

/-- The return code of a computation, as a value. -/
def attempt (x : NvdsM α) : NvdsM (Except NvdsErr α) := fun env =>
  (x env).map fun r => (.ok r.1, r.2)

/-- A computation for each element of a list. -/
def forEach (f : ℕ → NvdsM Unit) : List ℕ → NvdsM Unit
  | [] => pure ()
  | x :: xs => do
    f x
    forEach f xs

/-! Running the pieces. -/

theorem pure_run (a : α) (env : FlashEnv) : (pure a : NvdsM α) env = some (.ok a, env) := rfl

theorem bind_ok {x : NvdsM α} {f : α → NvdsM β} {a : α}
    (h : x env = some (.ok a, env')) : (x >>= f) env = f a env' := by
  change andThen x f env = _
  rw [andThen, h]

theorem bind_error {x : NvdsM α} {f : α → NvdsM β} {e : NvdsErr}
    (h : x env = some (.error e, env')) : (x >>= f) env = some (.error e, env') := by
  change andThen x f env = _
  rw [andThen, h]

theorem check_bind {c : Bool} (hc : c = true) (e : NvdsErr) (f : Unit → NvdsM β) :
    (check c e >>= f) = f () := by
  subst hc
  rfl

theorem check_bind_false {c : Bool} (hc : c = false) (e : NvdsErr) (f : Unit → NvdsM β)
    (env : FlashEnv) : (check c e >>= f) env = some (.error e, env) := by
  subst hc
  rfl

theorem get_bind (f : FlashEnv → NvdsM β) (env : FlashEnv) : (get >>= f) env = f env env := rfl

theorem modify_bind (g : FlashEnv → FlashEnv) (f : Unit → NvdsM β) (env : FlashEnv) :
    (modify g >>= f) env = f () (g env) := rfl

theorem look_ok {f : FlashEnv → Except NvdsErr α} {a : α} (h : f env = .ok a) :
    look f env = some (.ok a, env) := by rw [look, h]

theorem search_eq {f : FlashEnv → Option (Except NvdsErr α)}
    {r : Except NvdsErr α} (h : f env = some r) : search f env = some (r, env) := by
  rw [search, h]
  rfl

theorem attempt_eq {x : NvdsM α} {r : Except NvdsErr α}
    (h : x env = some (r, env')) : attempt x env = some (.ok r, env') := by
  rw [attempt, h]
  rfl

end NvdsM

/-! ### Flash access -/

section Access

variable (rom : NvdsRom)

def nvdsFlashRead (env : FlashEnv) (offset len : ℕ) : Except NvdsErr (List UInt8) :=
  if env.length < offset + len then .error .invalParam
  else if rom.readRc env.dev.log (env.baseAddr + offset) len ≠ 0 then .error .flashIoFail
  else .ok (read env.flash (env.baseAddr + offset) len)

def nvdsFlashWrite (offset : ℕ) (data : List UInt8) : NvdsM Unit := fun env =>
  if env.length < offset + data.length then some (.error .invalParam, env)
  else
    let w := rom.issue (.program (env.baseAddr + offset) data) env.dev
    some (if w.1 ≠ 0 then .error .flashIoFail else .ok (), { env with dev := w.2 })

def nvdsFlashErase (offset size : ℕ) : NvdsM Unit := fun env =>
  if env.length < offset + size then some (.error .invalParam, env)
  else
    let w := rawFlashErase rom.toRom (env.baseAddr + offset) size env.dev
    some (if w.1 ≠ 0 then .error .flashIoFail else .ok (), { env with dev := w.2 })

/-! ### Entries -/

def entryStatesTableRead (env : FlashEnv) (pageAddr : ℕ) : Except NvdsErr StateTable :=
  (nvdsFlashRead rom env (pageAddr + pageEntryStatesOffset) entrySize).map tableWords

def entryStatesTableWrite (pageAddr : ℕ) (states : StateTable) : NvdsM Unit :=
  nvdsFlashWrite rom (pageAddr + pageEntryStatesOffset) (tableBytes states)

/-- `entry_state_alter`: in memory, and then in flash. -/
def entryStateAlter (k idx : ℕ) (state : EntryState) : NvdsM Unit := do
  let env ← NvdsM.get
  let states ← NvdsM.look fun _ => entryStateSet (env.pages k).entryStates idx state
  NvdsM.modify fun env => env.setPage k { env.pages k with entryStates := states }
  entryStatesTableWrite rom (env.pages k).baseAddr states

/-- `entry_state_range_alter`, both ends being included and of type `uint8_t`. -/
def entryStateRangeAlter (k first last : ℕ) (state : EntryState) : NvdsM Unit := do
  NvdsM.check (decide (first ≤ last ∧ last < entryCountPerPage)) .fail
  NvdsM.forEach (fun idx => entryStateAlter rom k idx state)
    (List.range' first (last + 1 - first))

/-- `page_state_alter`: in flash, and then in memory. -/
def pageStateAlter (k state : ℕ) : NvdsM Unit := do
  let env ← NvdsM.get
  nvdsFlashWrite rom ((env.pages k).baseAddr + 6) (bytes 2 state)
  NvdsM.modify fun env =>
    env.setPage k { env.pages k with header := { (env.pages k).header with state := state } }

def entryRead (env : FlashEnv) (k idx : ℕ) : Except NvdsErr Entry :=
  nvdsFlashRead rom env ((env.pages k).baseAddr + pageEntryOffset + idx * entrySize) entrySize

/-- `page->entry_cnt_used += n`. -/
def addUsed (p : PageEnv) (n : ℕ) : PageEnv :=
  { p with entryCntUsed := (p.entryCntUsed + n) % 2 ^ 16 }

/-- `page->entry_cnt_used -= n`. -/
def subUsed (p : PageEnv) (n : ℕ) : PageEnv :=
  { p with entryCntUsed := (p.entryCntUsed + 2 ^ 16 - n % 2 ^ 16) % 2 ^ 16 }

/-- `entry_write`: the entry goes to the next free slot of the page. -/
def entryWrite (k : ℕ) (entry : Entry) : NvdsM Unit := do
  let env ← NvdsM.get
  NvdsM.check (decide ((env.pages k).nextFreeIdx < entryCountPerPage)) .fail
  nvdsFlashWrite rom ((env.pages k).baseAddr + pageEntryOffset +
    (env.pages k).nextFreeIdx * entrySize) entry
  NvdsM.modify fun env =>
    env.setPage k (addUsed { env.pages k with nextFreeIdx := (env.pages k).nextFreeIdx + 1 } 1)

/-- `entry_data_write`, for a partition that is not encrypted. -/
def entryDataWrite (address : ℕ) (data : List UInt8) : NvdsM Unit :=
  nvdsFlashWrite rom address data

/-- `page_room_get`, in bytes. -/
def pageRoomGet (p : PageEnv) : ℕ := (entryCountPerPage - p.nextFreeIdx) * entrySize

def pageClear (p : PageEnv) : PageEnv :=
  { p with
    header := .blank
    entryStates := blankTable
    entryCntUsed := 0
    nextFreeIdx := 0 }

end Access

end Gd32.Nvds
