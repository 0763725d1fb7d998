import Gd32Firmware.Nvds.Registry
import Gd32Firmware.Nvds.Images
import Gd32Firmware.Nvds.FailedPut

/-!
# The mutex of all partitions

One mutex guards the calls on every partition. `nvds_flash_init` creates it if it is not there, and
frees it on its error exit, which is taken when there is no memory for the environment and whenever
`pages_load` fails: the size is not a whole number of sectors, or there is no memory for a page or a
namespace record. The partitions in use are left without a mutex then, and no call on them goes
through any more, so a failing `nvds_flash_init` goes unnoticed exactly if the overlap check refuses
it, or there was no mutex or no partition before (`Nvds.failed_init_harmless_iff`).

The first half of the module is `pages_load` with the memory it needs.
-/

namespace Gd32

open Option

variable {mem k : ℕ} {isErr : Bool}

namespace Nvds

open NorFlash LittleEndian

/-! ### Loading within a memory

`mem` is the number of allocations that succeed before one fails; the first one that fails ends
`pages_load`.
-/

section Load

variable (rom : NvdsRom)

/-- `sys_malloc` in `pages_load`: the allocations that are left. -/
def sysMalloc : ℕ → NvdsM ℕ
  | 0 => NvdsM.throw .noSpace
  | mem + 1 => pure mem

/-- The allocation of a namespace record, for a namespace definition. -/
def nsInfoAlloc (entry : Entry) (mem : ℕ) : NvdsM ℕ :=
  if Entry.ns entry = 0 then sysMalloc mem else pure mem

/-- `Nvds.loadEntry` with the allocation of the namespace record. -/
def loadEntryMem (k idx : ℕ) (entry : Entry) (mem : ℕ) : NvdsM (ℕ × ℕ) := do
  let _ ← NvdsM.attempt
    (if Entry.crc entry ≠ elementHeaderCrc32Calc entry then entryStateAlter rom k idx .updated
      else pure ())
  let mem ← nsInfoAlloc entry mem
  NvdsM.modify fun env =>
    if Entry.ns entry = 0 then
      let index := ((Entry.val entry).getD 0 0).toNat
      nsStateSet index true
        { env with nsList := env.nsList ++
            [⟨.ofField (Entry.field entry 8 keyNameMaxSize), index, 0⟩] }
    else env
  NvdsM.modify fun env => env.setPage k (addUsed (env.pages k) (1 + Entry.dataCnt entry))
  pure (Entry.dataCnt entry, mem)

/-- The first walk over a page: whether an entry could not be read, and the allocations left. -/
def loadWalkMem (k : ℕ) : ℕ → ℕ → ℕ → NvdsM (Bool × ℕ)
  | 0, _, mem => pure (false, mem)
  | n + 1, idx, mem =>
    if entryCountPerPage ≤ idx then pure (false, mem)
    else do
      let env ← NvdsM.get
      match stateAt (env.pages k).entryStates idx with
      | .free => do
        NvdsM.modify fun env => env.setPage k { env.pages k with nextFreeIdx := idx }
        pure (false, mem)
      | .illegal => do
        let _ ← NvdsM.attempt (entryStateAlter rom k idx .updated)
        loadWalkMem k n (idx + 1) mem
      | .updated => loadWalkMem k n (idx + 1) mem
      | .used => do
        let entry ← NvdsM.attempt (NvdsM.look fun env => entryRead rom env k idx)
        match entry with
        | .error _ => pure (true, mem)
        | .ok entry => do
          let r ← loadEntryMem rom k idx entry mem
          loadWalkMem k n (idx + 1 + r.1) r.2

/-- The entries of a page with a sound header: the flag and the allocations left. -/
def loadUsedMem (k : ℕ) (states : StateTable) (isErr : Bool) (mem : ℕ) : NvdsM (Bool × ℕ) := do
  NvdsM.modify fun env => env.setPage k { env.pages k with
    entryStates := states
    nextFreeIdx := entryCountPerPage
    entryCntUsed := 0 }
  let r ← loadWalkMem rom k entryCountPerPage 0 mem
  if isErr || r.1 then do
    pushFree k
    pure (true, r.2)
  else do
    NvdsM.modify fun env =>
      { env with pageUsed := listInsert (cmpSequenceNo env.pages) k env.pageUsed }
    pure (false, r.2)

/-- One round of the loop over the sectors, with the allocation of the page record. -/
def loadSectorMem (k : ℕ) (isErr : Bool) (mem : ℕ) : NvdsM (Bool × ℕ) := do
  let mem ← sysMalloc mem
  NvdsM.modify fun env =>
    env.setPage k (freshPage k (pageHeaderRead rom env (k * spiFlashSecSize)))
  let env ← NvdsM.get
  if headerUnsound (env.pages k).header then do
    pushFree k
    pure (isErr, mem)
  else
    match entryStatesTableRead rom env (k * spiFlashSecSize) with
    | .error _ => do
      pushFree k
      pure (isErr, mem)
    | .ok states => loadUsedMem rom k states isErr mem

/-- The loop over the sectors. -/
def loadSectorsMem : List ℕ → Bool → ℕ → NvdsM (Bool × ℕ)
  | [], isErr, mem => pure (isErr, mem)
  | k :: ks, isErr, mem => do
    let r ← loadSectorMem rom k isErr mem
    loadSectorsMem ks r.1 r.2

/-- `pages_load` within a memory. -/
def pagesLoadMem (mem : ℕ) : NvdsM Unit := do
  let env ← NvdsM.get
  NvdsM.check (decide (env.length % spiFlashSecSize = 0)) .invalParam
  let _ ← loadSectorsMem rom (List.range (env.length / spiFlashSecSize)) false mem
  NvdsM.modify fun env => { env with nsList := countAll rom env }
  let env ← NvdsM.get
  if env.pageUsed = [] then do
    let _ ← newPageRequest rom 0
    pure ()
  else pure ()

end Load

/-! ### If the memory is enough, it does not matter -/

section Enough

variable {rom : NvdsRom} {env env' : FlashEnv}

theorem sysMalloc_run {left : ℕ} (h : sysMalloc mem env = some (.ok left, env')) :
    env' = env := by
  rcases mem with _ | mem
  · cases h
  · exact (Prod.mk.inj (Option.some.inj h)).2.symm

theorem loadEntryMem_ok {idx : ℕ} {entry : Entry} {r : ℕ × ℕ}
    (h : loadEntryMem rom k idx entry mem env = some (.ok r, env')) :
    loadEntry rom k idx entry env = some (.ok r.1, env') := by
  obtain ⟨_, env1, h1, hrest⟩ := NvdsM.run_of_bind h
  obtain ⟨left, env2, h2, hrun⟩ := NvdsM.run_of_bind hrest
  have henv : env2 = env1 := by
    rw [nsInfoAlloc] at h2
    split at h2
    · exact sysMalloc_run h2
    · exact (Prod.mk.inj (Option.some.inj h2)).2.symm
  rw [henv, NvdsM.modify_bind, NvdsM.modify_bind, NvdsM.pure_run] at hrun
  obtain ⟨hr, rfl⟩ := Prod.mk.inj (Option.some.inj hrun)
  rw [loadEntry, NvdsM.bind_ok h1, NvdsM.modify_bind, NvdsM.modify_bind, NvdsM.pure_run,
    ← Except.ok.inj hr]

theorem loadWalkMem_ok {n idx : ℕ} {r : Bool × ℕ}
    (h : loadWalkMem rom k n idx mem env = some (.ok r, env')) :
    ∃ s, loadWalk rom k n idx env = some (s, env') ∧ s.isOk = !r.1 := by
  induction n generalizing env idx mem with
  | zero =>
    obtain ⟨hr, rfl⟩ := Prod.mk.inj (Option.some.inj h)
    exact ⟨.ok (), rfl, by rw [← Except.ok.inj hr]; rfl⟩
  | succ n ih =>
    rw [loadWalkMem] at h
    rw [loadWalk]
    split at h
    next hidx =>
      obtain ⟨hr, rfl⟩ := Prod.mk.inj (Option.some.inj h)
      exact ⟨.ok (), by rw [if_pos hidx]; rfl, by rw [← Except.ok.inj hr]; rfl⟩
    next hidx =>
    rw [if_neg hidx, NvdsM.get_bind]
    rw [NvdsM.get_bind] at h
    cases hs : stateAt (env.pages k).entryStates idx with
    | free =>
      rw [hs] at h
      obtain ⟨hr, rfl⟩ := Prod.mk.inj (Option.some.inj h)
      exact ⟨.ok (), rfl, by rw [← Except.ok.inj hr]; rfl⟩
    | updated =>
      rw [hs] at h
      exact ih h
    | illegal =>
      rw [hs] at h
      obtain ⟨_, env1, h1, hrun⟩ := NvdsM.run_of_bind h
      simp only
      rw [NvdsM.bind_ok h1]
      exact ih hrun
    | used =>
      rw [hs] at h
      obtain ⟨entry, env1, h1, hrun⟩ := NvdsM.run_of_bind h
      have hlook := NvdsM.attempt_run h1
      simp only
      rcases entry with e | entry
      · obtain ⟨hr, rfl⟩ := Prod.mk.inj (Option.some.inj hrun)
        exact ⟨.error e, by rw [NvdsM.bind_error hlook], by rw [← Except.ok.inj hr]; rfl⟩
      · obtain ⟨r1, env2, h2, hrun⟩ := NvdsM.run_of_bind hrun
        rw [NvdsM.bind_ok hlook, NvdsM.bind_ok (loadEntryMem_ok h2)]
        exact ih hrun

theorem loadUsedMem_ok {states : StateTable} {r : Bool × ℕ}
    (h : loadUsedMem rom k states isErr mem env = some (.ok r, env')) :
    loadUsed rom k states isErr env = some (.ok r.1, env') := by
  rw [loadUsedMem, NvdsM.modify_bind] at h
  obtain ⟨r1, env1, h1, hrun⟩ := NvdsM.run_of_bind h
  obtain ⟨s, hwalk, hs⟩ := loadWalkMem_ok h1
  rw [loadUsed, NvdsM.modify_bind, NvdsM.bind_ok (NvdsM.attempt_eq hwalk), hs, Bool.not_not]
  split at hrun
  next hbad =>
    obtain ⟨hr, rfl⟩ := Prod.mk.inj (Option.some.inj hrun)
    rw [if_pos hbad, ← Except.ok.inj hr]
    rfl
  next hgood =>
    obtain ⟨hr, rfl⟩ := Prod.mk.inj (Option.some.inj hrun)
    rw [if_neg hgood, ← Except.ok.inj hr]
    rfl

theorem loadSectorMem_ok {r : Bool × ℕ}
    (h : loadSectorMem rom k isErr mem env = some (.ok r, env')) :
    loadSector rom k isErr env = some (.ok r.1, env') := by
  obtain ⟨left, env1, h1, hrun⟩ := NvdsM.run_of_bind h
  rw [sysMalloc_run h1, NvdsM.modify_bind, NvdsM.get_bind] at hrun
  rw [loadSector, NvdsM.modify_bind, NvdsM.get_bind]
  split at hrun
  next hbad =>
    obtain ⟨hr, rfl⟩ := Prod.mk.inj (Option.some.inj hrun)
    rw [if_pos hbad, ← Except.ok.inj hr]
    rfl
  next hgood =>
    rw [if_neg hgood]
    rcases hread : entryStatesTableRead rom (env.setPage k (freshPage k
        (pageHeaderRead rom env (k * spiFlashSecSize)))) (k * spiFlashSecSize) with e | states <;>
      rw [hread] at hrun
    · obtain ⟨hr, rfl⟩ := Prod.mk.inj (Option.some.inj hrun)
      rw [← Except.ok.inj hr]
      rfl
    · exact loadUsedMem_ok hrun

theorem loadSectorsMem_ok {ks : List ℕ} {r : Bool × ℕ}
    (h : loadSectorsMem rom ks isErr mem env = some (.ok r, env')) :
    loadSectors rom ks isErr env = some (.ok r.1, env') := by
  induction ks generalizing env isErr mem with
  | nil =>
    obtain ⟨hr, rfl⟩ := Prod.mk.inj (Option.some.inj h)
    rw [← Except.ok.inj hr]
    rfl
  | cons k ks ih =>
    obtain ⟨r1, env1, h1, hrun⟩ := NvdsM.run_of_bind h
    rw [loadSectors, NvdsM.bind_ok (loadSectorMem_ok h1)]
    exact ih hrun

/-- **A load for which the memory is enough** is the load. -/
theorem pagesLoadMem_ok (h : pagesLoadMem rom mem env = some (.ok (), env')) :
    pagesLoad rom env = some (.ok (), env') := by
  rw [pagesLoadMem, NvdsM.get_bind] at h
  obtain ⟨_, env1, h1, hrun⟩ := NvdsM.run_of_bind h
  obtain ⟨r, env2, h2, hrun⟩ := NvdsM.run_of_bind hrun
  rw [pagesLoad, NvdsM.get_bind, NvdsM.bind_ok h1, NvdsM.bind_ok (loadSectorsMem_ok h2)]
  exact hrun

end Enough

theorem pagesLoadMem_ok_erased : ∃ env',
    pagesLoad steadyRom (freshEnv nvdsFlashInternalAddr spiFlashSecSize erasedDev) =
      some (.ok (), env') := by
  have hload : (pagesLoadMem steadyRom 1
      (freshEnv nvdsFlashInternalAddr spiFlashSecSize erasedDev)).map (fun r => r.1.isOk) =
        some true := by
    decide +kernel
  obtain ⟨⟨_ | _, env'⟩, h, hok⟩ := Option.map_eq_some_iff.mp hload
  · cases hok
  · exact ⟨env', pagesLoadMem_ok h⟩

/-! ### The storage with its mutex -/

/-- What all partitions share: the mutex, the registry and the device, and the environments of the
partitions. The device is the one here, whatever an environment says. -/
structure Storage where
  /-- `nvds_mutex` is not null. -/
  mutex : Bool
  /-- `nvds_flash_list`, with the partitions in use. -/
  registered : Registered
  parts : Ptr → FlashEnv
  dev : Dev

/-- What `sys_mutex_get` does without a mutex. -/
inductive NoMutex
  | fails
  | hangs

/-- The check of the parameters in front of every call, before the mutex is taken. -/
def Call.paramsOk : Call → Bool
  | .put _ key v => decide (0 < v.length ∧ v.length ≤ elementBulkMaxSize ∧
      key.len ≤ keyNameMaxSize - 1)
  | .get _ key _ => decide (key.len ≤ keyNameMaxSize - 1)
  | .find _ key => decide (key.len ≤ keyNameMaxSize - 1)
  | .del _ key => decide (key.len ≤ keyNameMaxSize - 1)

/-- A call that returns an error code and does nothing else. -/
def Call.refused (e : NvdsErr) : Call → Ret
  | .get _ _ _ => .out ⟨.error e, none, []⟩
  | _ => .code (.error e)

/-- A call with a handle: what it returns, and the storage after it. -/
def Storage.call (rom : NvdsRom) (lost : NoMutex) (st : Storage) (p : Ptr) (c : Call) :
    Option (Ret × Storage) :=
  if !c.paramsOk then some (c.refused .invalParam, st)
  else if !st.mutex then
    match lost with
    | .fails => some (c.refused .fail, st)
    | .hangs => none
  else
    (c.run rom { st.parts p with dev := st.dev }).map fun r =>
      (r.1, { st with parts := Function.update st.parts p r.2, dev := r.2.dev })

/-- Calls, one after the other: what they return; `none` if one of them does not come back. -/
def Storage.answers (rom : NvdsRom) (lost : NoMutex) :
    List (Ptr × Call) → Storage → Option (List Ret)
  | [], _ => some []
  | (p, c) :: cs, st =>
    (st.call rom lost p c).bind fun r => (answers rom lost cs r.2).map (r.1 :: ·)

/-- `nvds_flash_init`. `mutexOk` is whether a mutex can be created, `block` the answer of the
allocator for the environment and `mem` the number of further allocations that succeed; the result
is the handle, `none` for the null pointer. -/
def Storage.flashInit (rom : NvdsRom) (start size : ℕ) (label : List UInt8) (mutexOk : Bool)
    (block : Option Ptr) (mem : ℕ) (st : Storage) : Option (Option Ptr × Storage) :=
  (flashEnvCheck st.registered.reg start size).bind fun apart =>
    if !apart then some (none, st)
    else if !(st.mutex || mutexOk) then some (none, st)
    else
      match block with
      | none => some (none, { st with mutex := false })
      | some p =>
        (pagesLoadMem rom mem (freshEnv start size st.dev)).bind fun r =>
          (registryStep st.registered (.init start size label true (some p) r.1.isOk)).map
            fun reg =>
              (if r.1.isOk then some p else none,
                { mutex := r.1.isOk
                  registered := reg
                  parts := if r.1.isOk then Function.update st.parts p r.2 else st.parts
                  dev := r.2.dev })

/-- Every series of calls on the partitions `live` is answered in the same way. -/
def Storage.SameAnswers (rom : NvdsRom) (lost : NoMutex) (live : List Ptr) (st st' : Storage) :
    Prop :=
  ∀ cs : List (Ptr × Call), (∀ c ∈ cs, c.1 ∈ live) →
    st.answers rom lost cs = st'.answers rom lost cs

/-! ### A failing initialisation -/

section Fail

variable {rom : NvdsRom} {lost : NoMutex} {st st' : Storage}

/-- Without a mutex, the storage does not matter. -/
theorem answers_of_no_mutex (h : st.mutex = false) (h' : st'.mutex = false)
    (cs : List (Ptr × Call)) : st.answers rom lost cs = st'.answers rom lost cs := by
  induction cs with
  | nil => rfl
  | cons c cs ih =>
    obtain ⟨p, c⟩ := c
    simp only [Storage.answers, Storage.call, h, h']
    cases hok : c.paramsOk
    · simp [ih]
    · cases lost
      · simp [ih]
      · rfl

/-- A namespace name of 16 bytes, which every call refuses after it has taken the mutex. -/
def longName : CString := ⟨List.replicate 16 0x41, by decide⟩

/-- **A call tells whether there is a mutex.** -/
theorem answers_longName_ne (h : st.mutex = true) (h' : st'.mutex = false) (p : Ptr) :
    st.answers rom lost [(p, .find (some longName) keyA)] ≠
      st'.answers rom lost [(p, .find (some longName) keyA)] := by
  have hok : (Call.find (some longName) keyA).paramsOk = true := by decide
  have hrun : (Call.find (some longName) keyA).run rom { st.parts p with dev := st.dev } =
      some (.code (.error .invalParam), { st.parts p with dev := st.dev }) := rfl
  simp only [Storage.answers, Storage.call, hok, h, h', hrun]
  cases lost with
  | fails =>
    rintro heq
    simp [Call.refused] at heq
  | hangs =>
    rintro heq
    simp at heq

/-- What a failing `nvds_flash_init` leaves: the storage as it was, if the range is refused or no
mutex can be created, and no mutex otherwise. -/
theorem Storage.flashInit_none {start size : ℕ} {label : List UInt8} {mutexOk : Bool}
    {block : Option Ptr}
    (h : st.flashInit rom start size label mutexOk block mem = some (none, st')) :
    flashEnvCheck st.registered.reg start size = some false ∧ st' = st ∨
      st.mutex = false ∧ st' = st ∨
      flashEnvCheck st.registered.reg start size = some true ∧ st'.mutex = false := by
  obtain ⟨apart, hcheck, hrun⟩ := bind_eq_some_iff.mp h
  cases apart with
  | false =>
    obtain ⟨-, rfl⟩ := Prod.mk.inj (Option.some.inj hrun)
    exact Or.inl ⟨hcheck, rfl⟩
  | true =>
    simp only [Bool.not_true, Bool.false_eq_true, if_false] at hrun
    split at hrun
    next hno =>
      obtain ⟨-, rfl⟩ := Prod.mk.inj (Option.some.inj hrun)
      refine Or.inr (Or.inl ⟨?_, rfl⟩)
      cases hm : st.mutex
      · rfl
      · rw [hm] at hno
        simp at hno
    next hyes =>
    refine Or.inr (Or.inr ⟨hcheck, ?_⟩)
    rcases block with _ | p
    · obtain ⟨-, rfl⟩ := Prod.mk.inj (Option.some.inj hrun)
      rfl
    · obtain ⟨r, hload, hreg⟩ := bind_eq_some_iff.mp hrun
      obtain ⟨reg, -, hres⟩ := map_eq_some_iff.mp hreg
      obtain ⟨hnone, rfl⟩ := Prod.mk.inj hres
      cases hok : r.1.isOk
      · rfl
      · rw [hok] at hnone
        simp at hnone

/-- **When a failing `nvds_flash_init` goes unnoticed**: exactly if there is no partition in use or
no mutex, or the overlap check refuses the range. -/
theorem failed_init_harmless_iff {start size : ℕ} {label : List UInt8} {mutexOk : Bool}
    {block : Option Ptr} {mem : ℕ}
    (h : st.flashInit rom start size label mutexOk block mem = some (none, st')) :
    Storage.SameAnswers rom lost st.registered.live st st' ↔
      st.registered.live = [] ∨ st.mutex = false ∨
        flashEnvCheck st.registered.reg start size = some false := by
  constructor
  · intro hsame
    by_contra hno
    obtain ⟨hlive, hno⟩ := not_or.mp hno
    obtain ⟨hmutex, hcheck⟩ := not_or.mp hno
    obtain ⟨p, hp⟩ := List.exists_mem_of_ne_nil _ hlive
    rcases Storage.flashInit_none h with ⟨hc, -⟩ | ⟨hm, -⟩ | ⟨-, hm'⟩
    · exact hcheck hc
    · exact hmutex hm
    · refine answers_longName_ne (Bool.eq_true_of_not_eq_false hmutex) hm' p (hsame _ ?_)
      rintro c hc
      rw [List.mem_singleton.mp hc]
      exact hp
  · rintro hor cs hcs
    rcases Storage.flashInit_none h with ⟨-, rfl⟩ | ⟨-, rfl⟩ | ⟨hc, hm'⟩
    · rfl
    · rfl
    · rcases hor with hlive | hm | hc'
      · rcases cs with _ | ⟨c, cs⟩
        · rfl
        · have hmem := hcs c List.mem_cons_self
          rw [hlive] at hmem
          exact absurd hmem List.not_mem_nil
      · exact answers_of_no_mutex hm hm' cs
      · rw [hc] at hc'
        cases hc'

end Fail

/-- The storage with the internal partition alone, from what loading it gives. -/
def internalStorage (s : Registered) (env₀ : FlashEnv) : Storage :=
  ⟨true, s, fun _ => env₀, env₀.dev⟩

theorem Storage.flashInit_refused {rom : NvdsRom} {st : Storage} {start size : ℕ}
    (h : flashEnvCheck st.registered.reg start size = some false) (label : List UInt8)
    (mutexOk : Bool) (block : Option Ptr) (mem : ℕ) :
    st.flashInit rom start size label mutexOk block mem = some (none, st) := by
  simp only [Storage.flashInit, h, Option.bind_some, Bool.not_false, if_true]

/-- A size that is not a whole number of sectors. -/
theorem Storage.flashInit_size {rom : NvdsRom} {st : Storage} {start size : ℕ} {label : List UInt8}
    {mutexOk : Bool} {p : Ptr} {reg : Registered} (hm : st.mutex = true)
    (h : flashEnvCheck st.registered.reg start size = some true)
    (hsize : size % spiFlashSecSize ≠ 0)
    (hreg : registryStep st.registered (.init start size label true (some p) false) = some reg) :
    st.flashInit rom start size label mutexOk (some p) mem =
      some (none, { st with mutex := false, registered := reg }) := by
  have hload : pagesLoadMem rom mem (freshEnv start size st.dev) =
      some (.error .invalParam, freshEnv start size st.dev) := by
    exact NvdsM.check_bind_false (decide_eq_false hsize) _ _ _
  simp only [Storage.flashInit, h, hm, Option.bind_some, Bool.not_true, Bool.false_eq_true,
    if_false, Bool.true_or, hload, Except.isOk, Except.toBool, hreg, Option.map_some]
  rfl

/-- The registry with the internal partition alone. -/
theorem exists_internal : ∃ s, registryStart true = some s ∧ s.live = [internalPtr] ∧
    flashEnvCheck s.reg nvdsFlashInternalAddr 0x1000 = some false ∧
    flashEnvCheck s.reg 0x300000 100 = some true ∧
    ∃ reg, registryStep s (.init 0x300000 100 userLabel true (some 1) false) = some reg := by
  have hexact := exact_registryStart (show registryStart true = some _ from rfl)
  refine ⟨_, rfl, rfl, by decide, by decide, ?_⟩
  obtain ⟨reg, hreg, -⟩ := @Registered.Exact.init _ hexact 0x300000 100 userLabel true (some 1)
    false (by decide)
  exact ⟨reg, hreg⟩

/-- A range that overlaps the internal partition is refused, and nobody notices. -/
theorem failed_init_harmless_overlap : ∃ s env₀ st', registryStart true = some s ∧
    nvdsFlashEnvInit steadyRom nvdsFlashInternalAddr nvdsFlashInternalSize erasedDev =
      some (.ok (), env₀) ∧
    (internalStorage s env₀).flashInit steadyRom nvdsFlashInternalAddr 0x1000 userLabel true
      (some 1) 10 = some (none, st') ∧
    Storage.SameAnswers steadyRom .fails s.live (internalStorage s env₀) st' := by
  obtain ⟨env₀, hinit, -⟩ := @init_erased steadyRom steadyRom_reliable 4 nvdsFlashInternalAddr
    erasedDev (by decide) (by decide) fun _ _ _ => rfl
  obtain ⟨s, hs, -, hcheck, -⟩ := exists_internal
  have hfail := @Storage.flashInit_refused steadyRom (internalStorage s env₀) nvdsFlashInternalAddr
    0x1000 hcheck userLabel true (some 1) 10
  exact ⟨s, env₀, _, hs, hinit, hfail,
    (failed_init_harmless_iff hfail).mpr (Or.inr (Or.inr hcheck))⟩

theorem find_internal :
    (match nvdsFlashEnvInit steadyRom nvdsFlashInternalAddr nvdsFlashInternalSize erasedDev with
      | some (.ok (), env) => (nvdsDataFind steadyRom none (some keyA) env).map Prod.fst
      | _ => none) = some (.error .notFound) := by
  decide +kernel

/-- **A size that is not a whole number of sectors.** `nvds_flash_init` returns the null pointer,
and a key of the internal partition, which was not found before, cannot be looked for any more. -/
theorem not_failed_init_harmless : ∃ s env₀ st', registryStart true = some s ∧
    nvdsFlashEnvInit steadyRom nvdsFlashInternalAddr nvdsFlashInternalSize erasedDev =
      some (.ok (), env₀) ∧
    (internalStorage s env₀).flashInit steadyRom 0x300000 100 userLabel true (some 1) 10 =
      some (none, st') ∧
    (internalStorage s env₀).answers steadyRom .fails [(internalPtr, .find none keyA)] =
      some [.code (.error .notFound)] ∧
    st'.answers steadyRom .fails [(internalPtr, .find none keyA)] =
      some [.code (.error .fail)] ∧
    ¬Storage.SameAnswers steadyRom .fails s.live (internalStorage s env₀) st' := by
  rcases hload : nvdsFlashEnvInit steadyRom nvdsFlashInternalAddr nvdsFlashInternalSize erasedDev
    with _ | ⟨e | ⟨⟩, env₀⟩
  · exact absurd find_internal (by rw [hload]; simp)
  · exact absurd find_internal (by rw [hload]; simp)
  have hfind := find_internal
  rw [hload] at hfind
  obtain ⟨⟨r, env₁⟩, hrun, hr⟩ := map_eq_some_iff.mp hfind
  obtain ⟨s, hs, hlive, -, hcheck, reg, hreg⟩ := exists_internal
  have hbefore : (internalStorage s env₀).answers steadyRom .fails
      [(internalPtr, .find none keyA)] = some [.code (.error .notFound)] := by
    have hcall : (Call.find none keyA).run steadyRom env₀ =
        some (.code (.error .notFound), env₁) := by
      rw [Call.run, hrun, ← hr]
      rfl
    simp only [Storage.answers, Storage.call, internalStorage, hcall]
    rfl
  refine ⟨s, env₀, _, hs, rfl, Storage.flashInit_size rfl hcheck (by decide) hreg, hbefore, rfl,
    fun hsame => ?_⟩
  have hall := hsame [(internalPtr, .find none keyA)] (by simp [hlive])
  rw [hbefore] at hall
  cases hall.trans (show _ = some [Ret.code (.error .fail)] from rfl)

end Nvds

end Gd32
