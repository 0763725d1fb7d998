import Gd32Firmware.Nvds.Images
import Gd32Firmware.Nvds.DelKeysRuns

/-!
# The current page

`data_element_put` and `bulk_element_put` write to the last used page and do not look whether
there is one. `pages_load` opens a page when no page of the image can be used, and does not look at
what `new_page_request` returns: without a sector there is no page to open, and a last free page
is only taken in exchange for a used one, of which there is none. So a partition without sectors, or
with a single one whose page cannot be used, is initialised and has no current page
(`current_page_iff`). No call takes the last used page away
(`Lasting`).
-/

namespace Gd32.Nvds

open NorFlash LittleEndian List NvdsM Option

/-! ### What all calls keep -/

/-- An invariant that does not depend on the pages, the device and the namespaces. -/
structure Local (Q : FlashEnv → Prop) : Prop where
  pages : ∀ env p, Q env → Q { env with pages := p }
  dev : ∀ env d, Q env → Q { env with dev := d }
  names : ∀ env nss states, Q env → Q { env with nsList := nss, nsStates := states }

section Local

variable {rom : NvdsRom} {Q : FlashEnv → Prop} (hQ : Local Q) {env : FlashEnv}
include hQ

theorem Local.setPage (h : Q env) (k : ℕ) (p : PageEnv) : Q (env.setPage k p) := hQ.pages _ _ h

/-- The places of the pages do not matter to it. -/
theorem Local.placed : Placed Q := ⟨fun _ _ _ h _ _ => hQ.pages _ _ h, hQ.dev, hQ.names⟩

end Local

/-- An invariant of that kind that requests for a page keep. -/
structure Lasting (rom : NvdsRom) (Q : FlashEnv → Prop) : Prop extends Local Q where
  request : ∀ env seq, Q env → NvdsM.Leaves Q env (newPageRequest rom seq)

section Lasting

variable {rom : NvdsRom} {Q : FlashEnv → Prop} (hQ : Lasting rom Q) {env : FlashEnv}
include hQ

/-! Deleting. -/

theorem Lasting.elementDrop (h : Q env) (k idx cnt : ℕ) :
    NvdsM.Leaves Q env (elementDrop rom k idx cnt) :=
  leaves_bind (hQ.placed.entryStateRangeAlter h _ _ _ _) fun _ _ _ h1 =>
    leaves_modify (hQ.setPage h1 _ _)

theorem Lasting.bulkFragsDel (h : Q env) (ns : ℕ) (key : CString) (n : ℕ) (pageStart : Option ℕ)
    (start : ℕ) : NvdsM.Leaves Q env (bulkFragsDel rom ns key n pageStart start) := by
  induction n generalizing env pageStart start with
  | zero => exact leaves_none _ rfl
  | succ n ih =>
    refine leaves_bind (leaves_attempt (leaves_search h _))
      fun found _ _ h1 => ?_
    rcases found with e | ⟨k, idx⟩
    · cases e <;> first | exact leaves_pure h1 () | exact leaves_throw h1 _
    · exact leaves_bind (leaves_look h1 _) fun _ _ _ h2 =>
        leaves_bind (hQ.elementDrop h2 _ _ _) fun _ _ _ h3 => ih h3 _ _

theorem Lasting.bulkElementDel (h : Q env) (ns : ℕ) (key : CString) :
    NvdsM.Leaves Q env (bulkElementDel rom ns key) := by
  refine leaves_bind (leaves_attempt (leaves_search h _))
    fun found _ _ h1 => ?_
  rcases found with e | ⟨k, idx⟩
  · cases e <;> first | exact leaves_pure h1 () | exact leaves_throw h1 _
  · exact leaves_bind (hQ.elementDrop h1 _ _ _) fun _ _ _ h2 =>
      leaves_get (hQ.bulkFragsDel h2 _ _ _ _ _)

theorem Lasting.dataElementDel (h : Q env) (ns : ℕ) (key : CString) :
    NvdsM.Leaves Q env (dataElementDel rom ns key) := by
  refine leaves_bind (leaves_search h _) fun found _ _ h1 =>
    leaves_bind (leaves_look h1 _) fun entry _ _ h2 => ?_
  split
  · exact hQ.bulkElementDel h2 ns key
  · exact hQ.bulkElementDel h2 ns key
  · exact hQ.elementDrop h2 _ _ _
  · exact hQ.elementDrop h2 _ _ _
  · exact leaves_throw h2 _

theorem Lasting.nsDelUsedCnt (h : Q env) (idx : ℕ) :
    NvdsM.Leaves Q env (nsDelUsedCnt rom idx) := by
  refine leaves_bind (leaves_modify ?_) fun _ env1 _ h1 => leaves_get ?_
  · rw [nsLowerUsedCnt]
    split
    · exact h
    · exact hQ.names _ _ _ h
  split
  · exact leaves_pure h1 ()
  · split
    · exact leaves_bind (leaves_modify (hQ.names env1 _ _ h1)) fun _ _ _ h2 =>
        hQ.dataElementDel h2 _ _
    · exact leaves_pure h1 ()

/-! Putting. -/

omit hQ in
theorem leaves_currentPage (h : Q env) : NvdsM.Leaves Q env currentPage := by
  rintro r env' hrun
  rw [currentPage] at hrun
  split at hrun
  · cases hrun
  · simp only at hrun
    split at hrun
    · obtain ⟨-, rfl⟩ := Prod.mk.inj (Option.some.inj hrun)
      exact h
    · obtain ⟨-, rfl⟩ := Prod.mk.inj (Option.some.inj hrun)
      exact h

theorem Lasting.roomFor (h : Q env) (size k : ℕ) : NvdsM.Leaves Q env (roomFor rom size k) := by
  refine leaves_get ?_
  split
  · refine leaves_bind (leaves_bind (hQ.placed.pageStateAlter h _ _) fun _ _ _ h1 =>
      leaves_get (hQ.request _ _ h1)) fun page _ _ h2 => leaves_get ?_
    rcases page with _ | p
    · exact leaves_pure h2 _
    · simp only
      split
      · exact leaves_pure h2 _
      · exact leaves_pure h2 _
  · exact leaves_pure h _

theorem Lasting.elementWrite (h : Q env) (k : ℕ) (entry : Entry) (data : List UInt8) :
    NvdsM.Leaves Q env (elementWrite rom k entry data) :=
  leaves_get (leaves_bind (hQ.placed.entryWrite h _ _) fun _ _ _ h1 =>
    leaves_get (leaves_bind (hQ.placed.nvdsFlashWrite h1 _ _) fun _ _ _ h2 =>
      leaves_bind (leaves_modify (hQ.setPage h2 _ _)) fun _ _ _ h3 =>
        hQ.placed.entryStateRangeAlter h3 _ _ _ _))

theorem Lasting.headerWrite (h : Q env) (k : ℕ) (entry : Entry) :
    NvdsM.Leaves Q env (headerWrite rom k entry) :=
  leaves_get (leaves_bind (hQ.placed.entryWrite h _ _) fun _ _ _ h1 =>
    hQ.placed.entryStateRangeAlter h1 _ _ _ _)

theorem Lasting.bulkFragsPut (h : Q env) (ns : ℕ) (key : CString) (buf : List UInt8) (n k : ℕ)
    (rest : List UInt8) (frag : ℕ) :
    NvdsM.Leaves Q env (bulkFragsPut rom ns key buf n k rest frag) := by
  induction n generalizing env k rest frag with
  | zero => exact leaves_none _ rfl
  | succ n ih =>
    refine leaves_bind (hQ.roomFor h _ _) fun page _ _ h1 => ?_
    rcases page with _ | p
    · exact leaves_pure h1 _
    · refine leaves_get (leaves_bind (hQ.elementWrite h1 _ _ _) fun _ _ _ h2 => ?_)
      split
      · exact leaves_pure h2 _
      · exact ih h2 _ _ _

theorem Lasting.noSpaceOut (h : Q env) (ns : ℕ) (key : CString) :
    NvdsM.Leaves Q env (noSpaceOut rom ns key) :=
  leaves_get (leaves_bind (hQ.bulkFragsDel h _ _ _ _ _) fun _ _ _ h1 =>
    leaves_throw h1 _)

theorem Lasting.bulkElementPut (h : Q env) (ns : ℕ) (key : CString) (buf : List UInt8) :
    NvdsM.Leaves Q env (bulkElementPut rom ns key buf) := by
  refine leaves_bind (leaves_currentPage h) fun k _ _ h1 =>
    leaves_bind (hQ.bulkFragsPut h1 _ _ _ _ _ _ _) fun frags _ _ h2 => ?_
  rcases frags with _ | fragCnt
  · exact hQ.noSpaceOut h2 _ _
  refine leaves_bind (leaves_currentPage h2) fun k _ _ h3 =>
    leaves_bind (hQ.roomFor h3 _ _) fun page _ _ h4 => ?_
  rcases page with _ | p
  · exact hQ.noSpaceOut h4 _ _
  · exact hQ.headerWrite h4 _ _

theorem Lasting.pageElementPut (h : Q env) (ns : ℕ) (key : CString) (buf : List UInt8) :
    NvdsM.Leaves Q env (pageElementPut rom ns key buf) := by
  refine leaves_bind (leaves_currentPage h) fun k _ _ h1 =>
    leaves_bind (hQ.roomFor h1 _ _) fun page _ _ h2 => ?_
  rcases page with _ | p
  · exact leaves_throw h2 _
  · simp only
    split
    · exact hQ.headerWrite h2 _ _
    · exact hQ.elementWrite h2 _ _ _

theorem Lasting.nsLowerUsedCnt (h : Q env) (ns : ℕ) : Q (nsLowerUsedCnt ns env) := by
  rw [Nvds.nsLowerUsedCnt]
  split
  · exact h
  · exact hQ.names _ _ _ h

theorem Lasting.dataElementPut (h : Q env) (ns : ℕ) (key : CString) (buf : List UInt8) :
    NvdsM.Leaves Q env (dataElementPut rom ns key buf) := by
  refine leaves_bind (leaves_search h _) fun same _ _ h1 => ?_
  split
  · exact leaves_modify (hQ.nsLowerUsedCnt h1 ns)
  refine leaves_bind (leaves_bind (leaves_attempt (hQ.dataElementDel h1 _ _))
    fun r _ _ h2 => ?_) fun _ _ _ h3 => ?_
  · rcases r with e | _
    · cases e <;> first | exact leaves_pure h2 () | exact leaves_throw h2 _
    · exact leaves_modify (hQ.nsLowerUsedCnt h2 ns)
  · split
    · exact hQ.bulkElementPut h3 _ _ _
    · exact hQ.pageElementPut h3 _ _ _

/-! The calls. -/

theorem Lasting.nsIndexByNamespace (h : Q env) (name : Option CString) (create : Bool) :
    NvdsM.Leaves Q env (nsIndexByNamespace rom name create) := by
  rcases name with _ | c
  · exact leaves_pure h _
  refine leaves_bind (leaves_check h _ _) fun _ env1 _ h1 => leaves_get ?_
  split
  · exact leaves_pure h1 _
  · split
    · refine leaves_get (leaves_bind (leaves_check h1 _ _) fun _ _ _ h2 =>
        leaves_bind (hQ.dataElementPut h2 _ _ _) fun _ env3 _ h3 =>
          leaves_bind (leaves_modify ?_) fun _ _ _ h4 => leaves_pure h4 _)
      exact hQ.names env3 _ _ h3
    · exact leaves_throw h1 _

theorem Lasting.nvdsDataPut (h : Q env) (name key : Option CString)
    (data : Option (List UInt8)) : NvdsM.Leaves Q env (nvdsDataPut rom name key data) := by
  rcases key with _ | key
  · exact leaves_throw h _
  rcases data with _ | data
  · exact leaves_throw h _
  refine leaves_bind (leaves_check h _ _) fun _ _ _ h1 =>
    leaves_bind (hQ.nsIndexByNamespace h1 _ _) fun idx _ _ h2 =>
      leaves_bind (hQ.dataElementPut h2 _ _ _) fun _ _ _ h3 => leaves_modify ?_
  rw [nsAddUsedCnt]
  split
  · exact h3
  · exact hQ.names _ _ _ h3

theorem Lasting.nvdsDataGet (h : Q env) (name key : Option CString) (buf : Option ℕ) :
    NvdsM.Leaves Q env (nvdsDataGet rom name key buf) := by
  rcases key with _ | key
  · exact leaves_throw h _
  · exact leaves_bind (leaves_check h _ _) fun _ _ _ h1 =>
      leaves_bind (hQ.nsIndexByNamespace h1 _ _) fun _ _ _ h2 => leaves_search h2 _

theorem Lasting.nvdsDataFind (h : Q env) (name key : Option CString) :
    NvdsM.Leaves Q env (nvdsDataFind rom name key) := by
  rcases key with _ | key
  · exact leaves_throw h _
  · exact leaves_bind (leaves_check h _ _) fun _ _ _ h1 =>
      leaves_bind (hQ.nsIndexByNamespace h1 _ _) fun _ _ _ h2 => leaves_search h2 _

theorem Lasting.nvdsDataDel (h : Q env) (name key : Option CString) :
    NvdsM.Leaves Q env (nvdsDataDel rom name key) := by
  rcases key with _ | key
  · exact leaves_throw h _
  · exact leaves_bind (leaves_check h _ _) fun _ _ _ h1 =>
      leaves_bind (hQ.nsIndexByNamespace h1 _ _) fun idx _ _ h2 =>
        leaves_bind (hQ.dataElementDel h2 _ _) fun _ _ _ h3 =>
          leaves_bind (leaves_attempt (hQ.nsDelUsedCnt h3 idx)) fun _ _ _ h4 =>
            leaves_pure h4 ()

theorem Lasting.nsLowerPtr (h : Q env) (p : NsPtr) : NvdsM.Leaves Q env (nsLowerPtr rom p) := by
  obtain ⟨_ | ns, uses⟩ := p
  · exact leaves_none _ rfl
  refine leaves_bind (leaves_modify (hQ.names _ _ _ h)) fun _ env1 _ h1 => ?_
  simp only
  split
  · exact leaves_bind (leaves_bind (leaves_modify (hQ.names env1 _ _ h1))
      fun _ _ _ h2 => hQ.dataElementDel h2 _ _) fun _ _ _ h3 => leaves_pure h3 _
  · exact leaves_pure h1 _

theorem Lasting.delKeysWalk (h : Q env) (idx k n i : ℕ) (p : NsPtr) :
    NvdsM.Leaves Q env (delKeysWalk rom idx k n i p) := by
  induction n generalizing env i p with
  | zero => exact leaves_none _ rfl
  | succ n ih =>
    rw [Nvds.delKeysWalk]
    split
    · exact leaves_pure h _
    refine leaves_bind (leaves_look h _) fun state _ _ h1 => ?_
    split
    · exact leaves_pure h1 _
    refine leaves_bind (leaves_look h1 _) fun entry _ _ h2 => ?_
    split
    · refine leaves_bind ?_ fun _ _ _ h3 =>
        leaves_bind (hQ.nsLowerPtr h3 p) fun _ _ _ h4 => ih h4 _ _
      rw [delEntry]
      split
      · exact hQ.elementDrop h2 _ _ _
      · exact hQ.elementDrop h2 _ _ _
      · exact hQ.elementDrop h2 _ _ _
      · exact hQ.elementDrop h2 _ _ _
      · exact leaves_pure h2 _
    · exact ih h2 _ _

theorem Lasting.nvdsDelKeysByNamespace (h : Q env) (name : CString) :
    NvdsM.Leaves Q env (nvdsDelKeysByNamespace rom name) := by
  have hpages : ∀ (ks : List ℕ) (idx : ℕ) (p : NsPtr) (e : FlashEnv), Q e →
      NvdsM.Leaves Q e (delKeysPages rom idx ks p) := by
    intro ks idx
    induction ks with
    | nil => exact fun p e he => leaves_pure he _
    | cons k ks ih =>
      intro p e he
      refine leaves_get ?_
      split
      · exact leaves_bind (hQ.delKeysWalk he _ _ _ _ _) fun _ _ _ h1 => ih _ _ h1
      · exact ih _ _ he
  refine leaves_bind (leaves_check h _ _) fun _ env1 _ h1 => leaves_get ?_
  split
  · exact leaves_throw h1 _
  · exact leaves_bind (hpages _ _ _ _ h1) fun _ _ _ h2 => leaves_pure h2 _

end Lasting

/-! ### A used page stays -/

theorem local_used (u : List ℕ) : Local fun env => env.pageUsed = u :=
  ⟨fun _ _ h => h, fun _ _ h => h, fun _ _ _ h => h⟩

/-- A page that is opened is the last one in use. -/
theorem openPage_used {rom : NvdsRom} {env env' : FlashEnv} {page seq : ℕ}
    (h : openPage rom page seq env = some (.ok (), env')) :
    env'.pageUsed = env.pageUsed ++ [page] := by
  let Q : FlashEnv → Prop := fun e => e.pageUsed = env.pageUsed
  have hQ : Local Q := local_used env.pageUsed
  obtain ⟨_, env1, h1, hrun⟩ := run_of_bind h
  have hq1 : Q env1 := hQ.placed.eraseStale rfl page _ _ h1
  obtain ⟨_, env2, h2, hrun⟩ := run_of_bind hrun
  have hq2 : Q env2 := leaves_modify (hQ.setPage hq1 _ _) _ _ h2
  rw [NvdsM.get_bind] at hrun
  obtain ⟨_, env3, h3, hrun⟩ := run_of_bind hrun
  have hq3 : Q env3 := hQ.placed.nvdsFlashWrite hq2 _ _ _ _ h3
  obtain ⟨_, env4, h4, hrun⟩ := run_of_bind hrun
  have hq4 : Q env4 := hQ.placed.pageStateAlter hq3 _ _ _ _ h4
  obtain ⟨-, rfl⟩ := Prod.mk.inj (Option.some.inj hrun)
  exact congrArg (· ++ [page]) hq4

/-- **Requests for a page keep a used one**: the last used page is only given up after another one
has been opened. -/
theorem lasting_used (rom : NvdsRom) : Lasting rom fun env => env.pageUsed ≠ [] := by
  have hQ : Local fun env => env.pageUsed ≠ [] :=
    ⟨fun _ _ h => h, fun _ _ h => h, fun _ _ _ h => h⟩
  have hopen : ∀ {env : FlashEnv} (page seq : ℕ), env.pageUsed ≠ [] →
      NvdsM.Leaves (fun env => env.pageUsed ≠ []) env (openPage rom page seq) := by
    intro env page seq h
    refine leaves_bind (hQ.placed.eraseStale h page) fun _ _ _ h1 => leaves_bind
      (leaves_modify (hQ.setPage h1 _ _)) fun _ _ _ h2 => leaves_get
        (leaves_bind (hQ.placed.nvdsFlashWrite h2 _ _) fun _ _ _ h3 => leaves_bind
          (hQ.placed.pageStateAlter h3 _ _) fun _ _ _ _ => leaves_modify ?_)
    exact append_ne_nil_of_right_ne_nil _ (cons_ne_nil _ _)
  refine ⟨hQ, fun env seq h => leaves_bind (leaves_attempt (leaves_get ?_))
    fun _ _ _ h1 => leaves_pure h1 _⟩
  rcases env.pageFree with _ | ⟨page, _ | ⟨page', rest⟩⟩
  · exact leaves_throw h _
  · rcases pickVictim env with _ | victim
    · exact leaves_throw h _
    · refine leaves_bind (hopen page seq h) fun _ env1 hrun _ => ?_
      -- two pages are in use now, and one of them goes
      have htwo : env1.pageUsed.erase victim ≠ [] := by
        have hlen := length_pos_of_ne_nil h
        have hle := le_length_erase (a := victim) (l := env1.pageUsed)
        rw [openPage_used hrun, length_append, length_singleton] at hle
        refine ne_nil_of_length_pos ?_
        rw [openPage_used hrun]
        omega
      refine leaves_bind ?_ fun _ _ _ h2 => leaves_pure h2 _
      exact leaves_bind (leaves_modify htwo) fun _ _ _ h2 =>
        leaves_bind (hQ.placed.pageStateAlter h2 _ _) fun _ _ _ h3 =>
          leaves_bind (leaves_forEach (fun _ _ _ hq => hQ.placed.copyEntry hq _ _ _) h3)
            fun _ _ _ h4 => leaves_get (leaves_bind (hQ.placed.nvdsFlashErase h4 _ _)
              fun _ _ _ h5 => leaves_modify (hQ.setPage h5 _ _))
  · exact leaves_bind (hopen page seq h) fun _ _ _ h2 => leaves_pure h2 _

/-! ### Loading -/

/-- What is read depends on the range and on the device. -/
theorem nvdsFlashRead_congr {rom : NvdsRom} {env env' : FlashEnv}
    (hb : env.baseAddr = env'.baseAddr) (hl : env.length = env'.length) (hd : env.dev = env'.dev)
    (offset len : ℕ) :
    nvdsFlashRead rom env offset len = nvdsFlashRead rom env' offset len := by
  simp only [nvdsFlashRead, FlashEnv.flash, hb, hl, hd]

theorem pageHeaderRead_congr {rom : NvdsRom} {env env' : FlashEnv}
    (hb : env.baseAddr = env'.baseAddr) (hl : env.length = env'.length) (hd : env.dev = env'.dev)
    (a : ℕ) : pageHeaderRead rom env a = pageHeaderRead rom env' a := by
  have hempty : ∀ is, emptyBlocks rom env a is = emptyBlocks rom env' a is := by
    intro is
    induction is with
    | nil => rfl
    | cons i is ih => rw [emptyBlocks, emptyBlocks, nvdsFlashRead_congr hb hl hd, ih]
  simp only [pageHeaderRead, nvdsFlashRead_congr hb hl hd, hempty]

/-- The header of the page in a sector, as it is read before anything is loaded. -/
def headerAt (rom : NvdsRom) (b l : ℕ) (dev : Dev) (k : ℕ) : PageHeader :=
  pageHeaderRead rom (freshEnv b l dev) (k * spiFlashSecSize)

/-- The sectors `ks` have been loaded, and none of them holds a page that can be used. -/
structure Barren (rom : NvdsRom) (b l : ℕ) (dev : Dev) (ks : List ℕ) (env : FlashEnv) : Prop where
  base : env.baseAddr = b
  length : env.length = l
  device : env.dev = dev
  place : InPlace env
  used : env.pageUsed = []
  free : env.pageFree = ks
  header : ∀ k ∈ ks, (env.pages k).header = headerAt rom b l dev k

section Load

variable {rom : NvdsRom} {b l : ℕ} {dev : Dev} {ks : List ℕ} {env : FlashEnv}

theorem barren_fresh (rom : NvdsRom) (b l : ℕ) (dev : Dev) :
    Barren rom b l dev [] (freshEnv b l dev) :=
  ⟨rfl, rfl, rfl, ⟨fun _ => rfl, fun _ => rfl⟩, rfl, rfl, fun _ hk => absurd hk not_mem_nil⟩

/-- The header that is read for the next sector is the one that was there before. -/
theorem Barren.headerRead (h : Barren rom b l dev ks env) (k : ℕ) :
    pageHeaderRead rom env (k * spiFlashSecSize) = headerAt rom b l dev k :=
  pageHeaderRead_congr h.base h.length h.device _

/-- A sector whose page cannot be used is free. -/
theorem Barren.step (h : Barren rom b l dev ks env) {k : ℕ}
    (hbad : headerUnsound (headerAt rom b l dev k) = true) :
    ∃ env', loadSector rom k false env = some (.ok false, env') ∧
      Barren rom b l dev (ks ++ [k]) env' := by
  refine ⟨{ env.setPage k (freshPage k (headerAt rom b l dev k)) with
    pageFree := env.pageFree ++ [k] }, ?_, ?_⟩
  · rw [loadSector, modify_bind, NvdsM.get_bind, h.headerRead, FlashEnv.setPage,
      if_pos (by simpa [freshPage] using hbad)]
    rfl
  have hplace : InPlace (env.setPage k (freshPage k (headerAt rom b l dev k))) :=
    h.place.setPage rfl rfl
  refine ⟨h.base, h.length, h.device, ⟨hplace.base, hplace.table⟩, h.used, by rw [← h.free],
    fun j hj => ?_⟩
  · rcases eq_or_ne j k with rfl | hne
    · simp [FlashEnv.setPage, freshPage]
    · have hin : j ∈ ks := by simpa [hne] using hj
      simpa [FlashEnv.setPage, hne] using h.header j hin

/-- **No sector can be used**: all of them are free afterwards. -/
theorem Barren.steps (h : Barren rom b l dev ks env) {js : List ℕ}
    (hbad : ∀ k ∈ js, headerUnsound (headerAt rom b l dev k) = true) :
    ∃ env', loadSectors rom js false env = some (.ok false, env') ∧
      Barren rom b l dev (ks ++ js) env' := by
  induction js generalizing env ks with
  | nil => exact ⟨env, rfl, by rwa [append_nil]⟩
  | cons k js ih =>
    obtain ⟨env1, hrun, h1⟩ := h.step (hbad k mem_cons_self)
    obtain ⟨env2, hrest, h2⟩ := ih h1 fun j hj => hbad j (mem_cons_of_mem _ hj)
    refine ⟨env2, ?_, by simpa using h2⟩
    rw [loadSectors, bind_ok hrun, hrest]

end Load

/-! ### Computations that do not fail -/

/-- A computation that goes on with the return code of another one. -/
theorem leaves_attempt_bind {α β : Type} {Q : FlashEnv → Prop} {env : FlashEnv}
    {x : NvdsM α} {f : Except NvdsErr α → NvdsM β}
    (hf : ∀ r env', x env = some (r, env') → Leaves Q env' (f r)) :
    Leaves Q env (attempt x >>= f) := by
  rintro r env' hrun
  rcases hr : x env with _ | ⟨s, env1⟩
  · have hnone : attempt x env = none := by rw [attempt, hr]; rfl
    change andThen _ _ env = _ at hrun
    rw [andThen, hnone] at hrun
    cases hrun
  · rw [bind_ok (attempt_eq hr)] at hrun
    exact hf s env1 hr r env' hrun

/-- The computation returns no error code. -/
def NvdsM.Succeeds {α : Type} (env : FlashEnv) (x : NvdsM α) : Prop :=
  ∀ e env', x env ≠ some (.error e, env')

namespace NvdsM

variable {α β : Type} {env : FlashEnv}

theorem succeeds_of_ok {x : NvdsM α} {a : α} {env' : FlashEnv} (h : x env = some (.ok a, env')) :
    Succeeds env x := by
  rintro e env'' hrun
  rw [h] at hrun
  cases hrun

theorem succeeds_get {f : FlashEnv → NvdsM β} (h : Succeeds env (f env)) :
    Succeeds env (get >>= f) := h

theorem succeeds_attempt (x : NvdsM α) : Succeeds env (attempt x) := by
  rintro e env' hrun
  obtain ⟨p, -, hp⟩ := map_eq_some_iff.mp hrun
  cases hp

theorem succeeds_bind {x : NvdsM α} {f : α → NvdsM β} (hx : Succeeds env x)
    (hf : ∀ a env', x env = some (.ok a, env') → Succeeds env' (f a)) :
    Succeeds env (x >>= f) := by
  rintro e env' hrun
  rcases hr : x env with _ | ⟨e' | a, env1⟩
  · change andThen x f env = _ at hrun
    rw [andThen, hr] at hrun
    cases hrun
  · exact hx e' env1 hr
  · rw [bind_ok hr] at hrun
    exact hf a env1 hr e env' hrun

end NvdsM

section Load

variable {rom : NvdsRom} {l : ℕ} {env : FlashEnv}

theorem loadEntry_succeeds (k idx : ℕ) (entry : Entry) :
    NvdsM.Succeeds env (loadEntry rom k idx entry) :=
  succeeds_bind (succeeds_attempt _) fun _ _ _ =>
    succeeds_bind (succeeds_of_ok rfl) fun _ _ _ =>
      succeeds_bind (succeeds_of_ok rfl) fun _ _ _ => succeeds_of_ok rfl

/-- The walk over a page does not fail, whatever its table and its entries are. -/
theorem loadWalk_succeeds (hrom : rom.Reliable) {k : ℕ} (hk : (k + 1) * spiFlashSecSize ≤ l)
    (hin : InPlace env) (hl : env.length = l) (n idx : ℕ) :
    NvdsM.Succeeds env (loadWalk rom k n idx) := by
  have hlen : Local fun e => e.length = l :=
    ⟨fun _ _ h => h, fun _ _ h => h, fun _ _ _ h => h⟩
  induction n generalizing env idx with
  | zero => exact succeeds_of_ok rfl
  | succ n ih =>
    rw [loadWalk]
    split
    · exact succeeds_of_ok rfl
    next hidx =>
    refine succeeds_get ?_
    cases stateAt (env.pages k).entryStates idx with
    | free => exact succeeds_of_ok rfl
    | updated => exact ih hin hl _
    | illegal =>
      exact succeeds_bind (succeeds_attempt _) fun _ _ hrun =>
        ih (leaves_attempt (inPlace_placed.entryStateAlter hin _ _ _) _ _ hrun)
          (leaves_attempt (hlen.placed.entryStateAlter hl _ _ _) _ _ hrun) _
    | used =>
      -- an entry in use lies in the range and is read
      have hread : entryRead rom env k idx = .ok (read env.flash (env.baseAddr +
          ((env.pages k).baseAddr + pageEntryOffset + idx * entrySize)) entrySize) := by
        rw [entryRead, nvdsFlashRead_ok hrom]
        rw [hin.base k, hl]
        simp only [entryCountPerPage, spiFlashSecSize, pageEntryOffset, entrySize] at hidx hk ⊢
        omega
      refine succeeds_bind (succeeds_of_ok (look_ok hread)) fun _ env2 hlook => ?_
      obtain ⟨-, rfl⟩ := look_run hlook
      exact succeeds_bind (loadEntry_succeeds _ _ _) fun _ _ hrun =>
        ih (inPlace_placed.loadEntry hin _ _ _ _ _ hrun) (hlen.placed.loadEntry hl _ _ _ _ _ hrun) _

/-- Whatever a sector holds, the pages in use stay. -/
theorem loadSector_keeps (h : env.pageUsed ≠ []) (k : ℕ) (isErr : Bool) :
    NvdsM.Leaves (fun env => env.pageUsed ≠ []) env (loadSector rom k isErr) := by
  have hQ := (lasting_used rom).toLocal
  have hfree : ∀ {env : FlashEnv} (b : Bool), env.pageUsed ≠ [] → NvdsM.Leaves
      (fun env => env.pageUsed ≠ []) env (pushFree k >>= fun _ => (pure b : NvdsM Bool)) :=
    fun b h => leaves_bind (leaves_modify h) fun _ _ _ h1 => leaves_pure h1 b
  refine leaves_bind (leaves_modify (hQ.setPage h _ _)) fun _ env1 _ h1 =>
    leaves_get ?_
  split
  · exact hfree _ h1
  split
  · exact hfree _ h1
  refine leaves_bind (leaves_modify (hQ.setPage h1 _ _)) fun _ _ _ h2 =>
    leaves_bind (leaves_attempt (hQ.placed.loadWalk h2 k _ _)) fun r _ _ h3 => ?_
  split
  · exact hfree _ h3
  · refine leaves_bind (leaves_modify ?_) fun _ _ _ h4 => leaves_pure h4 _
    exact ne_nil_of_mem (mem_listInsert.mpr (.inl rfl))

theorem loadSectors_keeps (h : env.pageUsed ≠ []) (ks : List ℕ) (isErr : Bool) :
    NvdsM.Leaves (fun env => env.pageUsed ≠ []) env (loadSectors rom ks isErr) := by
  induction ks generalizing env isErr with
  | nil => exact leaves_pure h isErr
  | cons k ks ih =>
    exact leaves_bind (loadSector_keeps h k isErr) fun _ _ _ h1 => ih h1 _

/-- **A page with a sound header is used**, whatever is behind the header. -/
theorem Barren.sound (hrom : rom.Reliable) {b : ℕ} {dev : Dev} {ks : List ℕ}
    (h : Barren rom b l dev ks env) {k : ℕ} (hk : (k + 1) * spiFlashSecSize ≤ l)
    (hsound : headerUnsound (headerAt rom b l dev k) = false) :
    NvdsM.Leaves (fun env => env.pageUsed ≠ []) env (loadSector rom k false) := by
  have hin : InPlace (env.setPage k (freshPage k (headerAt rom b l dev k))) :=
    h.place.setPage rfl rfl
  rintro r env' hrun
  rw [loadSector, modify_bind, NvdsM.get_bind, h.headerRead,
    if_neg (by simpa [FlashEnv.setPage, freshPage] using hsound)] at hrun
  have hstates : entryStatesTableRead rom
      (env.setPage k (freshPage k (headerAt rom b l dev k))) (k * spiFlashSecSize) =
        .ok (tableWords (read env.flash (env.baseAddr +
          (k * spiFlashSecSize + pageEntryStatesOffset)) entrySize)) := by
    rw [entryStatesTableRead, nvdsFlashRead_ok hrom]
    · rfl
    · change _ ≤ env.length
      rw [h.length]
      simp only [spiFlashSecSize, pageEntryStatesOffset, entrySize] at hk ⊢
      omega
  rw [hstates] at hrun
  refine leaves_attempt_bind (Q := fun env => env.pageUsed ≠ []) (fun r _ hwalk => ?_) _ _
    hrun
  rcases r with e | _
  · refine (loadWalk_succeeds hrom hk ?_ ?_ _ _ _ _ hwalk).elim
    · exact hin.setPage (hin.base k) (by simp [tableWords])
    · exact h.length
  · refine leaves_bind (leaves_modify ?_) fun _ _ _ h4 => leaves_pure h4 _
    exact ne_nil_of_mem (mem_listInsert.mpr (.inl rfl))

/-- **Some sector can be used**: the ones in front of it are free, and from it on a page is used. -/
theorem Barren.loop (hrom : rom.Reliable) {b : ℕ} {dev : Dev} {ks js : List ℕ}
    (h : Barren rom b l dev ks env) (hjs : ∀ k ∈ js, (k + 1) * spiFlashSecSize ≤ l)
    (hsound : ∃ k ∈ js, headerUnsound (headerAt rom b l dev k) = false) :
    NvdsM.Leaves (fun env => env.pageUsed ≠ []) env (loadSectors rom js false) := by
  induction js generalizing env ks with
  | nil =>
    obtain ⟨k, hk, -⟩ := hsound
    exact absurd hk not_mem_nil
  | cons k js ih =>
    rcases hk : headerUnsound (headerAt rom b l dev k) with _ | _
    · exact leaves_bind (h.sound hrom (hjs k mem_cons_self) hk) fun _ _ _ h1 =>
        loadSectors_keeps h1 js _
    · obtain ⟨env1, hrun, h1⟩ := h.step hk
      obtain ⟨j, hj, hjs'⟩ := hsound
      have hne : j ≠ k := by
        rintro rfl
        rw [hk] at hjs'
        cases hjs'
      rintro r env' hall
      rw [loadSectors, bind_ok hrun] at hall
      exact ih h1 (fun i hi => hjs i (mem_cons_of_mem _ hi))
        ⟨j, (mem_cons.mp hj).resolve_left hne, hjs'⟩ r env' hall

end Load

/-! ### The page that is opened -/

section Open

variable {rom : NvdsRom} {env : FlashEnv} {k : ℕ}

theorem nvdsFlashErase_off (h : flashTotalSize < env.baseAddr + spiFlashSecSize) :
    ∃ e, nvdsFlashErase rom 0 spiFlashSecSize env = some (.error e, env) := by
  rw [nvdsFlashErase]
  split
  · exact ⟨_, rfl⟩
  · refine ⟨.flashIoFail, ?_⟩
    have hbad : rawFlashRangeOk (env.baseAddr + 0) spiFlashSecSize = false := by
      rw [Bool.eq_false_iff, ne_eq, rawFlashRangeOk_iff (by decide)]
      omega
    rw [rawFlashErase, hbad]
    rfl

/-- A page of the range is opened if it is empty, or can be erased. -/
theorem openPage_ok (hrom : rom.Reliable) (hbase : (env.pages k).baseAddr = k * spiFlashSecSize)
    (hk : (k + 1) * spiFlashSecSize ≤ env.length)
    (herase : (env.pages k).header.state = pageUninitialized ∨
      env.baseAddr + (k + 1) * spiFlashSecSize ≤ flashTotalSize) (seq : ℕ) :
    ∃ env', openPage rom k seq env = some (.ok (), env') := by
  have hsize : k * spiFlashSecSize + spiFlashSecSize ≤ env.length := by
    rwa [← Nat.succ_mul]
  have hstale : ∃ env1, eraseStale rom k env = some (.ok (), env1) ∧
      (env1.pages k).baseAddr = k * spiFlashSecSize ∧ env1.length = env.length := by
    rw [eraseStale, NvdsM.get_bind]
    split
    next hstate =>
      rw [hbase, nvdsFlashErase, if_neg (by omega), hrom.calls.rawFlashErase_eq _ (by decide)
        (by decide) (by rw [Nat.add_assoc, ← Nat.succ_mul]; exact herase.resolve_left hstate)]
      exact ⟨_, rfl, hbase, rfl⟩
    · exact ⟨env, rfl, hbase, rfl⟩
  obtain ⟨env1, hstale, hbase1, hlen1⟩ := hstale
  have hlen : (pageHeader pageActive seq).encode.length = entrySize := PageHeader.length_encode rfl
  obtain ⟨env2, hwrite, hbase2, hlen2⟩ : ∃ env2, nvdsFlashWrite rom (k * spiFlashSecSize)
      (pageHeader pageActive seq).encode (env1.setPage k { pageClear (env1.pages k) with
        header := pageHeader pageActive seq }) = some (.ok (), env2) ∧
      (env2.pages k).baseAddr = k * spiFlashSecSize ∧ env2.length = env1.length := by
    refine ⟨_, nvdsFlashWrite_ok hrom ?_, ?_, rfl⟩
    · change _ ≤ env1.length
      have h32 : entrySize ≤ spiFlashSecSize := by decide
      omega
    · simpa [FlashEnv.did, FlashEnv.setPage, pageClear] using hbase1
  obtain ⟨env3, halter⟩ : ∃ env3, pageStateAlter rom k pageActive env2 = some (.ok (), env3) := by
    have h8 : 6 + 2 ≤ spiFlashSecSize := by decide
    rw [pageStateAlter, NvdsM.get_bind, hbase2, bind_ok (nvdsFlashWrite_ok hrom (by
      rw [length_bytes]
      omega))]
    exact ⟨_, rfl⟩
  have hpage : ((env1.setPage k { pageClear (env1.pages k) with
      header := pageHeader pageActive seq }).pages k).baseAddr = k * spiFlashSecSize := by
    simpa [FlashEnv.setPage, pageClear] using hbase1
  have hheader : ((env1.setPage k { pageClear (env1.pages k) with
      header := pageHeader pageActive seq }).pages k).header = pageHeader pageActive seq := by
    simp [FlashEnv.setPage]
  rw [openPage, bind_ok hstale, modify_bind, NvdsM.get_bind, hpage, hheader,
    bind_ok hwrite, bind_ok halter]
  exact ⟨_, rfl⟩

end Open

/-! ### Which partitions have a current page -/

theorem currentPage_eq_none {env : FlashEnv} : currentPage env = none ↔ env.pageUsed = [] := by
  rw [currentPage, ← List.getLast?_eq_none_iff]
  rcases env.pageUsed.getLast? with _ | k
  · exact ⟨fun _ => rfl, fun _ => rfl⟩
  · simp only
    split <;> simp

/-- A call on a partition, of the ones that put, read, find and delete. -/
def NsEvent.IsCall : NsEvent → Prop
  | .event (.call _) => True
  | .event .restart => False
  | .event .clean => False
  | .delKeys _ => True

/-- Where `data_element_put` and `bulk_element_put` pick the current page, there is one: after the
old value has been deleted, and after the fragments have been written. -/
def PicksPage (rom : NvdsRom) (env : FlashEnv) : Prop :=
  ∀ ns key buf env1, dropOld rom ns key env = some (.ok (), env1) → currentPage env1 ≠ none ∧
    ∀ n k cnt env2, bulkFragsPut rom ns key buf n k buf 0 env1 = some (.ok (some cnt), env2) →
      currentPage env2 ≠ none

/-- A partition that is loaded has a page in use, and keeps one in all calls. -/
def KeepsPage (rom : NvdsRom) (b l : ℕ) (dev : Dev) : Prop :=
  ∀ env₀, nvdsFlashEnvInit rom b l dev = some (.ok (), env₀) →
    ∀ es env, (∀ e ∈ es, e.IsCall) → runNsEvents rom es env₀ = some env →
      env.pageUsed ≠ [] ∧ PicksPage rom env

/-- Some sector holds a page with a sound header; or there are two sectors, and the first one is
empty or on the device. -/
def HasPage (rom : NvdsRom) (b l : ℕ) (dev : Dev) : Prop :=
  (∃ k < l / spiFlashSecSize, headerUnsound (headerAt rom b l dev k) = false) ∨
    2 ≤ l / spiFlashSecSize ∧ ((headerAt rom b l dev 0).state = pageUninitialized ∨
      b + spiFlashSecSize ≤ flashTotalSize)

section Keeps

variable {rom : NvdsRom} {env env' : FlashEnv}

theorem picksPage_of_used (h : env.pageUsed ≠ []) : PicksPage rom env := by
  have hQ := lasting_used rom
  rintro ns key buf env1 hdrop
  have h1 : env1.pageUsed ≠ [] := by
    refine (leaves_bind (leaves_attempt (hQ.dataElementDel h ns key))
      fun r _ _ h1 => ?_) _ _ hdrop
    rcases r with e | _
    · cases e <;> first | exact leaves_pure h1 () | exact leaves_throw h1 _
    · exact leaves_modify (hQ.nsLowerUsedCnt h1 ns)
  refine ⟨mt currentPage_eq_none.mp h1, fun n k cnt env2 hput => ?_⟩
  exact mt currentPage_eq_none.mp (hQ.bulkFragsPut h1 ns key buf n k buf 0 _ _ hput)

/-- **One call** keeps a used page. -/
theorem NsEvent.used {e : NsEvent} (he : e.IsCall) (h : env.pageUsed ≠ [])
    (hrun : e.run rom env = some env') : env'.pageUsed ≠ [] := by
  have hQ := lasting_used rom
  rcases e with (c | - | -) | name
  · obtain ⟨⟨ret, env1⟩, hcall, rfl⟩ := map_eq_some_iff.mp hrun
    cases c with
    | put name key v =>
      obtain ⟨⟨r, env2⟩, hput, heq⟩ := map_eq_some_iff.mp hcall
      obtain ⟨-, rfl⟩ := Prod.mk.inj heq
      exact hQ.nvdsDataPut h _ _ _ _ _ hput
    | get name key buf =>
      obtain ⟨⟨r, env2⟩, hget, heq⟩ := map_eq_some_iff.mp hcall
      obtain ⟨-, rfl⟩ := Prod.mk.inj heq
      exact hQ.nvdsDataGet h _ _ _ _ _ hget
    | find name key =>
      obtain ⟨⟨r, env2⟩, hfind, heq⟩ := map_eq_some_iff.mp hcall
      obtain ⟨-, rfl⟩ := Prod.mk.inj heq
      exact hQ.nvdsDataFind h _ _ _ _ hfind
    | del name key =>
      obtain ⟨⟨r, env2⟩, hdel, heq⟩ := map_eq_some_iff.mp hcall
      obtain ⟨-, rfl⟩ := Prod.mk.inj heq
      exact hQ.nvdsDataDel h _ _ _ _ hdel
  · cases he
  · cases he
  · obtain ⟨⟨r, env1⟩, hdel, rfl⟩ := map_eq_some_iff.mp hrun
    exact hQ.nvdsDelKeysByNamespace h name _ _ hdel

/-- **A run of calls** keeps a used page. -/
theorem runNsEvents_used {es : List NsEvent} (hes : ∀ e ∈ es, e.IsCall) (h : env.pageUsed ≠ [])
    (hrun : runNsEvents rom es env = some env') : env'.pageUsed ≠ [] := by
  induction es generalizing env with
  | nil =>
    obtain rfl := Option.some.inj hrun
    exact h
  | cons e es ih =>
    obtain ⟨env1, hstep, hrest⟩ := bind_eq_some_iff.mp hrun
    exact ih (fun e' he' => hes e' (mem_cons_of_mem _ he'))
      (NsEvent.used (hes e mem_cons_self) h hstep) hrest

end Keeps

section Init

variable {rom : NvdsRom} {b l : ℕ} {dev : Dev}

/-- Every sector lies in the range. -/
theorem sector_le {k : ℕ} (hk : k < l / spiFlashSecSize) : (k + 1) * spiFlashSecSize ≤ l :=
  (Nat.mul_le_mul_right _ hk).trans (Nat.div_mul_le_self l spiFlashSecSize)

/-- Without a page that can be used, the sectors are free before a page is requested. -/
theorem exists_barren (hl : l % spiFlashSecSize = 0)
    (hbad : ∀ k < l / spiFlashSecSize, headerUnsound (headerAt rom b l dev k) = true) :
    ∃ env, Barren rom b l dev (List.range (l / spiFlashSecSize)) env ∧
      nvdsFlashEnvInit rom b l dev =
        (newPageRequest rom 0 >>= fun _ => (pure () : NvdsM Unit)) env := by
  obtain ⟨env1, hrun, h1⟩ := (barren_fresh rom b l dev).steps fun k hk =>
    hbad k (mem_range.mp hk)
  refine ⟨{ env1 with nsList := countAll rom env1 },
    ⟨h1.base, h1.length, h1.device, ⟨h1.place.base, h1.place.table⟩, h1.used, h1.free, h1.header⟩,
    ?_⟩
  rw [nvdsFlashEnvInit, pagesLoad, NvdsM.get_bind, show (freshEnv b l dev).length = l from rfl,
    check_bind (decide_eq_true hl), bind_ok hrun, modify_bind, NvdsM.get_bind,
    if_pos h1.used]

/-- **The request for the first page fails** without sectors, with a single one, and if the first
one can neither be used as it is nor be erased. -/
theorem newPageRequest_barren {n : ℕ} {env : FlashEnv}
    (h : Barren rom b l dev (List.range n) env)
    (hno : ¬(2 ≤ n ∧ ((headerAt rom b l dev 0).state = pageUninitialized ∨
      b + spiFlashSecSize ≤ flashTotalSize))) :
    newPageRequest rom 0 env = some (.ok none, env) := by
  obtain ⟨e, herr⟩ : ∃ e, newPage rom 0 env = some (.error e, env) := by
    have hfree := h.free
    rw [newPage, NvdsM.get_bind, hfree]
    rcases n with _ | _ | n
    · exact ⟨_, rfl⟩
    · refine ⟨.fail, ?_⟩
      have hvictim : pickVictim env = none := by rw [pickVictim, h.used]; rfl
      simp only [hvictim]
      rfl
    · have hhead : (env.pages 0).header = headerAt rom b l dev 0 := h.header 0 (by simp)
      obtain ⟨hstate, hoff⟩ := not_or.mp fun hor => hno ⟨by omega, hor⟩
      obtain ⟨e, herase⟩ := @nvdsFlashErase_off rom env (by rw [h.base]; omega)
      have hstale : eraseStale rom 0 env = some (.error e, env) := by
        rw [eraseStale, NvdsM.get_bind, hhead, if_pos hstate, h.place.base 0, Nat.zero_mul, herase]
      refine ⟨e, ?_⟩
      rw [range_succ_eq_map, range_succ_eq_map]
      simp only [map_cons]
      rw [bind_error (by rw [openPage, bind_error hstale])]
  rw [newPageRequest, bind_ok (attempt_eq herr)]
  rfl

/-- Otherwise the partition is initialised and no page is in use. -/
theorem exists_no_page (hl : l % spiFlashSecSize = 0) (hno : ¬HasPage rom b l dev) :
    ∃ env₀, nvdsFlashEnvInit rom b l dev = some (.ok (), env₀) ∧ env₀.pageUsed = [] := by
  obtain ⟨hsound, hopen⟩ := not_or.mp hno
  obtain ⟨env, hbarren, hinit⟩ := @exists_barren rom b l dev hl fun k hk =>
    Bool.eq_true_of_not_eq_false fun hk' => hsound ⟨k, hk, hk'⟩
  rw [bind_ok (newPageRequest_barren hbarren hopen)] at hinit
  exact ⟨env, hinit, hbarren.used⟩

/-- The pages with sound headers are used. -/
theorem loaded_used (hrom : rom.Reliable) (hl : l % spiFlashSecSize = 0) {env₀ : FlashEnv}
    (hsound : ∃ k < l / spiFlashSecSize, headerUnsound (headerAt rom b l dev k) = false)
    (hinit : nvdsFlashEnvInit rom b l dev = some (.ok (), env₀)) : env₀.pageUsed ≠ [] := by
  rw [nvdsFlashEnvInit, pagesLoad, NvdsM.get_bind, show (freshEnv b l dev).length = l from rfl,
    check_bind (decide_eq_true hl)] at hinit
  obtain ⟨_, env1, hloop, hrest⟩ := run_of_bind hinit
  obtain ⟨k, hk, hk'⟩ := hsound
  have h1 : env1.pageUsed ≠ [] :=
    (barren_fresh rom b l dev).loop hrom (fun j hj => sector_le (mem_range.mp hj))
      ⟨k, mem_range.mpr hk, hk'⟩ _ _ hloop
  rw [modify_bind, NvdsM.get_bind, if_neg h1] at hrest
  obtain ⟨-, rfl⟩ := Prod.mk.inj (Option.some.inj hrest)
  exact h1

/-- Without one, the page that is opened is used. -/
theorem opened_used (hrom : rom.Reliable) (hl : l % spiFlashSecSize = 0) {env₀ : FlashEnv}
    (hbad : ∀ k < l / spiFlashSecSize, headerUnsound (headerAt rom b l dev k) = true)
    (htwo : 2 ≤ l / spiFlashSecSize ∧ ((headerAt rom b l dev 0).state = pageUninitialized ∨
      b + spiFlashSecSize ≤ flashTotalSize))
    (hinit : nvdsFlashEnvInit rom b l dev = some (.ok (), env₀)) : env₀.pageUsed ≠ [] := by
  obtain ⟨env, hbarren, heq⟩ := exists_barren hl hbad
  obtain ⟨h2, hopen⟩ := htwo
  have hhead : (env.pages 0).header = headerAt rom b l dev 0 :=
    hbarren.header 0 (mem_range.mpr (by omega))
  have hfirst : (0 + 1) * spiFlashSecSize ≤ env.length := by
    rw [hbarren.length]
    exact sector_le (by omega)
  obtain ⟨env1, hpage⟩ := openPage_ok hrom (hbarren.place.base 0) hfirst
    (by rwa [hhead, hbarren.base, Nat.zero_add, Nat.one_mul]) 0
  have hrequest : newPageRequest rom 0 env = some (.ok (some 0), env1) := by
    obtain ⟨m, hm⟩ : ∃ m, l / spiFlashSecSize = m + 1 + 1 := ⟨l / spiFlashSecSize - 2, by omega⟩
    have hfree := hbarren.free
    rw [hm, range_succ_eq_map, range_succ_eq_map] at hfree
    have hnew : newPage rom 0 env = some (.ok 0, env1) := by
      rw [newPage, NvdsM.get_bind, hfree]
      simp only [map_cons]
      rw [bind_ok hpage]
      rfl
    rw [newPageRequest, bind_ok (attempt_eq hnew)]
    rfl
  rw [heq, bind_ok hrequest] at hinit
  obtain ⟨-, rfl⟩ := Prod.mk.inj (Option.some.inj hinit)
  rw [openPage_used hpage]
  exact append_ne_nil_of_right_ne_nil _ (cons_ne_nil _ _)

/-- **When a partition has a current page**, whatever the flash holds and whatever is called
afterwards: exactly if a sector holds a page with a sound header, or there are two sectors and the
first one can be set up. -/
theorem current_page_iff (hrom : rom.Reliable) (hl : l % spiFlashSecSize = 0) :
    KeepsPage rom b l dev ↔ HasPage rom b l dev := by
  constructor
  · intro hkeeps
    by_contra hno
    obtain ⟨env, hinit, hused⟩ := exists_no_page hl hno
    exact (hkeeps env hinit [] env (by simp) rfl).1 hused
  · rintro hhas env₀ hinit es env hes hrun
    have hused : env₀.pageUsed ≠ [] := by
      by_cases hsound : ∃ k < l / spiFlashSecSize, headerUnsound (headerAt rom b l dev k) = false
      · exact loaded_used hrom hl hsound hinit
      · exact opened_used hrom hl (fun k hk => Bool.eq_true_of_not_eq_false fun hk' =>
          hsound ⟨k, hk, hk'⟩) (hhas.resolve_left hsound) hinit
    have hlast := runNsEvents_used hes hused hrun
    exact ⟨hlast, picksPage_of_used hlast⟩

end Init

theorem keepsPage_erased :
    KeepsPage steadyRom nvdsFlashInternalAddr nvdsFlashInternalSize erasedDev :=
  (current_page_iff steadyRom_reliable (by decide)).mpr (.inr ⟨by decide, .inr (by decide)⟩)

/-! ### Without a page -/

/-- **A put without a current page does not come back.** -/
theorem nvdsDataPut_of_no_page {rom : NvdsRom} {env : FlashEnv} (hused : env.pageUsed = [])
    {key : CString} {v : List UInt8} (hkey : key.len < keyNameMaxSize) (hpos : 0 < v.length)
    (hmax : v.length ≤ elementBulkMaxSize) :
    nvdsDataPut rom none (some key) (some v) env = none := by
  have hfind : ∀ type, elementFind rom env namespaceNullIdx key none 0 type =
      some (.error .notFound) := by
    intro type
    rw [elementFind, hused]
    rfl
  have hcompare : NvdsM.search (fun env =>
      (elementCompare rom env namespaceNullIdx key v).map Except.ok) env =
        some (.ok false, env) := by
    refine search_eq ?_
    rw [elementCompare, dataElementGet, hfind]
    rfl
  have hdrop : dropOld rom namespaceNullIdx key env = some (.ok (), env) := by
    have hdel : dataElementDel rom namespaceNullIdx key env = some (.error .notFound, env) := by
      rw [dataElementDel, bind_error (search_eq (hfind _))]
    rw [dropOld, bind_ok (attempt_eq hdel)]
    rfl
  have hpick : ∀ {α : Type} (f : ℕ → NvdsM α), (currentPage >>= f) env = none := by
    intro α f
    change NvdsM.andThen _ _ env = _
    rw [NvdsM.andThen, currentPage_eq_none.mpr hused]
  have hput : dataElementPut rom namespaceNullIdx key v env = none := by
    rw [dataElementPut, bind_ok hcompare, if_neg Bool.false_ne_true, bind_ok hdrop]
    split
    · exact hpick _
    · exact hpick _
  have hcheck : 0 < v.length ∧ v.length ≤ elementBulkMaxSize ∧ key.len ≤ keyNameMaxSize - 1 :=
    ⟨hpos, hmax, Nat.le_sub_one_of_lt hkey⟩
  simp only [nvdsDataPut]
  rw [check_bind (decide_eq_true hcheck)]
  change NvdsM.andThen (dataElementPut rom namespaceNullIdx key v) _ env = none
  rw [NvdsM.andThen, hput]

/-- **No sector, and a single one that is empty.** Both partitions are initialised without a page in
use; the first put into the second one dereferences the null pointer. -/
theorem not_keepsPage :
    ¬KeepsPage steadyRom nvdsFlashInternalAddr 0 erasedDev ∧
      ∃ env₀, nvdsFlashEnvInit steadyRom nvdsFlashInternalAddr spiFlashSecSize erasedDev =
          some (.ok (), env₀) ∧ env₀.pageUsed = [] ∧
        nvdsDataPut steadyRom none (some keyA) (some [0x2A]) env₀ = none := by
  constructor
  · intro hkeeps
    obtain ⟨env₀, hinit, hused⟩ := @exists_no_page steadyRom nvdsFlashInternalAddr 0 erasedDev
      (by decide) (by
        rintro (⟨k, hk, -⟩ | ⟨h2, -⟩)
        · exact absurd hk (Nat.not_lt_zero k)
        · exact absurd h2 (by decide))
    exact (hkeeps env₀ hinit [] env₀ (by simp) rfl).1 hused
  · have hblank : headerUnsound
        (headerAt steadyRom nvdsFlashInternalAddr spiFlashSecSize erasedDev 0) = true := by
      decide +kernel
    obtain ⟨env₀, hinit, hused⟩ := @exists_no_page steadyRom nvdsFlashInternalAddr spiFlashSecSize
      erasedDev (by decide) (by
        rintro (⟨k, hk, hsound⟩ | ⟨h2, -⟩)
        · obtain rfl : k = 0 := by
            rw [Nat.div_self (by decide)] at hk
            omega
          rw [hblank] at hsound
          cases hsound
        · rw [Nat.div_self (by decide)] at h2
          omega)
    exact ⟨env₀, hinit, hused, nvdsDataPut_of_no_page hused (by decide) (by decide) (by decide)⟩

end Gd32.Nvds
