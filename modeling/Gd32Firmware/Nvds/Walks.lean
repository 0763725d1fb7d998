import Gd32Firmware.Nvds.FindKeys
import Gd32Firmware.Nvds.Images

/-!
# Where the walks go

`element_find`, `nvds_find_keys_by_namespace` and `nvds_del_keys_by_namespace` walk the entries of a
page in the same way: from an entry that is not free to the one behind the entries that its type
and its length say belong to it. The index is a `uint8_t` and the length is whatever the flash
holds, so the index may wrap; `pages_load`, which walks with an index of 32 bits, ends and does not
look at the length of an entry that has been given up.

On a loaded partition every walk goes forward, and so ends, exactly if no length leads beyond the
256 values of the index (`walks_advance_iff`). The scan of
`nvds_del_keys_by_namespace` gives entries up as it goes. It goes forward if this also holds of the
entries that belong to an element in use.
-/

namespace Gd32.Nvds

open NorFlash LittleEndian List NvdsM

/-! ### One step of a walk -/

section Step

variable (rom : NvdsRom)

/-- Where a walk goes from index `i` of page `k`, if it goes on. -/
def nextEntry (env : FlashEnv) (k i : ℕ) : Option ℕ :=
  if entryCountPerPage ≤ i then none
  else
    match entryStateGet (env.pages k).entryStates i with
    | .error _ => none
    | .ok .free => none
    | .ok _ =>
      match entryRead rom env k i with
      | .error _ => none
      | .ok entry => some (u8 (i + 1 + Entry.dataCnt entry))

/-- The sum of the index and of what the length adds to it stays below 256, whole turns of the
index apart. -/
def Fits (i : ℕ) (entry : Entry) : Prop := i + 1 + Entry.dataCnt entry % 256 < 256

instance (i : ℕ) (entry : Entry) : Decidable (Fits i entry) :=
  inferInstanceAs (Decidable (_ < _))

/-- An entry that cannot be read leads nowhere. -/
def FitsAt (env : FlashEnv) (k i : ℕ) : Prop :=
  match entryRead rom env k i with
  | .error _ => True
  | .ok entry => Fits i entry

instance (env : FlashEnv) (k i : ℕ) : Decidable (FitsAt rom env k i) :=
  match h : entryRead rom env k i with
  | .error _ => .isTrue (by rw [FitsAt, h]; trivial)
  | .ok entry => decidable_of_iff (Fits i entry) (by rw [FitsAt, h])

/-- The lengths of all entries that are not free fit, on the pages that are searched. -/
def LengthsFit (env : FlashEnv) : Prop :=
  ∀ k ∈ env.pageUsed, pageSearched (env.pages k) = true → ∀ i < entryCountPerPage,
    stateAt (env.pages k).entryStates i ≠ .free → FitsAt rom env k i

instance (env : FlashEnv) : Decidable (LengthsFit rom env) :=
  inferInstanceAs (Decidable (∀ k ∈ env.pageUsed, _ → ∀ i < entryCountPerPage, _ → _))

/-- The walks over the environment as it is: they go forward, and they end. -/
structure WalksAdvance (env : FlashEnv) : Prop where
  advances : ∀ k ∈ env.pageUsed, pageSearched (env.pages k) = true → ∀ i j,
    nextEntry rom env k i = some j → i < j
  finds : ∀ ns key pageStart start type, elementFind rom env ns key pageStart start type ≠ none
  lists : ∀ name cb, nvdsFindKeysByNamespace rom name cb env ≠ none

variable {rom} {env : FlashEnv} {k i : ℕ}

/-- A step forward. -/
theorem lt_next_iff (i : ℕ) (entry : Entry) :
    i < u8 (i + 1 + Entry.dataCnt entry) ↔ Fits i entry := by
  rw [Fits, u8]
  omega

/-- A walk goes on from the entries that are not free and can be read. -/
theorem nextEntry_eq_some {j : ℕ} :
    nextEntry rom env k i = some j ↔ i < entryCountPerPage ∧
      stateAt (env.pages k).entryStates i ≠ .free ∧
        ∃ entry, entryRead rom env k i = .ok entry ∧ j = u8 (i + 1 + Entry.dataCnt entry) := by
  rw [nextEntry]
  by_cases hi : entryCountPerPage ≤ i
  · rw [if_pos hi]
    exact iff_of_false (by simp) fun h => absurd h.1 (by omega)
  rw [if_neg hi, entryStateGet, if_neg hi]
  have hlt : i < entryCountPerPage := by omega
  cases hs : stateAt (env.pages k).entryStates i <;>
    rcases hr : entryRead rom env k i with e | entry <;> simp [hlt, eq_comm]

/-- **The steps go forward exactly if the lengths fit.** -/
theorem advances_iff :
    (∀ k ∈ env.pageUsed, pageSearched (env.pages k) = true → ∀ i j,
      nextEntry rom env k i = some j → i < j) ↔ LengthsFit rom env := by
  constructor
  · intro hall k hk hs i hi hstate
    rw [FitsAt]
    rcases hr : entryRead rom env k i with e | entry
    · trivial
    · exact (lt_next_iff _ entry).mp
        (hall k hk hs i _ (nextEntry_eq_some.mpr ⟨hi, hstate, entry, hr, rfl⟩))
  · intro hfit k hk hs i j hnext
    obtain ⟨hi, hstate, entry, hr, rfl⟩ := nextEntry_eq_some.mp hnext
    have hat := hfit k hk hs i hi hstate
    rw [FitsAt, hr] at hat
    exact (lt_next_iff _ entry).mpr hat

end Step

/-! ### The walks that leave the environment alone -/

section Ends

variable {rom : NvdsRom} {env : FlashEnv} {k : ℕ}

/-- A round of `element_find`: the walk ends, or finds what it looks for, or goes on. -/
theorem entryWalk_round (ns : ℕ) (key : CString) (type : ElementType) (n i : ℕ) :
    (∃ r, entryWalk rom env k ns key type (n + 1) i = some r) ∨
      ∃ j, nextEntry rom env k i = some j ∧
        entryWalk rom env k ns key type (n + 1) i = entryWalk rom env k ns key type n j := by
  rw [entryWalk, nextEntry]
  split
  · exact Or.inl ⟨_, rfl⟩
  rcases entryStateGet (env.pages k).entryStates i with e | state
  · exact Or.inl ⟨_, rfl⟩
  rcases hr : entryRead rom env k i with e | entry
  · cases state <;> exact Or.inl ⟨_, rfl⟩
  · cases state with
    | free => exact Or.inl ⟨_, rfl⟩
    | used =>
      simp only [true_and]
      split
      · exact Or.inl ⟨_, rfl⟩
      · exact Or.inr ⟨_, rfl, rfl⟩
    | updated => exact Or.inr ⟨_, rfl, by simp⟩
    | illegal => exact Or.inr ⟨_, rfl, by simp⟩

/-- A round of `nvds_find_keys_by_namespace`. -/
theorem findKeysWalk_round (ns n i : ℕ) :
    (∃ r, findKeysWalk rom env ns k (n + 1) i = some r) ∨
      ∃ j f, nextEntry rom env k i = some j ∧
        findKeysWalk rom env ns k (n + 1) i = (findKeysWalk rom env ns k n j).map f := by
  rw [findKeysWalk, nextEntry]
  split
  · exact Or.inl ⟨_, rfl⟩
  rcases entryStateGet (env.pages k).entryStates i with e | state
  · exact Or.inl ⟨_, rfl⟩
  rcases hr : entryRead rom env k i with e | entry
  · cases state <;> exact Or.inl ⟨_, rfl⟩
  · cases state with
    | free => exact Or.inl ⟨_, rfl⟩
    | used => exact Or.inr ⟨_, _, rfl, rfl⟩
    | updated => exact Or.inr ⟨_, _, rfl, rfl⟩
    | illegal => exact Or.inr ⟨_, _, rfl, rfl⟩

variable (hadv : ∀ i j, nextEntry rom env k i = some j → i < j)
include hadv

/-- A walk that goes forward has ended after 126 steps. -/
theorem entryWalk_ends (ns : ℕ) (key : CString) (type : ElementType) {n i : ℕ}
    (hi : entryCountPerPage ≤ i + n) : entryWalk rom env k ns key type (n + 1) i ≠ none := by
  induction n generalizing i with
  | zero =>
    rw [entryWalk, if_pos (by omega)]
    simp
  | succ n ih =>
    rcases entryWalk_round ns key type (n + 1) i with ⟨r, hr⟩ | ⟨j, hnext, hr⟩
    · rw [hr]
      simp
    · have hlt := hadv i j hnext
      rw [hr]
      exact ih (by omega)

theorem findKeysWalk_ends (ns : ℕ) {n i : ℕ} (hi : entryCountPerPage ≤ i + n) :
    findKeysWalk rom env ns k (n + 1) i ≠ none := by
  induction n generalizing i with
  | zero =>
    rw [findKeysWalk, if_pos (by omega)]
    simp
  | succ n ih =>
    rcases findKeysWalk_round ns (n + 1) i with ⟨r, hr⟩ | ⟨j, f, hnext, hr⟩
    · rw [hr]
      simp
    · have hlt := hadv i j hnext
      rw [hr, Ne, Option.map_eq_none_iff]
      exact ih (by omega)

end Ends

section Searches

variable {rom : NvdsRom} {env : FlashEnv}
  (hadv : ∀ k ∈ env.pageUsed, pageSearched (env.pages k) = true → ∀ i j,
    nextEntry rom env k i = some j → i < j)
include hadv

theorem pageWalk_ends (ns : ℕ) (key : CString) (type : ElementType) {ks : List ℕ}
    (hks : ∀ k ∈ ks, k ∈ env.pageUsed) (start : ℕ) :
    pageWalk rom env ns key type ks start ≠ none := by
  induction ks generalizing start with
  | nil => simp [pageWalk]
  | cons k ks ih =>
    have hrest := ih fun j hj => hks j (mem_cons_of_mem _ hj)
    rw [pageWalk]
    by_cases hs : pageSearched (env.pages k) = true
    · rw [if_pos hs]
      have hwalk := entryWalk_ends (hadv k (hks k mem_cons_self) hs) ns key type
        (show entryCountPerPage ≤ start + 255 by simp only [entryCountPerPage]; omega)
      rcases hw : entryWalk rom env k ns key type 256 start with _ | (e | (_ | idx))
      · exact absurd hw hwalk
      · simp
      · exact hrest 0
      · simp
    · rw [if_neg hs]
      exact hrest start

theorem elementFind_ends (ns : ℕ) (key : CString) (pageStart : Option ℕ) (start : ℕ)
    (type : ElementType) : elementFind rom env ns key pageStart start type ≠ none := by
  cases pageStart with
  | none => exact pageWalk_ends hadv ns key type (fun k hk => hk) start
  | some p =>
    unfold elementFind
    simp only
    rcases hd : env.pageUsed.dropWhile (· ≠ p) with _ | ⟨k, ks⟩
    · exact pageWalk_ends hadv ns key type (fun k hk => hk) start
    · refine pageWalk_ends hadv ns key type (fun j hj => ?_) start
      rw [← hd] at hj
      exact (dropWhile_sublist _).subset hj

theorem findKeysPages_ends (ns : ℕ) {ks : List ℕ} (hks : ∀ k ∈ ks, k ∈ env.pageUsed) :
    findKeysPages rom env ns ks ≠ none := by
  induction ks with
  | nil => simp [findKeysPages]
  | cons k ks ih =>
    have hrest := ih fun j hj => hks j (mem_cons_of_mem _ hj)
    rw [findKeysPages]
    by_cases hs : pageSearched (env.pages k) = true
    · rw [if_pos hs]
      have hwalk : findKeysWalk rom env ns k 256 0 ≠ none :=
        findKeysWalk_ends (hadv k (hks k mem_cons_self) hs) ns (by decide)
      rcases hw : findKeysWalk rom env ns k 256 0 with _ | ⟨found, e | _⟩
      · exact absurd hw hwalk
      · simp
      · simpa using hrest
    · rw [if_neg hs]
      exact hrest

theorem nvdsFindKeysByNamespace_ends (name : Option CString) (cb : Bool) :
    nvdsFindKeysByNamespace rom name cb env ≠ none := by
  obtain ⟨r, hr⟩ : ∃ r, nsIndexByNamespace rom name false env = some (r, env) := by
    cases name with
    | none => exact ⟨_, rfl⟩
    | some c =>
      by_cases hlen : c.len ≤ keyNameMaxSize - 1
      · have hc : c.len < keyNameMaxSize := by
          simp only [keyNameMaxSize] at hlen ⊢
          omega
        rcases hi : nsIndex (nsIds env.nsList) (some c) with _ | i
        · exact ⟨_, nsIndexByNamespace_none rom hc hi false⟩
        · exact ⟨_, nsIndexByNamespace_some rom (fun d hd => Option.some.inj hd ▸ hc) hi false⟩
      · exact ⟨_, check_bind_false (decide_eq_false hlen) _ _ _⟩
  rcases r with e | i
  · rw [nvdsFindKeysByNamespace, bind_error hr]
    simp
  · rw [nvdsFindKeysByNamespace, bind_ok hr, NvdsM.search]
    simpa using findKeysPages_ends hadv i fun k hk => hk

end Searches

/-- **The walks of `element_find` and `nvds_find_keys_by_namespace` go forward and end exactly if
the lengths fit.** -/
theorem walksAdvance_iff {rom : NvdsRom} {env : FlashEnv} :
    WalksAdvance rom env ↔ LengthsFit rom env := by
  rw [← advances_iff]
  exact ⟨fun h => h.advances, fun h => ⟨h, elementFind_ends h, nvdsFindKeysByNamespace_ends h⟩⟩

/-! ### The scan that gives entries up -/

section Rounds

variable (rom : NvdsRom)

/-- A round of `nvds_del_keys_by_namespace`: where the walk goes, if it goes on. -/
def delKeysRound (idx k i : ℕ) (p : NsPtr) : NvdsM (Option (ℕ × NsPtr)) :=
  if entryCountPerPage ≤ i then pure none
  else do
    let state ← NvdsM.look fun env => entryStateGet (env.pages k).entryStates i
    if state = .free then pure none
    else do
      let entry ← NvdsM.look fun env => entryRead rom env k i
      if state = .used ∧ idx = Entry.ns entry then do
        delEntry rom k i entry
        let p ← nsLowerPtr rom p
        pure (some (u8 (i + 1 + Entry.dataCnt entry), p))
      else pure (some (u8 (i + 1 + Entry.dataCnt entry), p))

/-- Where a scan for the namespace of a record may be: the environment, the pointer to the record,
the pages that are left, the present one first, and the index. -/
inductive Scanning (ns : NamespaceInfo) (env₀ : FlashEnv) : FlashEnv → NsPtr → List ℕ → ℕ → Prop
  | start : Scanning ns env₀ env₀ ⟨some ns, []⟩ env₀.pageUsed 0
  /-- After a round on a page that is searched. -/
  | round {env env' : FlashEnv} {p p' : NsPtr} {k : ℕ} {ks : List ℕ} {i j : ℕ}
      (before : Scanning ns env₀ env p (k :: ks) i) (searched : pageSearched (env.pages k) = true)
      (run : delKeysRound rom ns.index k i p env = some (.ok (some (j, p')), env')) :
      Scanning ns env₀ env' p' (k :: ks) j
  /-- On the next page, the last one being at its end or not searched. -/
  | next {env : FlashEnv} {p : NsPtr} {k : ℕ} {ks : List ℕ} {i : ℕ}
      (before : Scanning ns env₀ env p (k :: ks) i)
      (ended : pageSearched (env.pages k) = false ∨
        delKeysRound rom ns.index k i p env = some (.ok none, env)) :
      Scanning ns env₀ env p ks 0

/-- The scans of `nvds_del_keys_by_namespace` go forward in every round. -/
def DelKeysAdvances (env₀ : FlashEnv) : Prop :=
  ∀ ns ∈ env₀.nsList, ∀ env p k ks i, Scanning rom ns env₀ env p (k :: ks) i →
    pageSearched (env.pages k) = true →
      ∀ j p' env', delKeysRound rom ns.index k i p env = some (.ok (some (j, p')), env') → i < j

/-- The entry with index `i` belongs to the element in use whose header has index `h`. -/
def CoveredBy (env : FlashEnv) (k h i : ℕ) : Prop :=
  h < entryCountPerPage ∧ stateAt (env.pages k).entryStates h = .used ∧ h ≤ i ∧
    ∃ entry, entryRead rom env k h = .ok entry ∧ i ≤ h + Entry.dataCnt entry

/-- The lengths of all entries that belong to an element in use fit. -/
def CoveredFit (env : FlashEnv) : Prop :=
  ∀ k ∈ env.pageUsed, pageSearched (env.pages k) = true → ∀ h i, i < entryCountPerPage →
    CoveredBy rom env k h i → FitsAt rom env k i

end Rounds

/-! ### What giving up leaves as it was -/

/-- From `env₀` to `env` entries have at most been given up, and only entries that belonged to an
element in use. -/
structure Aged (rom : NvdsRom) (env₀ env : FlashEnv) : Prop where
  inPlace : InPlace env
  base : env.baseAddr = env₀.baseAddr
  length : env.length = env₀.length
  used : env.pageUsed = env₀.pageUsed
  header : ∀ k, (env.pages k).header = (env₀.pages k).header
  reads : ∀ k, ∀ i < entryCountPerPage, entryRead rom env k i = entryRead rom env₀ k i
  states : ∀ k, ∀ i < entryCountPerPage,
    stateAt (env.pages k).entryStates i = stateAt (env₀.pages k).entryStates i ∨
      stateAt (env.pages k).entryStates i = .updated ∧ ∃ h, CoveredBy rom env₀ k h i

section Aged

variable {rom : NvdsRom} {env₀ env env' : FlashEnv}

theorem Aged.refl (h : InPlace env) : Aged rom env env :=
  ⟨h, rfl, rfl, rfl, fun _ => rfl, fun _ _ _ => rfl, fun _ _ _ => Or.inl rfl⟩

/-- An element in use was in use before. -/
theorem CoveredBy.before (ha : Aged rom env₀ env) {k h i : ℕ} (hc : CoveredBy rom env k h i) :
    CoveredBy rom env₀ k h i := by
  obtain ⟨hlt, hstate, hle, entry, hread, hi⟩ := hc
  refine ⟨hlt, ?_, hle, entry, by rw [← ha.reads k h hlt]; exact hread, hi⟩
  rcases ha.states k h hlt with heq | ⟨hup, -⟩
  · rw [← heq, hstate]
  · rw [hup] at hstate
    cases hstate

theorem Aged.trans (h : Aged rom env₀ env) (h' : Aged rom env env') : Aged rom env₀ env' where
  inPlace := h'.inPlace
  base := h'.base.trans h.base
  length := h'.length.trans h.length
  used := h'.used.trans h.used
  header k := (h'.header k).trans (h.header k)
  reads k i hi := (h'.reads k i hi).trans (h.reads k i hi)
  states k i hi := by
    rcases h'.states k i hi with heq | ⟨hup, g, hcov⟩
    · rw [heq]
      exact h.states k i hi
    · exact Or.inr ⟨hup, g, hcov.before h⟩

/-- Changes of the environment that neither the entries nor their states see. -/
theorem Aged.of_pages (h : Aged rom env₀ env) (hbase : env'.baseAddr = env.baseAddr)
    (hlen : env'.length = env.length) (hused : env'.pageUsed = env.pageUsed)
    (hdev : env'.dev = env.dev) (hpages : ∀ k, (env'.pages k).baseAddr = (env.pages k).baseAddr ∧
      (env'.pages k).header = (env.pages k).header ∧
        (env'.pages k).entryStates = (env.pages k).entryStates) : Aged rom env₀ env' := by
  refine h.trans ⟨⟨fun k => ?_, fun k => ?_⟩, hbase, hlen, hused, fun k => (hpages k).2.1,
    fun k i _ => ?_, fun k i _ => Or.inl (by rw [(hpages k).2.2])⟩
  · rw [(hpages k).1, h.inPlace.base]
  · rw [(hpages k).2.2, h.inPlace.table]
  · rw [entryRead, entryRead, (hpages k).1, nvdsFlashRead, nvdsFlashRead, hlen, hbase, hdev,
      FlashEnv.flash, FlashEnv.flash, hdev]

variable (hreads : ∀ ps a n, rom.readRc ps a n = 0)

include hreads in
/-- Writing a table leaves the entries alone. -/
theorem aged_tableWrite (h : InPlace env) (k : ℕ) {states : StateTable}
    (hlen : states.length = 8) :
    NvdsM.Leaves (Aged rom env) env
      (entryStatesTableWrite rom (env.pages k).baseAddr states) := by
  rintro r env' hrun
  rw [entryStatesTableWrite, nvdsFlashWrite] at hrun
  split at hrun
  · obtain ⟨-, rfl⟩ := Prod.mk.inj (Option.some.inj hrun)
    exact Aged.refl h
  obtain ⟨-, rfl⟩ := Prod.mk.inj (Option.some.inj hrun)
  refine ⟨⟨h.base, h.table⟩, rfl, rfl, rfl, fun _ => rfl, fun j i hi => ?_, fun _ _ _ => Or.inl rfl⟩
  have hsize : (tableBytes states).length = 32 := by rw [length_tableBytes, hlen]
  simp only [entryCountPerPage] at hi
  rw [entryRead, entryRead, nvdsFlashRead, nvdsFlashRead, hreads, hreads]
  simp only [FlashEnv.flash, Rom.issue, h.base, spiFlashSecSize, pageEntryOffset, entrySize,
    pageEntryStatesOffset]
  split
  · rfl
  split
  · exact absurd rfl ‹_›
  split
  · -- the table and the entries of a page are apart
    rw [Prim.apply, read_program_of_disjoint]
    rw [hsize]
    omega
  · rfl

include hreads in
/-- Giving up an entry that belongs to an element in use. -/
theorem aged_entryStateAlter (ha : Aged rom env₀ env) {k idx : ℕ}
    (hcov : ∃ h, CoveredBy rom env₀ k h idx) :
    NvdsM.Leaves (Aged rom env₀) env (entryStateAlter rom k idx .updated) := by
  refine leaves_get (leaves_bind (leaves_look ha _)
    fun states env1 hlook ha1 => ?_)
  obtain ⟨hset, rfl⟩ := Prod.mk.inj (Option.some.inj hlook)
  rw [entryStateSet] at hset
  split at hset
  · cases hset
  next hidx =>
  rw [if_neg (by simp)] at hset
  obtain rfl := Except.ok.inj hset
  simp only [entryCountPerPage] at hidx
  have hlen := ha.inPlace.table k
  -- the table in memory
  refine leaves_bind (Q := Aged rom env₀) (leaves_modify ?_) fun _ env2 hmod ha2 => ?_
  · refine ⟨ha.inPlace.setPage (ha.inPlace.base k) (by rw [length_setState]; exact hlen), ha.base,
      ha.length, ha.used, fun j => ?_, fun j i hi => ?_, fun j i hi => ?_⟩
    · rcases eq_or_ne j k with rfl | hj
      · simpa [FlashEnv.setPage] using ha.header j
      · simpa [FlashEnv.setPage, hj] using ha.header j
    · rw [← ha.reads j i hi]
      rcases eq_or_ne j k with rfl | hj <;>
        simp [entryRead, nvdsFlashRead, FlashEnv.setPage, FlashEnv.flash, *]
    · by_cases hji : j = k ∧ i = idx
      · obtain ⟨rfl, rfl⟩ := hji
        refine Or.inr ⟨?_, hcov⟩
        simpa [FlashEnv.setPage] using stateAt_setState_self hlen (by omega) .updated
      · have hsame : stateAt ((env.setPage k { env.pages k with
            entryStates := setState (env.pages k).entryStates idx .updated }).pages j).entryStates i =
              stateAt (env.pages j).entryStates i := by
          rcases eq_or_ne j k with rfl | hj
          · have hne : i ≠ idx := fun h => hji ⟨rfl, h⟩
            simpa [FlashEnv.setPage] using stateAt_setState_of_ne hlen (by omega) .updated hne
          · simp [FlashEnv.setPage, hj]
        rw [hsame]
        exact ha.states j i hi
  · -- the table in flash
    obtain ⟨-, rfl⟩ := Prod.mk.inj (Option.some.inj hmod)
    have hwrite := aged_tableWrite hreads ha2.inPlace k
      (show (setState (env.pages k).entryStates idx .updated).length = 8 by
        rw [length_setState]
        exact hlen)
    have hbase : ((env.setPage k { env.pages k with
        entryStates := setState (env.pages k).entryStates idx .updated }).pages k).baseAddr =
          (env.pages k).baseAddr := by simp [FlashEnv.setPage]
    rw [hbase] at hwrite
    exact fun r env' hrun => ha2.trans (hwrite r env' hrun)

include hreads in
/-- Giving up an element: the entries of its range belong to it. -/
theorem aged_elementDrop (ha : Aged rom env₀ env) {k idx cnt : ℕ}
    (hcov : CoveredBy rom env k idx (idx + cnt)) :
    NvdsM.Leaves (Aged rom env₀) env (elementDrop rom k idx cnt) := by
  have hcov₀ := hcov.before ha
  refine leaves_bind (leaves_bind (leaves_check ha _ _) fun _ env1 hcheck ha1 =>
    leaves_forEach (fun x hx env hq => aged_entryStateAlter hreads hq ⟨idx, ?_⟩) ha1)
    fun _ env2 _ ha2 => leaves_modify (ha2.of_pages rfl rfl rfl rfl fun j => ?_)
  · -- an entry of the range
    obtain ⟨hlt, hstate, -, entry, hread, hle⟩ := hcov₀
    rw [mem_range'_1] at hx
    have hu8 : u8 (idx + cnt) ≤ idx + cnt := Nat.mod_le _ _
    exact ⟨hlt, hstate, hx.1, entry, hread, by omega⟩
  · rcases eq_or_ne j k with rfl | hj
    · simp [FlashEnv.setPage, subUsed]
    · simp [FlashEnv.setPage, hj]

/-- The range of an element that has been found. -/
theorem covered_of_read {k idx cnt : ℕ} {entry : Entry} (hlt : idx < entryCountPerPage)
    (hstate : stateAt (env.pages k).entryStates idx = .used)
    (hread : entryRead rom env k idx = .ok entry) (hcnt : cnt ≤ Entry.dataCnt entry) :
    CoveredBy rom env k idx (idx + cnt) :=
  ⟨hlt, hstate, Nat.le_add_right _ _, entry, hread, by omega⟩

include hreads in
theorem aged_bulkFragsDel (ha : Aged rom env₀ env) (ns : ℕ) (key : CString) (n : ℕ)
    (pageStart : Option ℕ) (start : ℕ) :
    NvdsM.Leaves (Aged rom env₀) env (bulkFragsDel rom ns key n pageStart start) := by
  induction n generalizing env pageStart start with
  | zero => exact leaves_none _ rfl
  | succ n ih =>
    refine leaves_bind (leaves_attempt (leaves_search ha _))
      fun found env1 hfound ha1 => ?_
    obtain ⟨hfind, rfl⟩ := search_run (attempt_run hfound)
    rcases found with e | ⟨k, idx⟩
    · cases e <;> first | exact leaves_pure ha1 () | exact leaves_throw ha1 _
    obtain ⟨hlt, hstate, entry, hread, hhit⟩ := elementFind_found hfind
    refine leaves_bind (leaves_look ha1 _) fun entry' env2 hlook ha2 => ?_
    obtain ⟨hread', rfl⟩ := look_run hlook
    obtain rfl : entry = entry' := Except.ok.inj (hread.symm.trans hread')
    have htype : Entry.type entry = .bulk := by
      simp only [elementHit, Bool.and_eq_true, Bool.or_eq_true, decide_eq_true_eq, reduceCtorEq,
        false_or] at hhit
      exact hhit.1.2
    exact leaves_bind (aged_elementDrop hreads ha2 (covered_of_read hlt hstate hread
      (by rw [Entry.dataCnt, htype]))) fun _ _ _ ha3 => ih ha3 _ _

include hreads in
theorem aged_bulkElementDel (ha : Aged rom env₀ env) (ns : ℕ) (key : CString) :
    NvdsM.Leaves (Aged rom env₀) env (bulkElementDel rom ns key) := by
  refine leaves_bind (leaves_attempt (leaves_search ha _))
    fun found env1 hfound ha1 => ?_
  obtain ⟨hfind, rfl⟩ := search_run (attempt_run hfound)
  rcases found with e | ⟨k, idx⟩
  · cases e <;> first | exact leaves_pure ha1 () | exact leaves_throw ha1 _
  obtain ⟨hlt, hstate, entry, hread, -⟩ := elementFind_found hfind
  exact leaves_bind (aged_elementDrop hreads ha1 (covered_of_read hlt hstate hread
    (Nat.zero_le _))) fun _ _ _ ha2 => leaves_get (aged_bulkFragsDel hreads ha2 _ _ _ _ _)

include hreads in
theorem aged_dataElementDel (ha : Aged rom env₀ env) (ns : ℕ) (key : CString) :
    NvdsM.Leaves (Aged rom env₀) env (dataElementDel rom ns key) := by
  refine leaves_bind (leaves_search ha _) fun found env1 hfound ha1 => ?_
  obtain ⟨hfind, rfl⟩ := search_run hfound
  obtain ⟨hlt, hstate, entry, hread, -⟩ := elementFind_found hfind
  refine leaves_bind (leaves_look ha1 _) fun entry' env2 hlook ha2 => ?_
  obtain ⟨hread', rfl⟩ := look_run hlook
  obtain rfl : entry = entry' := Except.ok.inj (hread.symm.trans hread')
  have hdrop : ∀ cnt ≤ Entry.dataCnt entry,
      NvdsM.Leaves (Aged rom env₀) env2 (elementDrop rom found.1 found.2 cnt) := fun cnt hcnt =>
    aged_elementDrop hreads ha2 (covered_of_read hlt hstate hread hcnt)
  split
  · exact aged_bulkElementDel hreads ha2 ns key
  · exact aged_bulkElementDel hreads ha2 ns key
  · exact hdrop 0 (Nat.zero_le _)
  next htype => exact hdrop _ (by rw [Entry.dataCnt, htype])
  · exact leaves_throw ha2 _

include hreads in
theorem aged_nsLowerPtr (ha : Aged rom env₀ env) (p : NsPtr) :
    NvdsM.Leaves (Aged rom env₀) env (nsLowerPtr rom p) := by
  obtain ⟨_ | ns, uses⟩ := p
  · exact leaves_none _ rfl
  refine leaves_bind
    (leaves_modify (ha.of_pages rfl rfl rfl rfl fun _ => ⟨rfl, rfl, rfl⟩))
    fun _ _ _ ha1 => ?_
  simp only
  split
  · exact leaves_bind (leaves_bind
      (leaves_modify (ha1.of_pages rfl rfl rfl rfl fun _ => ⟨rfl, rfl, rfl⟩))
      fun _ _ _ ha2 => aged_dataElementDel hreads ha2 _ _) fun _ _ _ ha3 => leaves_pure ha3 _
  · exact leaves_pure ha1 _

include hreads in
/-- **A round of the scan** gives up entries of one element of the page, and of the definition of
the namespace. -/
theorem aged_delKeysRound (ha : Aged rom env₀ env) (idx k i : ℕ) (p : NsPtr) :
    NvdsM.Leaves (Aged rom env₀) env (delKeysRound rom idx k i p) := by
  rw [delKeysRound]
  split
  · exact leaves_pure ha _
  next hi =>
  refine leaves_bind (leaves_look ha _) fun state env1 hlook ha1 => ?_
  obtain ⟨hget, rfl⟩ := look_run hlook
  rw [entryStateGet, if_neg hi] at hget
  obtain rfl := Except.ok.inj hget
  split
  · exact leaves_pure ha1 _
  refine leaves_bind (leaves_look ha1 _) fun entry env2 hlook ha2 => ?_
  obtain ⟨hread, rfl⟩ := look_run hlook
  split
  next hns =>
    refine leaves_bind ?_ fun _ _ _ ha3 => leaves_bind (aged_nsLowerPtr hreads ha3 p)
      fun _ _ _ ha4 => leaves_pure ha4 _
    have hdrop : ∀ cnt ≤ Entry.dataCnt entry,
        NvdsM.Leaves (Aged rom env₀) env2 (elementDrop rom k i cnt) := fun cnt hcnt =>
      aged_elementDrop hreads ha2 (covered_of_read (by omega) hns.1 hread hcnt)
    rw [delEntry]
    split
    · exact hdrop 0 (Nat.zero_le _)
    · exact hdrop 0 (Nat.zero_le _)
    next htype => exact hdrop _ (by rw [Entry.dataCnt, htype])
    next htype => exact hdrop _ (by rw [Entry.dataCnt, htype])
    · exact leaves_pure ha2 _
  · exact leaves_pure ha2 _

end Aged

section Scan

variable {rom : NvdsRom} {env₀ env env' : FlashEnv} {ns : NamespaceInfo}
  {p p' : NsPtr} {ks : List ℕ} {k i j : ℕ}

/-- A round that goes on makes a step of the walk. -/
theorem delKeysRound_next {idx : ℕ}
    (h : delKeysRound rom idx k i p env = some (.ok (some (j, p')), env')) :
    nextEntry rom env k i = some j := by
  rw [delKeysRound] at h
  split at h
  · cases h
  next hi =>
  obtain ⟨state, env1, hlook, h⟩ := run_of_bind h
  obtain ⟨hget, rfl⟩ := look_run hlook
  rw [entryStateGet, if_neg hi] at hget
  obtain rfl := Except.ok.inj hget
  split at h
  · cases h
  next hfree =>
  obtain ⟨entry, env2, hlook, h⟩ := run_of_bind h
  obtain ⟨hread, rfl⟩ := look_run hlook
  refine nextEntry_eq_some.mpr ⟨by omega, hfree, entry, hread, ?_⟩
  split at h
  · obtain ⟨-, env3, -, h⟩ := run_of_bind h
    obtain ⟨p'', env4, -, h⟩ := run_of_bind h
    obtain ⟨hr, -⟩ := Prod.mk.inj (Option.some.inj h)
    exact (Prod.mk.inj (Option.some.inj (Except.ok.inj hr))).1.symm
  · obtain ⟨hr, -⟩ := Prod.mk.inj (Option.some.inj h)
    exact (Prod.mk.inj (Option.some.inj (Except.ok.inj hr))).1.symm

variable (hreads : ∀ ps a n, rom.readRc ps a n = 0)
include hreads

/-- Wherever a scan is, entries have at most been given up since its start. -/
theorem Scanning.aged (h₀ : InPlace env₀) (h : Scanning rom ns env₀ env p ks i) :
    Aged rom env₀ env ∧ ∀ k ∈ ks, k ∈ env₀.pageUsed := by
  induction h with
  | start => exact ⟨Aged.refl h₀, fun k hk => hk⟩
  | round _ _ run ih => exact ⟨aged_delKeysRound hreads ih.1 _ _ _ _ _ _ run, ih.2⟩
  | next _ _ ih => exact ⟨ih.1, fun k hk => ih.2 k (mem_cons_of_mem _ hk)⟩

/-- **A scan goes forward** if the lengths of the entries it can meet fit. -/
theorem delKeysAdvances_of_fit (h₀ : InPlace env₀) (hfit : LengthsFit rom env₀)
    (hcov : CoveredFit rom env₀) : DelKeysAdvances rom env₀ := by
  intro ns _ env p k ks i hscan hsearched j p' env' hround
  obtain ⟨haged, hused⟩ := hscan.aged hreads h₀
  have hk := hused k mem_cons_self
  obtain ⟨hi, hstate, entry, hread, rfl⟩ := nextEntry_eq_some.mp (delKeysRound_next hround)
  have hsearched₀ : pageSearched (env₀.pages k) = true := by
    rw [pageSearched, ← haged.header k]
    exact hsearched
  have hat : FitsAt rom env₀ k i := by
    rcases haged.states k i hi with heq | ⟨-, h, hc⟩
    · exact hfit k hk hsearched₀ i hi (by rw [← heq]; exact hstate)
    · -- the entry has been given up by the scan
      exact hcov k hk hsearched₀ h i hi hc
  rw [FitsAt, ← haged.reads k i hi, hread] at hat
  exact (lt_next_iff _ entry).mpr hat

end Scan

/-- A page whose first entry has been given up, the header of a middle element of the given
length in the namespace with index 1. -/
def givenUpPage (len : ℕ) : List UInt8 :=
  (pageHeader pageActive 0).encode ++
    (tableBytes (setState blankTable 0 .updated) ++
      newEntry (tagSet 1 .middle tagFragNoDefault) len keyA (infoVal 0))

/-- A device that holds the page at the start of the internal partition. -/
def givenUpDev (len : ℕ) : Dev :=
  ⟨fun a => (givenUpPage len).getD (a - nvdsFlashInternalAddr) blank, []⟩

/-- A partition of one sector is loaded from the device. -/
def givenUpLoad (len : ℕ) : Option (Except NvdsErr Unit × FlashEnv) :=
  nvdsFlashEnvInit steadyRom nvdsFlashInternalAddr spiFlashSecSize (givenUpDev len)

theorem givenUpLoad_checks :
    (match givenUpLoad 32 with
      | some (.ok (), env) => decide (LengthsFit steadyRom env)
      | _ => false) = true ∧
    (match givenUpLoad 8160 with
      | some (.ok (), env) => (elementFind steadyRom env 1 keyA none 0 .any).isNone
      | _ => false) = true := by
  decide +kernel

end Gd32.Nvds
