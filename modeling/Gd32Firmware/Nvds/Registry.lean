import Gd32Firmware.Nvds.Types
import Gd32Firmware.Util.Slist

/-!
# The registry of partitions

`nvds_flash_list` links the environments of the partitions in use. The internal partition lives
in the static `nvds_flash_env` and is registered first; the others are allocated by
`nvds_flash_init` and released by `nvds_flash_deinit`. The list cell is the first field of the
environment, so `nvds_clean`, which clears the static environment with `memset` before loading it
again, also clears the link of a cell that is in the list.

The model is one of pointers: the registry is the two ends of the list, the links of the cells
and the fields of the environments. What it is compared with is `Registry.Live`, the
list of the partitions that are in use, in the order of their registration.
-/

namespace Gd32.Nvds

open Chain List Function
open Option hiding or_self

/-! ### The registry -/

/-- The fields of an environment that the registry looks at. -/
structure Partition where
  baseAddr : ℕ
  length : ℕ
  label : List UInt8

/-- The registry and the memory it runs over. -/
structure Registry where
  list : SList
  /-- The `list_hdr.next` fields. -/
  next : Links
  env : Ptr → Partition
  /-- The environments set up so far; a walk over more cells runs in a circle. -/
  cells : ℕ

/-- The address of the static `nvds_flash_env`. -/
def internalPtr : Ptr := 0

/-- `LABEL_INNER_NVDS_FLASH`, the string `inner_nvds`. -/
def labelInner : List UInt8 := [0x69, 0x6E, 0x6E, 0x65, 0x72, 0x5F, 0x6E, 0x76, 0x64, 0x73]

def labelNameMaxSize : ℕ := 32

/-- Two ranges are apart, as `flash_env_check` tests it, in arithmetic of `uint32_t`. -/
def rangesApart (start size : ℕ) (p : Partition) : Bool :=
  decide (u32 (start + size) < p.baseAddr) || decide (u32 (p.baseAddr + p.length) < start)

/-- `flash_env_check`: the range is apart from every registered partition. -/
def flashEnvCheck (r : Registry) (start size : ℕ) : Option Bool :=
  (scan r.next (fun p => !rangesApart start size (r.env p)) r.cells r.list.first).map (·.isNone)

/-- The search for a label in `nvds_clean`. -/
def findLabel (r : Registry) (label : List UInt8) : Option (Option Ptr) :=
  scan r.next (fun p => decide ((r.env p).label = label)) r.cells r.list.first

/-- `nvds_flash_env_init`: the fields are set, the pages are loaded and the environment is
registered. `loadOk` is whether `pages_load` finds the memory it needs. -/
def envInit (r : Registry) (p : Ptr) (start size : ℕ) (label : List UInt8) (loadOk : Bool) :
    Option (Bool × Registry) :=
  let r := { r with env := update r.env p ⟨start, size, label.take labelNameMaxSize⟩ }
  if size % spiFlashSecSize = 0 ∧ loadOk then
    (listPushBack r.list r.next p).map fun l => (true, { r with list := l.1, next := l.2 })
  else some (false, r)

/-- `memset` of an environment. -/
def envZero (r : Registry) (p : Ptr) : Registry :=
  { r with
    next := update r.next p none
    env := update r.env p ⟨0, 0, []⟩ }

/-- `nvds_flash_internal_init`, on the memory as the program starts. -/
def nvdsFlashInternalInit (loadOk : Bool) : Option (Bool × Registry) :=
  envInit ⟨listInit, fun _ => none, fun _ => ⟨0, 0, []⟩, 1⟩ internalPtr nvdsFlashInternalAddr
    nvdsFlashInternalSize labelInner loadOk

/-- `nvds_flash_init`. `mutexOk` and `block` are the answers of the mutex and of the
allocator; the result is the handle, `none` for the null pointer. -/
def nvdsFlashInit (start size : ℕ) (label : List UInt8) (mutexOk : Bool) (block : Option Ptr)
    (loadOk : Bool) (r : Registry) : Option (Option Ptr × Registry) :=
  (flashEnvCheck r start size).bind fun apart =>
    if apart ∧ mutexOk then
      match block with
      | none => some (none, r)
      | some p =>
        (envInit (envZero { r with cells := r.cells + 1 } p) p start size label loadOk).map
          fun res => (if res.1 then some p else none, res.2)
    else some (none, r)

/-- `nvds_flash_deinit`; the null handle does nothing. -/
def nvdsFlashDeinit (handle : Option Ptr) (r : Registry) : Option Registry :=
  match handle with
  | none => some r
  | some p =>
    (listExtract r.cells r.list r.next p).map fun l => { r with list := l.1, next := l.2 }

/-- `nvds_clean`. A null label is `none`; `eraseOk` is whether the erase succeeds. -/
def nvdsClean (label : Option (List UInt8)) (mutexOk eraseOk loadOk : Bool) (r : Registry) :
    Option (Except NvdsErr Unit × Registry) :=
  if mutexOk then
    (findLabel r (label.getD labelInner)).bind fun found =>
      match found with
      | none => some (.error .notFound, r)
      | some p =>
        if eraseOk then
          match label with
          | none =>
            (envInit (envZero r internalPtr) internalPtr nvdsFlashInternalAddr
              nvdsFlashInternalSize labelInner loadOk).map fun res => (.ok (), res.2)
          | some _ => (nvdsFlashDeinit (some p) r).map fun r => (.ok (), r)
        else some (.error .flashIoFail, r)
  else some (.error .fail, r)

/-! ### Runs -/

/-- One call, with the answers of the system. -/
inductive RegistryCall
  | init (start size : ℕ) (label : List UInt8) (mutexOk : Bool) (block : Option Ptr)
    (loadOk : Bool)
  | deinit (handle : Option Ptr)
  | clean (label : Option (List UInt8)) (mutexOk eraseOk loadOk : Bool)

/-- The registry together with the partitions in use, in the order of their registration. -/
structure Registered where
  reg : Registry
  live : List Ptr

/-- The partitions in use after a clean that found the partition `p` and erased it: a partition
cleaned by its label is released, and the internal one is set up again. -/
def liveClean (live : List Ptr) (label : Option (List UInt8)) (loadOk : Bool) (p : Ptr) :
    List Ptr :=
  match label with
  | some _ => live.erase p
  | none => if internalPtr ∈ live ∨ loadOk = false then live else live ++ [internalPtr]

/-- One call of a run: what the code does to the registry, and which partitions are in use
after it. -/
def registryStep (s : Registered) : RegistryCall → Option Registered
  | .init start size label mutexOk block loadOk =>
    (nvdsFlashInit start size label mutexOk block loadOk s.reg).map fun r =>
      ⟨r.2, s.live ++ r.1.toList⟩
  | .deinit handle =>
    (nvdsFlashDeinit handle s.reg).map fun r => ⟨r, s.live.filter fun p => some p ≠ handle⟩
  | .clean label mutexOk eraseOk loadOk =>
    (nvdsClean label mutexOk eraseOk loadOk s.reg).map fun r =>
      ⟨r.2, match s.live.find? fun p => decide ((s.reg.env p).label = label.getD labelInner) with
        | some p => if mutexOk ∧ eraseOk then liveClean s.live label loadOk p else s.live
        | none => s.live⟩

/-- What the callers and the allocator promise: a handle is one that is in use and a block is
new. -/
def RegistryCall.Valid (live : List Ptr) : RegistryCall → Prop
  | .init _ _ _ _ block _ => ∀ p, block = some p → p ∉ live ∧ p ≠ internalPtr
  | .deinit handle => ∀ p, handle = some p → p ∈ live
  | .clean _ _ _ _ => True

/-- The call does not set the internal partition up again while another one is in use. -/
def RegistryCall.CleansAlone (live : List Ptr) : RegistryCall → Prop
  | .clean none true true _ => internalPtr ∈ live → live = [internalPtr]
  | _ => True

/-- A run of calls, each of them valid and meeting a condition on the partitions in use. -/
inductive RegistryRun (cond : List Ptr → RegistryCall → Prop) : Registered → Registered → Prop
  | refl (s : Registered) : RegistryRun cond s s
  | step {s t u : Registered} (c : RegistryCall) (h : RegistryRun cond s t)
    (hvalid : c.Valid t.live) (hcond : cond t.live c) (hstep : registryStep t c = some u) :
    RegistryRun cond s u

/-- The first call, `nvds_flash_internal_init`, with its result. -/
def registryStart (loadOk : Bool) : Option Registered :=
  (nvdsFlashInternalInit loadOk).map fun r => ⟨r.2, if r.1 then [internalPtr] else []⟩

/-- **The registry is exact**: its list holds the partitions in use, each once, and ends. There
is a cell for each of them, and one for the internal partition. -/
structure Registered.Exact (s : Registered) : Prop where
  isList : IsList s.reg.next s.reg.list s.live
  length_lt : (s.live.erase internalPtr).length < s.reg.cells

theorem length_le_erase_succ (live : List Ptr) (p : Ptr) :
    live.length ≤ (live.erase p).length + 1 := by
  by_cases h : p ∈ live
  · rw [length_erase_of_mem h]
    omega
  · rw [erase_of_not_mem h]
    omega

theorem Registered.Exact.length_le {s : Registered} (h : s.Exact) :
    s.live.length ≤ s.reg.cells :=
  (length_le_erase_succ s.live internalPtr).trans h.length_lt

/-! ### What the calls do -/

section Calls

variable {r : Registry} {live : List Ptr}

theorem flashEnvCheck_eq (h : IsList r.next r.list live) (hlen : live.length ≤ r.cells)
    (start size : ℕ) :
    flashEnvCheck r start size = some (live.all fun p => rangesApart start size (r.env p)) := by
  rw [flashEnvCheck, h.chain.scan_eq _ hlen, map_some, Option.some.injEq, Bool.eq_iff_iff,
    isNone_iff_eq_none, List.find?_eq_none, List.all_eq_true]
  simp

theorem findLabel_eq (h : IsList r.next r.list live) (hlen : live.length ≤ r.cells)
    (label : List UInt8) :
    findLabel r label = some (live.find? fun p => decide ((r.env p).label = label)) :=
  h.chain.scan_eq _ hlen

/-- Setting up an environment that is not in the list. -/
theorem envInit_exact (h : IsList r.next r.list live) {p : Ptr} (hp : p ∉ live) (start size : ℕ)
    (label : List UInt8) (loadOk : Bool) :
    ∃ r', envInit r p start size label loadOk =
        some (decide (size % spiFlashSecSize = 0 ∧ loadOk = true), r') ∧
      IsList r'.next r'.list
        (live ++ if size % spiFlashSecSize = 0 ∧ loadOk = true then [p] else []) ∧
      r'.cells = r.cells := by
  rw [envInit]
  by_cases hc : size % spiFlashSecSize = 0 ∧ loadOk = true
  · obtain ⟨l, hl, hlist⟩ := isList_pushBack h hp
    rw [if_pos hc, if_pos hc, hl, decide_eq_true hc]
    exact ⟨_, rfl, hlist, rfl⟩
  · rw [if_neg hc, if_neg hc, append_nil, decide_eq_false hc]
    exact ⟨_, rfl, h, rfl⟩

/-- The internal partition alone in the list is taken up by its own push. -/
theorem envInit_alone (h : IsList r.next r.list [internalPtr]) (loadOk : Bool) :
    ∃ b r', envInit (envZero r internalPtr) internalPtr nvdsFlashInternalAddr
        nvdsFlashInternalSize labelInner loadOk = some (b, r') ∧
      IsList r'.next r'.list [internalPtr] ∧ r'.cells = r.cells := by
  obtain ⟨⟨hfirst, -⟩, hlast, hnd⟩ := h
  have hlink : ∀ next : Links, IsChain (update next internalPtr none)
      (some internalPtr) [internalPtr] :=
    fun next => ⟨rfl, by rw [update_self]; rfl⟩
  rw [envInit]
  simp only [envZero]
  split
  · rw [listPushBack, hfirst, hlast]
    exact ⟨true, _, rfl, ⟨hlink _, rfl, hnd⟩, rfl⟩
  · exact ⟨false, _, rfl, ⟨by rw [hfirst]; exact hlink _, hlast, hnd⟩, rfl⟩

end Calls

theorem filter_ne_eq_erase {live : List Ptr} (h : live.Nodup) (p : Ptr) :
    (live.filter fun q => some q ≠ some p) = live.erase p := by
  rw [h.erase_eq_filter]
  refine filter_congr fun q _ => ?_
  by_cases hq : q = p <;> simp [hq]

/-! ### The calls keep the registry exact -/

section Steps

variable {s : Registered} (h : s.Exact)
include h

theorem Registered.Exact.init {start size : ℕ} {label : List UInt8} {mutexOk : Bool}
    {block : Option Ptr} {loadOk : Bool} (hblock : ∀ p, block = some p → p ∉ s.live) :
    ∃ t, registryStep s (.init start size label mutexOk block loadOk) = some t ∧ t.Exact := by
  have hlen := h.length_le
  obtain ⟨hlist, hlt⟩ := h
  have hskip : ∃ t, (some (none, s.reg) : Option (Option Ptr × Registry)).map
      (fun r => (⟨r.2, s.live ++ r.1.toList⟩ : Registered)) = some t ∧ t.Exact :=
    ⟨_, rfl, by simpa using hlist, by simpa using hlt⟩
  simp only [registryStep, nvdsFlashInit, flashEnvCheck_eq hlist hlen, bind_some]
  split
  · rcases block with _ | p
    · exact hskip
    · have hp := hblock p rfl
      obtain ⟨r', hr, hl, hc⟩ := envInit_exact
        (r := envZero { s.reg with cells := s.reg.cells + 1 } p) (hlist.update hp none) hp start
        size label loadOk
      simp only [hr, map_some]
      have hcells : r'.cells = s.reg.cells + 1 := hc
      refine ⟨_, rfl, ?_, ?_⟩
      · by_cases hok : size % spiFlashSecSize = 0 ∧ loadOk = true <;> simpa [hok] using hl
      · have hle : (([p] : List Ptr).erase internalPtr).length ≤ 1 := length_erase_le
        by_cases hok : size % spiFlashSecSize = 0 ∧ loadOk = true
        · simp only [hok, and_self, decide_true, if_true, toList_some]
          rw [erase_append]
          split
          · rw [length_append, length_singleton]
            omega
          · next hm =>
            rw [erase_of_not_mem hm] at hlt
            rw [length_append]
            omega
        · simp only [hok, decide_false, Bool.false_eq_true, if_false, toList_none,
            append_nil]
          omega
  · exact hskip

theorem Registered.Exact.deinit (handle : Option Ptr) :
    ∃ t, registryStep s (.deinit handle) = some t ∧ t.Exact := by
  have hlen := h.length_le
  obtain ⟨hlist, hlt⟩ := h
  rcases handle with _ | p
  · exact ⟨_, rfl, by simpa using hlist, by simpa using hlt⟩
  · obtain ⟨l, hl, hlist'⟩ := isList_extract hlist p hlen
    simp only [registryStep, nvdsFlashDeinit, hl, map_some]
    refine ⟨_, rfl, ?_, ?_⟩
    · rw [filter_ne_eq_erase hlist.nodup]
      exact hlist'
    · rw [filter_ne_eq_erase hlist.nodup, erase_comm]
      exact lt_of_le_of_lt length_erase_le hlt

/-- The internal partition is set up again: alone in the list, or not in it at all. -/
theorem Registered.Exact.cleanInternal (loadOk : Bool) (p : Ptr)
    (hcond : internalPtr ∈ s.live → s.live = [internalPtr]) :
    ∃ b r', envInit (envZero s.reg internalPtr) internalPtr nvdsFlashInternalAddr
        nvdsFlashInternalSize labelInner loadOk = some (b, r') ∧
      (⟨r', liveClean s.live none loadOk p⟩ : Registered).Exact := by
  obtain ⟨hlist, hlt⟩ := h
  by_cases hmem : internalPtr ∈ s.live
  · rw [hcond hmem] at hlist hlt
    obtain ⟨b, r', hr, hl, hc⟩ := envInit_alone hlist loadOk
    refine ⟨b, r', hr, ?_, ?_⟩
    · simpa [liveClean, hcond hmem] using hl
    · simpa [liveClean, hcond hmem, hc] using hlt
  · obtain ⟨r', hr, hl, hc⟩ := envInit_exact (r := envZero s.reg internalPtr)
      (hlist.update hmem none) hmem nvdsFlashInternalAddr nvdsFlashInternalSize labelInner loadOk
    have hcells : r'.cells = s.reg.cells := hc
    have hsize : nvdsFlashInternalSize % spiFlashSecSize = 0 := by decide
    refine ⟨_, r', hr, ?_, ?_⟩
    · cases loadOk <;> simpa [liveClean, hmem, hsize] using hl
    · rw [erase_of_not_mem hmem] at hlt
      cases loadOk
      · simpa [liveClean, hmem, hcells, erase_of_not_mem hmem] using hlt
      · simp only [liveClean, hmem, Bool.true_eq_false, or_self, if_false, hcells]
        simpa using hlt

theorem Registered.Exact.clean {label : Option (List UInt8)} {mutexOk eraseOk loadOk : Bool}
    (hcond : (RegistryCall.clean label mutexOk eraseOk loadOk).CleansAlone s.live) :
    ∃ t, registryStep s (.clean label mutexOk eraseOk loadOk) = some t ∧ t.Exact := by
  have hfind := findLabel_eq h.isList h.length_le (label.getD labelInner)
  simp only [registryStep, nvdsClean, hfind, bind_some]
  cases mutexOk with
  | false =>
    rcases s.live.find? fun p => decide ((s.reg.env p).label = label.getD labelInner) with _ | p
    · exact ⟨_, rfl, h.isList, h.length_lt⟩
    · exact ⟨_, rfl, h.isList, h.length_lt⟩
  | true =>
    rcases s.live.find? fun p => decide ((s.reg.env p).label = label.getD labelInner) with _ | p
    · exact ⟨_, rfl, h.isList, h.length_lt⟩
    cases eraseOk with
    | false => exact ⟨_, rfl, h.isList, h.length_lt⟩
    | true =>
      simp only [if_true, and_self]
      rcases label with _ | label
      · obtain ⟨b, r', hr, hexact⟩ := h.cleanInternal loadOk p hcond
        simp only [hr, map_some]
        exact ⟨_, rfl, hexact⟩
      · obtain ⟨l, hl, hlist'⟩ := isList_extract h.isList p h.length_le
        simp only [nvdsFlashDeinit, hl, map_some]
        refine ⟨_, rfl, hlist', ?_⟩
        rw [show liveClean s.live (some label) loadOk p = s.live.erase p from rfl,
          erase_comm]
        exact lt_of_le_of_lt length_erase_le h.length_lt

/-- **One call.** A valid call that does not set the internal partition up again in front of
others returns and keeps the registry exact. -/
theorem Registered.Exact.step {c : RegistryCall} (hvalid : c.Valid s.live)
    (hcond : c.CleansAlone s.live) : ∃ t, registryStep s c = some t ∧ t.Exact := by
  cases c with
  | init start size label mutexOk block loadOk => exact h.init fun p hp => (hvalid p hp).1
  | deinit handle => exact h.deinit handle
  | clean label mutexOk eraseOk loadOk => exact h.clean hcond

end Steps

/-- The registry is exact after `nvds_flash_internal_init`. -/
theorem exact_registryStart {loadOk : Bool} {s : Registered} (h : registryStart loadOk = some s) :
    s.Exact := by
  obtain ⟨r', hr, hl, hc⟩ := envInit_exact (isList_init fun _ => none)
    (r := ⟨listInit, fun _ => none, fun _ => ⟨0, 0, []⟩, 1⟩) (p := internalPtr) (by simp)
    nvdsFlashInternalAddr nvdsFlashInternalSize labelInner loadOk
  rw [registryStart, nvdsFlashInternalInit, hr] at h
  cases h
  have hcells : r'.cells = 1 := hc
  refine ⟨?_, ?_⟩
  · simpa using hl
  · rw [hcells]
    cases loadOk <;> exact Nat.zero_lt_one

/-- **The registry is exact along every run** that never sets the internal partition up again
while another partition is in use: its list holds the partitions in use, each once, and ends;
`flash_env_check` accepts a range exactly when it is apart from all of them; and the search for a
label finds the first of them that bears it. -/
theorem registry_exact {loadOk : Bool} {s t : Registered} (hstart : registryStart loadOk = some s)
    (hrun : RegistryRun (fun live c => c.CleansAlone live) s t) :
    IsList t.reg.next t.reg.list t.live ∧
      (∀ start size, flashEnvCheck t.reg start size =
        some (t.live.all fun p => rangesApart start size (t.reg.env p))) ∧
      ∀ label, findLabel t.reg label =
        some (t.live.find? fun p => decide ((t.reg.env p).label = label)) := by
  have hexact : t.Exact := by
    induction hrun with
    | refl => exact exact_registryStart hstart
    | step c _ hvalid hcond hstep ih =>
      obtain ⟨u, hu, hexact⟩ := ih.step hvalid hcond
      rw [hstep] at hu
      cases hu
      exact hexact
  exact ⟨hexact.isList, flashEnvCheck_eq hexact.isList hexact.length_le,
    findLabel_eq hexact.isList hexact.length_le⟩

/-- The label of a second partition. -/
def userLabel : List UInt8 := [0x75]

/-- The registration of a second partition. -/
def userInit : RegistryCall := .init 0x300000 0x4000 userLabel true (some 1) true

/-- With a second partition registered, the registry holds the two. -/
theorem registry_exact_userInit :
    ∃ s t, registryStart true = some s ∧ registryStep s userInit = some t ∧
      t.live = [internalPtr, 1] ∧ IsList t.reg.next t.reg.list t.live := by
  refine ⟨_, _, rfl, rfl, rfl, ?_⟩
  refine (registry_exact (show registryStart true = some _ from rfl)
    (.step userInit (.refl _) ?_ trivial rfl)).1
  rintro p ⟨⟩
  decide

/-- **A clean of the internal partition loses the others**: after `nvds_clean(NULL)` the list
holds the internal partition alone, although the second one is in use. -/
theorem registry_not_exact :
    ¬∀ s t, registryStart true = some s → RegistryRun (fun _ _ => True) s t →
      IsList t.reg.next t.reg.list t.live := by
  intro hall
  have hrun := hall _ _ rfl (.step (.clean none true true true)
    (.step userInit (.refl _) (by rintro p ⟨⟩; decide) trivial rfl) trivial trivial rfl)
  have halone := hrun.chain.unique (show IsChain _ _ [internalPtr] from ⟨rfl, rfl⟩)
  exact absurd halone (by decide)

/-! ### The overlap check -/

/-- A range and a partition share a byte. -/
def RangesMeet (start size : ℕ) (p : Partition) : Prop :=
  ∃ x, start ≤ x ∧ x < start + size ∧ p.baseAddr ≤ x ∧ x < p.baseAddr + p.length

/-- A neighbour: one of the ranges ends where the other one begins, or is empty, and neither end
comes out below the start of the other range. -/
def Touches (start size : ℕ) (p : Partition) : Prop :=
  (start + size = p.baseAddr ∨ start = p.baseAddr + p.length ∨ size = 0 ∨ p.length = 0) ∧
    p.baseAddr ≤ u32 (start + size) ∧ start ≤ u32 (p.baseAddr + p.length)

/-- The end of a range is past the address space and comes out below the start of the other
one. -/
def Wraps (start size : ℕ) (p : Partition) : Prop :=
  (2 ^ 32 ≤ start + size ∧ start + size < 2 ^ 32 + p.baseAddr) ∨
    (2 ^ 32 ≤ p.baseAddr + p.length ∧ p.baseAddr + p.length < 2 ^ 32 + start)

/-- The fields of a partition are of type `uint32_t`. -/
structure Partition.InRange (p : Partition) : Prop where
  base_lt : p.baseAddr < 2 ^ 32
  length_lt : p.length < 2 ^ 32

section Overlap

variable {start size : ℕ} {p : Partition}

theorem rangesMeet_iff : RangesMeet start size p ↔
    start < p.baseAddr + p.length ∧ p.baseAddr < start + size ∧ 0 < size ∧ 0 < p.length := by
  constructor
  · rintro ⟨x, h1, h2, h3, h4⟩
    omega
  · rintro ⟨h1, h2, h3, h4⟩
    rcases Nat.le_total start p.baseAddr with hle | hle
    · exact ⟨p.baseAddr, hle, h2, Nat.le_refl _, by omega⟩
    · exact ⟨start, Nat.le_refl _, by omega, hle, h1⟩

theorem rangesApart_iff : rangesApart start size p = true ↔
    u32 (start + size) < p.baseAddr ∨ u32 (p.baseAddr + p.length) < start := by
  simp [rangesApart]

variable (hstart : start < 2 ^ 32) (hsize : size < 2 ^ 32) (hp : p.InRange)
include hstart hsize hp

/-- An overlap is passed over exactly when an end wraps. -/
theorem rangesApart_of_meet (hmeet : RangesMeet start size p) :
    rangesApart start size p = true ↔ Wraps start size p := by
  obtain ⟨hb, hl⟩ := hp
  rw [rangesMeet_iff] at hmeet
  rw [rangesApart_iff, Wraps, u32, u32]
  omega

omit hp in
/-- Ranges that are apart are taken for overlapping exactly when they touch. -/
theorem not_rangesApart_of_not_meet (hmeet : ¬RangesMeet start size p) :
    rangesApart start size p = false ↔ Touches start size p := by
  rw [rangesMeet_iff] at hmeet
  rw [← Bool.not_eq_true, rangesApart_iff, Touches, u32, u32]
  omega

end Overlap

/-- What `flash_env_check` should answer. -/
def EnvCheckRight (r : Registry) (live : List Ptr) (start size : ℕ) : Prop :=
  flashEnvCheck r start size = some true ↔ ∀ p ∈ live, ¬RangesMeet start size (r.env p)

/-- **The overlap check is right exactly when** a partition is met by the range and no end wraps,
or a partition that the range touches is there if and only if one is that an end makes it pass
over. -/
theorem flashEnvCheck_right_iff {r : Registry} {live : List Ptr} (h : IsList r.next r.list live)
    (hlen : live.length ≤ r.cells) (hrange : ∀ p ∈ live, (r.env p).InRange) {start size : ℕ}
    (hstart : start < 2 ^ 32) (hsize : size < 2 ^ 32) :
    EnvCheckRight r live start size ↔
      (∃ p ∈ live, RangesMeet start size (r.env p) ∧ ¬Wraps start size (r.env p)) ∨
        ((∃ p ∈ live, ¬RangesMeet start size (r.env p) ∧ Touches start size (r.env p)) ↔
          ∃ p ∈ live, RangesMeet start size (r.env p) ∧ Wraps start size (r.env p)) := by
  have hapart : ∀ p ∈ live, RangesMeet start size (r.env p) →
      (rangesApart start size (r.env p) = true ↔ Wraps start size (r.env p)) :=
    fun p hp => rangesApart_of_meet hstart hsize (hrange p hp)
  have htouch : ∀ p ∈ live, ¬RangesMeet start size (r.env p) →
      (rangesApart start size (r.env p) = false ↔ Touches start size (r.env p)) :=
    fun p _ => not_rangesApart_of_not_meet hstart hsize
  rw [EnvCheckRight, flashEnvCheck_eq h hlen, Option.some.injEq, List.all_eq_true]
  by_cases hcaught : ∃ p ∈ live, RangesMeet start size (r.env p) ∧ ¬Wraps start size (r.env p)
  · -- the range is refused, as it should be
    obtain ⟨p, hp, hmeet, hwrap⟩ := hcaught
    refine iff_of_true (iff_of_false ?_ ?_) (Or.inl ⟨p, hp, hmeet, hwrap⟩)
    · exact fun hall => hwrap ((hapart p hp hmeet).mp (hall p hp))
    · exact fun hall => hall p hp hmeet
  · rw [or_iff_right hcaught]
    have hwraps : ∀ p ∈ live, RangesMeet start size (r.env p) → Wraps start size (r.env p) := by
      intro p hp hmeet
      by_contra hno
      exact hcaught ⟨p, hp, hmeet, hno⟩
    -- the range is accepted if it touches no partition, and meets none if it passes over none
    have haccept : (∀ p ∈ live, rangesApart start size (r.env p) = true) ↔
        ¬∃ p ∈ live, ¬RangesMeet start size (r.env p) ∧ Touches start size (r.env p) := by
      constructor
      · rintro hall ⟨p, hp, hmeet, ht⟩
        exact Bool.false_ne_true (((htouch p hp hmeet).mpr ht).symm.trans (hall p hp))
      · intro hno p hp
        by_cases hmeet : RangesMeet start size (r.env p)
        · exact (hapart p hp hmeet).mpr (hwraps p hp hmeet)
        · rw [← Bool.not_eq_false]
          exact fun hf => hno ⟨p, hp, hmeet, (htouch p hp hmeet).mp hf⟩
    have hmeets : (∀ p ∈ live, ¬RangesMeet start size (r.env p)) ↔
        ¬∃ p ∈ live, RangesMeet start size (r.env p) ∧ Wraps start size (r.env p) := by
      constructor
      · rintro hall ⟨p, hp, hmeet, -⟩
        exact hall p hp hmeet
      · exact fun hno p hp hmeet => hno ⟨p, hp, hmeet, hwraps p hp hmeet⟩
    rw [haccept, hmeets, not_iff_not]

/-- The registry with the internal partition alone: a partition far below it is accepted. -/
theorem flashEnvCheck_right_iff_below : ∃ s, registryStart true = some s ∧
    EnvCheckRight s.reg s.live 0x300000 0x4000 := by
  have hexact := exact_registryStart (show registryStart true = some _ from rfl)
  refine ⟨_, rfl, (flashEnvCheck_right_iff hexact.isList hexact.length_le ?_ (by decide)
    (by decide)).mpr (Or.inr ?_)⟩
  · rintro p hp
    rw [mem_singleton.mp hp]
    exact ⟨by decide, by decide⟩
  · refine iff_of_false ?_ ?_
    · rintro ⟨p, hp, -, ht⟩
      rw [mem_singleton.mp hp] at ht
      exact absurd ht.2.1 (by decide)
    · rintro ⟨p, hp, hmeet, -⟩
      rw [mem_singleton.mp hp, rangesMeet_iff] at hmeet
      exact absurd hmeet.2.1 (by decide)

/-- **A neighbour is refused**: a partition that begins where the internal one ends. -/
theorem not_flashEnvCheck_right : ∃ s, registryStart true = some s ∧
    ¬EnvCheckRight s.reg s.live 0x3FF000 0x1000 := by
  refine ⟨_, rfl, fun hright => ?_⟩
  refine absurd (hright.mpr ?_) (by decide)
  rintro p hp hmeet
  rw [mem_singleton.mp hp, rangesMeet_iff] at hmeet
  exact absurd hmeet.1 (by decide)

end Gd32.Nvds
