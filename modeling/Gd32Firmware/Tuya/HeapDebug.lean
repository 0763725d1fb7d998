import Gd32Firmware.Tuya.HeapRealloc

/-!
# The entry points that record where a block comes from

`tuya_mem_heap_debug_malloc` and its companions allocate sixteen bytes more than they are asked
for and keep, in front of the guard of the block, the file and the line of the call, the size
requested and a magic number. On such blocks, as on those of the plain entry points, the debug
reallocation always moves: it copies as many bytes as the *new* block has, from a pointer that
may be null and from a block that may be smaller. `Tuya.debugRealloc_iff` says when that
reads nothing but the old block.

The runs here are those of the plain entry points and of these, in any order.
-/

namespace Gd32

open List

variable {size : ℕ} {v : HeapEnv}

namespace Tuya

/-! ### The source -/

def memDbgLeakMagic : ℕ := 0x13572468

/-- `sizeof(MEM_DbgLeak_t)`. -/
def memDbgLeakSize : ℕ := 16

/-- Where a call comes from: `filename` and `line`. -/
structure CallSite where
  /-- `filename`, a pointer. -/
  filename : ℕ
  line : ℕ

/-- `MEM_LEAK_DBG_ADDR`; `MEM_ALIGN_NUM` is `4`. -/
def memLeakDbgAddr (m : Ram) (block : ℕ) : ℕ :=
  u32sub (u32sub (u32 (block + blockSize m block)) memDbgLeakSize) 4

/-- The four fields of a `MEM_DbgLeak_t`. -/
def storeLeak (m : Ram) (leak : ℕ) (site : CallSite) (size : ℕ) : Ram :=
  (((m.store leak site.filename).store (leak + 4) site.line).store (leak + 8) size).store
    (leak + 12) memDbgLeakMagic

/-- The size that `MEM_AllocateDebug` asks `MEM_Allocate` for; the sum is not checked. -/
def debugSize (size : ℕ) : ℕ := u32 (alignUp size + memDbgLeakSize)

def memAllocateDebug (v : HeapEnv) (size : ℕ) (site : CallSite) : HeapEnv × ℕ :=
  let (v, p) := memAllocate v (debugSize size)
  if p ≠ 0 then
    let block := u32sub p memBlockHeadSize
    ({ v with mem := storeLeak v.mem (memLeakDbgAddr v.mem block) site size }, p)
  else (v, p)

/-- The loop of `tuya_mem_heap_debug_malloc` with the handle `0`, over the entries that follow. -/
def debugMallocLoop (s : HeapState) (size : ℕ) (site : CallSite) :
    List (Fin memHeapListNum) → HeapState × ℕ
  | [] => (s, 0)
  | i :: is =>
    if 0 < (s.memHeapList i).size then
      if u32 (size + memBlockMinSize) < (s.memHeapList i).free then
        let (v, ptr) := memAllocateDebug (s.env i) size site
        if ptr ≠ 0 then (s.set i v, ptr) else debugMallocLoop (s.set i v) size site is
      else debugMallocLoop s size site is
    else (s, 0)

def tuyaMemHeapDebugMalloc (s : HeapState) (handle : Option (Fin memHeapListNum)) (size : ℕ)
    (site : CallSite) : HeapState × ℕ :=
  match handle with
  | some i =>
    let (v, ptr) := memAllocateDebug (s.env i) size site
    (s.set i v, ptr)
  | none => debugMallocLoop s size site (List.finRange memHeapListNum)

def tuyaMemHeapDebugCalloc (s : HeapState) (handle : Option (Fin memHeapListNum)) (size : ℕ)
    (site : CallSite) : HeapState × ℕ :=
  let (s, ptr) := tuyaMemHeapDebugMalloc s handle size site
  if ptr ≠ 0 then ({ s with mem := s.mem.fill ptr 0 size }, ptr) else (s, ptr)

/-- What a debug reallocation leaves: the state, its result, and where `memcpy` has read, an
address and a number of bytes. -/
structure DebugMove where
  state : HeapState
  result : ℕ
  reads : Option (ℕ × ℕ)

def tuyaMemHeapDebugRealloc (s : HeapState) (handle : Option (Fin memHeapListNum)) (ptr size : ℕ)
    (site : CallSite) : DebugMove :=
  let (s, tmp) := tuyaMemHeapDebugMalloc s handle size site
  if tmp = 0 then ⟨s, 0, none⟩
  else
    let s := { s with mem := s.mem.copy tmp ptr size }
    ⟨tuyaMemHeapFree s handle ptr, tmp, some (ptr, size)⟩

/-! ### Runs -/

/-- A call of a plain entry point, or of one that records where it comes from. -/
inductive DebugCall where
  /-- A plain call, or a byte written by a client. -/
  | plain (c : HeapCall)
  /-- `tuya_mem_heap_debug_malloc`. -/
  | malloc (size : ℕ) (site : CallSite)
  /-- `tuya_mem_heap_debug_calloc`. -/
  | calloc (size : ℕ) (site : CallSite)
  /-- `tuya_mem_heap_debug_realloc`. -/
  | realloc (ptr size : ℕ) (site : CallSite)

/-- A call gets null or a pointer that is live. -/
def DebugCall.Valid (r : HeapRun) : DebugCall → Prop
  | plain c => c.Valid r
  | malloc size _ => size < 2 ^ 32
  | calloc size _ => size < 2 ^ 32
  | realloc ptr size _ => size < 2 ^ 32 ∧ (ptr = 0 ∨ ∃ n, (ptr, n) ∈ r.live)

/-- Making a call on the heap `i`. -/
def DebugCall.run (i : Fin memHeapListNum) (r : HeapRun) : DebugCall → HeapRun
  | plain c => c.run i r
  | malloc size site =>
    let (s, ptr) := tuyaMemHeapDebugMalloc r.state (some i) size site
    ⟨s, grant r.live ptr size, (s.memHeapList i).free :: r.frees⟩
  | calloc size site =>
    let (s, ptr) := tuyaMemHeapDebugCalloc r.state (some i) size site
    ⟨s, grant r.live ptr size, (s.memHeapList i).free :: r.frees⟩
  | realloc old size site =>
    -- between the allocation of the new block and the release of the old one, `free` is lower
    let between := (tuyaMemHeapDebugMalloc r.state (some i) size site).1
    let d := tuyaMemHeapDebugRealloc r.state (some i) old size site
    ⟨d.state, if d.result = 0 then r.live else grant (revoke r.live old) d.result size,
      (d.state.memHeapList i).free :: (between.memHeapList i).free :: r.frees⟩

/-- The calls of a list, one after the other. -/
def HeapRun.debugRuns (i : Fin memHeapListNum) (r : HeapRun) : List DebugCall → HeapRun
  | [] => r
  | c :: cs => (c.run i r).debugRuns i cs

/-- Every call is valid when it is made. -/
def HeapRun.DebugValid (i : Fin memHeapListNum) (r : HeapRun) : List DebugCall → Prop
  | [] => True
  | c :: cs => c.Valid r ∧ (c.run i r).DebugValid i cs

/-- The block of a call fits into the address space, the record included. -/
def DebugCall.Addressable : DebugCall → Prop
  | plain c => c.Addressable
  | malloc size _ => size ≤ 2 ^ 32 - 16
  | calloc size _ => size ≤ 2 ^ 32 - 16
  | realloc _ size _ => size ≤ 2 ^ 32 - 16

/-! ### Allocations that record where they come from -/

/-- The size asked for, when it does not wrap. -/
theorem debugSize_eq {n : ℕ} (h : n ≤ 2 ^ 32 - 20) :
    debugSize n = (n + 3) / 4 * 4 + 16 := by
  simp only [debugSize, memDbgLeakSize, alignUp, alignDown, u32]
  omega

/-- When it wraps to nothing. -/
theorem debugSize_eq_zero {n : ℕ} (hlo : 2 ^ 32 - 20 < n) (hhi : n ≤ 2 ^ 32 - 16) :
    debugSize n = 0 := by
  simp only [debugSize, memDbgLeakSize, alignUp, alignDown, u32]
  omega

theorem debugSize_lt (n : ℕ) : debugSize n < 2 ^ 32 := u32_lt _

/-- The record lies in front of the guard. -/
theorem storeLeak_frame {m : Ram} {leak x : ℕ} {site : CallSite}
    (h : x < leak ∨ leak + 16 ≤ x) : (storeLeak m leak site size).byte x = m.byte x := by
  refine (Ram.byte_store_of_notMem (by omega)).trans ?_
  refine (Ram.byte_store_of_notMem (by omega)).trans ?_
  exact (Ram.byte_store_of_notMem (by omega)).trans (Ram.byte_store_of_notMem (by omega))

/-- Nothing is recorded without a block. -/
theorem memAllocateDebug_null {n : ℕ} {site : CallSite}
    (h : memAllocate v (debugSize n) = (v, 0)) : memAllocateDebug v n site = (v, 0) := by
  simp only [memAllocateDebug, h, ne_eq, not_true_eq_false, if_false]

theorem memAllocateDebug_snd (v : HeapEnv) (n : ℕ) (site : CallSite) :
    (memAllocateDebug v n site).2 = (memAllocate v (debugSize n)).2 := by
  simp only [memAllocateDebug]
  split <;> rfl

/-- A block larger than the address space is refused. -/
theorem memAllocate_of_wrap {n : ℕ} (hlo : 2 ^ 32 - 8 ≤ n) (hhi : n < 2 ^ 32) :
    memAllocate v n = (v, 0) := by
  have h4 : (if n < 4 then 4 else n) = n := if_neg (by omega)
  rw [memAllocate, if_neg (by omega), h4]
  rcases memNewSize_spec (by omega : 4 ≤ n) hhi with ⟨hsmall, -⟩ | ⟨-, hwrap⟩
  · omega
  · rw [if_pos (by omega)]

/-- **`MEM_AllocateDebug`** refuses, or grants a block that holds the request and the record. -/
theorem memAllocateDebug_spec {a : ℕ} {bs : List Block} (h : IsHeap v a bs) {n : ℕ}
    (hn : n ≤ 2 ^ 32 - 16) (site : CallSite) :
    memAllocateDebug v n site = (v, 0) ∨
      ∃ v' p bs' c, memAllocateDebug v n site = (v', p + 4) ∧ IsHeap v' a bs' ∧
        Granted a bs bs' p c ∧ n + 24 ≤ c.size ∧ c.request = some n ∧
        v'.heap.freeWatermark = min v.heap.freeWatermark v'.heap.free ∧
        ∀ q d, (q, d) ∈ inUse a bs → KeepsBlock v.mem v'.mem q d := by
  rcases Nat.lt_or_ge (2 ^ 32 - 20) n with hbig | hsmall
  · -- the sum wraps to nothing, and nothing is refused
    refine .inl (memAllocateDebug_null ?_)
    rw [debugSize_eq_zero hbig hn, memAllocate, if_pos rfl]
  have hsize := debugSize_eq hsmall
  have h4 : (if debugSize n < 4 then 4 else debugSize n) = debugSize n := if_neg (by omega)
  have hkeeps := fun q d => memAllocate_keeps (q := q) (c := d) h (debugSize_lt n)
  rcases memAllocate_spec h (k := n) (debugSize_lt n) (by rw [h4]; omega) with
    heq | ⟨m, fl, p, bs', c, heq, hheap, hgrant, hnew, hreq, -⟩
  · exact .inl (memAllocateDebug_null heq)
  right
  rw [h4] at hnew
  have hp : (p, c) ∈ inUse a bs' := hgrant.inUse.mem_iff.mpr (mem_cons_self ..)
  have hc : n + 24 ≤ c.size := by
    rcases memNewSize_spec (by omega : 4 ≤ debugSize n) (debugSize_lt n) with
      ⟨-, hle, hdvd, -⟩ | ⟨hbig, -⟩
    · omega
    · rw [memAllocate_of_wrap hbig (debugSize_lt n)] at heq
      have := congrArg Prod.snd heq
      omega
  have hsizep := hheap.blockSize_eq hp
  have hbounds := hheap.bounds hp
  have hlt := hheap.lt
  -- the record is written into the payload of the new block
  generalize hv : HeapEnv.mk m _ _ _ = v' at heq hheap hsizep
  have hleak : memLeakDbgAddr v'.mem p = p + c.size - 20 := by
    have hsub : u32sub (p + c.size) 16 = p + c.size - 16 := u32sub_of_le (by omega) (by omega)
    rw [memLeakDbgAddr, hsizep, memDbgLeakSize, u32_of_lt (by omega), hsub,
      u32sub_of_le (by omega) (by omega)]
    omega
  have hdebug : memAllocateDebug v n site =
      ({ v' with mem := storeLeak v'.mem (p + c.size - 20) site n }, p + 4) := by
    simp only [memAllocateDebug, heq]
    rw [if_pos (by omega), u32sub_head (by omega), hleak]
  refine ⟨_, p, bs', c, hdebug, hheap.write hp fun x hx => storeLeak_frame (by omega), hgrant, hc,
    hreq, ?_, fun q d hd x hlo hhi => ?_⟩
  · rw [← hv]
  · have hne : q ≠ p := start_ne_of_perm hgrant.inUse (q, d) hd
    have hapart := inUse_apart hp (hgrant.inUse.mem_iff.mpr (mem_cons_of_mem _ hd)) hne
    refine (storeLeak_frame (by omega)).trans ?_
    have hkeep := hkeeps q d hd x hlo hhi
    rwa [heq] at hkeep

/-! ### The heap between the calls -/

section Calls

variable {i : Fin memHeapListNum} {a n : ℕ} {r : HeapRun} {s : HeapState} {bs : List Block}

/-- `tuya_mem_heap_debug_malloc` on a heap. -/
theorem tuyaMemHeapDebugMalloc_spec (h : IsHeap (s.env i) a bs)
    (hsize : size ≤ 2 ^ 32 - 16) (site : CallSite) :
    tuyaMemHeapDebugMalloc s (some i) size site = (s, 0) ∨
      ∃ s' bs' q c, tuyaMemHeapDebugMalloc s (some i) size site = (s', q + 4) ∧
        Allocated i a s s' bs bs' q c ∧ size + 24 ≤ c.size ∧ c.request = some size ∧
        ∀ o d, (o, d) ∈ inUse a bs → KeepsBlock s.mem s'.mem o d := by
  rcases memAllocateDebug_spec h hsize site with
    heq | ⟨v', q, bs', c, heq, hheap, hgrant, hc, hreq, hwm, hkeeps⟩
  · left
    simp only [tuyaMemHeapDebugMalloc, heq, HeapState.set_env]
  · refine .inr ⟨s.set i v', bs', q, c, ?_, ⟨?_, hgrant, ?_⟩, hc, hreq, hkeeps⟩
    · simp only [tuyaMemHeapDebugMalloc, heq]
    · rw [HeapState.env_set]
      exact hheap
    · rw [HeapState.memHeapList_set]
      exact hwm

theorem HeapInv.debug_malloc (h : HeapInv i a n r bs) (hsize : size ≤ 2 ^ 32 - 16)
    (site : CallSite) : ∃ bs', HeapInv i a n ((DebugCall.malloc size site).run i r) bs' := by
  rcases tuyaMemHeapDebugMalloc_spec h.isHeap hsize site with
    heq | ⟨s, bs', q, c, heq, hs, -, hreq, -⟩
  · exact ⟨bs, by simpa [DebugCall.run, heq, grant] using h.refused rfl⟩
  · exact ⟨bs', by simpa only [DebugCall.run, heq] using h.allocated hs hreq⟩

theorem HeapInv.debug_calloc (h : HeapInv i a n r bs) (hsize : size ≤ 2 ^ 32 - 16)
    (site : CallSite) : ∃ bs', HeapInv i a n ((DebugCall.calloc size site).run i r) bs' := by
  rcases tuyaMemHeapDebugMalloc_spec h.isHeap hsize site with
    heq | ⟨s, bs', q, c, heq, hs, hc, hreq, -⟩
  · exact ⟨bs, by simpa [DebugCall.run, tuyaMemHeapDebugCalloc, heq, grant] using h.refused rfl⟩
  · have hinv := (h.allocated hs hreq).written hs.mem fun x hx =>
      Ram.byte_fill_of_notMem (b := 0) (a := q + 4) (n := size) (by omega)
    refine ⟨bs', ?_⟩
    simpa only [DebugCall.run, tuyaMemHeapDebugCalloc, heq, ne_eq, Nat.add_eq_zero_iff,
      OfNat.ofNat_ne_zero, and_false, not_false_eq_true, if_true] using hinv

/-- The new block is filled from wherever `ptr` leads, and the old one is freed. -/
theorem HeapInv.debug_realloc (h : HeapInv i a n r bs) {ptr : ℕ} {site : CallSite}
    (hvalid : (DebugCall.realloc ptr size site).Valid r) (hsize : size ≤ 2 ^ 32 - 16) :
    ∃ bs', HeapInv i a n ((DebugCall.realloc ptr size site).run i r) bs' := by
  rcases tuyaMemHeapDebugMalloc_spec h.isHeap hsize site with
    heq | ⟨s, bs₁, q, c, heq, hs, hc, hreq, -⟩
  · -- there is no block
    have hinv := (h.refused rfl).refused rfl
    refine ⟨bs, ?_⟩
    simpa [DebugCall.run, tuyaMemHeapDebugRealloc, heq] using hinv
  have hinv := (h.allocated hs hreq).written hs.mem fun x hx =>
    Ram.byte_copy_of_notMem (d := q + 4) (s := ptr) (n := size) (by omega)
  obtain ⟨-, rfl | ⟨k, hk⟩⟩ := hvalid
  · -- nothing is freed for null
    have hnull : ∀ t : HeapState, tuyaMemHeapFree t (some i) 0 = t := fun t => t.set_env i
    have hinv' := hinv.refused rfl
    refine ⟨bs₁, ?_⟩
    simpa [DebugCall.run, tuyaMemHeapDebugRealloc, heq, hnull, h.revoke_zero] using hinv'
  · obtain ⟨p, b, hb, rfl, -⟩ := exists_of_mem_live h.live hk
    have hb₁ : (p, b) ∈ inUse a bs₁ := hs.granted.inUse.mem_iff.mpr (mem_cons_of_mem _ hb)
    have hne : q ≠ p := (start_ne_of_perm hs.granted.inUse (p, b) hb).symm
    obtain ⟨bs₂, hinv'⟩ := hinv.freed hb₁
    refine ⟨bs₂, ?_⟩
    simpa [HeapCall.run, DebugCall.run, tuyaMemHeapDebugRealloc, heq, revoke_grant hne] using hinv'

/-- A call preserves the invariant. -/
theorem HeapInv.debugRun (h : HeapInv i a n r bs) {c : DebugCall} (hvalid : c.Valid r)
    (haddr : c.Addressable) : ∃ bs', HeapInv i a n (c.run i r) bs' := by
  cases c with
  | plain c => exact h.run hvalid haddr
  | malloc size site => exact h.debug_malloc haddr site
  | calloc size site => exact h.debug_calloc haddr site
  | realloc ptr size site => exact h.debug_realloc hvalid haddr

/-- A run of calls preserves it. -/
theorem HeapInv.debugRuns (h : HeapInv i a n r bs) {cs : List DebugCall}
    (hvalid : r.DebugValid i cs) (haddr : ∀ c ∈ cs, c.Addressable) :
    ∃ bs', HeapInv i a n (r.debugRuns i cs) bs' := by
  induction cs generalizing r bs with
  | nil => exact ⟨bs, h⟩
  | cons c cs ih =>
    obtain ⟨bs', h'⟩ := h.debugRun hvalid.1 (haddr c (mem_cons_self ..))
    exact ih h' hvalid.2 fun c' hc' => haddr c' (mem_cons_of_mem _ hc')

end Calls

/-! ### What the reallocation reads -/

/-- The byte at `x` is read. -/
def DebugMove.Reads (d : DebugMove) (x : ℕ) : Prop := ∃ y ∈ d.reads, y.1 ≤ x ∧ x < y.1 + y.2

/-- The byte at `x` is one of the block of the pointer `ptr`. -/
def InBlockOf (m : Ram) (ptr x : ℕ) : Prop := ptr - 4 ≤ x ∧ x < ptr - 4 + blockSize m (ptr - 4)

/-- **A debug reallocation is right**: it reads nothing but the old block, nothing at all for
null, and where it succeeds the new block begins with the bytes of the old one. -/
structure DebugReallocRight (i : Fin memHeapListNum) (s : HeapState) (ptr n m : ℕ)
    (site : CallSite) : Prop where
  reads : ∀ x, (tuyaMemHeapDebugRealloc s (some i) ptr m site).Reads x →
    ptr ≠ 0 ∧ InBlockOf s.mem ptr x
  bytes : (tuyaMemHeapDebugRealloc s (some i) ptr m site).result ≠ 0 → ∀ k < min n m,
    (tuyaMemHeapDebugRealloc s (some i) ptr m site).state.mem.byte
      ((tuyaMemHeapDebugRealloc s (some i) ptr m site).result + k) = s.mem.byte (ptr + k)

/-- **There is room** for a block of `m` bytes and its record: the list of free blocks has one
that is large enough, and the size is one that `MEM_Allocate` takes. -/
def DebugRoom (i : Fin memHeapListNum) (s : HeapState) (m : ℕ) : Prop :=
  0 < debugSize m ∧ debugSize m < 2 ^ 32 - 8 ∧
    ∃ blocks, FreeList s.mem (s.memHeapList i).freeList blocks ∧
      ∃ x ∈ blocks, memNewSize (max 4 (debugSize m)) ≤ blockSize s.mem x

/-- The links lead through one list of blocks. -/
theorem FreeList.unique {m : Ram} {p : ℕ} {as as' : List ℕ} (h : FreeList m p as)
    (h' : FreeList m p as') : as = as' := by
  induction as generalizing p as' with
  | nil =>
    cases as' with
    | nil => rfl
    | cons b bs => exact absurd h h'.1
  | cons a as ih =>
    cases as' with
    | nil => exact absurd h' h.1
    | cons b bs =>
      obtain ⟨-, rfl, hrest⟩ := h
      obtain ⟨-, rfl, hrest'⟩ := h'
      rw [ih hrest hrest']

/-- A block on the list of free blocks is one of the free blocks of the heap. -/
theorem IsHeap.exists_free_iff {a k : ℕ} {bs : List Block} (h : IsHeap v a bs) :
    (∃ blocks, FreeList v.mem v.heap.freeList blocks ∧ ∃ x ∈ blocks, k ≤ blockSize v.mem x) ↔
      ∃ b ∈ bs, b.request = none ∧ k ≤ b.size := by
  have hlist := h.seg.freeList h.pos
  rw [← h.list] at hlist
  constructor
  · rintro ⟨blocks, hblocks, x, hx, hk⟩
    rw [hblocks.unique hlist] at hx
    obtain ⟨y, hy, rfl⟩ := mem_map.mp hx
    obtain ⟨hy, hfree⟩ := mem_filter.mp hy
    obtain ⟨xs, b, ys, rfl, rfl⟩ := mem_spans.mp hy
    have hplaced := (seg_append.mp h.seg).2.1
    rw [guardFree_iff hplaced] at hfree
    rw [hplaced.1] at hk
    exact ⟨b, by simp, by simpa using hfree, hk⟩
  · rintro ⟨b, hb, hfree, hk⟩
    obtain ⟨xs, ys, rfl⟩ := append_of_mem hb
    have hplaced := (seg_append.mp h.seg).2.1
    refine ⟨_, hlist, a + total xs, ?_, by rw [hplaced.1]; exact hk⟩
    refine mem_map.mpr ⟨(a + total xs, b.size), mem_filter.mpr ⟨?_, ?_⟩, rfl⟩
    · exact mem_spans.mpr ⟨xs, b, ys, rfl, rfl⟩
    · rw [guardFree_iff hplaced]
      simpa using hfree

/-- `mem_chunk_get` finds a block when there is a free one that is large enough. -/
theorem memChunkGet_ne_zero_iff {a n : ℕ} {bs : List Block} (h : HasBlocks v a bs)
    (hn : 12 ≤ n) (hdvd : 4 ∣ n) :
    (memChunkGet v n).2 ≠ 0 ↔ ∃ b ∈ bs, b.request = none ∧ n ≤ b.size := by
  constructor
  · intro hne
    have hcur := cursor_start a bs
    rw [← h.list] at hcur
    cases hloop : chunkLoop v.mem n v.heap.size 0 v.heap.freeList with
    | none =>
      rw [memChunkGet, hloop] at hne
      exact absurd rfl hne
    | some r =>
      obtain ⟨xs, b, ys, rfl, hfree, hnb, -, -⟩ := chunkLoop_freeAt h.seg hcur hloop
      exact ⟨b, by simp, hfree, hnb⟩
  · rintro ⟨b, hb, hfree, hnb⟩
    rcases memChunkGet_spec (q := 0) h hn hdvd (by omega) with
      ⟨-, hnone⟩ | ⟨m, fl, p, bs', c, heq, hblocks, hgrant, -⟩
    · exact absurd (hnone b hb hfree) (by omega)
    · have hbounds := hblocks.bounds (hgrant.inUse.mem_iff.mpr (mem_cons_self ..))
      have hpos := h.pos
      rw [heq]
      omega

theorem memChunkGet_bound {a n : ℕ} {bs : List Block} (h : HasBlocks v a bs)
    (hn : 12 ≤ n) (hdvd : 4 ∣ n) : (memChunkGet v n).2 + 4 < 2 ^ 32 := by
  rcases memChunkGet_spec (q := 0) h hn hdvd (by omega) with
    ⟨heq, -⟩ | ⟨m, fl, p, bs', c, heq, hblocks, hgrant, -⟩
  · rw [heq]
    exact (by decide : 0 + 4 < 2 ^ 32)
  · have hbounds := hblocks.bounds (hgrant.inUse.mem_iff.mpr (mem_cons_self ..))
    have hlt := hblocks.lt
    have hc := c.le_size
    rw [heq]
    omega

/-- **`MEM_Allocate` finds a block** when the size is one it takes and there is a free block that
is large enough. -/
theorem memAllocate_ne_zero_iff {a n : ℕ} {bs : List Block} (h : IsHeap v a bs)
    (hn : n < 2 ^ 32) :
    (memAllocate v n).2 ≠ 0 ↔ 0 < n ∧ n < 2 ^ 32 - 8 ∧
      ∃ b ∈ bs, b.request = none ∧ memNewSize (max 4 n) ≤ b.size := by
  rcases Nat.eq_zero_or_pos n with rfl | hpos
  · rw [memAllocate, if_pos rfl]
    simp
  rcases Nat.lt_or_ge n (2 ^ 32 - 8) with hlt | hbig
  swap
  · rw [memAllocate_of_wrap hbig hn]
    exact iff_of_false (fun h => h rfl) fun h => by omega
  have hmax : (if n < 4 then 4 else n) = max 4 n := by
    split <;> omega
  rw [and_iff_right hpos, and_iff_right hlt]
  rcases memNewSize_spec (by omega : 4 ≤ max 4 n) (by omega) with ⟨-, hle, hdvd, hfit⟩ | ⟨hwrap, -⟩
  swap
  · omega
  rw [← memChunkGet_ne_zero_iff h.toHasBlocks (by omega) hdvd, memAllocate, if_neg (by omega),
    hmax]
  dsimp only
  rw [if_neg (by omega)]
  by_cases hblock : (memChunkGet v (memNewSize (max 4 n))).2 = 0
  · rw [if_pos hblock]
    exact iff_of_false (fun h => h rfl) fun h => h hblock
  · rw [if_neg hblock]
    have hbound := memChunkGet_bound h.toHasBlocks (by omega : 12 ≤ memNewSize (max 4 n)) hdvd
    refine iff_of_true ?_ hblock
    rw [memBlockHeadSize, u32_of_lt hbound]
    omega

section Right

variable {i : Fin memHeapListNum} {a n m ptr : ℕ} {r : HeapRun} {s : HeapState} {bs : List Block}
  {site : CallSite}

theorem debugRoom_iff (h : IsHeap (s.env i) a bs) :
    DebugRoom i s m ↔ (tuyaMemHeapDebugMalloc s (some i) m site).2 ≠ 0 := by
  have hsnd : (tuyaMemHeapDebugMalloc s (some i) m site).2 =
      (memAllocate (s.env i) (debugSize m)).2 := memAllocateDebug_snd (s.env i) m site
  rw [hsnd, memAllocate_ne_zero_iff h (debugSize_lt m), ← h.exists_free_iff]
  rfl

/-- Without room nothing is read and nothing returned. -/
theorem debugRealloc_null (h : (tuyaMemHeapDebugMalloc s (some i) m site).2 = 0) :
    DebugReallocRight i s ptr n m site := by
  have heq : tuyaMemHeapDebugRealloc s (some i) ptr m site =
      ⟨(tuyaMemHeapDebugMalloc s (some i) m site).1, 0, none⟩ := by
    rw [tuyaMemHeapDebugRealloc]
    dsimp only
    rw [if_pos h]
  constructor
  · rintro x ⟨y, hy, -⟩
    rw [heq] at hy
    cases hy
  · intro hne
    rw [heq] at hne
    exact absurd rfl hne

/-- With room, `m` bytes are read. -/
theorem debugRealloc_reads (h : (tuyaMemHeapDebugMalloc s (some i) m site).2 ≠ 0) (x : ℕ) :
    (tuyaMemHeapDebugRealloc s (some i) ptr m site).Reads x ↔ ptr ≤ x ∧ x < ptr + m := by
  have heq : (tuyaMemHeapDebugRealloc s (some i) ptr m site).reads = some (ptr, m) := by
    rw [tuyaMemHeapDebugRealloc]
    dsimp only
    rw [if_neg h]
  rw [DebugMove.Reads, heq]
  simp

/-- A free block beside one in use: the one in use does not fill the heap. -/
theorem size_add_le_total {p : ℕ} {b e : Block} (hb : (p, b) ∈ inUse a bs) (he : e ∈ bs)
    (hfree : e.request = none) : b.size + e.size ≤ total bs := by
  obtain ⟨us, vs, rfl⟩ := append_of_mem he
  obtain ⟨xs, ys, hbs, rfl, hused⟩ := mem_inUse.mp hb
  have htotal : total us + (e.size + total vs) = total xs + (b.size + total ys) := by
    rw [← total_cons, ← total_append, hbs, total_append, total_cons]
  rw [total_append, total_cons]
  rcases apart_of_append hbs with ⟨-, rfl, -⟩ | h | h
  · exact absurd hfree hused
  · omega
  · omega

/-- **A debug reallocation of a block that has the bytes asked for** is right. -/
theorem HeapInv.debugReallocRight_of_le {l : ℕ} (h : HeapInv i a l r bs)
    (hptr : (ptr, n) ∈ r.live) (hm : m + 4 ≤ blockSize r.state.mem (ptr - 4)) :
    DebugReallocRight i r.state ptr n m site := by
  by_cases hnull : (tuyaMemHeapDebugMalloc r.state (some i) m site).2 = 0
  · exact debugRealloc_null hnull
  obtain ⟨p, b, hb, rfl, hreq⟩ := exists_of_mem_live h.live hptr
  have hsizep : blockSize r.state.mem p = b.size := h.isHeap.blockSize_eq hb
  have hlt := h.isHeap.lt
  rw [Nat.add_sub_cancel, hsizep] at hm
  -- there is a free block beside the old one, so that the size does not wrap
  have hsmall : m ≤ 2 ^ 32 - 16 := by
    have hroom := (memAllocate_ne_zero_iff h.isHeap (debugSize_lt m)).mp
      ((memAllocateDebug_snd _ m site).symm.trans_ne hnull)
    obtain ⟨-, -, e, he, hfree, -⟩ := hroom
    have hele := e.le_size
    have := size_add_le_total hb he hfree
    omega
  constructor
  · intro x hx
    obtain ⟨hlo, hhi⟩ := (debugRealloc_reads hnull x).mp hx
    rw [InBlockOf, Nat.add_sub_cancel, hsizep]
    omega
  · intro _ k hk
    rcases tuyaMemHeapDebugMalloc_spec h.isHeap hsmall site with
      heq | ⟨s, bs₁, q, c, heq, hs, hc, -, hkeeps⟩
    · rw [heq] at hnull
      exact absurd rfl hnull
    have hb₁ : (p, b) ∈ inUse a bs₁ := hs.granted.inUse.mem_iff.mpr (mem_cons_of_mem _ hb)
    have hne : q ≠ p := (start_ne_of_perm hs.granted.inUse (p, b) hb).symm
    have hheap := hs.isHeap.write (m := s.mem.copy (q + 4) (p + 4) m) hs.mem fun x hx =>
      Ram.byte_copy_of_notMem (by omega)
    obtain ⟨t, ht, hmem⟩ : ∃ t : HeapState, t = { s with mem := s.mem.copy (q + 4) (p + 4) m } ∧
        t.mem = s.mem.copy (q + 4) (p + 4) m := ⟨_, rfl, rfl⟩
    have henv : t.env i = { s.env i with mem := s.mem.copy (q + 4) (p + 4) m } := by
      rw [ht]
      rfl
    rw [← henv] at hheap
    have hfreed := tuyaMemHeapFree_keeps hheap hb₁ hs.mem hne
    have hrealloc : tuyaMemHeapDebugRealloc r.state (some i) (p + 4) m site =
        ⟨tuyaMemHeapFree t (some i) (p + 4), q + 4, some (p + 4, m)⟩ := by
      rw [tuyaMemHeapDebugRealloc, heq, ht]
      dsimp only
      rw [if_neg (by omega)]
    rw [hrealloc]
    calc (tuyaMemHeapFree t (some i) (p + 4)).mem.byte (q + 4 + k)
        = t.mem.byte (q + 4 + k) := hfreed _ (by omega) (by omega)
      _ = s.mem.byte (p + 4 + k) := by
          rw [hmem]
          exact Ram.byte_copy _ _ _ (by omega)
      _ = r.state.mem.byte (p + 4 + k) := hkeeps p b hb _ (by omega) (by omega)

end Right

/-- **A debug reallocation is right if and only if** there is no room for the new block, or nothing
is asked for, or the old block has as many bytes as are asked for, in every heap that calls of
both kinds reach whose blocks fit into the address space. -/
theorem debugRealloc_iff {s₀ s : HeapState} {base size : ℕ} {i : Fin memHeapListNum}
    (hcreate : tuyaMemHeapCreate s₀ base size = (s, some i)) (hlt : base + size < 2 ^ 32)
    (hmin : memHeapMinSize ≤ regionSize base size) {cs : List DebugCall}
    (hvalid : (HeapRun.start s i).DebugValid i cs) (haddr : ∀ c ∈ cs, c.Addressable)
    {ptr n m : ℕ} (site : CallSite)
    (hptr : ptr = 0 ∧ n = 0 ∨ (ptr, n) ∈ ((HeapRun.start s i).debugRuns i cs).live) :
    DebugReallocRight i ((HeapRun.start s i).debugRuns i cs).state ptr n m site ↔
      ¬DebugRoom i ((HeapRun.start s i).debugRuns i cs).state m ∨ m = 0 ∨
        ptr ≠ 0 ∧
          m + 4 ≤ blockSize ((HeapRun.start s i).debugRuns i cs).state.mem (ptr - 4) := by
  obtain ⟨bs₀, h₀⟩ := tuyaMemHeapCreate_inv hcreate hlt hmin
  obtain ⟨bs, h⟩ := h₀.debugRuns hvalid haddr
  generalize (HeapRun.start s i).debugRuns i cs = r at *
  have hroom : DebugRoom i r.state m ↔ (tuyaMemHeapDebugMalloc r.state (some i) m site).2 ≠ 0 :=
    debugRoom_iff h.isHeap
  rw [hroom, not_not]
  constructor
  · intro hright
    by_cases hnull : (tuyaMemHeapDebugMalloc r.state (some i) m site).2 = 0
    · exact .inl hnull
    by_cases hm : m = 0
    · exact .inr (.inl hm)
    refine .inr (.inr ⟨?_, ?_⟩)
    · exact (hright.reads ptr ((debugRealloc_reads hnull ptr).mpr (by omega))).1
    · -- the last byte read lies in the block
      have hread : (tuyaMemHeapDebugRealloc r.state (some i) ptr m site).Reads (ptr + m - 1) :=
        (debugRealloc_reads hnull _).mpr (by omega)
      obtain ⟨hne, -, hhi⟩ := hright.reads _ hread
      have hptr4 : 4 ≤ ptr := by
        rcases hptr with ⟨h0, -⟩ | hlive
        · exact absurd h0 hne
        · obtain ⟨p, b, -, rfl, -⟩ := exists_of_mem_live h.live hlive
          omega
      omega
  · rintro (hnull | rfl | ⟨hne, hm⟩)
    · exact debugRealloc_null hnull
    · -- nothing is read
      by_cases hnull : (tuyaMemHeapDebugMalloc r.state (some i) 0 site).2 = 0
      · exact debugRealloc_null hnull
      · refine ⟨fun x hx => ?_, fun _ k hk => by omega⟩
        have := (debugRealloc_reads hnull x).mp hx
        omega
    · rcases hptr with ⟨h0, -⟩ | hlive
      · exact absurd h0 hne
      · exact h.debugReallocRight_of_le hlive hm

/-- Where the calls of the examples come from. -/
def exampleSite : CallSite := ⟨0, 1⟩

/-- A block of forty bytes, of which twelve are kept. -/
theorem debugRealloc_shrink :
    DebugReallocRight 0 ((HeapRun.start exampleHeap 0).debugRuns 0 [.malloc 40 exampleSite]).state
      4292 40 12 exampleSite := by
  have hvalid : (HeapRun.start exampleHeap 0).DebugValid 0 [.malloc 40 exampleSite] :=
    ⟨(by decide : 40 < 2 ^ 32), trivial⟩
  exact (debugRealloc_iff exampleHeap_eq (by decide) (by decide) hvalid
    (by simp [DebugCall.Addressable]) exampleSite (.inr (by decide +kernel))).mpr
    (.inr (.inr ⟨by decide, by decide +kernel⟩))

/-- Ten bytes that are to become forty: the last of them is read behind the block, and for null
it is read all the same. -/
theorem debugRealloc_grow :
    tuyaMemHeapCreate HeapState.zero 0x1000 256 = (exampleHeap, some 0) ∧
      (HeapRun.start exampleHeap 0).DebugValid 0 [.plain (.malloc 10)] ∧
      (4340, 10) ∈ ((HeapRun.start exampleHeap 0).debugRuns 0 [.plain (.malloc 10)]).live ∧
      (tuyaMemHeapDebugRealloc ((HeapRun.start exampleHeap 0).debugRuns 0
        [.plain (.malloc 10)]).state (some 0) 4340 40 exampleSite).reads = some (4340, 40) ∧
      ¬DebugReallocRight 0 ((HeapRun.start exampleHeap 0).debugRuns 0
        [.plain (.malloc 10)]).state 4340 10 40 exampleSite ∧
      ¬DebugReallocRight 0 exampleHeap 0 0 40 exampleSite := by
  have hreads : (tuyaMemHeapDebugRealloc ((HeapRun.start exampleHeap 0).debugRuns 0
      [.plain (.malloc 10)]).state (some 0) 4340 40 exampleSite).reads = some (4340, 40) := by
    decide +kernel
  have hreads' : (tuyaMemHeapDebugRealloc exampleHeap (some 0) 0 40 exampleSite).reads =
      some (0, 40) := by
    decide +kernel
  have hsize : blockSize ((HeapRun.start exampleHeap 0).debugRuns 0
      [.plain (.malloc 10)]).state.mem 4336 = 16 := by
    decide +kernel
  refine ⟨exampleHeap_eq, ⟨(by decide : 10 < 2 ^ 32), trivial⟩, by decide +kernel, hreads,
    fun h => ?_, fun h => ?_⟩
  · obtain ⟨-, -, hhi⟩ := h.reads 4379 ⟨(4340, 40), hreads, by decide⟩
    rw [hsize] at hhi
    omega
  · exact (h.reads 0 ⟨(0, 40), hreads', by decide⟩).1 rfl

end Tuya

end Gd32
