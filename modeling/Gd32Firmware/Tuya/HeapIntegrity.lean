import Gd32Firmware.Tuya.HeapOps

/-!
# The integrity of a heap

Runs of calls on one heap: `malloc`, `calloc`, `realloc` and `free`, in any order, and clients
that write into what they have been given. `Tuya.Integrity` says in terms of the memory
what holds between the calls: the blocks tile the region, the list of free blocks is what the
guard bytes say, the counters are right, and the payloads that are live do not meet.

It holds after every call, with one exception (`Tuya.integrity_iff`): a `realloc` to a size
whose block is larger than the address space. `MEM_Allocate` refuses such a size, because the
sum it computes wraps to less than the size; `tuya_mem_heap_realloc` computes the same sum and
compares it with the old block only, which looks large enough.
-/

namespace Gd32

open List Option

variable {c : Block} {s₀ : HeapState} {us : List (ℕ × Block)}

variable {m : Ram} {base size k ptr : ℕ} {frees : List ℕ} {s : HeapState} {cs : List HeapCall}

namespace Tuya

/-! ### The statement -/

/-- Blocks, as addresses and sizes, that fill the bytes from `lo` to `hi`. -/
def Tiles (lo hi : ℕ) : List (ℕ × ℕ) → Prop
  | [] => lo = hi
  | x :: xs => x.1 = lo ∧ 0 < x.2 ∧ Tiles (lo + x.2) hi xs

/-- The guard byte of a block is `MEM_BLOCK_STAT_FREE`. -/
def guardFree (m : Ram) (x : ℕ × ℕ) : Bool := m.byte (x.1 + x.2 - 1) == memBlockStatFree

/-- The guard byte of a block is `MEM_BLOCK_STAT_USE`. -/
def guardUse (m : Ram) (x : ℕ × ℕ) : Bool := m.byte (x.1 + x.2 - 1) == memBlockStatUse

/-- The blocks that the links lead through, from the block `p` on. -/
def FreeList (m : Ram) : ℕ → List ℕ → Prop
  | p, [] => p = 0
  | p, a :: as => p ≠ 0 ∧ p = a ∧ FreeList m (blockNext m a) as

/-- **The integrity of a heap** over the region of `size` bytes at `base`: `blocks` are its
blocks, `live` the pointers handed out with the sizes requested, and `frees` the values that
`heap->free` has had. -/
structure Integrity (base size : ℕ) (v : HeapEnv) (live : List (ℕ × ℕ)) (frees : List ℕ)
    (blocks : List (ℕ × ℕ)) : Prop where
  tiles : Tiles (regionStart base) (regionStart base + regionSize base size) blocks
  header : ∀ x ∈ blocks, blockSize v.mem x.1 = x.2
  guard : ∀ x ∈ blocks, guardFree v.mem x ∨ guardUse v.mem x
  /-- The list of free blocks leads through those whose guard says so, and no others. -/
  list : FreeList v.mem v.heap.freeList ((blocks.filter (guardFree v.mem)).map Prod.fst)
  ordered : ((blocks.filter (guardFree v.mem)).map Prod.fst).Pairwise (· < ·)
  noAdjacent : ∀ x ∈ blocks, ∀ y ∈ blocks, x.1 + x.2 = y.1 →
    ¬(guardFree v.mem x ∧ guardFree v.mem y)
  /-- `heap->free` is the sum of the free blocks. -/
  free : v.heap.free = ((blocks.filter (guardFree v.mem)).map Prod.snd).sum
  /-- `free_watermark` is the least value it has had. -/
  watermark : v.heap.freeWatermark ∈ frees ∧ ∀ f ∈ frees, v.heap.freeWatermark ≤ f
  /-- A live payload is aligned and lies in a block in use, between its header and its guard. -/
  payload : ∀ x ∈ live, 4 ∣ x.1 ∧
    ∃ y ∈ blocks, guardUse v.mem y ∧ x.1 = y.1 + 4 ∧ x.1 + x.2 < y.1 + y.2
  bounds : ∀ x ∈ live,
    regionStart base ≤ x.1 ∧ x.1 + x.2 ≤ regionStart base + regionSize base size
  disjoint : live.Pairwise fun x y => x.1 + x.2 ≤ y.1 ∨ y.1 + y.2 ≤ x.1
  /-- When everything is freed, there is the one free block of the beginning. -/
  fresh : live = [] → blocks = [(regionStart base, regionSize base size)] ∧
    ∀ x ∈ blocks, guardFree v.mem x

/-! ### From the blocks to the statement -/

/-- The addresses and sizes of blocks from `a` on. -/
def spans : ℕ → List Block → List (ℕ × ℕ)
  | _, [] => []
  | a, b :: bs => (a, b.size) :: spans (a + b.size) bs

theorem tiles_spans (a : ℕ) (bs : List Block) : Tiles a (a + total bs) (spans a bs) := by
  induction bs generalizing a with
  | nil => simp [spans, Tiles]
  | cons b bs ih =>
    have hb := b.le_size
    refine ⟨rfl, by omega, ?_⟩
    rw [total_cons, ← Nat.add_assoc]
    exact ih _

/-- A block among the spans. -/
theorem mem_spans {a : ℕ} {bs : List Block} {x : ℕ × ℕ} :
    x ∈ spans a bs ↔ ∃ xs b ys, bs = xs ++ b :: ys ∧ x = (a + total xs, b.size) := by
  constructor
  · intro h
    induction bs generalizing a with
    | nil => simp [spans] at h
    | cons c bs ih =>
      rcases mem_cons.mp h with rfl | h
      · exact ⟨[], c, bs, rfl, rfl⟩
      · obtain ⟨xs, b, ys, rfl, rfl⟩ := ih h
        exact ⟨c :: xs, b, ys, rfl, by simp [Nat.add_assoc]⟩
  · rintro ⟨xs, b, ys, rfl, rfl⟩
    induction xs generalizing a with
    | nil => exact mem_cons_self ..
    | cons c xs ih =>
      refine mem_cons_of_mem _ ?_
      rw [total_cons, ← Nat.add_assoc]
      exact ih

theorem guardFree_iff {a : ℕ} {b : Block} (h : Placed m a b) :
    guardFree m (a, b.size) = decide (b.request = none) := by
  rw [guardFree, h.2]
  cases hb : b.request with
  | none => simp [Block.guard_of_none hb]
  | some n => simp [Block.guard_of_some hb, memBlockStatUse, memBlockStatFree]

theorem guardUse_of_request {a : ℕ} {b : Block} (h : Placed m a b)
    (hb : b.request ≠ none) : guardUse m (a, b.size) := by
  obtain ⟨n, hn⟩ := ne_none_iff_exists'.mp hb
  rw [guardUse, h.2, Block.guard_of_some hn]
  rfl

/-- The links lead through the free blocks. -/
theorem Seg.freeList {a : ℕ} {bs : List Block} (ha : 0 < a) (h : Seg m 0 a bs) :
    FreeList m (firstFree a bs 0) (((spans a bs).filter (guardFree m)).map Prod.fst) := by
  induction bs generalizing a with
  | nil => rfl
  | cons b bs ih =>
    obtain ⟨hplaced, hlink, hrest⟩ := h
    rw [firstFree, spans, filter_cons, guardFree_iff hplaced]
    by_cases hfree : b.request = none
    · rw [if_pos hfree, if_pos (by simpa using hfree)]
      refine ⟨by omega, rfl, ?_⟩
      rw [hlink hfree]
      exact ih (by omega) hrest
    · rw [if_neg hfree, if_neg (by simpa using hfree)]
      exact ih (by omega) hrest

theorem Seg.freeTotal_eq {nx a : ℕ} {bs : List Block} (h : Seg m nx a bs) :
    freeTotal bs = (((spans a bs).filter (guardFree m)).map Prod.snd).sum := by
  induction bs generalizing a with
  | nil => rfl
  | cons b bs ih =>
    obtain ⟨hplaced, -, hrest⟩ := h
    rw [freeTotal, spans, filter_cons, guardFree_iff hplaced, ih hrest]
    by_cases hfree : b.request = none
    · simp [hfree]
    · simp [hfree]

theorem spans_pairwise (a : ℕ) (bs : List Block) :
    (spans a bs).Pairwise fun x y => x.1 + x.2 ≤ y.1 := by
  induction bs generalizing a with
  | nil => exact .nil
  | cons b bs ih =>
    refine pairwise_cons.mpr ⟨fun x hx => ?_, ih _⟩
    obtain ⟨xs, c, ys, -, rfl⟩ := mem_spans.mp hx
    exact Nat.le_add_right _ _

theorem inUse_pairwise (a : ℕ) (bs : List Block) :
    (inUse a bs).Pairwise fun x y => x.1 + x.2.size ≤ y.1 := by
  induction bs generalizing a with
  | nil => exact .nil
  | cons b bs ih =>
    rw [inUse]
    split
    · exact ih _
    · refine pairwise_cons.mpr ⟨?_, ih _⟩
      rintro ⟨p, c⟩ hx
      obtain ⟨xs, ys, -, rfl, -⟩ := mem_inUse.mp hx
      exact Nat.le_add_right _ _

/-- Blocks that are all free, with no two neighbours among them, are one block. -/
theorem eq_singleton_of_inUse_eq_nil {a : ℕ} {bs : List Block} (hadj : NoAdjacent bs)
    (hpos : 0 < total bs) (h : inUse a bs = []) : ∃ b, bs = [b] ∧ b.request = none := by
  match bs with
  | [] => simp at hpos
  | [b] =>
    refine ⟨b, rfl, ?_⟩
    by_contra hb
    simp [inUse, hb] at h
  | b :: c :: bs =>
    rcases isChain_cons_cons.mp hadj with ⟨hb | hc, -⟩
    · simp [inUse, hb] at h
    · rw [inUse] at h
      split at h
      · simp [inUse, hc] at h
      · simp at h

/-- Of two blocks, one ending where the other begins, one is in use. -/
theorem NoAdjacent.request_ne_none {xs ys us vs : List Block} {b : Block}
    (hadj : NoAdjacent (xs ++ b :: ys)) (hbs : xs ++ b :: ys = us ++ c :: vs)
    (hend : total xs + b.size = total us) (hb : b.request = none) : c.request ≠ none := by
  have hble := b.le_size
  induction xs generalizing us with
  | nil =>
    cases us with
    | nil => simp at hend; omega
    | cons u us =>
      obtain ⟨rfl, rfl⟩ := List.cons.inj hbs
      obtain rfl := total_eq_zero (by simpa using hend)
      exact (isChain_cons_cons.mp hadj).1.resolve_left fun h => h hb
  | cons x xs ih =>
    cases us with
    | nil => simp at hend; omega
    | cons u us =>
      obtain ⟨rfl, htail⟩ := List.cons.inj hbs
      rw [total_cons, total_cons] at hend
      exact ih (List.IsChain.of_cons hadj) htail (by omega)

/-- What a client knows of a block in use: where its payload begins and its size. -/
def payload (x : ℕ × Block) : ℕ × ℕ := (x.1 + 4, x.2.request.getD 0)

theorem payload_fits {a : ℕ} {bs : List Block} {x : ℕ × Block} (h : x ∈ inUse a bs) :
    (payload x).2 + 5 ≤ x.2.size := by
  obtain ⟨p, b⟩ := x
  obtain ⟨-, -, -, -, hused⟩ := mem_inUse.mp h
  obtain ⟨n, hn⟩ := ne_none_iff_exists'.mp hused
  have := b.fits n (by simp [hn])
  simpa [payload, hn] using this

/-- **A heap that stands for its blocks has integrity.** -/
theorem IsHeap.integrity {v : HeapEnv} {bs : List Block}
    (h : IsHeap v (regionStart base) bs) (htotal : total bs = regionSize base size)
    (hpos : 0 < regionSize base size) {live : List (ℕ × ℕ)}
    (hlive : live.Perm ((inUse (regionStart base) bs).map payload))
    (hmem : v.heap.freeWatermark ∈ frees) (hle : ∀ f ∈ frees, v.heap.freeWatermark ≤ f) :
    Integrity base size v live frees (spans (regionStart base) bs) := by
  have hplaced : ∀ {xs b ys}, bs = xs ++ b :: ys → Placed v.mem (regionStart base + total xs) b := by
    rintro xs b ys rfl
    exact (seg_append.mp h.seg).2.1
  have hlive' : ∀ x ∈ live, ∃ xs b ys, bs = xs ++ b :: ys ∧ b.request ≠ none ∧
      x.1 = regionStart base + total xs + 4 ∧ x.2 + 5 ≤ b.size := by
    intro x hx
    obtain ⟨⟨p, b⟩, hb, rfl⟩ := mem_map.mp (hlive.mem_iff.mp hx)
    obtain ⟨xs, ys, hbs, rfl, hused⟩ := mem_inUse.mp hb
    exact ⟨xs, b, ys, hbs, hused, rfl, payload_fits hb⟩
  have hdvd : ∀ xs : List Block, 4 ∣ total xs := by
    intro xs
    induction xs with
    | nil => simp
    | cons b xs ih => exact (Nat.dvd_add_right b.dvd_size).mpr ih
  have hstart := h.dvd
  refine ⟨htotal ▸ tiles_spans _ _, ?_, ?_, h.list ▸ h.seg.freeList h.pos, ?_, ?_, ?_, ⟨hmem, hle⟩,
    ?_, ?_, ?_, ?_⟩
  · intro x hx
    obtain ⟨xs, b, ys, hbs, rfl⟩ := mem_spans.mp hx
    exact (hplaced hbs).1
  · intro x hx
    obtain ⟨xs, b, ys, hbs, rfl⟩ := mem_spans.mp hx
    by_cases hfree : b.request = none
    · exact .inl (by rw [guardFree_iff (hplaced hbs)]; simpa using hfree)
    · exact .inr (guardUse_of_request (hplaced hbs) hfree)
  · have hlt : (spans (regionStart base) bs).Pairwise fun x y => x.1 < y.1 := by
      refine (spans_pairwise _ _).imp_of_mem fun hx _ hxy => ?_
      obtain ⟨xs, b, ys, -, rfl⟩ := mem_spans.mp hx
      have := b.le_size
      omega
    exact pairwise_map.mpr (hlt.sublist filter_sublist)
  · intro x hx y hy hxy
    obtain ⟨xs, b, ys, hbs, rfl⟩ := mem_spans.mp hx
    obtain ⟨us, c, vs, hbs', rfl⟩ := mem_spans.mp hy
    rw [guardFree_iff (hplaced hbs), guardFree_iff (hplaced hbs')]
    simp only [decide_eq_true_eq, not_and]
    intro hb
    have hadj := h.noAdjacent
    rw [hbs] at hadj
    refine hadj.request_ne_none (hbs.symm.trans hbs') ?_ hb
    omega
  · rw [h.free]
    exact h.seg.freeTotal_eq
  · intro x hx
    obtain ⟨xs, b, ys, hbs, hused, hx1, hx2⟩ := hlive' x hx
    have := hdvd xs
    refine ⟨by omega, _, mem_spans.mpr ⟨xs, b, ys, hbs, rfl⟩,
      guardUse_of_request (hplaced hbs) hused, hx1, ?_⟩
    omega
  · intro x hx
    obtain ⟨xs, b, ys, rfl, -, hx1, hx2⟩ := hlive' x hx
    rw [total_append, total_cons] at htotal
    omega
  · refine (hlive.pairwise_iff ?_).mpr (pairwise_map.mpr ?_)
    · exact fun h => h.symm
    · refine (inUse_pairwise _ _).imp_of_mem fun hx _ hxy => .inl ?_
      have := payload_fits hx
      simp only [payload] at this ⊢
      omega
  · rintro rfl
    have hnil : inUse (regionStart base) bs = [] := by
      simpa using hlive.symm.eq_nil
    obtain ⟨b, rfl, hb⟩ := eq_singleton_of_inUse_eq_nil h.noAdjacent (by omega) hnil
    have hsize : b.size = regionSize base size := by simpa using htotal
    refine ⟨by rw [spans, spans, hsize], fun x hx => ?_⟩
    obtain rfl := mem_singleton.mp hx
    rw [guardFree_iff h.seg.1]
    simpa using hb

/-! ### Runs -/

/-- A call on the heap, or a byte written by a client. -/
inductive HeapCall where
  /-- `tuya_mem_heap_malloc`. -/
  | malloc (size : ℕ)
  /-- `tuya_mem_heap_calloc`. -/
  | calloc (size : ℕ)
  /-- `tuya_mem_heap_realloc`. -/
  | realloc (ptr size : ℕ)
  /-- `tuya_mem_heap_free`. -/
  | free (ptr : ℕ)
  /-- A client writes a byte of its payload. -/
  | write (ptr offset : ℕ) (b : UInt8)

/-- What is followed along a run: the state, the pointers handed out with the sizes requested
for them, and the values that `heap->free` has had. -/
structure HeapRun where
  state : HeapState
  live : List (ℕ × ℕ)
  /-- The values of `heap->free`, the last one first. -/
  frees : List ℕ

/-- A call gets only pointers that are live, and a client writes only bytes it has requested;
`free` and `realloc` also take null. -/
def HeapCall.Valid (r : HeapRun) : HeapCall → Prop
  | malloc size => size < 2 ^ 32
  | calloc size => size < 2 ^ 32
  | realloc ptr size => size < 2 ^ 32 ∧ (ptr = 0 ∨ ∃ n, (ptr, n) ∈ r.live)
  | free ptr => ptr = 0 ∨ ∃ n, (ptr, n) ∈ r.live
  | write ptr offset _ => ∃ n, (ptr, n) ∈ r.live ∧ offset < n

/-- A pointer is handed out, unless it is null. -/
def grant (live : List (ℕ × ℕ)) (ptr size : ℕ) : List (ℕ × ℕ) :=
  if ptr = 0 then live else (ptr, size) :: live

/-- A pointer is no longer live. -/
def revoke (live : List (ℕ × ℕ)) (ptr : ℕ) : List (ℕ × ℕ) := live.filter fun x => x.1 ≠ ptr

/-- Making a call on the heap `i`. -/
def HeapCall.run (i : Fin memHeapListNum) (r : HeapRun) : HeapCall → HeapRun
  | malloc size =>
    let (s, ptr) := tuyaMemHeapMalloc r.state (some i) size
    ⟨s, grant r.live ptr size, (s.memHeapList i).free :: r.frees⟩
  | calloc size =>
    let (s, ptr) := tuyaMemHeapCalloc r.state (some i) size
    ⟨s, grant r.live ptr size, (s.memHeapList i).free :: r.frees⟩
  | realloc old size =>
    -- between the allocation of the new block and the release of the old one, `free` is lower
    let between := (reallocMove r.state (some i) old size).1
    let (s, ptr) := tuyaMemHeapRealloc r.state (some i) old size
    ⟨s, if ptr = 0 then r.live else grant (revoke r.live old) ptr size,
      (s.memHeapList i).free :: (between.memHeapList i).free :: r.frees⟩
  | free ptr =>
    let s := tuyaMemHeapFree r.state (some i) ptr
    ⟨s, revoke r.live ptr, (s.memHeapList i).free :: r.frees⟩
  | write ptr offset b =>
    ⟨{ r.state with mem := r.state.mem.put (ptr + offset) b }, r.live, r.frees⟩

/-- The calls of a list, one after the other. -/
def HeapRun.runs (i : Fin memHeapListNum) (r : HeapRun) : List HeapCall → HeapRun
  | [] => r
  | c :: cs => (c.run i r).runs i cs

/-- Every call is valid when it is made. -/
def HeapRun.Valid (i : Fin memHeapListNum) (r : HeapRun) : List HeapCall → Prop
  | [] => True
  | c :: cs => c.Valid r ∧ (c.run i r).Valid i cs

/-- The beginning of a run: the heap has been created, and nothing is live. -/
def HeapRun.start (s : HeapState) (i : Fin memHeapListNum) : HeapRun :=
  ⟨s, [], [(s.memHeapList i).free]⟩

/-! ### The invariant -/

/-- The watermark is the least of the values so far, the present one among them. -/
structure Watermark (h : MemHeap) (frees : List ℕ) : Prop where
  mem : h.freeWatermark ∈ frees
  le : ∀ f ∈ frees, h.freeWatermark ≤ f
  le_free : h.freeWatermark ≤ h.free

/-- **What holds between the calls**: the heap stands for the blocks `bs`, and those in use are
the live pointers. -/
structure HeapInv (i : Fin memHeapListNum) (a n : ℕ) (r : HeapRun) (bs : List Block) : Prop where
  isHeap : IsHeap (r.state.env i) a bs
  total : total bs = n
  live : r.live.Perm ((inUse a bs).map payload)
  watermark : Watermark (r.state.memHeapList i) r.frees

@[simp] theorem HeapState.env_set (s : HeapState) (i : Fin memHeapListNum) (v : HeapEnv) :
    (s.set i v).env i = v := by
  simp [HeapState.env, HeapState.set]

@[simp] theorem HeapState.memHeapList_set (s : HeapState) (i : Fin memHeapListNum) (v : HeapEnv) :
    (s.set i v).memHeapList i = v.heap := by
  simp [HeapState.set]

/-- The watermark after an allocation. -/
theorem Watermark.taken {h h' : MemHeap} (hw : Watermark h frees)
    (heq : h'.freeWatermark = min h.freeWatermark h'.free) : Watermark h' (h'.free :: frees) := by
  refine ⟨?_, ?_, ?_⟩
  · rw [heq]
    rcases min_choice h.freeWatermark h'.free with hmin | hmin
    · rw [hmin]
      exact mem_cons_of_mem _ hw.mem
    · rw [hmin]
      exact mem_cons_self ..
  · intro f hf
    rcases mem_cons.mp hf with rfl | hf
    · rw [heq]
      exact min_le_right _ _
    · rw [heq]
      exact (min_le_left _ _).trans (hw.le f hf)
  · rw [heq]
    exact min_le_right _ _

/-- The watermark when `free` has not become less. -/
theorem Watermark.kept {h h' : MemHeap} (hw : Watermark h frees)
    (heq : h'.freeWatermark = h.freeWatermark) (hle : h.free ≤ h'.free) :
    Watermark h' (h'.free :: frees) := by
  have hle' : h'.freeWatermark ≤ h'.free := heq.le.trans (hw.le_free.trans hle)
  refine ⟨mem_cons_of_mem _ (heq ▸ hw.mem), ?_, hle'⟩
  intro f hf
  rcases mem_cons.mp hf with rfl | hf
  · exact hle'
  · exact heq.le.trans (hw.le f hf)

/-- The heap `i` after an allocation of the block `c` at `p`. -/
structure Allocated (i : Fin memHeapListNum) (a : ℕ) (s s' : HeapState) (bs bs' : List Block)
    (p : ℕ) (c : Block) : Prop where
  isHeap : IsHeap (s'.env i) a bs'
  granted : Granted a bs bs' p c
  watermark : (s'.memHeapList i).freeWatermark =
    min (s.memHeapList i).freeWatermark (s'.memHeapList i).free

theorem Allocated.mem {i : Fin memHeapListNum} {a : ℕ} {s' : HeapState} {bs bs' : List Block}
    {p : ℕ} (h : Allocated i a s s' bs bs' p c) : (p, c) ∈ inUse a bs' :=
  h.granted.inUse.mem_iff.mpr (mem_cons_self ..)

/-- The size that is looked for is at least the size requested. -/
theorem le_atLeast (n : ℕ) : n ≤ if n < 4 then 4 else n := by
  split <;> omega

/-- `tuya_mem_heap_malloc` on a heap. -/
theorem tuyaMemHeapMalloc_spec {i : Fin memHeapListNum} {a : ℕ} {bs : List Block}
    (h : IsHeap (s.env i) a bs) {n : ℕ} (hn : n < 2 ^ 32) (hk : k ≤ if n < 4 then 4 else n) :
    (∃ s', tuyaMemHeapMalloc s (some i) n = (s', 0) ∧ s'.env i = s.env i) ∨
      ∃ s' bs' p c, tuyaMemHeapMalloc s (some i) n = (s', p + 4) ∧ Allocated i a s s' bs bs' p c ∧
        memNewSize (if n < 4 then 4 else n) ≤ c.size ∧ c.request = some k := by
  rcases memAllocate_spec h hn hk with heq | ⟨m, fl, p, bs', c, heq, hheap, hgrant, hnew, hreq, -⟩
  · refine .inl ⟨s.set i (s.env i), ?_, s.env_set i _⟩
    simp only [tuyaMemHeapMalloc, heq]
  · refine .inr ⟨s.set i (memAllocate (s.env i) n).1, bs', p, c, ?_, ⟨?_, hgrant, ?_⟩, hnew, hreq⟩
    · simp only [tuyaMemHeapMalloc, heq]
    · rw [HeapState.env_set, heq]
      exact hheap
    · rw [HeapState.memHeapList_set, heq]
      rfl

/-- `tuya_mem_heap_free` of a block in use. -/
theorem tuyaMemHeapFree_spec {i : Fin memHeapListNum} {a p : ℕ} {bs : List Block}
    {b : Block} (h : IsHeap (s.env i) a bs) (hb : (p, b) ∈ inUse a bs) :
    ∃ bs', IsHeap ((tuyaMemHeapFree s (some i) (p + 4)).env i) a bs' ∧ Returned a bs bs' p b ∧
      ((tuyaMemHeapFree s (some i) (p + 4)).memHeapList i).freeWatermark =
        (s.memHeapList i).freeWatermark := by
  obtain ⟨m, fl, bs', heq, hheap, hret, -⟩ := memDeallocate_spec h hb
  refine ⟨bs', ?_, hret, ?_⟩
  · rw [tuyaMemHeapFree, HeapState.env_set, heq]
    exact hheap
  · rw [tuyaMemHeapFree, HeapState.memHeapList_set, heq]
    rfl

section Live

variable {a p : ℕ} {bs bs' : List Block} {b : Block} {live : List (ℕ × ℕ)}

/-- A live pointer is that of a block in use. -/
theorem exists_of_mem_live (hlive : live.Perm ((inUse a bs).map payload)) {n : ℕ}
    (h : (ptr, n) ∈ live) :
    ∃ p b, (p, b) ∈ inUse a bs ∧ ptr = p + 4 ∧ b.request = some n := by
  obtain ⟨⟨p, b⟩, hb, heq⟩ := mem_map.mp (hlive.mem_iff.mp h)
  obtain ⟨-, -, -, -, hused⟩ := mem_inUse.mp hb
  obtain ⟨k, hk⟩ := ne_none_iff_exists'.mp hused
  rw [payload, hk] at heq
  obtain ⟨rfl, rfl⟩ := Prod.mk.inj heq
  exact ⟨p, b, hb, rfl, hk⟩

theorem grant_live (hlive : live.Perm ((inUse a bs).map payload)) {n : ℕ}
    (hreq : b.request = some n) (h : Granted a bs bs' p b) :
    (grant live (p + 4) n).Perm ((inUse a bs').map payload) := by
  refine (hlive.cons _).trans ?_
  have hperm := (h.inUse.map payload).symm
  rwa [map_cons, payload, hreq, getD_some] at hperm

/-- No other block in use begins at the same place. -/
theorem start_ne_of_perm (h : (inUse a bs).Perm ((p, b) :: us)) :
    ∀ x ∈ us, x.1 ≠ p := by
  have hnodup : ((inUse a bs).map Prod.fst).Nodup := by
    refine pairwise_map.mpr ((inUse_pairwise a bs).imp ?_)
    rintro ⟨q, c⟩ y hle rfl
    have := c.le_size
    dsimp only at hle
    omega
  have hnodup' := (h.map Prod.fst).nodup_iff.mp hnodup
  rw [map_cons, nodup_cons] at hnodup'
  exact fun x hx hxp => hnodup'.1 (mem_map.mpr ⟨x, hx, hxp⟩)

/-- The other live pointers are those of the other blocks in use. -/
theorem revoke_live_of_perm (hlive : live.Perm ((inUse a bs).map payload))
    (h : (inUse a bs).Perm ((p, b) :: us)) :
    (revoke live (p + 4)).Perm (us.map payload) := by
  have hnot := start_ne_of_perm h
  refine (List.Perm.filter _ (hlive.trans (h.map payload))).trans ?_
  rw [map_cons, filter_cons_of_neg (by simp [payload])]
  refine List.Perm.of_eq (filter_eq_self.mpr fun x hx => ?_)
  obtain ⟨y, hy, rfl⟩ := mem_map.mp hx
  have := hnot y hy
  simpa [payload] using this

theorem revoke_live (hlive : live.Perm ((inUse a bs).map payload)) (h : Returned a bs bs' p b) :
    (revoke live (p + 4)).Perm ((inUse a bs').map payload) :=
  revoke_live_of_perm hlive h.inUse

end Live

section Step

variable {i : Fin memHeapListNum} {a n : ℕ} {r : HeapRun} {bs : List Block}

/-- No live pointer is null. -/
theorem HeapInv.revoke_zero (h : HeapInv i a n r bs) : revoke r.live 0 = r.live := by
  refine filter_eq_self.mpr fun x hx => ?_
  obtain ⟨p, b, -, hptr, -⟩ := exists_of_mem_live h.live (show (x.1, x.2) ∈ r.live from hx)
  simp [hptr]

/-- A call that leaves the heap alone. -/
theorem HeapInv.refused (h : HeapInv i a n r bs) (hs : s.env i = r.state.env i) :
    HeapInv i a n ⟨s, r.live, (s.memHeapList i).free :: r.frees⟩ bs := by
  have hlist : s.memHeapList i = r.state.memHeapList i := congrArg HeapEnv.heap hs
  refine ⟨?_, h.total, h.live, h.watermark.kept ?_ ?_⟩
  · rw [hs]
    exact h.isHeap
  · rw [hlist]
  · rw [hlist]

/-- A call that allocates. -/
theorem HeapInv.allocated (h : HeapInv i a n r bs) {bs' : List Block} {p : ℕ}
    (hs : Allocated i a r.state s bs bs' p c) (hreq : c.request = some k) :
    HeapInv i a n ⟨s, grant r.live (p + 4) k, (s.memHeapList i).free :: r.frees⟩ bs' :=
  ⟨hs.isHeap, hs.granted.total.trans h.total, grant_live h.live hreq hs.granted,
    h.watermark.taken hs.watermark⟩

/-- A call that releases. -/
theorem HeapInv.freed (h : HeapInv i a n r bs) {p : ℕ} {b : Block} (hb : (p, b) ∈ inUse a bs) :
    ∃ bs', HeapInv i a n ((HeapCall.free (p + 4)).run i r) bs' := by
  obtain ⟨bs', hheap, hret, hwm⟩ := tuyaMemHeapFree_spec h.isHeap hb
  refine ⟨bs', hheap, hret.total.trans h.total, revoke_live h.live hret, ?_⟩
  refine h.watermark.kept hwm ?_
  calc (r.state.memHeapList i).free = freeTotal bs := h.isHeap.free
    _ ≤ freeTotal bs' := by rw [hret.free]; omega
    _ = _ := hheap.free.symm

/-- Memory that changes inside one payload only. -/
theorem HeapInv.written (h : HeapInv i a n r bs) {p : ℕ} {b : Block} (hb : (p, b) ∈ inUse a bs) (hm : ∀ x, x < p + 4 ∨ p + b.size - 1 ≤ x → m.byte x = r.state.mem.byte x) :
    HeapInv i a n ⟨{ r.state with mem := m }, r.live, r.frees⟩ bs :=
  ⟨h.isHeap.write hb hm, h.total, h.live, h.watermark⟩

end Step

section Calls

variable {i : Fin memHeapListNum} {a n : ℕ} {r : HeapRun} {bs : List Block}

theorem HeapInv.run_malloc (h : HeapInv i a n r bs) (hsize : size < 2 ^ 32) :
    ∃ bs', HeapInv i a n ((HeapCall.malloc size).run i r) bs' := by
  rcases tuyaMemHeapMalloc_spec h.isHeap hsize (le_atLeast size) with ⟨s, heq, hs⟩ |
    ⟨s, bs', p, c, heq, hs, -, hreq⟩
  · exact ⟨bs, by simpa [HeapCall.run, heq, grant] using h.refused hs⟩
  · exact ⟨bs', by simpa only [HeapCall.run, heq] using h.allocated hs hreq⟩

theorem HeapInv.run_calloc (h : HeapInv i a n r bs) (hsize : size < 2 ^ 32) :
    ∃ bs', HeapInv i a n ((HeapCall.calloc size).run i r) bs' := by
  rcases tuyaMemHeapMalloc_spec h.isHeap hsize (le_atLeast size) with ⟨s, heq, hs⟩ |
    ⟨s, bs', p, c, heq, hs, -, hreq⟩
  · exact ⟨bs, by simpa [HeapCall.run, tuyaMemHeapCalloc, heq, grant] using h.refused hs⟩
  · have hfits := c.fits size (by simp [hreq])
    have hinv := (h.allocated hs hreq).written hs.mem fun x hx =>
      Ram.byte_fill_of_notMem (b := 0) (a := p + 4) (n := size) (by omega)
    refine ⟨bs', ?_⟩
    simpa only [HeapCall.run, tuyaMemHeapCalloc, heq, ne_eq, Nat.add_eq_zero_iff,
      OfNat.ofNat_ne_zero, and_false, not_false_eq_true, if_true] using hinv

theorem HeapInv.run_free (h : HeapInv i a n r bs)
    (hvalid : (HeapCall.free ptr).Valid r) :
    ∃ bs', HeapInv i a n ((HeapCall.free ptr).run i r) bs' := by
  rcases hvalid with rfl | ⟨k, hk⟩
  · -- nothing happens for null
    refine ⟨bs, ?_⟩
    have hinv := h.refused (HeapState.env_set r.state i (r.state.env i))
    rw [HeapCall.run, h.revoke_zero]
    exact hinv
  · obtain ⟨p, b, hb, rfl, -⟩ := exists_of_mem_live h.live hk
    exact h.freed hb

theorem HeapInv.run_write (h : HeapInv i a n r bs) {offset : ℕ} {v : UInt8}
    (hvalid : (HeapCall.write ptr offset v).Valid r) :
    HeapInv i a n ((HeapCall.write ptr offset v).run i r) bs := by
  obtain ⟨k, hk, hoff⟩ := hvalid
  obtain ⟨p, b, hb, rfl, hreq⟩ := exists_of_mem_live h.live hk
  have hfits := b.fits k (by simp [hreq])
  exact h.written hb fun x hx => Ram.byte_put_of_ne (by omega)

/-- The new block of a `realloc` is granted before the old one is freed. -/
theorem revoke_grant {live : List (ℕ × ℕ)} {p q : ℕ} (hne : q ≠ p) :
    revoke (grant live (q + 4) k) (p + 4) = grant (revoke live (p + 4)) (q + 4) k := by
  rw [grant, grant, if_neg (by omega), if_neg (by omega), revoke, revoke,
    filter_cons_of_pos (by simpa using hne)]

/-- `tuya_mem_heap_realloc` of a block in use, when it is large enough. -/
theorem reallocMove_of_le (h : IsHeap (s.env i) a bs) {p : ℕ} {b : Block}
    (hb : (p, b) ∈ inUse a bs)
    (hle : memNewSize (if size < 4 then 4 else size) ≤ b.size) :
    reallocMove s (some i) (p + 4) size = (s, p + 4, false) := by
  have hlt := h.lt
  have hbounds := h.bounds hb
  have hble := b.le_size
  have hdog : s.mem.byte (memDogAddr s.mem p) = memBlockStatUse := h.dog_eq hb
  have hsize : blockSize s.mem p = b.size := h.blockSize_eq hb
  rw [reallocMove, if_neg (by omega)]
  dsimp only
  rw [u32sub_head (by omega), hdog, if_neg fun h => h rfl, hsize, if_pos hle]

/-- `tuya_mem_heap_realloc` of a block in use, when a larger one is needed. -/
theorem reallocMove_of_lt (h : IsHeap (s.env i) a bs) {p : ℕ} {b : Block}
    (hb : (p, b) ∈ inUse a bs)
    (hlt : b.size < memNewSize (if size < 4 then 4 else size)) :
    reallocMove s (some i) (p + 4) size =
      let (s, tmp) := tuyaMemHeapMalloc s (some i) (if size < 4 then 4 else size)
      if tmp = 0 then (s, 0, false)
      else ({ s with
        mem := s.mem.copy tmp (p + 4) (u32sub (blockSize s.mem p) memBlockHeadSize) }, tmp, true) := by
  have hlt' := h.lt
  have hbounds := h.bounds hb
  have hble := b.le_size
  have hdog : s.mem.byte (memDogAddr s.mem p) = memBlockStatUse := h.dog_eq hb
  have hsize : blockSize s.mem p = b.size := h.blockSize_eq hb
  rw [reallocMove, if_neg (by omega)]
  dsimp only
  rw [u32sub_head (by omega), hdog, if_neg fun h => h rfl, hsize, if_neg (by omega)]

/-- A live pointer with another size, in the same block. -/
theorem HeapInv.resized (h : HeapInv i a n r bs) {p : ℕ} {b : Block} (hb : (p, b) ∈ inUse a bs) (hk : k + 5 ≤ b.size) :
    ∃ bs', HeapInv i a n ⟨r.state, grant (revoke r.live (p + 4)) (p + 4) k, r.frees⟩ bs' := by
  obtain ⟨bs', c, us, hheap, htotal, hreq, hus, hus'⟩ := h.isHeap.resize hb hk
  refine ⟨bs', hheap, htotal.trans h.total, ?_, h.watermark⟩
  have hlive := revoke_live_of_perm h.live hus
  refine (hlive.cons _).trans ?_
  have hperm := (hus'.map payload).symm
  rwa [map_cons, payload, hreq, getD_some] at hperm

/-- **A `realloc` whose block fits into the address space.** -/
theorem HeapInv.run_realloc (h : HeapInv i a n r bs)
    (hvalid : (HeapCall.realloc ptr size).Valid r) (hsize : ptr ≠ 0 → size < 2 ^ 32 - 8) :
    ∃ bs', HeapInv i a n ((HeapCall.realloc ptr size).run i r) bs' := by
  obtain ⟨hlt, rfl | ⟨k, hk⟩⟩ := hvalid
  · -- null: a new block
    obtain ⟨bs', hinv⟩ := h.run_malloc hlt
    have hmove : reallocMove r.state (some i) 0 size =
        ((tuyaMemHeapMalloc r.state (some i) size).1, (tuyaMemHeapMalloc r.state (some i) size).2,
          false) := rfl
    have hinv' := hinv.refused rfl
    refine ⟨bs', ?_⟩
    simp only [HeapCall.run, tuyaMemHeapRealloc, hmove, h.revoke_zero, grant, Bool.false_eq_true,
      if_false] at hinv' ⊢
    by_cases hzero : (tuyaMemHeapMalloc r.state (some i) size).2 = 0
    · simpa only [hzero, if_true] using hinv'
    · simpa only [hzero, if_false] using hinv'
  obtain ⟨p, b, hb, rfl, hreq⟩ := exists_of_mem_live h.live hk
  have h4 : 4 ≤ if size < 4 then 4 else size := by split <;> omega
  have h32 : (if size < 4 then 4 else size) < 2 ^ 32 - 8 := by
    split <;> omega
  have hnew : (if size < 4 then 4 else size) + 5 ≤ memNewSize (if size < 4 then 4 else size) := by
    rcases memNewSize_spec h4 (by omega) with ⟨-, hle, -⟩ | ⟨hbig, -⟩
    · exact hle
    · omega
  have hge := le_atLeast size
  by_cases hle : memNewSize (if size < 4 then 4 else size) ≤ b.size
  · -- the old block is large enough
    obtain ⟨bs', hinv⟩ := h.resized hb (by omega : size + 5 ≤ b.size)
    have hinv' := (hinv.refused rfl).refused rfl
    refine ⟨bs', ?_⟩
    simpa [HeapCall.run, tuyaMemHeapRealloc, reallocMove_of_le h.isHeap hb hle] using hinv'
  have hmove := reallocMove_of_lt h.isHeap hb (Nat.lt_of_not_le hle)
  have hidem : (if (if size < 4 then 4 else size) < 4 then 4 else if size < 4 then 4 else size) =
      if size < 4 then 4 else size := if_neg (by omega)
  rcases tuyaMemHeapMalloc_spec (n := if size < 4 then 4 else size) (k := size) h.isHeap (by omega)
      (by rw [hidem]; exact hge) with
    ⟨s, heq, hs⟩ | ⟨s, bs', q, c, heq, hs, hc, hcreq⟩
  · -- there is no block
    rw [heq] at hmove
    have hinv := (h.refused hs).refused rfl
    refine ⟨bs, ?_⟩
    simpa [HeapCall.run, tuyaMemHeapRealloc, hmove] using hinv
  · -- the content moves to the new block, and the old one is freed
    rw [hidem] at hc
    have hb' : (p, b) ∈ inUse a bs' :=
      hs.granted.inUse.mem_iff.mpr (mem_cons_of_mem _ hb)
    have hsizep : blockSize s.mem p = b.size := hs.isHeap.blockSize_eq hb'
    have hne : q ≠ p := by
      rintro rfl
      have hsizeq : blockSize s.mem q = c.size := hs.isHeap.blockSize_eq hs.mem
      omega
    have hble := b.le_size
    have hbounds := hs.isHeap.bounds hb'
    have hltp := hs.isHeap.lt
    have hsub : u32sub (blockSize s.mem p) memBlockHeadSize = b.size - 4 := by
      rw [hsizep, memBlockHeadSize]
      exact u32sub_of_le (by omega) (by omega)
    rw [heq] at hmove
    dsimp only at hmove
    rw [if_neg (by omega), hsub] at hmove
    have hinv := (h.allocated hs hcreq).written hs.mem fun x hx =>
      Ram.byte_copy_of_notMem (d := q + 4) (s := p + 4) (n := b.size - 4) (by omega)
    obtain ⟨bs'', hinv'⟩ := hinv.freed hb'
    refine ⟨bs'', ?_⟩
    simpa [HeapCall.run, tuyaMemHeapRealloc, hmove, revoke_grant hne] using hinv'

end Calls

/-! ### The result -/

/-- The size of a call is one whose block fits into the address space: what `MEM_Allocate`
checks and `tuya_mem_heap_realloc` does not. -/
def HeapCall.Addressable : HeapCall → Prop
  | realloc ptr size => ptr ≠ 0 → size < 2 ^ 32 - 8
  | _ => True

section Run

variable {i : Fin memHeapListNum} {a n : ℕ} {r : HeapRun} {bs : List Block}

/-- A call preserves the invariant. -/
theorem HeapInv.run (h : HeapInv i a n r bs) {c : HeapCall} (hvalid : c.Valid r)
    (haddr : c.Addressable) : ∃ bs', HeapInv i a n (c.run i r) bs' := by
  cases c with
  | malloc size => exact h.run_malloc hvalid
  | calloc size => exact h.run_calloc hvalid
  | realloc ptr size => exact h.run_realloc hvalid haddr
  | free ptr => exact h.run_free hvalid
  | write ptr offset v => exact ⟨bs, h.run_write hvalid⟩

/-- A run of calls preserves it. -/
theorem HeapInv.runs (h : HeapInv i a n r bs) (hvalid : r.Valid i cs)
    (haddr : ∀ c ∈ cs, c.Addressable) : ∃ bs', HeapInv i a n (r.runs i cs) bs' := by
  induction cs generalizing r bs with
  | nil => exact ⟨bs, h⟩
  | cons c cs ih =>
    obtain ⟨bs', h'⟩ := h.run hvalid.1 (haddr c (mem_cons_self ..))
    exact ih h' hvalid.2 fun c' hc' => haddr c' (mem_cons_of_mem _ hc')

/-- The beginning of a valid run is valid. -/
theorem HeapRun.Valid.of_prefix {pre : List HeapCall} (hpre : pre <+: cs)
    (h : r.Valid i cs) : r.Valid i pre := by
  induction pre generalizing r cs with
  | nil => trivial
  | cons c pre ih =>
    obtain ⟨rest, rfl⟩ := hpre
    exact ⟨h.1, ih ⟨rest, rfl⟩ h.2⟩

/-- A `realloc` to a size whose block does not fit into the address space hands out the old
block for it. -/
theorem HeapInv.not_bounds (h : HeapInv i a n r bs) {c : HeapCall} (hvalid : c.Valid r)
    (haddr : ¬c.Addressable) : ∃ x ∈ (c.run i r).live, a + n < x.1 + x.2 := by
  cases c with
  | malloc | calloc | free | write => exact absurd trivial haddr
  | realloc ptr size =>
    obtain ⟨hne, hbig⟩ := Classical.not_imp.mp haddr
    obtain ⟨hlt, hnull | ⟨k, hk⟩⟩ := hvalid
    · exact absurd hnull hne
    obtain ⟨p, b, hb, rfl, -⟩ := exists_of_mem_live h.live hk
    have hble := b.le_size
    have hle : memNewSize (if size < 4 then 4 else size) ≤ b.size := by
      rw [if_neg (by omega)]
      rcases memNewSize_spec (by omega : 4 ≤ size) hlt with ⟨hsmall, -⟩ | ⟨-, hwrap⟩
      · omega
      · omega
    refine ⟨(p + 4, size), ?_, ?_⟩
    · simp [HeapCall.run, tuyaMemHeapRealloc, reallocMove_of_le h.isHeap hb hle, grant]
    · have hbounds := h.isHeap.bounds hb
      have hlt' := h.isHeap.lt
      have hpos := h.isHeap.pos
      have hdvd := h.isHeap.dvd
      rw [h.total] at hlt'
      omega

/-- So a run with such a call loses the integrity of the heap. -/
theorem HeapInv.exists_not_integrity
    (h : HeapInv i (regionStart base) (regionSize base size) r bs)
    (hvalid : r.Valid i cs) (haddr : ¬∀ c ∈ cs, c.Addressable) :
    ∃ pre, pre <+: cs ∧ ∀ blocks, ¬Integrity base size ((r.runs i pre).state.env i)
      (r.runs i pre).live (r.runs i pre).frees blocks := by
  induction cs generalizing r bs with
  | nil => simp at haddr
  | cons c cs ih =>
    by_cases hc : c.Addressable
    · obtain ⟨bs', h'⟩ := h.run hvalid.1 hc
      have hrest : ¬∀ c' ∈ cs, c'.Addressable := by
        intro hcs
        exact haddr (forall_mem_cons.mpr ⟨hc, hcs⟩)
      obtain ⟨pre, hpre, hnot⟩ := ih h' hvalid.2 hrest
      exact ⟨c :: pre, cons_prefix_cons.mpr ⟨rfl, hpre⟩, hnot⟩
    · obtain ⟨x, hx, hlt⟩ := h.not_bounds hvalid.1 hc
      refine ⟨[c], cons_prefix_cons.mpr ⟨rfl, nil_prefix⟩, fun blocks hint => ?_⟩
      have hbounds := hint.bounds x hx
      omega

end Run

/-- A heap is created in an entry that is not in use. -/
theorem tuyaMemHeapCreate_eq_some {i : Fin memHeapListNum}
    (h : tuyaMemHeapCreate s₀ base size = (s, some i)) :
    base ≠ 0 ∧ (s₀.memHeapList i).size = 0 ∧
      (memHeapInit (s₀.env i) base size).2 = true ∧
        s = s₀.set i (memHeapInit (s₀.env i) base size).1 := by
  by_cases hnull : base = 0 ∨ size = 0
  · rw [tuyaMemHeapCreate, if_pos hnull] at h
    cases h
  rw [tuyaMemHeapCreate, if_neg hnull] at h
  cases hj : (List.finRange memHeapListNum).find? fun i => (s₀.memHeapList i).size = 0 with
  | none =>
    rw [hj] at h
    cases h
  | some j =>
    rw [hj] at h
    dsimp only at h
    by_cases hok : (memHeapInit (s₀.env j) base size).2 = true
    · rw [if_pos hok] at h
      obtain ⟨rfl, hij⟩ := Prod.mk.inj h
      obtain rfl := Option.some.inj hij
      exact ⟨fun h0 => hnull (.inl h0), by simpa using List.find?_some hj, hok, rfl⟩
    · rw [if_neg hok] at h
      cases (Prod.mk.inj h).2

/-- A heap that has just been created. -/
theorem tuyaMemHeapCreate_inv {i : Fin memHeapListNum}
    (hcreate : tuyaMemHeapCreate s₀ base size = (s, some i)) (hlt : base + size < 2 ^ 32)
    (hmin : 28 ≤ regionSize base size) :
    ∃ bs, HeapInv i (regionStart base) (regionSize base size) (HeapRun.start s i) bs := by
  obtain ⟨hbase, -, -, rfl⟩ := tuyaMemHeapCreate_eq_some hcreate
  obtain ⟨m, hle, hdvd, heq, hheap, -⟩ := memHeapInit_spec (s₀.env i) (by omega) hlt hmin
  rw [heq]
  refine ⟨[Block.free (regionSize base size) hle hdvd], ?_, ?_, ?_, ?_⟩
  · rw [HeapRun.start, HeapState.env_set]
    exact hheap
  · rfl
  · simp [HeapRun.start, inUse, Block.free]
  · rw [HeapRun.start, HeapState.memHeapList_set]
    exact ⟨mem_singleton.mpr rfl, fun f hf => (mem_singleton.mp hf).ge, le_rfl⟩

/-- **A heap keeps its integrity exactly as long as no `realloc` asks for a block larger than
the address space.** -/
theorem integrity_iff {s₀ s : HeapState} {base size : ℕ} {i : Fin memHeapListNum}
    (hcreate : tuyaMemHeapCreate s₀ base size = (s, some i)) (hlt : base + size < 2 ^ 32)
    (hmin : memHeapMinSize ≤ regionSize base size) {cs : List HeapCall}
    (hvalid : (HeapRun.start s i).Valid i cs) :
    (∀ pre, pre <+: cs → ∃ blocks,
        Integrity base size (((HeapRun.start s i).runs i pre).state.env i)
          ((HeapRun.start s i).runs i pre).live ((HeapRun.start s i).runs i pre).frees blocks) ↔
      ∀ c ∈ cs, c.Addressable := by
  obtain ⟨bs, h⟩ := tuyaMemHeapCreate_inv hcreate hlt hmin
  constructor
  · intro hint
    by_contra haddr
    obtain ⟨pre, hpre, hnot⟩ := h.exists_not_integrity hvalid haddr
    obtain ⟨blocks, hblocks⟩ := hint pre hpre
    exact hnot blocks hblocks
  · intro haddr pre hpre
    obtain ⟨bs', h'⟩ := h.runs (hvalid.of_prefix hpre) fun c hc => haddr c (hpre.subset hc)
    have hpos : 0 < regionSize base size := lt_of_lt_of_le (by decide) hmin
    exact ⟨_, h'.isHeap.integrity h'.total hpos h'.live h'.watermark.mem h'.watermark.le⟩

/-- The state in which the program begins, with memory that is all zero. -/
def HeapState.zero : HeapState := ⟨fun _ => 0, fun _ => MemHeap.zero, 0, 0⟩

/-- A heap over the 256 bytes at `0x1000`. -/
def exampleHeap : HeapState := (tuyaMemHeapCreate HeapState.zero 0x1000 256).1

/-- Two blocks are allocated, one of them is written and moved, and both are freed. -/
def exampleCalls : List HeapCall :=
  [.malloc 10, .calloc 5, .write 4340 9 7, .realloc 4340 40, .free 4328, .free 4280]

theorem exampleHeap_eq : tuyaMemHeapCreate HeapState.zero 0x1000 256 = (exampleHeap, some 0) :=
  Prod.ext rfl (by decide +kernel)

/-- The pointers that are live when the calls of the example are made. -/
theorem exampleCalls_valid : (HeapRun.start exampleHeap 0).Valid 0 exampleCalls :=
  ⟨(by decide : 10 < 2 ^ 32), (by decide : 5 < 2 ^ 32), ⟨10, by decide +kernel, by decide⟩,
    ⟨by decide, .inr ⟨10, by decide +kernel⟩⟩, .inr ⟨5, by decide +kernel⟩,
    .inr ⟨40, by decide +kernel⟩, trivial⟩

theorem integrity_example :
    (∀ pre, pre <+: exampleCalls → ∃ blocks,
        Integrity 0x1000 256 (((HeapRun.start exampleHeap 0).runs 0 pre).state.env 0)
          ((HeapRun.start exampleHeap 0).runs 0 pre).live
          ((HeapRun.start exampleHeap 0).runs 0 pre).frees blocks) ↔
      ∀ c ∈ exampleCalls, c.Addressable :=
  integrity_iff exampleHeap_eq (by decide) (by decide) exampleCalls_valid

/-- A block of ten bytes, reallocated to all of the address space: the result is the old
block. -/
def hugeCalls : List HeapCall := [.malloc 10, .realloc 4340 0xFFFFFFFF]

theorem not_integrity_huge :
    tuyaMemHeapCreate HeapState.zero 0x1000 256 = (exampleHeap, some 0) ∧
      (HeapRun.start exampleHeap 0).Valid 0 hugeCalls ∧
      ¬∀ pre, pre <+: hugeCalls → ∃ blocks,
        Integrity 0x1000 256 (((HeapRun.start exampleHeap 0).runs 0 pre).state.env 0)
          ((HeapRun.start exampleHeap 0).runs 0 pre).live
          ((HeapRun.start exampleHeap 0).runs 0 pre).frees blocks := by
  refine ⟨exampleHeap_eq,
    ⟨(by decide : 10 < 2 ^ 32), ⟨by decide, .inr ⟨10, by decide +kernel⟩⟩, trivial⟩, ?_⟩
  intro hint
  obtain ⟨blocks, hblocks⟩ := hint hugeCalls (prefix_refl _)
  have hlive : (4340, 0xFFFFFFFF) ∈ ((HeapRun.start exampleHeap 0).runs 0 hugeCalls).live := by
    decide +kernel
  have hbounds := (hblocks.bounds _ hlive).2
  exact absurd hbounds (by decide)

end Tuya

end Gd32
