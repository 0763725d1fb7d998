import Gd32Firmware.Tuya.HeapIntegrity

/-!
# Blocks that are moved and freed twice

What a call on a heap leaves alone: an allocation changes no byte of a block in use, and a
release changes none but those of the block it releases (`Tuya.memAllocate_keeps`,
`Tuya.memDeallocate_keeps`). From this follows what `tuya_mem_heap_realloc` does to the
bytes of its clients (`Tuya.realloc_preserves_iff`): all is well but for a size whose block
is larger than the address space, for which the old block is returned.

A block that has been released is not released again: `MEM_Deallocate` looks at the guard byte
that the size word in front of the pointer leads to. That word still lies there, whatever the
block has been merged with, and leads to the guard of a free block or to the one the release has
written (`Tuya.double_free`). It takes a heap whose integrity is lost, as it is after such a
`realloc`, for a second release to do something.
-/

namespace Gd32

open List

variable {xs ys : List Block} {v : HeapEnv} {n x o : ℕ}

namespace Tuya

/-! ### Blocks apart -/

/-- Two blocks of a list are the same or lie apart. -/
theorem apart_of_append {us vs : List Block} {b c : Block}
    (h : xs ++ b :: ys = us ++ c :: vs) :
    (xs = us ∧ b = c ∧ ys = vs) ∨ total xs + b.size ≤ total us ∨
      total us + c.size ≤ total xs := by
  rcases append_eq_append_iff.mp h with ⟨zs, rfl, hzs⟩ | ⟨zs, rfl, hzs⟩
  · cases zs with
    | nil =>
      obtain ⟨rfl, rfl⟩ := List.cons.inj (by simpa using hzs)
      exact .inl ⟨by simp, rfl, rfl⟩
    | cons d zs =>
      obtain ⟨rfl, -⟩ := List.cons.inj hzs
      refine .inr (.inl ?_)
      rw [total_append, total_cons]
      omega
  · cases zs with
    | nil =>
      obtain ⟨rfl, rfl⟩ := List.cons.inj (by simpa using hzs)
      exact .inl ⟨by simp, rfl, rfl⟩
    | cons d zs =>
      obtain ⟨rfl, -⟩ := List.cons.inj hzs
      refine .inr (.inr ?_)
      rw [total_append, total_cons]
      omega

/-- A block in use lies apart from a free one. -/
theorem inUse_apart_free {a q : ℕ} {b c : Block}
    (hc : (q, c) ∈ inUse a (xs ++ b :: ys)) (hb : b.request = none) :
    q + c.size ≤ a + total xs ∨ a + total xs + b.size ≤ q := by
  obtain ⟨us, vs, hbs, rfl, hused⟩ := mem_inUse.mp hc
  rcases apart_of_append hbs with ⟨-, rfl, -⟩ | h | h
  · exact absurd hb hused
  · omega
  · omega

/-- A block in use lies apart from another one. -/
theorem inUse_apart {a p q : ℕ} {bs : List Block} {b c : Block} (hb : (p, b) ∈ inUse a bs)
    (hc : (q, c) ∈ inUse a bs) (hne : q ≠ p) : q + c.size ≤ p ∨ p + b.size ≤ q := by
  obtain ⟨xs, ys, hbs, rfl, -⟩ := mem_inUse.mp hb
  obtain ⟨us, vs, hbs', rfl, -⟩ := mem_inUse.mp hc
  rcases apart_of_append (hbs.symm.trans hbs') with ⟨rfl, -, -⟩ | h | h
  · exact absurd rfl hne
  · omega
  · omega

/-- A block in use lies apart from the last free block in front of a place. -/
theorem inUse_apart_lastFree {a q : ℕ} {c : Block}
    (hc : (q, c) ∈ inUse a (xs ++ ys)) (hpre : lastFree 0 a xs ≠ 0) :
    q + c.size ≤ lastFree 0 a xs ∨ lastFree 0 a xs + 12 ≤ q := by
  obtain ⟨us, d, ws, rfl, hd, hlast, -⟩ := exists_of_lastFree_ne_zero hpre
  have hle := d.le_size
  rw [append_assoc, cons_append] at hc
  rcases inUse_apart_free hc hd with h | h
  · exact .inl (hlast ▸ h)
  · right
    omega

/-! ### What an allocation leaves alone -/

/-- The bytes of the block `c` at `q` are the same. -/
def KeepsBlock (m m' : Ram) (q : ℕ) (c : Block) : Prop :=
  ∀ x, q ≤ x → x < q + c.size → m'.byte x = m.byte x

/-- `mem_chunk_get` changes no block in use. -/
theorem memChunkGet_keeps {a q : ℕ} {bs : List Block} {c : Block}
    (h : HasBlocks v a bs) (hn : 12 ≤ n) (hc : (q, c) ∈ inUse a bs) :
    KeepsBlock v.mem (memChunkGet v n).1.mem q c := by
  intro x hlo hhi
  have hcur := cursor_start a bs
  rw [← h.list] at hcur
  rw [memChunkGet]
  cases hloop : chunkLoop v.mem n v.heap.size 0 v.heap.freeList with
  | none => rfl
  | some r =>
    obtain ⟨pre, this⟩ := r
    obtain ⟨xs, b, ys, rfl, hfree, hnb, rfl, rfl⟩ := chunkLoop_freeAt h.seg hcur hloop
    obtain ⟨-, ⟨hsize, -⟩, -, -⟩ := seg_append.mp h.seg
    have hlt := h.lt
    have hble := b.le_size
    have hapart := inUse_apart_free hc hfree
    rw [total_append, total_cons] at hlt
    have hsub : u32sub (blockSize v.mem (a + total xs)) n = b.size - n := by
      rw [hsize]
      exact u32sub_of_le hnb (by omega)
    dsimp only
    rw [hsub]
    by_cases hcut : memHeapMinSize ≤ b.size - n
    · have hle : n + 28 ≤ b.size := by
        simp only [memHeapMinSize, memBlockMinSize, memBlockHeadSize] at hcut
        omega
      obtain ⟨m, heq, -, -, -, -, -, hframe⟩ := cutBlock_spec hsize hn hle (by omega)
      rw [if_pos hcut, heq]
      exact hframe x (by omega)
    · have hmem := lastFree_mem 0 a xs
      obtain ⟨m, heq, -, -, -, hframe⟩ :=
        takeBlock_spec hsize hble (by omega)
          (show lastFree 0 a xs = 0 ∨ lastFree 0 a xs + 12 ≤ a + total xs by omega)
      rw [if_neg hcut, heq]
      refine hframe x (by omega) ?_
      by_cases hzero : lastFree 0 a xs = 0
      · exact .inl hzero
      · have := inUse_apart_lastFree hc hzero
        omega

theorem countTaken_mem (v : HeapEnv) (n : ℕ) : (countTaken v n).mem = v.mem := by
  rw [countTaken]

/-- **An allocation changes no block in use.** -/
theorem memAllocate_keeps {a q : ℕ} {bs : List Block} {c : Block}
    (h : IsHeap v a bs) (hn : n < 2 ^ 32) (hc : (q, c) ∈ inUse a bs) :
    KeepsBlock v.mem (memAllocate v n).1.mem q c := by
  intro x hlo hhi
  by_cases hzero : n = 0
  · rw [memAllocate, if_pos hzero]
  have h4 : 4 ≤ if n < 4 then 4 else n := by split <;> omega
  have hlt : (if n < 4 then 4 else n) < 2 ^ 32 := by split <;> omega
  simp only [memAllocate, if_neg hzero]
  generalize (if n < 4 then 4 else n) = k at h4 hlt ⊢
  rcases memNewSize_spec h4 hlt with ⟨-, hle, hdvd, -⟩ | ⟨hbig, hwrap⟩
  · have hkeep := memChunkGet_keeps h.toHasBlocks (by omega : 12 ≤ memNewSize k) hc x hlo hhi
    rw [if_neg (by omega)]
    generalize memChunkGet v (memNewSize k) = w at hkeep ⊢
    have hcount := countTaken_mem w.1 (blockSize w.1.mem w.2)
    generalize countTaken w.1 (blockSize w.1.mem w.2) = u at hcount ⊢
    by_cases hblock : w.2 = 0
    · rw [if_pos hblock]
      exact hkeep
    · rw [if_neg hblock]
      exact (congrArg (fun m : Ram => m.byte x) hcount).trans hkeep
  · rw [if_pos (by omega)]

/-! ### What a release leaves alone -/

/-- Linking a block writes into the header of the free block in front only. -/
theorem linkBlock_frame (v : HeapEnv) {pre : ℕ} (fb : ℕ)
    (hx : pre ≠ 0 → x < pre ∨ pre + 8 ≤ x) : (linkBlock v pre fb).1.mem.byte x = v.mem.byte x := by
  rw [linkBlock]
  by_cases hzero : pre = 0
  · rw [if_pos hzero]
  rw [if_neg hzero]
  split
  · exact Ram.byte_store_of_notMem (by omega)
  · exact Ram.byte_store_of_notMem (by omega)

/-- The block is linked as it is, or has become part of the one in front. -/
theorem linkBlock_snd (v : HeapEnv) (pre fb : ℕ) :
    (linkBlock v pre fb).2 = fb ∨ pre ≠ 0 ∧ (linkBlock v pre fb).2 = pre := by
  rw [linkBlock]
  split
  · exact .inl rfl
  next hne =>
    split
    · exact .inr ⟨hne, rfl⟩
    · exact .inl rfl

/-- A merge writes into the header of the block in front only. -/
theorem mergeNext_frame {m : Ram} {d next : ℕ} (hx : x < d ∨ d + 8 ≤ x) :
    (mergeNext m d next).byte x = m.byte x := by
  rw [mergeNext]
  split
  · exact (Ram.byte_store_of_notMem (by omega)).trans (Ram.byte_store_of_notMem (by omega))
  · rfl

/-- Putting a block in its place writes into its header and that of the free block in front. -/
theorem placeBlock_frame {fb pre next : ℕ}
    (hloop : placeLoop v.mem fb v.heap.size 0 v.heap.freeList = (pre, next))
    (hfb : x < fb ∨ fb + 8 ≤ x) (hpre : pre ≠ 0 → x < pre ∨ pre + 8 ≤ x) :
    (placeBlock v fb).mem.byte x = v.mem.byte x := by
  obtain ⟨w, d, hlink⟩ : ∃ w d,
      linkBlock { v with mem := setBlockNext v.mem fb next } pre fb = (w, d) := ⟨_, _, rfl⟩
  have hw : w.mem.byte x = (setBlockNext v.mem fb next).byte x := by
    have h := linkBlock_frame { v with mem := setBlockNext v.mem fb next } fb hpre
    rwa [hlink] at h
  have hd : d = fb ∨ pre ≠ 0 ∧ d = pre := by
    have h := linkBlock_snd { v with mem := setBlockNext v.mem fb next } pre fb
    rwa [hlink] at h
  rw [placeBlock_eq hloop hlink]
  refine (mergeNext_frame ?_).trans (hw.trans (Ram.byte_store_of_notMem (by omega)))
  rcases hd with rfl | ⟨hne, rfl⟩
  · exact hfb
  · exact hpre hne

/-- The free blocks around a block that is marked as free. -/
theorem placeLoop_markFree {a : ℕ} {b : Block}
    (h : IsHeap v a (xs ++ b :: ys)) (hused : b.request ≠ none) :
    placeLoop (markFree v (a + total xs)).mem (a + total xs) (markFree v (a + total xs)).heap.size 0
        (markFree v (a + total xs)).heap.freeList =
      (lastFree 0 a xs, firstFree (a + total xs + b.size) ys 0) := by
  have hlt := h.lt
  have hble := b.le_size
  rw [total_append, total_cons] at hlt
  obtain ⟨-, ⟨hsize, -⟩, -, -⟩ := seg_append.mp h.seg
  rw [markFree_eq hsize hble (by omega)]
  have hblocks : HasBlocks ⟨v.mem, { v.heap with free := u32 (v.heap.free + b.size) },
      u32 (v.freeSize + b.size), v.freeSizeWatermark⟩ a (xs ++ b :: ys) :=
    ⟨h.pos, h.dvd, h.lt, h.le_size, h.seg, h.list, h.noAdjacent⟩
  exact placeLoop_blocks (v := ⟨v.mem.put (a + total xs + b.size - 1) memBlockStatFree,
    { v.heap with free := u32 (v.heap.free + b.size) }, u32 (v.freeSize + b.size),
    v.freeSizeWatermark⟩) hblocks hused rfl

/-- **A release changes no other block in use.** -/
theorem memDeallocate_keeps {a p q : ℕ} {bs : List Block} {b c : Block}
    (h : IsHeap v a bs) (hb : (p, b) ∈ inUse a bs) (hc : (q, c) ∈ inUse a bs) (hne : q ≠ p) :
    KeepsBlock v.mem (memDeallocate v (p + 4)).mem q c := by
  intro x hlo hhi
  have hsize := h.blockSize_eq hb
  have hguard := h.dog_eq hb
  have hbounds := h.bounds hb
  have hlt := h.lt
  have hapart := inUse_apart hb hc hne
  obtain ⟨xs, ys, rfl, rfl, hused⟩ := mem_inUse.mp hb
  have hble := b.le_size
  have hmem : (markFree v (a + total xs)).mem =
      v.mem.put (a + total xs + b.size - 1) memBlockStatFree := by
    rw [markFree_eq hsize hble (by omega)]
  rw [memDeallocate_eq (by omega) hguard]
  refine (placeBlock_frame (placeLoop_markFree h hused) (by omega) fun hpre => ?_).trans ?_
  · have := inUse_apart_lastFree hc hpre
    omega
  · rw [hmem]
    exact Ram.byte_put_of_ne (by omega)

/-! ### Releasing twice -/

/-- The guard that a size word leads to. -/
theorem byte_dog {m : Ram} {p : ℕ} {g : UInt8} (hsize : blockSize m p = n) (hn : 0 < n)
    (hlt : p + n < 2 ^ 32) (hbyte : m.byte (p + n - 1) = g) : m.byte (memDogAddr m p) = g := by
  rw [memDogAddr_eq hsize hn hlt, hbyte]

/-- The first free block behind a place, in memory. -/
theorem firstFree_placed {m : Ram} {a : ℕ} (h : Seg m 0 a ys)
    (hne : firstFree a ys 0 ≠ 0) : ∃ c : Block, Placed m (firstFree a ys 0) c ∧ c.request = none ∧
      a ≤ firstFree a ys 0 ∧ firstFree a ys 0 + c.size ≤ a + total ys := by
  obtain ⟨us, c, vs, rfl, hc, hfirst, -⟩ := exists_of_firstFree_ne_zero hne
  obtain ⟨-, hplaced, -, -⟩ := seg_append.mp h
  rw [hfirst]
  refine ⟨c, hplaced, hc, Nat.le_add_right _ _, ?_⟩
  rw [total_append, total_cons]
  omega

/-- **Behind a released pointer there is a size word that leads to a guard of a free block**,
whatever the block has been merged with. -/
theorem memDeallocate_dog {a p : ℕ} {bs : List Block} {b : Block}
    (h : IsHeap v a bs) (hb : (p, b) ∈ inUse a bs) :
    (memDeallocate v (p + 4)).mem.byte (memDogAddr (memDeallocate v (p + 4)).mem p) =
      memBlockStatFree := by
  have hsize := h.blockSize_eq hb
  have hguard := h.dog_eq hb
  have hlt := h.lt
  obtain ⟨xs, ys, rfl, rfl, hused⟩ := mem_inUse.mp hb
  have hble := b.le_size
  have hloop := placeLoop_markFree h hused
  have hpre := lastFree_mem 0 a xs
  have hback : Seg v.mem 0 (a + total xs + b.size) ys := (seg_append.mp h.seg).2.2.2
  have hmark : (markFree v (a + total xs)).mem =
      v.mem.put (a + total xs + b.size - 1) memBlockStatFree := by
    rw [markFree_eq hsize hble (by rw [total_append, total_cons] at hlt; omega)]
  rw [total_append, total_cons] at hlt
  rw [memDeallocate_eq (by omega) hguard]
  generalize hpdef : a + total xs = p at *
  generalize hnext : firstFree (p + b.size) ys 0 = next at *
  generalize lastFree 0 a xs = pre at *
  obtain ⟨w, d, hlink⟩ : ∃ w d, linkBlock { markFree v p with
      mem := setBlockNext (markFree v p).mem p next } pre p = (w, d) := ⟨_, _, rfl⟩
  rw [placeBlock_eq hloop hlink]
  -- outside the two headers and the guard, linking leaves the memory alone
  have hw : ∀ x, (pre = 0 ∨ x < pre ∨ pre + 8 ≤ x) → (x < p + 4 ∨ p + 8 ≤ x) → w.mem.byte x =
      (v.mem.put (p + b.size - 1) memBlockStatFree).byte x := by
    intro x hx hx'
    have hframe := linkBlock_frame { markFree v p with
      mem := setBlockNext (markFree v p).mem p next } p hx.resolve_left
    rw [hlink] at hframe
    rw [hframe, ← hmark]
    exact Ram.byte_store_of_notMem (by omega)
  have hwsize : blockSize w.mem p = b.size := by
    refine Eq.trans (Ram.load_congr fun x _ _ => hw x (by omega) (by omega)) ?_
    exact (Ram.load_put_of_notMem (by omega)).trans hsize
  have hwdog : w.mem.byte (p + b.size - 1) = memBlockStatFree := by
    rw [hw _ (by omega) (by omega), Ram.byte_put]
  have hd : d = p ∨ pre ≠ 0 ∧ d = pre := by
    have hsnd := linkBlock_snd { markFree v p with
      mem := setBlockNext (markFree v p).mem p next } pre p
    rwa [hlink] at hsnd
  rcases hd with rfl | ⟨hne, rfl⟩
  · by_cases hmerge : next ≠ 0 ∧ u32 (d + blockSize w.mem d) = next
    · -- the block behind is merged into it, and the size leads to that one's guard
      rw [hwsize, u32_of_lt (by omega)] at hmerge
      obtain ⟨c, ⟨hcsize, hcguard⟩, hc, hclo, hchi⟩ := firstFree_placed hback (hnext ▸ hmerge.1)
      rw [hnext, ← hmerge.2] at hcsize hcguard hchi
      have hcle := c.le_size
      have hwc : blockSize w.mem (d + b.size) = c.size := by
        refine Eq.trans (Ram.load_congr fun x _ _ => hw x (by omega) (by omega)) ?_
        exact (Ram.load_put_of_notMem (by omega)).trans hcsize
      obtain ⟨hmsize, -, hmframe⟩ := mergeNext_of_adjacent hwsize hwc hble (by omega)
      rw [← hmerge.2]
      refine byte_dog hmsize (by omega) (by omega) ?_
      rw [hmframe _ (by omega), show d + (b.size + c.size) - 1 = d + b.size + c.size - 1 by omega,
        hw _ (by omega) (by omega), Ram.byte_put_of_ne (by omega), hcguard,
        Block.guard_of_none hc]
    · rw [mergeNext, if_neg hmerge]
      exact byte_dog hwsize (by omega) (by omega) hwdog
  · -- it has become part of the block in front; its own header is as it was
    refine byte_dog (n := b.size) ?_ (by omega) (by omega) ?_
    · exact (Ram.load_congr fun x _ _ => mergeNext_frame (by omega)).trans hwsize
    · exact (mergeNext_frame (by omega)).trans hwdog

/-- A block whose guard does not say that it is in use is not released. -/
theorem memDeallocate_of_dog {p : ℕ} (hlt : p + 4 < 2 ^ 32)
    (h : v.mem.byte (memDogAddr v.mem p) ≠ memBlockStatUse) : memDeallocate v (p + 4) = v := by
  rw [memDeallocate, if_neg (by omega)]
  rw [u32sub_head hlt, if_pos h]

/-- **A second release does nothing.** -/
theorem memDeallocate_twice {a p : ℕ} {bs : List Block} {b : Block}
    (h : IsHeap v a bs) (hb : (p, b) ∈ inUse a bs) :
    memDeallocate (memDeallocate v (p + 4)) (p + 4) = memDeallocate v (p + 4) := by
  have hbounds := h.bounds hb
  have hlt := h.lt
  have hble := b.le_size
  refine memDeallocate_of_dog (by omega) ?_
  rw [memDeallocate_dog h hb]
  decide

/-- A pointer lies where the entry `h` of the list of heaps says that its region is, as
`tuya_mem_heap_free` looks it up. -/
def MemHeap.Covers (h : MemHeap) (ptr : ℕ) : Prop := h.base < ptr ∧ ptr < u32 (h.base + h.size)

/-- A release leaves the region of the heap as it is. -/
theorem memDeallocate_region {a p : ℕ} {bs : List Block} {b : Block}
    (h : IsHeap v a bs) (hb : (p, b) ∈ inUse a bs) :
    (memDeallocate v (p + 4)).heap.base = v.heap.base ∧
      (memDeallocate v (p + 4)).heap.size = v.heap.size := by
  obtain ⟨m, fl, bs', heq, -⟩ := memDeallocate_spec h hb
  rw [heq]
  exact ⟨rfl, rfl⟩

section FreeLoop

variable {s : HeapState} {i : Fin memHeapListNum} {ptr : ℕ}

theorem HeapState.set_set (s : HeapState) (i : Fin memHeapListNum) (v w : HeapEnv) :
    (s.set i v).set i w = s.set i w := by
  rw [HeapState.set, HeapState.set, HeapState.set, Function.update_idem]

/-- The look-up by address ends in the heap `i` or nowhere. -/
theorem freeLoop_eq (hother : ∀ j, j ≠ i → ¬(s.memHeapList j).Covers ptr)
    (is : List (Fin memHeapListNum)) :
    freeLoop s ptr is = s ∨ freeLoop s ptr is = s.set i (memDeallocate (s.env i) ptr) := by
  induction is with
  | nil => exact .inl rfl
  | cons j is ih =>
    rw [freeLoop]
    split
    · split
      next hin =>
        have hj : j = i := by
          by_contra hne
          exact hother j hne hin
        exact .inr (by rw [hj])
      next => exact ih
    · exact .inl rfl

/-- Only the regions decide which heap it ends in. -/
theorem freeLoop_congr {t : HeapState}
    (hregion : ∀ j, (t.memHeapList j).base = (s.memHeapList j).base ∧
      (t.memHeapList j).size = (s.memHeapList j).size)
    (hs : s.set i (memDeallocate (s.env i) ptr) = t)
    (hother : ∀ j, j ≠ i → ¬(s.memHeapList j).Covers ptr)
    (htwice : t.set i (memDeallocate (t.env i) ptr) = t) (is : List (Fin memHeapListNum)) :
    freeLoop (freeLoop s ptr is) ptr is = freeLoop s ptr is := by
  induction is with
  | nil => rfl
  | cons j is ih =>
    have hothert : ∀ k, k ≠ i → ¬(t.memHeapList k).Covers ptr := by
      intro k hk hin
      rw [MemHeap.Covers, (hregion k).1, (hregion k).2] at hin
      exact hother k hk hin
    have hstay : ∀ js, freeLoop t ptr js = t := fun js =>
      (freeLoop_eq hothert js).elim id fun h => h.trans htwice
    rcases freeLoop_eq hother (j :: is) with h | h
    · rw [h, h]
    · rw [h, hs, hstay]

/-- **Freeing a block in use twice** is freeing it once. -/
theorem free_twice {t : HeapState} {a p : ℕ} {bs : List Block} {b : Block}
    (h : IsHeap (t.env i) a bs) (hb : (p, b) ∈ inUse a bs) {handle : Option (Fin memHeapListNum)}
    (hhandle : handle = some i ∨ handle = none ∧ ∀ j, j ≠ i → ¬(t.memHeapList j).Covers (p + 4)) :
    tuyaMemHeapFree (tuyaMemHeapFree t handle (p + 4)) handle (p + 4) =
      tuyaMemHeapFree t handle (p + 4) := by
  have htwice := memDeallocate_twice h hb
  have hregion := memDeallocate_region h hb
  have hset : (t.set i (memDeallocate (t.env i) (p + 4))).set i
      (memDeallocate ((t.set i (memDeallocate (t.env i) (p + 4))).env i) (p + 4)) =
      t.set i (memDeallocate (t.env i) (p + 4)) := by
    rw [HeapState.env_set, htwice, HeapState.set_set]
  rcases hhandle with rfl | ⟨rfl, hother⟩
  · exact hset
  · refine freeLoop_congr (fun j => ?_) rfl hother hset _
    by_cases hj : j = i
    · rw [hj, HeapState.memHeapList_set]
      exact hregion
    · rw [HeapState.set]
      dsimp only
      rw [Function.update_of_ne hj]
      exact ⟨rfl, rfl⟩

end FreeLoop

/-- **A pointer that is live is released once**, however often it is freed, with the handle of
the heap or with `0`, as long as no `realloc` of the run has asked for a block larger than the
address space. -/
theorem double_free {s₀ s : HeapState} {base size : ℕ} {i : Fin memHeapListNum}
    (hcreate : tuyaMemHeapCreate s₀ base size = (s, some i)) (hlt : base + size < 2 ^ 32)
    (hmin : memHeapMinSize ≤ regionSize base size) {cs : List HeapCall}
    (hvalid : (HeapRun.start s i).Valid i cs) (haddr : ∀ c ∈ cs, c.Addressable) {ptr n : ℕ}
    (hptr : (ptr, n) ∈ ((HeapRun.start s i).runs i cs).live)
    {handle : Option (Fin memHeapListNum)}
    (hhandle : handle = some i ∨ handle = none ∧ ∀ j, j ≠ i →
      ¬(((HeapRun.start s i).runs i cs).state.memHeapList j).Covers ptr) :
    tuyaMemHeapFree (tuyaMemHeapFree ((HeapRun.start s i).runs i cs).state handle ptr) handle ptr =
      tuyaMemHeapFree ((HeapRun.start s i).runs i cs).state handle ptr := by
  obtain ⟨bs₀, h₀⟩ := tuyaMemHeapCreate_inv hcreate hlt hmin
  obtain ⟨bs, h⟩ := h₀.runs hvalid haddr
  obtain ⟨p, b, hb, rfl, -⟩ := exists_of_mem_live h.live hptr
  exact free_twice h.isHeap hb hhandle

/-- Three blocks are allocated in a heap at `0x5400` and the one behind is freed. The one in front
is then reallocated to all of the address space, and through its pointer the size in the header of
the one in the middle becomes `6`, with a guard in front of the old one. -/
def damagedCalls : List HeapCall :=
  [.malloc 10, .malloc 10, .malloc 10, .free 22004, .realloc 21972 0xFFFFFFFF, .write 21972 12 6,
    .write 21972 17 0x55]

/-- The heap that the calls are made on. -/
def damagedHeap : HeapState := (tuyaMemHeapCreate HeapState.zero 0x5400 0x200).1

/-- The run up to the moment in which the block in the middle is freed. -/
def damagedRun : HeapRun := (HeapRun.start damagedHeap 0).runs 0 damagedCalls

theorem damagedCalls_valid : (HeapRun.start damagedHeap 0).Valid 0 damagedCalls :=
  ⟨(by decide : 10 < 2 ^ 32), (by decide : 10 < 2 ^ 32), (by decide : 10 < 2 ^ 32),
    .inr ⟨10, by decide +kernel⟩, ⟨by decide, .inr ⟨10, by decide +kernel⟩⟩,
    ⟨0xFFFFFFFF, by decide +kernel, by decide⟩, ⟨0xFFFFFFFF, by decide +kernel, by decide⟩, trivial⟩

/-- The block in the middle is counted as free twice. -/
theorem not_double_free :
    tuyaMemHeapCreate HeapState.zero 0x5400 0x200 = (damagedHeap, some 0) ∧
      (HeapRun.start damagedHeap 0).Valid 0 damagedCalls ∧ (21988, 10) ∈ damagedRun.live ∧
      ((tuyaMemHeapFree damagedRun.state (some 0) 21988).memHeapList 0).free = 486 ∧
      tuyaMemHeapFree (tuyaMemHeapFree damagedRun.state (some 0) 21988) (some 0) 21988 ≠
        tuyaMemHeapFree damagedRun.state (some 0) 21988 := by
  have hfree : ((tuyaMemHeapFree damagedRun.state (some 0) 21988).memHeapList 0).free = 486 := by
    decide +kernel
  have hfree' : ((tuyaMemHeapFree (tuyaMemHeapFree damagedRun.state (some 0) 21988) (some 0)
      21988).memHeapList 0).free = 492 := by
    decide +kernel
  refine ⟨Prod.ext rfl (by decide +kernel), damagedCalls_valid, by decide +kernel, hfree, fun h => ?_⟩
  rw [h, hfree] at hfree'
  exact absurd hfree' (by decide)

/-- A block of the run of `exampleCalls`, between two others. -/
theorem double_free_example :
    tuyaMemHeapFree (tuyaMemHeapFree
        ((HeapRun.start exampleHeap 0).runs 0 [.malloc 10, .malloc 10, .malloc 10]).state (some 0)
        4324) (some 0) 4324 =
      tuyaMemHeapFree ((HeapRun.start exampleHeap 0).runs 0
        [.malloc 10, .malloc 10, .malloc 10]).state (some 0) 4324 := by
  have hvalid : (HeapRun.start exampleHeap 0).Valid 0 [.malloc 10, .malloc 10, .malloc 10] :=
    ⟨(by decide : 10 < 2 ^ 32), (by decide : 10 < 2 ^ 32), (by decide : 10 < 2 ^ 32), trivial⟩
  exact double_free (n := 10) exampleHeap_eq (by decide) (by decide) hvalid
    (by simp [HeapCall.Addressable]) (by decide +kernel) (.inl rfl)

/-! ### Moving a block -/

section Realloc

variable {i : Fin memHeapListNum} {a p size : ℕ} {s : HeapState} {bs : List Block} {b : Block}

/-- A `malloc` that finds nothing leaves the state as it is. -/
theorem tuyaMemHeapMalloc_null (h : IsHeap (s.env i) a bs) (hn : n < 2 ^ 32)
    (hnull : (tuyaMemHeapMalloc s (some i) n).2 = 0) :
    tuyaMemHeapMalloc s (some i) n = (s, 0) := by
  rcases memAllocate_spec h hn (le_atLeast n) with heq | ⟨m, fl, q, bs', c, heq, -⟩
  · simp only [tuyaMemHeapMalloc, heq, HeapState.set_env]
  · simp only [tuyaMemHeapMalloc, heq] at hnull
    omega

/-- A `malloc` changes no block in use. -/
theorem tuyaMemHeapMalloc_keeps (h : IsHeap (s.env i) a bs) {q : ℕ} {c : Block}
    (hn : n < 2 ^ 32) (hc : (q, c) ∈ inUse a bs) :
    KeepsBlock s.mem (tuyaMemHeapMalloc s (some i) n).1.mem q c :=
  memAllocate_keeps h hn hc

/-- A `free` changes no other block in use. -/
theorem tuyaMemHeapFree_keeps (h : IsHeap (s.env i) a bs) {q : ℕ} {c : Block}
    (hb : (p, b) ∈ inUse a bs) (hc : (q, c) ∈ inUse a bs) (hne : q ≠ p) :
    KeepsBlock s.mem (tuyaMemHeapFree s (some i) (p + 4)).mem q c :=
  memDeallocate_keeps h hb hc hne

/-- **The block `b` at `p` is moved** to the block `c` at `q`: it is in use beside the new one in
`s₁`, its payload is copied in `s₂`, and it is freed in the end. -/
structure Moved (i : Fin memHeapListNum) (a p size : ℕ) (s : HeapState) (bs : List Block)
    (b : Block) (r : HeapState × ℕ) (s₁ s₂ : HeapState) (bs₁ : List Block) (q : ℕ) (c : Block) :
    Prop where
  malloc : tuyaMemHeapMalloc s (some i) (if size < 4 then 4 else size) = (s₁, q + 4)
  allocated : Allocated i a s s₁ bs bs₁ q c
  request : c.request = some size
  larger : b.size < c.size
  copied : s₂ = { s₁ with mem := s₁.mem.copy (q + 4) (p + 4) (b.size - 4) }
  freed : r = (tuyaMemHeapFree s₂ (some i) (p + 4), q + 4)

/-- **What a `realloc` does** whose block fits into the address space: nothing when the block is
large enough or there is no other, and otherwise it moves the block. -/
theorem tuyaMemHeapRealloc_cases (h : IsHeap (s.env i) a bs) (hb : (p, b) ∈ inUse a bs)
    (hsize : size < 2 ^ 32 - 8) :
    (tuyaMemHeapRealloc s (some i) (p + 4) size = (s, p + 4) ∧ size + 5 ≤ b.size) ∨
      tuyaMemHeapRealloc s (some i) (p + 4) size = (s, 0) ∨
      ∃ s₁ s₂ bs₁ q c, Moved i a p size s bs b
        (tuyaMemHeapRealloc s (some i) (p + 4) size) s₁ s₂ bs₁ q c := by
  have h4 : 4 ≤ if size < 4 then 4 else size := by split <;> omega
  have h32 : (if size < 4 then 4 else size) < 2 ^ 32 - 8 := by split <;> omega
  have hge := le_atLeast size
  have hnew : (if size < 4 then 4 else size) + 5 ≤ memNewSize (if size < 4 then 4 else size) := by
    rcases memNewSize_spec h4 (by omega) with ⟨-, hle, -⟩ | ⟨hbig, -⟩
    · exact hle
    · omega
  by_cases hle : memNewSize (if size < 4 then 4 else size) ≤ b.size
  · -- the block is large enough
    refine .inl ⟨?_, by omega⟩
    rw [tuyaMemHeapRealloc, reallocMove_of_le h hb hle]
    rfl
  have hmove := reallocMove_of_lt h hb (Nat.lt_of_not_le hle)
  have hidem : (if (if size < 4 then 4 else size) < 4 then 4 else if size < 4 then 4 else size) =
      if size < 4 then 4 else size := if_neg (by omega)
  rcases tuyaMemHeapMalloc_spec (n := if size < 4 then 4 else size) (k := size) h (by omega)
      (by rw [hidem]; exact hge) with ⟨s₁, heq, -⟩ | ⟨s₁, bs₁, q, c, heq, hs, hc, hreq⟩
  · -- there is no block
    right
    left
    have hnull := tuyaMemHeapMalloc_null h (by omega) (congrArg Prod.snd heq)
    rw [hnull] at hmove
    rw [tuyaMemHeapRealloc, hmove]
    rfl
  · right
    right
    rw [hidem] at hc
    have hb₁ : (p, b) ∈ inUse a bs₁ := hs.granted.inUse.mem_iff.mpr (mem_cons_of_mem _ hb)
    have hble := b.le_size
    have hbounds := hs.isHeap.bounds hb₁
    have hlt := hs.isHeap.lt
    have hsub : u32sub (blockSize s₁.mem p) memBlockHeadSize = b.size - 4 := by
      have hsizep : blockSize s₁.mem p = b.size := hs.isHeap.blockSize_eq hb₁
      rw [hsizep, memBlockHeadSize]
      exact u32sub_of_le (by omega) (by omega)
    rw [heq] at hmove
    dsimp only at hmove
    rw [if_neg (by omega), hsub] at hmove
    refine ⟨s₁, _, bs₁, q, c, heq, hs, hreq, by omega, rfl, ?_⟩
    rw [tuyaMemHeapRealloc, hmove]
    rfl

end Realloc

section Moved

variable {i : Fin memHeapListNum} {a p size q : ℕ} {s s₁ s₂ : HeapState} {bs bs₁ : List Block}
  {b c : Block} {r : HeapState × ℕ}

variable {d : Block}

/-- The old blocks are in use beside the new one. -/
theorem Moved.old_mem (h : Moved i a p size s bs b r s₁ s₂ bs₁ q c)
    (hd : (o, d) ∈ inUse a bs) : (o, d) ∈ inUse a bs₁ :=
  h.allocated.granted.inUse.mem_iff.mpr (mem_cons_of_mem _ hd)

/-- The new block is none that was in use before. -/
theorem Moved.ne (h : Moved i a p size s bs b r s₁ s₂ bs₁ q c)
    (hd : (o, d) ∈ inUse a bs) : o ≠ q :=
  start_ne_of_perm h.allocated.granted.inUse (o, d) hd

/-- The copy stays in the payload of the new block. -/
theorem Moved.frame (h : Moved i a p size s bs b r s₁ s₂ bs₁ q c)
    (hx : x < q + 4 ∨ q + b.size ≤ x) : s₂.mem.byte x = s₁.mem.byte x := by
  rw [h.copied]
  exact Ram.byte_copy_of_notMem (by omega)

theorem Moved.isHeap (h : Moved i a p size s bs b r s₁ s₂ bs₁ q c) : IsHeap (s₂.env i) a bs₁ := by
  have hlarger := h.larger
  have hheap := h.allocated.isHeap.write (m := s₂.mem) h.allocated.mem fun x hx =>
    h.frame (by omega)
  have henv : s₂.env i = { s₁.env i with mem := s₂.mem } := by
    rw [h.copied]
    rfl
  rw [henv]
  exact hheap

/-- **The bytes of the old block are those of the new one.** -/
theorem Moved.bytes (h : Moved i a p size s bs b r s₁ s₂ bs₁ q c) (hs : IsHeap (s.env i) a bs)
    (hsize : size < 2 ^ 32 - 8) (hb : (p, b) ∈ inUse a bs) {k : ℕ} (hk : k + 5 ≤ b.size) :
    r.1.mem.byte (q + 4 + k) = s.mem.byte (p + 4 + k) := by
  have hlarger := h.larger
  have hn : (if size < 4 then 4 else size) < 2 ^ 32 := by split <;> omega
  have hfreed := tuyaMemHeapFree_keeps h.isHeap (h.old_mem hb) h.allocated.mem (h.ne hb).symm
  have hmalloc := tuyaMemHeapMalloc_keeps hs hn hb
  rw [h.malloc] at hmalloc
  rw [h.freed]
  calc (tuyaMemHeapFree s₂ (some i) (p + 4)).mem.byte (q + 4 + k)
      = s₂.mem.byte (q + 4 + k) := hfreed _ (by omega) (by omega)
    _ = s₁.mem.byte (p + 4 + k) := by
        rw [h.copied]
        exact Ram.byte_copy _ _ _ (by omega)
    _ = s.mem.byte (p + 4 + k) := hmalloc _ (by omega) (by omega)

/-- **Every other block in use is as it was.** -/
theorem Moved.keeps (h : Moved i a p size s bs b r s₁ s₂ bs₁ q c) (hs : IsHeap (s.env i) a bs)
    (hsize : size < 2 ^ 32 - 8) (hb : (p, b) ∈ inUse a bs)
    (hd : (o, d) ∈ inUse a bs) (hne : o ≠ p) : KeepsBlock s.mem r.1.mem o d := by
  intro x hlo hhi
  have hlarger := h.larger
  have hn : (if size < 4 then 4 else size) < 2 ^ 32 := by split <;> omega
  have hmalloc := tuyaMemHeapMalloc_keeps hs hn hd
  rw [h.malloc] at hmalloc
  have hapart := inUse_apart h.allocated.mem (h.old_mem hd) (h.ne hd)
  rw [h.freed]
  calc (tuyaMemHeapFree s₂ (some i) (p + 4)).mem.byte x
      = s₂.mem.byte x :=
        tuyaMemHeapFree_keeps h.isHeap (h.old_mem hb) (h.old_mem hd) hne x hlo hhi
    _ = s₁.mem.byte x := h.frame (by omega)
    _ = s.mem.byte x := hmalloc x hlo hhi

/-- **One block is taken and one returned.** -/
theorem Moved.balance (h : Moved i a p size s bs b r s₁ s₂ bs₁ q c) (hs : IsHeap (s.env i) a bs)
    (hb : (p, b) ∈ inUse a bs) :
    (r.1.memHeapList i).free + blockSize r.1.mem q =
      (s.memHeapList i).free + blockSize s.mem p := by
  obtain ⟨bs₂, hheap, hret, -⟩ := tuyaMemHeapFree_spec h.isHeap (h.old_mem hb)
  have hq : (q, c) ∈ inUse a bs₂ := by
    refine (mem_cons.mp (hret.inUse.mem_iff.mp h.allocated.mem)).resolve_left fun heq => ?_
    exact h.ne hb (congrArg Prod.fst heq).symm
  have hsizep : blockSize s.mem p = b.size := hs.blockSize_eq hb
  have hsizeq : blockSize (tuyaMemHeapFree s₂ (some i) (p + 4)).mem q = c.size :=
    hheap.blockSize_eq hq
  have hfree : (s.memHeapList i).free = freeTotal bs := hs.free
  have hfree' : ((tuyaMemHeapFree s₂ (some i) (p + 4)).memHeapList i).free = freeTotal bs₂ :=
    hheap.free
  have htaken := h.allocated.granted.free
  have hgiven := hret.free
  rw [h.freed, hsizep, hfree]
  dsimp only
  omega

end Moved

/-! ### The bytes of the clients -/

/-- A live payload with its header and its guard is as it was. -/
structure SamePayload (m m' : Ram) (x : ℕ × ℕ) : Prop where
  bytes : ∀ k < x.2, m'.byte (x.1 + k) = m.byte (x.1 + k)
  size : blockSize m' (x.1 - 4) = blockSize m (x.1 - 4)
  guard : m'.byte (memDogAddr m (x.1 - 4)) = m.byte (memDogAddr m (x.1 - 4))

/-- **The data of `ptr`, of `n` bytes, is in the `m` bytes at `q`**: the heap has integrity with
`q` in place of `ptr`, all other payloads and guards are as they were, and when `q` is another
block, one block has been taken and the old one returned. -/
structure ReallocDone (base size : ℕ) (i : Fin memHeapListNum) (r : HeapRun) (ptr n m : ℕ)
    (s : HeapState) (q : ℕ) : Prop where
  ne_null : q ≠ 0
  live : ∃ frees blocks,
    Integrity base size (s.env i) ((q, m) :: revoke r.live ptr) frees blocks
  bytes : ∀ k < min n m, s.mem.byte (q + k) = r.state.mem.byte (ptr + k)
  others : ∀ x ∈ r.live, x.1 ≠ ptr → SamePayload r.state.mem s.mem x
  inPlace : q = ptr → s = r.state
  balance : q ≠ ptr → (s.memHeapList i).free + blockSize s.mem (q - 4) =
    (r.state.memHeapList i).free + blockSize r.state.mem (ptr - 4)

/-- **A `realloc` preserves data**: it returns null and nothing has changed, or it is done. -/
def ReallocPreserves (base size : ℕ) (i : Fin memHeapListNum) (r : HeapRun) (ptr n m : ℕ) : Prop :=
  tuyaMemHeapRealloc r.state (some i) ptr m = (r.state, 0) ∨
    ReallocDone base size i r ptr n m (tuyaMemHeapRealloc r.state (some i) ptr m).1
      (tuyaMemHeapRealloc r.state (some i) ptr m).2

section Preserves

variable {i : Fin memHeapListNum} {base size : ℕ} {r : HeapRun} {bs : List Block}

/-- A block that is as it was has the payload it had. -/
theorem KeepsBlock.samePayload {m m' : Ram} {a : ℕ} {d : Block}
    (h : KeepsBlock m m' o d) (hv : v.mem = m) (hheap : IsHeap v a bs) (hd : (o, d) ∈ inUse a bs)
    {l : ℕ} (hl : l + 5 ≤ d.size) : SamePayload m m' (o + 4, l) := by
  subst hv
  have hbounds := hheap.bounds hd
  have hlt := hheap.lt
  have hdog : memDogAddr v.mem o = o + d.size - 1 :=
    memDogAddr_eq (hheap.blockSize_eq hd) (by omega) (by omega)
  refine ⟨fun k hk => h _ (by omega) (by dsimp only at hk; omega), ?_, ?_⟩
  · exact Ram.load_congr fun x _ _ => h x (by omega) (by omega)
  · rw [Nat.add_sub_cancel, hdog]
    exact h _ (by omega) (by omega)

/-- The heap after a `realloc` that is done has integrity. -/
theorem HeapInv.integrity_realloc (h : HeapInv i (regionStart base) (regionSize base size) r bs)
    (hpos : 0 < regionSize base size) {ptr m : ℕ} (hptr : (ptr, n) ∈ r.live)
    (hm : m < 2 ^ 32 - 8) (hne : (tuyaMemHeapRealloc r.state (some i) ptr m).2 ≠ 0) :
    ∃ frees blocks, Integrity base size ((tuyaMemHeapRealloc r.state (some i) ptr m).1.env i)
      (((tuyaMemHeapRealloc r.state (some i) ptr m).2, m) :: revoke r.live ptr) frees blocks := by
  obtain ⟨bs', h'⟩ := h.run_realloc ⟨by omega, .inr ⟨n, hptr⟩⟩ fun _ => hm
  have hint := h'.isHeap.integrity h'.total hpos h'.live h'.watermark.mem h'.watermark.le
  have hlive : ((HeapCall.realloc ptr m).run i r).live =
      ((tuyaMemHeapRealloc r.state (some i) ptr m).2, m) :: revoke r.live ptr := by
    rw [HeapCall.run]
    dsimp only
    rw [if_neg hne, grant, if_neg hne]
  rw [hlive] at hint
  exact ⟨_, _, hint⟩

/-- A `realloc` whose block fits into the address space preserves data. -/
theorem HeapInv.reallocPreserves (h : HeapInv i (regionStart base) (regionSize base size) r bs)
    (hpos : 0 < regionSize base size) {ptr m : ℕ} (hptr : (ptr, n) ∈ r.live)
    (hm : m < 2 ^ 32 - 8) : ReallocPreserves base size i r ptr n m := by
  have hint := h.integrity_realloc hpos hptr hm
  obtain ⟨p, b, hb, rfl, hreq⟩ := exists_of_mem_live h.live hptr
  have hfits := b.fits n (by simp [hreq])
  rcases tuyaMemHeapRealloc_cases h.isHeap hb hm with ⟨heq, hle⟩ | heq | ⟨s₁, s₂, bs₁, q, c, hmoved⟩
  · -- in place
    right
    rw [heq] at hint ⊢
    refine ⟨by omega, hint (by omega), fun k _ => rfl, fun x _ _ => ⟨fun k _ => rfl, rfl, rfl⟩,
      fun _ => rfl, fun hne => absurd rfl hne⟩
  · exact .inl heq
  · -- moved
    right
    have hret : (tuyaMemHeapRealloc r.state (some i) (p + 4) m).2 = q + 4 := by rw [hmoved.freed]
    have hqp := (hmoved.ne hb).symm
    have hlive := hint (by omega)
    rw [hret] at hlive ⊢
    refine ⟨by omega, hlive, fun k hk => ?_, fun x hx hne => ?_, fun heq => absurd heq (by omega),
      fun _ => ?_⟩
    · exact hmoved.bytes h.isHeap hm hb (by omega)
    · obtain ⟨o, d, hd, ho, hdreq⟩ := exists_of_mem_live h.live (show (x.1, x.2) ∈ r.live from hx)
      have hdfits := d.fits x.2 (by simp [hdreq])
      have hkeeps := hmoved.keeps h.isHeap hm hb hd (by omega)
      have hsame := hkeeps.samePayload rfl h.isHeap hd hdfits
      rwa [← ho] at hsame
    · exact hmoved.balance h.isHeap hb

/-- A `realloc` to more than the address space returns the old block, which has no room. -/
theorem HeapInv.not_reallocPreserves
    (h : HeapInv i (regionStart base) (regionSize base size) r bs) {ptr m : ℕ}
    (hptr : (ptr, n) ∈ r.live) (hm : m < 2 ^ 32) (hbig : 2 ^ 32 - 8 ≤ m) :
    ¬ReallocPreserves base size i r ptr n m := by
  obtain ⟨p, b, hb, rfl, -⟩ := exists_of_mem_live h.live hptr
  have hble := b.le_size
  have hlt := h.isHeap.lt
  have hpos := h.isHeap.pos
  have hdvd := h.isHeap.dvd
  rw [h.total] at hlt
  have hle : memNewSize (if m < 4 then 4 else m) ≤ b.size := by
    rw [if_neg (by omega)]
    rcases memNewSize_spec (by omega : 4 ≤ m) hm with ⟨hsmall, -⟩ | ⟨-, hwrap⟩
    · omega
    · omega
  have heq : tuyaMemHeapRealloc r.state (some i) (p + 4) m = (r.state, p + 4) := by
    rw [tuyaMemHeapRealloc, reallocMove_of_le h.isHeap hb hle]
    rfl
  rintro (hnull | hdone)
  · have := congrArg Prod.snd (heq.symm.trans hnull)
    omega
  · obtain ⟨frees, blocks, hint⟩ := hdone.live
    have hbounds := hint.bounds _ (mem_cons_self ..)
    rw [heq] at hbounds
    have := h.isHeap.bounds hb
    omega

end Preserves

/-- **A `realloc` preserves data if and only if its block fits into the address space**, in every
heap that a run reaches in which this was so for every `realloc`. -/
theorem realloc_preserves_iff {s₀ s : HeapState} {base size : ℕ} {i : Fin memHeapListNum}
    (hcreate : tuyaMemHeapCreate s₀ base size = (s, some i)) (hlt : base + size < 2 ^ 32)
    (hmin : memHeapMinSize ≤ regionSize base size) {cs : List HeapCall}
    (hvalid : (HeapRun.start s i).Valid i cs) (haddr : ∀ c ∈ cs, c.Addressable) {ptr n m : ℕ}
    (hptr : (ptr, n) ∈ ((HeapRun.start s i).runs i cs).live) (hm : m < 2 ^ 32) :
    ReallocPreserves base size i ((HeapRun.start s i).runs i cs) ptr n m ↔ m < 2 ^ 32 - 8 := by
  obtain ⟨bs₀, h₀⟩ := tuyaMemHeapCreate_inv hcreate hlt hmin
  obtain ⟨bs, h⟩ := h₀.runs hvalid haddr
  have hpos : 0 < regionSize base size := lt_of_lt_of_le (by decide) hmin
  constructor
  · intro hpres
    by_contra hbig
    exact h.not_reallocPreserves hptr hm (not_lt.mp hbig) hpres
  · exact h.reallocPreserves hpos hptr

/-- The ten bytes of a block move to a block of forty. -/
theorem realloc_preserves_example :
    ReallocPreserves 0x1000 256 0 ((HeapRun.start exampleHeap 0).runs 0 [.malloc 10, .calloc 5])
      4340 10 40 := by
  have hvalid : (HeapRun.start exampleHeap 0).Valid 0 [.malloc 10, .calloc 5] :=
    ⟨(by decide : 10 < 2 ^ 32), (by decide : 5 < 2 ^ 32), trivial⟩
  exact (realloc_preserves_iff (n := 10) exampleHeap_eq (by decide) (by decide) hvalid
    (by simp [HeapCall.Addressable]) (by decide +kernel) (by decide)).mpr (by decide)

/-- The ten bytes of a block, moved to all of the address space. -/
theorem not_realloc_preserves_huge :
    tuyaMemHeapCreate HeapState.zero 0x1000 256 = (exampleHeap, some 0) ∧
      (HeapRun.start exampleHeap 0).Valid 0 [.malloc 10] ∧
      (4340, 10) ∈ ((HeapRun.start exampleHeap 0).runs 0 [.malloc 10]).live ∧
      (tuyaMemHeapRealloc ((HeapRun.start exampleHeap 0).runs 0 [.malloc 10]).state (some 0) 4340
        0xFFFFFFFF).2 = 4340 ∧
      blockSize ((HeapRun.start exampleHeap 0).runs 0 [.malloc 10]).state.mem 4336 = 16 ∧
      ¬ReallocPreserves 0x1000 256 0 ((HeapRun.start exampleHeap 0).runs 0 [.malloc 10]) 4340 10
        0xFFFFFFFF := by
  have hptr : (4340, 10) ∈ ((HeapRun.start exampleHeap 0).runs 0 [.malloc 10]).live := by
    decide +kernel
  have hvalid : (HeapRun.start exampleHeap 0).Valid 0 [.malloc 10] :=
    ⟨(by decide : 10 < 2 ^ 32), trivial⟩
  obtain ⟨bs₀, h₀⟩ := tuyaMemHeapCreate_inv exampleHeap_eq (by decide) (by decide)
  obtain ⟨bs, h⟩ := h₀.runs hvalid (by simp [HeapCall.Addressable])
  exact ⟨exampleHeap_eq, hvalid, hptr, by decide +kernel, by decide +kernel,
    h.not_reallocPreserves hptr (by decide) (by decide)⟩

end Tuya

end Gd32
