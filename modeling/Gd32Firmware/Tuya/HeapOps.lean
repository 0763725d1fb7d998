import Gd32Firmware.Tuya.HeapBlocks

/-!
# Allocation and release, on blocks

What `MEM_Allocate` and `MEM_Deallocate` do to the blocks of a heap. A heap in memory stands for
its blocks by `Tuya.IsHeap`; an allocation cuts a free block in two or takes it whole
(`Tuya.memAllocate_spec`), and a release makes a block free and joins it with the free
blocks around it (`Tuya.memDeallocate_spec`). Neither touches memory outside the blocks.
-/

namespace Gd32

open List

variable {ws bs : List Block} {pre n this k fuel p q base : ℕ} {v : HeapEnv} {m' : Ram}

namespace Tuya

/-! ### Walking along the free blocks -/

/-- Before the first free block all blocks are in use. -/
theorem exists_of_firstFree_ne_zero {a : ℕ} (h : firstFree a ws 0 ≠ 0) :
    ∃ us c vs, ws = us ++ c :: vs ∧ c.request = none ∧ firstFree a ws 0 = a + total us ∧
      ∀ p, lastFree p a us = p := by
  induction ws generalizing a with
  | nil => exact absurd rfl h
  | cons b ws ih =>
    rw [firstFree] at h ⊢
    by_cases hfree : b.request = none
    · exact ⟨[], b, ws, rfl, hfree, by simp [hfree], fun p => rfl⟩
    · rw [if_neg hfree] at h ⊢
      obtain ⟨us, c, vs, rfl, hc, hfirst, hlast⟩ := ih h
      refine ⟨b :: us, c, vs, rfl, hc, ?_, fun p => ?_⟩
      · rw [hfirst, total_cons, add_assoc]
      · rw [lastFree, if_neg hfree, hlast]

/-- Without a first free block there is none. -/
theorem request_ne_none_of_firstFree_eq_zero {a : ℕ} (ha : 0 < a)
    (h : firstFree a ws 0 = 0) : ∀ b ∈ ws, b.request ≠ none := by
  induction ws generalizing a with
  | nil => simp
  | cons b ws ih =>
    rw [firstFree] at h
    by_cases hfree : b.request = none
    · rw [if_pos hfree] at h
      omega
    · rw [if_neg hfree] at h
      exact forall_mem_cons.mpr ⟨hfree, ih (by omega) h⟩

/-- **A place between the free blocks**: `pre` is the last free block in front of it and `next`
the first one behind. -/
structure Cursor (a : ℕ) (bs : List Block) (pre next : ℕ) (ws : List Block) : Prop where
  cut : ∃ zs, bs = zs ++ ws ∧ pre = lastFree 0 a zs ∧ next = firstFree (a + total zs) ws 0

/-- **A free block** of at least `n` bytes at `this`, the free block before it being `pre`. -/
def FreeAt (a : ℕ) (bs : List Block) (n pre this : ℕ) : Prop :=
  ∃ xs b ys, bs = xs ++ b :: ys ∧ b.request = none ∧ n ≤ b.size ∧ this = a + total xs ∧
    pre = lastFree 0 a xs

theorem cursor_start (a : ℕ) (bs : List Block) : Cursor a bs 0 (firstFree a bs 0) bs :=
  ⟨[], rfl, rfl, by simp⟩

/-- At a place between free blocks, the link of the next one leads on. -/
theorem Cursor.advance {m : Ram} {a : ℕ} {next : ℕ}
    (hseg : Seg m 0 a bs) (hc : Cursor a bs pre next ws) (hnext : next ≠ 0) :
    ∃ us c vs, ws = us ++ c :: vs ∧ c.request = none ∧ (∀ b ∈ us, b.request ≠ none) ∧
      blockSize m next = c.size ∧ FreeAt a bs c.size pre next ∧
      Cursor a bs next (blockNext m next) vs := by
  obtain ⟨zs, rfl, rfl, rfl⟩ := hc.cut
  obtain ⟨us, c, vs, rfl, hfree, hfirst, hlast⟩ := exists_of_firstFree_ne_zero hnext
  obtain ⟨-, hseg⟩ := seg_append.mp hseg
  obtain ⟨-, ⟨hsize, -⟩, hlink, -⟩ := seg_append.mp hseg
  have hadd : a + total zs + total us = a + total (zs ++ us) := by
    rw [total_append, add_assoc]
  have hpre : lastFree 0 a zs = lastFree 0 a (zs ++ us) := by
    rw [lastFree_append, hlast]
  have hbs : zs ++ (us ++ c :: vs) = (zs ++ us) ++ c :: vs := by simp
  rw [hadd] at hsize hlink hfirst
  rw [hfirst]
  refine ⟨us, c, vs, rfl, hfree, ?_, hsize, ⟨zs ++ us, c, vs, hbs, hfree, le_rfl, rfl, hpre⟩, ?_⟩
  · -- a free block among them would be the last one
    intro b hb hnone
    obtain ⟨us₁, us₂, rfl⟩ := append_of_mem hb
    have h1 := hlast 0
    have h2 := hlast 1
    rw [lastFree_append, lastFree, if_pos hnone] at h1 h2
    omega
  · refine ⟨zs ++ us ++ [c], by simp, ?_, ?_⟩
    · rw [lastFree_append, lastFree, if_pos hfree, lastFree]
    · rw [hlink hfree, total_append _ [c], total_cons, total_nil, ← add_assoc, add_zero]

theorem FreeAt.mono {a : ℕ} {n' : ℕ} (h : FreeAt a bs n pre this)
    (hle : n' ≤ n) : FreeAt a bs n' pre this := by
  obtain ⟨xs, b, ys, hbs, hfree, hn, hthis, hpre⟩ := h
  exact ⟨xs, b, ys, hbs, hfree, hle.trans hn, hthis, hpre⟩

/-- The inner loop goes from a free block to another one. -/
theorem fitLoop_freeAt {m : Ram} {a : ℕ} (hseg : Seg m 0 a bs)
    (fuel : ℕ) {preBak thisBak : ℕ} (hthis : FreeAt a bs n pre this)
    (hc : Cursor a bs preBak thisBak ws) :
    FreeAt a bs n (fitLoop m n fuel pre this preBak thisBak k).1
      (fitLoop m n fuel pre this preBak thisBak k).2 := by
  induction fuel generalizing pre this preBak thisBak k ws with
  | zero => exact hthis
  | succ fuel ih =>
    rw [fitLoop]
    split
    · exact hthis
    · next hne =>
      obtain ⟨us, c, vs, -, -, -, hsize, hat, hc'⟩ := hc.advance hseg hne
      split
      · next hfit =>
        rw [hsize] at hfit
        split
        · exact hat.mono hfit.1
        · exact ih (hat.mono hfit.1) hc'
      · split
        · exact hthis
        · exact ih hthis hc'

/-- **The search finds a free block that is large enough.** -/
theorem chunkLoop_freeAt {m : Ram} {a : ℕ} (hseg : Seg m 0 a bs) (hc : Cursor a bs pre this ws) {r : ℕ × ℕ}
    (h : chunkLoop m n fuel pre this = some r) : FreeAt a bs n r.1 r.2 := by
  induction fuel generalizing pre this ws with
  | zero => simp [chunkLoop] at h
  | succ fuel ih =>
    rw [chunkLoop] at h
    split at h
    · simp at h
    · next hne =>
      obtain ⟨us, c, vs, -, -, -, hsize, hat, hc'⟩ := hc.advance hseg hne
      split at h
      · next hfit =>
        obtain rfl := Option.some.inj h
        rw [hsize] at hfit
        exact fitLoop_freeAt hseg _ (hat.mono hfit) hc'
      · exact ih hc' h

/-- **The search fails only when no free block is large enough.** -/
theorem chunkLoop_eq_none {m : Ram} {a : ℕ} (ha : 0 < a)
    (hseg : Seg m 0 a bs) (hc : Cursor a bs pre this ws)
    (hfuel : ws.length < fuel) (h : chunkLoop m n fuel pre this = none) :
    ∀ b ∈ ws, b.request = none → b.size < n := by
  induction fuel generalizing pre this ws with
  | zero => omega
  | succ fuel ih =>
    rw [chunkLoop] at h
    split at h
    · next hzero =>
      obtain ⟨zs, -, -, hfirst⟩ := hc.cut
      intro b hb hfree
      exact absurd hfree (request_ne_none_of_firstFree_eq_zero (by omega) (hfirst.symm.trans hzero)
        b hb)
    · next hne =>
      obtain ⟨us, c, vs, rfl, hfree, hus, hsize, -, hc'⟩ := hc.advance hseg hne
      split at h
      · simp at h
      · next hfit =>
        rw [length_append, length_cons] at hfuel
        intro b hb hnone
        rcases mem_append.mp hb with hb | hb
        · exact absurd hnone (hus b hb)
        rcases mem_cons.mp hb with rfl | hb
        · omega
        · exact ih hc' (by omega) h b hb hnone

/-- The loop of a release stops at the free blocks around the released one. -/
theorem placeLoop_eq {m : Ram} {nx fb a : ℕ} {xs : List Block} (ha : 0 < a) (hseg : Seg m nx a xs)
    (hfb : a + total xs ≤ fb) (hnx : nx = 0 ∨ fb ≤ nx) (hfuel : xs.length < fuel)
    (p : ℕ) : placeLoop m fb fuel p (firstFree a xs nx) = (lastFree p a xs, nx) := by
  induction xs generalizing a fuel p with
  | nil =>
    obtain ⟨k, rfl⟩ : ∃ k, fuel = k + 1 := ⟨fuel - 1, by simp at hfuel; omega⟩
    rw [placeLoop, firstFree, if_neg (by omega), lastFree]
  | cons b xs ih =>
    obtain ⟨-, hlink, hrest⟩ := hseg
    have hb := b.le_size
    rw [total_cons] at hfb
    rw [length_cons] at hfuel
    rw [firstFree, lastFree]
    by_cases hfree : b.request = none
    · obtain ⟨k, rfl⟩ : ∃ k, fuel = k + 1 := ⟨fuel - 1, by omega⟩
      rw [if_pos hfree, if_pos hfree, placeLoop, if_pos (by omega), hlink hfree]
      exact ih (by omega) hrest (by omega) (by omega) a
    · rw [if_neg hfree, if_neg hfree]
      exact ih (by omega) hrest (by omega) (by omega) p

/-! ### Heaps -/

/-- The memory from `a` on holds the blocks, and the list of free blocks leads to the first
free one. -/
structure HasBlocks (v : HeapEnv) (a : ℕ) (bs : List Block) : Prop where
  pos : 0 < a
  dvd : 4 ∣ a
  lt : a + total bs < 2 ^ 32
  le_size : total bs ≤ v.heap.size
  seg : Seg v.mem 0 a bs
  list : v.heap.freeList = firstFree a bs 0
  noAdjacent : NoAdjacent bs

/-- **A heap in memory stands for its blocks**, which lie from `a` on. -/
structure IsHeap (v : HeapEnv) (a : ℕ) (bs : List Block) : Prop extends HasBlocks v a bs where
  free : v.heap.free = freeTotal bs

theorem length_le_total (bs : List Block) : 12 * bs.length ≤ total bs := by
  induction bs with
  | nil => simp
  | cons b bs ih =>
    have hb := b.le_size
    rw [length_cons, total_cons]
    omega

theorem memDogAddr_eq {m : Ram} (hsize : blockSize m p = n) (hn : 0 < n)
    (hlt : p + n < 2 ^ 32) : memDogAddr m p = p + n - 1 := by
  rw [memDogAddr, hsize]
  exact u32sub_of_le (by omega) hlt

/-- The size of the block for a request: large enough, or wrapped to almost nothing. -/
theorem memNewSize_spec (h4 : 4 ≤ n) (hn : n < 2 ^ 32) :
    (n < 2 ^ 32 - 8 ∧ n + 5 ≤ memNewSize n ∧ 4 ∣ memNewSize n ∧ memNewSize n < 2 ^ 32) ∨
      (2 ^ 32 - 8 ≤ n ∧ memNewSize n ≤ 4) := by
  simp only [memNewSize, alignUp, alignDown, u32, memBlockHeadSize]
  omega

/-! ### Allocation -/

/-- Cutting a block off, in memory. -/
theorem cutBlock_spec {m : Ram} {s : ℕ} (hs : blockSize m this = s) (hn : 12 ≤ n)
    (hle : n + 28 ≤ s) (hlt : this + s < 2 ^ 32) :
    ∃ m', cutBlock m this n = (m', this + (s - n)) ∧ blockSize m' this = s - n ∧
      m'.byte (this + (s - n) - 1) = memBlockStatFree ∧ blockNext m' this = blockNext m this ∧
      blockSize m' (this + (s - n)) = n ∧ m'.byte (this + (s - n) + n - 1) = memBlockStatUse ∧
      ∀ x, x < this ∨ this + s ≤ x → m'.byte x = m.byte x := by
  have hsub : u32sub (blockSize m this) n = s - n := by
    rw [hs]
    exact u32sub_of_le (by omega) (by omega)
  -- the four writes, one after the other
  let m₁ := setBlockSize m this (s - n)
  let m₂ := m₁.put (this + (s - n) - 1) memBlockStatFree
  let m₃ := setBlockSize m₂ (this + (s - n)) n
  let m₄ := m₃.put (this + (s - n) + n - 1) memBlockStatUse
  have h₁ : blockSize m₁ this = s - n := Ram.load_store _ _ (by omega)
  have h₂ : blockSize m₂ this = s - n := (Ram.load_put_of_notMem (by omega)).trans h₁
  have h₃ : blockSize m₃ (this + (s - n)) = n := Ram.load_store _ _ (by omega)
  have hcut : cutBlock m this n = (m₄, this + (s - n)) := by
    have hdog : memDogAddr m₁ this = this + (s - n) - 1 := memDogAddr_eq h₁ (by omega) (by omega)
    have hdog' : memDogAddr m₃ (this + (s - n)) = this + (s - n) + n - 1 :=
      memDogAddr_eq h₃ (by omega) (by omega)
    have hnew : u32 (this + (s - n)) = this + (s - n) := u32_of_lt (by omega)
    simp only [cutBlock, hsub]
    rw [show setBlockSize m this (s - n) = m₁ from rfl, hdog,
      show m₁.put (this + (s - n) - 1) memBlockStatFree = m₂ from rfl, h₂, hnew,
      show setBlockSize m₂ (this + (s - n)) n = m₃ from rfl, hdog']
  refine ⟨m₄, hcut, ?_, ?_, ?_, ?_, Ram.byte_put _ _ _, fun x hx => ?_⟩
  · refine (Ram.load_put_of_notMem (by omega)).trans ?_
    exact (Ram.load_store_of_disjoint (by omega)).trans h₂
  · refine (Ram.byte_put_of_ne (by omega)).trans ?_
    exact (Ram.byte_store_of_notMem (by omega)).trans (Ram.byte_put _ _ _)
  · refine (Ram.load_put_of_notMem (by omega)).trans ?_
    refine (Ram.load_store_of_disjoint (by omega)).trans ?_
    exact (Ram.load_put_of_notMem (by omega)).trans (Ram.load_store_of_disjoint (by omega))
  · exact (Ram.load_put_of_notMem (by omega)).trans h₃
  · refine (Ram.byte_put_of_ne (by omega)).trans ?_
    refine (Ram.byte_store_of_notMem (by omega)).trans ?_
    exact (Ram.byte_put_of_ne (by omega)).trans (Ram.byte_store_of_notMem (by omega))

/-- Taking a block out of the list of free blocks, in memory. -/
theorem takeBlock_spec {s : ℕ} (hs : blockSize v.mem this = s)
    (hle : 12 ≤ s) (hlt : this + s < 2 ^ 32) (hpre : pre = 0 ∨ pre + 12 ≤ this) :
    ∃ m', takeBlock v pre this =
        { v with mem := m', heap := { v.heap with
          freeList := if pre = 0 then blockNext v.mem this else v.heap.freeList } } ∧
      blockSize m' this = s ∧ m'.byte (this + s - 1) = memBlockStatUse ∧
      (pre ≠ 0 → blockNext m' pre = blockNext v.mem this) ∧
      ∀ x, (x < this ∨ this + s ≤ x) → (pre = 0 ∨ x < pre + 4 ∨ pre + 8 ≤ x) →
        m'.byte x = v.mem.byte x := by
  by_cases hzero : pre = 0
  · -- the block is the first of the list
    refine ⟨v.mem.put (this + s - 1) memBlockStatUse, ?_, ?_, Ram.byte_put _ _ _, ?_, ?_⟩
    · have hdog : memDogAddr v.mem this = this + s - 1 := memDogAddr_eq hs (by omega) hlt
      simp only [takeBlock, hzero, ne_eq, not_true_eq_false, if_false, if_true, hdog]
    · exact (Ram.load_put_of_notMem (by omega)).trans hs
    · exact fun h => absurd hzero h
    · exact fun x hx _ => Ram.byte_put_of_ne (by omega)
  · have hsize : blockSize (setBlockNext v.mem pre (blockNext v.mem this)) this = s :=
      (Ram.load_store_of_disjoint (by omega)).trans hs
    refine ⟨(setBlockNext v.mem pre (blockNext v.mem this)).put (this + s - 1) memBlockStatUse,
      ?_, ?_, Ram.byte_put _ _ _, fun _ => ?_, fun x hx hx' => ?_⟩
    · have hdog : memDogAddr (setBlockNext v.mem pre (blockNext v.mem this)) this = this + s - 1 :=
        memDogAddr_eq hsize (by omega) hlt
      simp only [takeBlock, hzero, ne_eq, not_false_eq_true, if_true, if_false, hdog]
    · exact (Ram.load_put_of_notMem (by omega)).trans hsize
    · exact (Ram.load_put_of_notMem (by omega)).trans (Ram.load_store _ _ (Ram.load_lt _ _))
    · exact (Ram.byte_put_of_ne (by omega)).trans (Ram.byte_store_of_notMem (by omega))

/-- **The block `c` at `p` goes to a request**: what happens to the blocks of a heap when it is
found. -/
structure Granted (a : ℕ) (bs bs' : List Block) (p : ℕ) (c : Block) : Prop where
  total : total bs' = total bs
  free : freeTotal bs' + c.size = freeTotal bs
  inUse : (inUse a bs').Perm ((p, c) :: inUse a bs)

/-- A block is cut from the end of a free one. -/
theorem HasBlocks.cut {a : ℕ} {xs ys : List Block} {b : Block}
    (h : HasBlocks v a (xs ++ b :: ys)) (hfree : b.request = none) (hn : 12 ≤ n)
    (hdvd : 4 ∣ n) (hq : q + 5 ≤ n) (hle : n + 28 ≤ b.size) :
    ∃ m bs' c, cutBlock v.mem (a + total xs) n = (m, a + total xs + (b.size - n)) ∧
      HasBlocks { v with mem := m } a bs' ∧
      Granted a (xs ++ b :: ys) bs' (a + total xs + (b.size - n)) c ∧
      c.size = n ∧ c.request = some q ∧
      ∀ x, x < a ∨ a + total (xs ++ b :: ys) ≤ x → m.byte x = v.mem.byte x := by
  obtain ⟨ha, ha4, hlt, hfuel, hseg, hlist, hadj⟩ := h
  have hmem := lastFree_mem 0 a xs
  have hb := b.dvd_size
  obtain ⟨hfront, ⟨hsize, -⟩, hlink, -⟩ := seg_append.mp hseg
  rw [total_append, total_cons] at hlt hfuel ⊢
  obtain ⟨m, hcut, hsize₁, hguard₁, hlink₁, hsize₂, hguard₂, hframe⟩ :=
    cutBlock_spec hsize hn hle (by omega)
  -- the rest of the free block, and the block that is cut off
  let b₁ : Block := .free (b.size - n) (by omega) (by omega)
  let b₂ : Block := ⟨n, some q, hn, hdvd, by simpa using hq⟩
  have htotal : total [b₁, b₂] = total [b] := by
    simp only [total_cons, total_nil, b₁, b₂, Block.free]
    omega
  have hfirst : ∀ a', firstFree a' ([b₁, b₂] ++ ys) 0 = firstFree a' ([b] ++ ys) 0 := by
    intro a'
    simp only [cons_append, firstFree, hfree, b₁, Block.free, if_true]
  have hmid : Seg m (firstFree (a + total xs + total [b]) ys 0) (a + total xs) [b₁, b₂] := by
    refine ⟨⟨hsize₁, hguard₁⟩, fun _ => ?_, ⟨hsize₂, hguard₂⟩, fun h => ?_, trivial⟩
    · rw [hlink₁, hlink hfree]
      simp [firstFree, b₂]
    · simp [b₂] at h
  have hpre : lastFree 0 a xs ≠ 0 → blockNext m (lastFree 0 a xs) =
      firstFree (a + total xs) ([b₁, b₂] ++ ys) 0 := by
    intro hne
    rw [hfirst]
    refine Eq.trans (Ram.load_congr fun x _ _ => hframe x (by omega)) ?_
    exact hfront.blockNext_lastFree hne
  refine ⟨m, xs ++ [b₁, b₂] ++ ys, b₂, hcut, ⟨ha, ha4, ?_, ?_, ?_, ?_, ?_⟩, ⟨?_, ?_, ?_⟩,
    rfl, rfl, fun x hx => hframe x (by omega)⟩
  · rw [total_append, total_append, htotal]
    simpa [add_assoc] using hlt
  · rw [total_append, total_append, htotal]
    simpa [add_assoc] using hfuel
  · refine Seg.splice [b] ha (by simpa using hseg) htotal ?_ hmid hpre
    intro x _ _ hx _
    exact hframe x (by simpa using hx)
  · rw [append_assoc, firstFree_append, hfirst, ← firstFree_append]
    exact hlist
  · obtain ⟨hxs, hys, hends⟩ := noAdjacent_append_cons.mp hadj
    have hused : NoAdjacent ([] ++ b₂ :: ys) :=
      noAdjacent_append_cons.mpr ⟨.nil, hys, fun h => by simp [b₂] at h⟩
    rw [append_assoc]
    refine noAdjacent_append_cons.mpr ⟨hxs, hused, fun _ => ⟨(hends hfree).1, ?_⟩⟩
    simp [b₂]
  · rw [total_append, total_append, htotal]
    simp [add_assoc]
  · simp [freeTotal, hfree, b₁, b₂, Block.free]
    omega
  · have hadd : a + total xs + (b.size - n) + n = a + total xs + b.size := by omega
    simp only [append_assoc, inUse_append, cons_append, nil_append, inUse,
      hfree, b₁, b₂, Block.free, if_true, reduceCtorEq, if_false, hadd]
    exact perm_middle

/-- A free block is taken whole. -/
theorem HasBlocks.take {a : ℕ} {xs ys : List Block} {b : Block}
    (h : HasBlocks v a (xs ++ b :: ys)) (hfree : b.request = none)
    (hq : q + 5 ≤ b.size) :
    ∃ m fl bs' c, takeBlock v (lastFree 0 a xs) (a + total xs) =
        { v with mem := m, heap := { v.heap with freeList := fl } } ∧
      HasBlocks { v with mem := m, heap := { v.heap with freeList := fl } } a bs' ∧
      Granted a (xs ++ b :: ys) bs' (a + total xs) c ∧
      c.size = b.size ∧ c.request = some q ∧
      ∀ x, x < a ∨ a + total (xs ++ b :: ys) ≤ x → m.byte x = v.mem.byte x := by
  obtain ⟨ha, ha4, hlt, hfuel, hseg, hlist, hadj⟩ := h
  have hmem := lastFree_mem 0 a xs
  have hb := b.le_size
  obtain ⟨hfront, ⟨hsize, -⟩, hlink, -⟩ := seg_append.mp hseg
  rw [total_append, total_cons] at hlt hfuel ⊢
  obtain ⟨m, htake, hsize', hguard, hlink', hframe⟩ :=
    takeBlock_spec hsize hb (by omega) (by omega : lastFree 0 a xs = 0 ∨ _)
  let b' : Block := ⟨b.size, some q, hb, b.dvd_size, by simpa using hq⟩
  have htotal : total [b'] = total [b] := rfl
  have hfirst : firstFree (a + total xs) ([b'] ++ ys) 0 = blockNext v.mem (a + total xs) := by
    rw [hlink hfree]
    simp [firstFree, b']
  have hmid : Seg m (firstFree (a + total xs + total [b]) ys 0) (a + total xs) [b'] :=
    ⟨⟨hsize', hguard⟩, fun h => by simp [b'] at h, trivial⟩
  refine ⟨m, _, xs ++ [b'] ++ ys, b', htake, ⟨ha, ha4, ?_, ?_, ?_, ?_, ?_⟩, ⟨?_, ?_, ?_⟩,
    rfl, rfl, fun x hx => hframe x (by omega) (by omega)⟩
  · simpa [add_assoc] using hlt
  · simpa [add_assoc] using hfuel
  · refine Seg.splice [b] ha (by simpa using hseg) htotal ?_ hmid fun hne => ?_
    · intro x _ _ hx hx'
      exact hframe x (by simpa using hx) hx'
    · rw [hlink' hne, hfirst]
  · -- the list begins behind the block when nothing is free in front of it
    rw [append_assoc, firstFree_append, hfirst]
    by_cases hzero : lastFree 0 a xs = 0
    · rw [firstFree_of_lastFree_eq_zero ha hzero]
      simp only [hzero, if_true]
    · simp only [hzero, if_false]
      rw [hlist, firstFree_append]
      exact firstFree_of_lastFree_ne_zero hzero _ _
  · obtain ⟨hxs, hys, -⟩ := noAdjacent_append_cons.mp hadj
    rw [append_assoc]
    exact noAdjacent_append_cons.mpr ⟨hxs, hys, fun h => by simp [b'] at h⟩
  · rw [total_append, total_append, htotal]
    simp [add_assoc]
  · simp [freeTotal, hfree, b']
    omega
  · simp only [append_assoc, inUse_append, cons_append, nil_append, inUse,
      hfree, b', if_true, reduceCtorEq, if_false]
    exact perm_middle

/-- **`mem_chunk_get`** finds nothing, or a block that it takes from the free ones. -/
theorem memChunkGet_spec {a : ℕ} (h : HasBlocks v a bs) (hn : 12 ≤ n) (hdvd : 4 ∣ n) (hq : q + 5 ≤ n) :
    (memChunkGet v n = (v, 0) ∧ ∀ b ∈ bs, b.request = none → b.size < n) ∨
      ∃ m fl p bs' c, memChunkGet v n =
          ({ v with mem := m, heap := { v.heap with freeList := fl } }, p) ∧
        HasBlocks { v with mem := m, heap := { v.heap with freeList := fl } } a bs' ∧
        Granted a bs bs' p c ∧ n ≤ c.size ∧ c.request = some q ∧
        ∀ x, x < a ∨ a + total bs ≤ x → m.byte x = v.mem.byte x := by
  have hcur := cursor_start a bs
  rw [← h.list] at hcur
  cases hloop : chunkLoop v.mem n v.heap.size 0 v.heap.freeList with
  | none =>
    refine .inl ⟨by rw [memChunkGet, hloop], fun b hb hfree => ?_⟩
    have hpos := length_pos_of_mem hb
    have hlen := length_le_total bs
    have hfuel := h.le_size
    exact chunkLoop_eq_none h.pos h.seg hcur (by omega) hloop b hb hfree
  | some r =>
    obtain ⟨pre, this⟩ := r
    refine .inr ?_
    obtain ⟨xs, b, ys, rfl, hfree, hnb, rfl, rfl⟩ := chunkLoop_freeAt h.seg hcur hloop
    obtain ⟨-, ⟨hsize, -⟩, -, -⟩ := seg_append.mp h.seg
    have hlt := h.lt
    rw [total_append, total_cons] at hlt
    have hsub : u32sub (blockSize v.mem (a + total xs)) n = b.size - n := by
      rw [hsize]
      exact u32sub_of_le hnb (by omega)
    rw [memChunkGet, hloop]
    dsimp only
    rw [hsub]
    by_cases hcut : memHeapMinSize ≤ b.size - n
    · have hle : n + 28 ≤ b.size := by
        simp only [memHeapMinSize, memBlockMinSize, memBlockHeadSize] at hcut
        omega
      obtain ⟨m, bs', c, heq, hblocks, hgrant, hc, hreq, hframe⟩ := h.cut hfree hn hdvd hq hle
      rw [if_pos hcut, heq]
      exact ⟨m, v.heap.freeList, _, bs', c, rfl, hblocks, hgrant, hc.ge, hreq, hframe⟩
    · obtain ⟨m, fl, bs', c, heq, hblocks, hgrant, hc, hreq, hframe⟩ :=
        h.take hfree (hq.trans hnb)
      rw [if_neg hcut, heq]
      exact ⟨m, fl, _, bs', c, rfl, hblocks, hgrant, hnb.trans hc.ge, hreq, hframe⟩

/-- The block at a place in use, in memory. -/
theorem HasBlocks.blockSize_eq {a : ℕ} {b : Block}
    (h : HasBlocks v a bs) (hb : (p, b) ∈ inUse a bs) : blockSize v.mem p = b.size := by
  obtain ⟨xs, ys, rfl, rfl, -⟩ := mem_inUse.mp hb
  obtain ⟨-, ⟨hsize, -⟩, -, -⟩ := seg_append.mp h.seg
  exact hsize

/-- Its guard says that it is in use. -/
theorem HasBlocks.dog_eq {a : ℕ} {b : Block}
    (h : HasBlocks v a bs) (hb : (p, b) ∈ inUse a bs) :
    v.mem.byte (memDogAddr v.mem p) = memBlockStatUse := by
  have hsize := h.blockSize_eq hb
  have hlt := h.lt
  have hble := b.le_size
  obtain ⟨xs, ys, rfl, rfl, hused⟩ := mem_inUse.mp hb
  obtain ⟨-, ⟨-, hguard⟩, -, -⟩ := seg_append.mp h.seg
  obtain ⟨q, hq⟩ := Option.ne_none_iff_exists'.mp hused
  rw [total_append, total_cons] at hlt
  rw [memDogAddr_eq hsize (by omega) (by omega), hguard, Block.guard_of_some hq]

/-- A block in use lies inside the heap. -/
theorem HasBlocks.bounds {a : ℕ} {b : Block}
    (h : HasBlocks v a bs) (hb : (p, b) ∈ inUse a bs) : a ≤ p ∧ p + b.size ≤ a + total bs := by
  obtain ⟨xs, ys, rfl, rfl, -⟩ := mem_inUse.mp hb
  rw [total_append, total_cons]
  omega

/-- **`MEM_Allocate`** refuses, or grants a block that holds the request, or any smaller one. -/
theorem memAllocate_spec {a : ℕ} (h : IsHeap v a bs)
    (hn : n < 2 ^ 32) (hk : k ≤ if n < 4 then 4 else n) :
    memAllocate v n = (v, 0) ∨
      ∃ m fl p bs' c,
        let free := freeTotal bs - c.size
        let v' : HeapEnv :=
          { mem := m
            heap := { v.heap with
              freeList := fl, free := free, freeWatermark := min v.heap.freeWatermark free }
            freeSize := u32sub v.freeSize c.size
            freeSizeWatermark := min v.freeSizeWatermark (u32sub v.freeSize c.size) }
        memAllocate v n = (v', p + 4) ∧ IsHeap v' a bs' ∧ Granted a bs bs' p c ∧
          memNewSize (if n < 4 then 4 else n) ≤ c.size ∧ c.request = some k ∧
          ∀ x, x < a ∨ a + total bs ≤ x → m.byte x = v.mem.byte x := by
  by_cases hzero : n = 0
  · exact .inl (by rw [memAllocate, if_pos hzero])
  have h4 : 4 ≤ if n < 4 then 4 else n := by split <;> omega
  have hlt : (if n < 4 then 4 else n) < 2 ^ 32 := by split <;> omega
  rcases memNewSize_spec h4 hlt with ⟨-, hle, hdvd, -⟩ | ⟨hbig, hwrap⟩
  · rcases memChunkGet_spec h.toHasBlocks (by omega) hdvd
      (by omega : k + 5 ≤ memNewSize (if n < 4 then 4 else n)) with ⟨hget, -⟩ |
      ⟨m, fl, p, bs', c, hget, hblocks, hgrant, hnew, hreq, hframe⟩
    · refine .inl ?_
      simp only [memAllocate, if_neg hzero]
      rw [if_neg (by omega), hget]
      simp
    · refine .inr ⟨m, fl, p, bs', c, ?_, ?_, hgrant, hnew, hreq, hframe⟩
      · have hmem : (p, c) ∈ inUse a bs' := hgrant.inUse.mem_iff.mpr (mem_cons_self ..)
        have hsize := hblocks.blockSize_eq hmem
        have hbounds := hblocks.bounds hmem
        have hpos := h.pos
        have hlt' := hblocks.lt
        have hfree := hgrant.free
        have hle' := freeTotal_le_total bs
        have htot := hgrant.total
        simp only [memAllocate, if_neg hzero]
        rw [if_neg (by omega), hget]
        have hsub : u32sub v.heap.free c.size = freeTotal bs - c.size := by
          rw [h.free]
          exact u32sub_of_le (by omega) (by omega)
        rw [if_neg (by omega), hsize, countTaken]
        rw [hsub, u32_of_lt (by rw [memBlockHeadSize]; omega), memBlockHeadSize]
      · exact ⟨⟨hblocks.pos, hblocks.dvd, hblocks.lt, hblocks.le_size, hblocks.seg, hblocks.list,
          hblocks.noAdjacent⟩, by have := hgrant.free; dsimp only; omega⟩
  · refine .inl ?_
    simp only [memAllocate, if_neg hzero]
    rw [if_pos (by omega)]

/-! ### Release -/

/-- Behind the last free block all blocks are in use. -/
theorem exists_of_lastFree_ne_zero {a : ℕ} {xs : List Block} (h : lastFree 0 a xs ≠ 0) :
    ∃ us c ws, xs = us ++ c :: ws ∧ c.request = none ∧ lastFree 0 a xs = a + total us ∧
      ∀ b ∈ ws, b.request ≠ none := by
  induction xs using List.reverseRecOn with
  | nil => exact absurd rfl h
  | append_singleton xs b ih =>
    rw [lastFree_append, lastFree, lastFree] at h ⊢
    by_cases hfree : b.request = none
    · exact ⟨xs, b, [], rfl, hfree, if_pos hfree, by simp⟩
    · rw [if_neg hfree] at h ⊢
      obtain ⟨us, c, ws, rfl, hc, hlast, hws⟩ := ih h
      refine ⟨us, c, ws ++ [b], by simp, hc, hlast, fun b' hb' => ?_⟩
      rcases mem_append.mp hb' with hb' | hb'
      · exact hws b' hb'
      · rwa [mem_singleton.mp hb']

theorem total_eq_zero (h : total ws = 0) : ws = [] := by
  have := length_le_total ws
  exact length_eq_zero_iff.mp (by omega)

/-- Merging with the block behind, in memory. -/
theorem mergeNext_of_adjacent {m : Ram} (hn : blockSize m pre = n)
    (hk : blockSize m (pre + n) = k) (hle : 12 ≤ n) (hlt : pre + n + k < 2 ^ 32) :
    blockSize (mergeNext m pre (pre + n)) pre = n + k ∧
      blockNext (mergeNext m pre (pre + n)) pre = blockNext m (pre + n) ∧
      ∀ x, x < pre ∨ pre + 8 ≤ x → (mergeNext m pre (pre + n)).byte x = m.byte x := by
  have hmerge : mergeNext m pre (pre + n) =
      setBlockNext (setBlockSize m pre (n + k)) pre (blockNext m (pre + n)) := by
    have hnext : blockNext (setBlockSize m pre (n + k)) (pre + n) = blockNext m (pre + n) :=
      Ram.load_store_of_disjoint (by omega)
    rw [mergeNext, hn, hk, u32_of_lt (by omega), if_pos ⟨by omega, rfl⟩, u32_of_lt (by omega)]
    dsimp only
    rw [hnext]
  rw [hmerge]
  refine ⟨?_, Ram.load_store _ _ (Ram.load_lt _ _), fun x hx => ?_⟩
  · exact (Ram.load_store_of_disjoint (by omega)).trans (Ram.load_store _ _ (by omega))
  · exact (Ram.byte_store_of_notMem (by omega)).trans (Ram.byte_store_of_notMem (by omega))

/-- Two free neighbours become one block. -/
theorem Seg.merge_free {m : Ram} {a : ℕ} {zs ys : List Block} {d e : Block} (ha : 0 < a)
    (h : Seg m 0 a (zs ++ d :: e :: ys)) (hd : d.request = none) {f : Block}
    (hf : f.request = none) (hsize : f.size = d.size + e.size)
    (hm : Seg m' (firstFree (a + total zs + total [d, e]) ys 0) (a + total zs) [f])
    (hframe : ∀ x, x < a + total zs ∨ a + total zs + total [d, e] ≤ x → m'.byte x = m.byte x) :
    Seg m' 0 a (zs ++ f :: ys) := by
  obtain ⟨hfront, -⟩ := seg_append.mp h
  have hmem := lastFree_mem 0 a zs
  have hspl : Seg m' 0 a (zs ++ [f] ++ ys) := by
    refine Seg.splice [d, e] ha (by simpa using h) (by simp [hsize]) ?_ hm fun hne => ?_
    · exact fun x _ _ hx _ => hframe x hx
    · refine Eq.trans (Ram.load_congr fun x _ _ => hframe x (by omega)) ?_
      refine (hfront.blockNext_lastFree hne).trans ?_
      simp [firstFree, hd, hf]
  simpa using hspl

/-- **A free block is merged with the block behind it when that is free too.** -/
theorem Seg.mergeNext {m : Ram} {a : ℕ} {zs ys : List Block} {d : Block} (ha : 0 < a)
    (hlt : a + total (zs ++ d :: ys) < 2 ^ 32) (h : Seg m 0 a (zs ++ d :: ys))
    (hd : d.request = none) (hzs : NoAdjacent zs) (hys : NoAdjacent ys)
    (hlast : ∀ c ∈ zs.getLast?, c.request ≠ none)
    (hm' : Tuya.mergeNext m (a + total zs) (firstFree (a + total zs + d.size) ys 0) = m') :
    ∃ bs', Seg m' 0 a bs' ∧ total bs' = total (zs ++ d :: ys) ∧
      freeTotal bs' = freeTotal (zs ++ d :: ys) ∧ inUse a bs' = inUse a (zs ++ d :: ys) ∧
      firstFree a bs' 0 = firstFree a (zs ++ d :: ys) 0 ∧ NoAdjacent bs' ∧
      ∀ x, x < a ∨ a + total (zs ++ d :: ys) ≤ x → m'.byte x = m.byte x := by
  obtain ⟨-, ⟨hsize, hguard⟩, hlink, hback⟩ := seg_append.mp h
  by_cases hhead : ∀ e ∈ ys.head?, e.request ≠ none
  · -- the next free block, if there is one, is further away
    have hne : ¬(firstFree (a + total zs + d.size) ys 0 ≠ 0 ∧
        u32 (a + total zs + blockSize m (a + total zs)) =
          firstFree (a + total zs + d.size) ys 0) := by
      rw [total_append, total_cons] at hlt
      rw [hsize, u32_of_lt (by omega)]
      rintro ⟨hne, heq⟩
      cases ys with
      | nil => exact hne rfl
      | cons e ys =>
        rw [firstFree, if_neg (hhead e rfl)] at heq
        have hele := e.le_size
        have := firstFree_mem (a + total zs + d.size + e.size) ys 0
        omega
    rw [Tuya.mergeNext, if_neg hne] at hm'
    subst hm'
    refine ⟨_, h, rfl, rfl, rfl, rfl, ?_, fun x _ => rfl⟩
    exact noAdjacent_append_cons.mpr ⟨hzs, hys, fun _ => ⟨hlast, hhead⟩⟩
  · -- the block behind is free
    obtain ⟨e, ys, rfl, he⟩ : ∃ e ys', ys = e :: ys' ∧ e.request = none := by
      cases ys with
      | nil => simp at hhead
      | cons e ys => exact ⟨e, ys, rfl, by simpa using hhead⟩
    have hdle := d.le_size
    have hddvd := d.dvd_size
    have hedvd := e.dvd_size
    obtain ⟨⟨hesize, heguard⟩, helink, -⟩ := hback
    rw [total_append, total_cons, total_cons] at hlt
    obtain ⟨hsize', hnext', hframe⟩ := mergeNext_of_adjacent hsize hesize hdle (by omega)
    rw [firstFree, if_pos he] at hm'
    rw [hm'] at hsize' hnext' hframe
    let f : Block := .free (d.size + e.size) (by omega) (by omega)
    have hmid : Seg m' (firstFree (a + total zs + total [d, e]) ys 0) (a + total zs) [f] := by
      refine ⟨⟨hsize', ?_⟩, fun _ => ?_, trivial⟩
      · have hadd : a + total zs + f.size - 1 = a + total zs + d.size + e.size - 1 := by
          simp only [f, Block.free]
          omega
        rw [hadd, hframe _ (by omega), heguard, Block.guard_of_none he, Block.guard_of_none rfl]
      · rw [hnext', helink he]
        simp [firstFree, add_assoc]
    refine ⟨zs ++ f :: ys, ?_, ?_, ?_, ?_, ?_, ?_, fun x hx => hframe x ?_⟩
    · refine Seg.merge_free ha h hd rfl rfl hmid fun x hx => hframe x ?_
      simp only [total_cons, total_nil] at hx
      omega
    · simp [f, Block.free, add_assoc]
    · simp [freeTotal, f, Block.free, hd, he, add_assoc]
    · simp [inUse, f, Block.free, hd, he, add_assoc]
    · simp [firstFree_append, firstFree, f, Block.free, hd]
    · have hys' : NoAdjacent ([] ++ e :: ys) := hys
      obtain ⟨-, hys, hends⟩ := noAdjacent_append_cons.mp hys'
      exact noAdjacent_append_cons.mpr ⟨hzs, hys, fun _ => ⟨hlast, (hends he).2⟩⟩
    · rw [total_append, total_cons, total_cons] at hx
      omega

section Link

/-! Between the marking of a block as free and the search for its neighbours, the memory is that
of the heap except for the block itself. -/

variable {w : HeapEnv} {m : Ram} {a : ℕ} {xs ys : List Block} {b : Block}

/-- The memory when the block `b` between `xs` and `ys` has been marked and its link set. -/
structure Marked (w : HeapEnv) (m : Ram) (a : ℕ) (xs : List Block) (b : Block)
    (ys : List Block) : Prop where
  seg : Seg m 0 a (xs ++ b :: ys)
  used : b.request ≠ none
  list : w.heap.freeList = firstFree a (xs ++ b :: ys) 0
  size : blockSize w.mem (a + total xs) = b.size
  guard : w.mem.byte (a + total xs + b.size - 1) = memBlockStatFree
  next : blockNext w.mem (a + total xs) = firstFree (a + total xs + b.size) ys 0
  frame : ∀ x, x < a + total xs ∨ a + total xs + b.size ≤ x → w.mem.byte x = m.byte x

/-- The block `b` has become part of the free block `d` behind `zs`. -/
structure Linked (m m' : Ram) (fl a : ℕ) (xs : List Block) (b : Block) (ys : List Block)
    (zs : List Block) (d : Block) : Prop where
  seg : Seg m' 0 a (zs ++ d :: ys)
  isFree : d.request = none
  list : fl = firstFree a (zs ++ d :: ys) 0
  total : Tuya.total zs + d.size = Tuya.total xs + b.size
  free : freeTotal zs + d.size = freeTotal xs + b.size
  inUse : inUse a zs = inUse a xs
  noAdjacent : NoAdjacent zs
  last : ∀ c ∈ zs.getLast?, c.request ≠ none
  frame : ∀ x, x < a ∨ a + Tuya.total (xs ++ b :: ys) ≤ x → m'.byte x = m.byte x

/-- A block that follows a free one is merged into it. -/
theorem linkBlock_merge {c : Block} (ha : 0 < a)
    (hlt : a + total (xs ++ [c] ++ b :: ys) < 2 ^ 32) (h : Marked w m a (xs ++ [c]) b ys)
    (hc : c.request = none) (hadj : NoAdjacent (xs ++ [c])) :
    ∃ m' zs d, linkBlock w (lastFree 0 a (xs ++ [c])) (a + total (xs ++ [c])) =
        ({ w with mem := m' }, a + total zs) ∧
      Linked m m' w.heap.freeList a (xs ++ [c]) b ys zs d := by
  obtain ⟨hseg, hused, hlist, hsize, hguard, hnext, hframe⟩ := h
  have hcle := c.le_size
  have hcdvd := c.dvd_size
  have hbdvd := b.dvd_size
  have hlast : lastFree 0 a (xs ++ [c]) = a + total xs := by
    rw [lastFree_append, lastFree, lastFree, if_pos hc]
  have htot : a + total (xs ++ [c]) = a + total xs + c.size := by simp [add_assoc]
  rw [htot] at hsize hguard hnext hframe
  rw [total_append, total_append, total_cons, total_cons, total_nil] at hlt
  have hseg' : Seg m 0 a (xs ++ c :: b :: ys) := by simpa using hseg
  obtain ⟨-, ⟨hcsize, -⟩, hclink, -⟩ := seg_append.mp hseg'
  have hcsize' : blockSize w.mem (a + total xs) = c.size :=
    (Ram.load_congr fun x _ _ => hframe x (by omega)).trans hcsize
  let d : Block := .free (c.size + b.size) (by omega) (by omega)
  let m' := setBlockSize w.mem (a + total xs) (c.size + b.size)
  have hlink : linkBlock w (lastFree 0 a (xs ++ [c])) (a + total (xs ++ [c])) =
      ({ w with mem := m' }, a + total xs) := by
    rw [hlast, htot, linkBlock, if_neg (by omega), hcsize', u32_of_lt (by omega), if_pos rfl,
      hsize, u32_of_lt (by omega)]
  have hframe' : ∀ x, x < a + total xs ∨ a + total xs + total [c, b] ≤ x →
      m'.byte x = m.byte x := by
    intro x hx
    simp only [total_cons, total_nil] at hx
    exact (Ram.byte_store_of_notMem (by omega)).trans (hframe x (by omega))
  have hmid : Seg m' (firstFree (a + total xs + total [c, b]) ys 0) (a + total xs) [d] := by
    refine ⟨⟨Ram.load_store _ _ (by omega), ?_⟩, fun _ => ?_, trivial⟩
    · have hadd : a + total xs + d.size - 1 = a + total xs + c.size + b.size - 1 := by
        simp only [d, Block.free]
        omega
      rw [hadd, Block.guard_of_none rfl, ← hguard]
      exact Ram.byte_store_of_notMem (by omega)
    · refine (Ram.load_store_of_disjoint (by omega)).trans ?_
      refine Eq.trans (Ram.load_congr fun x _ _ => hframe x (by omega)) ?_
      refine (hclink hc).trans ?_
      simp [firstFree, hused, add_assoc]
  obtain ⟨hxs, -, hends⟩ := noAdjacent_append_cons.mp hadj
  refine ⟨m', xs, d, hlink, Seg.merge_free ha hseg' hc rfl rfl hmid hframe', rfl, ?_, ?_, ?_, ?_,
    hxs, (hends hc).1, fun x hx => hframe' x ?_⟩
  · rw [hlist]
    simp [firstFree_append, firstFree, d, Block.free, hc]
  · simp [d, Block.free, add_assoc]
  · simp [d, Block.free, freeTotal, hc, add_assoc]
  · simp [inUse, hc]
  · rw [total_append, total_append, total_cons, total_cons, total_nil] at hx
    simp only [total_cons, total_nil]
    omega

/-- Once the free block in front leads to it, the block is linked. -/
theorem Marked.linked (ha : 0 < a) (h : Marked w m a xs b ys) (hadj : NoAdjacent xs)
    (hlast : ∀ c ∈ xs.getLast?, c.request ≠ none)
    (hm' : ∀ x, (lastFree 0 a xs = 0 ∨ x < lastFree 0 a xs + 4 ∨ lastFree 0 a xs + 8 ≤ x) →
      m'.byte x = w.mem.byte x)
    (hlink : lastFree 0 a xs ≠ 0 → blockNext m' (lastFree 0 a xs) = a + total xs) :
    Linked m m' (firstFree a (xs ++ Block.free b.size b.le_size b.dvd_size :: ys) 0) a xs b ys xs
      (Block.free b.size b.le_size b.dvd_size) := by
  obtain ⟨hseg, hused, -, hsize, hguard, hnext, hframe⟩ := h
  have hmem := lastFree_mem 0 a xs
  let d := Block.free b.size b.le_size b.dvd_size
  have hmid : Seg m' (firstFree (a + total xs + total [b]) ys 0) (a + total xs) [d] := by
    refine ⟨⟨?_, ?_⟩, fun _ => ?_, trivial⟩
    · exact (Ram.load_congr fun x _ _ => hm' x (by omega)).trans hsize
    · exact (hm' _ (by simp only [d, Block.free]; omega)).trans hguard
    · refine Eq.trans (Ram.load_congr fun x _ _ => hm' x (by omega)) (hnext.trans ?_)
      simp [firstFree]
  have hspl : Seg m' 0 a (xs ++ [d] ++ ys) := by
    refine Seg.splice [b] ha (by simpa using hseg) rfl ?_ hmid fun hne => ?_
    · intro x _ _ hx hx'
      simp only [total_cons, total_nil] at hx
      exact (hm' x hx').trans (hframe x (by omega))
    · rw [hlink hne]
      simp [firstFree, d, Block.free]
  refine ⟨by simpa using hspl, rfl, rfl, rfl, rfl, rfl, hadj, hlast, fun x hx => ?_⟩
  rw [total_append, total_cons] at hx
  exact (hm' x (by omega)).trans (hframe x (by omega))

/-- A block that does not follow a free one is linked. -/
theorem linkBlock_link (ha : 0 < a) (hlt : a + total (xs ++ b :: ys) < 2 ^ 32)
    (h : Marked w m a xs b ys) (hadj : NoAdjacent xs)
    (hlast : ∀ c ∈ xs.getLast?, c.request ≠ none) :
    ∃ m' fl zs d, linkBlock w (lastFree 0 a xs) (a + total xs) =
        ({ w with mem := m', heap := { w.heap with freeList := fl } }, a + total zs) ∧
      Linked m m' fl a xs b ys zs d := by
  by_cases hzero : lastFree 0 a xs = 0
  · -- it is the first free block
    refine ⟨w.mem, _, xs, _, ?_, h.linked ha hadj hlast (fun x _ => rfl) fun hne => absurd hzero hne⟩
    rw [linkBlock, if_pos hzero, firstFree_append, firstFree_of_lastFree_eq_zero ha hzero]
    simp [firstFree, Block.free]
  · -- the free block in front ends earlier
    obtain ⟨us, c, ws, rfl, hc, hpre, -⟩ := exists_of_lastFree_ne_zero hzero
    have hws : total ws ≠ 0 := by
      intro h0
      obtain rfl := total_eq_zero h0
      exact hlast c (by simp) hc
    have hcsize : blockSize w.mem (a + total us) = c.size := by
      have hseg : Seg m 0 a (us ++ c :: (ws ++ b :: ys)) := by simpa using h.seg
      obtain ⟨-, ⟨hsize, -⟩, -, -⟩ := seg_append.mp hseg
      have hcle := c.le_size
      refine (Ram.load_congr fun x _ _ => h.frame x (.inl ?_)).trans hsize
      rw [total_append, total_cons]
      omega
    rw [total_append, total_cons, total_append, total_cons] at hlt
    refine ⟨setBlockNext w.mem (a + total us) (a + total (us ++ c :: ws)), w.heap.freeList,
      us ++ c :: ws, .free b.size b.le_size b.dvd_size, ?_, ?_⟩
    · rw [linkBlock, if_neg hzero, hpre, hcsize, u32_of_lt (by omega), if_neg]
      rw [total_append, total_cons]
      omega
    · have hfl : w.heap.freeList =
          firstFree a (us ++ c :: ws ++ Block.free b.size b.le_size b.dvd_size :: ys) 0 := by
        rw [h.list, firstFree_append a (us ++ c :: ws), firstFree_append a (us ++ c :: ws)]
        exact firstFree_of_lastFree_ne_zero hzero _ _
      rw [hfl]
      refine h.linked ha hadj hlast (fun x hx => ?_) fun _ => ?_
      · exact Ram.byte_store_of_notMem (by omega)
      · rw [hpre]
        refine Ram.load_store _ _ ?_
        rw [total_append, total_cons]
        omega

end Link

/-- **The block `b` at `p` is free again**: what happens to the blocks of a heap when it is
released. -/
structure Returned (a : ℕ) (bs bs' : List Block) (p : ℕ) (b : Block) : Prop where
  total : total bs' = total bs
  free : freeTotal bs' = freeTotal bs + b.size
  inUse : (inUse a bs).Perm ((p, b) :: inUse a bs')

/-- Marking a block of `n` bytes as free. -/
theorem markFree_eq (hn : blockSize v.mem p = n) (hle : 12 ≤ n)
    (hlt : p + n < 2 ^ 32) :
    markFree v p = { v with
      mem := v.mem.put (p + n - 1) memBlockStatFree
      heap := { v.heap with free := u32 (v.heap.free + n) }
      freeSize := u32 (v.freeSize + n) } := by
  have hdog : memDogAddr v.mem p = p + n - 1 := memDogAddr_eq hn (by omega) hlt
  have hsize : blockSize (v.mem.put (p + n - 1) memBlockStatFree) p = n :=
    (Ram.load_put_of_notMem (by omega)).trans hn
  rw [markFree, hdog]
  rw [hsize]

/-- From a payload back to its block. -/
theorem u32sub_head (hlt : p + 4 < 2 ^ 32) : u32sub (p + 4) memBlockHeadSize = p := by
  rw [memBlockHeadSize, u32sub_of_le (by omega) (by omega)]
  omega

/-- Releasing a block in use: it is marked and put in its place. -/
theorem memDeallocate_eq (hlt : p + 4 < 2 ^ 32)
    (hguard : v.mem.byte (memDogAddr v.mem p) = memBlockStatUse) :
    memDeallocate v (p + 4) = placeBlock (markFree v p) p := by
  rw [memDeallocate, if_neg (by omega)]
  dsimp only
  rw [u32sub_head hlt, hguard, if_neg fun h => h rfl]

/-- Putting a block in its place: the free blocks around it are found, it is linked, and merged
with the one behind. -/
theorem placeBlock_eq {w : HeapEnv} {next d : ℕ}
    (hloop : placeLoop v.mem p v.heap.size 0 v.heap.freeList = (pre, next))
    (hlink : linkBlock { v with mem := setBlockNext v.mem p next } pre p = (w, d)) :
    placeBlock v p = { w with mem := mergeNext w.mem d next } := by
  rw [placeBlock, hloop]
  dsimp only
  rw [hlink]

/-- The free blocks around a marked block. -/
theorem placeLoop_blocks {a : ℕ} {xs ys : List Block} {b : Block} {m : Ram}
    (h : HasBlocks { v with mem := m } a (xs ++ b :: ys)) (hused : b.request ≠ none)
    (hm : v.mem = m.put (a + total xs + b.size - 1) memBlockStatFree) :
    placeLoop v.mem (a + total xs) v.heap.size 0 v.heap.freeList =
      (lastFree 0 a xs, firstFree (a + total xs + b.size) ys 0) := by
  obtain ⟨ha, -, -, hfuel, hseg, hlist, -⟩ := h
  have hble := b.le_size
  obtain ⟨hfront, -⟩ := seg_append.mp hseg
  rw [firstFree, if_neg hused] at hfront
  have hnext := firstFree_mem (a + total xs + b.size) ys 0
  have hseg₁ : Seg v.mem (firstFree (a + total xs + b.size) ys 0) a xs := by
    rw [hm]
    exact hfront.congr fun x _ _ => Ram.byte_put_of_ne (by omega)
  have hlen := length_le_total (xs ++ b :: ys)
  rw [length_append, length_cons] at hlen
  dsimp only at hlist hfuel
  rw [hlist, firstFree_append, firstFree, if_neg hused]
  exact placeLoop_eq ha hseg₁ le_rfl (by omega) (by omega) 0

/-- A marked block is put in its place. -/
theorem placeBlock_spec {a : ℕ} {xs ys : List Block} {b : Block} {m : Ram}
    (h : HasBlocks { v with mem := m } a (xs ++ b :: ys)) (hused : b.request ≠ none)
    (hm : v.mem = m.put (a + total xs + b.size - 1) memBlockStatFree) :
    ∃ m' fl bs', placeBlock v (a + total xs) =
        { v with mem := m', heap := { v.heap with freeList := fl } } ∧
      HasBlocks { v with mem := m', heap := { v.heap with freeList := fl } } a bs' ∧
      Returned a (xs ++ b :: ys) bs' (a + total xs) b ∧
      ∀ x, x < a ∨ a + total (xs ++ b :: ys) ≤ x → m'.byte x = m.byte x := by
  have h' := h
  obtain ⟨ha, ha4, hlt, hfuel, hseg, hlist, hadj⟩ := h
  have hble := b.le_size
  have hlt' := hlt
  rw [total_append, total_cons] at hlt'
  have hnext := firstFree_mem (a + total xs + b.size) ys 0
  obtain ⟨hfront, ⟨hsize, -⟩, -, -⟩ := seg_append.mp hseg
  obtain ⟨hxs, hys, -⟩ := noAdjacent_append_cons.mp hadj
  have hloop := placeLoop_blocks h' hused hm
  let next := firstFree (a + total xs + b.size) ys 0
  let w : HeapEnv := { v with mem := setBlockNext v.mem (a + total xs) next }
  have hmarked : Marked w m a xs b ys := by
    refine ⟨hseg, hused, hlist, ?_, ?_, Ram.load_store _ _ (by omega), fun x hx => ?_⟩
    · refine (Ram.load_store_of_disjoint (by omega)).trans ?_
      rw [hm]
      exact (Ram.load_put_of_notMem (by omega)).trans hsize
    · refine (Ram.byte_store_of_notMem (by omega)).trans ?_
      rw [hm]
      exact Ram.byte_put _ _ _
    · refine (Ram.byte_store_of_notMem (by omega)).trans ?_
      rw [hm]
      exact Ram.byte_put_of_ne (by omega)
  obtain ⟨m₂, fl, zs, d, hlink, hlinked⟩ : ∃ m' fl zs d,
      linkBlock w (lastFree 0 a xs) (a + total xs) =
        ({ w with mem := m', heap := { w.heap with freeList := fl } }, a + total zs) ∧
      Linked m m' fl a xs b ys zs d := by
    by_cases hlast : ∀ c ∈ xs.getLast?, c.request ≠ none
    · exact linkBlock_link ha hlt hmarked hxs hlast
    · -- the block in front is free
      obtain ⟨us, c, rfl, hc⟩ : ∃ us c, xs = us ++ [c] ∧ c.request = none := by
        rcases eq_nil_or_concat xs with rfl | ⟨us, c, rfl⟩
        · simp at hlast
        · exact ⟨us, c, by simp, by simpa using hlast⟩
      obtain ⟨m', zs, d, hlink, hlinked⟩ := linkBlock_merge ha hlt hmarked hc hxs
      exact ⟨m', _, zs, d, hlink, hlinked⟩
  have htot := hlinked.total
  have hadd : a + total zs + d.size = a + total xs + b.size := by omega
  obtain ⟨bs', hseg', htotal', hfree', hin', hlist', hadj', hframe'⟩ :=
    Seg.mergeNext ha (by rw [total_append, total_cons]; omega) hlinked.seg hlinked.isFree
      hlinked.noAdjacent hys hlinked.last rfl
  have htotal : total bs' = total (xs ++ b :: ys) := by
    rw [htotal', total_append, total_append, total_cons, total_cons]
    omega
  rw [hadd] at hseg' hframe'
  refine ⟨_, fl, bs', placeBlock_eq hloop hlink, ⟨ha, ha4, htotal ▸ hlt, htotal ▸ hfuel, hseg', ?_,
    hadj'⟩, ⟨htotal, ?_, ?_⟩, fun x hx => ?_⟩
  · exact hlinked.list.trans hlist'.symm
  · have hf := hlinked.free
    rw [hfree', freeTotal_append, freeTotal_append, freeTotal, freeTotal, if_pos hlinked.isFree,
      if_neg hused]
    omega
  · rw [hin', inUse_append, inUse_append, hlinked.inUse, inUse, inUse, if_neg hused,
      if_pos hlinked.isFree, hadd]
    exact perm_middle
  · refine (hframe' x ?_).trans (hlinked.frame x hx)
    omega

/-- **`MEM_Deallocate`** of a block in use makes it free. -/
theorem memDeallocate_spec {a : ℕ} {b : Block}
    (h : IsHeap v a bs) (hb : (p, b) ∈ inUse a bs) :
    ∃ m fl bs',
      let v' : HeapEnv :=
        { mem := m
          heap := { v.heap with freeList := fl, free := freeTotal bs + b.size }
          freeSize := u32 (v.freeSize + b.size)
          freeSizeWatermark := v.freeSizeWatermark }
      memDeallocate v (p + 4) = v' ∧ IsHeap v' a bs' ∧ Returned a bs bs' p b ∧
        ∀ x, x < a ∨ a + total bs ≤ x → m.byte x = v.mem.byte x := by
  have hsize := h.blockSize_eq hb
  have hguard := h.dog_eq hb
  have hbounds := h.bounds hb
  have hlt := h.lt
  obtain ⟨xs, ys, rfl, rfl, hused⟩ := mem_inUse.mp hb
  have hble := b.le_size
  have hfree : u32 (v.heap.free + b.size) = freeTotal (xs ++ b :: ys) + b.size := by
    have hxs := freeTotal_le_total xs
    have hys := freeTotal_le_total ys
    rw [total_append, total_cons] at hlt
    rw [h.free]
    refine u32_of_lt ?_
    rw [freeTotal_append, freeTotal, if_neg hused]
    omega
  have hmark := markFree_eq hsize hble (by omega)
  rw [hfree] at hmark
  rw [memDeallocate_eq (by omega) hguard, hmark]
  obtain ⟨m, fl, bs', heq, hblocks, hret, hframe⟩ :=
    placeBlock_spec (m := v.mem)
      (v := { v with
        mem := v.mem.put (a + total xs + b.size - 1) memBlockStatFree
        heap := { v.heap with free := freeTotal (xs ++ b :: ys) + b.size }
        freeSize := u32 (v.freeSize + b.size) })
      ⟨h.pos, h.dvd, h.lt, h.le_size, h.seg, h.list, h.noAdjacent⟩ hused rfl
  exact ⟨m, fl, bs', heq, ⟨hblocks, hret.free.symm⟩, hret, hframe⟩

/-! ### Clients -/

/-- **A client may write into its payload**: up to the guard, nothing there belongs to the
heap. -/
theorem IsHeap.write {a : ℕ} {b : Block} (h : IsHeap v a bs)
    (hb : (p, b) ∈ inUse a bs) {m : Ram}
    (hm : ∀ x, x < p + 4 ∨ p + b.size - 1 ≤ x → m.byte x = v.mem.byte x) :
    IsHeap { v with mem := m } a bs := by
  obtain ⟨xs, ys, rfl, rfl, hused⟩ := mem_inUse.mp hb
  obtain ⟨hfront, hplaced, -, hback⟩ := seg_append.mp h.seg
  refine ⟨⟨h.pos, h.dvd, h.lt, h.le_size, ?_, h.list, h.noAdjacent⟩, h.free⟩
  refine seg_append.mpr ⟨?_, ?_, fun hfree => absurd hfree hused, ?_⟩
  · exact hfront.congr fun x _ _ => hm x (by omega)
  · exact hplaced.congr (fun x _ _ => hm x (by omega)) (hm _ (by omega))
  · exact hback.congr fun x _ _ => hm x (by omega)

/-- A client may be content with another number of bytes in the same block. -/
theorem IsHeap.resize {a : ℕ} {b : Block} (h : IsHeap v a bs)
    (hb : (p, b) ∈ inUse a bs) (hk : k + 5 ≤ b.size) :
    ∃ bs' c us, IsHeap v a bs' ∧ total bs' = total bs ∧ c.request = some k ∧
      (inUse a bs).Perm ((p, b) :: us) ∧ (inUse a bs').Perm ((p, c) :: us) := by
  obtain ⟨xs, ys, rfl, rfl, hused⟩ := mem_inUse.mp hb
  let c : Block := ⟨b.size, some k, b.le_size, b.dvd_size, by simpa using hk⟩
  have hc : c.request ≠ none := by simp [c]
  have hguard : c.guard = b.guard := by
    obtain ⟨q, hq⟩ := Option.ne_none_iff_exists'.mp hused
    rw [Block.guard_of_some hq, Block.guard_of_some rfl]
  have hfirst : firstFree (a + total xs) (c :: ys) 0 = firstFree (a + total xs) (b :: ys) 0 := by
    rw [firstFree, firstFree, if_neg hused, if_neg hc]
  obtain ⟨hfront, ⟨hsize, hdog⟩, -, hback⟩ := seg_append.mp h.seg
  obtain ⟨hxs, hys, -⟩ := noAdjacent_append_cons.mp h.noAdjacent
  have htotal : total (xs ++ c :: ys) = total (xs ++ b :: ys) := by simp [c]
  refine ⟨xs ++ c :: ys, c, inUse a xs ++ inUse (a + total xs + b.size) ys,
    ⟨⟨h.pos, h.dvd, htotal ▸ h.lt, htotal ▸ h.le_size, ?_, ?_, ?_⟩, ?_⟩, htotal, rfl, ?_, ?_⟩
  · refine seg_append.mpr ⟨hfirst ▸ hfront, ⟨hsize, ?_⟩, fun hfree => absurd hfree hc, hback⟩
    rw [hguard]
    exact hdog
  · rw [h.list, firstFree_append, firstFree_append, hfirst]
  · exact noAdjacent_append_cons.mpr ⟨hxs, hys, fun hfree => absurd hfree hc⟩
  · rw [h.free, freeTotal_append, freeTotal_append, freeTotal, freeTotal, if_neg hused, if_neg hc]
  · rw [inUse_append, inUse, if_neg hused]
    exact perm_middle
  · rw [inUse_append, inUse, if_neg hc]
    exact perm_middle

/-! ### A fresh heap -/

/-- The first aligned address of a region. -/
def regionStart (base : ℕ) : ℕ := (base + 3) / 4 * 4

/-- The bytes of a region from its first aligned address to its last. -/
def regionSize (base size : ℕ) : ℕ := (base + size - regionStart base) / 4 * 4

theorem alignUp_eq (h : base + 3 < 2 ^ 32) : alignUp base = regionStart base := by
  rw [alignUp, u32_of_lt h, alignDown, regionStart]

theorem memHeapInitSize_eq {size : ℕ} (hstart : regionStart base ≤ base + size)
    (hlt : base + size < 2 ^ 32) : memHeapInitSize base size = regionSize base size := by
  have hle : base ≤ regionStart base := by
    rw [regionStart]
    omega
  rw [memHeapInitSize, alignUp_eq (by rw [regionStart] at hstart; omega),
    u32sub_of_le hle (by omega), u32sub_of_le (by omega) (by omega), alignDown, regionSize]
  have : size - (regionStart base - base) = base + size - regionStart base := by omega
  rw [this]

/-- **A fresh heap is one free block.** -/
theorem memHeapInit_spec (v : HeapEnv) {size : ℕ} (hbase : 0 < base)
    (hlt : base + size < 2 ^ 32) (hmin : 28 ≤ regionSize base size) :
    ∃ m hle hdvd,
      let n := regionSize base size
      let v' : HeapEnv :=
        { mem := m
          heap := ⟨regionStart base, base, size, n, n⟩
          freeSize := u32 (v.freeSize + n)
          freeSizeWatermark := u32 (v.freeSize + n) }
      memHeapInit v base size = (v', true) ∧
        IsHeap v' (regionStart base) [Block.free n hle hdvd] ∧
        ∀ x, x < regionStart base ∨ regionStart base + n ≤ x → m.byte x = v.mem.byte x := by
  have hstart : regionStart base ≤ base + size := by
    rw [regionSize] at hmin
    omega
  have hpos : 0 < regionStart base := by
    rw [regionStart]
    omega
  have hsum : regionStart base + regionSize base size ≤ base + size := by
    rw [regionSize]
    omega
  have hle : base ≤ regionStart base := by
    rw [regionStart]
    omega
  have hn : memHeapInitSize base size = regionSize base size := memHeapInitSize_eq hstart hlt
  have hp : alignUp base = regionStart base :=
    alignUp_eq (by rw [regionStart] at hstart; rw [regionStart, regionSize] at *; omega)
  let n := regionSize base size
  let m₁ := setBlockSize (setBlockNext v.mem (regionStart base) 0) (regionStart base) n
  let m := m₁.put (regionStart base + n - 1) memBlockStatFree
  have hsize₁ : blockSize m₁ (regionStart base) = n := Ram.load_store _ _ (by omega)
  have hdog : memDogAddr m₁ (regionStart base) = regionStart base + n - 1 :=
    memDogAddr_eq hsize₁ (by omega) (by omega)
  refine ⟨m, by omega, dvd_mul_left _ _, ?_, ⟨⟨hpos, dvd_mul_left _ _, ?_, ?_, ?_, ?_, ?_⟩,
    ?_⟩, fun x hx => ?_⟩
  · have hnot : ¬n < memHeapMinSize := by
      simp only [memHeapMinSize, memBlockMinSize, memBlockHeadSize, n]
      omega
    rw [memHeapInit, hn, hp]
    dsimp only
    rw [if_neg hnot, hdog]
  · simp only [total_cons, total_nil, Block.free]
    omega
  · simp only [total_cons, total_nil, Block.free]
    omega
  · refine ⟨⟨?_, Ram.byte_put _ _ _⟩, fun _ => ?_, trivial⟩
    · exact (Ram.load_put_of_notMem (by omega)).trans hsize₁
    · refine (Ram.load_put_of_notMem (by omega)).trans ?_
      refine (Ram.load_store_of_disjoint (by omega)).trans ?_
      exact Ram.load_store _ _ (by omega)
  · simp [firstFree, Block.free]
  · exact .singleton _
  · simp [freeTotal, Block.free]
  · refine (Ram.byte_put_of_ne (by omega)).trans ?_
    exact (Ram.byte_store_of_notMem (by omega)).trans (Ram.byte_store_of_notMem (by omega))

end Tuya

end Gd32
