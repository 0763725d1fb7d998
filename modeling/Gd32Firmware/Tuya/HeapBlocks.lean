import Gd32Firmware.Tuya.MemHeap
import Mathlib.Data.List.Chain
import Mathlib.Data.List.Perm.Basic

/-!
# The blocks of a heap

What the memory of a heap stands for: a list of blocks, one behind the other.
`Tuya.Seg` says that a stretch of memory holds such a list, with the sizes, the guard
bytes and the links of the free blocks; what the links of the stretch lead to behind it is a
parameter, so that a stretch can be cut anywhere (`Tuya.seg_append`). A change of a heap
replaces some blocks in the middle, and the one thing in front of them that may have to change
is the link of the last free block there (`Tuya.Seg.splice`).
-/

namespace Gd32

open List

variable {b : Block} {a nx : ℕ} {bs : List Block} {m m' : Ram}

namespace Tuya

/-- **A block**: its size, and how many bytes were requested when it is in use. The header, the
requested bytes and the guard fit into it. -/
@[ext] structure Block where
  /-- `size`, in bytes. -/
  size : ℕ
  /-- The number of bytes requested; none in a free block. -/
  request : Option ℕ
  le_size : 12 ≤ size
  dvd_size : 4 ∣ size
  fits : ∀ n ∈ request, n + 5 ≤ size

/-- A free block. -/
def Block.free (n : ℕ) (hle : 12 ≤ n) (hdvd : 4 ∣ n) : Block :=
  ⟨n, none, hle, hdvd, by simp⟩

/-- The guard byte of a block. -/
def Block.guard (b : Block) : UInt8 :=
  match b.request with
  | some _ => memBlockStatUse
  | none => memBlockStatFree

theorem Block.guard_of_none (h : b.request = none) : b.guard = memBlockStatFree := by
  rw [guard, h]

theorem Block.guard_of_some {n : ℕ} (h : b.request = some n) :
    b.guard = memBlockStatUse := by
  rw [guard, h]

/-! ### What a list of blocks contains -/

/-- The bytes the blocks take. -/
def total : List Block → ℕ
  | [] => 0
  | b :: bs => b.size + total bs

/-- The bytes of the free blocks. -/
def freeTotal : List Block → ℕ
  | [] => 0
  | b :: bs => (if b.request = none then b.size else 0) + freeTotal bs

/-- The address of the first free block, of blocks from `a` on; `nx` when there is none. -/
def firstFree : ℕ → List Block → ℕ → ℕ
  | _, [], nx => nx
  | a, b :: bs, nx => if b.request = none then a else firstFree (a + b.size) bs nx

/-- The address of the last free block, of blocks from `a` on; `p` when there is none. -/
def lastFree : ℕ → ℕ → List Block → ℕ
  | p, _, [] => p
  | p, a, b :: bs => lastFree (if b.request = none then a else p) (a + b.size) bs

/-- The blocks in use with their addresses, of blocks from `a` on. -/
def inUse : ℕ → List Block → List (ℕ × Block)
  | _, [] => []
  | a, b :: bs => if b.request = none then inUse (a + b.size) bs else (a, b) :: inUse (a + b.size) bs

/-- No two neighbours are free. -/
def NoAdjacent (bs : List Block) : Prop :=
  bs.IsChain fun b c => b.request ≠ none ∨ c.request ≠ none

@[simp] theorem total_nil : total [] = 0 := rfl

@[simp] theorem total_cons (b : Block) (bs : List Block) : total (b :: bs) = b.size + total bs :=
  rfl

@[simp] theorem total_append (bs cs : List Block) : total (bs ++ cs) = total bs + total cs := by
  induction bs with
  | nil => simp
  | cons b bs ih => simp [ih, add_assoc]

@[simp] theorem freeTotal_append (bs cs : List Block) :
    freeTotal (bs ++ cs) = freeTotal bs + freeTotal cs := by
  induction bs with
  | nil => simp [freeTotal]
  | cons b bs ih => simp [freeTotal, ih, add_assoc]

theorem freeTotal_le_total (bs : List Block) : freeTotal bs ≤ total bs := by
  induction bs with
  | nil => simp [freeTotal]
  | cons b bs ih =>
    rw [freeTotal, total_cons]
    split <;> omega

theorem firstFree_append (a : ℕ) (bs cs : List Block) (nx : ℕ) :
    firstFree a (bs ++ cs) nx = firstFree a bs (firstFree (a + total bs) cs nx) := by
  induction bs generalizing a with
  | nil => simp [firstFree]
  | cons b bs ih => simp [firstFree, ih, add_assoc]

theorem lastFree_append (p a : ℕ) (bs cs : List Block) :
    lastFree p a (bs ++ cs) = lastFree (lastFree p a bs) (a + total bs) cs := by
  induction bs generalizing p a with
  | nil => simp [lastFree]
  | cons b bs ih => simp [lastFree, ih, add_assoc]

@[simp] theorem inUse_append (a : ℕ) (bs cs : List Block) :
    inUse a (bs ++ cs) = inUse a bs ++ inUse (a + total bs) cs := by
  induction bs generalizing a with
  | nil => simp [inUse]
  | cons b bs ih =>
    rw [cons_append, inUse, inUse, ih, total_cons, add_assoc]
    split <;> rfl

theorem mem_inUse {p : ℕ} :
    (p, b) ∈ inUse a bs ↔
      ∃ xs ys, bs = xs ++ b :: ys ∧ p = a + total xs ∧ b.request ≠ none := by
  constructor
  · intro h
    induction bs generalizing a with
    | nil => simp [inUse] at h
    | cons c bs ih =>
      rw [inUse] at h
      by_cases hc : c.request = none
      · rw [if_pos hc] at h
        obtain ⟨xs, ys, rfl, rfl, hb⟩ := ih h
        exact ⟨c :: xs, ys, rfl, by simp [add_assoc], hb⟩
      · rw [if_neg hc] at h
        rcases mem_cons.mp h with heq | h
        · obtain ⟨rfl, rfl⟩ := Prod.mk.inj heq
          exact ⟨[], bs, rfl, rfl, hc⟩
        · obtain ⟨xs, ys, rfl, rfl, hb⟩ := ih h
          exact ⟨c :: xs, ys, rfl, by simp [add_assoc], hb⟩
  · rintro ⟨xs, ys, rfl, rfl, hb⟩
    rw [inUse_append, inUse, if_neg hb]
    exact mem_append_right _ (mem_cons_self ..)

/-- Around a free block the neighbours are in use. -/
theorem noAdjacent_append_cons {xs ys : List Block} :
    NoAdjacent (xs ++ b :: ys) ↔ NoAdjacent xs ∧ NoAdjacent ys ∧
      (b.request = none → (∀ c ∈ xs.getLast?, c.request ≠ none) ∧
        ∀ c ∈ ys.head?, c.request ≠ none) := by
  rw [NoAdjacent, NoAdjacent, NoAdjacent, isChain_append, isChain_cons]
  simp only [List.head?_cons, Option.mem_def, Option.some.injEq]
  constructor
  · rintro ⟨hxs, ⟨hb, hys⟩, hx⟩
    refine ⟨hxs, hys, fun hfree => ⟨fun c hc => ?_, fun c hc => ?_⟩⟩
    · exact (hx c hc b rfl).resolve_right fun h => h hfree
    · exact (hb c hc).resolve_left fun h => h hfree
  · rintro ⟨hxs, hys, h⟩
    refine ⟨hxs, ⟨fun c hc => ?_, hys⟩, ?_⟩
    · by_cases hfree : b.request = none
      · exact .inr ((h hfree).2 c hc)
      · exact .inl hfree
    · rintro c hc _ rfl
      by_cases hfree : b.request = none
      · exact .inl ((h hfree).1 c hc)
      · exact .inr hfree

/-- The last free block lies among the blocks, or there is none. -/
theorem lastFree_mem (p a : ℕ) (bs : List Block) :
    lastFree p a bs = p ∨ (a ≤ lastFree p a bs ∧ lastFree p a bs + 12 ≤ a + total bs) := by
  induction bs generalizing p a with
  | nil => exact .inl rfl
  | cons b bs ih =>
    have hb := b.le_size
    rw [lastFree, total_cons]
    rcases ih (if b.request = none then a else p) (a + b.size) with h | h
    · by_cases hfree : b.request = none
      · rw [if_pos hfree] at h ⊢
        omega
      · rw [if_neg hfree] at h ⊢
        exact .inl h
    · omega

/-- The first free block lies among the blocks, or there is none. -/
theorem firstFree_mem (a : ℕ) (bs : List Block) (nx : ℕ) :
    firstFree a bs nx = nx ∨ (a ≤ firstFree a bs nx ∧ firstFree a bs nx + 12 ≤ a + total bs) := by
  induction bs generalizing a with
  | nil => exact .inl rfl
  | cons b bs ih =>
    have hb := b.le_size
    rw [firstFree, total_cons]
    by_cases hfree : b.request = none
    · rw [if_pos hfree]
      omega
    · rw [if_neg hfree]
      have := ih (a + b.size)
      omega

/-- Without a free block, what is behind comes first. -/
theorem firstFree_of_lastFree_eq_zero (ha : 0 < a)
    (h : lastFree 0 a bs = 0) (nx : ℕ) : firstFree a bs nx = nx := by
  induction bs generalizing a with
  | nil => rfl
  | cons b bs ih =>
    rw [lastFree] at h
    by_cases hfree : b.request = none
    · rw [if_pos hfree] at h
      have := lastFree_mem a (a + b.size) bs
      omega
    · rw [if_neg hfree] at h
      rw [firstFree, if_neg hfree]
      exact ih (by omega) h

/-- With a free block, what is behind does not matter. -/
theorem firstFree_of_lastFree_ne_zero (h : lastFree 0 a bs ≠ 0)
    (nx nx' : ℕ) : firstFree a bs nx = firstFree a bs nx' := by
  induction bs generalizing a with
  | nil => exact absurd rfl h
  | cons b bs ih =>
    rw [lastFree] at h
    rw [firstFree, firstFree]
    by_cases hfree : b.request = none
    · rw [if_pos hfree, if_pos hfree]
    · rw [if_neg hfree] at h
      rw [if_neg hfree, if_neg hfree]
      exact ih h

/-! ### Blocks in memory -/

/-- The header and the guard of a block at `a`. -/
def Placed (m : Ram) (a : ℕ) (b : Block) : Prop :=
  blockSize m a = b.size ∧ m.byte (a + b.size - 1) = b.guard

/-- **The memory from `a` on holds the blocks**, and the last link leads to `nx`. -/
def Seg (m : Ram) (nx : ℕ) : ℕ → List Block → Prop
  | _, [] => True
  | a, b :: bs =>
    Placed m a b ∧ (b.request = none → blockNext m a = firstFree (a + b.size) bs nx) ∧
      Seg m nx (a + b.size) bs

/-- Memory can be cut between two blocks. -/
theorem seg_append {cs : List Block} :
    Seg m nx a (bs ++ cs) ↔
      Seg m (firstFree (a + total bs) cs nx) a bs ∧ Seg m nx (a + total bs) cs := by
  induction bs generalizing a with
  | nil => simp [Seg]
  | cons b bs ih =>
    rw [cons_append, Seg, Seg, ih, firstFree_append, total_cons, add_assoc]
    tauto

/-- Only the bytes of the blocks matter. -/
theorem Seg.congr (h : Seg m nx a bs)
    (hm : ∀ x, a ≤ x → x < a + total bs → m'.byte x = m.byte x) : Seg m' nx a bs := by
  induction bs generalizing a with
  | nil => trivial
  | cons b bs ih =>
    obtain ⟨⟨hsize, hguard⟩, hnext, hrest⟩ := h
    have hb := b.le_size
    rw [total_cons] at hm
    refine ⟨⟨?_, ?_⟩, fun hfree => ?_, ih hrest fun x _ _ => hm x (by omega) (by omega)⟩
    · exact (Ram.load_congr fun x _ _ => hm x (by omega) (by omega)).trans hsize
    · rw [hm _ (by omega) (by omega), hguard]
    · exact (Ram.load_congr fun x _ _ => hm x (by omega) (by omega)).trans (hnext hfree)

/-- A block in use needs its header and its guard only. -/
theorem Placed.congr (h : Placed m a b)
    (hhead : ∀ x, a ≤ x → x < a + 4 → m'.byte x = m.byte x)
    (hguard : m'.byte (a + b.size - 1) = m.byte (a + b.size - 1)) : Placed m' a b :=
  ⟨(Ram.load_congr hhead).trans h.1, hguard.trans h.2⟩

/-- The last free block leads out of the blocks. -/
theorem Seg.blockNext_lastFree (h : Seg m nx a bs)
    (hne : lastFree 0 a bs ≠ 0) : blockNext m (lastFree 0 a bs) = nx := by
  induction bs using List.reverseRecOn with
  | nil => exact absurd rfl hne
  | append_singleton bs b ih =>
    obtain ⟨hfront, -, hnext, -⟩ := seg_append.mp h
    rw [lastFree_append, lastFree, lastFree] at hne ⊢
    rw [firstFree, firstFree] at hfront
    by_cases hfree : b.request = none
    · rw [if_pos hfree]
      exact hnext hfree
    · rw [if_neg hfree] at hne hfront ⊢
      exact ih hfront hne

/-- What the links lead to is changed in the last free block. -/
theorem Seg.relink {nx' : ℕ} (ha : 0 < a)
    (h : Seg m nx a bs)
    (hm : ∀ x, a ≤ x → x < a + total bs →
      (lastFree 0 a bs = 0 ∨ x < lastFree 0 a bs + 4 ∨ lastFree 0 a bs + 8 ≤ x) →
      m'.byte x = m.byte x)
    (hlink : lastFree 0 a bs ≠ 0 → blockNext m' (lastFree 0 a bs) = nx') :
    Seg m' nx' a bs := by
  induction bs using List.reverseRecOn with
  | nil => trivial
  | append_singleton bs b ih =>
    obtain ⟨hfront, ⟨hsize, hguard⟩, hnext, -⟩ := seg_append.mp h
    have hb := b.le_size
    rw [lastFree_append, total_append, lastFree, lastFree, total_cons, total_nil] at *
    rw [seg_append, firstFree, firstFree]
    rw [firstFree, firstFree] at hfront
    by_cases hfree : b.request = none
    · -- the link that changes is that of the last block
      rw [if_pos hfree] at hm hlink hfront ⊢
      refine ⟨hfront.congr fun x _ _ => hm x (by omega) (by omega) (by omega), ⟨?_, ?_⟩, ?_, trivial⟩
      · exact (Ram.load_congr fun x _ _ => hm x (by omega) (by omega) (by omega)).trans hsize
      · rw [hm _ (by omega) (by omega) (by omega), hguard]
      · exact fun _ => hlink (by omega)
    · rw [if_neg hfree] at hm hlink hfront ⊢
      have hmem := lastFree_mem 0 a bs
      refine ⟨ih hfront (fun x _ _ => hm x (by omega) (by omega)) hlink, ?_, ?_, trivial⟩
      · refine Placed.congr ⟨hsize, hguard⟩ (fun x _ _ => hm x (by omega) (by omega) (by omega)) ?_
        exact hm _ (by omega) (by omega) (by omega)
      · exact fun hf => absurd hf hfree

/-- **Blocks in the middle are replaced.** What changes outside of them is the link of the last
free block in front. -/
theorem Seg.splice {xs ms' ys : List Block} (ms : List Block)
    (ha : 0 < a) (h : Seg m nx a (xs ++ ms ++ ys)) (htotal : total ms' = total ms)
    (hm : ∀ x, a ≤ x → x < a + total (xs ++ ms ++ ys) →
      (x < a + total xs ∨ a + total xs + total ms ≤ x) →
      (lastFree 0 a xs = 0 ∨ x < lastFree 0 a xs + 4 ∨ lastFree 0 a xs + 8 ≤ x) →
      m'.byte x = m.byte x)
    (hmid : Seg m' (firstFree (a + total xs + total ms) ys nx) (a + total xs) ms')
    (hlink : lastFree 0 a xs ≠ 0 →
      blockNext m' (lastFree 0 a xs) = firstFree (a + total xs) (ms' ++ ys) nx) :
    Seg m' nx a (xs ++ ms' ++ ys) := by
  have hmem := lastFree_mem 0 a xs
  simp only [total_append] at hm
  rw [append_assoc] at h ⊢
  obtain ⟨hfront, hrest⟩ := seg_append.mp h
  obtain ⟨-, hback⟩ := seg_append.mp hrest
  refine seg_append.mpr ⟨hfront.relink ha (fun x _ _ hx => ?_) hlink, seg_append.mpr ⟨?_, ?_⟩⟩
  · exact hm x (by omega) (by omega) (by omega) hx
  · rw [htotal]
    exact hmid
  · rw [htotal]
    exact hback.congr fun x _ _ => hm x (by omega) (by omega) (by omega) (by omega)

end Tuya

end Gd32
