import Gd32Firmware.Tuya.HeapIntegrity
import Mathlib.Algebra.Order.BigOperators.Group.Finset

/-!
# Several heaps

Runs with up to four heaps: regions are made into heaps and given back, and memory is allocated
and released with the handle `0`, which goes through the heaps in the order of their entries.
Two things are asked of every state: that the bytes reported as available are those that the
heaps have free, and that releasing a live pointer returns its block to the heap it lies in.

Both fail after some deletions (`heaps_iff` says after which). `MEM_HeapDelete` clears
the entry and leaves the common counter alone, so what was free in the heap is reported for
ever; and the loops over the entries end at the first empty one, so a release does not reach a
heap behind it.
-/

namespace Gd32.Tuya

open List HeapState

/-! ### The statement -/

/-- A heap exists in an entry whose size is not `0`. -/
def HeapState.Exists (s : HeapState) (i : Fin memHeapListNum) : Prop :=
  0 < (s.memHeapList i).size

instance (s : HeapState) (i : Fin memHeapListNum) : Decidable (s.Exists i) :=
  inferInstanceAs (Decidable (0 < _))

/-- An address in the region of a heap. -/
def MemHeap.Contains (h : MemHeap) (x : ℕ) : Prop := h.base ≤ x ∧ x < h.base + h.size

instance (h : MemHeap) (x : ℕ) : Decidable (h.Contains x) :=
  inferInstanceAs (Decidable (_ ∧ _))

/-- The free bytes of a heap, if it exists. -/
def MemHeap.available (h : MemHeap) : ℕ := if 0 < h.size then h.free else 0

/-- The free bytes of the heaps that exist. -/
def HeapState.freeSum (s : HeapState) : ℕ := ∑ i, (s.memHeapList i).available

/-- What is followed along a run: the state, and the live pointers with the sizes requested. -/
structure HeapsRun where
  state : HeapState
  live : List (ℕ × ℕ)

/-- A call with the handle `0`, the making or deleting of a heap, or a byte written by a
client. -/
inductive HeapsCall where
  /-- `tuya_mem_heap_create`. -/
  | create (base size : ℕ)
  /-- `tuya_mem_heap_delete`. -/
  | delete (handle : Option (Fin memHeapListNum))
  /-- `tuya_mem_heap_malloc`. -/
  | malloc (size : ℕ)
  /-- `tuya_mem_heap_free`. -/
  | free (ptr : ℕ)
  | write (addr : ℕ) (b : UInt8)

/-- The region of a new heap is an object in memory and meets no other heap's; only live
pointers, and null, are released; and a byte is written into a live payload or outside of all
heaps. -/
def HeapsCall.Valid (r : HeapsRun) : HeapsCall → Prop
  | create base size => base + size < 2 ^ 32 ∧
      ∀ i, r.state.Exists i → ∀ x, base ≤ x → x < base + size → ¬(r.state.memHeapList i).Contains x
  | delete _ => True
  | malloc size => size < 2 ^ 32
  | free ptr => ptr = 0 ∨ ∃ n, (ptr, n) ∈ r.live
  | write addr _ => (∃ x ∈ r.live, x.1 ≤ addr ∧ addr < x.1 + x.2) ∨
      ∀ i, r.state.Exists i → ¬(r.state.memHeapList i).Contains addr

/-- Making a call. The pointers into a heap that is deleted are not live any more. -/
def HeapsCall.run (r : HeapsRun) : HeapsCall → HeapsRun
  | create base size => ⟨(tuyaMemHeapCreate r.state base size).1, r.live⟩
  | delete handle =>
    ⟨tuyaMemHeapDelete r.state handle, r.live.filter fun x =>
      ∀ i ∈ handle, r.state.Exists i → ¬(r.state.memHeapList i).Contains x.1⟩
  | malloc size =>
    ⟨(tuyaMemHeapMalloc r.state none size).1,
      grant r.live (tuyaMemHeapMalloc r.state none size).2 size⟩
  | free ptr => ⟨tuyaMemHeapFree r.state none ptr, revoke r.live ptr⟩
  | write addr b => ⟨{ r.state with mem := r.state.mem.put addr b }, r.live⟩

/-- The calls of a list, one after the other. -/
def HeapsRun.runs (r : HeapsRun) : List HeapsCall → HeapsRun
  | [] => r
  | c :: cs => (c.run r).runs cs

/-- Every call is valid when it is made. -/
def HeapsRun.Valid (r : HeapsRun) : List HeapsCall → Prop
  | [] => True
  | c :: cs => c.Valid r ∧ (c.run r).Valid cs

/-- **The block of `ptr` is returned to the heap `i`** when the state becomes `s'`: its bytes
count as free there, and the blocks in use are those of the other live pointers. -/
def ReturnsBlock (s s' : HeapState) (i : Fin memHeapListNum) (live : List (ℕ × ℕ)) (ptr : ℕ) :
    Prop :=
  (s'.memHeapList i).free = (s.memHeapList i).free + blockSize s.mem (ptr - 4) ∧
    ∃ bs, IsHeap (s'.env i) (regionStart (s.memHeapList i).base) bs ∧
      ((revoke live ptr).filter fun x => (s.memHeapList i).Contains x.1).Perm
        ((inUse (regionStart (s.memHeapList i).base) bs).map payload)

/-- **What is asked of every state**: what is reported as available is what is free, and the
release of a live pointer returns its block to its heap. -/
structure HeapsRun.Sound (r : HeapsRun) : Prop where
  available : tuyaMemHeapAvailable r.state none = (r.state.freeSum : ℤ)
  free : ∀ x ∈ r.live, ∀ i, r.state.Exists i → (r.state.memHeapList i).Contains x.1 →
    ReturnsBlock r.state (tuyaMemHeapFree r.state none x.1) i r.live x.1

/-- **When a call keeps this.** A heap is deleted only when nothing is free in it and no pointer
into a later heap is live; and the free bytes stay below `2 ^ 31`, the bound of the result of
`tuya_mem_heap_available`, when a heap is made (a region smaller than the gap before its first
aligned address counts with the size that `mem_heap_init` computes for it) or a block is
released. -/
def HeapsCall.Kept (r : HeapsRun) : HeapsCall → Prop
  | create base size => base ≠ 0 → size ≠ 0 → (∃ i, ¬r.state.Exists i) →
      memHeapMinSize ≤ memHeapInitSize base size →
      r.state.freeSum + memHeapInitSize base size < 2 ^ 31
  | delete handle => ∀ i ∈ handle, r.state.Exists i → (r.state.memHeapList i).free = 0 ∧
      ∀ x ∈ r.live, ∀ j, i < j → r.state.Exists j → ¬(r.state.memHeapList j).Contains x.1
  | malloc _ => True
  | free ptr => ptr ≠ 0 → r.state.freeSum + blockSize r.state.mem (ptr - 4) < 2 ^ 31
  | write _ _ => True

/-- Every call keeps it. -/
def HeapsRun.Kept (r : HeapsRun) : List HeapsCall → Prop
  | [] => True
  | c :: cs => c.Kept r ∧ (c.run r).Kept cs

/-- The beginning of a run: no heap exists. -/
def HeapsRun.start (m : Ram) : HeapsRun := ⟨⟨m, fun _ => MemHeap.zero, 0, 0⟩, []⟩

/-! ### The loops over the entries -/

/-- The entries of the list before the one that a loop comes to. -/
theorem mem_of_finRange_eq {n : ℕ} {us vs : List (Fin n)} {i : Fin n}
    (h : List.finRange n = us ++ i :: vs) {j : Fin n} (hj : j < i) : j ∈ us := by
  have hmem : j ∈ us ++ i :: vs := h ▸ mem_finRange j
  have hsorted := pairwise_lt_finRange n
  rw [h, pairwise_append, pairwise_cons] at hsorted
  rcases mem_append.mp hmem with hus | hvs
  · exact hus
  · rcases mem_cons.mp hvs with rfl | hvs
    · exact absurd hj (lt_irrefl _)
    · exact absurd (hsorted.2.1.1 j hvs) (not_lt_of_gt hj)

theorem lt_of_finRange_eq {n : ℕ} {us vs : List (Fin n)} {i : Fin n}
    (h : List.finRange n = us ++ i :: vs) {j : Fin n} (hj : j ∈ us) : j < i := by
  have hsorted := pairwise_lt_finRange n
  rw [h, pairwise_append] at hsorted
  exact hsorted.2.2 j hj i (mem_cons_self ..)

/-- A refused allocation leaves everything alone; else it is that of the first heap that
grants it, and all entries before that one are in use. -/
theorem mallocLoop_cases {s : HeapState} {size : ℕ} {is : List (Fin memHeapListNum)}
    (hrefuse : ∀ i v, s.Exists i → memAllocate (s.env i) size = (v, 0) → v = s.env i) :
    mallocLoop s size is = (s, 0) ∨ ∃ us i vs v p, is = us ++ i :: vs ∧ (∀ j ∈ us, s.Exists j) ∧
      s.Exists i ∧ memAllocate (s.env i) size = (v, p) ∧ p ≠ 0 ∧
      mallocLoop s size is = (s.set i v, p) := by
  induction is with
  | nil => exact .inl rfl
  | cons i is ih =>
    have hskip : s.Exists i → mallocLoop s size (i :: is) = mallocLoop s size is →
        mallocLoop s size (i :: is) = (s, 0) ∨ ∃ us j vs v p, i :: is = us ++ j :: vs ∧
          (∀ j ∈ us, s.Exists j) ∧ s.Exists j ∧ memAllocate (s.env j) size = (v, p) ∧ p ≠ 0 ∧
          mallocLoop s size (i :: is) = (s.set j v, p) := by
      intro hi heq
      rw [heq]
      refine ih.imp_right ?_
      rintro ⟨us, j, vs, v, p, rfl, hus, hj, halloc, hp, hloop⟩
      exact ⟨i :: us, j, vs, v, p, rfl, forall_mem_cons.mpr ⟨hi, hus⟩, hj, halloc, hp, hloop⟩
    by_cases hi : 0 < (s.memHeapList i).size
    · by_cases hfree : u32 (size + memBlockMinSize) < (s.memHeapList i).free
      · generalize halloc : memAllocate (s.env i) size = w
        obtain ⟨v, p⟩ := w
        by_cases hp : p = 0
        · subst hp
          obtain rfl := hrefuse i v hi halloc
          refine hskip hi ?_
          rw [mallocLoop, if_pos hi, if_pos hfree, halloc]
          simp
        · refine .inr ⟨[], i, is, v, p, rfl, by simp, hi, halloc, hp, ?_⟩
          rw [mallocLoop, if_pos hi, if_pos hfree, halloc]
          simp [hp]
      · refine hskip hi ?_
        rw [mallocLoop, if_pos hi, if_neg hfree]
    · refine .inl ?_
      rw [mallocLoop, if_neg hi]

theorem freeLoop_cons (s : HeapState) (ptr : ℕ) (i : Fin memHeapListNum)
    (is : List (Fin memHeapListNum)) :
    freeLoop s ptr (i :: is) =
      if s.Exists i then
        if (s.memHeapList i).base < ptr ∧
            ptr < u32 ((s.memHeapList i).base + (s.memHeapList i).size) then
          s.set i (memDeallocate (s.env i) ptr)
        else freeLoop s ptr is
      else s := rfl

/-- A release goes to the heap that contains the pointer, when the entries before it are in use
and do not. -/
theorem freeLoop_of_contains {s : HeapState} {ptr : ℕ} {us vs : List (Fin memHeapListNum)}
    {i : Fin memHeapListNum} (hi : s.Exists i)
    (hptr : (s.memHeapList i).base < ptr ∧
      ptr < u32 ((s.memHeapList i).base + (s.memHeapList i).size))
    (hus : ∀ j ∈ us, s.Exists j ∧ ¬((s.memHeapList j).base < ptr ∧
      ptr < u32 ((s.memHeapList j).base + (s.memHeapList j).size))) :
    freeLoop s ptr (us ++ i :: vs) = s.set i (memDeallocate (s.env i) ptr) := by
  induction us with
  | nil => rw [nil_append, freeLoop_cons, if_pos hi, if_pos hptr]
  | cons j us ih =>
    obtain ⟨hj, hus⟩ := forall_mem_cons.mp hus
    rw [cons_append, freeLoop_cons, if_pos hj.1, if_neg hj.2]
    exact ih hus

/-- A release ends at an empty entry. -/
theorem freeLoop_of_not_exists {s : HeapState} {ptr : ℕ} {is : List (Fin memHeapListNum)}
    {d : Fin memHeapListNum} (hd : ¬s.Exists d) {us vs : List (Fin memHeapListNum)}
    (his : is = us ++ d :: vs)
    (hus : ∀ j ∈ us, s.Exists j → ¬((s.memHeapList j).base < ptr ∧
      ptr < u32 ((s.memHeapList j).base + (s.memHeapList j).size))) :
    freeLoop s ptr is = s := by
  subst his
  induction us with
  | nil => rw [nil_append, freeLoop_cons, if_neg hd]
  | cons j us ih =>
    obtain ⟨hj, hus⟩ := forall_mem_cons.mp hus
    rw [cons_append, freeLoop_cons]
    by_cases hex : s.Exists j
    · rw [if_pos hex, if_neg (hj hex)]
      exact ih hus
    · rw [if_neg hex]

/-! ### The invariant -/

/-- The heap `i` stands for the blocks `bs`, and those in use are the live pointers into it. -/
structure HeapAt (r : HeapsRun) (i : Fin memHeapListNum) (bs : List Block) : Prop where
  isHeap : IsHeap (r.state.env i) (regionStart (r.state.memHeapList i).base) bs
  le : regionStart (r.state.memHeapList i).base + total bs ≤
    (r.state.memHeapList i).base + (r.state.memHeapList i).size
  live : (r.live.filter fun x => (r.state.memHeapList i).Contains x.1).Perm
    ((inUse (regionStart (r.state.memHeapList i).base) bs).map payload)

/-- **What holds as long as every call keeps it.** A live pointer lies in a heap, and no entry
before that one is empty. -/
structure HeapsInv (r : HeapsRun) : Prop where
  heap : ∀ i, r.state.Exists i → ∃ bs, HeapAt r i bs
  lt : ∀ i, r.state.Exists i → (r.state.memHeapList i).base + (r.state.memHeapList i).size < 2 ^ 32
  disjoint : ∀ i j, r.state.Exists i → r.state.Exists j → i ≠ j → ∀ x,
    (r.state.memHeapList i).Contains x → ¬(r.state.memHeapList j).Contains x
  live : ∀ x ∈ r.live, ∃ i, r.state.Exists i ∧ (r.state.memHeapList i).Contains x.1 ∧
    ∀ j, j < i → r.state.Exists j
  sum : r.state.freeSize = r.state.freeSum
  sum_lt : r.state.freeSum < 2 ^ 31

theorem le_regionStart (base : ℕ) : base ≤ regionStart base := by
  rw [regionStart]
  omega

/-- A heap whose memory and entry are left alone. -/
theorem HeapAt.congr {r r' : HeapsRun} {i : Fin memHeapListNum} {bs : List Block}
    (h : HeapAt r i bs) (hlist : r'.state.memHeapList i = r.state.memHeapList i)
    (hm : ∀ x, (r.state.memHeapList i).Contains x → r'.state.mem.byte x = r.state.mem.byte x)
    (hlive : (r'.live.filter fun x => (r.state.memHeapList i).Contains x.1).Perm
      (r.live.filter fun x => (r.state.memHeapList i).Contains x.1)) : HeapAt r' i bs := by
  obtain ⟨⟨⟨hpos, hdvd, hlt, hsize, hseg, hfl, hadj⟩, hfree⟩, hle, hl⟩ := h
  have hstart := le_regionStart (r.state.memHeapList i).base
  refine ⟨⟨⟨?_, ?_, ?_, ?_, ?_, ?_, hadj⟩, ?_⟩, ?_, ?_⟩ <;>
    simp only [HeapState.env, hlist]
  · exact hpos
  · exact hdvd
  · exact hlt
  · exact hsize
  · exact hseg.congr fun x hx hx' => hm x ⟨by omega, by omega⟩
  · exact hfl
  · exact hfree
  · exact hle
  · exact hlive.trans hl

/-- One entry changes: so does its share of the sum. -/
theorem freeSum_add_available {s s' : HeapState} {i : Fin memHeapListNum}
    (h : ∀ j, j ≠ i → s'.memHeapList j = s.memHeapList j) :
    s'.freeSum + (s.memHeapList i).available = s.freeSum + (s'.memHeapList i).available := by
  have hcongr : ∑ j ∈ Finset.univ.erase i, (s'.memHeapList j).available =
      ∑ j ∈ Finset.univ.erase i, (s.memHeapList j).available := by
    refine Finset.sum_congr rfl fun j hj => ?_
    rw [h j (Finset.ne_of_mem_erase hj)]
  rw [HeapState.freeSum, HeapState.freeSum,
    ← Finset.add_sum_erase _ (fun j => (s.memHeapList j).available) (Finset.mem_univ i),
    ← Finset.add_sum_erase _ (fun j => (s'.memHeapList j).available) (Finset.mem_univ i), hcongr]
  omega

theorem available_of_exists {s : HeapState} {i : Fin memHeapListNum} (h : s.Exists i) :
    (s.memHeapList i).available = (s.memHeapList i).free := if_pos h

theorem available_of_not_exists {s : HeapState} {i : Fin memHeapListNum}
    (h : ¬s.Exists i) : (s.memHeapList i).available = 0 := if_neg h

theorem toInt_of_lt {n : ℕ} (h : n < 2 ^ 31) : toInt n = n := if_pos h

theorem toInt_lt {n : ℕ} (h : n < 2 ^ 32) : toInt n < 2 ^ 31 := by
  rw [toInt]
  split <;> omega

section Invariant

variable {r : HeapsRun}

theorem HeapsInv.eq_of_contains (h : HeapsInv r) {i j : Fin memHeapListNum}
    (hi : r.state.Exists i) (hj : r.state.Exists j) {x : ℕ}
    (hxi : (r.state.memHeapList i).Contains x) (hxj : (r.state.memHeapList j).Contains x) :
    i = j := by
  by_contra hne
  exact h.disjoint i j hi hj hne x hxi hxj

/-- A live pointer is that of a block in use in its heap. -/
theorem HeapsInv.exists_block (h : HeapsInv r) {x : ℕ × ℕ} (hx : x ∈ r.live)
    {i : Fin memHeapListNum} (hi : r.state.Exists i)
    (hxi : (r.state.memHeapList i).Contains x.1) :
    ∃ bs p b, HeapAt r i bs ∧
      (p, b) ∈ inUse (regionStart (r.state.memHeapList i).base) bs ∧ x.1 = p + 4 ∧
      b.request = some x.2 ∧ ∀ j, j < i → r.state.Exists j := by
  obtain ⟨bs, hat⟩ := h.heap i hi
  obtain ⟨i', hi', hxi', hlower⟩ := h.live x hx
  obtain rfl := h.eq_of_contains hi hi' hxi hxi'
  have hmem : (x.1, x.2) ∈ r.live.filter fun x => (r.state.memHeapList i).Contains x.1 :=
    mem_filter.mpr ⟨hx, by simpa using hxi⟩
  obtain ⟨p, b, hb, hp, hreq⟩ := exists_of_mem_live hat.live hmem
  exact ⟨bs, p, b, hat, hb, hp, hreq, hlower⟩

/-- Where a block in use lies, and its payload. -/
theorem HeapAt.bounds {i : Fin memHeapListNum} {bs : List Block} (h : HeapAt r i bs) {p : ℕ}
    {b : Block} (hb : (p, b) ∈ inUse (regionStart (r.state.memHeapList i).base) bs) :
    (r.state.memHeapList i).base ≤ p ∧
      p + b.size ≤ (r.state.memHeapList i).base + (r.state.memHeapList i).size := by
  have hbounds := h.isHeap.bounds hb
  have hle := h.le
  have hstart := le_regionStart (r.state.memHeapList i).base
  omega

/-- A release of a live pointer goes to its heap. -/
theorem HeapsInv.free_eq (h : HeapsInv r) {i : Fin memHeapListNum} (hi : r.state.Exists i)
    {bs : List Block} (hat : HeapAt r i bs) {p : ℕ} {b : Block}
    (hb : (p, b) ∈ inUse (regionStart (r.state.memHeapList i).base) bs)
    (hlower : ∀ j, j < i → r.state.Exists j) :
    tuyaMemHeapFree r.state none (p + 4) =
      r.state.set i (memDeallocate (r.state.env i) (p + 4)) := by
  have hbounds := hat.bounds hb
  have hble := b.le_size
  have hlt := h.lt i hi
  have hin : (r.state.memHeapList i).Contains (p + 4) := ⟨by omega, by omega⟩
  obtain ⟨us, vs, hsplit⟩ := append_of_mem (mem_finRange i)
  rw [tuyaMemHeapFree, hsplit]
  refine freeLoop_of_contains hi ⟨by omega, by rw [u32_of_lt hlt]; omega⟩ fun j hj => ?_
  have hji := lt_of_finRange_eq hsplit hj
  have hex := hlower j hji
  refine ⟨hex, fun hc => h.disjoint i j hi hex (ne_of_gt hji) _ hin ⟨hc.1.le, ?_⟩⟩
  have hc2 := hc.2
  rwa [u32_of_lt (h.lt j hex)] at hc2

/-- Both filters drop what they drop, in any order. -/
theorem revoke_filter (live : List (ℕ × ℕ)) (ptr : ℕ) (f : ℕ × ℕ → Bool) :
    (revoke live ptr).filter f = revoke (live.filter f) ptr := by
  rw [revoke, revoke, filter_filter, filter_filter]
  simp only [Bool.and_comm]

/-- **The invariant is enough.** -/
theorem HeapsInv.sound (h : HeapsInv r) : r.Sound := by
  refine ⟨?_, fun x hx i hi hxi => ?_⟩
  · rw [tuyaMemHeapAvailable, h.sum, toInt_of_lt h.sum_lt]
  · obtain ⟨bs, p, b, hat, hb, hp, -, hlower⟩ := h.exists_block hx hi hxi
    obtain ⟨m, fl, bs', heq, hheap, hret, -⟩ := memDeallocate_spec hat.isHeap hb
    rw [hp, h.free_eq hi hat hb hlower]
    refine ⟨?_, bs', ?_, ?_⟩
    · have hsize : blockSize r.state.mem p = b.size := hat.isHeap.blockSize_eq hb
      have hfree : (r.state.memHeapList i).free = freeTotal bs := hat.isHeap.free
      rw [HeapState.memHeapList_set, heq, Nat.add_sub_cancel, hsize, hfree]
    · rw [HeapState.env_set, heq]
      exact hheap
    · rw [revoke_filter]
      exact revoke_live hat.live hret

end Invariant

/-! ### Steps -/

theorem memHeapList_set_of_ne {s : HeapState} {i j : Fin memHeapListNum} {v : HeapEnv}
    (h : j ≠ i) : (s.set i v).memHeapList j = s.memHeapList j :=
  Function.update_of_ne h _ _

theorem exists_set_of_ne {s : HeapState} {i j : Fin memHeapListNum} {v : HeapEnv}
    (h : j ≠ i) : (s.set i v).Exists j ↔ s.Exists j := by
  rw [HeapState.Exists, memHeapList_set_of_ne h]
  rfl

section Step

variable {r : HeapsRun}

/-- **One heap changes**, inside its region. -/
theorem HeapsInv.set (h : HeapsInv r) {i : Fin memHeapListNum} {v : HeapEnv}
    {live : List (ℕ × ℕ)} {bs : List Block} (hat : HeapAt ⟨r.state.set i v, live⟩ i bs)
    (hlt : v.heap.base + v.heap.size < 2 ^ 32)
    (hdisj : ∀ j, j ≠ i → r.state.Exists j → ∀ x, v.heap.Contains x →
      ¬(r.state.memHeapList j).Contains x)
    (hm : ∀ x, ¬v.heap.Contains x → v.mem.byte x = r.state.mem.byte x)
    (hother : ∀ j, j ≠ i → r.state.Exists j →
      (live.filter fun x => (r.state.memHeapList j).Contains x.1).Perm
        (r.live.filter fun x => (r.state.memHeapList j).Contains x.1))
    (hlive : ∀ x ∈ live, ∃ j, (r.state.set i v).Exists j ∧
      ((r.state.set i v).memHeapList j).Contains x.1 ∧ ∀ k, k < j → (r.state.set i v).Exists k)
    (hsum : v.freeSize = (r.state.set i v).freeSum) (hsumlt : v.freeSize < 2 ^ 31) :
    HeapsInv ⟨r.state.set i v, live⟩ := by
  refine ⟨fun j hj => ?_, fun j hj => ?_, fun j k hj hk hne x hxj hxk => ?_, hlive, hsum,
    hsum ▸ hsumlt⟩
  · by_cases hji : j = i
    · subst hji
      exact ⟨bs, hat⟩
    · have hj' := (exists_set_of_ne hji).mp hj
      obtain ⟨bs', hat'⟩ := h.heap j hj'
      refine ⟨bs', hat'.congr (memHeapList_set_of_ne hji) (fun x hx => hm x ?_)
        (hother j hji hj')⟩
      exact fun hv => hdisj j hji hj' x hv hx
  · by_cases hji : j = i
    · subst hji
      rwa [HeapState.memHeapList_set]
    · rw [memHeapList_set_of_ne hji]
      exact h.lt j ((exists_set_of_ne hji).mp hj)
  · by_cases hji : j = i
    · subst hji
      have hkj : k ≠ j := fun hc => hne hc.symm
      rw [HeapState.memHeapList_set] at hxj
      rw [memHeapList_set_of_ne hkj] at hxk
      exact hdisj k hkj ((exists_set_of_ne hkj).mp hk) x hxj hxk
    · have hj' := (exists_set_of_ne hji).mp hj
      rw [memHeapList_set_of_ne hji] at hxj
      by_cases hki : k = i
      · subst hki
        rw [HeapState.memHeapList_set] at hxk
        exact hdisj j hji hj' x hxk hxj
      · rw [memHeapList_set_of_ne hki] at hxk
        exact h.disjoint j k hj' ((exists_set_of_ne hki).mp hk) hne x hxj hxk

/-- What the entry of a heap that keeps its region contributes. -/
theorem exists_set_of_exists {i : Fin memHeapListNum} {v : HeapEnv} (hi : r.state.Exists i)
    (hsize : v.heap.size = (r.state.memHeapList i).size) {j : Fin memHeapListNum} :
    (r.state.set i v).Exists j ↔ r.state.Exists j := by
  by_cases hji : j = i
  · subst hji
    rw [HeapState.Exists, HeapState.memHeapList_set, hsize]
    rfl
  · exact exists_set_of_ne hji

/-- A heap keeps its region, and its live pointers stay in it. -/
theorem HeapsInv.update (h : HeapsInv r) {i : Fin memHeapListNum} (hi : r.state.Exists i)
    {v : HeapEnv} {live : List (ℕ × ℕ)} {bs : List Block}
    (hbase : v.heap.base = (r.state.memHeapList i).base)
    (hsize : v.heap.size = (r.state.memHeapList i).size)
    (hheap : IsHeap v (regionStart v.heap.base) bs)
    (hle : regionStart v.heap.base + total bs ≤ v.heap.base + v.heap.size)
    (hin : (live.filter fun x => (r.state.memHeapList i).Contains x.1).Perm
      ((inUse (regionStart v.heap.base) bs).map payload))
    (hm : ∀ x, x < regionStart v.heap.base ∨ regionStart v.heap.base + total bs ≤ x →
      v.mem.byte x = r.state.mem.byte x)
    (hother : ∀ j, j ≠ i → r.state.Exists j →
      (live.filter fun x => (r.state.memHeapList j).Contains x.1).Perm
        (r.live.filter fun x => (r.state.memHeapList j).Contains x.1))
    (hlive : ∀ x ∈ live, ∃ j, r.state.Exists j ∧ (r.state.memHeapList j).Contains x.1 ∧
      ∀ k, k < j → r.state.Exists k)
    (hsum : v.freeSize + (r.state.memHeapList i).free = r.state.freeSum + v.heap.free)
    (hsumlt : v.freeSize < 2 ^ 31) :
    HeapsInv ⟨r.state.set i v, live⟩ := by
  have hcont : ∀ x, v.heap.Contains x ↔ (r.state.memHeapList i).Contains x := by
    intro x
    rw [MemHeap.Contains, MemHeap.Contains, hbase, hsize]
  have hex := fun j => @exists_set_of_exists r i v hi hsize j
  have hat : HeapAt ⟨r.state.set i v, live⟩ i bs := by
    refine ⟨?_, ?_, ?_⟩
    · simpa only [HeapState.memHeapList_set, HeapState.env_set] using hheap
    · simpa only [HeapState.memHeapList_set] using hle
    · simpa only [HeapState.memHeapList_set, hcont] using hin
  refine h.set hat ?_ ?_ ?_ hother ?_ ?_ hsumlt
  · rw [hbase, hsize]
    exact h.lt i hi
  · exact fun j hj hej x hx => h.disjoint i j hi hej (Ne.symm hj) x ((hcont x).mp hx)
  · intro x hx
    refine hm x ?_
    have hstart := le_regionStart v.heap.base
    by_contra hcon
    exact hx ⟨by omega, by omega⟩
  · intro x hx
    obtain ⟨j, hj, hxj, hlower⟩ := hlive x hx
    refine ⟨j, (hex j).mpr hj, ?_, fun k hk => (hex k).mpr (hlower k hk)⟩
    by_cases hji : j = i
    · subst hji
      rw [HeapState.memHeapList_set]
      exact (hcont _).mpr hxj
    · rwa [memHeapList_set_of_ne hji]
  · have hs := @freeSum_add_available r.state (r.state.set i v) i
      fun j hj => memHeapList_set_of_ne hj
    have hpos : 0 < v.heap.size := hsize ▸ hi
    rw [available_of_exists hi, HeapState.memHeapList_set, MemHeap.available,
      if_pos hpos] at hs
    omega

/-- The present sum contains the present free bytes. -/
theorem free_le_freeSum {s : HeapState} {i : Fin memHeapListNum} (hi : s.Exists i) :
    (s.memHeapList i).free ≤ s.freeSum := by
  rw [← available_of_exists hi]
  exact Finset.single_le_sum (f := fun j => (s.memHeapList j).available)
    (fun j _ => Nat.zero_le _) (Finset.mem_univ i)

/-- `tuya_mem_heap_malloc` with the handle `0`. -/
theorem HeapsInv.run_malloc (h : HeapsInv r) {size : ℕ} (hsize : size < 2 ^ 32) :
    HeapsInv ((HeapsCall.malloc size).run r) := by
  have hrefuse : ∀ i v, r.state.Exists i → memAllocate (r.state.env i) size = (v, 0) →
      v = r.state.env i := by
    intro i v hi halloc
    obtain ⟨bs, hat⟩ := h.heap i hi
    rcases memAllocate_spec hat.isHeap hsize (le_atLeast size) with heq | ⟨m, fl, p, bs', c, heq, -⟩
    · exact (Prod.mk.inj (halloc.symm.trans heq)).1
    · have := (Prod.mk.inj (halloc.symm.trans heq)).2
      omega
  rcases @mallocLoop_cases _ _ (List.finRange memHeapListNum) hrefuse with
    heq | ⟨us, i, vs, v, p, hsplit, hus, hi, halloc, hp, heq⟩
  · have hrun : (HeapsCall.malloc size).run r = r := by
      rw [HeapsCall.run, tuyaMemHeapMalloc, heq, grant, if_pos rfl]
    rwa [hrun]
  · obtain ⟨bs, hat⟩ := h.heap i hi
    rcases memAllocate_spec hat.isHeap hsize (le_atLeast size) with heq' |
      ⟨m, fl, q, bs', c, heq', hheap, hgrant, -, hreq, hframe⟩
    · exact absurd (Prod.mk.inj (halloc.symm.trans heq')).2 hp
    obtain ⟨rfl, rfl⟩ := Prod.mk.inj (halloc.symm.trans heq')
    have hrun : (HeapsCall.malloc size).run r =
        ⟨r.state.set i (memAllocate (r.state.env i) size).1, grant r.live (q + 4) size⟩ := by
      rw [HeapsCall.run, tuyaMemHeapMalloc, heq, halloc]
    rw [hrun, heq']
    have hmem : (q, c) ∈ inUse (regionStart (r.state.memHeapList i).base) bs' :=
      hgrant.inUse.mem_iff.mpr (mem_cons_self ..)
    have hbounds := hheap.bounds hmem
    have hle := hat.le
    have hstart := le_regionStart (r.state.memHeapList i).base
    have htotal := hgrant.total
    have hcle := c.le_size
    have hin : (r.state.memHeapList i).Contains (q + 4) := ⟨by omega, by omega⟩
    have hfree := hgrant.free
    have hfree' : (r.state.memHeapList i).free = freeTotal bs := hat.isHeap.free
    have hsumle := free_le_freeSum hi
    have hsumlt := h.sum_lt
    have hcount : u32sub r.state.freeSize c.size = r.state.freeSum - c.size := by
      rw [h.sum]
      exact u32sub_of_le (by omega) (by omega)
    refine h.update hi rfl rfl hheap (by rw [htotal]; exact hle) ?_ (by rw [htotal]; exact hframe)
      ?_ ?_ ?_ ?_
    · rw [grant, if_neg (by omega), filter_cons_of_pos (by simpa using hin)]
      have hlive := grant_live hat.live hreq hgrant
      rwa [grant, if_neg (by omega)] at hlive
    · intro j hj hej
      have hnot := h.disjoint i j hi hej (Ne.symm hj) _ hin
      rw [grant, if_neg (by omega), filter_cons_of_neg (by simpa using hnot)]
    · intro x hx
      rcases mem_cons.mp hx with rfl | hx
      · exact ⟨i, hi, hin, fun k hk => hus k (mem_of_finRange_eq hsplit hk)⟩
      · exact h.live x hx
    · dsimp only [HeapState.env]
      omega
    · dsimp only [HeapState.env]
      omega

end Step

section Calls

variable {r : HeapsRun}

/-- Null is released without effect. -/
theorem freeLoop_zero (s : HeapState) (is : List (Fin memHeapListNum)) : freeLoop s 0 is = s := by
  induction is with
  | nil => rfl
  | cons i is ih =>
    rw [freeLoop_cons]
    split
    · exact ih
    · rfl

/-- No live pointer is null. -/
theorem HeapsInv.revoke_zero (h : HeapsInv r) : revoke r.live 0 = r.live := by
  refine filter_eq_self.mpr fun x hx => ?_
  obtain ⟨i, hi, hxi, -⟩ := h.live x hx
  obtain ⟨bs, p, b, -, -, hp, -⟩ := h.exists_block hx hi hxi
  simp [hp]

/-- The block of a live pointer, in its heap. -/
theorem HeapsInv.exists_of_mem (h : HeapsInv r) {ptr n : ℕ} (hptr : (ptr, n) ∈ r.live) :
    ∃ i bs p b, r.state.Exists i ∧ HeapAt r i bs ∧
      (p, b) ∈ inUse (regionStart (r.state.memHeapList i).base) bs ∧ ptr = p + 4 ∧
      blockSize r.state.mem p = b.size ∧ (∀ j, j < i → r.state.Exists j) ∧
      (r.state.memHeapList i).Contains ptr := by
  obtain ⟨i, hi, hxi, -⟩ := h.live _ hptr
  obtain ⟨bs, p, b, hat, hb, hp, -, hlower⟩ := h.exists_block hptr hi hxi
  exact ⟨i, bs, p, b, hi, hat, hb, hp, hat.isHeap.blockSize_eq hb, hlower, hxi⟩

/-- `tuya_mem_heap_free` with the handle `0`. -/
theorem HeapsInv.run_free (h : HeapsInv r) {ptr : ℕ} (hvalid : (HeapsCall.free ptr).Valid r)
    (hkept : (HeapsCall.free ptr).Kept r) : HeapsInv ((HeapsCall.free ptr).run r) := by
  rcases hvalid with rfl | ⟨n, hn⟩
  · have hrun : (HeapsCall.free 0).run r = r := by
      rw [HeapsCall.run, tuyaMemHeapFree, freeLoop_zero, h.revoke_zero]
    rwa [hrun]
  obtain ⟨i, bs, p, b, hi, hat, hb, rfl, hsize, hlower, hin⟩ := h.exists_of_mem hn
  have hlt : r.state.freeSum + b.size < 2 ^ 31 := by
    rw [← hsize, ← Nat.add_sub_cancel p 4]
    exact hkept (by omega)
  obtain ⟨m, fl, bs', heq, hheap, hret, hframe⟩ := memDeallocate_spec hat.isHeap hb
  have hfree : (r.state.memHeapList i).free = freeTotal bs := hat.isHeap.free
  have hcount : u32 (r.state.freeSize + b.size) = r.state.freeSum + b.size := by
    rw [h.sum]
    exact u32_of_lt (by omega)
  rw [HeapsCall.run, h.free_eq hi hat hb hlower, heq]
  refine h.update hi rfl rfl hheap (by rw [hret.total]; exact hat.le) ?_
    (by rw [hret.total]; exact hframe) ?_ ?_ ?_ ?_
  · rw [revoke_filter]
    exact revoke_live hat.live hret
  · intro j hj hej
    have hnot := h.disjoint i j hi hej (Ne.symm hj) _ hin
    rw [revoke_filter]
    refine List.Perm.of_eq (filter_eq_self.mpr fun x hx => ?_)
    have hxj := (mem_filter.mp hx).2
    rw [decide_eq_true_eq] at hxj ⊢
    intro hx
    rw [hx] at hxj
    exact hnot hxj
  · intro x hx
    exact h.live x (mem_of_mem_filter hx)
  · dsimp only [HeapState.env]
    omega
  · dsimp only [HeapState.env]
    rw [hcount]
    exact hlt

/-- A byte is written. -/
theorem HeapsInv.run_write (h : HeapsInv r) {addr : ℕ} {b : UInt8}
    (hvalid : (HeapsCall.write addr b).Valid r) : HeapsInv ((HeapsCall.write addr b).run r) := by
  refine ⟨fun i hi => ?_, h.lt, h.disjoint, h.live, h.sum, h.sum_lt⟩
  obtain ⟨bs, hat⟩ := h.heap i hi
  refine ⟨bs, ?_⟩
  have hout : ¬(r.state.memHeapList i).Contains addr →
      HeapAt ((HeapsCall.write addr b).run r) i bs := by
    intro hnot
    refine hat.congr rfl (fun x hx => Ram.byte_put_of_ne ?_) (List.Perm.refl _)
    rintro rfl
    exact hnot hx
  rcases hvalid with ⟨x, hx, hle, hlt⟩ | hnone
  · obtain ⟨j, hj, hxj, -⟩ := h.live x hx
    obtain ⟨bs', p, c, hat', hc, hp, hreq, -⟩ := h.exists_block hx hj hxj
    have hfits := c.fits x.2 (by simp [hreq])
    have hbounds := hat'.bounds hc
    by_cases hij : i = j
    · subst hij
      obtain ⟨p', c', hc', hp', hreq'⟩ := exists_of_mem_live hat.live
        (mem_filter.mpr ⟨hx, by simpa using hxj⟩ : (x.1, x.2) ∈ _)
      have hfits' := c'.fits x.2 (by simp [hreq'])
      have hw := hat.isHeap.write (m := r.state.mem.put addr b) hc' fun y hy =>
        Ram.byte_put_of_ne (by omega)
      exact ⟨hw, hat.le, hat.live⟩
    · exact hout fun hc' => h.disjoint j i hj hi (Ne.symm hij) addr ⟨by omega, by omega⟩ hc'
  · exact hout (hnone i hi)

end Calls

section Delete

variable {r : HeapsRun}

/-- The entries after a deletion. -/
theorem exists_delete {s : HeapState} {i j : Fin memHeapListNum} :
    (tuyaMemHeapDelete s (some i)).Exists j ↔ s.Exists j ∧ j ≠ i := by
  by_cases hji : j = i
  · subst hji
    simp [HeapState.Exists, tuyaMemHeapDelete, MemHeap.zero]
  · simp [HeapState.Exists, tuyaMemHeapDelete, hji]

theorem memHeapList_delete {s : HeapState} {i j : Fin memHeapListNum} (h : j ≠ i) :
    (tuyaMemHeapDelete s (some i)).memHeapList j = s.memHeapList j :=
  Function.update_of_ne h _ _

theorem freeSum_delete (s : HeapState) (i : Fin memHeapListNum) :
    (tuyaMemHeapDelete s (some i)).freeSum + (s.memHeapList i).available = s.freeSum := by
  have h := @freeSum_add_available s (tuyaMemHeapDelete s (some i)) i fun j hj =>
    memHeapList_delete hj
  have hzero : ((tuyaMemHeapDelete s (some i)).memHeapList i).available = 0 := by
    simp [tuyaMemHeapDelete, MemHeap.zero, MemHeap.available]
  omega

/-- `tuya_mem_heap_delete` of a heap without free bytes, behind which nothing is live. -/
theorem HeapsInv.run_delete (h : HeapsInv r) {handle : Option (Fin memHeapListNum)}
    (hkept : (HeapsCall.delete handle).Kept r) : HeapsInv ((HeapsCall.delete handle).run r) := by
  cases handle with
  | none =>
    have hrun : (HeapsCall.delete none).run r = r := by
      simp [HeapsCall.run, tuyaMemHeapDelete]
    rwa [hrun]
  | some i =>
    have hlive : ∀ j, j ≠ i → r.state.Exists j →
        (((HeapsCall.delete (some i)).run r).live.filter fun x =>
          (r.state.memHeapList j).Contains x.1) =
          r.live.filter fun x => (r.state.memHeapList j).Contains x.1 := by
      intro j hj hej
      rw [HeapsCall.run, filter_filter]
      refine filter_congr fun x _ => ?_
      by_cases hx : (r.state.memHeapList j).Contains x.1
      · have hkeep : ∀ k ∈ some i, r.state.Exists k → ¬(r.state.memHeapList k).Contains x.1 := by
          rintro k hk hek
          obtain rfl := Option.some.inj hk
          exact h.disjoint j _ hej hek hj x.1 hx
        rw [decide_eq_true hkeep, Bool.and_true]
      · rw [decide_eq_false hx, Bool.false_and]
    have hfree : (r.state.memHeapList i).available = 0 := by
      by_cases hi : r.state.Exists i
      · rw [available_of_exists hi]
        exact (hkept i rfl hi).1
      · exact available_of_not_exists hi
    have hsum := freeSum_delete r.state i
    rw [hfree, add_zero] at hsum
    refine ⟨fun j hj => ?_, fun j hj => ?_, fun j k hj hk hne x => ?_, fun x hx => ?_, ?_, ?_⟩
    · obtain ⟨hej, hji⟩ := exists_delete.mp hj
      obtain ⟨bs, hat⟩ := h.heap j hej
      exact ⟨bs, hat.congr (memHeapList_delete hji) (fun _ _ => rfl)
        (List.Perm.of_eq (hlive j hji hej))⟩
    · obtain ⟨hej, hji⟩ := exists_delete.mp hj
      rw [HeapsCall.run, memHeapList_delete hji]
      exact h.lt j hej
    · obtain ⟨hej, hji⟩ := exists_delete.mp hj
      obtain ⟨hek, hki⟩ := exists_delete.mp hk
      rw [HeapsCall.run, memHeapList_delete hji, memHeapList_delete hki]
      exact h.disjoint j k hej hek hne x
    · obtain ⟨hmem, hnot⟩ := mem_filter.mp hx
      rw [decide_eq_true_eq] at hnot
      obtain ⟨j, hej, hxj, hlower⟩ := h.live x hmem
      have hji : j ≠ i := by
        rintro rfl
        exact hnot j rfl hej hxj
      refine ⟨j, exists_delete.mpr ⟨hej, hji⟩, ?_, fun k hk => exists_delete.mpr ⟨hlower k hk, ?_⟩⟩
      · rw [HeapsCall.run, memHeapList_delete hji]
        exact hxj
      · -- no live pointer lies behind the deleted heap
        rintro rfl
        exact (hkept k rfl (hlower k hk)).2 x hmem j hk hej hxj
    · rw [HeapsCall.run, hsum]
      exact h.sum
    · rw [HeapsCall.run, hsum]
      exact h.sum_lt

/-- **A deletion that leaves free bytes or a live pointer behind.** The counter keeps the bytes,
and the loop that looks for the pointer's heap ends at the empty entry. -/
theorem HeapsInv.not_sound_delete (h : HeapsInv r) {handle : Option (Fin memHeapListNum)}
    (hkept : ¬(HeapsCall.delete handle).Kept r) : ¬((HeapsCall.delete handle).run r).Sound := by
  intro hsound
  refine hkept fun i hhandle hi => ?_
  obtain rfl : handle = some i := hhandle
  have hsum := freeSum_delete r.state i
  rw [available_of_exists hi] at hsum
  refine ⟨?_, fun x hx j hij hej hxj => ?_⟩
  · have havail := hsound.available
    have hcounter : ((HeapsCall.delete (some i)).run r).state.freeSize = r.state.freeSum := h.sum
    rw [tuyaMemHeapAvailable, hcounter, toInt_of_lt h.sum_lt] at havail
    have hrun : ((HeapsCall.delete (some i)).run r).state.freeSum =
        (tuyaMemHeapDelete r.state (some i)).freeSum := rfl
    omega
  · have hji : j ≠ i := ne_of_gt hij
    have hx' : x ∈ ((HeapsCall.delete (some i)).run r).live := by
      refine mem_filter.mpr ⟨hx, ?_⟩
      rw [decide_eq_true_eq]
      rintro k hk hek
      obtain rfl := Option.some.inj hk
      exact h.disjoint j _ hej hek hji x.1 hxj
    have hcont : (((HeapsCall.delete (some i)).run r).state.memHeapList j).Contains x.1 := by
      rw [HeapsCall.run, memHeapList_delete hji]
      exact hxj
    obtain ⟨hfree, -⟩ := hsound.free x hx' j (exists_delete.mpr ⟨hej, hji⟩) hcont
    obtain ⟨us, vs, hsplit⟩ := append_of_mem (mem_finRange i)
    have hnot : ∀ k ∈ us, (tuyaMemHeapDelete r.state (some i)).Exists k →
        ¬(((tuyaMemHeapDelete r.state (some i)).memHeapList k).base < x.1 ∧
          x.1 < u32 (((tuyaMemHeapDelete r.state (some i)).memHeapList k).base +
            ((tuyaMemHeapDelete r.state (some i)).memHeapList k).size)) := by
      intro k hk hek hc
      obtain ⟨hek, hki⟩ := exists_delete.mp hek
      rw [memHeapList_delete hki, u32_of_lt (h.lt k hek)] at hc
      have hkj : k ≠ j := ne_of_lt ((lt_of_finRange_eq hsplit hk).trans hij)
      exact h.disjoint k j hek hej hkj x.1 ⟨hc.1.le, hc.2⟩ hxj
    have hloop := freeLoop_of_not_exists (fun hc => (exists_delete.mp hc).2 rfl) hsplit hnot
    obtain ⟨bs, p, b, hat, hb, hp, -, -⟩ := h.exists_block hx hej hxj
    have hsize : blockSize r.state.mem p = b.size := hat.isHeap.blockSize_eq hb
    have hble := b.le_size
    rw [HeapsCall.run] at hfree
    dsimp only at hfree
    rw [tuyaMemHeapFree, hloop, hp, Nat.add_sub_cancel] at hfree
    have hmem : (tuyaMemHeapDelete r.state (some i)).mem = r.state.mem := rfl
    rw [hmem, hsize] at hfree
    omega

end Delete

section Free

variable {r : HeapsRun}

/-- A release that brings the free bytes to `2 ^ 31`: the result of `tuya_mem_heap_available` is
negative. -/
theorem HeapsInv.not_sound_free (h : HeapsInv r) {ptr : ℕ}
    (hvalid : (HeapsCall.free ptr).Valid r) (hkept : ¬(HeapsCall.free ptr).Kept r) :
    ¬((HeapsCall.free ptr).run r).Sound := by
  intro hsound
  refine hkept fun hne => ?_
  rcases hvalid with rfl | ⟨n, hn⟩
  · exact absurd rfl hne
  obtain ⟨i, bs, p, b, hi, hat, hb, rfl, hsize, hlower, hin⟩ := h.exists_of_mem hn
  obtain ⟨m, fl, bs', heq, hheap, hret, -⟩ := memDeallocate_spec hat.isHeap hb
  have hfree : (r.state.memHeapList i).free = freeTotal bs := hat.isHeap.free
  have hrun : ((HeapsCall.free (p + 4)).run r).state =
      r.state.set i (memDeallocate (r.state.env i) (p + 4)) := h.free_eq hi hat hb hlower
  have hsum := @freeSum_add_available r.state ((HeapsCall.free (p + 4)).run r).state i
    fun j hj => by rw [hrun]; exact memHeapList_set_of_ne hj
  have hpos : 0 < (r.state.memHeapList i).size := hi
  have havail : (((HeapsCall.free (p + 4)).run r).state.memHeapList i).available =
      freeTotal bs + b.size := by
    rw [hrun, HeapState.memHeapList_set, heq]
    exact if_pos hpos
  rw [available_of_exists hi, hfree, havail] at hsum
  have hres := hsound.available
  have hlt := @toInt_lt ((HeapsCall.free (p + 4)).run r).state.freeSize (by
    rw [hrun, heq]
    exact u32_lt _)
  rw [tuyaMemHeapAvailable] at hres
  rw [Nat.add_sub_cancel, hsize]
  omega

end Free

section Create

variable {r : HeapsRun}

theorem memHeapInit_of_lt {v : HeapEnv} {base size : ℕ}
    (h : memHeapInitSize base size < memHeapMinSize) :
    memHeapInit v base size =
      ({ v with heap := { v.heap with base := base, size := size } }, false) := by
  rw [memHeapInit]
  rw [if_pos h]

theorem memHeapInit_of_le {v : HeapEnv} {base size : ℕ}
    (h : memHeapMinSize ≤ memHeapInitSize base size) :
    ∃ m, memHeapInit v base size =
      ({ mem := m
         heap := ⟨alignUp base, base, size, memHeapInitSize base size, memHeapInitSize base size⟩
         freeSize := u32 (v.freeSize + memHeapInitSize base size)
         freeSizeWatermark := u32 (v.freeSize + memHeapInitSize base size) }, true) := by
  rw [memHeapInit]
  rw [if_neg (not_lt.mpr h)]
  exact ⟨_, rfl⟩

/-- Making a heap does nothing, clears an empty entry, or fills the first empty one. -/
theorem tuyaMemHeapCreate_cases (s : HeapState) (base size : ℕ) :
    ((tuyaMemHeapCreate s base size).1 = s ∧ (base = 0 ∨ size = 0 ∨ ∀ i, s.Exists i)) ∨
      ∃ us i vs, List.finRange memHeapListNum = us ++ i :: vs ∧ (∀ j ∈ us, s.Exists j) ∧
        ¬s.Exists i ∧ base ≠ 0 ∧ size ≠ 0 ∧
        ((memHeapInitSize base size < memHeapMinSize ∧ (tuyaMemHeapCreate s base size).1 =
            s.set i { s.env i with heap := { s.memHeapList i with base := base, size := 0 } }) ∨
          (memHeapMinSize ≤ memHeapInitSize base size ∧ (tuyaMemHeapCreate s base size).1 =
            s.set i (memHeapInit (s.env i) base size).1)) := by
  rw [tuyaMemHeapCreate]
  by_cases hnull : base = 0 ∨ size = 0
  · rw [if_pos hnull]
    exact .inl ⟨rfl, by tauto⟩
  rw [if_neg hnull]
  cases hfind : (List.finRange memHeapListNum).find? fun i => (s.memHeapList i).size = 0 with
  | none =>
    refine .inl ⟨rfl, .inr (.inr fun i => ?_)⟩
    have := List.find?_eq_none.mp hfind i (mem_finRange i)
    simpa [HeapState.Exists, pos_iff_ne_zero] using this
  | some i =>
    obtain ⟨hi, us, vs, hsplit, hus⟩ := List.find?_eq_some_iff_append.mp hfind
    refine .inr ⟨us, i, vs, hsplit, fun j hj => ?_, ?_, by tauto, by tauto, ?_⟩
    · have := hus j hj
      simpa [HeapState.Exists, pos_iff_ne_zero] using this
    · simpa [HeapState.Exists] using hi
    · dsimp only
      by_cases hmin : memHeapInitSize base size < memHeapMinSize
      · refine .inl ⟨hmin, ?_⟩
        rw [memHeapInit_of_lt hmin, if_neg (by simp)]
        rfl
      · obtain ⟨m, heq⟩ := memHeapInit_of_le (v := s.env i) (not_lt.mp hmin)
        refine .inr ⟨not_lt.mp hmin, ?_⟩
        rw [heq, if_pos rfl]

/-- A region that counts for less than `2 ^ 31` reaches its first aligned address. -/
theorem regionStart_le {base size : ℕ} (hlt : base + size < 2 ^ 32)
    (h : memHeapInitSize base size < 2 ^ 31) : regionStart base ≤ base + size := by
  simp only [memHeapInitSize, alignUp, alignDown, u32sub, u32, regionStart] at *
  omega

/-- The heaps that exist are left alone. -/
theorem HeapsInv.congr {s : HeapState} (h : HeapsInv r)
    (hlist : ∀ i, r.state.Exists i → s.memHeapList i = r.state.memHeapList i)
    (hex : ∀ i, s.Exists i ↔ r.state.Exists i) (hm : s.mem = r.state.mem)
    (hsum : s.freeSize = r.state.freeSize) : HeapsInv ⟨s, r.live⟩ := by
  have havail : ∀ i, (s.memHeapList i).available = (r.state.memHeapList i).available := by
    intro i
    by_cases hi : r.state.Exists i
    · rw [hlist i hi]
    · rw [available_of_not_exists hi,
        available_of_not_exists fun hc => hi ((hex i).mp hc)]
  have hfree : s.freeSum = r.state.freeSum := Finset.sum_congr rfl fun i _ => havail i
  refine ⟨fun i hi => ?_, fun i hi => ?_, fun i j hi hj hne x => ?_, fun x hx => ?_, ?_, ?_⟩
  · obtain ⟨bs, hat⟩ := h.heap i ((hex i).mp hi)
    exact ⟨bs, hat.congr (hlist i ((hex i).mp hi)) (fun _ _ => by rw [hm]) (List.Perm.refl _)⟩
  · rw [hlist i ((hex i).mp hi)]
    exact h.lt i ((hex i).mp hi)
  · rw [hlist i ((hex i).mp hi), hlist j ((hex j).mp hj)]
    exact h.disjoint i j ((hex i).mp hi) ((hex j).mp hj) hne x
  · obtain ⟨i, hi, hxi, hlower⟩ := h.live x hx
    refine ⟨i, (hex i).mpr hi, ?_, fun j hj => (hex j).mpr (hlower j hj)⟩
    rw [hlist i hi]
    exact hxi
  · exact hsum.trans (h.sum.trans hfree.symm)
  · rw [hfree]
    exact h.sum_lt

/-- A new heap adds its bytes to the sum. -/
theorem freeSum_create {s : HeapState} {i : Fin memHeapListNum} (hi : ¬s.Exists i) {base size : ℕ}
    (hsize : size ≠ 0) (hmin : memHeapMinSize ≤ memHeapInitSize base size) :
    (s.set i (memHeapInit (s.env i) base size).1).freeSum =
      s.freeSum + memHeapInitSize base size := by
  obtain ⟨m, heq⟩ := memHeapInit_of_le (v := s.env i) hmin
  have h := @freeSum_add_available s (s.set i (memHeapInit (s.env i) base size).1) i
    fun j hj => memHeapList_set_of_ne hj
  rw [available_of_not_exists hi, HeapState.memHeapList_set, heq, MemHeap.available,
    if_pos (pos_of_ne_zero hsize)] at h
  rw [heq]
  exact h

theorem freeSize_create {s : HeapState} {i : Fin memHeapListNum} {base size : ℕ}
    (hmin : memHeapMinSize ≤ memHeapInitSize base size) :
    (s.set i (memHeapInit (s.env i) base size).1).freeSize =
      u32 (s.freeSize + memHeapInitSize base size) := by
  obtain ⟨m, heq⟩ := memHeapInit_of_le (v := s.env i) hmin
  rw [heq]
  rfl

/-- `tuya_mem_heap_create`. -/
theorem HeapsInv.run_create (h : HeapsInv r) {base size : ℕ}
    (hvalid : (HeapsCall.create base size).Valid r) (hkept : (HeapsCall.create base size).Kept r) :
    HeapsInv ((HeapsCall.create base size).run r) := by
  obtain ⟨hlt, hdisj⟩ := hvalid
  rw [HeapsCall.run]
  rcases tuyaMemHeapCreate_cases r.state base size with
    ⟨heq, -⟩ | ⟨us, i, vs, hsplit, hus, hi, hbase, hsize, ⟨-, heq⟩ | ⟨hmin, heq⟩⟩
  · rw [heq]
    exact h
  · -- the region is too small, and the entry stays empty
    rw [heq]
    refine h.congr (fun j hj => ?_) (fun j => ?_) rfl rfl
    · refine memHeapList_set_of_ne ?_
      rintro rfl
      exact hi hj
    · by_cases hji : j = i
      · subst hji
        refine iff_of_false ?_ hi
        rw [HeapState.Exists, HeapState.memHeapList_set]
        exact lt_irrefl 0
      · exact exists_set_of_ne hji
  · have hsum := hkept hbase hsize ⟨i, hi⟩ hmin
    have hstart := regionStart_le hlt (by omega)
    have hn := memHeapInitSize_eq hstart hlt
    have hfree := freeSum_create hi hsize hmin
    rw [hn] at hmin hsum hfree
    obtain ⟨m, hle, hdvd, hinit, hheap, hframe⟩ :=
      memHeapInit_spec (r.state.env i) (pos_of_ne_zero hbase) hlt hmin
    have hend : regionStart base + regionSize base size ≤ base + size := by
      rw [regionSize]
      omega
    have hge := le_regionStart base
    have hnone : ∀ j, j ≠ i → r.state.Exists j → ∀ x, base ≤ x ∧ x < base + size →
        ¬(r.state.memHeapList j).Contains x := fun j _ hej x hx => hdisj j hej x hx.1 hx.2
    rw [hinit] at heq hfree
    rw [heq]
    refine h.set
      (show HeapAt _ i [Block.free (regionSize base size) hle hdvd] from ⟨?_, ?_, ?_⟩) hlt hnone
      (fun x hx => hframe x ?_) (fun j _ _ => List.Perm.refl _) (fun x hx => ?_) ?_ ?_
    · rw [HeapState.env_set, HeapState.memHeapList_set]
      exact hheap
    · rw [HeapState.memHeapList_set, total_cons, total_nil]
      exact hend
    · -- nothing is live in the new region
      rw [HeapState.memHeapList_set]
      refine List.Perm.of_eq (filter_eq_nil_iff.mpr fun x hx => ?_)
      rw [decide_eq_true_eq]
      intro hc
      obtain ⟨j, hej, hxj, -⟩ := h.live x hx
      exact hdisj j hej x.1 hc.1 hc.2 hxj
    · by_contra hcon
      exact hx ⟨by dsimp only; omega, by dsimp only; omega⟩
    · obtain ⟨j, hej, hxj, hlower⟩ := h.live x hx
      have hji : j ≠ i := by
        rintro rfl
        exact hi hej
      refine ⟨j, (exists_set_of_ne hji).mpr hej, ?_, fun k hk => ?_⟩
      · rwa [memHeapList_set_of_ne hji]
      · refine (exists_set_of_ne ?_).mpr (hlower k hk)
        rintro rfl
        exact hi (hlower k hk)
    · dsimp only [HeapState.env]
      rw [h.sum, u32_of_lt (by omega)]
      exact hfree.symm
    · dsimp only [HeapState.env]
      rw [h.sum, u32_of_lt (by omega)]
      exact hsum

/-- **A heap that brings the free bytes to `2 ^ 31`**: the result of `tuya_mem_heap_available` is
negative. -/
theorem HeapsInv.not_sound_create {base size : ℕ}
    (hkept : ¬(HeapsCall.create base size).Kept r) :
    ¬((HeapsCall.create base size).run r).Sound := by
  intro hsound
  refine hkept fun hbase hsize hempty hmin => ?_
  have havail := hsound.available
  rw [HeapsCall.run, tuyaMemHeapAvailable] at havail
  rcases tuyaMemHeapCreate_cases r.state base size with
    ⟨-, hcase⟩ | ⟨us, i, vs, -, -, hi, -, -, ⟨hlt, -⟩ | ⟨-, heq⟩⟩
  · obtain ⟨i, hi⟩ := hempty
    rcases hcase with hzero | hzero | hall
    · exact absurd hzero hbase
    · exact absurd hzero hsize
    · exact absurd (hall i) hi
  · exact absurd hmin (not_le.mpr hlt)
  · rw [heq, freeSum_create hi hsize hmin, freeSize_create hmin] at havail
    have hlt := toInt_lt (u32_lt (r.state.freeSize + memHeapInitSize base size))
    omega

end Create

/-! ### Runs -/

theorem heapsInv_start (m : Ram) : HeapsInv (HeapsRun.start m) := by
  have hnone : ∀ i, ¬(HeapsRun.start m).state.Exists i := fun i => lt_irrefl 0
  have hsum : (HeapsRun.start m).state.freeSum = 0 :=
    Finset.sum_eq_zero fun i _ => available_of_not_exists (hnone i)
  refine ⟨fun i hi => absurd hi (hnone i), fun i hi => absurd hi (hnone i),
    fun i _ hi => absurd hi (hnone i), by simp [HeapsRun.start], hsum.symm, ?_⟩
  rw [hsum]
  decide

/-- A call keeps the invariant, or what is asked of the state does not hold behind it. -/
theorem HeapsInv.run {r : HeapsRun} (h : HeapsInv r) {c : HeapsCall} (hvalid : c.Valid r)
    (hkept : c.Kept r) : HeapsInv (c.run r) := by
  cases c with
  | create base size => exact h.run_create hvalid hkept
  | delete handle => exact h.run_delete hkept
  | malloc size => exact h.run_malloc hvalid
  | free ptr => exact h.run_free hvalid hkept
  | write addr b => exact h.run_write hvalid

theorem HeapsInv.not_sound {r : HeapsRun} (h : HeapsInv r) {c : HeapsCall} (hvalid : c.Valid r)
    (hkept : ¬c.Kept r) : ¬(c.run r).Sound := by
  cases c with
  | create base size => exact HeapsInv.not_sound_create hkept
  | delete handle => exact h.not_sound_delete hkept
  | free ptr => exact h.not_sound_free hvalid hkept
  | malloc | write => exact absurd trivial hkept

/-- What is asked holds in every state of a run exactly when every call keeps it. -/
theorem HeapsInv.sound_iff {r : HeapsRun} (h : HeapsInv r) {cs : List HeapsCall}
    (hvalid : r.Valid cs) : (∀ pre, pre <+: cs → (r.runs pre).Sound) ↔ r.Kept cs := by
  induction cs generalizing r with
  | nil =>
    refine iff_of_true (fun pre hpre => ?_) trivial
    obtain rfl := prefix_nil.mp hpre
    exact h.sound
  | cons c cs ih =>
    constructor
    · intro hall
      have hkept : c.Kept r := by
        by_contra hnot
        exact h.not_sound hvalid.1 hnot
          (hall [c] (cons_prefix_cons.mpr ⟨rfl, nil_prefix⟩))
      refine ⟨hkept, (ih (h.run hvalid.1 hkept) hvalid.2).mp fun pre hpre => ?_⟩
      exact hall (c :: pre) (cons_prefix_cons.mpr ⟨rfl, hpre⟩)
    · rintro ⟨hkept, hrest⟩ pre hpre
      cases pre with
      | nil => exact h.sound
      | cons c' pre =>
        obtain ⟨rfl, htail⟩ := cons_prefix_cons.mp hpre
        exact (ih (h.run hvalid.1 hkept) hvalid.2).mpr hrest pre htail

/-- **The heaps are reported and released as they should be exactly in the runs in which every
heap that is deleted has nothing free and nothing live behind it**, and the free bytes stay in
the range of an `int`. -/
theorem heaps_iff {m : Ram} {cs : List HeapsCall} (hvalid : (HeapsRun.start m).Valid cs) :
    (∀ pre, pre <+: cs → ((HeapsRun.start m).runs pre).Sound) ↔ (HeapsRun.start m).Kept cs :=
  (heapsInv_start m).sound_iff hvalid

theorem memHeapListNum_pos : 0 < memHeapListNum := by decide

/-- Two heaps are made, a block is allocated in each, and the first heap is deleted. -/
def deleteFirst : List HeapsCall :=
  [.create 0x1000 64, .create 0x2000 64, .malloc 20, .malloc 20,
    .delete (some ⟨0, memHeapListNum_pos⟩)]

theorem deleteFirst_valid : (HeapsRun.start fun _ => 0).Valid deleteFirst := by
  refine ⟨⟨by decide, by decide +kernel⟩, ⟨by decide, fun i hi x hx _ => ?_⟩, ?_, ?_, trivial,
    trivial⟩
  · have hend : ∀ i, ((HeapsCall.create 0x1000 64).run (HeapsRun.start fun _ => 0)).state.Exists i →
        ((((HeapsCall.create 0x1000 64).run (HeapsRun.start fun _ => 0)).state.memHeapList i).base +
          (((HeapsCall.create 0x1000 64).run
            (HeapsRun.start fun _ => 0)).state.memHeapList i).size ≤ 0x2000) := by
      decide +kernel
    exact fun hc => absurd (hc.2.trans_le (hend i hi)) (not_lt.mpr hx)
  · exact (by decide : 20 < 2 ^ 32)
  · exact (by decide : 20 < 2 ^ 32)

theorem heaps_deleteFirst :
    (∀ pre, pre <+: deleteFirst → ((HeapsRun.start fun _ => 0).runs pre).Sound) ↔
      (HeapsRun.start fun _ => 0).Kept deleteFirst :=
  heaps_iff deleteFirst_valid

/-- After that, the bytes of the first heap are reported although it does not exist, and the
release of the block in the second one has no effect. -/
theorem heaps_not_sound :
    (HeapsRun.start fun _ => 0).Valid deleteFirst ∧
      (0x2028, 20) ∈ ((HeapsRun.start fun _ => 0).runs deleteFirst).live ∧
      (tuyaMemHeapFree ((HeapsRun.start fun _ => 0).runs deleteFirst).state none
          0x2028).memHeapList 1 =
        ((HeapsRun.start fun _ => 0).runs deleteFirst).state.memHeapList 1 ∧
      ¬∀ pre, pre <+: deleteFirst → ((HeapsRun.start fun _ => 0).runs pre).Sound := by
  refine ⟨deleteFirst_valid, by decide +kernel, by decide +kernel, fun hall => ?_⟩
  have havail := (hall deleteFirst (prefix_refl _)).available
  exact absurd havail (by decide +kernel)

end Gd32.Tuya
