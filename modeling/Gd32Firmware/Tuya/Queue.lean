import Gd32Firmware.Config
import Gd32Firmware.Lib.DList

/-!
# The bounded queue

`tuya_queue.c` over `tuya_list.c`: items are copied into blocks of their own, the blocks hang in
a circular doubly linked list whose head is a field of the queue, and `queue_free` counts the
places left, apart from the list. The list and the count are changed by different statements of
each operation; `Queue.Holds` is what they agree on, and under it every operation is
the operation of a bounded sequence (`dequeStep`).

The allocator never fails here; it is `Allocator`, and the blocks it has given out
are recorded. The mutex is left out, as is the null handle, which every function refuses.
-/

namespace Gd32.Tuya

open DList List Function Option

variable {ps : List Cell} {x : List UInt8}

/-! ### `tuya_list.c` -/

/-- An address that is not null. -/
abbrev Cell := ℕ

def listAdd (l : Links Cell) (pNew pPrev pNext : Cell) : Links Cell := l.insert pNew pPrev pNext

def listDel (l : Links Cell) (pPrev pNext : Cell) : Links Cell := l.bypass pPrev pNext

def tuyaListAdd (l : Links Cell) (pNew pHead : Cell) : Links Cell :=
  listAdd l pNew pHead (l.next pHead)

def tuyaListAddTail (l : Links Cell) (pNew pHead : Cell) : Links Cell :=
  listAdd l pNew (l.prev pHead) pHead

def tuyaListDel (l : Links Cell) (pEntry : Cell) : Links Cell :=
  listDel l (l.prev pEntry) (l.next pEntry)

/-! ### `tuya_queue.c` -/

/-- `tkl_system_malloc` while it does not fail: given the blocks in use, an address outside
them. -/
structure Allocator where
  malloc : List Cell → Cell
  fresh : ∀ live, malloc live ∉ live

/-- `TUYA_QUEUE_T`, with the memory it works on. -/
structure Queue where
  itemSize : ℕ
  queueLen : ℕ
  queueFree : ℕ
  /-- The address of `head`. -/
  head : Cell
  links : Links Cell
  data : Cell → List UInt8
  live : List Cell

/-- `ENQUEUE_POLICY_E`. -/
inductive EnqueuePolicy where
  | sendToBack
  | sendToFront
  | max
  deriving DecidableEq

/-- What a call returns, and the items it has copied to the caller's buffer. -/
structure QueueOut where
  ret : Except OprtErr Unit
  copied : List (List UInt8)

/-- `tuya_queue_create`, the head being at `head` in a memory with the links `links` and the
data `data`. -/
def tuyaQueueCreate (head : Cell) (links : Links Cell) (data : Cell → List UInt8)
    (queueLen itemSize : ℕ) : Except OprtErr Queue :=
  if queueLen = 0 ∨ itemSize = 0 then .error .invalidParm
  else .ok
    { itemSize := itemSize
      queueLen := queueLen
      queueFree := queueLen
      head := head
      links := links.alone head
      data := data
      live := [] }

/-- The block for an item, filled. -/
def Queue.newItem (alloc : Allocator) (q : Queue) (item : List UInt8) : Cell × Queue :=
  let x := alloc.malloc (q.head :: q.live)
  (x, { q with
    live := x :: q.live
    links := q.links.alone x
    data := update q.data x (item.take q.itemSize) })

/-- `__enqueue`; `none` is a null item. -/
def enqueue (alloc : Allocator) (item : Option (List UInt8)) (policy : EnqueuePolicy) (q : Queue) :
    QueueOut × Queue :=
  match item, policy with
  | none, _ => (⟨.error .invalidParm, []⟩, q)
  | _, .max => (⟨.error .invalidParm, []⟩, q)
  | some item, policy =>
    let x := (q.newItem alloc item).1
    let q := (q.newItem alloc item).2
    if 0 < q.queueFree then
      let links := if policy = .sendToBack then tuyaListAddTail q.links x q.head
        else tuyaListAdd q.links x q.head
      (⟨.ok (), []⟩, { q with links := links, queueFree := q.queueFree - 1 })
    else (⟨.error .exceedUpperLimit, []⟩, { q with live := q.live.erase x })

def tuyaQueueInput (alloc : Allocator) (item : Option (List UInt8)) (q : Queue) :
    QueueOut × Queue := enqueue alloc item .sendToBack q

def tuyaQueueInputInstant (alloc : Allocator) (item : Option (List UInt8)) (q : Queue) :
    QueueOut × Queue := enqueue alloc item .sendToFront q

/-- `tuya_queue_output`; `item` says whether there is a buffer. -/
def tuyaQueueOutput (item : Bool) (q : Queue) : QueueOut × Queue :=
  if q.queueFree < q.queueLen then
    let x := q.links.next q.head
    (⟨.ok (), if item then [q.data x] else []⟩,
      { q with
        links := tuyaListDel q.links x
        live := q.live.erase x
        queueFree := q.queueFree + 1 })
  else (⟨.error .notFound, []⟩, q)

def tuyaQueuePeek (item : Bool) (q : Queue) : QueueOut :=
  if item = false then ⟨.error .invalidParm, []⟩
  else if q.queueFree < q.queueLen then ⟨.ok (), [q.data (q.links.next q.head)]⟩
  else ⟨.error .notFound, []⟩

/-- The loop of `tuya_queue_clear`, at most so many rounds. -/
def clearLoop : ℕ → Cell → Queue → Option Queue
  | 0, _, _ => none
  | k + 1, p, q =>
    let n := q.links.next p
    if p = q.head then some q
    else clearLoop k n { q with links := tuyaListDel q.links p, live := q.live.erase p }

/-- `tuya_queue_clear`. A loop that visits more cells than there are never ends. -/
def tuyaQueueClear (q : Queue) : Option (QueueOut × Queue) :=
  (clearLoop (q.live.length + 1) (q.links.next q.head) q).map fun q =>
    (⟨.ok (), []⟩, { q with queueFree := q.queueLen })

/-- The loop of `tuya_queue_get_batch`: `index`, `count` and the items copied. -/
def getBatchLoop (q : Queue) (start num : ℕ) :
    ℕ → Cell → ℕ → ℕ → Option (ℕ × ℕ × List (List UInt8))
  | 0, _, _, _ => none
  | k + 1, p, index, count =>
    if p = q.head then some (index, count, [])
    else if index < start then getBatchLoop q start num k (q.links.next p) (index + 1) count
    else if num ≤ count then some (index, count, [])
    else
      (getBatchLoop q start num k (q.links.next p) index (count + 1)).map fun r =>
        (r.1, r.2.1, q.data p :: r.2.2)

def tuyaQueueGetBatch (start : ℕ) (items : Bool) (num : ℕ) (q : Queue) : Option QueueOut :=
  if items = false ∨ num = 0 then some ⟨.error .invalidParm, []⟩
  else
    (getBatchLoop q start num (q.live.length + 1) (q.links.next q.head) 0 0).map fun r =>
      ⟨if r.1 ≠ start ∨ r.2.1 ≠ num then .error .notFound else .ok (), r.2.2⟩

/-- The loop of `tuya_queue_delete_batch`. -/
def deleteLoop : ℕ → Queue → QueueOut × Queue
  | 0, q => (⟨.ok (), []⟩, q)
  | count + 1, q =>
    match tuyaQueueOutput false q with
    | (⟨.ok (), _⟩, q) => deleteLoop count q
    | (⟨.error e, _⟩, q) => (⟨.error e, []⟩, q)

def tuyaQueueDeleteBatch (num : ℕ) (q : Queue) : QueueOut × Queue :=
  if num = 0 then (⟨.error .invalidParm, []⟩, q) else deleteLoop num q

/-! ### Runs, and what they are for -/

/-- A call on a queue. -/
inductive QueueCall where
  /-- `tuya_queue_input`. -/
  | input (item : Option (List UInt8))
  /-- `tuya_queue_input_instant`. -/
  | inputInstant (item : Option (List UInt8))
  /-- `tuya_queue_output`. -/
  | output (item : Bool)
  /-- `tuya_queue_peek`. -/
  | peek (item : Bool)
  /-- `tuya_queue_get_batch`. -/
  | getBatch (start : ℕ) (items : Bool) (num : ℕ)
  /-- `tuya_queue_delete_batch`. -/
  | deleteBatch (num : ℕ)
  /-- `tuya_queue_clear`. -/
  | clear

/-- Making a call; `none` is a call that never returns. -/
def QueueCall.run (alloc : Allocator) (c : QueueCall) (q : Queue) : Option (QueueOut × Queue) :=
  match c with
  | .input item => some (tuyaQueueInput alloc item q)
  | .inputInstant item => some (tuyaQueueInputInstant alloc item q)
  | .output item => some (tuyaQueueOutput item q)
  | .peek item => some (tuyaQueuePeek item q, q)
  | .getBatch start items num => (tuyaQueueGetBatch start items num q).map fun out => (out, q)
  | .deleteBatch num => some (tuyaQueueDeleteBatch num q)
  | .clear => tuyaQueueClear q

/-- Calls one after the other, with what each of them returns. -/
def Queue.runs (alloc : Allocator) : List QueueCall → Queue → Option (List QueueOut × Queue)
  | [], q => some ([], q)
  | c :: cs, q => do
    let r ← c.run alloc q
    let rs ← Queue.runs alloc cs r.2
    pure (r.1 :: rs.1, rs.2)

/-- **The sequence a queue stands for**: one call on a sequence of at most `len` items of `size`
bytes each. -/
def dequeStep (len size : ℕ) (c : QueueCall) (xs : List (List UInt8)) :
    QueueOut × List (List UInt8) :=
  match c with
  | .input none => (⟨.error .invalidParm, []⟩, xs)
  | .input (some item) =>
    if xs.length < len then (⟨.ok (), []⟩, xs ++ [item.take size])
    else (⟨.error .exceedUpperLimit, []⟩, xs)
  | .inputInstant none => (⟨.error .invalidParm, []⟩, xs)
  | .inputInstant (some item) =>
    if xs.length < len then (⟨.ok (), []⟩, item.take size :: xs)
    else (⟨.error .exceedUpperLimit, []⟩, xs)
  | .output item =>
    match xs with
    | [] => (⟨.error .notFound, []⟩, [])
    | x :: xs => (⟨.ok (), if item then [x] else []⟩, xs)
  | .peek false => (⟨.error .invalidParm, []⟩, xs)
  | .peek true =>
    match xs with
    | [] => (⟨.error .notFound, []⟩, [])
    | x :: xs => (⟨.ok (), [x]⟩, x :: xs)
  | .getBatch start items num =>
    if items = false ∨ num = 0 then (⟨.error .invalidParm, []⟩, xs)
    else
      (⟨if start + num ≤ xs.length then .ok () else .error .notFound, (xs.drop start).take num⟩, xs)
  | .deleteBatch num =>
    if num = 0 then (⟨.error .invalidParm, []⟩, xs)
    else (⟨if num ≤ xs.length then .ok () else .error .notFound, []⟩, xs.drop num)
  | .clear => (⟨.ok (), []⟩, [])

/-- The calls of a run on the sequence, with what each of them returns. -/
def dequeRuns (len size : ℕ) : List QueueCall → List (List UInt8) →
    List QueueOut × List (List UInt8)
  | [], xs => ([], xs)
  | c :: cs, xs =>
    let r := dequeStep len size c xs
    let rs := dequeRuns len size cs r.2
    (r.1 :: rs.1, rs.2)

/-! ### The list and the count -/

/-- **The queue holds the items `xs`**: the cells of its list are the blocks allocated, their
data is `xs`, and the count of free places is what they leave. -/
structure Queue.Holds (len size : ℕ) (q : Queue) (xs : List (List UInt8)) : Prop where
  cells : ∃ ps, IsRing q.links q.head ps ∧ ps.map q.data = xs ∧ q.live.Perm ps
  free : q.queueFree + xs.length = len
  queueLen : q.queueLen = len
  itemSize : q.itemSize = size

variable {len size : ℕ} {q : Queue} {xs : List (List UInt8)}

theorem tuyaQueueCreate_holds (head : Cell) (links : Links Cell) (data : Cell → List UInt8)
    {queueLen itemSize : ℕ} (hlen : 1 ≤ queueLen) (hsize : 1 ≤ itemSize) :
    ∃ q, tuyaQueueCreate head links data queueLen itemSize = .ok q ∧
      q.Holds queueLen itemSize [] := by
  refine ⟨_, if_neg (by omega), ⟨[], isRing_alone links head, rfl, List.Perm.refl _⟩, rfl, rfl, rfl⟩

/-- **A new item**: its cell is outside the list, which is as before. -/
theorem Queue.newItem_spec (hring : IsRing q.links q.head ps)
    (hlive : q.live.Perm ps) (alloc : Allocator) (item : List UInt8) :
    (q.newItem alloc item).1 ∉ q.head :: ps ∧
      IsRing (q.newItem alloc item).2.links q.head ps ∧
      ps.map (q.newItem alloc item).2.data = ps.map q.data ∧
      (q.newItem alloc item).2.data (q.newItem alloc item).1 = item.take q.itemSize ∧
      (q.newItem alloc item).2.live = (q.newItem alloc item).1 :: q.live := by
  have hx : (q.newItem alloc item).1 ∉ q.head :: ps := by
    intro hm
    refine alloc.fresh (q.head :: q.live) ?_
    simp only [mem_cons] at hm ⊢
    exact hm.imp_right fun h => hlive.mem_iff.mpr h
  have hne : ∀ a ∈ q.head :: ps, a ≠ alloc.malloc (q.head :: q.live) := by
    rintro a ha rfl
    exact hx ha
  refine ⟨hx, hring.congr (fun a ha => ?_) (fun a ha => ?_), ?_, ?_, rfl⟩
  · exact update_of_ne (hne a ha) _ _
  · exact update_of_ne (hne a ha) _ _
  · refine map_congr_left fun p hp => ?_
    exact update_of_ne (hne p (mem_cons_of_mem _ hp)) _ _
  · exact update_self _ _ _

/-- Both ways of putting an item in. -/
theorem Queue.Holds.enqueue (h : q.Holds len size xs) (alloc : Allocator) (item : List UInt8)
    (policy : EnqueuePolicy) (hpol : policy ≠ .max) :
    (xs.length < len ∧ ∃ q', Tuya.enqueue alloc (some item) policy q = (⟨.ok (), []⟩, q') ∧
      q'.Holds len size
        (if policy = .sendToBack then xs ++ [item.take size] else item.take size :: xs)) ∨
    (¬xs.length < len ∧
      ∃ q', Tuya.enqueue alloc (some item) policy q = (⟨.error .exceedUpperLimit, []⟩, q') ∧
        q'.Holds len size xs) := by
  obtain ⟨⟨ps, hring, hdata, hlive⟩, hfree, hlen, hsize⟩ := h
  obtain ⟨hx, hring', hdata', hitem, hlive'⟩ := q.newItem_spec hring hlive alloc item
  have hrun : Tuya.enqueue alloc (some item) policy q =
      if 0 < q.queueFree then
        (⟨.ok (), []⟩, { (q.newItem alloc item).2 with
          links := if policy = .sendToBack then
              tuyaListAddTail (q.newItem alloc item).2.links (q.newItem alloc item).1 q.head
            else tuyaListAdd (q.newItem alloc item).2.links (q.newItem alloc item).1 q.head
          queueFree := q.queueFree - 1 })
      else (⟨.error .exceedUpperLimit, []⟩, { (q.newItem alloc item).2 with
        live := (q.newItem alloc item).2.live.erase (q.newItem alloc item).1 }) := by
    cases policy with
    | max => exact absurd rfl hpol
    | sendToBack => rfl
    | sendToFront => rfl
  rw [hrun]
  by_cases hfull : 0 < q.queueFree
  · rw [if_pos hfull]
    refine .inl ⟨by omega, _, rfl, ?_, ?_, hlen, hsize⟩
    · by_cases hback : policy = .sendToBack
      · simp only [if_pos hback]
        refine ⟨ps ++ [(q.newItem alloc item).1], hring'.pushBack hx, ?_, ?_⟩
        · rw [map_append, hdata', hdata, map_singleton, hitem, hsize]
        · exact (hlive.cons _).trans (perm_append_singleton _ _).symm
      · simp only [if_neg hback]
        refine ⟨(q.newItem alloc item).1 :: ps, hring'.pushFront hx, ?_, ?_⟩
        · rw [map_cons, hdata', hdata, hitem, hsize]
        · exact hlive.cons _
    · split <;> simp only [length_append, length_cons, length_nil] <;> omega
  · rw [if_neg hfull]
    refine .inr ⟨by omega, _, rfl, ⟨ps, hring', hdata'.trans hdata, ?_⟩, hfree, hlen, hsize⟩
    simp only [hlive', erase_cons_head]
    exact hlive

/-- The front cell of a queue that is not empty. -/
theorem Queue.Holds.front (h : q.Holds len size (x :: xs)) :
    q.queueFree < q.queueLen ∧ q.data (q.links.next q.head) = x := by
  obtain ⟨⟨ps, hring, hdata, -⟩, hfree, hlen, -⟩ := h
  refine ⟨by simp only [length_cons] at hfree; omega, ?_⟩
  rcases hring.first with ⟨rfl, -⟩ | ⟨p, ps, rfl, hnext, -⟩
  · simp at hdata
  · rw [hnext]
    exact (List.cons.inj hdata).1

theorem Queue.Holds.empty (h : q.Holds len size []) : ¬q.queueFree < q.queueLen := by
  have := h.free
  have := h.queueLen
  simp only [length_nil] at *
  omega

/-- The front cell taken out of the list and given back. -/
theorem Queue.Holds.output (h : q.Holds len size (x :: xs)) (item : Bool) :
    ∃ q', tuyaQueueOutput item q = (⟨.ok (), if item then [x] else []⟩, q') ∧
      q'.Holds len size xs := by
  obtain ⟨hlt, hfront⟩ := h.front
  obtain ⟨⟨ps, hring, hdata, hlive⟩, hfree, hlen, hsize⟩ := h
  rw [tuyaQueueOutput, if_pos hlt]
  dsimp only
  rw [hfront]
  rcases hring.first with ⟨rfl, -⟩ | ⟨p, ps, rfl, hnext, -⟩
  · simp at hdata
  refine ⟨_, rfl, ⟨ps, ?_, (List.cons.inj hdata).2, ?_⟩, ?_, hlen, hsize⟩
  · rw [hnext]
    exact hring.popFront
  · rw [hnext]
    simpa using hlive.erase p
  · simp only [length_cons] at hfree ⊢
    omega

theorem Queue.Holds.output_empty (h : q.Holds len size []) (item : Bool) :
    tuyaQueueOutput item q = (⟨.error .notFound, []⟩, q) := if_neg h.empty

/-! ### The loops -/

/-- `tuya_queue_delete_batch`, by induction on the number of items still to be deleted. -/
theorem Queue.Holds.deleteLoop (h : q.Holds len size xs) (num : ℕ) :
    ∃ q', Tuya.deleteLoop num q =
        (⟨if num ≤ xs.length then .ok () else .error .notFound, []⟩, q') ∧
      q'.Holds len size (xs.drop num) := by
  induction num generalizing q xs with
  | zero => exact ⟨q, by simp [Tuya.deleteLoop], h⟩
  | succ num ih =>
    cases xs with
    | nil => exact ⟨q, by simp [Tuya.deleteLoop, h.output_empty], h⟩
    | cons x xs =>
      obtain ⟨q', hrun, h'⟩ := h.output false
      obtain ⟨q'', hrun', h''⟩ := ih h'
      refine ⟨q'', ?_, h''⟩
      simp only [Tuya.deleteLoop, hrun, hrun', length_cons, Nat.add_le_add_iff_right]

/-- `tuya_queue_clear`, by induction on the cells still in the list. -/
theorem clearLoop_spec {k : ℕ} (hring : IsRing q.links q.head ps)
    (hlive : q.live.Perm ps) (hk : ps.length < k) :
    ∃ q', clearLoop k (q.links.next q.head) q = some q' ∧ IsRing q'.links q.head [] ∧
      q'.live = [] ∧ q'.head = q.head ∧ q'.queueLen = q.queueLen ∧ q'.itemSize = q.itemSize := by
  induction ps generalizing q k with
  | nil =>
    obtain ⟨k, rfl⟩ : ∃ m, k = m + 1 := ⟨k - 1, by simp only [length_nil] at hk; omega⟩
    obtain ⟨hj, -⟩ := isChain_cons_cons.mp hring.chain
    refine ⟨q, ?_, hring, hlive.eq_nil, rfl, rfl, rfl⟩
    rw [clearLoop, hj.1]
    exact if_pos rfl
  | cons p ps ih =>
    obtain ⟨k, rfl⟩ : ∃ m, k = m + 1 := ⟨k - 1, by simp only [length_cons] at hk; omega⟩
    obtain ⟨hj, -⟩ := isChain_cons_cons.mp hring.chain
    have hp : p ≠ q.head := fun e => by simpa [e] using hring.nodup
    rw [clearLoop, hj.1]
    simp only [if_neg hp]
    -- the cell behind `p` is the one behind the head once `p` is out
    have hring' := hring.popFront
    have hnext : (tuyaListDel q.links p).next q.head = q.links.next p := by
      rw [tuyaListDel, listDel, hj.2]
      simp [Links.bypass]
    have hk' : ps.length < k := by simpa using hk
    obtain ⟨q', hrun, hrest⟩ :=
      ih (q := { q with links := tuyaListDel q.links p, live := q.live.erase p }) hring'
        (by simpa using hlive.erase p) hk'
    refine ⟨q', ?_, hrest⟩
    rw [← hnext]
    exact hrun

/-- `tuya_queue_get_batch`, by induction on the cells still to be visited: `index` and `count`
of the items before them have been passed over and copied. -/
theorem getBatchLoop_spec {p : Cell} {start num k index count : ℕ}
    (hchain : List.IsChain q.links.Joins (p :: ps ++ [q.head])) (hhead : q.head ∉ ps)
    (hk : ps.length < k) (hindex : index ≤ start) (hcount : count ≤ num)
    (hphase : index < start → count = 0) :
    getBatchLoop q start num k (q.links.next p) index count =
      some (min start (index + ps.length), min num (count + (ps.length - (start - index))),
        ((ps.map q.data).drop (start - index)).take (num - count)) := by
  induction ps generalizing p k index count with
  | nil =>
    obtain ⟨k, rfl⟩ : ∃ m, k = m + 1 := ⟨k - 1, by simp only [length_nil] at hk; omega⟩
    obtain ⟨hj, -⟩ := isChain_cons_cons.mp hchain
    rw [hj.1, getBatchLoop, if_pos rfl]
    simp [Nat.min_eq_right hindex, Nat.min_eq_right hcount]
  | cons r ps ih =>
    obtain ⟨k, rfl⟩ : ∃ m, k = m + 1 := ⟨k - 1, by simp only [length_cons] at hk; omega⟩
    obtain ⟨hj, hchain'⟩ := isChain_cons_cons.mp hchain
    have hr : r ≠ q.head := fun e => hhead (e ▸ mem_cons_self)
    have hhead' : q.head ∉ ps := fun hm => hhead (mem_cons_of_mem _ hm)
    have hk' : ps.length < k := by simpa using hk
    rw [hj.1, getBatchLoop, if_neg hr]
    by_cases hskip : index < start
    · -- a position in front of the batch
      rw [if_pos hskip, ih hchain' hhead' hk' hskip hcount fun _ => hphase hskip]
      obtain ⟨d, hd⟩ : ∃ d, start - index = d + 1 := ⟨start - index - 1, by omega⟩
      rw [hd, show start - (index + 1) = d by omega, map_cons, drop_succ_cons,
        length_cons, Option.some.injEq, Prod.mk.injEq, Prod.mk.injEq]
      exact ⟨by omega, by omega, rfl⟩
    · rw [if_neg hskip]
      obtain rfl : index = start := by omega
      by_cases hdone : num ≤ count
      · obtain rfl : count = num := by omega
        rw [if_pos hdone]
        simp only [Nat.sub_self, take_zero, Option.some.injEq, Prod.mk.injEq, and_true]
        exact ⟨by omega, by omega⟩
      · rw [if_neg hdone, ih hchain' hhead' hk' hindex (by omega) fun h => absurd h hskip]
        obtain ⟨d, hd⟩ : ∃ d, num - count = d + 1 := ⟨num - count - 1, by omega⟩
        simp only [map_some, Nat.sub_self, drop_zero, map_cons, hd,
          show num - (count + 1) = d by omega, take_succ_cons, length_cons,
          Option.some.injEq, Prod.mk.injEq, and_true]
        exact ⟨by omega, by omega⟩

theorem Queue.Holds.getBatch (h : q.Holds len size xs) (start : ℕ) {num : ℕ} (hnum : num ≠ 0) :
    tuyaQueueGetBatch start true num q =
      some ⟨if start + num ≤ xs.length then .ok () else .error .notFound,
        (xs.drop start).take num⟩ := by
  obtain ⟨⟨ps, hring, rfl, hlive⟩, -, -, -⟩ := h
  have hhead : q.head ∉ ps := (nodup_cons.mp hring.nodup).1
  rw [tuyaQueueGetBatch, if_neg (by simpa using hnum),
    getBatchLoop_spec hring.chain hhead (by rw [hlive.length_eq]; omega) (Nat.zero_le _)
      (Nat.zero_le _) fun _ => rfl]
  simp only [map_some, Nat.sub_zero, Nat.zero_add, length_map]
  congr 2
  by_cases hle : start + num ≤ ps.length
  · rw [if_pos hle, if_neg (by omega)]
  · rw [if_neg hle, if_pos (by omega)]

/-! ### Every call, every run -/

/-- **One call on the queue is one call on the sequence.** -/
theorem Queue.Holds.step (h : q.Holds len size xs) (alloc : Allocator) (c : QueueCall) :
    ∃ q', c.run alloc q = some ((dequeStep len size c xs).1, q') ∧
      q'.Holds len size (dequeStep len size c xs).2 := by
  cases c with
  | input item =>
    cases item with
    | none => exact ⟨q, rfl, h⟩
    | some item =>
      rcases h.enqueue alloc item .sendToBack (by simp) with
        ⟨hlt, q', hrun, h'⟩ | ⟨hge, q', hrun, h'⟩
      · exact ⟨q', by simp only [QueueCall.run, tuyaQueueInput, hrun, dequeStep, if_pos hlt],
          by simpa [dequeStep, if_pos hlt] using h'⟩
      · exact ⟨q', by simp only [QueueCall.run, tuyaQueueInput, hrun, dequeStep, if_neg hge],
          by simpa only [dequeStep, if_neg hge] using h'⟩
  | inputInstant item =>
    cases item with
    | none => exact ⟨q, rfl, h⟩
    | some item =>
      rcases h.enqueue alloc item .sendToFront (by simp) with
        ⟨hlt, q', hrun, h'⟩ | ⟨hge, q', hrun, h'⟩
      · exact ⟨q', by simp only [QueueCall.run, tuyaQueueInputInstant, hrun, dequeStep, if_pos hlt],
          by simpa [dequeStep, if_pos hlt] using h'⟩
      · exact ⟨q', by simp only [QueueCall.run, tuyaQueueInputInstant, hrun, dequeStep, if_neg hge],
          by simpa only [dequeStep, if_neg hge] using h'⟩
  | output item =>
    cases xs with
    | nil => exact ⟨q, by simp only [QueueCall.run, h.output_empty, dequeStep], h⟩
    | cons x xs =>
      obtain ⟨q', hrun, h'⟩ := h.output item
      exact ⟨q', by simp only [QueueCall.run, hrun, dequeStep], h'⟩
  | peek item =>
    cases item with
    | false => exact ⟨q, rfl, h⟩
    | true =>
      cases xs with
      | nil =>
        exact ⟨q, by simp [QueueCall.run, tuyaQueuePeek, if_neg h.empty, dequeStep], h⟩
      | cons x xs =>
        exact ⟨q, by simp [QueueCall.run, tuyaQueuePeek, if_pos h.front.1, h.front.2, dequeStep], h⟩
  | getBatch start items num =>
    by_cases hbad : items = false ∨ num = 0
    · exact ⟨q, by simp only [QueueCall.run, tuyaQueueGetBatch, if_pos hbad, dequeStep,
        map_some], by simpa only [dequeStep, if_pos hbad] using h⟩
    · obtain ⟨hitems, hnum⟩ := not_or.mp hbad
      obtain rfl : items = true := by simpa using hitems
      exact ⟨q, by simp only [QueueCall.run, h.getBatch start hnum, dequeStep, if_neg hbad,
        map_some], by simpa only [dequeStep, if_neg hbad] using h⟩
  | deleteBatch num =>
    by_cases hnum : num = 0
    · exact ⟨q, by simp only [QueueCall.run, tuyaQueueDeleteBatch, dequeStep, if_pos hnum],
        by simpa only [dequeStep, if_pos hnum] using h⟩
    · obtain ⟨q', hrun, h'⟩ := h.deleteLoop num
      exact ⟨q', by simp only [QueueCall.run, tuyaQueueDeleteBatch, dequeStep, if_neg hnum, hrun],
        by simpa only [dequeStep, if_neg hnum] using h'⟩
  | clear =>
    obtain ⟨⟨ps, hring, hdata, hlive⟩, hfree, hlen, hsize⟩ := h
    obtain ⟨q', hrun, hring', hlive', hhead', hlen', hsize'⟩ :=
      clearLoop_spec (k := q.live.length + 1) hring hlive (by rw [hlive.length_eq]; omega)
    refine ⟨{ q' with queueFree := q'.queueLen },
      by simp only [QueueCall.run, tuyaQueueClear, hrun, map_some, dequeStep],
      ⟨[], by simpa only [hhead'] using hring', rfl, ?_⟩, ?_, hlen'.trans hlen, hsize'.trans hsize⟩
    · simp only [hlive', List.Perm.refl]
    · exact hlen'.trans hlen

/-- A run on the queue is a run on the sequence. -/
theorem Queue.Holds.runs (h : q.Holds len size xs) (alloc : Allocator) (cs : List QueueCall) :
    ∃ q', Queue.runs alloc cs q = some ((dequeRuns len size cs xs).1, q') ∧
      q'.Holds len size (dequeRuns len size cs xs).2 := by
  induction cs generalizing q xs with
  | nil => exact ⟨q, rfl, h⟩
  | cons c cs ih =>
    obtain ⟨q', hrun, h'⟩ := h.step alloc c
    obtain ⟨q'', hruns, h''⟩ := ih h'
    refine ⟨q'', ?_, h''⟩
    simp only [Queue.runs, hrun, bind_eq_bind, bind_some, hruns, dequeRuns]
    rfl

/-- **The bounded queue refines a bounded sequence.** Every run of calls returns, gives back
what the same calls on the sequence give back, and leaves a queue that holds the sequence; the
free places and the items make up the queue; and what a batch read from the front has copied is
what deleting as many items removes. -/
theorem queue_refines_deque (alloc : Allocator) (head : Cell) (links : Links Cell)
    (data : Cell → List UInt8) {queueLen itemSize : ℕ} (hlen : 1 ≤ queueLen)
    (hsize : 1 ≤ itemSize) :
    ∃ q, tuyaQueueCreate head links data queueLen itemSize = .ok q ∧
      ∀ cs : List QueueCall, ∃ q' xs,
        xs = (dequeRuns queueLen itemSize cs []).2 ∧
        Queue.runs alloc cs q = some ((dequeRuns queueLen itemSize cs []).1, q') ∧
        q'.Holds queueLen itemSize xs ∧ q'.queueFree + xs.length = q'.queueLen ∧
        ∀ n out, tuyaQueueGetBatch 0 true n q' = some out → out.ret = .ok () →
          ∃ q'' rest, tuyaQueueDeleteBatch n q' = (⟨.ok (), []⟩, q'') ∧
            q''.Holds queueLen itemSize rest ∧ out.copied ++ rest = xs := by
  obtain ⟨q, hcreate, h⟩ := tuyaQueueCreate_holds head links data hlen hsize
  refine ⟨q, hcreate, fun cs => ?_⟩
  obtain ⟨q', hruns, h'⟩ := h.runs alloc cs
  refine ⟨q', _, rfl, hruns, h', h'.free.trans h'.queueLen.symm, fun n out hget hok => ?_⟩
  obtain ⟨xs, hxs⟩ : ∃ xs, (dequeRuns queueLen itemSize cs []).2 = xs := ⟨_, rfl⟩
  rw [hxs] at h' ⊢
  rcases Nat.eq_zero_or_pos n with rfl | hpos
  · -- a batch of no items is refused
    simp only [tuyaQueueGetBatch, or_true, if_true, Option.some.injEq] at hget
    rw [← hget] at hok
    simp at hok
  · rw [h'.getBatch 0 (by omega), Option.some.injEq] at hget
    subst hget
    obtain ⟨q'', hdel, h''⟩ := h'.deleteLoop n
    have hle : n ≤ xs.length := by
      by_contra hgt
      rw [if_neg (by omega)] at hok
      simp at hok
    rw [if_pos hle] at hdel
    refine ⟨q'', xs.drop n, ?_, h'', ?_⟩
    · rw [tuyaQueueDeleteBatch, if_neg (by omega), hdel]
    · simp only [drop_zero, take_append_drop]

/-- An allocator that goes upwards. -/
def upwards : Allocator where
  malloc live := live.foldr (fun a m => max (a + 1) m) 0
  fresh live := by
    have hlt : ∀ a ∈ live, a < live.foldr (fun a m => max (a + 1) m) 0 := by
      induction live with
      | nil => simp
      | cons b live ih =>
        intro a ha
        rw [foldr_cons]
        rcases mem_cons.mp ha with rfl | ha
        · exact Nat.lt_of_lt_of_le (Nat.lt_succ_self a) (Nat.le_max_left _ _)
        · exact Nat.lt_of_lt_of_le (ih a ha) (Nat.le_max_right _ _)
    exact fun hm => Nat.lt_irrefl _ (hlt _ hm)

/-- Two places: the third item is refused, and the one put in front comes out first. -/
theorem queue_refines_deque_two :
    ∃ q, tuyaQueueCreate 0 ⟨id, id⟩ (fun _ => []) 2 1 = .ok q ∧ ∃ q',
      Queue.runs upwards [.input (some [7]), .inputInstant (some [8]), .input (some [9]),
          .output true] q =
        some ([⟨.ok (), []⟩, ⟨.ok (), []⟩, ⟨.error .exceedUpperLimit, []⟩,
          ⟨.ok (), [[8]]⟩], q') := by
  obtain ⟨q, hcreate, h⟩ :=
    @queue_refines_deque upwards 0 ⟨id, id⟩ (fun _ => []) 2 1
      (by decide) (by decide)
  obtain ⟨q', -, -, hruns, -⟩ := h [.input (some [7]), .inputInstant (some [8]),
    .input (some [9]), .output true]
  exact ⟨q, hcreate, q', hruns⟩

/-- **A batch of no items is refused**, although there is no item in it that is missing. -/
theorem getBatch_zero_refused :
    ∃ q, tuyaQueueCreate 0 ⟨id, id⟩ (fun _ => []) 1 1 = .ok q ∧ q.Holds 1 1 [] ∧
      ¬((∃ out, tuyaQueueGetBatch 0 true 0 q = some out ∧ out.ret = .ok ()) ↔
        ∀ i, 0 ≤ i → i < 0 + 0 → i < ([] : List (List UInt8)).length) := by
  obtain ⟨q, hcreate, h⟩ :=
    tuyaQueueCreate_holds 0 ⟨id, id⟩ (fun _ => []) (Nat.le_refl 1) (Nat.le_refl 1)
  refine ⟨q, hcreate, h, fun hiff => ?_⟩
  obtain ⟨out, hget, hok⟩ := hiff.mpr (by simp)
  simp only [tuyaQueueGetBatch, or_true, if_true, Option.some.injEq] at hget
  rw [← hget] at hok
  simp at hok

end Gd32.Tuya
