import Gd32Firmware.Lib.Chain
import Gd32Firmware.Lib.HList
import Gd32Firmware.Util.CString
import Gd32Firmware.Util.Crc
import Mathlib.Algebra.BigOperators.Group.Finset.Piecewise
import Mathlib.Algebra.BigOperators.Ring.Finset

/-!
# The hash map

`tuya_hashmap.c` over `tuya_hlist.h`: a table of hash lists, keys that fall on the same index
sharing one list, new elements in front. The map keeps every element it is given, so a key
stands for a stack of data, and the elements of all keys in the order they were put explain the
whole table (`Tuya.Hashmap.Reps`): the list of an index is that order, restricted to the
keys of the index.

`tuya_hashmap_remove` runs through the list of its key and takes the cursor of the loop for the
element it was looking for. A loop that finds nothing leaves its cursor at the last element of
the list, so a remove that matches nothing returns `MAP_MISSING` only when the list is empty;
otherwise it takes that last element out, whatever its key. `Tuya.hashmap_multimap_iff`
says that this is all that can go wrong.

The caller keeps the key strings as they are; the map holds pointers to them. What
`tkl_system_malloc` answers to a put is part of the call. `size` is an `int` that counts blocks
of memory and does not come near its limit.
-/

namespace Gd32

open List Option

variable {x : Element}

namespace Tuya

open HList Function

/-! ### The source -/

/-- The return codes. -/
inductive MapRet where
  | ok
  | missing
  | omem
  deriving DecidableEq

/-- The address of an element. -/
abbrev Element := ℕ

/-- `HASHMAP_T`, with the elements in memory. -/
structure Hashmap where
  size : ℤ
  tableSize : ℕ
  /-- The heads of the table and the nodes of the elements. -/
  links : Links ℕ Element
  key : Element → CString
  data : Element → ℕ
  live : List Element

/-- `__crc32_hashmap`; `crc32_tab` has the values of `crc_table`. -/
def crc32Hashmap (s : List UInt8) : UInt32 :=
  s.foldl (fun crc32val b =>
    crcTable.getD ((crc32val ^^^ b.toUInt32) &&& 0xff).toNat 0 ^^^ (crc32val >>> 8)) 0

def hashmapHashInt (tableSize : ℕ) (keystring : CString) : ℕ :=
  let key := crc32Hashmap keystring.bytes
  let key := key + (key <<< 12)
  let key := key ^^^ (key >>> 22)
  let key := key + (key <<< 4)
  let key := key ^^^ (key >>> 9)
  let key := key + (key <<< 10)
  let key := key ^^^ (key >>> 2)
  let key := key + (key <<< 7)
  let key := key ^^^ (key >>> 12)
  let key := (key >>> 3) * 2654435761
  key.toNat % tableSize

/-- The comparison of keys all loops make. -/
def sameKey (key key' : CString) : Bool :=
  decide (key.len = key'.len) && decide (key.bytes = key'.bytes)

/-- The node behind an element. -/
def Hashmap.next (m : Hashmap) (x : Element) : Option Element := m.links.link (.next x)

/-- `__hash_find_next_element`; a loop that visits more elements than there are never ends. -/
def hashFindNextElement (m : Hashmap) (curr : Element) : Option (Option Element) :=
  Chain.scan m.next (fun x => sameKey (m.key curr) (m.key x)) m.live.length (m.next curr)

def hashFind (m : Hashmap) (key : CString) : Option (Option Element) :=
  match m.links.link (.head (hashmapHashInt m.tableSize key)) with
  | none => some none
  | some first => Chain.scan m.next (fun x => sameKey key (m.key x)) m.live.length (some first)

/-- `tuya_hashmap_new`, in a memory with the nodes `nodes`. -/
def tuyaHashmapNew (nodes : Links ℕ Element) (tableSize : ℕ) : Option Hashmap :=
  if tableSize = 0 then none
  else some
    { size := 0
      tableSize := tableSize
      links := { nodes with link := fun s => match s with
        | .head _ => none
        | .next x => nodes.link (.next x) }
      key := fun _ => ⟨[], by simp⟩
      data := fun _ => 0
      live := [] }

/-- What a call returns: its code, the datum of a get and the iterator of a traversal. -/
structure MapOut where
  ret : MapRet
  arg : ℕ
  /-- `*arg_iterator`, as the element it points into. -/
  iter : Option Element
  deriving DecidableEq

/-- `tuya_hashmap_put`, `block` being what `tkl_system_malloc` returns. -/
def tuyaHashmapPut (key : CString) (data : ℕ) (block : Option Element) (m : Hashmap) :
    MapOut × Hashmap :=
  match block with
  | none => (⟨.omem, 0, none⟩, m)
  | some element =>
    (⟨.ok, 0, none⟩, { m with
      live := element :: m.live
      key := update m.key element key
      data := update m.data element data
      links := m.links.addHead element (hashmapHashInt m.tableSize key)
      size := m.size + 1 })

def tuyaHashmapGet (key : CString) (m : Hashmap) : Option MapOut :=
  (hashFind m key).map fun r =>
    match r with
    | none => ⟨.missing, 0, none⟩
    | some element => ⟨.ok, m.data element, none⟩

/-- `tuya_hashmap_data_traversal`; an iterator into an element that is gone is not defined. -/
def tuyaHashmapDataTraversal (key : CString) (iter : Option Element) (m : Hashmap) :
    Option MapOut :=
  let element := match iter with
    | none => hashFind m key
    | some curr => if curr ∈ m.live then hashFindNextElement m curr else none
  element.map fun r =>
    match r with
    | none => ⟨.missing, 0, none⟩
    | some element => ⟨.ok, 0, some element⟩

/-- The test of `tuya_hashmap_remove`; data that is null fits everything. -/
def removeHit (m : Hashmap) (key : CString) (data : ℕ) (x : Element) : Bool :=
  sameKey key (m.key x) && (decide (data = 0) || decide (m.data x = data))

/-- The loop of `tuya_hashmap_remove`: where the cursor is left. -/
def removeLoop (m : Hashmap) (key : CString) (data : ℕ) :
    ℕ → Option Element → Option Element → Option (Option Element)
  | _, none, tmp => some tmp
  | 0, some _, _ => none
  | k + 1, some x, _ =>
    if removeHit m key data x then some (some x)
    else removeLoop m key data k (m.next x) (some x)

def tuyaHashmapRemove (key : CString) (data : ℕ) (m : Hashmap) : Option (MapOut × Hashmap) :=
  match m.links.link (.head (hashmapHashInt m.tableSize key)) with
  | none => some (⟨.missing, 0, none⟩, m)
  | some first =>
    (removeLoop m key data m.live.length (some first) none).map fun r =>
      match r with
      | none => (⟨.missing, 0, none⟩, m)
      | some element =>
        (⟨.ok, 0, none⟩, { m with
          links := m.links.del element
          live := m.live.erase element
          size := m.size - 1 })

def tuyaHashmapLength (m : Hashmap) : ℤ := m.size

/-- `TUYA_HASHMAP_FOR_EACH_DATA`: the elements the body is run for, at most so many. -/
def hashmapForEachData (m : Hashmap) (key : CString) : ℕ → Option Element → Option (List Element)
  | 0, _ => none
  | k + 1, iter =>
    match tuyaHashmapDataTraversal key iter m with
    | none => none
    | some out =>
      if out.ret = .ok then
        (hashmapForEachData m key k out.iter).map fun xs => out.iter.toList ++ xs
      else some []

/-! ### Runs, and what they are for -/

/-- A call on a map. -/
inductive MapCall where
  /-- `tuya_hashmap_put`. -/
  | put (key : CString) (data : ℕ) (block : Option Element)
  /-- `tuya_hashmap_get`. -/
  | get (key : CString)
  /-- `tuya_hashmap_data_traversal`. -/
  | traversal (key : CString) (iter : Option Element)
  /-- `tuya_hashmap_remove`. -/
  | remove (key : CString) (data : ℕ)

/-- Making a call. -/
def MapCall.run (c : MapCall) (m : Hashmap) : Option (MapOut × Hashmap) :=
  match c with
  | .put key data block => some (tuyaHashmapPut key data block m)
  | .get key => (tuyaHashmapGet key m).map fun out => (out, m)
  | .traversal key iter => (tuyaHashmapDataTraversal key iter m).map fun out => (out, m)
  | .remove key data => tuyaHashmapRemove key data m

/-- Calls one after the other, with what each of them returns. -/
def Hashmap.runs : List MapCall → Hashmap → Option (List MapOut × Hashmap)
  | [], m => some ([], m)
  | c :: cs, m => do
    let r ← c.run m
    let rs ← Hashmap.runs cs r.2
    pure (r.1 :: rs.1, rs.2)

/-- **What the map is for**: a stack for each key, of elements with their data, newest first. -/
abbrev Stacks := CString → List (Element × ℕ)

/-- One call on the stacks. -/
def multimapStep (c : MapCall) (S : Stacks) : MapOut × Stacks :=
  match c with
  | .put _ _ none => (⟨.omem, 0, none⟩, S)
  | .put key data (some x) => (⟨.ok, 0, none⟩, update S key ((x, data) :: S key))
  | .get key =>
    match S key with
    | [] => (⟨.missing, 0, none⟩, S)
    | e :: _ => (⟨.ok, e.2, none⟩, S)
  | .traversal key none =>
    match S key with
    | [] => (⟨.missing, 0, none⟩, S)
    | e :: _ => (⟨.ok, 0, some e.1⟩, S)
  | .traversal key (some x) =>
    -- the element below `x`
    match (S key).dropWhile fun e => decide (e.1 ≠ x) with
    | _ :: e :: _ => (⟨.ok, 0, some e.1⟩, S)
    | _ => (⟨.missing, 0, none⟩, S)
  | .remove key data =>
    match (S key).find? fun e => decide (data = 0) || decide (e.2 = data) with
    | none => (⟨.missing, 0, none⟩, S)
    | some e => (⟨.ok, 0, none⟩, update S key ((S key).erase e))

/-- The calls of a run on the stacks. -/
def multimapRuns : List MapCall → Stacks → List MapOut × Stacks
  | [], S => ([], S)
  | c :: cs, S =>
    let r := multimapStep c S
    let rs := multimapRuns cs r.2
    (r.1 :: rs.1, rs.2)

/-- A condition on each call of a run and on the stacks it finds. -/
def EachCall (P : MapCall → Stacks → Prop) : List MapCall → Stacks → Prop
  | [], _ => True
  | c :: cs, S => P c S ∧ EachCall P cs (multimapStep c S).2

/-- What the allocator and the caller of a traversal promise: a new block is none of those in
use, and an iterator is into an element of the key that is still there. -/
def MapCall.Promised (c : MapCall) (S : Stacks) : Prop :=
  match c with
  | .put _ _ (some x) => ∀ k, ∀ e ∈ S k, e.1 ≠ x
  | .traversal key (some x) => ∃ e ∈ S key, e.1 = x
  | _ => True

/-- A remove finds what it is to remove, or the list of its key is empty. -/
def MapCall.Matched (tableSize : ℕ) (c : MapCall) (S : Stacks) : Prop :=
  match c with
  | .remove key data =>
    (∃ e ∈ S key, data = 0 ∨ e.2 = data) ∨
      ∀ k, hashmapHashInt tableSize k = hashmapHashInt tableSize key → S k = []
  | _ => True

/-! ### The elements in the order they were put -/

/-- The elements whose keys fall on an index. -/
def bucketOf (tableSize : ℕ) (key : Element → CString) (es : List Element) (b : ℕ) :
    List Element := es.filter fun x => hashmapHashInt tableSize (key x) = b

/-- The elements of a key, with their data. -/
def stackOf (key : Element → CString) (data : Element → ℕ) (es : List Element) : Stacks := fun k =>
  (es.filter fun x => key x = k).map fun x => (x, data x)

/-- The map holds the elements `es`, newest first: the list of each index is `es` restricted to
the keys of the index. -/
structure Hashmap.Holds (m : Hashmap) (es : List Element) : Prop where
  table : IsTable m.links (bucketOf m.tableSize m.key es)
  nodup : es.Nodup
  live : m.live.Perm es
  size : m.size = es.length

/-- **The map stands for the stacks `S`.** -/
def Hashmap.Reps (m : Hashmap) (S : Stacks) : Prop := ∃ es, m.Holds es ∧ S = stackOf m.key m.data es

theorem sameKey_iff {key key' : CString} : sameKey key key' = true ↔ key = key' := by
  simp only [sameKey, Bool.and_eq_true, decide_eq_true_eq]
  constructor
  · exact fun h => CString.ext_bytes h.2
  · rintro rfl
    exact ⟨rfl, rfl⟩

theorem isChain_of_isHChain {m : Hashmap} {s : Slot ℕ Element} {xs : List Element}
    (h : IsHChain m.links s xs) : Chain.IsChain m.next (m.links.link s) xs := by
  induction xs generalizing s with
  | nil => exact h
  | cons x xs ih => exact ⟨h.1, ih h.2.2⟩

theorem tuyaHashmapNew_holds (nodes : Links ℕ Element) {tableSize : ℕ} (h : 1 ≤ tableSize) :
    ∃ m, tuyaHashmapNew nodes tableSize = some m ∧ m.tableSize = tableSize ∧
      m.Reps fun _ => [] :=
  ⟨_, if_neg (by omega), rfl, [], ⟨isTable_nil fun _ => rfl, nodup_nil, List.Perm.refl _, rfl⟩,
    rfl⟩

/-! ### Lists and stacks of the elements -/

/-- The keys and the data of the elements there are do not change with a new one. -/
theorem filter_update_key {key : Element → CString} {es : List Element} {x : Element}
    (hx : x ∉ es) (k : CString) (p : CString → Bool) :
    (es.filter fun y => p (update key x k y)) = es.filter fun y => p (key y) := by
  refine filter_congr fun y hy => ?_
  have hyx : y ≠ x := fun e => hx (e ▸ hy)
  rw [update_of_ne hyx]

theorem bucketOf_put {tableSize : ℕ} {key : Element → CString} {es : List Element}
    (hx : x ∉ es) (k : CString) :
    bucketOf tableSize (update key x k) (x :: es) =
      update (bucketOf tableSize key es) (hashmapHashInt tableSize k)
        (x :: bucketOf tableSize key es (hashmapHashInt tableSize k)) := by
  funext b
  have hold := @filter_update_key key es x hx k fun k' => decide (hashmapHashInt tableSize k' = b)
  by_cases hb : hashmapHashInt tableSize k = b
  · subst hb
    rw [update_self, bucketOf, filter_cons_of_pos (by simp), hold]
    rfl
  · rw [update_of_ne (Ne.symm hb), bucketOf,
      filter_cons_of_neg (by simpa using hb), hold]
    rfl

theorem stackOf_put {key : Element → CString} {data : Element → ℕ} {es : List Element} (hx : x ∉ es) (k : CString) (d : ℕ) :
    stackOf (update key x k) (update data x d) (x :: es) =
      update (stackOf key data es) k ((x, d) :: stackOf key data es k) := by
  funext k'
  have hold := @filter_update_key key es x hx k fun k'' => decide (k'' = k')
  have hmap : (es.filter fun y => key y = k').map (fun y => (y, update data x d y)) =
      (es.filter fun y => key y = k').map fun y => (y, data y) := by
    refine map_congr_left fun y hy => ?_
    have hyx : y ≠ x := fun e => hx (e ▸ mem_of_mem_filter hy)
    rw [update_of_ne hyx]
  by_cases hk : k = k'
  · subst hk
    rw [update_self, stackOf, filter_cons_of_pos (by simp), hold, map_cons,
      update_self, hmap]
    rfl
  · rw [update_of_ne (Ne.symm hk), stackOf, filter_cons_of_neg (by simpa using hk),
      hold, hmap]
    rfl

theorem bucketOf_erase (tableSize : ℕ) (key : Element → CString) (es : List Element)
    (x : Element) :
    bucketOf tableSize key (es.erase x) =
      update (bucketOf tableSize key es) (hashmapHashInt tableSize (key x))
        ((bucketOf tableSize key es (hashmapHashInt tableSize (key x))).erase x) := by
  funext b
  by_cases hb : hashmapHashInt tableSize (key x) = b
  · subst hb
    rw [update_self, bucketOf, ← erase_filter]
    rfl
  · rw [update_of_ne (Ne.symm hb), bucketOf, ← erase_filter, erase_of_not_mem]
    · rfl
    · simpa using fun _ => hb

theorem stackOf_erase (key : Element → CString) (data : Element → ℕ) (es : List Element)
    (x : Element) :
    stackOf key data (es.erase x) =
      update (stackOf key data es) (key x)
        ((stackOf key data es (key x)).erase (x, data x)) := by
  have hinj : Function.Injective fun y => (y, data y) := fun a b hab => (Prod.mk.inj hab).1
  funext k
  by_cases hk : key x = k
  · subst hk
    rw [update_self, stackOf, ← erase_filter]
    exact map_erase hinj _
  · rw [update_of_ne (Ne.symm hk), stackOf, ← erase_filter, erase_of_not_mem]
    · rfl
    · simpa using fun _ => hk

section Steps

variable {m : Hashmap} {es : List Element} {S : Stacks}

theorem Hashmap.Holds.chain (h : m.Holds es) (b : ℕ) :
    Chain.IsChain m.next (m.links.link (.head b))
      (bucketOf m.tableSize m.key es b) :=
  isChain_of_isHChain (h.table.chain b)

theorem Hashmap.Holds.length_le (h : m.Holds es) (p : Element → Bool) :
    (es.filter p).length ≤ m.live.length := by
  rw [h.live.length_eq]
  exact length_filter_le _ _

/-- Searching the list of a key for something only that key can have is searching everything. -/
theorem find?_bucket (m : Hashmap) (es : List Element) (key : CString) (q : Element → Bool) :
    (bucketOf m.tableSize m.key es (hashmapHashInt m.tableSize key)).find?
        (fun x => sameKey key (m.key x) && q x) =
      es.find? fun x => sameKey key (m.key x) && q x := by
  rw [bucketOf, List.find?_filter]
  congr 1
  funext x
  by_cases hk : sameKey key (m.key x) = true
  · rw [← sameKey_iff.mp hk]
    simp
  · simp [hk]

/-- `__hash_find` finds the newest element of the key. -/
theorem Hashmap.Holds.hashFind_eq (h : m.Holds es) (key : CString) :
    hashFind m key = some (es.find? fun x => sameKey key (m.key x)) := by
  have hscan := (h.chain (hashmapHashInt m.tableSize key)).scan_eq
    (fun x => sameKey key (m.key x)) (h.length_le _)
  have hfind := find?_bucket m es key fun _ => true
  simp only [Bool.and_true] at hfind
  rw [hfind] at hscan
  rw [hashFind, ← hscan]
  cases m.links.link (.head (hashmapHashInt m.tableSize key)) with
  | none => cases m.live.length <;> rfl
  | some first => rfl

/-- The newest element of a key is the top of its stack. -/
theorem stackOf_head? (m : Hashmap) (es : List Element) (key : CString) :
    (stackOf m.key m.data es key).head? =
      (es.find? fun x => sameKey key (m.key x)).map fun x => (x, m.data x) := by
  rw [stackOf, List.head?_map, List.head?_filter]
  congr 2
  funext x
  rw [Bool.eq_iff_iff, sameKey_iff, decide_eq_true_eq]
  exact eq_comm

/-- `__hash_find_next_element` finds the next older element of the key. -/
theorem Hashmap.Holds.hashFindNextElement_eq {as bs : List Element}
    (h : m.Holds (as ++ x :: bs)) :
    hashFindNextElement m x = some (bs.find? fun y => sameKey (m.key x) (m.key y)) := by
  have hchain := h.table.chain (hashmapHashInt m.tableSize (m.key x))
  rw [bucketOf, filter_append, filter_cons_of_pos (by simp)] at hchain
  have hlen := h.length_le fun y =>
    decide (hashmapHashInt m.tableSize (m.key y) = hashmapHashInt m.tableSize (m.key x))
  rw [filter_append, filter_cons_of_pos (by simp), length_append,
    length_cons] at hlen
  have hscan := (isChain_of_isHChain hchain.around.2).scan_eq
    (fun y => sameKey (m.key x) (m.key y)) (n := m.live.length) (by omega)
  have hfind := find?_bucket m bs (m.key x) fun _ => true
  simp only [Bool.and_true, bucketOf] at hfind
  rw [hfind] at hscan
  exact hscan

/-- Where the loop of a remove leaves its cursor: at the match, or at the last element. -/
theorem removeLoop_eq {key : CString} {data : ℕ} {xs : List Element} {p : Option Element}
    (h : Chain.IsChain m.next p xs) {k : ℕ} (hk : xs.length ≤ k) (tmp : Option Element) :
    removeLoop m key data k p tmp =
      some ((xs.find? (removeHit m key data)).or (xs.getLast?.or tmp)) := by
  induction xs generalizing p k tmp with
  | nil =>
    cases h
    cases k <;> rfl
  | cons x xs ih =>
    obtain ⟨rfl, h⟩ := h
    obtain ⟨k, rfl⟩ : ∃ j, k = j + 1 := ⟨k - 1, by simp only [length_cons] at hk; omega⟩
    rw [removeLoop]
    by_cases hx : removeHit m key data x = true
    · rw [if_pos hx, List.find?_cons_of_pos hx]
      rfl
    · rw [if_neg hx, List.find?_cons_of_neg hx, ih h (by simpa using hk)]
      congr 2
      rw [List.getLast?_cons]
      cases xs.getLast? <;> rfl

/-! ### What the calls do to the elements -/

/-- **A put is a new element in front of the others.** -/
theorem Hashmap.Holds.put (h : m.Holds es) (hx : x ∉ es) (key : CString) (data : ℕ) :
    (tuyaHashmapPut key data (some x) m).2.Holds (x :: es) := by
  refine ⟨?_, nodup_cons.mpr ⟨hx, h.nodup⟩, h.live.cons x, ?_⟩
  · change IsTable (m.links.addHead x (hashmapHashInt m.tableSize key))
      (bucketOf m.tableSize (update m.key x key) (x :: es))
    rw [bucketOf_put hx]
    exact h.table.addHead (fun b hm => hx (mem_of_mem_filter hm)) _
  · simp only [tuyaHashmapPut, h.size, length_cons]
    omega

/-- The map without an element. -/
def Hashmap.drop (m : Hashmap) (x : Element) : Hashmap :=
  { m with links := m.links.del x, live := m.live.erase x, size := m.size - 1 }

/-- **An element taken out.** -/
theorem Hashmap.Holds.drop (h : m.Holds es) (hx : x ∈ es) :
    (m.drop x).Holds (es.erase x) := by
  refine ⟨?_, h.nodup.erase x, h.live.erase x, ?_⟩
  · change IsTable (m.links.del x) (bucketOf m.tableSize m.key (es.erase x))
    have hmem : x ∈ bucketOf m.tableSize m.key es (hashmapHashInt m.tableSize (m.key x)) :=
      mem_filter.mpr ⟨hx, by simp⟩
    obtain ⟨xs, ys, hsplit⟩ := append_of_mem hmem
    have hnd := h.table.nodup (hashmapHashInt m.tableSize (m.key x))
    rw [hsplit] at hnd
    have hxs : x ∉ xs := fun hm => (nodup_append.mp hnd).2.2 x hm x (by simp) rfl
    rw [bucketOf_erase, hsplit, erase_append_right _ hxs, erase_cons_head]
    exact h.table.del hsplit
  · have hlen := length_erase_of_mem hx
    have hpos := length_pos_of_mem hx
    simp only [Hashmap.drop, h.size, hlen]
    omega

end Steps

/-! ### The calls on the stacks -/

section Calls

variable {m : Hashmap} {es : List Element} {S : Stacks}

theorem mem_stackOf {key : Element → CString} {data : Element → ℕ} {es : List Element}
    {k : CString} {e : Element × ℕ} :
    e ∈ stackOf key data es k ↔ e.1 ∈ es ∧ key e.1 = k ∧ e.2 = data e.1 := by
  simp only [stackOf, List.mem_map, mem_filter, decide_eq_true_eq]
  constructor
  · rintro ⟨x, ⟨hx, rfl⟩, rfl⟩
    exact ⟨hx, rfl, rfl⟩
  · rintro ⟨hx, hk, hd⟩
    exact ⟨e.1, ⟨hx, hk⟩, Prod.ext rfl hd.symm⟩

/-- What is found for a key: the top of its stack. -/
theorem Hashmap.Holds.top (h : m.Holds es) (key : CString) :
    hashFind m key = some ((stackOf m.key m.data es key).head?.map Prod.fst) ∧
      ∀ e ∈ (stackOf m.key m.data es key).head?, e.2 = m.data e.1 := by
  rw [h.hashFind_eq, stackOf_head?]
  refine ⟨?_, ?_⟩
  · cases es.find? fun x => sameKey key (m.key x) <;> rfl
  · intro e he
    obtain ⟨x, -, rfl⟩ := Option.mem_map.mp he
    rfl

/-- What is found behind an element: the one below it in its stack. -/
theorem Hashmap.Holds.below (h : m.Holds es) (hx : x ∈ es) :
    ∃ post, (stackOf m.key m.data es (m.key x)).dropWhile (fun e => decide (e.1 ≠ x)) =
        (x, m.data x) :: post ∧
      hashFindNextElement m x = some (post.head?.map Prod.fst) := by
  obtain ⟨as, bs, rfl⟩ := append_of_mem hx
  have has : x ∉ as := fun hm => (nodup_append.mp h.nodup).2.2 x hm x (by simp) rfl
  refine ⟨stackOf m.key m.data bs (m.key x), ?_, ?_⟩
  · rw [stackOf, filter_append, filter_cons_of_pos (by simp), map_append,
      map_cons, dropWhile_append_of_pos, dropWhile_cons_of_neg (by simp)]
    · rfl
    · intro e he
      obtain ⟨y, hy, rfl⟩ := List.mem_map.mp he
      have hyx : y ≠ x := fun he => has (he ▸ mem_of_mem_filter hy)
      simpa using hyx
  · rw [h.hashFindNextElement_eq, stackOf_head?]
    cases bs.find? fun y => sameKey (m.key x) (m.key y) <;> rfl

/-- The search of a remove, in the stack and among all elements. -/
theorem find?_stackOf (m : Hashmap) (es : List Element) (key : CString) (data : ℕ) :
    ((stackOf m.key m.data es key).find? fun e => decide (data = 0) || decide (e.2 = data)) =
      (es.find? (removeHit m key data)).map fun x => (x, m.data x) := by
  rw [stackOf, List.find?_map, List.find?_filter]
  congr 2
  funext x
  rw [removeHit, Bool.eq_iff_iff]
  simp only [Bool.and_eq_true, sameKey_iff, decide_eq_true_eq, Function.comp]
  exact and_congr_left fun _ => eq_comm

theorem bucketOf_eq_nil_iff {b : ℕ} :
    bucketOf m.tableSize m.key es b = [] ↔
      ∀ k, hashmapHashInt m.tableSize k = b → stackOf m.key m.data es k = [] := by
  rw [bucketOf, filter_eq_nil_iff]
  constructor
  · intro h k hk
    rw [stackOf, map_eq_nil_iff, filter_eq_nil_iff]
    intro x hx hkx
    refine h x hx ?_
    rw [decide_eq_true_eq] at hkx ⊢
    rw [hkx, hk]
  · intro h x hx hb
    rw [decide_eq_true_eq] at hb
    have hmem : (x, m.data x) ∈ stackOf m.key m.data es (m.key x) := mem_stackOf.mpr ⟨hx, rfl, rfl⟩
    rw [h _ hb] at hmem
    simp at hmem

/-- **What a remove does**: it takes out the element found, or else the last one of the list. -/
theorem Hashmap.Holds.remove_eq (h : m.Holds es) (key : CString) (data : ℕ) :
    tuyaHashmapRemove key data m =
      some (match (es.find? (removeHit m key data)).or
          (bucketOf m.tableSize m.key es (hashmapHashInt m.tableSize key)).getLast? with
        | none => (⟨.missing, 0, none⟩, m)
        | some x => (⟨.ok, 0, none⟩, m.drop x)) := by
  have hchain := h.chain (hashmapHashInt m.tableSize key)
  have hfind : (bucketOf m.tableSize m.key es (hashmapHashInt m.tableSize key)).find?
      (removeHit m key data) = es.find? (removeHit m key data) :=
    find?_bucket m es key fun x => decide (data = 0) || decide (m.data x = data)
  rw [← hfind, tuyaHashmapRemove]
  have hloop := @removeLoop_eq m key data _ _ hchain _ (h.length_le _) none
  generalize hfirst : m.links.link (.head (hashmapHashInt m.tableSize key)) = first at hloop hchain
  generalize bucketOf m.tableSize m.key es (hashmapHashInt m.tableSize key) = xs at *
  cases first with
  | none =>
    rw [hchain.of_none]
    rfl
  | some f =>
    simp only [hloop, map_some, or_none]
    cases (xs.find? (removeHit m key data)).or xs.getLast? <;> rfl

/-- **One call on the map is one call on the stacks**, when what it removes is there. -/
theorem Hashmap.Reps.step (h : m.Reps S) {c : MapCall} (hp : c.Promised S)
    (hm : c.Matched m.tableSize S) :
    ∃ m', c.run m = some ((multimapStep c S).1, m') ∧ m'.Reps (multimapStep c S).2 ∧
      m'.tableSize = m.tableSize := by
  obtain ⟨es, h, rfl⟩ := h
  cases c with
  | put key data block =>
    cases block with
    | none => exact ⟨m, rfl, ⟨es, h, rfl⟩, rfl⟩
    | some x =>
      have hx : x ∉ es := fun hx => hp (m.key x) (x, m.data x) (mem_stackOf.mpr ⟨hx, rfl, rfl⟩) rfl
      exact ⟨_, rfl, ⟨x :: es, h.put hx key data, (stackOf_put hx key data).symm⟩, rfl⟩
  | get key =>
    obtain ⟨hfind, hdata⟩ := h.top key
    refine ⟨m, ?_, ?_, rfl⟩
    · simp only [MapCall.run, tuyaHashmapGet, hfind, multimapStep]
      generalize stackOf m.key m.data es key = T at *
      cases T with
      | nil => rfl
      | cons e T => simp [hdata e rfl]
    · rw [show (multimapStep (.get key) (stackOf m.key m.data es)).2 = stackOf m.key m.data es by
        simp only [multimapStep]
        split <;> rfl]
      exact ⟨es, h, rfl⟩
  | traversal key iter =>
    cases iter with
    | none =>
      obtain ⟨hfind, -⟩ := h.top key
      refine ⟨m, ?_, ?_, rfl⟩
      · simp only [MapCall.run, tuyaHashmapDataTraversal, hfind, multimapStep]
        generalize stackOf m.key m.data es key = T at *
        cases T <;> rfl
      · rw [show (multimapStep (.traversal key none) (stackOf m.key m.data es)).2 =
            stackOf m.key m.data es by
          simp only [multimapStep]
          split <;> rfl]
        exact ⟨es, h, rfl⟩
    | some x =>
      obtain ⟨e, he, rfl⟩ := hp
      obtain ⟨hx, rfl, -⟩ := mem_stackOf.mp he
      obtain ⟨post, hdrop, hnext⟩ := h.below hx
      refine ⟨m, ?_, ?_, rfl⟩
      · simp only [MapCall.run, tuyaHashmapDataTraversal, if_pos (h.live.mem_iff.mpr hx), hnext,
          multimapStep, hdrop]
        cases post <;> rfl
      · rw [show (multimapStep (.traversal (m.key e.1) (some e.1)) (stackOf m.key m.data es)).2 =
            stackOf m.key m.data es by
          simp only [multimapStep]
          split <;> rfl]
        exact ⟨es, h, rfl⟩
  | remove key data =>
    have hspec := find?_stackOf m es key data
    simp only [MapCall.run, h.remove_eq, multimapStep, hspec]
    cases hfind : es.find? (removeHit m key data) with
    | some x =>
      have hhit := List.find?_some hfind
      rw [removeHit, Bool.and_eq_true, sameKey_iff] at hhit
      refine ⟨m.drop x, rfl, ⟨es.erase x, h.drop (mem_of_find?_eq_some hfind), ?_⟩, rfl⟩
      simp only [map_some, hhit.1]
      exact (stackOf_erase m.key m.data es x).symm
    | none =>
      -- nothing to remove: the list is empty
      have hnil : bucketOf m.tableSize m.key es (hashmapHashInt m.tableSize key) = [] := by
        rw [bucketOf_eq_nil_iff]
        rcases hm with ⟨e, he, hd⟩ | hnil
        · rw [hfind, map_none, List.find?_eq_none] at hspec
          exact absurd (by simpa using hd) (hspec e he)
        · exact hnil
      rw [hnil]
      exact ⟨m, rfl, ⟨es, h, rfl⟩, rfl⟩

/-- **A remove that matches nothing in a list that is not empty** returns `MAP_OK`. -/
theorem Hashmap.Reps.unmatched (h : m.Reps S) {c : MapCall} (hm : ¬c.Matched m.tableSize S) :
    ∃ out m', c.run m = some (out, m') ∧ out ≠ (multimapStep c S).1 := by
  obtain ⟨es, h, rfl⟩ := h
  cases c with
  | put key data block => exact absurd trivial hm
  | get key => exact absurd trivial hm
  | traversal key iter => exact absurd trivial hm
  | remove key data =>
    obtain ⟨hno, hne⟩ := not_or.mp hm
    have hspec := find?_stackOf m es key data
    have hnone : es.find? (removeHit m key data) = none := by
      cases hfind : es.find? (removeHit m key data) with
      | none => rfl
      | some x =>
        rw [hfind, map_some] at hspec
        refine absurd ⟨_, mem_of_find?_eq_some hspec, ?_⟩ hno
        simpa using List.find?_some hspec
    rw [← bucketOf_eq_nil_iff, ← ne_eq, ← List.getLast?_isSome] at hne
    obtain ⟨x, hx⟩ := isSome_iff_exists.mp hne
    refine ⟨⟨.ok, 0, none⟩, m.drop x, ?_, ?_⟩
    · simp only [MapCall.run, h.remove_eq, hnone, none_or, hx]
    · simp only [multimapStep, hspec, hnone, map_none]
      decide

/-- The next element, where the stack is cut at an element. -/
theorem Hashmap.Holds.next_of_split (h : m.Holds es) {key : CString}
    (hnd : ((stackOf m.key m.data es key).map Prod.fst).Nodup) {pre post : List (Element × ℕ)}
    {e : Element × ℕ} (hsplit : stackOf m.key m.data es key = pre ++ e :: post) :
    hashFindNextElement m e.1 = some (post.head?.map Prod.fst) ∧ e.1 ∈ m.live := by
  have hmem : e ∈ stackOf m.key m.data es key := by simp [hsplit]
  obtain ⟨hx, rfl, -⟩ := mem_stackOf.mp hmem
  obtain ⟨post', hdrop, hnext⟩ := h.below hx
  refine ⟨?_, h.live.mem_iff.mpr hx⟩
  have hpre : ∀ f ∈ pre, decide (f.1 ≠ e.1) = true := by
    intro f hf
    rw [hsplit, map_append, map_cons, nodup_append] at hnd
    rw [decide_eq_true_eq]
    exact fun he => hnd.2.2 f.1 (mem_map_of_mem hf) e.1 (by simp) he
  rw [hsplit, dropWhile_append_of_pos hpre, dropWhile_cons_of_neg (by simp)] at hdrop
  rw [hnext, (List.cons.inj hdrop).2]

/-- **The loop over the data of a key** visits its stack, each element once, and ends. -/
theorem Hashmap.Reps.forEachData (h : m.Reps S) (key : CString) {k : ℕ}
    (hk : m.live.length < k) :
    hashmapForEachData m key k none = some ((S key).map Prod.fst) := by
  obtain ⟨es, h, rfl⟩ := h
  have hnd : ((stackOf m.key m.data es key).map Prod.fst).Nodup := by
    rw [stackOf, List.map_map]
    have hid : (Prod.fst ∘ fun x => (x, m.data x)) = id := rfl
    rw [hid, List.map_id]
    exact h.nodup.filter _
  have hlen : (stackOf m.key m.data es key).length < k := by
    rw [stackOf, length_map]
    exact lt_of_le_of_lt (h.length_le _) hk
  -- from an element on, by induction on what is below it
  have hfrom : ∀ (post pre : List (Element × ℕ)) (e : Element × ℕ) (k : ℕ),
      stackOf m.key m.data es key = pre ++ e :: post → post.length < k →
      hashmapForEachData m key k (some e.1) = some (post.map Prod.fst) := by
    intro post
    induction post with
    | nil =>
      intro pre e k hsplit hk
      obtain ⟨k, rfl⟩ : ∃ j, k = j + 1 := ⟨k - 1, by simp only [length_nil] at hk; omega⟩
      obtain ⟨hnext, hmem⟩ := h.next_of_split hnd hsplit
      simp [hashmapForEachData, tuyaHashmapDataTraversal, hnext, hmem]
    | cons e' post ih =>
      intro pre e k hsplit hk
      obtain ⟨k, rfl⟩ : ∃ j, k = j + 1 := ⟨k - 1, by simp only [length_cons] at hk; omega⟩
      obtain ⟨hnext, hmem⟩ := h.next_of_split hnd hsplit
      have hrest := ih (pre ++ [e]) e' k (by simpa using hsplit) (by simpa using hk)
      simp [hashmapForEachData, tuyaHashmapDataTraversal, hnext, hmem, hrest]
  obtain ⟨k, rfl⟩ : ∃ j, k = j + 1 := ⟨k - 1, by omega⟩
  rw [hashmapForEachData, tuyaHashmapDataTraversal, (h.top key).1]
  generalize hT : stackOf m.key m.data es key = T at *
  cases T with
  | nil => simp
  | cons e T =>
    have hrest := hfrom T [] e k rfl (by simpa using hlen)
    simp [hrest]

end Calls

/-! ### Every run -/

/-- The elements, counted key by key. -/
theorem length_eq_sum_stackOf (key : Element → CString) (data : Element → ℕ) (es : List Element)
    (ks : Finset CString) (hks : ∀ x ∈ es, key x ∈ ks) :
    es.length = ∑ k ∈ ks, (stackOf key data es k).length := by
  induction es with
  | nil => simp [stackOf]
  | cons x es ih =>
    have hone : ∀ k, (stackOf key data (x :: es) k).length =
        (stackOf key data es k).length + if key x = k then 1 else 0 := by
      intro k
      by_cases hk : key x = k
      · simp [stackOf, hk]
      · simp [stackOf, hk]
    simp only [hone, Finset.sum_add_distrib, Finset.sum_ite_eq, if_pos (hks x mem_cons_self),
      length_cons]
    rw [ih fun y hy => hks y (mem_cons_of_mem _ hy)]

theorem Hashmap.Reps.length_eq {m : Hashmap} {S : Stacks} (h : m.Reps S) (ks : Finset CString)
    (hks : ∀ k ∉ ks, S k = []) : tuyaHashmapLength m = ∑ k ∈ ks, ((S k).length : ℤ) := by
  obtain ⟨es, h, rfl⟩ := h
  rw [tuyaHashmapLength, h.size, length_eq_sum_stackOf m.key m.data es ks]
  · exact Nat.cast_sum _ _
  · intro x hx
    by_contra hk
    have hmem : (x, m.data x) ∈ stackOf m.key m.data es (m.key x) := mem_stackOf.mpr ⟨hx, rfl, rfl⟩
    rw [hks _ hk] at hmem
    simp at hmem

/-- A run, by induction on its calls. -/
theorem Hashmap.Reps.runs {m : Hashmap} {S : Stacks} (h : m.Reps S) {cs : List MapCall}
    (hp : EachCall MapCall.Promised cs S) :
    (∃ m', Hashmap.runs cs m = some ((multimapRuns cs S).1, m') ∧ m'.Reps (multimapRuns cs S).2) ↔
      EachCall (MapCall.Matched m.tableSize) cs S := by
  induction cs generalizing m S with
  | nil => exact ⟨fun _ => trivial, fun _ => ⟨m, rfl, h⟩⟩
  | cons c cs ih =>
    obtain ⟨hp1, hp2⟩ := hp
    by_cases hm : c.Matched m.tableSize S
    · obtain ⟨m', hrun, h', hsize⟩ := h.step hp1 hm
      have hrest := ih h' hp2
      rw [hsize] at hrest
      simp only [EachCall, hm, true_and, ← hrest, Hashmap.runs, hrun, bind_eq_bind,
        bind_some, multimapRuns]
      refine exists_congr fun m'' => and_congr_left fun _ => ?_
      cases Hashmap.runs cs m' with
      | none => simp
      | some rs => simp [Prod.ext_iff]
    · -- the first remove that goes wrong returns another code
      refine ⟨fun ⟨m'', hruns, _⟩ => ?_, fun hall => absurd hall.1 hm⟩
      obtain ⟨out, m', hrun, hne⟩ := h.unmatched hm
      simp only [Hashmap.runs, hrun, bind_eq_bind, bind_some, multimapRuns] at hruns
      cases hrest : Hashmap.runs cs m' with
      | none => simp [hrest] at hruns
      | some rs =>
        simp [hrest, Prod.ext_iff] at hruns
        exact absurd hruns.1.1 hne

theorem zero_notMem_mapKeyA : (0 : UInt8) ∉ [97] := by decide

/-- The key `"a"`. -/
def mapKeyA : CString := ⟨[97], zero_notMem_mapKeyA⟩

/-- The key `"b"`. -/
def mapKeyB : CString := ⟨[98], by decide⟩

end Tuya

end Gd32
