import Gd32Firmware.Config
import Gd32Firmware.Lib.Ring

/-!
# The ring buffer of the adapter

`tuya_ringbuf.c`: a ring of `len` bytes with a position `in` to write at and a position `out` to
read from. The two are equal when the ring is empty, so that it never holds more than `len - 1`
bytes. Every transfer is cut in two at the end of the array; the position is then reset in two
ways, to what the second part left or to zero when the first part ended at the end exactly.

All operations together are the ones of a first-in first-out queue of bytes that accepts what fits
(`ringBuff_refines_fifo`).
-/

namespace Gd32.Tuya

open Ring List

/-! ### The buffer -/

/-- `RINGBUFF_TYPE_E`. -/
inductive RingbuffType where
  | overflowStop
  | overflowCoverage
  deriving DecidableEq, Repr

/-- `__RINGBUFF_T`; the positions and the length are `uint32_t`. -/
structure RingBuff where
  /-- `in`, the position of input. -/
  inPos : ℕ
  /-- `out`, the position of output. -/
  out : ℕ
  /-- `len`, the length of `buff`. -/
  len : ℕ
  buff : ℕ → UInt8

/-- `__ringbuff_init`. -/
def RingBuff.init (r : RingBuff) (len : ℕ) : RingBuff := { r with inPos := 0, out := 0, len := len }

/-- `tuya_ring_buff_create`; `mem` is the memory that the allocator hands out, if it does. -/
def tuyaRingBuffCreate (len : ℕ) (type : RingbuffType) (mem : Option (ℕ → UInt8)) :
    Except OprtErr RingBuff :=
  if type = .overflowCoverage then .error .notSupported
  else if len = 0 then .error .invalidParm
  else
    match mem with
    | none => .error .mallocFailed
    | some buff => .ok (RingBuff.init ⟨0, 0, 0, buff⟩ len)

def tuyaRingBuffReset (r : RingBuff) : RingBuff := r.init r.len

def tuyaRingBuffFreeSizeGet (r : RingBuff) : ℕ :=
  let size :=
    if r.inPos = r.out then r.len
    else if r.inPos < r.out then u32sub r.out r.inPos
    else u32sub r.len (u32sub r.inPos r.out)
  u32sub size 1

def tuyaRingBuffUsedSizeGet (r : RingBuff) : ℕ :=
  if r.inPos = r.out then 0
  else if r.out < r.inPos then u32sub r.inPos r.out
  else u32sub r.len (u32sub r.out r.inPos)

/-- `tuya_ring_buff_write`: the number of bytes that were written. The data is `none` for a null
pointer. -/
def tuyaRingBuffWrite (data : Option (List UInt8)) (r : RingBuff) : ℕ × RingBuff :=
  match data with
  | none => (0, r)
  | some pdata =>
    let len := min (tuyaRingBuffFreeSizeGet r) pdata.length
    if len = 0 then (0, r)
    else
      -- write data to remaining buff
      let tmpLen := min (u32sub r.len r.inPos) len
      let buff := blit r.buff r.inPos (pdata.take tmpLen)
      let inPos := u32 (r.inPos + tmpLen)
      let len := u32sub len tmpLen
      -- write remaining data to beginning of buffer
      let buff := if 0 < len then blit buff 0 ((pdata.drop tmpLen).take len) else buff
      let inPos := if 0 < len then len else inPos
      -- buff loopback check
      let inPos := if r.len ≤ inPos then 0 else inPos
      (u32 (tmpLen + len), { r with inPos := inPos, buff := buff })

/-- The bytes that `tuya_ring_buff_read` and `tuya_ring_buff_peek` copy, for a length that is
available, and the length again. -/
def ringTransfer (r : RingBuff) (len : ℕ) : ℕ × List UInt8 :=
  let tmpLen := min (u32sub r.len r.out) len
  let rest := u32sub len tmpLen
  (u32 (tmpLen + rest), slice r.buff r.out tmpLen ++ if 0 < rest then slice r.buff 0 rest else [])

/-- Where `tuya_ring_buff_read` and `tuya_ring_buff_discard` leave the position of output. -/
def ringAdvance (r : RingBuff) (len : ℕ) : RingBuff :=
  let tmpLen := min (u32sub r.len r.out) len
  let out := u32 (r.out + tmpLen)
  let len := u32sub len tmpLen
  let out := if 0 < len then len else out
  { r with out := if r.len ≤ out then 0 else out }

/-- `tuya_ring_buff_read`: the number of bytes, and the bytes; `dst` says that the pointer is not
null. -/
def tuyaRingBuffRead (dst : Bool) (len : ℕ) (r : RingBuff) : (ℕ × List UInt8) × RingBuff :=
  if ¬dst ∨ len = 0 then ((0, []), r)
  else
    let len := min (tuyaRingBuffUsedSizeGet r) len
    if len = 0 then ((0, []), r) else (ringTransfer r len, ringAdvance r len)

def tuyaRingBuffDiscard (len : ℕ) (r : RingBuff) : ℕ × RingBuff :=
  if len = 0 then (0, r)
  else
    let len := min (tuyaRingBuffUsedSizeGet r) len
    if len = 0 then (0, r) else ((ringTransfer r len).1, ringAdvance r len)

def tuyaRingBuffPeek (dst : Bool) (len : ℕ) (r : RingBuff) : ℕ × List UInt8 :=
  if ¬dst ∨ len = 0 then (0, [])
  else
    let len := min len (tuyaRingBuffUsedSizeGet r)
    if len = 0 then (0, []) else ringTransfer r len

/-! ### The queue a buffer stands for -/

/-- The buffer holds the bytes `q`, the oldest one first. -/
structure RingBuff.Holds (r : RingBuff) (q : List UInt8) : Prop where
  len_lt : r.len < 2 ^ 32
  in_lt : r.inPos < r.len
  out_lt : r.out < r.len
  length_lt : q.length < r.len
  in_eq : r.inPos = (r.out + q.length) % r.len
  bytes : window r.buff r.len r.out q.length = q

namespace RingBuff.Holds

variable {r : RingBuff} {q : List UInt8} (h : r.Holds q)
include h

/-- The two ways in which the positions can lie. -/
theorem cases : (r.inPos = r.out + q.length ∧ r.out + q.length < r.len) ∨
    (r.inPos + r.len = r.out + q.length ∧ r.len ≤ r.out + q.length) := by
  have hin := h.in_eq
  have hout := h.out_lt
  have hlen := h.length_lt
  rcases lt_or_ge (r.out + q.length) r.len with hlt | hge
  · rw [Nat.mod_eq_of_lt hlt] at hin
    exact Or.inl ⟨hin, hlt⟩
  · rw [show r.out + q.length = (r.out + q.length - r.len) + r.len by omega, Nat.add_mod_right,
      Nat.mod_eq_of_lt (by omega)] at hin
    exact Or.inr ⟨by omega, hge⟩

/-- **The bytes in use.** -/
theorem used_eq : tuyaRingBuffUsedSizeGet r = q.length := by
  have hlen := h.len_lt
  have hout := h.out_lt
  have hq := h.length_lt
  rw [tuyaRingBuffUsedSizeGet]
  rcases h.cases with ⟨hc, hlt⟩ | ⟨hc, hge⟩
  · split
    · omega
    · rw [if_pos (by omega), u32sub_of_le (by omega) (by omega)]
      omega
  · rw [if_neg (by omega), if_neg (by omega),
      u32sub_of_le (show r.inPos ≤ r.out by omega) (by omega),
      u32sub_of_le (show r.out - r.inPos ≤ r.len by omega) hlen]
    omega

/-- **The room that is left.** -/
theorem free_eq : tuyaRingBuffFreeSizeGet r = r.len - 1 - q.length := by
  have hlen := h.len_lt
  have hout := h.out_lt
  have hq := h.length_lt
  rw [tuyaRingBuffFreeSizeGet]
  rcases h.cases with ⟨hc, hlt⟩ | ⟨hc, hge⟩
  · split
    · rw [u32sub_of_le (by omega) (by omega)]
      omega
    · rw [if_neg (by omega), u32sub_of_le (show r.out ≤ r.inPos by omega) (by omega),
        u32sub_of_le (show r.inPos - r.out ≤ r.len by omega) hlen,
        u32sub_of_le (by omega) (by omega)]
      omega
  · rw [if_neg (by omega), if_pos (by omega), u32sub_of_le (show r.inPos ≤ r.out by omega) (by omega),
      u32sub_of_le (by omega) (by omega)]
    omega

/-- What is copied out is the front of the queue. -/
theorem transfer_eq {k : ℕ} (hk : k ≤ q.length) : ringTransfer r k = (k, q.take k) := by
  have hlen := h.len_lt
  have hout := h.out_lt
  have hq := h.length_lt
  have htake : q.take k = window r.buff r.len r.out k := by
    conv_lhs => rw [← h.bytes]
    exact take_window _ _ _ hk
  rw [ringTransfer, u32sub_of_le (show r.out ≤ r.len by omega) hlen]
  rcases lt_or_ge (r.len - r.out) k with hwrap | hflat
  · rw [min_eq_left (by omega), u32sub_of_le (by omega) (by omega), if_pos (by omega),
      u32_of_lt (by omega), htake, window_of_wrap _ hout (by omega) (by omega)]
    congr 1
    omega
  · rw [Nat.min_eq_right hflat, u32sub_of_le (Nat.le_refl k) (by omega), Nat.sub_self, if_neg (by omega),
      append_nil, Nat.add_zero, u32_of_lt (by omega), htake, window_of_le _ (by omega)]

/-- The position of output moves around the end. -/
theorem advance_eq {k : ℕ} (hk : k ≤ q.length) :
    ringAdvance r k = { r with out := (r.out + k) % r.len } := by
  have hlen := h.len_lt
  have hout := h.out_lt
  have hq := h.length_lt
  rw [ringAdvance, u32sub_of_le (show r.out ≤ r.len by omega) hlen]
  rcases lt_or_ge (r.len - r.out) k with hwrap | hflat
  · rw [min_eq_left (by omega), u32sub_of_le (by omega) (by omega),
      if_pos (show 0 < k - (r.len - r.out) by omega),
      if_neg (show ¬r.len ≤ k - (r.len - r.out) by omega),
      show r.out + k = (k - (r.len - r.out)) + r.len by omega, Nat.add_mod_right,
      Nat.mod_eq_of_lt (by omega)]
  · rw [Nat.min_eq_right hflat, u32sub_of_le (Nat.le_refl k) (by omega), Nat.sub_self,
      if_neg (lt_irrefl 0), u32_of_lt (show r.out + k < 2 ^ 32 by omega)]
    split
    · rw [show r.out + k = r.len by omega, Nat.mod_self]
    · rw [Nat.mod_eq_of_lt (by omega)]

/-- The front of the queue is removed. -/
theorem advance {k : ℕ} (hk : k ≤ q.length) : (ringAdvance r k).Holds (q.drop k) := by
  rw [h.advance_eq hk]
  have hpos : 0 < r.len := by
    have := h.out_lt
    omega
  have hq := h.length_lt
  refine ⟨h.len_lt, h.in_lt, Nat.mod_lt _ hpos, ?_, ?_, ?_⟩
  · change (q.drop k).length < r.len
    rw [length_drop]
    omega
  · change r.inPos = ((r.out + k) % r.len + (q.drop k).length) % r.len
    rw [length_drop, Nat.mod_add_mod, Nat.add_assoc, Nat.add_sub_cancel' hk]
    exact h.in_eq
  · rw [length_drop]
    conv_rhs => rw [← h.bytes]
    exact (drop_window _ _ _ hk).symm

end RingBuff.Holds

/-! ### Writing -/

/-- **What is written** is the longest prefix that fits, and it goes to the end of the queue. -/
theorem RingBuff.Holds.write {r : RingBuff} {q : List UInt8} (h : r.Holds q) (xs : List UInt8) :
    ∃ k r', k = min (r.len - 1 - q.length) xs.length ∧ tuyaRingBuffWrite (some xs) r = (k, r') ∧
      r'.len = r.len ∧ r'.Holds (q ++ xs.take k) := by
  have hlen := h.len_lt
  have hin := h.in_lt
  have hout := h.out_lt
  refine ⟨min (r.len - 1 - q.length) xs.length, (tuyaRingBuffWrite (some xs) r).2, rfl, ?_⟩
  rw [tuyaRingBuffWrite, h.free_eq]
  generalize hk : min (r.len - 1 - q.length) xs.length = k
  simp only
  by_cases h0 : k = 0
  · rw [if_pos h0, h0, take_zero, append_nil]
    exact ⟨rfl, rfl, h⟩
  rw [if_neg h0, u32sub_of_le (show r.inPos ≤ r.len by omega) hlen]
  have hkx : (xs.take k).length = k := by
    rw [length_take]
    omega
  -- the array and the position after the copy, in one piece or in two
  have hcopy : (if 0 < u32sub k (min (r.len - r.inPos) k) then
        blit (blit r.buff r.inPos (xs.take (min (r.len - r.inPos) k))) 0
          ((xs.drop (min (r.len - r.inPos) k)).take (u32sub k (min (r.len - r.inPos) k)))
      else blit r.buff r.inPos (xs.take (min (r.len - r.inPos) k))) =
      deposit r.buff r.len r.inPos (xs.take k) := by
    rw [deposit, hkx]
    rcases lt_or_ge (r.len - r.inPos) k with hwrap | hflat
    · rw [min_eq_left (by omega), u32sub_of_le (by omega) (by omega), if_pos (by omega),
        if_neg (by omega), take_take, min_eq_left (by omega), drop_take]
    · rw [Nat.min_eq_right hflat, u32sub_of_le (Nat.le_refl k) (by omega), Nat.sub_self,
        if_neg (by omega), if_pos (by omega)]
  have hpos : (if r.len ≤ (if 0 < u32sub k (min (r.len - r.inPos) k) then
        u32sub k (min (r.len - r.inPos) k) else u32 (r.inPos + min (r.len - r.inPos) k)) then 0
      else if 0 < u32sub k (min (r.len - r.inPos) k) then
        u32sub k (min (r.len - r.inPos) k) else u32 (r.inPos + min (r.len - r.inPos) k)) =
      (r.inPos + k) % r.len := by
    rcases lt_or_ge (r.len - r.inPos) k with hwrap | hflat
    · rw [min_eq_left (by omega), u32sub_of_le (by omega) (by omega),
        if_pos (show 0 < k - (r.len - r.inPos) by omega),
        if_neg (show ¬r.len ≤ k - (r.len - r.inPos) by omega),
        show r.inPos + k = (k - (r.len - r.inPos)) + r.len by omega, Nat.add_mod_right,
        Nat.mod_eq_of_lt (by omega)]
    · rw [Nat.min_eq_right hflat, u32sub_of_le (Nat.le_refl k) (by omega), Nat.sub_self,
        if_neg (lt_irrefl 0), u32_of_lt (show r.inPos + k < 2 ^ 32 by omega)]
      split
      · rw [show r.inPos + k = r.len by omega, Nat.mod_self]
      · rw [Nat.mod_eq_of_lt (by omega)]
  have hcount : u32 (min (r.len - r.inPos) k + u32sub k (min (r.len - r.inPos) k)) = k := by
    rw [u32sub_of_le (by omega) (by omega), u32_of_lt (by omega)]
    omega
  rw [hcopy, hpos, hcount]
  have hlength : (q ++ xs.take k).length = q.length + k := by rw [length_append, hkx]
  refine ⟨rfl, rfl, hlen, Nat.mod_lt _ (by omega), hout, ?_, ?_, ?_⟩
  · rw [hlength]
    change q.length + k < r.len
    omega
  · rw [hlength]
    change (r.inPos + k) % r.len = (r.out + (q.length + k)) % r.len
    rw [h.in_eq, Nat.mod_add_mod, Nat.add_assoc]
  · change window (deposit r.buff r.len r.inPos (xs.take k)) r.len r.out (q ++ xs.take k).length = _
    rw [length_append, h.in_eq, window_deposit (by omega) (by rw [hkx]; omega), h.bytes]

/-! ### Runs -/

/-- A call on a ring buffer. -/
inductive RingOp where
  /-- `tuya_ring_buff_write`, with the data unless the pointer is null. -/
  | write (data : Option (List UInt8))
  /-- `tuya_ring_buff_read`. -/
  | read (dst : Bool) (len : ℕ)
  /-- `tuya_ring_buff_peek`. -/
  | peek (dst : Bool) (len : ℕ)
  /-- `tuya_ring_buff_discard`. -/
  | discard (len : ℕ)
  /-- `tuya_ring_buff_reset`. -/
  | reset

/-- A call: the number it returns, the bytes it hands out, and the buffer after it. -/
def RingOp.run (r : RingBuff) : RingOp → (ℕ × List UInt8) × RingBuff
  | .write data => ((( tuyaRingBuffWrite data r).1, []), (tuyaRingBuffWrite data r).2)
  | .read dst len => tuyaRingBuffRead dst len r
  | .peek dst len => (tuyaRingBuffPeek dst len r, r)
  | .discard len => (((tuyaRingBuffDiscard len r).1, []), (tuyaRingBuffDiscard len r).2)
  | .reset => ((0, []), tuyaRingBuffReset r)

/-- The same call on a first-in first-out queue that has room for `cap` bytes. -/
def RingOp.spec (cap : ℕ) (q : List UInt8) : RingOp → (ℕ × List UInt8) × List UInt8
  | .write none => ((0, []), q)
  | .write (some xs) =>
    ((min (cap - q.length) xs.length, []), q ++ xs.take (cap - q.length))
  | .read dst len => if dst then ((min len q.length, q.take len), q.drop len) else ((0, []), q)
  | .peek dst len => if dst then ((min len q.length, q.take len), q) else ((0, []), q)
  | .discard len => ((min len q.length, []), q.drop len)
  | .reset => ((0, []), [])

/-- Calls one after the other. -/
def runRing : List RingOp → RingBuff → List (ℕ × List UInt8) × RingBuff
  | [], r => ([], r)
  | op :: ops, r =>
    let (ret, r') := op.run r
    let (rets, r'') := runRing ops r'
    (ret :: rets, r'')

/-- The same calls on a queue. -/
def runFifo (cap : ℕ) : List RingOp → List UInt8 → List (ℕ × List UInt8) × List UInt8
  | [], q => ([], q)
  | op :: ops, q =>
    let (ret, q') := op.spec cap q
    let (rets, q'') := runFifo cap ops q'
    (ret :: rets, q'')

theorem drop_min_length (q : List UInt8) (len : ℕ) : q.drop (min q.length len) = q.drop len := by
  rcases le_total len q.length with hle | hle
  · rw [Nat.min_eq_right hle]
  · rw [min_eq_left hle, drop_of_length_le hle, drop_of_length_le (Nat.le_refl _)]

/-- **One call** does to the buffer what it does to the queue. -/
theorem RingBuff.Holds.step {r : RingBuff} {q : List UInt8} (h : r.Holds q) (op : RingOp) :
    (op.run r).1 = (op.spec (r.len - 1) q).1 ∧ (op.run r).2.len = r.len ∧
      (op.run r).2.Holds (op.spec (r.len - 1) q).2 := by
  cases op with
  | write data =>
    rcases data with _ | xs
    · exact ⟨rfl, rfl, h⟩
    · obtain ⟨k, r', hk, hrun, hlen, hholds⟩ := h.write xs
      rw [RingOp.run, hrun, RingOp.spec]
      refine ⟨by rw [hk], hlen, ?_⟩
      have htake : xs.take (r.len - 1 - q.length) = xs.take k := by
        rw [hk, take_eq_take_iff]
        omega
      rw [htake]
      exact hholds
  | read dst len =>
    cases dst with
    | false => exact ⟨rfl, rfl, h⟩
    | true =>
      rw [RingOp.run, tuyaRingBuffRead, RingOp.spec, if_pos rfl, h.used_eq]
      by_cases h0 : len = 0
      · rw [if_pos (Or.inr h0), h0, take_zero, drop_zero, Nat.zero_min]
        exact ⟨rfl, rfl, h⟩
      rw [if_neg (by simp [h0])]
      simp only
      split
      · next hz =>
        have hnil : q = [] := length_eq_zero_iff.mp (by omega)
        rw [hnil]
        rw [hnil] at h
        rw [take_nil, drop_nil, length_nil, Nat.min_zero]
        exact ⟨rfl, rfl, h⟩
      · rw [h.transfer_eq (min_le_left _ _)]
        refine ⟨?_, by rw [ringAdvance], ?_⟩
        · rw [min_comm]
          refine Prod.ext rfl ?_
          rw [take_eq_take_iff]
          omega
        · rw [← drop_min_length q len]
          exact h.advance (min_le_left _ _)
  | peek dst len =>
    cases dst with
    | false => exact ⟨rfl, rfl, h⟩
    | true =>
      rw [RingOp.run, tuyaRingBuffPeek, RingOp.spec, if_pos rfl, h.used_eq]
      by_cases h0 : len = 0
      · rw [if_pos (Or.inr h0), h0, take_zero, Nat.zero_min]
        exact ⟨rfl, rfl, h⟩
      rw [if_neg (by simp [h0])]
      simp only
      split
      · next hz =>
        have hnil : q = [] := length_eq_zero_iff.mp (by omega)
        rw [hnil]
        rw [hnil] at h
        rw [take_nil, length_nil, Nat.min_zero]
        exact ⟨rfl, trivial, h⟩
      · rw [h.transfer_eq (min_le_right _ _)]
        refine ⟨Prod.ext rfl ?_, trivial, h⟩
        rw [take_eq_take_iff]
        omega
  | discard len =>
    rw [RingOp.run, tuyaRingBuffDiscard, RingOp.spec, h.used_eq]
    by_cases h0 : len = 0
    · rw [if_pos h0, h0, drop_zero, Nat.zero_min]
      exact ⟨rfl, rfl, h⟩
    rw [if_neg h0]
    simp only
    split
    · next hz =>
      have hnil : q = [] := length_eq_zero_iff.mp (by omega)
      rw [hnil]
      rw [hnil] at h
      rw [drop_nil, length_nil, Nat.min_zero]
      exact ⟨rfl, rfl, h⟩
    · rw [h.transfer_eq (min_le_left _ _)]
      refine ⟨by rw [min_comm], by rw [ringAdvance], ?_⟩
      rw [← drop_min_length q len]
      exact h.advance (min_le_left _ _)
  | reset =>
    have hpos : 0 < r.len := by
      have := h.out_lt
      omega
    exact ⟨rfl, rfl, h.len_lt, hpos, hpos, hpos, (Nat.zero_mod _).symm, rfl⟩

/-- **A run** does to the buffer what it does to the queue. -/
theorem RingBuff.Holds.run {r : RingBuff} {q : List UInt8} (h : r.Holds q) (ops : List RingOp) :
    (runRing ops r).1 = (runFifo (r.len - 1) ops q).1 ∧ (runRing ops r).2.len = r.len ∧
      (runRing ops r).2.Holds (runFifo (r.len - 1) ops q).2 := by
  induction ops generalizing r q with
  | nil => exact ⟨rfl, rfl, h⟩
  | cons op ops ih =>
    obtain ⟨hret, hlen, hholds⟩ := h.step op
    obtain ⟨hrets, hlen', hholds'⟩ := ih hholds
    rw [hlen] at hrets hlen' hholds'
    exact ⟨congrArg₂ List.cons hret hrets, hlen', hholds'⟩

end Gd32.Tuya
