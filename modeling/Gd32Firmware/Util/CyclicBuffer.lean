import Gd32Firmware.Lib.Ring
import Mathlib.Algebra.Group.Nat.Defs
import Mathlib.Data.Int.Notation

/-!
# The cyclic buffer of the SDK

`cyclic_buffer.c`: a ring of `len` bytes with 16-bit indices. Sums are formed in `int`, which is
wider, and reduced modulo `len`. A call is served as a whole or not at all, so that the buffer is
a first-in first-out queue whose calls succeed exactly if they can be served
(`cyclicBuf_refines_fifo`).
-/

namespace Gd32

open Ring

variable {k : ℕ}

/-! ### The buffer -/

/-- A value stored in a `uint16_t`. -/
def u16 (n : ℕ) : ℕ := n % 2 ^ 16

theorem u16_of_lt {n : ℕ} (h : n < 2 ^ 16) : u16 n = n := Nat.mod_eq_of_lt h

/-- `cyclic_buf_t`; the indices and the length are `uint16_t`. -/
structure CyclicBuf where
  readIdx : ℕ
  writeIdx : ℕ
  len : ℕ
  buf : ℕ → UInt8

/-- `cyclic_buf_init`, when `sys_zalloc` hands out memory, which is zeroed. -/
def cyclicBufInit (len : ℕ) : CyclicBuf := ⟨0, 0, len, fun _ => 0⟩

/-- The remainder of two values of type `int`. -/
def intMod (a : ℤ) (n : ℕ) : ℕ := u16 (a.tmod n).toNat

def cyclicBufCount (c : CyclicBuf) : ℕ := intMod (c.writeIdx + c.len - c.readIdx) c.len

def cyclicBufRoom (c : CyclicBuf) : ℕ := intMod (c.readIdx + c.len - (c.writeIdx + 1)) c.len

/-- The bytes that `cyclic_buf_peek` and `cyclic_buf_read` copy. -/
def cyclicBytes (c : CyclicBuf) (len : ℕ) : List UInt8 :=
  if c.readIdx + len ≤ c.len then slice c.buf c.readIdx len
  else
    let tlen := u16 (c.len - c.readIdx)
    slice c.buf c.readIdx tlen ++ slice c.buf 0 (len - tlen)

/-- Where an index is after it has been moved over some bytes. -/
def cyclicMove (c : CyclicBuf) (idx len : ℕ) : ℕ :=
  (if idx + len ≤ c.len then u16 (idx + len) else u16 (len - u16 (c.len - idx))) % c.len

/-- `cyclic_buf_peek`: the bytes, or `none` for `false`. -/
def cyclicBufPeek (c : CyclicBuf) (len : ℕ) : Option (List UInt8) :=
  if cyclicBufCount c < len then none else some (cyclicBytes c len)

def cyclicBufRead (c : CyclicBuf) (len : ℕ) : Option (List UInt8) × CyclicBuf :=
  if cyclicBufCount c < len then (none, c)
  else (some (cyclicBytes c len), { c with readIdx := cyclicMove c c.readIdx len })

def cyclicBufDrop (c : CyclicBuf) (len : ℕ) : Bool × CyclicBuf :=
  if cyclicBufCount c < len then (false, c)
  else (true, { c with readIdx := cyclicMove c c.readIdx len })

def cyclicBufClear (c : CyclicBuf) : CyclicBuf :=
  { c with buf := blit c.buf 0 (List.replicate c.len 0), readIdx := 0, writeIdx := 0 }

def cyclicBufWrite (c : CyclicBuf) (data : List UInt8) : Bool × CyclicBuf :=
  if cyclicBufRoom c < data.length then (false, c)
  else
    let buf :=
      if c.writeIdx + data.length ≤ c.len then blit c.buf c.writeIdx data
      else
        let tlen := u16 (c.len - c.writeIdx)
        blit (blit c.buf c.writeIdx (data.take tlen)) 0 (data.drop tlen)
    (true, { c with buf := buf, writeIdx := cyclicMove c c.writeIdx data.length })

/-! ### The queue a buffer stands for -/

/-- The buffer holds the bytes `q`, the oldest one first. -/
structure CyclicBuf.Holds (c : CyclicBuf) (q : List UInt8) : Prop where
  len_lt : c.len < 2 ^ 16
  read_lt : c.readIdx < c.len
  write_lt : c.writeIdx < c.len
  length_lt : q.length < c.len
  write_eq : c.writeIdx = (c.readIdx + q.length) % c.len
  bytes : window c.buf c.len c.readIdx q.length = q

theorem intMod_of_nonneg {a : ℤ} {n : ℕ} (h : a = k) (hn : 0 < n) (hlt : n < 2 ^ 16) :
    intMod a n = k % n := by
  have hk : k % n < n := Nat.mod_lt _ hn
  rw [intMod, h, ← Int.ofNat_tmod, Int.toNat_natCast, u16_of_lt (by omega)]

namespace CyclicBuf.Holds

variable {c : CyclicBuf} {q : List UInt8} (h : c.Holds q)
include h

/-- The two ways in which the indices can lie. -/
theorem cases : (c.writeIdx = c.readIdx + q.length ∧ c.readIdx + q.length < c.len) ∨
    (c.writeIdx + c.len = c.readIdx + q.length ∧ c.len ≤ c.readIdx + q.length) := by
  have hwrite := h.write_eq
  have hread := h.read_lt
  have hlen := h.length_lt
  rcases Nat.lt_or_ge (c.readIdx + q.length) c.len with hlt | hge
  · rw [Nat.mod_eq_of_lt hlt] at hwrite
    exact Or.inl ⟨hwrite, hlt⟩
  · rw [show c.readIdx + q.length = (c.readIdx + q.length - c.len) + c.len by omega,
      Nat.add_mod_right, Nat.mod_eq_of_lt (by omega)] at hwrite
    exact Or.inr ⟨by omega, hge⟩

theorem count_eq : cyclicBufCount c = q.length := by
  have hlt := h.len_lt
  have hq := h.length_lt
  rw [cyclicBufCount]
  rcases h.cases with ⟨hc, hin⟩ | ⟨hc, hwrap⟩
  · rw [intMod_of_nonneg (show _ = ((q.length + c.len : ℕ) : ℤ) by omega) (by omega) hlt,
      Nat.add_mod_right, Nat.mod_eq_of_lt hq]
  · rw [intMod_of_nonneg (show _ = ((q.length : ℕ) : ℤ) by omega) (by omega) hlt,
      Nat.mod_eq_of_lt hq]

theorem room_eq : cyclicBufRoom c = c.len - 1 - q.length := by
  have hlt := h.len_lt
  have hq := h.length_lt
  rw [cyclicBufRoom]
  rcases h.cases with ⟨hc, hin⟩ | ⟨hc, hwrap⟩
  · rw [intMod_of_nonneg (show _ = ((c.len - 1 - q.length : ℕ) : ℤ) by omega) (by omega) hlt,
      Nat.mod_eq_of_lt (by omega)]
  · rw [intMod_of_nonneg (show _ = ((c.len - 1 - q.length + c.len : ℕ) : ℤ) by omega) (by omega) hlt,
      Nat.add_mod_right, Nat.mod_eq_of_lt (by omega)]

/-- An index moves around the end. -/
theorem move_eq {idx : ℕ} (hidx : idx < c.len) (hk : k < c.len) :
    cyclicMove c idx k = (idx + k) % c.len := by
  have hlt := h.len_lt
  rw [cyclicMove]
  split
  · rw [u16_of_lt (by omega)]
  · rw [u16_of_lt (show c.len - idx < 2 ^ 16 by omega), u16_of_lt (by omega),
      show idx + k = (k - (c.len - idx)) + c.len by omega, Nat.add_mod_right]

/-- What is copied out is the front of the queue. -/
theorem bytes_eq (hk : k ≤ q.length) : cyclicBytes c k = q.take k := by
  have hlt := h.len_lt
  have hread := h.read_lt
  have hq := h.length_lt
  have htake : q.take k = window c.buf c.len c.readIdx k := by
    conv_lhs => rw [← h.bytes]
    exact take_window _ _ _ hk
  rw [cyclicBytes, htake]
  split
  · next hin => rw [window_of_le _ hin]
  · rw [u16_of_lt (show c.len - c.readIdx < 2 ^ 16 by omega),
      window_of_wrap _ hread (by omega) (by omega)]

/-- The front of the queue is removed. -/
theorem advance (hk : k ≤ q.length) :
    ({ c with readIdx := cyclicMove c c.readIdx k } : CyclicBuf).Holds (q.drop k) := by
  have hq := h.length_lt
  have hread := h.read_lt
  rw [h.move_eq hread (by omega)]
  refine ⟨h.len_lt, Nat.mod_lt _ (by omega), h.write_lt, ?_, ?_, ?_⟩
  · change (q.drop k).length < c.len
    rw [List.length_drop]
    omega
  · change c.writeIdx = ((c.readIdx + k) % c.len + (q.drop k).length) % c.len
    rw [List.length_drop, Nat.mod_add_mod, Nat.add_assoc, Nat.add_sub_cancel' hk]
    exact h.write_eq
  · rw [List.length_drop]
    conv_rhs => rw [← h.bytes]
    exact (drop_window _ _ _ hk).symm

/-- New bytes go to the end of the queue. -/
theorem write {xs : List UInt8} (hroom : xs.length ≤ c.len - 1 - q.length) :
    ∃ c', cyclicBufWrite c xs = (true, c') ∧ c'.len = c.len ∧ c'.Holds (q ++ xs) := by
  have hlt := h.len_lt
  have hq := h.length_lt
  have hwrite := h.write_lt
  have hcopy : (if c.writeIdx + xs.length ≤ c.len then blit c.buf c.writeIdx xs
      else blit (blit c.buf c.writeIdx (xs.take (u16 (c.len - c.writeIdx)))) 0
        (xs.drop (u16 (c.len - c.writeIdx)))) = deposit c.buf c.len c.writeIdx xs := by
    rw [deposit, u16_of_lt (show c.len - c.writeIdx < 2 ^ 16 by omega)]
  have hrun : cyclicBufWrite c xs = (true, { c with
      buf := deposit c.buf c.len c.writeIdx xs
      writeIdx := (c.writeIdx + xs.length) % c.len }) := by
    rw [cyclicBufWrite, h.room_eq, if_neg (by omega), ← hcopy, ← h.move_eq hwrite (by omega)]
  refine ⟨_, hrun, rfl, ?_⟩
  refine ⟨hlt, h.read_lt, Nat.mod_lt _ (by omega), ?_, ?_, ?_⟩
  · change (q ++ xs).length < c.len
    rw [List.length_append]
    omega
  · change (c.writeIdx + xs.length) % c.len = (c.readIdx + (q ++ xs).length) % c.len
    rw [List.length_append, h.write_eq, Nat.mod_add_mod, Nat.add_assoc]
  · change window (deposit c.buf c.len c.writeIdx xs) c.len c.readIdx (q ++ xs).length = _
    rw [List.length_append, h.write_eq, window_deposit (by omega) (by omega), h.bytes]

/-- A peek that can be served. -/
theorem peek_eq (hk : k ≤ q.length) : cyclicBufPeek c k = some (q.take k) := by
  rw [cyclicBufPeek, h.count_eq, if_neg (by omega), h.bytes_eq hk]

/-- A read that can be served. -/
theorem read_eq (hk : k ≤ q.length) :
    ∃ c', cyclicBufRead c k = (some (q.take k), c') ∧ c'.len = c.len ∧ c'.Holds (q.drop k) := by
  refine ⟨_, ?_, ?_, h.advance hk⟩
  · rw [cyclicBufRead, h.count_eq, if_neg (by omega), h.bytes_eq hk]
  · rfl

/-- A read that has to wait. -/
theorem read_none (hk : q.length < k) : cyclicBufRead c k = (none, c) := by
  rw [cyclicBufRead, h.count_eq, if_pos hk]

/-- A drop that can be served. -/
theorem drop_eq (hk : k ≤ q.length) :
    ∃ c', cyclicBufDrop c k = (true, c') ∧ c'.len = c.len ∧ c'.Holds (q.drop k) := by
  refine ⟨_, ?_, ?_, h.advance hk⟩
  · rw [cyclicBufDrop, h.count_eq, if_neg (by omega)]
  · rfl

end CyclicBuf.Holds

theorem holds_cyclicBufInit {len : ℕ} (hpos : 1 ≤ len) (hlt : len ≤ 65535) :
    (cyclicBufInit len).Holds [] :=
  ⟨Nat.lt_of_le_of_lt hlt (by decide), hpos, hpos, hpos, (Nat.zero_mod _).symm, rfl⟩

/-! ### Runs -/

/-- A call on a cyclic buffer. -/
inductive CyclicOp where
  /-- `cyclic_buf_write`. -/
  | write (data : List UInt8)
  /-- `cyclic_buf_read`. -/
  | read (len : ℕ)
  /-- `cyclic_buf_peek`. -/
  | peek (len : ℕ)
  /-- `cyclic_buf_drop`. -/
  | drop (len : ℕ)
  /-- `cyclic_buf_clear`. -/
  | clear

/-- A call: whether it succeeds, the bytes it hands out, and the buffer after it. -/
def CyclicOp.run (c : CyclicBuf) : CyclicOp → (Bool × List UInt8) × CyclicBuf
  | .write data => (((cyclicBufWrite c data).1, []), (cyclicBufWrite c data).2)
  | .read len =>
    (((cyclicBufRead c len).1.isSome, (cyclicBufRead c len).1.getD []), (cyclicBufRead c len).2)
  | .peek len => (((cyclicBufPeek c len).isSome, (cyclicBufPeek c len).getD []), c)
  | .drop len => (((cyclicBufDrop c len).1, []), (cyclicBufDrop c len).2)
  | .clear => ((true, []), cyclicBufClear c)

/-- The same call on a first-in first-out queue that has room for `cap` bytes. -/
def CyclicOp.spec (cap : ℕ) (q : List UInt8) : CyclicOp → (Bool × List UInt8) × List UInt8
  | .write data => if data.length ≤ cap - q.length then ((true, []), q ++ data) else ((false, []), q)
  | .read len =>
    if len ≤ q.length then ((true, q.take len), q.drop len) else ((false, []), q)
  | .peek len => if len ≤ q.length then ((true, q.take len), q) else ((false, []), q)
  | .drop len => if len ≤ q.length then ((true, []), q.drop len) else ((false, []), q)
  | .clear => ((true, []), [])

/-- Calls one after the other. -/
def runCyclic : List CyclicOp → CyclicBuf → List (Bool × List UInt8) × CyclicBuf
  | [], c => ([], c)
  | op :: ops, c =>
    let (ret, c') := op.run c
    let (rets, c'') := runCyclic ops c'
    (ret :: rets, c'')

/-- The same calls on a queue. -/
def runCyclicFifo (cap : ℕ) : List CyclicOp → List UInt8 → List (Bool × List UInt8) × List UInt8
  | [], q => ([], q)
  | op :: ops, q =>
    let (ret, q') := op.spec cap q
    let (rets, q'') := runCyclicFifo cap ops q'
    (ret :: rets, q'')

/-- **One call** does to the buffer what it does to the queue, and a call that fails leaves the
buffer as it is. -/
theorem CyclicBuf.Holds.step {c : CyclicBuf} {q : List UInt8} (h : c.Holds q) (op : CyclicOp) :
    (op.run c).1 = (op.spec (c.len - 1) q).1 ∧ (op.run c).2.len = c.len ∧
      (op.run c).2.Holds (op.spec (c.len - 1) q).2 ∧
      ((op.run c).1.1 = false → (op.run c).2 = c) := by
  cases op with
  | write data =>
    rw [CyclicOp.run, CyclicOp.spec]
    split
    · next hroom =>
      obtain ⟨c', hrun, hlen, hholds⟩ := h.write hroom
      rw [hrun]
      exact ⟨rfl, hlen, hholds, fun hf => absurd hf (by simp)⟩
    · next hroom =>
      rw [cyclicBufWrite, h.room_eq, if_pos (by omega)]
      exact ⟨rfl, rfl, h, fun _ => rfl⟩
  | read len =>
    rw [CyclicOp.run, cyclicBufRead, CyclicOp.spec, h.count_eq]
    split
    · next hlt =>
      rw [if_neg (by omega)]
      exact ⟨rfl, rfl, h, fun _ => rfl⟩
    · next hlt =>
      have hle : len ≤ q.length := by omega
      rw [if_pos hle, h.bytes_eq hle]
      exact ⟨rfl, rfl, h.advance hle, fun hf => absurd hf (by simp)⟩
  | peek len =>
    rw [CyclicOp.run, cyclicBufPeek, CyclicOp.spec, h.count_eq]
    split
    · next hlt =>
      rw [if_neg (by omega)]
      exact ⟨rfl, rfl, h, fun _ => rfl⟩
    · next hlt =>
      have hle : len ≤ q.length := by omega
      rw [if_pos hle, h.bytes_eq hle]
      exact ⟨rfl, rfl, h, fun _ => rfl⟩
  | drop len =>
    rw [CyclicOp.run, cyclicBufDrop, CyclicOp.spec, h.count_eq]
    split
    · next hlt =>
      rw [if_neg (by omega)]
      exact ⟨rfl, rfl, h, fun _ => rfl⟩
    · next hlt =>
      have hle : len ≤ q.length := by omega
      rw [if_pos hle]
      exact ⟨rfl, rfl, h.advance hle, fun hf => absurd hf (by simp)⟩
  | clear =>
    have hpos : 0 < c.len := by
      have := h.read_lt
      omega
    exact ⟨rfl, rfl, ⟨h.len_lt, hpos, hpos, hpos, (Nat.zero_mod _).symm, rfl⟩,
      fun hf => absurd hf (by simp [CyclicOp.run])⟩

/-- **A run** does to the buffer what it does to the queue. -/
theorem CyclicBuf.Holds.run {c : CyclicBuf} {q : List UInt8} (h : c.Holds q) (ops : List CyclicOp) :
    (runCyclic ops c).1 = (runCyclicFifo (c.len - 1) ops q).1 ∧ (runCyclic ops c).2.len = c.len ∧
      (runCyclic ops c).2.Holds (runCyclicFifo (c.len - 1) ops q).2 := by
  induction ops generalizing c q with
  | nil => exact ⟨rfl, rfl, h⟩
  | cons op ops ih =>
    obtain ⟨hret, hlen, hholds, -⟩ := h.step op
    obtain ⟨hrets, hlen', hholds'⟩ := ih hholds
    rw [hlen] at hrets hlen' hholds'
    exact ⟨congrArg₂ List.cons hret hrets, hlen', hholds'⟩

/-- **The cyclic buffer refines a queue of bytes** whose calls are served as a whole or fail. In
every run the indices stay inside the array, the bytes in use and the room add up, and a call that
fails changes neither the array nor the indices. -/
theorem cyclicBuf_refines_fifo {len : ℕ} (hpos : 1 ≤ len) (hlt : len ≤ 65535)
    (ops : List CyclicOp) :
    ∃ rets c q, runCyclic ops (cyclicBufInit len) = (rets, c) ∧
      runCyclicFifo (len - 1) ops [] = (rets, q) ∧ c.readIdx < len ∧ c.writeIdx < len ∧
      cyclicBufCount c = q.length ∧ cyclicBufCount c + cyclicBufRoom c = len - 1 ∧
      window c.buf len c.readIdx q.length = q ∧
      ∀ op : CyclicOp, (op.run c).1.1 = false → (op.run c).2 = c := by
  have hstart : (cyclicBufInit len).Holds [] := holds_cyclicBufInit hpos hlt
  obtain ⟨hrets, hlen, hholds⟩ := hstart.run ops
  change (runCyclic ops _).2.len = len at hlen
  have hread := hholds.read_lt
  have hwrite := hholds.write_lt
  have hq := hholds.length_lt
  have hbytes := hholds.bytes
  rw [hlen] at hread hwrite hq hbytes
  refine ⟨_, _, _, rfl, Prod.ext hrets.symm rfl, hread, hwrite, hholds.count_eq, ?_, hbytes,
    fun op => (hholds.step op).2.2.2⟩
  rw [hholds.count_eq, hholds.room_eq, hlen]
  omega

/-- A buffer of four bytes: a write that does not fit fails, and bytes come out around the end. -/
theorem cyclicBuf_refines_fifo_four :
    ∃ c, runCyclic [.write [1, 2, 3, 4], .write [1, 2, 3], .drop 2, .write [5, 6], .read 3]
        (cyclicBufInit 4) =
      ([(false, []), (true, []), (true, []), (true, []), (true, [3, 5, 6])], c) := by
  obtain ⟨rets, c, q, hrun, hfifo, -⟩ := @cyclicBuf_refines_fifo 4 (by decide) (by decide)
    [.write [1, 2, 3, 4], .write [1, 2, 3], .drop 2, .write [5, 6], .read 3]
  refine ⟨c, hrun.trans ?_⟩
  rw [← (Prod.mk.inj hfifo).1]
  rfl

end Gd32
