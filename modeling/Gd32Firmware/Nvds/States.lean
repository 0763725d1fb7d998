import Gd32Firmware.Nvds.Types
import Mathlib.Data.List.GetD

/-!
# The table of entry states

Eight 32-bit words hold two bits for each entry of a page. An erased table has every entry
free; using an entry clears its low bit and giving it up clears the other one, so a table is
updated in place by programming it again. `stateAt` and `setState` are the
shifts and masks of the source; their two laws are those of a map
(`stateAt_setState_self`, `stateAt_setState_of_ne`), and
`zipWith_tableBytes` says which updates only clear bits.
-/

namespace Gd32.Nvds

open LittleEndian List

/-- `enum entry_state`; `ENTRY_ERROR` is never stored. -/
inductive EntryState
  | free
  | used
  | updated
  | illegal
  deriving DecidableEq, Repr

/-- The two bits of a state. -/
def EntryState.code : EntryState → BitVec 32
  | free => 3#32
  | used => 2#32
  | updated => 0#32
  | illegal => 1#32

/-- The state of two bits. -/
def EntryState.ofCode : ℕ → EntryState
  | 3 => free
  | 2 => used
  | 0 => updated
  | _ => illegal

/-- The words of a table. -/
abbrev StateTable := List (BitVec 32)

/-- `(states[idx / 16] >> (idx % 16) * 2) & 0x03`. -/
def stateAt (states : StateTable) (idx : ℕ) : EntryState :=
  .ofCode ((states.getD (idx / 16) 0#32 >>> (idx % 16 * 2)) &&& 3#32).toNat

/-- The table with the bits of one entry replaced. -/
def setState (states : StateTable) (idx : ℕ) (state : EntryState) : StateTable :=
  states.set (idx / 16)
    ((states.getD (idx / 16) 0#32 &&& ~~~(3#32 <<< (idx % 16 * 2))) |||
      (state.code <<< (idx % 16 * 2)))

def entryStateGet (states : StateTable) (idx : ℕ) : Except NvdsErr EntryState :=
  if entryCountPerPage ≤ idx then .error .fail else .ok (stateAt states idx)

def entryStateSet (states : StateTable) (idx : ℕ) (state : EntryState) :
    Except NvdsErr StateTable :=
  if entryCountPerPage ≤ idx then .error .fail
  else if state = .illegal then .error .fail
  else .ok (setState states idx state)

/-- The table in flash. -/
def tableBytes (states : StateTable) : List UInt8 := states.flatMap fun w => bytes 4 w.toNat

/-- The table read from flash. -/
def tableWords (bs : List UInt8) : StateTable :=
  (List.range 8).map fun t => BitVec.ofNat 32 (value (Entry.field bs (4 * t) 4))

/-- The table of an erased page. -/
def blankTable : StateTable := List.replicate 8 (BitVec.allOnes 32)

/-! ### The two bits of an entry -/

/-- The state by its two bits, the high one first. -/
def EntryState.ofBits : Bool → Bool → EntryState
  | true, true => free
  | true, false => used
  | false, false => updated
  | false, true => illegal

/-- The high bit of a state. -/
def EntryState.hi : EntryState → Bool
  | free => true
  | used => true
  | updated => false
  | illegal => false

/-- The low bit of a state. -/
def EntryState.lo : EntryState → Bool
  | free => true
  | used => false
  | updated => false
  | illegal => true

theorem EntryState.ofBits_hi_lo (s : EntryState) : ofBits s.hi s.lo = s := by
  cases s <;> rfl

theorem EntryState.getLsbD_code (s : EntryState) (i : ℕ) :
    s.code.getLsbD i = if i = 0 then s.lo else if i = 1 then s.hi else false := by
  rcases i with _ | _ | i
  · cases s <;> rfl
  · cases s <;> rfl
  · have h : ∀ c < 4, (BitVec.ofNat 32 c).getLsbD (i + 2) = false := by
      intro c hc
      have hlt : c < 2 ^ (i + 2) := lt_of_lt_of_le hc (by
        calc 4 = 2 ^ 2 := rfl
          _ ≤ 2 ^ (i + 2) := Nat.pow_le_pow_right (by norm_num) (by omega))
      rw [BitVec.getLsbD_ofNat, Nat.testBit_lt_two_pow hlt, Bool.and_false]
    cases s
    · exact h 3 (by omega)
    · exact h 2 (by omega)
    · exact h 0 (by omega)
    · exact h 1 (by omega)

theorem mod_four_eq (y : ℕ) : y % 4 = 2 * (y.testBit 1).toNat + (y.testBit 0).toNat := by
  rw [Nat.toNat_testBit, Nat.toNat_testBit]
  omega

theorem ofCode_bits (hi lo : Bool) :
    EntryState.ofCode (2 * hi.toNat + lo.toNat) = .ofBits hi lo := by
  cases hi <;> cases lo <;> rfl

/-- The shift and the mask pick out two bits. -/
theorem ofCode_shift_mask (w : BitVec 32) (b : ℕ) :
    EntryState.ofCode ((w >>> b) &&& 3#32).toNat = .ofBits (w.getLsbD (b + 1)) (w.getLsbD b) := by
  have hmod : ((w >>> b) &&& 3#32).toNat = (w.toNat >>> b) % 4 := by
    exact Nat.and_two_pow_sub_one_eq_mod _ 2
  rw [hmod, mod_four_eq, Nat.testBit_shiftRight, Nat.testBit_shiftRight, ofCode_bits]
  rfl

theorem stateAt_eq_bits (states : StateTable) (idx : ℕ) :
    stateAt states idx =
      .ofBits ((states.getD (idx / 16) 0#32).getLsbD (idx % 16 * 2 + 1))
        ((states.getD (idx / 16) 0#32).getLsbD (idx % 16 * 2)) :=
  ofCode_shift_mask _ _

/-- The bits of a word after an update. -/
theorem getLsbD_setWord (w : BitVec 32) (s : EntryState) {b : ℕ} (hb : b + 1 < 32) (j : ℕ) :
    ((w &&& ~~~(3#32 <<< b)) ||| (s.code <<< b)).getLsbD j =
      if j = b then s.lo else if j = b + 1 then s.hi else w.getLsbD j := by
  have h3 : ∀ i, (3#32).getLsbD i = decide (i < 2) := by
    intro i
    have := EntryState.getLsbD_code .free i
    rw [EntryState.code] at this
    rw [this]
    rcases i with _ | _ | i <;> simp [EntryState.lo, EntryState.hi]
  rw [BitVec.getLsbD_or, BitVec.getLsbD_and, BitVec.getLsbD_not, BitVec.getLsbD_shiftLeft,
    BitVec.getLsbD_shiftLeft, EntryState.getLsbD_code, h3]
  rcases Nat.lt_or_ge j 32 with hj | hj
  · rcases lt_trichotomy j b with h | rfl | h
    · simp [hj, h, show ¬j = b by omega, show ¬j = b + 1 by omega]
    · simp [hj]
    · by_cases h' : j = b + 1
      · subst h'
        simp [hj]
      · rw [if_neg (by omega), if_neg h', if_neg (by omega), if_neg (by omega)]
        simp only [hj, decide_true, Bool.true_and, Bool.and_false, Bool.or_false]
        rw [show decide (j - b < 2) = false from decide_eq_false (by omega)]
        simp
  · simp [hj, show ¬j < 32 by omega, show ¬j = b by omega, show ¬j = b + 1 by omega]

/-! ### The table as a map -/

@[simp] theorem length_setState (states : StateTable) (idx : ℕ) (s : EntryState) :
    (setState states idx s).length = states.length := by simp [setState]

section Laws

variable {states : StateTable} (hlen : states.length = 8) {idx : ℕ} (hidx : idx < 128)
include hlen hidx

theorem getD_setState_self (s : EntryState) :
    (setState states idx s).getD (idx / 16) 0#32 =
      (states.getD (idx / 16) 0#32 &&& ~~~(3#32 <<< (idx % 16 * 2))) |||
        (s.code <<< (idx % 16 * 2)) := by
  rw [setState, getD_eq_getElem?_getD, List.getElem?_set_self (by omega)]
  rfl

/-- Reading the entry that was written. -/
theorem stateAt_setState_self (s : EntryState) : stateAt (setState states idx s) idx = s := by
  rw [stateAt_eq_bits, getD_setState_self hlen hidx, getLsbD_setWord _ _ (by omega),
    getLsbD_setWord _ _ (by omega), if_neg (by omega), if_pos rfl, if_pos rfl,
    EntryState.ofBits_hi_lo]

/-- Reading another entry. -/
theorem stateAt_setState_of_ne (s : EntryState) {j : ℕ} (hj : j ≠ idx) :
    stateAt (setState states idx s) j = stateAt states j := by
  by_cases hw : j / 16 = idx / 16
  · rw [stateAt_eq_bits, stateAt_eq_bits, hw, getD_setState_self hlen hidx,
      getLsbD_setWord _ _ (by omega), getLsbD_setWord _ _ (by omega), if_neg (by omega),
      if_neg (by omega), if_neg (by omega), if_neg (by omega)]
  · rw [stateAt, stateAt, setState, getD_eq_getElem?_getD,
      List.getElem?_set_ne (fun h => hw h.symm), ← getD_eq_getElem?_getD]

end Laws

theorem stateAt_blankTable {idx : ℕ} (h : idx < 128) : stateAt blankTable idx = .free := by
  have hw : blankTable.getD (idx / 16) 0#32 = BitVec.allOnes 32 := by
    rw [blankTable, getD_eq_getElem?_getD, List.getElem?_replicate, if_pos (by omega)]
    rfl
  rw [stateAt_eq_bits, hw, BitVec.getLsbD_allOnes, BitVec.getLsbD_allOnes,
    decide_eq_true (by omega), decide_eq_true (by omega)]
  rfl

/-! ### The table in flash -/

theorem length_tableBytes (states : StateTable) :
    (tableBytes states).length = 4 * states.length := by
  simp [tableBytes, length_flatMap, Nat.mul_comm]

theorem field_tableBytes (states : StateTable) {t : ℕ} (ht : t < states.length) :
    Entry.field (tableBytes states) (4 * t) 4 = bytes 4 (states.getD t 0#32).toNat := by
  induction states generalizing t with
  | nil => simp at ht
  | cons w ws ih =>
    cases t with
    | zero => exact field_head (length_bytes 4 _)
    | succ t =>
      exact ih (by simpa using ht)

/-- **The table is read back.** -/
theorem tableWords_tableBytes {states : StateTable} (h : states.length = 8) :
    tableWords (tableBytes states) = states := by
  refine ext_getElem (by simp [tableWords, h]) fun t h1 h2 => ?_
  simp only [tableWords, getElem_map, getElem_range]
  rw [field_tableBytes _ (by omega),
    value_bytes (BitVec.isLt _), getD_eq_getElem _ _ h2, BitVec.ofNat_toNat,
    BitVec.setWidth_eq]

/-- One state can replace another without setting a bit. -/
def EntryState.Below (new old : EntryState) : Prop :=
  (new.lo = true → old.lo = true) ∧ (new.hi = true → old.hi = true)

instance (new old : EntryState) : Decidable (new.Below old) := inferInstanceAs (Decidable (_ ∧ _))

theorem EntryState.below_free (s : EntryState) : s.Below .free := by
  cases s <;> decide

theorem EntryState.updated_below (s : EntryState) : updated.Below s := by
  cases s <;> decide

theorem and_setWord {w : BitVec 32} {s : EntryState} {b : ℕ} (hb : b + 1 < 32)
    (h : s.Below (.ofBits (w.getLsbD (b + 1)) (w.getLsbD b))) :
    w &&& ((w &&& ~~~(3#32 <<< b)) ||| (s.code <<< b)) =
      (w &&& ~~~(3#32 <<< b)) ||| (s.code <<< b) := by
  obtain ⟨hlo, hhi⟩ := h
  refine BitVec.eq_of_getLsbD_eq fun j hj => ?_
  rw [BitVec.getLsbD_and, getLsbD_setWord w s hb]
  split
  · next h =>
    cases hs : s.lo
    · simp
    · cases h1 : w.getLsbD j <;> cases h2 : w.getLsbD (j + 1) <;>
        simp_all [EntryState.ofBits, EntryState.lo]
  · split
    · next h =>
      cases hs : s.hi
      · simp
      · cases h1 : w.getLsbD b <;> cases h2 : w.getLsbD (b + 1) <;>
          simp_all [EntryState.ofBits, EntryState.hi]
    · simp

theorem zipWith_flatMap_bytes {ws vs : StateTable} (hlen : ws.length = vs.length)
    (h : ∀ t, ws.getD t 0#32 &&& vs.getD t 0#32 = vs.getD t 0#32) :
    List.zipWith (· &&& ·) (tableBytes ws) (tableBytes vs) = tableBytes vs := by
  induction ws generalizing vs with
  | nil =>
    cases vs with
    | nil => rfl
    | cons v vs => simp at hlen
  | cons w ws ih =>
    cases vs with
    | nil => simp at hlen
    | cons v vs =>
      have h0 : w &&& v = v := h 0
      rw [tableBytes, tableBytes, flatMap_cons, flatMap_cons,
        zipWith_append (by simp), ← bytes_and, ← BitVec.toNat_and, h0]
      congr 1
      exact ih (by simpa using hlen) fun t => h (t + 1)

/-- **An update that only clears bits is programmed in place.** -/
theorem zipWith_tableBytes {states : StateTable} (hlen : states.length = 8) {idx : ℕ}
    (hidx : idx < 128) {s : EntryState} (h : s.Below (stateAt states idx)) :
    List.zipWith (· &&& ·) (tableBytes states) (tableBytes (setState states idx s)) =
      tableBytes (setState states idx s) := by
  refine zipWith_flatMap_bytes (by simp) fun t => ?_
  rcases eq_or_ne t (idx / 16) with rfl | ht
  · rw [getD_setState_self hlen hidx]
    exact and_setWord (by omega) (stateAt_eq_bits states idx ▸ h)
  · have hsame : (setState states idx s).getD t 0#32 = states.getD t 0#32 := by
      rw [setState, getD_eq_getElem?_getD, List.getElem?_set_ne ht.symm,
        ← getD_eq_getElem?_getD]
    rw [hsame, BitVec.and_self]

end Gd32.Nvds
