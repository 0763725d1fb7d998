import Gd32Firmware.Nvds.Steps

/-!
# Pages as lists of records

The slots of a page are cut into records: a header, and the data slots that its type and length
say belong to it. Walks go from header to header, so on a page that is laid out as a list of
records (`Laid`) a walk is a search in that list (`entryWalk_eq`).

A record is in use when the state of its header says so. The states of its data slots do not
matter to a walk; they differ from the one of the header only while the record is being written.
-/

namespace Gd32.Nvds

open NorFlash LittleEndian List

/-! ### Records -/

/-- A header with its data slots, and the states of all of them. -/
structure Rec where
  hdr : Entry
  data : List (List UInt8)
  /-- The states, the one of the header first. -/
  states : List EntryState

namespace Rec

/-- The slots a record takes. -/
def size (r : Rec) : ℕ := 1 + r.data.length

/-- The slots of a record. -/
def slots (r : Rec) : List (List UInt8) := r.hdr :: r.data

/-- The record is in use. -/
def live (r : Rec) : Bool := decide (r.states.head? = some .used)

/-- A record that is in use throughout, with the given header and data. -/
def fresh (hdr : Entry) (data : List (List UInt8)) : Rec :=
  ⟨hdr, data, List.replicate (1 + data.length) .used⟩

/-- The record given up. -/
def dead (r : Rec) : Rec := { r with states := List.replicate r.size .updated }

/-- The header says how many data slots there are, every slot has its length and its state, and
the header has been used. -/
structure Wf (r : Rec) : Prop where
  length_hdr : r.hdr.length = 32
  length_slot : ∀ s ∈ r.data, s.length = 32
  length_data : r.data.length = Entry.dataCnt r.hdr
  length_states : r.states.length = r.size
  head_state : r.states.head? = some .used ∨ r.states.head? = some .updated

/-- All slots of the record are in the same state. -/
def Clean (r : Rec) : Prop := r = fresh r.hdr r.data ∨ r = r.dead

theorem size_pos (r : Rec) : 0 < r.size := by
  rw [size]
  omega

@[simp] theorem length_slots (r : Rec) : r.slots.length = r.size := by
  rw [slots, size, length_cons, add_comm]

@[simp] theorem live_fresh (hdr : Entry) (data : List (List UInt8)) :
    (fresh hdr data).live = true := by
  simp [live, fresh, add_comm 1, replicate_succ]

@[simp] theorem live_dead (r : Rec) : r.dead.live = false := by
  simp [live, dead, size, add_comm 1, replicate_succ]

@[simp] theorem size_dead (r : Rec) : r.dead.size = r.size := rfl

@[simp] theorem size_fresh (hdr : Entry) (data : List (List UInt8)) :
    (fresh hdr data).size = 1 + data.length := rfl

theorem wf_fresh {hdr : Entry} {data : List (List UInt8)} (h1 : hdr.length = 32)
    (h2 : ∀ s ∈ data, s.length = 32) (h3 : data.length = Entry.dataCnt hdr) :
    (fresh hdr data).Wf :=
  ⟨h1, h2, h3, by simp [fresh, size], Or.inl (by simp [fresh, add_comm 1, replicate_succ])⟩

theorem clean_fresh (hdr : Entry) (data : List (List UInt8)) : (fresh hdr data).Clean := Or.inl rfl

theorem clean_dead (r : Rec) : r.dead.Clean := Or.inr rfl

/-- A clean record in use is a fresh one. -/
theorem Clean.eq_fresh {r : Rec} (h : r.Clean) (hlive : r.live = true) :
    r = fresh r.hdr r.data := by
  rcases h with h | h
  · exact h
  · rw [h, live_dead] at hlive
    exact absurd hlive (by simp)

/-- The states of a clean record. -/
theorem Clean.states_eq {r : Rec} (h : r.Clean) :
    r.states = List.replicate r.size (if r.live then .used else .updated) := by
  rcases h with h | h
  · have hlive : r.live = true := by
      rw [h]
      exact live_fresh _ _
    rw [hlive, if_pos rfl, h]
    rfl
  · have hlive : r.live = false := by
      rw [h]
      exact live_dead _
    rw [hlive, h]
    rfl

end Rec

/-- The slots of some records. -/
def recsSlots (rs : List Rec) : List (List UInt8) := rs.flatMap Rec.slots

/-- The states of the slots of some records. -/
def recsStates (rs : List Rec) : List EntryState := rs.flatMap Rec.states

/-- The slots some records take. -/
def recsSize (rs : List Rec) : ℕ := (rs.map Rec.size).sum

@[simp] theorem recsSize_nil : recsSize [] = 0 := rfl

@[simp] theorem recsSize_cons (r : Rec) (rs : List Rec) :
    recsSize (r :: rs) = r.size + recsSize rs := by simp [recsSize]

@[simp] theorem recsSize_append (rs ss : List Rec) :
    recsSize (rs ++ ss) = recsSize rs + recsSize ss := by simp [recsSize]

theorem length_recsSlots (rs : List Rec) : (recsSlots rs).length = recsSize rs := by
  induction rs with
  | nil => rfl
  | cons r rs ih =>
    rw [recsSlots, flatMap_cons, length_append, Rec.length_slots, recsSize_cons, ← ih]
    rfl

theorem length_recsStates {rs : List Rec} (h : ∀ r ∈ rs, r.Wf) :
    (recsStates rs).length = recsSize rs := by
  induction rs with
  | nil => rfl
  | cons r rs ih =>
    rw [recsStates, flatMap_cons, length_append, (h r (by simp)).length_states,
      recsSize_cons, ← ih fun s hs => h s (by simp [hs])]
    rfl

theorem recsSlots_append (rs ss : List Rec) :
    recsSlots (rs ++ ss) = recsSlots rs ++ recsSlots ss := flatMap_append

theorem recsStates_append (rs ss : List Rec) :
    recsStates (rs ++ ss) = recsStates rs ++ recsStates ss := flatMap_append

theorem length_le_recsSize (rs : List Rec) : rs.length ≤ recsSize rs := by
  induction rs with
  | nil => simp
  | cons r rs ih =>
    have := r.size_pos
    rw [length_cons, recsSize_cons]
    omega

/-- The page is laid out as the records `rs`, its other entries being free. Slots behind the last
record may have been programmed, and the last slots of the last record may not. -/
structure Laid (P : SlotPage) (rs : List Rec) : Prop where
  wf : ∀ r ∈ rs, r.Wf
  size : recsSize rs ≤ 126
  slots : ∀ i < recsSize rs, P.slots.getD i blankSlot = (recsSlots rs).getD i blankSlot
  states : ∀ i < 126, stateAt P.table i = (recsStates rs).getD i .free

namespace Laid

variable {P : SlotPage} {rs pre post : List Rec} {r : Rec}

theorem free_of_ge (h : Laid P rs) {i : ℕ} (h1 : recsSize rs ≤ i) (h2 : i < 126) :
    stateAt P.table i = .free := by
  rw [h.states i h2, getD_eq_default]
  rwa [length_recsStates h.wf]

/-- The slots of the record behind `pre`. -/
theorem getD_slots (h : Laid P (pre ++ r :: post)) {j : ℕ} (hj : j < r.size) :
    P.slots.getD (recsSize pre + j) blankSlot = r.slots.getD j blankSlot := by
  rw [h.slots _ (by simp; omega), recsSlots_append, getD_append_right _ _ _ _ (by
      rw [length_recsSlots]
      omega), length_recsSlots, Nat.add_sub_cancel_left, recsSlots, flatMap_cons,
    getD_append _ _ _ _ (by simpa using hj)]

/-- The states of the record behind `pre`. -/
theorem stateAt_rec (h : Laid P (pre ++ r :: post)) {j : ℕ} (hj : j < r.size)
    (hin : recsSize pre + j < 126) :
    stateAt P.table (recsSize pre + j) = r.states.getD j .free := by
  have hpre : ∀ s ∈ pre, s.Wf := fun s hs => h.wf s (by simp [hs])
  have hr : r.Wf := h.wf r (by simp)
  rw [h.states _ hin, recsStates_append, getD_append_right _ _ _ _ (by
      rw [length_recsStates hpre]
      omega), length_recsStates hpre, Nat.add_sub_cancel_left, recsStates, flatMap_cons,
    getD_append _ _ _ _ (by rwa [hr.length_states])]

theorem stateAt_head (h : Laid P (pre ++ r :: post)) (hin : recsSize pre < 126) :
    stateAt P.table (recsSize pre) = if r.live then .used else .updated := by
  have hr : r.Wf := h.wf r (by simp)
  rw [← add_zero (recsSize pre), h.stateAt_rec r.size_pos (by simpa using hin),
    getD_eq_getElem?_getD, ← List.head?_eq_getElem?]
  rcases hr.head_state with hs | hs <;> simp [Rec.live, hs]

end Laid

/-! ### Walks over a page -/

/-- The offset of the first record in use that satisfies `hit`, the first of the records being
at offset `o`. -/
def firstHit (hit : Entry → Bool) : ℕ → List Rec → Option ℕ
  | _, [] => none
  | o, r :: rs => if r.live && hit r.hdr then some o else firstHit hit (o + r.size) rs

section Walk

variable {rom : NvdsRom} (hrom : rom.Reliable) {env : FlashEnv} {n : ℕ} (hgeo : Geometry env n)
  {k : ℕ} (hk : k < n) {P : SlotPage} (hm : Shows env k P)
include hrom hgeo hk hm

/-- Reading a slot of a page that is shown. -/
theorem entryRead_slot {i : ℕ} (hi : i < 126) :
    entryRead rom env k i = .ok (P.slots.getD i blankSlot) := by
  rw [entryRead_ok hrom hgeo hk hm.base hi, hm.holds.slots i hi]

/-- **A walk from one header on is a search in the records.** -/
theorem entryWalk_eq (ns : ℕ) (key : CString) (type : ElementType) {pre post : List Rec}
    (hlaid : Laid P (pre ++ post)) {fuel : ℕ} (hfuel : post.length < fuel) :
    entryWalk rom env k ns key type fuel (recsSize pre) =
      some (.ok (firstHit (elementHit ns key type) (recsSize pre) post)) := by
  induction post generalizing pre fuel with
  | nil =>
    obtain ⟨m, rfl⟩ : ∃ m, fuel = m + 1 := ⟨fuel - 1, by simp at hfuel; omega⟩
    rw [entryWalk, firstHit]
    split
    · rfl
    · next hidx =>
      have hin : recsSize pre < 126 := by
        simp only [entryCountPerPage] at hidx
        omega
      have hfree := hlaid.free_of_ge (show recsSize (pre ++ []) ≤ recsSize pre by simp) hin
      rw [entryStateGet, if_neg hidx, hm.table, hfree]
  | cons r post ih =>
    obtain ⟨m, rfl⟩ : ∃ m, fuel = m + 1 := ⟨fuel - 1, by omega⟩
    have hsize : recsSize pre + r.size + recsSize post ≤ 126 := by
      simpa [add_assoc] using hlaid.size
    have hin : recsSize pre < 126 := by
      have := r.size_pos
      omega
    have hr : r.Wf := hlaid.wf r (by simp)
    have hread : entryRead rom env k (recsSize pre) = .ok r.hdr := by
      have h0 := hlaid.getD_slots r.size_pos
      rw [entryRead_slot hrom hgeo hk hm hin]
      simpa [Rec.slots] using h0
    have hnext : u8 (recsSize pre + 1 + Entry.dataCnt r.hdr) = recsSize (pre ++ [r]) := by
      rw [← hr.length_data, recsSize_append, recsSize_cons, recsSize_nil, Rec.size, add_zero,
        add_assoc]
      refine u8_of_lt ?_
      rw [Rec.size] at hsize
      omega
    have hrest := ih (show Laid P (pre ++ [r] ++ post) by simpa using hlaid)
      (show post.length < m by simpa using hfuel)
    rw [entryWalk, if_neg (by simp only [entryCountPerPage]; omega), entryStateGet,
      if_neg (by simp only [entryCountPerPage]; omega), hm.table, hlaid.stateAt_head hin, firstHit]
    cases hlive : r.live with
    | true =>
      simp only [if_true, hread, true_and, Bool.true_and]
      by_cases hhit : elementHit ns key type r.hdr = true
      · rw [if_pos hhit, if_pos hhit]
      · rw [if_neg hhit, if_neg hhit, hnext, hrest]
        simp
    | false =>
      simp only [Bool.false_eq_true, if_false, hread, reduceCtorEq, false_and, Bool.false_and]
      rw [hnext, hrest]
      simp

end Walk

end Gd32.Nvds
