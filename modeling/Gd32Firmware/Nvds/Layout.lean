import Gd32Firmware.Nvds.Env

/-!
# What a sector holds

A sector of the partition is read as a header, a table of entry states and the slots that have
been programmed, the others being blank (`Holds`). The storage only ever changes a
sector in five ways, and each of them is a theorem here: it programs data behind the last slot,
the state of an entry, the state of the page or the header of a blank page, or it erases the
sector. Every one of the programs fits the device: it clears bits and sets none.
-/

namespace Gd32.Nvds

open NorFlash LittleEndian List

/-! ### Slots -/

/-- A slot that has not been programmed. -/
def blankSlot : List UInt8 := List.replicate 32 blank

/-- The bytes of slot `j` of some data, blank behind its end. -/
def slotOf (bs : List UInt8) (j : ℕ) : List UInt8 :=
  (List.range 32).map fun i => bs.getD (32 * j + i) blank

/-- The slots that some data take. -/
def slotsOf (bs : List UInt8) : List (List UInt8) :=
  (List.range (entriesOf bs.length)).map (slotOf bs)

@[simp] theorem length_slotOf (bs : List UInt8) (j : ℕ) : (slotOf bs j).length = 32 := by
  simp [slotOf]

@[simp] theorem length_slotsOf (bs : List UInt8) :
    (slotsOf bs).length = entriesOf bs.length := by simp [slotsOf]

theorem length_of_mem_slotsOf {bs s : List UInt8} (h : s ∈ slotsOf bs) : s.length = 32 := by
  obtain ⟨j, -, rfl⟩ := mem_map.mp h
  exact length_slotOf bs j

theorem slotOf_of_ge {bs : List UInt8} {j : ℕ} (h : bs.length ≤ 32 * j) :
    slotOf bs j = blankSlot := by
  refine ext_getElem (by simp [blankSlot]) fun i h1 h2 => ?_
  simp only [slotOf, getElem_map, getElem_range, blankSlot, getElem_replicate]
  exact getD_eq_default _ _ (by omega)

theorem getD_slotsOf (bs : List UInt8) (j : ℕ) : (slotsOf bs).getD j blankSlot = slotOf bs j := by
  rcases Nat.lt_or_ge j (slotsOf bs).length with h | h
  · rw [getD_eq_getElem _ _ h]
    simp [slotsOf]
  · rw [getD_eq_default _ _ h, slotOf_of_ge]
    simp only [length_slotsOf, entriesOf, entrySize] at h
    omega

/-- Data of one slot. -/
theorem slotsOf_entry {e : Entry} (h : e.length = 32) : slotsOf e = [e] := by
  have hcnt : entriesOf e.length = 1 := by
    rw [h]
    rfl
  rw [slotsOf, hcnt]
  simp only [range_one, map_cons, map_nil, List.cons.injEq, and_true]
  refine ext_getElem (by simp [h]) fun i h1 h2 => ?_
  simp only [slotOf, getElem_map, getElem_range, Nat.mul_zero, Nat.zero_add]
  exact getD_eq_getElem _ _ h2

/-! ### Sectors -/

/-- A sector as the storage sees it. -/
structure SlotPage where
  header : PageHeader
  table : StateTable
  /-- The slots up to the last one that has been programmed. -/
  slots : List (List UInt8)

/-- An erased sector. -/
def SlotPage.blank : SlotPage := ⟨.blank, blankTable, []⟩

/-- The sector at address `a` holds the page `P`. -/
structure Holds (f : Flash) (a : ℕ) (P : SlotPage) : Prop where
  inRange : P.header.InRange
  length_table : P.table.length = 8
  length_slot : ∀ s ∈ P.slots, s.length = 32
  length_slots : P.slots.length ≤ 126
  header : read f a 32 = P.header.encode
  table : read f (a + 32) 32 = tableBytes P.table
  slots : ∀ i < 126, read f (a + 64 + 32 * i) 32 = P.slots.getD i blankSlot

section Holds

variable {f g : Flash} {a : ℕ} {P : SlotPage}

/-- Only the bytes of the sector matter. -/
theorem Holds.congr (h : Holds f a P) (hfg : ∀ x, a ≤ x → x < a + 4096 → g x = f x) :
    Holds g a P where
  inRange := h.inRange
  length_table := h.length_table
  length_slot := h.length_slot
  length_slots := h.length_slots
  header := (read_congr fun x h1 h2 => hfg x h1 (by omega)).trans h.header
  table := (read_congr fun x h1 h2 => hfg x (by omega) (by omega)).trans h.table
  slots i hi := (read_congr fun x h1 h2 => hfg x (by omega) (by omega)).trans (h.slots i hi)

theorem blank_of_read {b : ℕ} (h : read f b 32 = blankSlot) : Blank f b 32 := by
  intro x h1 h2
  have hx := getD_read f b (show x - b < 32 by omega) blank
  rw [h, show b + (x - b) = x by omega] at hx
  rw [← hx, blankSlot, getD_replicate _ (by omega)]

/-- The room behind the last slot is blank. -/
theorem Holds.blank_room (h : Holds f a P) :
    Blank f (a + 64 + 32 * P.slots.length) (32 * (126 - P.slots.length)) := by
  intro x h1 h2
  have hi : (x - (a + 64)) / 32 < 126 := by omega
  have hslot := h.slots _ hi
  rw [getD_eq_default _ _ (by omega)] at hslot
  exact blank_of_read hslot x (by omega) (by omega)

/-! ### The changes -/

/-- **Programming data behind the last slot.** -/
theorem Holds.programSlots (h : Holds f a P) {bs : List UInt8}
    (hroom : P.slots.length + entriesOf bs.length ≤ 126) :
    (Prim.program (a + 64 + 32 * P.slots.length) bs).Fits f ∧
      Holds (program f (a + 64 + 32 * P.slots.length) bs) a
        { P with slots := P.slots ++ slotsOf bs } := by
  have hlen : bs.length ≤ 32 * (126 - P.slots.length) := by
    simp only [entriesOf, entrySize] at hroom
    omega
  have hblank := h.blank_room
  refine ⟨fits_of_blank (hblank.mono le_rfl (by omega)), h.inRange, h.length_table, ?_, ?_, ?_,
    ?_, ?_⟩
  · intro s hs
    rcases mem_append.mp hs with hs | hs
    · exact h.length_slot s hs
    · exact length_of_mem_slotsOf hs
  · simpa using hroom
  · rw [read_program_of_disjoint (by omega)]
    exact h.header
  · rw [read_program_of_disjoint (by omega)]
    exact h.table
  · intro i hi
    rcases Nat.lt_or_ge i P.slots.length with hlt | hge
    · rw [read_program_of_disjoint (by omega), h.slots i hi, getD_append _ _ _ _ hlt]
    · obtain ⟨j, rfl⟩ := Nat.exists_eq_add_of_le hge
      rw [show a + 64 + 32 * (P.slots.length + j) = a + 64 + 32 * P.slots.length + 32 * j by omega,
        read_program_of_blank_at bs (hblank.mono (by omega) (by omega)),
        getD_append_right _ _ _ _ hge, Nat.add_sub_cancel_left, getD_slotsOf]
      rfl

/-- **Programming the state of an entry.** -/
theorem Holds.programTable (h : Holds f a P) {i : ℕ} (hi : i < 126) {s : EntryState}
    (hs : s.Below (stateAt P.table i)) :
    (Prim.program (a + 32) (tableBytes (setState P.table i s))).Fits f ∧
      Holds (program f (a + 32) (tableBytes (setState P.table i s))) a
        { P with table := setState P.table i s } := by
  have hlen : (tableBytes (setState P.table i s)).length = 32 := by
    rw [length_tableBytes, length_setState, h.length_table]
  have hfits : (Prim.program (a + 32) (tableBytes (setState P.table i s))).Fits f := by
    rw [Prim.Fits, hlen, h.table]
    exact zipWith_tableBytes h.length_table (by omega) hs
  have hself := read_program_of_fits hfits
  rw [hlen] at hself
  refine ⟨hfits, h.inRange, by simpa using h.length_table, h.length_slot, h.length_slots, ?_,
    hself, fun i hi => ?_⟩
  · rw [read_program_of_disjoint (by omega)]
    exact h.header
  · rw [read_program_of_disjoint (by omega)]
    exact h.slots i hi

theorem PageHeader.encode_split (h : PageHeader) :
    h.encode = (bytes 4 h.magic ++ bytes 2 h.version) ++ (bytes 2 h.state ++
      (bytes 4 h.seqno ++ (h.rsv ++ bytes 4 h.crc))) := by
  rw [PageHeader.encode, append_assoc]

/-- **Programming the state of the page.** -/
theorem Holds.programState (h : Holds f a P) {state : ℕ} (hstate : state < 256 ^ 2)
    (hand : List.zipWith (· &&& ·) (bytes 2 P.header.state) (bytes 2 state) = bytes 2 state) :
    (Prim.program (a + 6) (bytes 2 state)).Fits f ∧
      Holds (program f (a + 6) (bytes 2 state)) a
        { P with header := { P.header with state := state } } := by
  -- the header is read in three parts, of which the middle one changes
  have hsplit := h.header
  rw [show 32 = 6 + (2 + 24) from rfl, read_add, read_add, PageHeader.encode_split] at hsplit
  obtain ⟨h1, h2⟩ := append_inj hsplit (by simp)
  obtain ⟨h2, h3⟩ := append_inj h2 (by simp)
  have hfits : (Prim.program (a + 6) (bytes 2 state)).Fits f := by
    rw [Prim.Fits, length_bytes, h2]
    exact hand
  have hself := read_program_of_fits hfits
  rw [length_bytes] at hself
  have hin := h.inRange
  refine ⟨hfits, ⟨hin.magic_lt, hin.version_lt, hstate, hin.seqno_lt, hin.length_rsv,
    hin.crc_lt⟩, h.length_table, h.length_slot, h.length_slots, ?_, ?_, fun i hi => ?_⟩
  · rw [show 32 = 6 + (2 + 24) from rfl, read_add, read_add, PageHeader.encode_split, hself,
      read_program_of_disjoint (by simp), read_program_of_disjoint (by simp), h1, h3]
  · rw [read_program_of_disjoint (by simp)]
    exact h.table
  · rw [read_program_of_disjoint (by simp; omega)]
    exact h.slots i hi

theorem encode_blank : PageHeader.blank.encode = blankSlot := by decide

theorem tableBytes_blank : tableBytes blankTable = blankSlot := by decide

theorem inRange_blank : PageHeader.blank.InRange :=
  ⟨by decide, by decide, by decide, by decide, rfl, by decide⟩

theorem holds_blank (h : Blank f a 4096) : Holds f a .blank where
  inRange := inRange_blank
  length_table := rfl
  length_slot := by simp [SlotPage.blank]
  length_slots := by simp [SlotPage.blank]
  header := (read_of_blank (h.mono le_rfl (by omega))).trans encode_blank.symm
  table := (read_of_blank (h.mono (by omega) (by omega))).trans tableBytes_blank.symm
  slots i hi := read_of_blank (h.mono (by omega) (by omega))

/-- **Erasing.** -/
theorem holds_erase (f : Flash) (a : ℕ) : Holds (erase f a 4096) a .blank :=
  holds_blank (blank_erase f a 4096)

/-- **Programming the header of a blank sector.** -/
theorem Holds.programHeader (h : Holds f a .blank) {header : PageHeader} (hr : header.InRange) :
    (Prim.program a header.encode).Fits f ∧
      Holds (program f a header.encode) a ⟨header, blankTable, []⟩ := by
  have hlen : header.encode.length = 32 := PageHeader.length_encode hr.length_rsv
  have hblank : Blank f a 32 := blank_of_read (h.header.trans encode_blank)
  have hfits : (Prim.program a header.encode).Fits f := fits_of_blank (hlen ▸ hblank)
  have hself := read_program_of_fits hfits
  rw [hlen] at hself
  refine ⟨hfits, hr, h.length_table, h.length_slot, h.length_slots, hself, ?_, fun i hi => ?_⟩
  · rw [read_program_of_disjoint (by omega)]
    exact h.table
  · rw [read_program_of_disjoint (by omega)]
    exact h.slots i hi

/-- A sector that holds an erased page is blank throughout. -/
theorem Holds.blank_sector (h : Holds f a .blank) : Blank f a 4096 := by
  have h0 : Blank f a 32 := blank_of_read (h.header.trans encode_blank)
  have h1 : Blank f (a + 32) 32 := blank_of_read (h.table.trans tableBytes_blank)
  have h2 := h.blank_room
  intro x hx1 hx2
  rcases Nat.lt_or_ge x (a + 32) with hx | hx
  · exact h0 x hx1 hx
  rcases Nat.lt_or_ge x (a + 64) with hx' | hx'
  · exact h1 x hx (by omega)
  · exact h2 x (by simpa [SlotPage.blank] using hx') (by simp [SlotPage.blank]; omega)

end Holds

end Gd32.Nvds
