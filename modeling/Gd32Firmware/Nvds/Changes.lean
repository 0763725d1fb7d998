import Gd32Firmware.Nvds.Triples

/-!
# The changes of a store

A put or a delete is made of three changes of a used page: the slots of a record are given up, a
record is written behind the last one, and the page is marked full. Each is specified here by what
it does to the cells of the store, together with the shots that a power cut can find: a record
some slots of which have been given up (`Rec.giveUp`), or a record some slots of which
are not in use yet (`Rec.begun`).
-/

namespace Gd32.Nvds

open NorFlash LittleEndian List

/-! ### Records on the way -/

namespace Rec

/-- The record with its first `j` slots given up. -/
def giveUp (r : Rec) (j : ℕ) : Rec :=
  { r with states := List.replicate j .updated ++ r.states.drop j }

/-- A record with its first `j` slots in use and the others still free. -/
def begun (hdr : Entry) (data : List (List UInt8)) (j : ℕ) : Rec :=
  ⟨hdr, data, List.replicate j .used ++ List.replicate (1 + data.length - j) .free⟩

@[simp] theorem giveUp_zero (r : Rec) : r.giveUp 0 = r := rfl

@[simp] theorem size_giveUp (r : Rec) (j : ℕ) : (r.giveUp j).size = r.size := rfl

@[simp] theorem slots_giveUp (r : Rec) (j : ℕ) : (r.giveUp j).slots = r.slots := rfl

theorem Wf.giveUp_size {r : Rec} (h : r.Wf) : r.giveUp r.size = r.dead := by
  rw [Rec.giveUp, Rec.dead, drop_of_length_le (by rw [h.length_states]), append_nil]

theorem live_giveUp (r : Rec) {j : ℕ} (hj : 0 < j) : (r.giveUp j).live = false := by
  obtain ⟨i, rfl⟩ : ∃ i, j = i + 1 := ⟨j - 1, by omega⟩
  simp [live, giveUp, replicate_succ]

theorem Wf.giveUp {r : Rec} (h : r.Wf) {j : ℕ} (hj : j ≤ r.size) : (r.giveUp j).Wf := by
  refine ⟨h.length_hdr, h.length_slot, h.length_data, ?_, ?_⟩
  · simp only [Rec.giveUp, length_append, length_replicate, length_drop,
      h.length_states, size] at *
    omega
  · cases j with
    | zero => exact h.head_state
    | succ j => exact Or.inr (by simp [Rec.giveUp, replicate_succ])

theorem begun_all (hdr : Entry) (data : List (List UInt8)) :
    begun hdr data (1 + data.length) = fresh hdr data := by simp [begun, fresh]

@[simp] theorem size_begun (hdr : Entry) (data : List (List UInt8)) (j : ℕ) :
    (begun hdr data j).size = 1 + data.length := rfl

theorem live_begun (hdr : Entry) (data : List (List UInt8)) {j : ℕ} (hj : 0 < j) :
    (begun hdr data j).live = true := by
  obtain ⟨i, rfl⟩ : ∃ i, j = i + 1 := ⟨j - 1, by omega⟩
  simp [live, begun, replicate_succ]

theorem wf_begun {hdr : Entry} {data : List (List UInt8)} (h1 : hdr.length = 32)
    (h2 : ∀ s ∈ data, s.length = 32) (h3 : data.length = Entry.dataCnt hdr) {j : ℕ} (hj : 0 < j)
    (hj' : j ≤ 1 + data.length) : (begun hdr data j).Wf := by
  refine ⟨h1, h2, h3, ?_, Or.inl ?_⟩
  · simp only [begun, size, length_append, length_replicate]
    omega
  · obtain ⟨i, rfl⟩ : ∃ i, j = i + 1 := ⟨j - 1, by omega⟩
    simp [begun, replicate_succ]

end Rec

/-! ### Lists with a stretch replaced -/

theorem getD_replaced {α : Type} (l : List α) (s d : α) {first j : ℕ} (h : first + j ≤ l.length)
    (i : ℕ) :
    (l.take first ++ (List.replicate j s ++ l.drop (first + j))).getD i d =
      if first ≤ i ∧ i < first + j then s else l.getD i d := by
  have hlen : (l.take first).length = first := by
    rw [length_take]
    omega
  rcases lt_or_ge i first with h1 | h1
  · rw [if_neg (by omega), getD_append _ _ _ _ (by omega), getD_eq_getElem?_getD,
      List.getElem?_take_of_lt h1, getD_eq_getElem?_getD]
  rw [getD_append_right _ _ _ _ (by omega), hlen]
  rcases lt_or_ge i (first + j) with h2 | h2
  · rw [if_pos ⟨h1, h2⟩, getD_append _ _ _ _ (by rw [length_replicate]; omega),
      getD_replicate _ (by omega)]
  · rw [if_neg (by omega), getD_append_right _ _ _ _ (by rw [length_replicate]; omega),
      length_replicate, getD_eq_getElem?_getD, List.getElem?_drop,
      getD_eq_getElem?_getD]
    congr 2
    omega

theorem getD_prolonged {α : Type} (l : List α) (s d : α) (j m i : ℕ) :
    (l ++ (List.replicate j s ++ List.replicate m d)).getD i d =
      if l.length ≤ i ∧ i < l.length + j then s else l.getD i d := by
  rcases lt_or_ge i l.length with h1 | h1
  · rw [if_neg (by omega), getD_append _ _ _ _ h1]
  rw [getD_append_right _ _ _ _ h1]
  rcases lt_or_ge i (l.length + j) with h2 | h2
  · rw [if_pos ⟨h1, h2⟩, getD_append _ _ _ _ (by rw [length_replicate]; omega),
      getD_replicate _ (by omega)]
  · rw [if_neg (by omega), getD_append_right _ _ _ _ (by rw [length_replicate]; omega),
      getD_eq_default _ _ h1]
    rcases lt_or_ge (i - l.length - j) m with h3 | h3
    · rw [length_replicate, getD_replicate _ h3]
    · exact getD_eq_default _ _ (by simpa using h3)

/-! ### Pages on the way -/

/-- The page in another state. -/
def APage.withState (A : APage) (state : ℕ) : APage :=
  { A with header := { A.header with state := state } }

section Draws

variable {P : SlotPage} {A : APage} {hd : PageHeader} {rs pre post : List Rec} {r : Rec}

/-- Slots of a record are given up. -/
theorem Draws.giveUp (h : Draws P ⟨hd, pre ++ r :: post⟩) (hlen : P.table.length = 8) {j : ℕ}
    (hj : j ≤ r.size) :
    Draws (P.marks .updated (recsSize pre) j) ⟨hd, pre ++ r.giveUp j :: post⟩ := by
  have hlaid : Laid P (pre ++ r :: post) := h.laid
  have hsize : recsSize (pre ++ r.giveUp j :: post) = recsSize (pre ++ r :: post) := by simp
  have hr : r.Wf := hlaid.wf r (by simp)
  have hroom := hlaid.size
  simp only [recsSize_append, recsSize_cons] at hroom
  refine ⟨by simpa using h.header, ?_, by rw [hsize]; exact hlaid.size, ?_, ?_⟩
  · intro s hs
    rcases mem_append.mp hs with hs | hs
    · exact hlaid.wf s (by simp [hs])
    · rcases mem_cons.mp hs with rfl | hs
      · exact hr.giveUp hj
      · exact hlaid.wf s (by simp [hs])
  · intro i hi
    rw [hsize] at hi
    rw [SlotPage.marks_slots, hlaid.slots i hi]
    simp [recsSlots]
  · intro i hi
    have hpre : (recsStates pre).length = recsSize pre :=
      length_recsStates fun s hs => hlaid.wf s (by simp [hs])
    -- the states of the record are a stretch of the states of the page
    have hstates : recsStates (pre ++ r.giveUp j :: post) =
        (recsStates (pre ++ r :: post)).take (recsSize pre) ++ (List.replicate j .updated ++
          (recsStates (pre ++ r :: post)).drop (recsSize pre + j)) := by
      rw [recsStates_append, recsStates_append, take_left' hpre, ← drop_drop,
        drop_left' hpre]
      simp only [recsStates, flatMap_cons, Rec.giveUp, append_assoc]
      rw [drop_append_of_le_length (by rw [hr.length_states]; exact hj)]
    have hle : recsSize pre + j ≤ (recsStates (pre ++ r :: post)).length := by
      rw [length_recsStates hlaid.wf]
      simp only [recsSize_append, recsSize_cons]
      omega
    rw [SlotPage.stateAt_marks _ hlen (by omega), hstates, getD_replaced _ _ _ hle,
      hlaid.states i hi]

/-- Slots behind the last record are programmed. -/
theorem Draws.push (h : Draws P A) (hs : P.slots = recsSlots A.recs) (bs : List UInt8) :
    Draws (P.push bs) A := by
  refine ⟨h.header, h.laid.wf, h.laid.size, ?_, h.laid.states⟩
  intro i hi
  rw [SlotPage.push, hs, getD_append _ _ _ _ (by rwa [length_recsSlots])]

/-- The page while the slots of a record that has been programmed are put in use. -/
theorem Draws.begun (h : Draws P A) (hs : P.slots = recsSlots A.recs) (hlen : P.table.length = 8)
    {e : Entry} {data : List UInt8} (he : e.length = 32)
    (hcnt : entriesOf data.length = Entry.dataCnt e)
    (hroom : recsSize A.recs + (1 + entriesOf data.length) ≤ 126) {j : ℕ} (hj : 0 < j)
    (hj' : j ≤ entriesOf data.length + 1) :
    Draws (((P.push e).push data).marks .used P.slots.length j)
      { A with recs := A.recs ++ [.begun e (slotsOf data) j] } := by
  have hwf : (Rec.begun e (slotsOf data) j).Wf :=
    Rec.wf_begun he (fun _ => length_of_mem_slotsOf) (by simpa using hcnt) hj
      (by simp; omega)
  have hslots : ((P.push e).push data).slots =
      recsSlots (A.recs ++ [Rec.begun e (slotsOf data) j]) := by
    simp only [SlotPage.push, slotsOf_entry he, hs, recsSlots_append, append_assoc]
    simp [recsSlots, Rec.slots, Rec.begun]
  refine ⟨by simpa [SlotPage.push] using h.header, ?_, ?_, ?_, ?_⟩
  · intro s hs'
    rcases mem_append.mp hs' with hs' | hs'
    · exact h.laid.wf s hs'
    · rw [mem_singleton.mp hs']
      exact hwf
  · simpa using hroom
  · intro i hi
    rw [SlotPage.marks_slots, hslots]
  · intro i hi
    have hstates : recsStates (A.recs ++ [Rec.begun e (slotsOf data) j]) =
        recsStates A.recs ++ (List.replicate j .used ++
          List.replicate (1 + (slotsOf data).length - j) .free) := by
      simp [recsStates, Rec.begun]
    rw [hs, length_recsSlots, SlotPage.stateAt_marks _ (by exact hlen) (by omega), hstates,
      getD_prolonged, length_recsStates h.laid.wf, ← h.laid.states i hi]
    rfl

/-- The page in another state. -/
theorem Draws.withState (h : Draws P A) (state : ℕ) :
    Draws (P.withState state) (A.withState state) := by
  refine ⟨?_, h.laid.wf, h.laid.size, h.laid.slots, h.laid.states⟩
  rw [SlotPage.withState, APage.withState, h.header]

end Draws

/-! ### Stores on the way -/

/-- The records with `j` slots given up of the one at offset `o`. -/
def giveUpAt : ℕ → ℕ → List Rec → List Rec
  | _, _, [] => []
  | o, j, r :: rs => if o = 0 then r.giveUp j :: rs else r :: giveUpAt (o - r.size) j rs

theorem giveUpAt_append (j : ℕ) (pre post : List Rec) (r : Rec) :
    giveUpAt (recsSize pre) j (pre ++ r :: post) = pre ++ r.giveUp j :: post := by
  induction pre with
  | nil => simp [giveUpAt]
  | cons s pre ih =>
    have hpos := s.size_pos
    rw [cons_append, giveUpAt, if_neg (by simp; omega), recsSize_cons, Nat.add_sub_cancel_left,
      ih]
    rfl

namespace Store

/-- The store with `j` slots of a cell given up. -/
def kill (S : Store) (c : Cell) (j : ℕ) : Store :=
  S.setPage c.page { S.page c.page with recs := giveUpAt c.idx j (S.page c.page).recs }

/-- The store with a record behind the last one of a page. -/
def push (S : Store) (k : ℕ) (r : Rec) : Store :=
  S.setPage k { S.page k with recs := (S.page k).recs ++ [r] }

/-- The store with a page in another state. -/
def mark (S : Store) (k state : ℕ) : Store :=
  S.setPage k ((S.page k).withState state)

theorem setPage_self (S : Store) (k : ℕ) : S.setPage k (S.page k) = S := by
  rw [setPage, Function.update_eq_self]

theorem cellsOf_setPage_of_ne (S : Store) {k j : ℕ} (h : j ≠ k) (A : APage) :
    (S.setPage k A).cellsOf j = S.cellsOf j := by
  rw [cellsOf, cellsOf, page_setPage_of_ne S h]

theorem flatMap_cellsOf_setPage (S : Store) {k : ℕ} {ks : List ℕ} (h : k ∉ ks) (A : APage) :
    ks.flatMap (S.setPage k A).cellsOf = ks.flatMap S.cellsOf :=
  flatMap_congr fun _ hj => S.cellsOf_setPage_of_ne (ne_of_mem_of_not_mem hj h) A

/-- The cells of a store, around one page. -/
theorem cells_setPage (S : Store) {k : ℕ} {l₁ l₂ : List ℕ} (hused : S.used = l₁ ++ k :: l₂)
    (hnd : S.used.Nodup) (A : APage) :
    (S.setPage k A).cells = l₁.flatMap S.cellsOf ++
      ((if A.searched then pageCells k 0 A.recs else []) ++ l₂.flatMap S.cellsOf) := by
  rw [hused, nodup_append, nodup_cons] at hnd
  have h₁ : k ∉ l₁ := fun h => hnd.2.2 k h k (by simp) rfl
  rw [cells, used_setPage, hused, flatMap_append, flatMap_cons,
    flatMap_cellsOf_setPage S h₁, flatMap_cellsOf_setPage S hnd.2.1.1, cellsOf, page_setPage]

/-- **The cells after slots of one of them have been given up.** -/
theorem cells_kill {S : Store} (hnd : S.used.Nodup) {X Y : List Cell} {c : Cell}
    (h : S.cells = X ++ c :: Y) (j : ℕ) :
    (S.kill c j).cells = X ++ { c with record := c.record.giveUp j } :: Y := by
  obtain ⟨l₁, l₂, pre, post, hused, hs, hrecs, hidx, rfl, rfl⟩ := split_cells h
  rw [kill, hrecs, hidx, giveUpAt_append, cells_setPage S hused hnd, if_pos (by exact hs),
    pageCells_append, pageCells]
  simp

end Store

/-! ### The triples -/

section Change

variable {rom : NvdsRom} (hrom : rom.Reliable) {n : ℕ} {S : Store} {k : ℕ}

theorem usedCnt_le {A : APage} : A.usedCnt ≤ recsSize A.recs := by
  rw [APage.usedCnt]
  induction A.recs with
  | nil => simp
  | cons r rs ih =>
    rw [filter_cons]
    split
    · rw [recsSize_cons, recsSize_cons]
      omega
    · rw [recsSize_cons]
      omega

theorem usedCnt_append (hd : PageHeader) (rs ss : List Rec) :
    APage.usedCnt ⟨hd, rs ++ ss⟩ = APage.usedCnt ⟨hd, rs⟩ + APage.usedCnt ⟨hd, ss⟩ := by
  simp [APage.usedCnt]

/-- The shots while a record is written behind the last one of a page. -/
def Store.Pushing (S : Store) (k : ℕ) (e : Entry) (data : List (List UInt8)) (T : Shot) : Prop :=
  T = S.shot ∨ ∃ j, 0 < j ∧ j ≤ 1 + data.length ∧ T = (S.push k (.begun e data j)).shot

/-- Writing a record, by a computation that does to the page what `element_write` does. -/
theorem does_write {x : NvdsM Unit} (hk : k ∈ S.used) {e : Entry} {data : List UInt8}
    (he : e.length = 32) (hcnt : entriesOf data.length = Entry.dataCnt e)
    (hroom : recsSize (S.page k).recs + (1 + entriesOf data.length) ≤ 126)
    (hx : ∀ env P, Rep n env S → Mirrors env k P →
      P.slots.length + 1 + entriesOf data.length ≤ 126 → P.TailFree →
      ∃ env', x env = some (.ok (), env') ∧ Touch k (P.Writing e data) env env' ∧
        Mirrors env' k (P.written e data) ∧ (env'.pages k).entryCntUsed =
          ((env.pages k).entryCntUsed + 1 + entriesOf data.length) % 2 ^ 16) :
    Does n x S (.ok ()) (S.push k (.fresh e (slotsOf data))) id
      (S.Pushing k e (slotsOf data)) := by
  refine (does_touch (fun A => A = S.page k ∨ ∃ j, 0 < j ∧ j ≤ 1 + (slotsOf data).length ∧
    A = { S.page k with recs := (S.page k).recs ++ [.begun e (slotsOf data) j] }) hk
    fun env hrep => ?_).mono ?_
  · obtain ⟨⟨P, hm, hd, hs⟩, hc⟩ := hrep.pages k hk
    have hlen := hm.holds.length_table
    have hsize : P.slots.length = recsSize (S.page k).recs := by rw [hs, length_recsSlots]
    have hfree : P.TailFree := by
      intro i h1 h2
      exact hd.laid.free_of_ge (by omega) h2
    obtain ⟨env', hrun, htouch, hm', hcnt'⟩ := hx env P hrep hm (by omega) hfree
    have hbegun := fun {j : ℕ} (hj : 0 < j) (hj' : j ≤ entriesOf data.length + 1) =>
      hd.begun hs hlen he hcnt hroom hj hj'
    refine ⟨env', _, hrun, htouch, ⟨⟨_, hm', ?_, ?_⟩, ?_⟩, ?_⟩
    · have hall := hbegun (Nat.succ_pos _) le_rfl
      rw [Nat.succ_eq_add_one, add_comm, ← length_slotsOf, Rec.begun_all] at hall
      rw [SlotPage.written, ← length_slotsOf, add_comm]
      exact hall
    · rw [SlotPage.written, SlotPage.marks_slots]
      simp only [SlotPage.push, slotsOf_entry he, hs, recsSlots_append, append_assoc]
      simp [recsSlots, Rec.slots, Rec.fresh]
    · have hle := @usedCnt_le (S.page k)
      have hpush : APage.usedCnt { S.page k with
          recs := (S.page k).recs ++ [.fresh e (slotsOf data)] } =
          (S.page k).usedCnt + (1 + entriesOf data.length) := by
        simp [APage.usedCnt]
      omega
    · rintro Q (rfl | rfl | ⟨j, hj, rfl⟩)
      · exact ⟨_, Or.inl rfl, hd⟩
      · exact ⟨_, Or.inl rfl, hd.push hs e⟩
      · rcases eq_zero_or_pos j with rfl | hpos
        · have hd2 : Draws ((P.push e).push data) (S.page k) := by
            refine ⟨hd.header, hd.laid.wf, hd.laid.size, fun i hi => ?_, hd.laid.states⟩
            rw [SlotPage.push, SlotPage.push, append_assoc,
              getD_append _ _ _ _ (by omega), hd.laid.slots i hi]
          exact ⟨_, Or.inl rfl, hd2⟩
        · exact ⟨_, Or.inr ⟨j, hpos, by rw [length_slotsOf]; omega, rfl⟩, hbegun hpos hj⟩
  · rintro T ⟨A, rfl | ⟨j, hj, hj', rfl⟩, rfl⟩
    · exact Or.inl (by rw [Store.setPage_self])
    · exact Or.inr ⟨j, hj, hj', rfl⟩

include hrom

/-- **Giving up a record in use.** -/
theorem does_elementDrop {X Y : List Cell} {c : Cell} (h : S.cells = X ++ c :: Y)
    (hlive : c.record.live = true) :
    Does n (elementDrop rom c.page c.idx c.record.data.length) S (.ok ())
      (S.kill c c.record.size) id (fun T => ∃ j ≤ c.record.size, T = (S.kill c j).shot) := by
  obtain ⟨l₁, l₂, pre, post, hused, -, hrecs, hidx, -, -⟩ := split_cells h
  have hk : c.page ∈ S.used := by
    rw [hused]
    simp
  have hkill : ∀ j, giveUpAt c.idx j (S.page c.page).recs = pre ++ c.record.giveUp j :: post := by
    intro j
    rw [hidx, hrecs, giveUpAt_append]
  refine (does_touch (fun A => ∃ j ≤ c.record.size,
    A = ⟨(S.page c.page).header, pre ++ c.record.giveUp j :: post⟩) hk fun env hrep => ?_).mono ?_
  · obtain ⟨⟨P, hm, hd, hs⟩, hcnt⟩ := hrep.pages c.page hk
    have hpage : S.page c.page = ⟨(S.page c.page).header, pre ++ c.record :: post⟩ := by
      rw [← hrecs]
    rw [hpage] at hd hs
    have hroom := hd.laid.size
    simp only [recsSize_append, recsSize_cons, Rec.size] at hroom
    obtain ⟨env', hrun, htouch, hm', hcnt'⟩ := elementDrop_run hrom hrep.geo (hrep.used_lt hk) hm
      (show c.idx + c.record.data.length < 126 by omega)
    rw [hidx] at htouch hm'
    have hlen := hm.holds.length_table
    refine ⟨env', _, hrun, htouch, ?_, ?_⟩
    · rw [hkill]
      refine ⟨⟨_, hm', ?_, ?_⟩, ?_⟩
      · rw [add_comm]
        exact hd.giveUp hlen (le_refl c.record.size)
      · rw [SlotPage.marks_slots, hs]
        simp [recsSlots]
      · -- the count loses the slots of the record
        have hle := usedCnt_le (A := ⟨(S.page c.page).header, pre ++ c.record :: post⟩)
        rw [hpage] at hcnt
        rw [hcnt', hcnt]
        simp only [APage.usedCnt, filter_append, filter_cons, hlive,
          Rec.live_giveUp _ c.record.size_pos, if_true, recsSize_append, recsSize_cons] at hle ⊢
        simp only [Rec.size] at hle ⊢
        simp only [Bool.false_eq_true, if_false]
        omega
    · rintro Q ⟨j, hj, rfl⟩
      have hj' : j ≤ c.record.size := by
        rw [Rec.size]
        omega
      exact ⟨_, ⟨j, hj', rfl⟩, hd.giveUp hlen hj'⟩
  · rintro T ⟨A, ⟨j, hj, rfl⟩, rfl⟩
    refine ⟨j, hj, ?_⟩
    rw [Store.kill, hkill]

/-- **Writing a header and the data behind it.** -/
theorem does_elementWrite (hk : k ∈ S.used) {e : Entry} {data : List UInt8} (he : e.length = 32)
    (hcnt : entriesOf data.length = Entry.dataCnt e)
    (hroom : recsSize (S.page k).recs + (1 + entriesOf data.length) ≤ 126) :
    Does n (elementWrite rom k e data) S (.ok ()) (S.push k (.fresh e (slotsOf data))) id
      (S.Pushing k e (slotsOf data)) :=
  does_write hk he hcnt hroom fun _ _ hrep hm hle hfree =>
    elementWrite_run hrom hrep.geo (hrep.used_lt hk) hm he hle hfree

/-- **Writing a header that has no data behind it.** -/
theorem does_headerWrite (hk : k ∈ S.used) {e : Entry} (he : e.length = 32)
    (hcnt : Entry.dataCnt e = 0) (hroom : recsSize (S.page k).recs < 126) :
    Does n (headerWrite rom k e) S (.ok ()) (S.push k (.fresh e [])) id (S.Pushing k e []) := by
  refine @does_write n S k _ hk e [] he hcnt.symm hroom fun env P hrep hm hle hfree => ?_
  exact headerWrite_run hrom hrep.geo (hrep.used_lt hk) hm he hle hfree

/-- **Marking a page full.** -/
theorem does_markFull (hk : k ∈ S.used) (hs : (S.page k).searched = true) :
    Does n (pageStateAlter rom k pageFull) S (.ok ()) (S.mark k pageFull) id
      (fun T => T = S.shot ∨ T = (S.mark k pageFull).shot) := by
  refine (does_touch (fun A => A = S.page k ∨ A = (S.page k).withState pageFull) hk
    fun env hrep => ?_).mono ?_
  · obtain ⟨⟨P, hm, hd, hslots⟩, hc⟩ := hrep.pages k hk
    have hstate : P.header.state = pageActive ∨ P.header.state = pageFull := by
      rw [hd.header]
      simpa [APage.searched] using hs
    have hand : List.zipWith (· &&& ·) (bytes 2 P.header.state) (bytes 2 pageFull) =
        bytes 2 pageFull := by
      rcases hstate with h | h <;> rw [h] <;> decide
    obtain ⟨env', hrun, htouch, hm', hcnt'⟩ := pageStateAlter_run hrom hrep.geo (hrep.used_lt hk)
      hm (show pageFull < 256 ^ 2 by decide) hand
    refine ⟨env', _, hrun, htouch, ⟨⟨_, hm', hd.withState pageFull, hslots⟩, ?_⟩, ?_⟩
    · rw [hcnt', hc]
      rfl
    · rintro Q (rfl | rfl)
      · exact ⟨_, Or.inl rfl, hd⟩
      · exact ⟨_, Or.inr rfl, hd.withState pageFull⟩
  · rintro T ⟨A, rfl | rfl, rfl⟩
    · exact Or.inl (by rw [Store.setPage_self])
    · exact Or.inr rfl

end Change

end Gd32.Nvds
