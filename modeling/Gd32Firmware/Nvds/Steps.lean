import Gd32Firmware.Nvds.Put
import Gd32Firmware.Nvds.Layout

/-!
# The calls on a page that is mirrored in memory

With a device that never fails, the functions that read and write a page do what
`Layout` says of its sector. A page in use is *mirrored*: its record in memory has the
header and the table of the sector and the number of its slots (`Mirrors`). A call that
works on one page touches nothing but its record and its sector, and `Touch` also keeps
what the sector held at every moment in between, for a power cut to find.
-/

namespace Gd32.Nvds

open NorFlash LittleEndian NvdsM Function

/-! ### Geometry -/

/-- The address of a sector. -/
def FlashEnv.addr (env : FlashEnv) (k : ℕ) : ℕ := env.baseAddr + 4096 * k

/-- The partition has `n` sectors and lies on the device. -/
structure Geometry (env : FlashEnv) (n : ℕ) : Prop where
  length_eq : env.length = 4096 * n
  on_device : env.baseAddr + env.length ≤ flashTotalSize

/-- The environment after a call that succeeded. -/
def FlashEnv.did (env : FlashEnv) (p : Prim) : FlashEnv :=
  { env with dev := ⟨p.apply env.dev.flash, env.dev.log ++ [p]⟩ }

section Calls

variable {rom : NvdsRom} (hrom : rom.Reliable) {env : FlashEnv} {n : ℕ}
include hrom

theorem nvdsFlashRead_ok {offset len : ℕ} (h : offset + len ≤ env.length) :
    nvdsFlashRead rom env offset len = .ok (read env.flash (env.baseAddr + offset) len) := by
  rw [nvdsFlashRead, if_neg (by omega), if_neg (by rw [hrom.reads]; decide)]

theorem nvdsFlashWrite_ok {offset : ℕ} {data : List UInt8} (h : offset + data.length ≤ env.length) :
    nvdsFlashWrite rom offset data env =
      some (.ok (), env.did (.program (env.baseAddr + offset) data)) := by
  rw [nvdsFlashWrite, if_neg (by omega)]
  simp only [hrom.calls.issue_eq, ne_eq, not_true_eq_false, if_false]
  rfl

/-- A write inside a sector. -/
theorem nvdsFlashWrite_sector (hgeo : Geometry env n) {k : ℕ} (hk : k < n) {o : ℕ}
    {data : List UInt8} (h : o + data.length ≤ 4096) :
    nvdsFlashWrite rom (4096 * k + o) data env =
      some (.ok (), env.did (.program (env.addr k + o) data)) := by
  have hlen := hgeo.length_eq
  rw [nvdsFlashWrite_ok hrom (by omega), ← Nat.add_assoc]
  rfl

theorem nvdsFlashErase_ok (hgeo : Geometry env n) {k : ℕ} (hk : k < n) :
    nvdsFlashErase rom (4096 * k) spiFlashSecSize env =
      some (.ok (), env.did (.erase (env.addr k) 4096)) := by
  have hlen := hgeo.length_eq
  have hdev := hgeo.on_device
  rw [nvdsFlashErase, if_neg (by simp only [spiFlashSecSize]; omega)]
  rw [hrom.calls.rawFlashErase_eq _ (by decide) (by decide)
    (by simp only [spiFlashSecSize]; omega)]
  rfl

theorem entryRead_ok (hgeo : Geometry env n) {k : ℕ} (hk : k < n)
    (hbase : (env.pages k).baseAddr = 4096 * k) {idx : ℕ} (hidx : idx < 126) :
    entryRead rom env k idx = .ok (read env.flash (env.addr k + 64 + 32 * idx) 32) := by
  have hlen := hgeo.length_eq
  have haddr : env.baseAddr + (4096 * k + pageEntryOffset + idx * entrySize) =
      env.addr k + 64 + 32 * idx := by
    simp only [FlashEnv.addr, pageEntryOffset, entrySize]
    omega
  rw [entryRead, hbase, nvdsFlashRead_ok hrom, haddr, entrySize]
  simp only [pageEntryOffset, entrySize]
  omega

end Calls

/-! ### Mirrored pages and touches -/

/-- The page record of sector `k` shows the page `P` that the sector holds: that is enough to
read it. -/
structure Shows (env : FlashEnv) (k : ℕ) (P : SlotPage) : Prop where
  holds : Holds env.flash (env.addr k) P
  header : (env.pages k).header = P.header
  table : (env.pages k).entryStates = P.table
  base : (env.pages k).baseAddr = 4096 * k

/-- The page record of sector `k` mirrors the page `P` that the sector holds: it also knows
where the blank slots start. -/
structure Mirrors (env : FlashEnv) (k : ℕ) (P : SlotPage) : Prop extends Shows env k P where
  next : (env.pages k).nextFreeIdx = P.slots.length

/-- From `env` to `env'` only the page `k` is worked on: its record changes, and calls are
issued inside its sector, all of which fit; at every moment the sector holds a page in `S`. -/
structure Touch (k : ℕ) (S : SlotPage → Prop) (env env' : FlashEnv) : Prop where
  frame : ∃ p d, env' = { env with pages := update env.pages k p, dev := d }
  calls : ∃ ps, env'.dev.log = env.dev.log ++ ps ∧
    env'.dev.flash = applyAll env.dev.flash ps ∧
    (∀ p ∈ ps, p.Within (env.addr k) (env.addr k + 4096)) ∧
    Along (fun f => ∃ P, S P ∧ Holds f (env.addr k) P) env.dev.flash ps

section Touch

variable {k : ℕ} {S S' : SlotPage → Prop} {env env' env'' : FlashEnv}

theorem Touch.addr_eq (h : Touch k S env env') (j : ℕ) : env'.addr j = env.addr j := by
  obtain ⟨p, d, rfl⟩ := h.frame
  rfl

theorem Touch.geometry (h : Touch k S env env') {n : ℕ} (hgeo : Geometry env n) :
    Geometry env' n := by
  obtain ⟨p, d, rfl⟩ := h.frame
  exact ⟨hgeo.length_eq, hgeo.on_device⟩

theorem Touch.pages_of_ne (h : Touch k S env env') {j : ℕ} (hj : j ≠ k) :
    env'.pages j = env.pages j := by
  obtain ⟨p, d, rfl⟩ := h.frame
  exact update_of_ne hj _ _

theorem Touch.flash_of_ne (h : Touch k S env env') {x : ℕ}
    (hx : x < env.addr k ∨ env.addr k + 4096 ≤ x) : env'.flash x = env.flash x := by
  obtain ⟨ps, -, hflash, hw, -⟩ := h.calls
  rw [FlashEnv.flash, hflash]
  exact applyAll_of_within hw hx _

theorem Touch.mono (h : Touch k S env env') (hS : ∀ P, S P → S' P) : Touch k S' env env' := by
  obtain ⟨hframe, ps, hlog, hflash, hw, halong⟩ := h
  exact ⟨hframe, ps, hlog, hflash, hw, halong.mono fun f ⟨P, hP, hf⟩ => ⟨P, hS P hP, hf⟩⟩

theorem Touch.trans (h : Touch k S env env') (h' : Touch k S env' env'') :
    Touch k S env env'' := by
  obtain ⟨⟨p, d, rfl⟩, ps, hlog, hflash, hw, halong⟩ := h
  obtain ⟨⟨p', d', rfl⟩, qs, hlog', hflash', hw', halong'⟩ := h'
  refine ⟨⟨p', d', ?_⟩, ps ++ qs, ?_, ?_, ?_, ?_⟩
  · simp only [update_idem]
  · rw [hlog', hlog, List.append_assoc]
  · rw [hflash', hflash, applyAll_append]
  · intro q hq
    rcases List.mem_append.mp hq with hq | hq
    · exact hw q hq
    · exact hw' q hq
  · exact halong.append (hflash ▸ halong')

/-- A record is changed and nothing else. -/
theorem touch_setPage (p : PageEnv) {P : SlotPage} (hP : S P)
    (h : Holds env.flash (env.addr k) P) : Touch k S env (env.setPage k p) :=
  ⟨⟨p, env.dev, rfl⟩, [], by simp [FlashEnv.setPage], rfl, by simp, P, hP, h⟩

/-- One call inside the sector. -/
theorem touch_did {p : Prim} (hw : p.Within (env.addr k) (env.addr k + 4096))
    (hfits : p.Fits env.flash) {P Q : SlotPage} (hP : S P)
    (h : Holds env.flash (env.addr k) P) (hQ : S Q)
    (h' : Holds (p.apply env.flash) (env.addr k) Q) : Touch k S env (env.did p) :=
  ⟨⟨env.pages k, _, by rw [update_eq_self]; rfl⟩, [p], rfl, rfl, by simpa using hw,
    ⟨P, hP, h⟩, hfits, Q, hQ, h'⟩

/-- **The other sectors are left alone.** -/
theorem Touch.holds (h : Touch k S env env') {j : ℕ} (hj : j ≠ k) {Q : SlotPage}
    (hm : Holds env.flash (env.addr j) Q) : Holds env'.flash (env'.addr j) Q := by
  rw [h.addr_eq j]
  refine hm.congr fun x h1 h2 => h.flash_of_ne ?_
  simp only [FlashEnv.addr] at *
  omega

/-- **The other pages are left alone.** -/
theorem Touch.shows (h : Touch k S env env') {j : ℕ} (hj : j ≠ k) {Q : SlotPage}
    (hm : Shows env j Q) : Shows env' j Q := by
  have hpage := h.pages_of_ne hj
  refine ⟨h.holds hj hm.holds, ?_, ?_, ?_⟩
  · rw [hpage, hm.header]
  · rw [hpage, hm.table]
  · rw [hpage, hm.base]

theorem Touch.mirrors (h : Touch k S env env') {j : ℕ} (hj : j ≠ k) {Q : SlotPage}
    (hm : Mirrors env j Q) : Mirrors env' j Q :=
  ⟨h.shows hj hm.toShows, by rw [h.pages_of_ne hj, hm.next]⟩

end Touch

/-! ### Entry states -/

/-- The page with the state of one entry replaced. -/
def SlotPage.setState (P : SlotPage) (i : ℕ) (s : EntryState) : SlotPage :=
  { P with table := Nvds.setState P.table i s }

/-- The page with the states of the `j` entries from `first` on replaced. -/
def SlotPage.marks (s : EntryState) : SlotPage → ℕ → ℕ → SlotPage
  | P, _, 0 => P
  | P, first, j + 1 => marks s (P.setState first s) (first + 1) j

@[simp] theorem SlotPage.marks_slots (s : EntryState) (P : SlotPage) (first j : ℕ) :
    (P.marks s first j).slots = P.slots := by
  induction j generalizing P first with
  | zero => rfl
  | succ j ih => exact ih (P.setState first s) (first + 1)

@[simp] theorem SlotPage.marks_header (s : EntryState) (P : SlotPage) (first j : ℕ) :
    (P.marks s first j).header = P.header := by
  induction j generalizing P first with
  | zero => rfl
  | succ j ih => exact ih (P.setState first s) (first + 1)

theorem SlotPage.stateAt_marks (s : EntryState) {P : SlotPage} (hlen : P.table.length = 8)
    {first j : ℕ} (hj : first + j ≤ 126) (i : ℕ) :
    stateAt (P.marks s first j).table i =
      if first ≤ i ∧ i < first + j then s else stateAt P.table i := by
  induction j generalizing P first with
  | zero => rw [if_neg (by omega), marks]
  | succ j ih =>
    rw [marks, ih (by simpa [setState] using hlen) (by omega)]
    rcases eq_or_ne i first with rfl | hne
    · rw [if_neg (by omega), if_pos (by omega)]
      exact stateAt_setState_self hlen (by omega) s
    · rw [SlotPage.setState, stateAt_setState_of_ne hlen (by omega) s hne]
      by_cases hi : first + 1 ≤ i ∧ i < first + 1 + j
      · rw [if_pos hi, if_pos (by omega)]
      · rw [if_neg hi, if_neg (by omega)]

/-- The page in another state. -/
def SlotPage.withState (P : SlotPage) (state : ℕ) : SlotPage :=
  { P with header := { P.header with state := state } }

/-- The page with data behind its last slot. -/
def SlotPage.push (P : SlotPage) (bs : List UInt8) : SlotPage :=
  { P with slots := P.slots ++ slotsOf bs }

section Run

variable {rom : NvdsRom} (hrom : rom.Reliable) {env : FlashEnv} {n : ℕ} (hgeo : Geometry env n)
  {k : ℕ} (hk : k < n) {P : SlotPage} (hm : Mirrors env k P)
include hrom hgeo hk hm

/-- `entry_state_alter` on a mirrored page. -/
theorem entryStateAlter_run {i : ℕ} (hi : i < 126) {s : EntryState} (hs : s ≠ .illegal)
    (hb : s.Below (stateAt P.table i)) :
    ∃ env', entryStateAlter rom k i s env = some (.ok (), env') ∧
      Touch k (fun Q => Q = P ∨ Q = P.setState i s) env env' ∧ Mirrors env' k (P.setState i s) ∧
      (env'.pages k).entryCntUsed = (env.pages k).entryCntUsed := by
  have hset : entryStateSet (env.pages k).entryStates i s = .ok (setState P.table i s) := by
    rw [entryStateSet, if_neg (by simp only [entryCountPerPage]; omega), if_neg hs, hm.table]
  obtain ⟨hfits, hholds⟩ := hm.holds.programTable hi hb
  have hlen : (tableBytes (setState P.table i s)).length = 32 := by
    rw [length_tableBytes, length_setState, hm.holds.length_table]
  let env1 := env.setPage k { env.pages k with entryStates := setState P.table i s }
  have hwrite := @nvdsFlashWrite_sector rom hrom env1 n ⟨hgeo.length_eq, hgeo.on_device⟩ k hk 32
    (tableBytes (setState P.table i s)) (by omega)
  have hrun : entryStateAlter rom k i s env = some (.ok (), env1.did
      (.program (env.addr k + 32) (tableBytes (setState P.table i s)))) := by
    rw [entryStateAlter, get_bind, bind_ok (look_ok hset), modify_bind,
      entryStatesTableWrite, hm.base]
    exact hwrite
  refine ⟨_, hrun, ?_, ⟨⟨hholds, ?_, ?_, ?_⟩, ?_⟩, ?_⟩
  · refine (touch_setPage _ (Or.inl rfl) hm.holds).trans
      (touch_did ⟨?_, ?_⟩ hfits (Or.inl rfl) hm.holds (Or.inr rfl) hholds)
    · exact Nat.le_add_right _ _
    · show env.addr k + 32 + (tableBytes (setState P.table i s)).length ≤ env.addr k + 4096
      omega
  · simp [env1, FlashEnv.did, FlashEnv.setPage, SlotPage.setState, hm.header]
  · simp [env1, FlashEnv.did, FlashEnv.setPage, SlotPage.setState]
  · simp [env1, FlashEnv.did, FlashEnv.setPage, hm.base]
  · simp [env1, FlashEnv.did, FlashEnv.setPage, SlotPage.setState, hm.next]
  · simp [env1, FlashEnv.did, FlashEnv.setPage]

/-- The loop of `entry_state_range_alter`. -/
theorem forEach_entryStateAlter_run {s : EntryState} (hs : s ≠ .illegal) {first j : ℕ}
    (hj : first + j ≤ 126)
    (hb : ∀ i, first ≤ i → i < first + j → s.Below (stateAt P.table i)) :
    ∃ env', NvdsM.forEach (fun i => entryStateAlter rom k i s) (List.range' first j) env =
        some (.ok (), env') ∧
      Touch k (fun Q => ∃ i ≤ j, Q = P.marks s first i) env env' ∧
      Mirrors env' k (P.marks s first j) ∧
      (env'.pages k).entryCntUsed = (env.pages k).entryCntUsed := by
  induction j generalizing env P first with
  | zero =>
    refine ⟨env, rfl, ?_, hm, rfl⟩
    exact ⟨⟨env.pages k, env.dev, by rw [update_eq_self]⟩, [], by simp, rfl, by simp,
      P, ⟨0, le_rfl, rfl⟩, hm.holds⟩
  | succ j ih =>
    obtain ⟨env1, hrun1, htouch1, hm1, hcnt1⟩ := entryStateAlter_run hrom hgeo hk hm
      (show first < 126 by omega) hs (hb first le_rfl (by omega))
    have hlen := hm.holds.length_table
    -- the states behind the first one are the old ones
    have hb1 : ∀ i, first + 1 ≤ i → i < first + 1 + j →
        s.Below (stateAt (P.setState first s).table i) := by
      intro i h1 h2
      rw [SlotPage.setState, stateAt_setState_of_ne hlen (by omega) s (by omega)]
      exact hb i (by omega) (by omega)
    obtain ⟨env2, hrun2, htouch2, hm2, hcnt2⟩ :=
      ih (htouch1.geometry hgeo) hm1 (by omega) hb1
    refine ⟨env2, ?_, ?_, hm2, hcnt2.trans hcnt1⟩
    · rw [List.range'_succ, NvdsM.forEach, bind_ok hrun1]
      exact hrun2
    · refine (htouch1.mono ?_).trans (htouch2.mono ?_)
      · rintro Q (rfl | rfl)
        · exact ⟨0, by omega, rfl⟩
        · exact ⟨1, by omega, rfl⟩
      · rintro Q ⟨i, hi, rfl⟩
        exact ⟨i + 1, by omega, rfl⟩

/-- `entry_state_range_alter` on a mirrored page. -/
theorem entryStateRangeAlter_run {s : EntryState} (hs : s ≠ .illegal) {first cnt : ℕ}
    (hlast : first + cnt < 126)
    (hb : ∀ i, first ≤ i → i < first + (cnt + 1) → s.Below (stateAt P.table i)) :
    ∃ env', entryStateRangeAlter rom k first (first + cnt) s env = some (.ok (), env') ∧
      Touch k (fun Q => ∃ j ≤ cnt + 1, Q = P.marks s first j) env env' ∧
      Mirrors env' k (P.marks s first (cnt + 1)) ∧
      (env'.pages k).entryCntUsed = (env.pages k).entryCntUsed := by
  obtain ⟨env', hrun, h⟩ := forEach_entryStateAlter_run hrom hgeo hk hm hs
    (show first + (cnt + 1) ≤ 126 by omega) hb
  refine ⟨env', ?_, h⟩
  rw [entryStateRangeAlter, check_bind (by simp [entryCountPerPage]; omega),
    show first + cnt + 1 - first = cnt + 1 by omega]
  exact hrun

/-- `page_state_alter` on a mirrored page. -/
theorem pageStateAlter_run {state : ℕ} (hstate : state < 256 ^ 2)
    (hand : List.zipWith (· &&& ·) (bytes 2 P.header.state) (bytes 2 state) = bytes 2 state) :
    ∃ env', pageStateAlter rom k state env = some (.ok (), env') ∧
      Touch k (fun Q => Q = P ∨ Q = P.withState state) env env' ∧
      Mirrors env' k (P.withState state) ∧
      (env'.pages k).entryCntUsed = (env.pages k).entryCntUsed := by
  obtain ⟨hfits, hholds⟩ := hm.holds.programState hstate hand
  have hwrite := @nvdsFlashWrite_sector rom hrom env n hgeo k hk 6 (bytes 2 state) (by simp)
  let env1 := env.did (.program (env.addr k + 6) (bytes 2 state))
  have hrun : pageStateAlter rom k state env = some (.ok (), env1.setPage k
      { env1.pages k with header := { (env1.pages k).header with state := state } }) := by
    rw [pageStateAlter, get_bind, hm.base, bind_ok hwrite]
    rfl
  refine ⟨_, hrun, ?_, ⟨⟨hholds, ?_, ?_, ?_⟩, ?_⟩, ?_⟩
  · refine (touch_did ⟨?_, ?_⟩ hfits (Or.inl rfl) hm.holds (Or.inr rfl) hholds).trans
      (touch_setPage _ (Or.inr rfl) hholds)
    · exact Nat.le_add_right _ _
    · show env.addr k + 6 + (bytes 2 state).length ≤ env.addr k + 4096
      rw [length_bytes]
      omega
  · simp [env1, FlashEnv.did, FlashEnv.setPage, SlotPage.withState, hm.header]
  · simp [env1, FlashEnv.did, FlashEnv.setPage, SlotPage.withState, hm.table]
  · simp [env1, FlashEnv.did, FlashEnv.setPage, hm.base]
  · simp [env1, FlashEnv.did, FlashEnv.setPage, SlotPage.withState, hm.next]
  · simp [env1, FlashEnv.did, FlashEnv.setPage]

/-- Data go behind the last slot of a mirrored page, and the record counts them. -/
theorem slotsWrite_run {bs : List UInt8} (hroom : P.slots.length + entriesOf bs.length ≤ 126) :
    ∃ env1, nvdsFlashWrite rom (4096 * k + (64 + 32 * P.slots.length)) bs env =
        some (.ok (), env1) ∧
      env1.pages = env.pages ∧
      let p := addUsed { env.pages k with
        nextFreeIdx := (env.pages k).nextFreeIdx + entriesOf bs.length } (entriesOf bs.length)
      Touch k (fun Q => Q = P ∨ Q = P.push bs) env (env1.setPage k p) ∧
      Mirrors (env1.setPage k p) k (P.push bs) := by
  obtain ⟨hfits, hholds⟩ := hm.holds.programSlots hroom
  have hlen : 64 + 32 * P.slots.length + bs.length ≤ 4096 := by
    simp only [entriesOf, entrySize] at hroom
    omega
  have hwrite := @nvdsFlashWrite_sector rom hrom env n hgeo k hk _ bs hlen
  rw [← Nat.add_assoc (env.addr k)] at hwrite
  refine ⟨_, hwrite, rfl, ?_, ⟨⟨hholds, ?_, ?_, ?_⟩, ?_⟩⟩
  · refine (touch_did ⟨?_, ?_⟩ hfits (Or.inl rfl) hm.holds (Or.inr rfl) hholds).trans
      (touch_setPage _ (Or.inr rfl) hholds)
    · show env.addr k ≤ env.addr k + 64 + 32 * P.slots.length
      omega
    · show env.addr k + 64 + 32 * P.slots.length + bs.length ≤ env.addr k + 4096
      omega
  · simp [FlashEnv.did, FlashEnv.setPage, SlotPage.push, addUsed, hm.header]
  · simp [FlashEnv.did, FlashEnv.setPage, SlotPage.push, addUsed, hm.table]
  · simp [FlashEnv.did, FlashEnv.setPage, addUsed, hm.base]
  · simp [FlashEnv.did, FlashEnv.setPage, SlotPage.push, addUsed, hm.next]

/-- `entry_write` on a mirrored page. -/
theorem entryWrite_run {e : Entry} (he : e.length = 32) (hroom : P.slots.length < 126) :
    ∃ env', entryWrite rom k e env = some (.ok (), env') ∧
      Touch k (fun Q => Q = P ∨ Q = P.push e) env env' ∧ Mirrors env' k (P.push e) ∧
      (env'.pages k).entryCntUsed = ((env.pages k).entryCntUsed + 1) % 2 ^ 16 := by
  have hcnt : entriesOf e.length = 1 := by
    rw [he]
    rfl
  obtain ⟨env1, hwrite, hpages, htouch, hm'⟩ := slotsWrite_run hrom hgeo hk hm
    (show P.slots.length + entriesOf e.length ≤ 126 by omega)
  rw [hcnt] at htouch hm'
  refine ⟨_, ?_, htouch, hm', ?_⟩
  · have haddr : 4096 * k + pageEntryOffset + P.slots.length * entrySize =
        4096 * k + (64 + 32 * P.slots.length) := by
      simp only [pageEntryOffset, entrySize]
      omega
    rw [entryWrite, get_bind, check_bind (by simpa [entryCountPerPage, hm.next]),
      hm.base, hm.next, haddr, bind_ok hwrite, ← hm.next, ← hpages]
    rfl
  · simp [FlashEnv.setPage, addUsed]

/-- The room behind the slots has its entries free. -/
def SlotPage.TailFree (P : SlotPage) : Prop := ∀ i, P.slots.length ≤ i → i < 126 →
  stateAt P.table i = .free

/-- What the sector holds while an element is written. -/
def SlotPage.Writing (P : SlotPage) (e : Entry) (data : List UInt8) (Q : SlotPage) : Prop :=
  Q = P ∨ Q = P.push e ∨ ∃ j ≤ entriesOf data.length + 1,
    Q = ((P.push e).push data).marks .used P.slots.length j

/-- `P` with an element written behind its last slot. -/
def SlotPage.written (P : SlotPage) (e : Entry) (data : List UInt8) : SlotPage :=
  ((P.push e).push data).marks .used P.slots.length (entriesOf data.length + 1)

/-- Writing a header and the data behind it to a mirrored page. -/
theorem elementWrite_run {e : Entry} (he : e.length = 32) {data : List UInt8}
    (hroom : P.slots.length + 1 + entriesOf data.length ≤ 126) (hfree : P.TailFree) :
    ∃ env', elementWrite rom k e data env = some (.ok (), env') ∧
      Touch k (P.Writing e data) env env' ∧ Mirrors env' k (P.written e data) ∧
      (env'.pages k).entryCntUsed =
        ((env.pages k).entryCntUsed + 1 + entriesOf data.length) % 2 ^ 16 := by
  obtain ⟨env1, hrun1, htouch1, hm1, hcnt1⟩ := entryWrite_run hrom hgeo hk hm he (by omega)
  have hlen1 : (P.push e).slots.length = P.slots.length + 1 := by
    rw [SlotPage.push, slotsOf_entry he]
    simp
  have hgeo1 := htouch1.geometry hgeo
  obtain ⟨env2, hrun2, hpages2, htouch2, hm2⟩ := slotsWrite_run hrom hgeo1 hk hm1
    (show (P.push e).slots.length + entriesOf data.length ≤ 126 by omega)
  have hgeo2 := htouch2.geometry hgeo1
  have hbelow : ∀ i, P.slots.length ≤ i → i < P.slots.length + (entriesOf data.length + 1) →
      EntryState.used.Below (stateAt ((P.push e).push data).table i) := by
    intro i h1 h2
    rw [show ((P.push e).push data).table = P.table from rfl, hfree i h1 (by omega)]
    exact EntryState.below_free _
  obtain ⟨env3, hrun3, htouch3, hm3, hcnt3⟩ := entryStateRangeAlter_run hrom hgeo2 hk hm2
    (show EntryState.used ≠ .illegal by decide)
    (show P.slots.length + entriesOf data.length < 126 by omega) hbelow
  refine ⟨env3, ?_, ?_, hm3, ?_⟩
  · have haddr : 4096 * k + pageEntryOffset + (P.push e).slots.length * entrySize =
        4096 * k + (64 + 32 * (P.push e).slots.length) := by
      simp only [pageEntryOffset, entrySize]
      omega
    rw [elementWrite, get_bind, bind_ok hrun1, get_bind, entryDataWrite,
      hm1.base, hm1.next, haddr, bind_ok hrun2, modify_bind, hm.next,
      u8_of_lt (by omega), u8_of_lt (by omega), hpages2]
    exact hrun3
  · refine ((htouch1.mono ?_).trans (htouch2.mono ?_)).trans (htouch3.mono ?_)
    · rintro Q (rfl | rfl)
      · exact Or.inl rfl
      · exact Or.inr (Or.inl rfl)
    · rintro Q (rfl | rfl)
      · exact Or.inr (Or.inl rfl)
      · exact Or.inr (Or.inr ⟨0, by omega, rfl⟩)
    · rintro Q ⟨j, hj, rfl⟩
      exact Or.inr (Or.inr ⟨j, hj, rfl⟩)
  · rw [hcnt3]
    simp only [FlashEnv.setPage, update_self, addUsed, hcnt1]
    omega

/-- Writing a header that has no data behind it to a mirrored page. -/
theorem headerWrite_run {e : Entry} (he : e.length = 32) (hroom : P.slots.length < 126)
    (hfree : P.TailFree) :
    ∃ env', headerWrite rom k e env = some (.ok (), env') ∧
      Touch k (P.Writing e []) env env' ∧ Mirrors env' k (P.written e []) ∧
      (env'.pages k).entryCntUsed = ((env.pages k).entryCntUsed + 1) % 2 ^ 16 := by
  obtain ⟨env1, hrun1, htouch1, hm1, hcnt1⟩ := entryWrite_run hrom hgeo hk hm he hroom
  have hnil : (P.push e).push [] = P.push e := by
    simp [SlotPage.push, slotsOf, entriesOf, entrySize]
  have hbelow : ∀ i, P.slots.length ≤ i → i < P.slots.length + (0 + 1) →
      EntryState.used.Below (stateAt (P.push e).table i) := by
    intro i h1 h2
    rw [show (P.push e).table = P.table from rfl, hfree i h1 (by omega)]
    exact EntryState.below_free _
  obtain ⟨env2, hrun2, htouch2, hm2, hcnt2⟩ := entryStateRangeAlter_run hrom
    (htouch1.geometry hgeo) hk hm1 (show EntryState.used ≠ .illegal by decide)
    (show P.slots.length + 0 < 126 by omega) hbelow
  refine ⟨env2, ?_, ?_, ?_, hcnt2.trans hcnt1⟩
  · rw [headerWrite, get_bind, bind_ok hrun1, hm.next, u8_of_lt (by omega)]
    exact hrun2
  · refine (htouch1.mono ?_).trans (htouch2.mono ?_)
    · rintro Q (rfl | rfl)
      · exact Or.inl rfl
      · exact Or.inr (Or.inl rfl)
    · rintro Q ⟨j, hj, rfl⟩
      exact Or.inr (Or.inr ⟨j, hj, by rw [hnil]⟩)
  · rw [SlotPage.written, hnil]
    exact hm2

/-- Giving up the entries of an element of a mirrored page. -/
theorem elementDrop_run {i cnt : ℕ} (hlast : i + cnt < 126) :
    ∃ env', elementDrop rom k i cnt env = some (.ok (), env') ∧
      Touch k (fun Q => ∃ j ≤ cnt + 1, Q = P.marks .updated i j) env env' ∧
      Mirrors env' k (P.marks .updated i (cnt + 1)) ∧
      (env'.pages k).entryCntUsed =
        ((env.pages k).entryCntUsed + 2 ^ 16 - (cnt + 1) % 2 ^ 16) % 2 ^ 16 := by
  obtain ⟨env1, hrun1, htouch1, hm1, hcnt1⟩ := entryStateRangeAlter_run hrom hgeo hk hm
    (show EntryState.updated ≠ .illegal by decide) hlast
    (fun i _ _ => EntryState.updated_below (stateAt P.table i))
  refine ⟨env1.setPage k (subUsed (env1.pages k) (cnt + 1)), ?_, ?_, ?_, ?_⟩
  · rw [elementDrop, u8_of_lt (by omega), bind_ok hrun1]
    rfl
  · exact htouch1.trans (touch_setPage _ ⟨cnt + 1, le_rfl, rfl⟩ hm1.holds)
  · refine ⟨⟨hm1.holds, ?_, ?_, ?_⟩, ?_⟩
    · simp [FlashEnv.setPage, subUsed, hm1.header]
    · simp [FlashEnv.setPage, subUsed, hm1.table]
    · simp [FlashEnv.setPage, subUsed, hm1.base]
    · simp [FlashEnv.setPage, subUsed, hm1.next]
  · simp only [FlashEnv.setPage, update_self, subUsed, hcnt1]

end Run

end Gd32.Nvds
