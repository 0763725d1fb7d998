import Gd32Firmware.Nvds.BulkGet
import Gd32Firmware.Nvds.Walks

/-!
# The checksums of stored data

The headers of middle elements and of bulk fragments have a field for the checksum of their data.
`data_element_put` computes it over the value. `bulk_element_put` computes it over as many bytes as
the fragment has, but from the start of the value: the pointer `buf` is not moved on as the offset
is, from which the data is written. So the field of a fragment is right exactly if the first bytes
of the value have the same checksum as those of the fragment (`Nvds.checksums_right_iff`),
as they have for the first fragment. Reading does not look at the field, and garbage collection
copies it.
-/

namespace Gd32

open List Multiset

variable {k i : ℕ} {v rest : List UInt8} {lens : List ℕ}

namespace Nvds

open NorFlash LittleEndian

/-! ### Live elements -/

section Live

variable (rom : NvdsRom)

/-- The indices that a walk over a page comes to. -/
inductive Visited (env : FlashEnv) (k : ℕ) : ℕ → Prop
  | zero : Visited env k 0
  | next {i j : ℕ} (before : Visited env k i) (step : nextEntry rom env k i = some j) :
    Visited env k j

/-- A header in use: the walks come to it, on a page that is searched. -/
structure LiveAt (env : FlashEnv) (k i : ℕ) (entry : Entry) : Prop where
  used : k ∈ env.pageUsed
  searched : pageSearched (env.pages k) = true
  visited : Visited rom env k i
  inside : i < entryCountPerPage
  state : stateAt (env.pages k).entryStates i = .used
  read : entryRead rom env k i = .ok entry

/-- The bytes in the data entries of an element. -/
def storedData (env : FlashEnv) (k i : ℕ) (entry : Entry) :
    Option (List UInt8 × Except NvdsErr Unit) :=
  copyData rom env k (u8 (i + entriesOf (Entry.len entry))) 257 (u8 (i + 1)) (Entry.len entry)

/-- The checksums of all middle elements and fragments are those of their data. -/
def ChecksumsRight (env : FlashEnv) : Prop :=
  ∀ k i entry, LiveAt rom env k i entry → Entry.type entry = .middle ∨ Entry.type entry = .bulk →
    ∃ bytes, storedData rom env k i entry = some (bytes, .ok ()) ∧
      Entry.datacrc32 entry = elementDataCrc32Calc bytes

/-- For every value and every fragment of it: as many bytes from the start of the value as the
fragment has have the checksum of the bytes of the fragment. -/
def FirstBytesAgree (env : FlashEnv) : Prop :=
  ∀ name ns key v, (Call.get name key none).Valid →
    nsIndexByNamespace rom name false env = some (.ok ns, env) →
    readOut rom env name key (some elementBulkMaxSize) = some ⟨.ok (), some v.length, v⟩ →
      ∀ f, elementDataCrc32Calc (v.take (fragLen rom env ns key f)) =
        elementDataCrc32Calc ((v.drop (fragLens rom env ns key f 0)).take
          (fragLen rom env ns key f))

end Live

/-! ### The live elements are the cells -/

section Cells

variable {rom : NvdsRom} (hrom : rom.Reliable) {n : ℕ} {env : FlashEnv} {S : Store}
  (hview : View n env S)
include hrom hview

/-- A walk goes from record to record. -/
theorem nextEntry_rec (hk : k ∈ S.used) {pre post : List Rec} {r : Rec}
    (hrecs : (S.page k).recs = pre ++ r :: post) :
    nextEntry rom env k (recsSize pre) = some (recsSize (pre ++ [r])) := by
  obtain ⟨hin, hstate, hread, hnext, -⟩ := hview.read_rec hrom hk hrecs
  rw [entryStateGet, if_neg hin] at hstate
  refine nextEntry_eq_some.mpr ⟨by omega, ?_, r.hdr, hread, hnext.symm⟩
  rw [Except.ok.inj hstate]
  cases r.live <;> simp

theorem visited_iff (hk : k ∈ S.used) :
    Visited rom env k i ↔ ∃ pre post, (S.page k).recs = pre ++ post ∧ i = recsSize pre := by
  constructor
  · intro h
    induction h with
    | zero => exact ⟨[], _, rfl, rfl⟩
    | next _ step ih =>
      obtain ⟨pre, post, hrecs, rfl⟩ := ih
      cases post with
      | nil =>
        -- nothing follows the last record
        obtain ⟨hlt, hfree, -⟩ := nextEntry_eq_some.mp step
        rcases hview.read_end hk (by simpa using hrecs) with hge | hend
        · omega
        · rw [entryStateGet, if_neg (by omega)] at hend
          exact absurd (Except.ok.inj hend) hfree
      | cons r post =>
        rw [nextEntry_rec hrom hview hk hrecs] at step
        exact ⟨pre ++ [r], post, by simpa using hrecs, (Option.some.inj step).symm⟩
  · rintro ⟨pre, post, hrecs, rfl⟩
    induction pre using List.reverseRecOn generalizing post with
    | nil => exact .zero
    | append_singleton pre r ih =>
      have hrecs' : (S.page k).recs = pre ++ r :: post := by simpa using hrecs
      exact .next (ih (r :: post) hrecs') (nextEntry_rec hrom hview hk hrecs')

/-- **The live elements** are the records in use. -/
theorem liveAt_iff {entry : Entry} :
    LiveAt rom env k i entry ↔
      ∃ c ∈ S.cells, c.record.live = true ∧ c.page = k ∧ c.idx = i ∧ c.record.hdr = entry := by
  constructor
  · rintro ⟨hused, hsearched, hvisited, hin, hstate, hread⟩
    have hk : k ∈ S.used := by rwa [← hview.used_eq]
    obtain ⟨pre, post, hrecs, rfl⟩ := (visited_iff hrom hview hk).mp hvisited
    cases post with
    | nil =>
      rcases hview.read_end hk (by simpa using hrecs) with hge | hend
      · omega
      · rw [entryStateGet, if_neg (by omega), hstate] at hend
        cases hend
    | cons r post =>
      obtain ⟨-, hst, hr, -⟩ := hview.read_rec hrom hk hrecs
      rw [entryStateGet, if_neg (by omega), hstate] at hst
      have hlive : r.live = true := by
        cases hl : r.live
        · rw [hl] at hst
          cases hst
        · rfl
      refine ⟨⟨k, recsSize pre, r⟩, ?_, hlive, rfl, rfl, Except.ok.inj (hr.symm.trans hread)⟩
      rw [pageSearched_eq hview hk] at hsearched
      refine mem_flatMap.mpr ⟨k, hk, ?_⟩
      rw [Store.cellsOf, if_pos hsearched, hrecs, pageCells_append]
      simp [pageCells]
  · rintro ⟨c, hc, hlive, rfl, rfl, rfl⟩
    obtain ⟨X, Y, hcells⟩ := append_of_mem hc
    obtain ⟨l₁, l₂, pre, post, hused, hsearched, hrecs, hidx, -, -⟩ := split_cells hcells
    have hk : c.page ∈ S.used := by
      rw [hused]
      simp
    have hvisited := (visited_iff hrom hview hk).mpr ⟨pre, _, hrecs, rfl⟩
    obtain ⟨hin, hst, hr, -⟩ := hview.read_rec hrom hk hrecs
    rw [entryStateGet, if_neg hin, if_pos hlive] at hst
    rw [hidx]
    exact ⟨by rwa [hview.used_eq], by rwa [pageSearched_eq hview hk], hvisited, by omega,
      Except.ok.inj hst, hr⟩

end Cells

/-! ### The checksums of a value -/

/-- The first bytes of the value agree with fragments of the given lengths, which hold `rest`. -/
def FirstAgree (v : List UInt8) : List UInt8 → List ℕ → Prop
  | _, [] => True
  | rest, l :: lens => elementDataCrc32Calc (v.take l) = elementDataCrc32Calc (rest.take l) ∧
    FirstAgree v (rest.drop l) lens

/-- The checksum in the header of a record is that of its data. -/
def Body.Checked (b : Body) : Prop :=
  Entry.datacrc32 b.1 = elementDataCrc32Calc (b.2.flatten.take (Entry.len b.1))

section Value

variable {ns : ℕ} (hns : ns < 256) {key : CString} (hkey : key.len < keyNameMaxSize)
include hns hkey

theorem checked_middle (hle : v.length ≤ 256) :
    Body.Checked (middleEntry ns key v, slotsOf v) := by
  obtain ⟨-, hlen, hcrc⟩ := fields_middle hns hkey hle
  rw [Body.Checked, hlen, hcrc, take_flatten_slotsOf]

/-- A fragment has the checksum of the first bytes of the value. -/
theorem checked_frag (v : List UInt8) {l : ℕ} (hi : i < 32) (hl : l ≤ 12800)
    (hrest : l ≤ rest.length) :
    Body.Checked (bulkEntry ns key v i l, slotsOf (rest.take l)) ↔
      elementDataCrc32Calc (v.take l) = elementDataCrc32Calc (rest.take l) := by
  obtain ⟨-, hlen, -⟩ := fields_bulk hns hkey v hi hl
  have hcrc : Entry.datacrc32 (bulkEntry ns key v i l) = elementDataCrc32Calc (v.take l) :=
    (inFields_bulk hns hkey v hi hl).info_eq (UInt32.toNat_lt _) rfl
  have hdata := take_flatten_slotsOf (rest.take l)
  rw [length_take, Nat.min_eq_left hrest] at hdata
  rw [Body.Checked, hlen, hcrc, hdata]

theorem checked_frags
    (hcount : i + lens.length ≤ 32) (hsum : lens.sum = rest.length) (hle : lens.sum ≤ 12800) :
    (∀ b ∈ fragBodies ns key v i rest lens, Body.Checked b) ↔ FirstAgree v rest lens := by
  induction lens generalizing i rest with
  | nil => simp [fragBodies, FirstAgree]
  | cons l lens ih =>
    rw [length_cons] at hcount
    rw [List.sum_cons] at hsum hle
    rw [fragBodies, List.forall_mem_cons, FirstAgree, checked_frag hns hkey v (by omega) (by omega)
      (by omega), ih (by omega) (by rw [length_drop]; omega) (by omega)]

/-- **The records of a value** have right checksums exactly if its first bytes agree with its
fragments. -/
theorem Keeps.checked_iff {B : Multiset Body} (h : Keeps ns key v B) :
    (∀ b ∈ B, Entry.type b.1 = .middle ∨ Entry.type b.1 = .bulk → Body.Checked b) ↔
      ∀ lens, B = (bulkInfoEntry ns key lens.length v.length, []) ::ₘ
        (fragBodies ns key v 0 v lens : List Body) → v.length ≤ 12800 → Cuts v lens →
        FirstAgree v v lens := by
  constructor
  · rintro hall lens rfl hle hcuts
    have hcount : 0 + lens.length ≤ 32 := by simpa using hcuts.count_le
    have hsum : lens.sum ≤ 12800 := by rw [hcuts.sum_eq]; exact hle
    refine (checked_frags hns hkey hcount hcuts.sum_eq hsum).mp fun b hb => ?_
    exact hall b (mem_cons_of_mem (mem_coe.mpr hb))
      (Or.inr (mem_fragBodies hns hkey hcount hsum hb).2.2.1)
  · intro hall b hb htype
    cases h with
    | small hpos hle =>
      rw [Multiset.mem_singleton.mp hb, (fields_small hns hkey hle).1] at htype
      simp at htype
    | middle hlt hle =>
      rw [Multiset.mem_singleton.mp hb]
      exact checked_middle hns hkey hle
    | @bulk lens hlt hle hcuts =>
      have hcount : 0 + lens.length ≤ 32 := by simpa using hcuts.count_le
      have hsum : lens.sum ≤ 12800 := by rw [hcuts.sum_eq]; exact hle
      rcases Multiset.mem_cons.mp hb with rfl | hb
      · rw [(fields_bulkInfo hns hkey hcuts.count_le hle).1] at htype
        simp at htype
      · exact (checked_frags hns hkey hcount hcuts.sum_eq hsum).mpr (hall lens rfl hle hcuts) b
          (mem_coe.mp hb)

end Value

/-! ### The fragments that are found -/

section Found

variable {rom : NvdsRom} (hrom : rom.Reliable) {n : ℕ} {env : FlashEnv} {S : Store}
  (hview : View n env S) {ns : ℕ} (hns : ns < 256) {key : CString} (hkey : key.len < keyNameMaxSize)
include hrom hview

/-- Without a fragment of the number, none is found. -/
theorem fragLen_of_none {f : ℕ} (h : ∀ b ∈ own n S.shot ns key, Entry.type b.1 = .bulk →
    Entry.fragno b.1 ≠ f) : fragLen rom env ns key f = 0 := by
  have hfound := find_own hview.nodup_used hview.used_lt ns key
    fun b => decide (Entry.type b.1 = .bulk) && decide (Entry.fragno b.1 = f)
  rw [fragLen, fragAt, bulkFragFind_start hrom hview]
  split at hfound
  · next hnone =>
    rw [hnone]
    rfl
  · next c hsome =>
    obtain ⟨-, hmem, hq⟩ := hfound
    simp only [Bool.and_eq_true, decide_eq_true_eq] at hq
    exact absurd hq.2 (h _ hmem hq.1)

include hns hkey

theorem FragsFrom.fragLen_head {l : ℕ}
    (h : FragsFrom n S ns key v i rest (l :: lens)) : fragLen rom env ns key i = l := by
  obtain ⟨c, -, hfind, hlen, -⟩ := h.find hrom hview hns hkey
  rw [fragLen, fragAt, hfind]
  exact hlen

/-- The agreement, by the numbers of the fragments. -/
theorem FragsFrom.agree_iff
    (h : FragsFrom n S ns key v i rest lens) :
    FirstAgree v rest lens ↔ ∀ f, elementDataCrc32Calc (v.take (fragLen rom env ns key (i + f))) =
      elementDataCrc32Calc ((rest.drop (fragLens rom env ns key f i)).take
        (fragLen rom env ns key (i + f))) := by
  induction lens generalizing i rest with
  | nil =>
    refine iff_of_true trivial fun f => ?_
    rw [fragLen_of_none hrom hview, take_zero, take_zero]
    intro b hb htype hno
    exact absurd (h.only b hb htype (by omega)) (by simp [fragBodies])
  | cons l lens ih =>
    have hhead := h.fragLen_head hrom hview hns hkey
    rw [FirstAgree, ih (h.tail hns hkey)]
    constructor
    · rintro ⟨hfirst, hrest⟩ f
      rcases f with _ | f
      · simpa [fragLens, hhead] using hfirst
      · have hf := hrest f
        rw [drop_drop, show i + 1 + f = i + (f + 1) by omega] at hf
        rw [fragLens_succ, hhead]
        exact hf
    · intro hall
      refine ⟨by simpa [fragLens, hhead] using hall 0, fun f => ?_⟩
      have hf := hall (f + 1)
      rw [fragLens_succ, hhead] at hf
      rw [drop_drop, show i + 1 + f = i + (f + 1) by omega]
      exact hf

end Found

/-! ### All values -/

section All

variable {rom : NvdsRom} (hrom : rom.Reliable) {n slack : ℕ} {env : FlashEnv} {S : Store}
  {m : Contents} (h : Well n slack False none env S m)

theorem elementTypes_data {e : Entry} (h : Entry.type e = .middle ∨ Entry.type e = .bulk) :
    Entry.dataCnt e = entriesOf (Entry.len e) := by
  rw [Entry.dataCnt]
  rcases h with h | h <;> rw [h]

include hrom h

/-- The data of a record in use. -/
theorem Well.storedData_eq {c : Cell} (hc : c ∈ S.cells)
    (htype : Entry.type c.record.hdr = .middle ∨ Entry.type c.record.hdr = .bulk) :
    storedData rom env c.page c.idx c.record.hdr =
      some (c.record.data.flatten.take (Entry.len c.record.hdr), .ok ()) := by
  have hdata := (wf_cell h.rep.view hc).length_data
  rw [elementTypes_data htype] at hdata
  exact copyData_cell hrom h.rep.view hc hdata.symm

/-- The checksums are right exactly if those of the records in use are. -/
theorem Well.checked_iff :
    ChecksumsRight rom env ↔ ∀ b ∈ liveOf n S.shot,
      Entry.type b.1 = .middle ∨ Entry.type b.1 = .bulk → Body.Checked b := by
  have hview := h.rep.view
  constructor
  · intro hall b hb htype
    obtain ⟨c, hc, hlive, rfl⟩ := cell_of_mem_liveOf hview.nodup_used hview.used_lt hb
    obtain ⟨bytes, hdata, hcrc⟩ := hall c.page c.idx c.record.hdr
      ((liveAt_iff hrom hview).mpr ⟨c, hc, hlive, rfl, rfl, rfl⟩) htype
    rw [h.storedData_eq hrom hc htype] at hdata
    obtain ⟨rfl, -⟩ := Prod.mk.inj (Option.some.inj hdata)
    exact hcrc
  · intro hall k i entry hlive htype
    obtain ⟨c, hc, hl, rfl, rfl, rfl⟩ := (liveAt_iff hrom hview).mp hlive
    exact ⟨_, h.storedData_eq hrom hc htype,
      hall _ (body_mem_liveOf hview.nodup_used hview.used_lt hc hl) htype⟩

omit hrom in
/-- A record with data entries belongs to a namespace that has a name, or to the one without. -/
theorem Well.exists_name {b : Body} (hb : b ∈ liveOf n S.shot)
    (htype : Entry.type b.1 = .middle ∨ Entry.type b.1 = .bulk) :
    ∃ name, NameOk name ∧ nsIndex (nsIds env.nsList) name = some (Entry.ns b.1) := by
  obtain ⟨-, hown⟩ := h.kept.own_key hb
  by_cases hzero : Entry.ns b.1 = 0
  · -- a definition is a small element
    rw [hzero] at hown
    have hne : recsOf (liveOf n S.shot) 0 (Body.key b) ≠ 0 := fun he =>
      notMem_zero b (he ▸ hown)
    obtain ⟨d, hd, hkey⟩ := h.named.only _ hne
    have hkeeps := h.named.defined d hd
    rw [← hkey] at hown
    have hsmall : Entry.type b.1 = .small := by
      generalize recsOf (liveOf n S.shot) 0 d.1 = B at hkeeps hown
      cases hkeeps with
      | small hpos hle =>
        rw [Multiset.mem_singleton.mp hown]
        exact (fields_small (by decide) (h.named.range d hd).2.2 hle).1
      | middle hlt => simp at hlt
      | bulk hlt => simp at hlt
    rw [hsmall] at htype
    simp at htype
  by_cases hnull : Entry.ns b.1 = namespaceNullIdx
  · exact ⟨none, fun c hc => absurd hc (by simp), by rw [hnull]; rfl⟩
  · obtain ⟨d, hd, hidx⟩ := h.named.known b hb hzero hnull
    refine ⟨some d.1, fun c hc => Option.some.inj hc ▸ (h.named.range d hd).2.2, ?_⟩
    rw [nsIndex_some h.named.names, ← hidx]
    exact hd

/-- The name of an index, and the value of a key. -/
theorem Well.value_of_index {name : Option CString} {ns : ℕ} {key : CString}
    (hvalid : (Call.get name key none).Valid)
    (hns : nsIndexByNamespace rom name false env = some (.ok ns, env))
    (hread : readOut rom env name key (some elementBulkMaxSize) = some ⟨.ok (), some v.length, v⟩) :
    ns < 256 ∧ m name key = some v ∧ Keeps ns key v (own n S.shot ns key) := by
  obtain ⟨hname, hkey⟩ := hvalid
  rcases hi : nsIndex (nsIds env.nsList) name with _ | i
  · rcases name with _ | c
    · exact absurd hi (by simp [nsIndex])
    · rw [nsIndexByNamespace_none rom (hname c rfl) hi] at hns
      cases hns
  rw [nsIndexByNamespace_some rom hname hi] at hns
  obtain rfl : i = ns := Except.ok.inj (Prod.mk.inj (Option.some.inj hns)).1
  have hhold := h.shown.holding name i key hi hkey
  rw [h.readOut_eq hrom hname hkey] at hread
  rcases hm : m name key with _ | w
  · rw [hm] at hread
    exact absurd hread (by simp [getSpec])
  · rw [hm] at hread hhold
    have hw : w = v := by
      rw [getSpec] at hread
      split at hread <;> simp at hread
      exact hread.2
    exact ⟨nsIndex_lt h.nsIds_lt hi, by rw [hw], hw ▸ hhold⟩

/-- **The checksums of a storage in order.** -/
theorem Well.checksums_iff : ChecksumsRight rom env ↔ FirstBytesAgree rom env := by
  have hview := h.rep.view
  rw [h.checked_iff hrom]
  constructor
  · intro hall name ns key v hvalid hidx hread f
    obtain ⟨hns, -, hkeeps⟩ := h.value_of_index hrom hvalid hidx hread
    have hchecked := (hkeeps.checked_iff hns hvalid.2).mp fun b hb =>
      hall b (mem_of_mem_filter hb)
    -- only a bulk value has fragments
    have hnofrag : (∀ b ∈ own n S.shot ns key, Entry.type b.1 ≠ .bulk) →
        elementDataCrc32Calc (v.take (fragLen rom env ns key f)) =
          elementDataCrc32Calc ((v.drop (fragLens rom env ns key f 0)).take
            (fragLen rom env ns key f)) := by
      intro hnone
      rw [fragLen_of_none hrom hview fun b hb htype => absurd htype (hnone b hb), take_zero,
        take_zero]
    generalize hB : own n S.shot ns key = B at hkeeps hchecked hnofrag
    cases hkeeps with
    | small hpos hle =>
      refine hnofrag fun b hb => ?_
      rw [Multiset.mem_singleton.mp hb, (fields_small hns hvalid.2 hle).1]
      simp
    | middle hlt hle =>
      refine hnofrag fun b hb => ?_
      rw [Multiset.mem_singleton.mp hb, (fields_middle hns hvalid.2 hle).1]
      simp
    | @bulk lens hlt hle hcuts =>
      have hfrom := fragsFrom_of_bulk hns hvalid.2 hle hcuts hB
      have hagree := (hfrom.agree_iff hrom hview hns hvalid.2).mp (hchecked lens rfl hle hcuts) f
      rwa [Nat.zero_add] at hagree
  · intro hall b hb htype
    obtain ⟨name, hname, hi⟩ := h.exists_name hb htype
    obtain ⟨hkey, hown⟩ := h.kept.own_key hb
    have hns := nsIndex_lt h.nsIds_lt hi
    have hhold := h.shown.holding name _ (Body.key b) hi hkey
    rcases hm : m name (Body.key b) with _ | v
    · rw [hm] at hhold
      exact absurd (hhold ▸ hown) (notMem_zero b)
    rw [hm] at hhold
    refine (Keeps.checked_iff hns hkey hhold).mpr (fun lens hB hle hcuts => ?_) b hown htype
    have hfrom := fragsFrom_of_bulk hns hkey hle hcuts hB
    refine (hfrom.agree_iff hrom hview hns hkey).mpr fun f => ?_
    rw [Nat.zero_add]
    refine hall name _ (Body.key b) v ⟨hname, hkey⟩
      (nsIndexByNamespace_some rom hname hi false) ?_ f
    rw [h.readOut_eq hrom hname hkey, hm, getSpec, if_neg (by simp [elementBulkMaxSize]; omega)]

end All

/-- A value of 4001 bytes, all of them zero but the last one. -/
def lastByteSet : List UInt8 := List.replicate 4000 0 ++ [1]

set_option maxRecDepth 100000 in
theorem put_lastByteSet :
    (match nvdsFlashEnvInit steadyRom nvdsFlashInternalAddr nvdsFlashInternalSize erasedDev with
      | some (.ok (), env₀) =>
        match (Event.call (.put none keyA lastByteSet)).run steadyRom env₀ with
        | some (_, env) =>
          decide (1 ∈ env.pageUsed) && pageSearched (env.pages 1) &&
            decide (stateAt (env.pages 1).entryStates 0 = .used) &&
            match entryRead steadyRom env 1 0 with
            | .ok entry => decide (Entry.type entry = .bulk) &&
              decide (storedData steadyRom env 1 0 entry = some ([1], .ok ())) &&
              decide (Entry.datacrc32 entry ≠ elementDataCrc32Calc [1])
            | .error _ => false
        | none => false
      | _ => false) = true := by
  decide +kernel

end Nvds

end Gd32
