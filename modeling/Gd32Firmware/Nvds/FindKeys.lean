import Gd32Firmware.Nvds.DelKeysRuns

/-!
# Listing the keys of a namespace

`nvds_flash.c`, `nvds_find_keys_by_namespace`: the callback gets every header in use of the
namespace that is not a fragment, with the length field of the header. This is the length of the
value for a small or a middle element; for a bulk element it is the number of fragments, and the
length of the value is in another field. So the listing is exact as long as no value of the
namespace is in fragments (`Nvds.findKeys_exact_iff`).
-/

namespace Gd32

open List Multiset Multiset Option

variable {name : Option CString} {i : ℕ}

namespace Nvds

open NorFlash LittleEndian

/-! ### The code -/

/-- What the callback gets: the key and `val_len`. -/
structure FoundKey where
  key : List UInt8
  valLen : ℕ

/-- The callback for an entry, if there is one. -/
def foundEntry (ns : ℕ) (state : EntryState) (entry : Entry) : List FoundKey :=
  if state = .used ∧ Entry.ns entry = ns ∧ Entry.type entry ≠ .bulk then
    [⟨Entry.key entry, Entry.len entry⟩]
  else []

section Code

variable (rom : NvdsRom)

/-- The walk over the entries of a page from index `i` on: the callbacks, and the return code of a
step that failed. As in `element_find`, a walk of more than 256 steps never ends. -/
def findKeysWalk (env : FlashEnv) (ns k : ℕ) :
    ℕ → ℕ → Option (List FoundKey × Except NvdsErr Unit)
  | 0, _ => none
  | n + 1, i =>
    if entryCountPerPage ≤ i then some ([], .ok ())
    else
      match entryStateGet (env.pages k).entryStates i with
      | .error e => some ([], .error e)
      | .ok .free => some ([], .ok ())
      | .ok state =>
        match entryRead rom env k i with
        | .error e => some ([], .error e)
        | .ok entry =>
          (findKeysWalk env ns k n (u8 (i + 1 + Entry.dataCnt entry))).map fun r =>
            (foundEntry ns state entry ++ r.1, r.2)

/-- The walk over the used pages. -/
def findKeysPages (env : FlashEnv) (ns : ℕ) :
    List ℕ → Option (List FoundKey × Except NvdsErr Unit)
  | [] => some ([], .ok ())
  | k :: ks =>
    if pageSearched (env.pages k) then
      match findKeysWalk rom env ns k 256 0 with
      | none => none
      | some (found, .error e) => some (found, .error e)
      | some (found, .ok ()) => (findKeysPages env ns ks).map fun r => (found ++ r.1, r.2)
    else findKeysPages env ns ks

/-- `nvds_find_keys_by_namespace`: the callbacks, of which there are none when `cb` is the null
pointer, and the return code of a walk that failed. -/
def nvdsFindKeysByNamespace (name : Option CString) (cb : Bool) :
    NvdsM (List FoundKey × Except NvdsErr Unit) := do
  let idx ← nsIndexByNamespace rom name false
  NvdsM.search fun env =>
    (findKeysPages rom env idx env.pageUsed).map fun r => .ok (if cb then r.1 else [], r.2)

/-- The callbacks that a call makes. -/
def callbacks : Except NvdsErr (List FoundKey × Except NvdsErr Unit) → List FoundKey
  | .error _ => []
  | .ok out => out.1

end Code

/-! ### The listing, cell by cell -/

/-- A cell in use of a namespace that is not a fragment. -/
def Cell.isKey (ns : ℕ) (c : Cell) : Bool :=
  c.record.inNs ns && decide (Entry.type c.record.hdr ≠ .bulk)

/-- The callback for a cell. -/
def Cell.found (c : Cell) : FoundKey := ⟨Entry.key c.record.hdr, Entry.len c.record.hdr⟩

theorem foundEntry_rec (ns k o : ℕ) (r : Rec) :
    foundEntry ns (if r.live then .used else .updated) r.hdr =
      (([⟨k, o, r⟩] : List Cell).filter (Cell.isKey ns)).map Cell.found := by
  rw [foundEntry, List.filter_singleton]
  by_cases hlive : r.live = true
  · by_cases hns : Entry.ns r.hdr = ns
    · by_cases htype : Entry.type r.hdr = .bulk
      · simp [Cell.isKey, htype]
      · simp [Cell.isKey, Rec.inNs, Cell.found, hlive, hns, htype]
    · have hns' : ¬ns = Entry.ns r.hdr := fun h => hns h.symm
      simp [Cell.isKey, Rec.inNs, hns, hns']
  · simp [Cell.isKey, Rec.inNs, hlive]

section Listing

variable {rom : NvdsRom} (hrom : rom.Reliable) {n : ℕ} {env : FlashEnv} {S : Store}
  (hview : View n env S)
include hrom hview

theorem findKeysWalk_eq (ns : ℕ) {k : ℕ} (hk : k ∈ S.used) {pre post : List Rec}
    (hrecs : (S.page k).recs = pre ++ post) {fuel : ℕ} (hfuel : post.length < fuel) :
    findKeysWalk rom env ns k fuel (recsSize pre) =
      some (((pageCells k (recsSize pre) post).filter (Cell.isKey ns)).map Cell.found, .ok ()) := by
  induction post generalizing pre fuel with
  | nil =>
    obtain ⟨m, rfl⟩ : ∃ m, fuel = m + 1 := ⟨fuel - 1, by simp at hfuel; omega⟩
    rw [findKeysWalk]
    rcases hview.read_end hk (by simpa using hrecs) with hge | hfree
    · rw [if_pos hge]
      rfl
    · split
      · rfl
      · rw [hfree]
        rfl
  | cons r post ih =>
    obtain ⟨m, rfl⟩ : ∃ m, fuel = m + 1 := ⟨fuel - 1, by omega⟩
    obtain ⟨hin, hstate, hread, hnext, -⟩ := hview.read_rec hrom hk hrecs
    have hrest : findKeysWalk rom env ns k m (recsSize (pre ++ [r])) = _ :=
      ih (by simpa using hrecs) (by simpa using Nat.lt_of_succ_lt_succ hfuel)
    have hsize : recsSize (pre ++ [r]) = recsSize pre + r.size := by simp
    rw [findKeysWalk, if_neg hin, hstate]
    have hstep : findKeysWalk rom env ns k m (u8 (recsSize pre + 1 + Entry.dataCnt r.hdr)) =
        some (((pageCells k (recsSize pre + r.size) post).filter (Cell.isKey ns)).map Cell.found,
          .ok ()) := by
      rw [hnext, hrest, hsize]
    have hfound := foundEntry_rec ns k (recsSize pre) r
    cases hlive : r.live with
    | true =>
      rw [hlive] at hfound
      simp only [if_true, hread, hstep, map_some]
      rw [show foundEntry ns .used r.hdr = _ from hfound, pageCells, ← List.map_append,
        ← filter_append]
      rfl
    | false =>
      rw [hlive] at hfound
      simp only [Bool.false_eq_true, if_false, hread, hstep, map_some]
      rw [show foundEntry ns .updated r.hdr = _ from hfound, pageCells, ← List.map_append,
        ← filter_append]
      rfl

theorem findKeysPages_eq (ns : ℕ) {ks : List ℕ} (hks : ∀ k ∈ ks, k ∈ S.used) :
    findKeysPages rom env ns ks =
      some (((ks.flatMap S.cellsOf).filter (Cell.isKey ns)).map Cell.found, .ok ()) := by
  induction ks with
  | nil => rfl
  | cons k ks ih =>
    have hk : k ∈ S.used := hks k (by simp)
    have hrest := ih fun j hj => hks j (by simp [hj])
    have hfuel : (S.page k).recs.length < 256 := by
      have h1 := hview.size k hk
      have h2 := length_le_recsSize (S.page k).recs
      omega
    rw [findKeysPages, pageSearched_eq hview hk, List.flatMap_cons, Store.cellsOf]
    cases hs : (S.page k).searched with
    | true =>
      have hwalk : findKeysWalk rom env ns k 256 (recsSize []) = _ :=
        findKeysWalk_eq hrom hview ns hk rfl hfuel
      rw [recsSize_nil] at hwalk
      rw [hwalk, hrest, filter_append, List.map_append]
      rfl
    | false =>
      simpa using hrest

end Listing

/-! ### The listing and the contents -/

/-- The listing of a namespace: the keys that `nvds_data_find` finds, each of them once, with the
length that `nvds_data_get` reports. -/
structure KeysListed (rom : NvdsRom) (env : FlashEnv) (name : Option CString)
    (calls : List FoundKey) : Prop where
  keys : ∃ ks : List CString, ks.Nodup ∧ calls.map FoundKey.key = ks.map CString.bytes ∧
    ∀ key, key ∈ ks ↔ nvdsDataFind rom name (some key) env = some (.ok (), env)
  lengths : ∀ call ∈ calls, ∀ key : CString, key.bytes = call.key →
    readOut rom env name key none = some ⟨.ok (), some call.valLen, []⟩

/-- The listing of a namespace is right. -/
def FindKeysRight (rom : NvdsRom) (env : FlashEnv) (name : Option CString) : Prop :=
  ∃ r, nvdsFindKeysByNamespace rom name true env = some (r, env) ∧
    KeysListed rom env name (callbacks r)

/-- The length field of the record that stands for a key is the length of the value exactly when
the value is not in fragments. -/
theorem Keeps.len_iff {ns : ℕ} (hns : ns < 256) {key : CString} (hkey : key.len < keyNameMaxSize)
    {v : List UInt8} {B : Multiset Body} (h : Keeps ns key v B) {b : Body} (hb : b ∈ B)
    (htype : Entry.type b.1 ≠ .bulk) :
    Entry.len b.1 = v.length ↔ v.length ≤ elementMiddleMaxSize := by
  simp only [elementMiddleMaxSize]
  cases h with
  | small hpos hle =>
    rw [Multiset.mem_singleton.mp hb, (fields_small hns hkey hle).2.1]
    exact iff_of_true rfl (by omega)
  | middle hlt hle =>
    rw [Multiset.mem_singleton.mp hb, (fields_middle hns hkey hle).2.1]
    exact iff_of_true rfl hle
  | bulk hlt hle hcuts =>
    -- the header that counts the fragments
    rcases Multiset.mem_cons.mp hb with rfl | hfrag
    · rw [(fields_bulkInfo hns hkey hcuts.count_le hle).2.1]
      have := hcuts.count_le
      exact iff_of_false (by omega) (by omega)
    · exact absurd (mem_fragBodies hns hkey (by simpa using hcuts.count_le)
        (by rw [hcuts.sum_eq]; exact hle) (mem_coe.mp hfrag)).2.2.1 htype

section Contents

variable {n slack : ℕ} {env : FlashEnv} {S : Store} {m : Contents}

/-- The cells that are listed are the records of the namespace that are not fragments. -/
theorem map_body_listed (hnd : S.used.Nodup) (hlt : ∀ k ∈ S.used, k < n) (i : ℕ) :
    (((S.cells.filter (Cell.isKey i)).map fun c => c.record.body : List Body) : Multiset Body) =
      (liveOf n S.shot).filter fun b => Entry.ns b.1 = i ∧ Entry.type b.1 ≠ .bulk := by
  rw [← coe_live_cells hnd hlt, filter_coe, List.filter_map, List.filter_filter]
  refine congrArg _ (congrArg _ (filter_congr fun c _ => ?_))
  rw [Cell.isKey, Rec.inNs]
  by_cases hns : Entry.ns c.record.hdr = i
  · simp [Rec.body, hns, Bool.and_comm]
  · have hns' : ¬i = Entry.ns c.record.hdr := fun h => hns h.symm
    simp [Rec.body, hns, hns']

variable {rom : NvdsRom} (hrom : rom.Reliable) (h : Well n slack False none env S m)
include hrom h

/-- A namespace with an index: the callbacks are those of the cells. -/
theorem Well.findKeys_eq (hname : NameOk name)
    (hi : nsIndex (nsIds env.nsList) name = some i) :
    nvdsFindKeysByNamespace rom name true env =
      some (.ok ((S.cells.filter (Cell.isKey i)).map Cell.found, .ok ()), env) := by
  rw [nvdsFindKeysByNamespace, NvdsM.bind_ok (nsIndexByNamespace_some rom hname hi false)]
  refine NvdsM.search_eq ?_
  rw [h.rep.view.used_eq, findKeysPages_eq hrom h.rep.view i fun k hk => hk]
  rfl

/-- A key is found exactly when it has a value. -/
theorem Well.find_ok_iff (hname : NameOk name) (key : CString) :
    nvdsDataFind rom name (some key) env = some (.ok (), env) ↔
      key.len < keyNameMaxSize ∧ m name key ≠ none := by
  by_cases hkey : key.len < keyNameMaxSize
  · rw [nvdsDataFind_eq hrom h.rep.view h.shown hname hkey]
    by_cases hm : m name key = none
    · simp [hm]
    · simp [hm, hkey]
  · have hlen : ¬key.len ≤ keyNameMaxSize - 1 := by
      simp only [keyNameMaxSize] at hkey ⊢
      omega
    have hrun : nvdsDataFind rom name (some key) env = some (.error .invalParam, env) :=
      NvdsM.check_bind_false (decide_eq_false hlen) _ _ _
    rw [hrun]
    simp [hkey]

omit hrom in
/-- The records that are listed stand for the keys that have a value. -/
theorem Well.listed_keys
    (hi : nsIndex (nsIds env.nsList) name = some i) (key : CString) :
    (key ∈ ((liveOf n S.shot).filter fun b => Entry.ns b.1 = i ∧ Entry.type b.1 ≠ .bulk).map
      Body.key) ↔ key.len < keyNameMaxSize ∧ m name key ≠ none := by
  have hlt := nsIndex_lt h.nsIds_lt hi
  rw [Multiset.mem_map]
  constructor
  · rintro ⟨b, hb, rfl⟩
    obtain ⟨hmem, hp⟩ := mem_filter.mp hb
    obtain ⟨hkey, hown⟩ := h.kept.own_key hmem
    rw [hp.1] at hown
    refine ⟨hkey, fun hnone => ?_⟩
    have hhold := h.shown.holding name i _ hi hkey
    rw [hnone] at hhold
    exact notMem_zero b (hhold ▸ hown)
  · rintro ⟨hkey, hm⟩
    obtain ⟨v, hv⟩ := ne_none_iff_exists'.mp hm
    have hhold := h.shown.holding name i key hi hkey
    rw [hv] at hhold
    obtain ⟨b, hb⟩ := h.kept.one_record hlt hkey (Keeps.ne_zero hhold)
    have hmem : b ∈ (recsOf (liveOf n S.shot) i key).filter
        (fun b => Entry.ns b.1 = i ∧ Entry.type b.1 ≠ .bulk) := by
      rw [hb]
      exact Multiset.mem_singleton_self b
    obtain ⟨hrec, hp⟩ := mem_filter.mp hmem
    exact ⟨b, mem_filter.mpr ⟨mem_of_mem_filter hrec, hp⟩,
      key_of_hit (hit_of_mem_recsOf hrec)⟩

/-- The listing of a namespace without an index is empty, and no key is found in it. -/
theorem Well.findKeys_none
    (hnone : nsIndex (nsIds env.nsList) name = none) :
    ∃ e, nvdsFindKeysByNamespace rom name true env = some (.error e, env) ∧
      ∀ key, nvdsDataFind rom name (some key) env ≠ some (.ok (), env) := by
  rcases name with _ | c
  · exact absurd hnone (by simp [nsIndex])
  by_cases hc : c.len < keyNameMaxSize
  · have hname : NameOk (some c) := fun d hd => Option.some.inj hd ▸ hc
    refine ⟨.notFound, NvdsM.bind_error ?_, fun key => ?_⟩
    · rw [nsIndexByNamespace_none rom hc hnone]
      rfl
    · rw [Ne, h.find_ok_iff hrom hname]
      rintro ⟨hkey, hm⟩
      exact hm (h.shown.undefined _ key hnone hkey)
  · have hlen : ¬c.len ≤ keyNameMaxSize - 1 := by
      simp only [keyNameMaxSize] at hc ⊢
      omega
    have hrun : nsIndexByNamespace rom (some c) false env = some (.error .invalParam, env) :=
      NvdsM.check_bind_false (decide_eq_false hlen) _ _ _
    refine ⟨.invalParam, NvdsM.bind_error hrun, fun key => ?_⟩
    rw [nvdsDataFind]
    by_cases hkey : key.len ≤ keyNameMaxSize - 1
    · rw [NvdsM.check_bind (decide_eq_true hkey), NvdsM.bind_error hrun]
      simp
    · rw [NvdsM.check_bind_false (decide_eq_false hkey)]
      simp

/-- The lengths that are listed are right exactly when no value is in fragments. -/
theorem Well.lengths_iff (hname : NameOk name)
    (hi : nsIndex (nsIds env.nsList) name = some i) :
    (∀ call ∈ (S.cells.filter (Cell.isKey i)).map Cell.found, ∀ key : CString,
      key.bytes = call.key →
        readOut rom env name key none = some ⟨.ok (), some call.valLen, []⟩) ↔
      ∀ key v, key.len < keyNameMaxSize → m name key = some v →
        v.length ≤ elementMiddleMaxSize := by
  have hlt := nsIndex_lt h.nsIds_lt hi
  have hbodies := map_body_listed h.rep.view.nodup_used h.rep.view.used_lt i
  -- what is listed for a key that has a value
  have hone : ∀ key v, key.len < keyNameMaxSize → m name key = some v → ∀ b,
      b ∈ (liveOf n S.shot).filter (fun b => Entry.ns b.1 = i ∧ Entry.type b.1 ≠ .bulk) →
      Body.key b = key → (readOut rom env name key none = some ⟨.ok (), some (Entry.len b.1), []⟩ ↔
        v.length ≤ elementMiddleMaxSize) := by
    rintro key v hkey hv b hb rfl
    obtain ⟨hmem, hp⟩ := mem_filter.mp hb
    have hown := (h.kept.own_key hmem).2
    rw [hp.1] at hown
    have hhold := h.shown.holding name i _ hi hkey
    rw [hv] at hhold
    rw [← Keeps.len_iff hlt hkey hhold hown hp.2, h.readOut_eq hrom hname hkey, hv]
    simp [getSpec, eq_comm]
  constructor
  · intro hall key v hkey hv
    have hlisted := (h.listed_keys hi key).mpr ⟨hkey, by simp [hv]⟩
    obtain ⟨b, hb, hbk⟩ := Multiset.mem_map.mp hlisted
    refine (hone key v hkey hv b hb hbk).mp ?_
    rw [← hbodies] at hb
    obtain ⟨c, hc, rfl⟩ := List.mem_map.mp (mem_coe.mp hb)
    exact hall _ (List.mem_map.mpr ⟨c, hc, rfl⟩) key (by rw [← hbk]; rfl)
  · intro hall call hcall key hbytes
    obtain ⟨c, hc, rfl⟩ := List.mem_map.mp hcall
    have hb : c.record.body ∈ (liveOf n S.shot).filter
        fun b => Entry.ns b.1 = i ∧ Entry.type b.1 ≠ .bulk := by
      rw [← hbodies]
      exact mem_coe.mpr (List.mem_map.mpr ⟨c, hc, rfl⟩)
    have hbk : Body.key c.record.body = key := CString.ext_bytes hbytes.symm
    obtain ⟨hkey, hm⟩ := (h.listed_keys hi key).mp (Multiset.mem_map.mpr ⟨_, hb, hbk⟩)
    obtain ⟨v, hv⟩ := ne_none_iff_exists'.mp hm
    exact (hone key v hkey hv _ hb hbk).mpr (hall key v hkey hv)

/-- No value that `nvds_data_get` finds in the namespace is longer than a middle element. -/
def NoBulk (rom : NvdsRom) (env : FlashEnv) (name : Option CString) : Prop :=
  ∀ key len, (Call.get name key none).Valid →
    readOut rom env name key none = some ⟨.ok (), some len, []⟩ → len ≤ elementMiddleMaxSize

omit hrom in
/-- Only names that are not too long have values. -/
theorem Well.nameOk_of_mem
    (hi : nsIndex (nsIds env.nsList) name = some i) : NameOk name := by
  rintro c rfl
  rw [nsIndex, map_eq_some_iff] at hi
  obtain ⟨d, hd, -⟩ := hi
  have hdc : d.1 = c := by simpa using List.find?_some hd
  rw [← hdc]
  exact (h.named.range d (mem_of_find?_eq_some hd)).2.2

theorem Well.noBulk_iff (name : Option CString) :
    NoBulk rom env name ↔ ∀ key v, key.len < keyNameMaxSize → m name key = some v →
      v.length ≤ elementMiddleMaxSize := by
  constructor
  · intro hall key v hkey hv
    rcases hi : nsIndex (nsIds env.nsList) name with _ | i
    · rw [h.shown.undefined name key hi hkey] at hv
      cases hv
    have hname := h.nameOk_of_mem hi
    refine hall key v.length ⟨hname, hkey⟩ ?_
    rw [h.readOut_eq hrom hname hkey, hv]
    rfl
  · rintro hall key len ⟨hname, hkey⟩ hread
    rw [h.readOut_eq hrom hname hkey] at hread
    rcases hv : m name key with _ | v
    · rw [hv] at hread
      exact absurd hread (by simp [getSpec])
    · rw [hv] at hread
      have hlen : v.length = len := by simpa [getSpec] using hread
      exact hlen ▸ hall key v hkey hv

/-- **A listing is right exactly when** no value of the namespace is in fragments. -/
theorem Well.findKeys_right_iff (name : Option CString) :
    FindKeysRight rom env name ↔ NoBulk rom env name := by
  rw [h.noBulk_iff hrom name]
  rcases hi : nsIndex (nsIds env.nsList) name with _ | i
  · -- there is nothing to list
    obtain ⟨e, hrun, hnot⟩ := h.findKeys_none hrom hi
    refine iff_of_true ⟨_, hrun, ⟨[], List.nodup_nil, rfl, fun key => ?_⟩, ?_⟩ ?_
    · simp [hnot key]
    · simp [callbacks]
    · intro key v hkey hv
      rw [h.shown.undefined name key hi hkey] at hv
      cases hv
  have hname := h.nameOk_of_mem hi
  have hrun := h.findKeys_eq hrom hname hi
  rw [← h.lengths_iff hrom hname hi]
  constructor
  · rintro ⟨r, hr, hlisted⟩
    rw [hrun] at hr
    obtain ⟨rfl, -⟩ := Prod.mk.inj (Option.some.inj hr)
    exact hlisted.lengths
  · intro hlengths
    have hbodies := map_body_listed h.rep.view.nodup_used h.rep.view.used_lt i
    have hks : (((S.cells.filter (Cell.isKey i)).map fun c => Body.key c.record.body :
        List CString) : Multiset CString) = ((liveOf n S.shot).filter fun b =>
          Entry.ns b.1 = i ∧ Entry.type b.1 ≠ .bulk).map Body.key := by
      rw [← hbodies, Multiset.map_coe, List.map_map]
      rfl
    refine ⟨_, hrun, ⟨(S.cells.filter (Cell.isKey i)).map fun c => Body.key c.record.body, ?_, ?_,
      fun key => ?_⟩, hlengths⟩
    · rw [← coe_nodup, hks]
      exact h.kept.nodup_keys (nsIndex_lt h.nsIds_lt hi)
    · rw [callbacks, List.map_map, List.map_map]
      rfl
    · rw [h.find_ok_iff hrom hname, ← h.listed_keys hi key, ← hks, mem_coe]

end Contents

/-- **Listing the keys of a namespace.** In every state that a run from an erased partition reaches,
`nvds_find_keys_by_namespace` lists exactly the keys of the namespace with the lengths of their
values, if and only if none of these values is longer than 256 bytes. -/
theorem findKeys_exact_iff {rom : NvdsRom} (hrom : rom.Reliable) {n : ℕ} (h2 : 2 ≤ n) (hn : n ≤ 32)
    {b : ℕ} {dev : Dev} (hdev : b + 4096 * n ≤ flashTotalSize)
    (hblank : Blank dev.flash b (4096 * n)) :
    ∃ env₀, nvdsFlashEnvInit rom b (4096 * n) dev = some (.ok (), env₀) ∧
      ∀ (es : List NsEvent) (env : FlashEnv), runNsEvents rom es env₀ = some env →
        ∀ name, FindKeysRight rom env name ↔ NoBulk rom env name := by
  obtain ⟨env₀, hinit, hwell₀, -⟩ := init_erased hrom hdev h2 hblank
  refine ⟨env₀, hinit, fun es env hrun name => ?_⟩
  obtain ⟨S, m, hwell⟩ := (hwell₀.mono (Nat.zero_le 4032)).nsEvents hrom h2 hn hrun
  exact hwell.findKeys_right_iff hrom name

/-- After a value of one byte has been put into an empty namespace, the listing is right. -/
theorem findKeys_exact_iff_byte :
    ∃ env₀ env, nvdsFlashEnvInit steadyRom nvdsFlashInternalAddr nvdsFlashInternalSize erasedDev =
        some (.ok (), env₀) ∧
      runNsEvents steadyRom [.event (.call (.put (some keyA) keyA [0x2A]))] env₀ = some env ∧
      FindKeysRight steadyRom env (some keyA) := by
  obtain ⟨env₀, hinit, hall⟩ := @findKeys_exact_iff steadyRom steadyRom_reliable 4 (by decide)
    (by decide) nvdsFlashInternalAddr erasedDev (by decide) fun _ _ _ => rfl
  obtain ⟨env₀', hinit', hwell₀, -⟩ := @init_erased steadyRom steadyRom_reliable 4
    nvdsFlashInternalAddr erasedDev (by decide) (by decide) fun _ _ _ => rfl
  obtain rfl : env₀' = env₀ := (Prod.mk.inj (Option.some.inj (hinit'.symm.trans hinit))).2
  obtain ⟨ret, env, S, hput, hwell, -⟩ := hwell₀.event steadyRom_reliable (by decide) (by decide)
    (by decide) (.call (.put (some keyA) keyA [0x2A])) fun h => absurd h (by simp)
  have hrun : runNsEvents steadyRom [.event (.call (.put (some keyA) keyA [0x2A]))] env₀' =
      some env := by
    rw [runNsEvents, NsEvent.run, hput]
    rfl
  refine ⟨env₀', env, hinit, hrun, (hall _ _ hrun _).mpr ?_⟩
  rw [hwell.noBulk_iff steadyRom_reliable]
  exact fun key v _ hv => (length_le_of_put_byte hv).trans (by decide)

/-- **A value in fragments.** After a value of 257 bytes has been put into an empty namespace, the
length that is listed for it is the number of its fragments. -/
theorem not_findKeys_exact :
    ∃ env₀ env, nvdsFlashEnvInit steadyRom nvdsFlashInternalAddr nvdsFlashInternalSize erasedDev =
        some (.ok (), env₀) ∧
      runNsEvents steadyRom [.event (.call (.put (some keyA) keyA bulkValue))] env₀ = some env ∧
      ¬FindKeysRight steadyRom env (some keyA) := by
  obtain ⟨env₀, env, S, m, r, hinit, hput, hwell, hm, -⟩ := exists_bulk_put
  have hrun : runNsEvents steadyRom [.event (.call (.put (some keyA) keyA bulkValue))] env₀ =
      some env := by
    rw [runNsEvents, NsEvent.run, hput]
    rfl
  refine ⟨env₀, env, hinit, hrun, ?_⟩
  rw [hwell.findKeys_right_iff steadyRom_reliable, hwell.noBulk_iff steadyRom_reliable]
  intro hall
  have hle := hall keyA bulkValue (by decide) hm
  rw [bulkValue, List.length_replicate] at hle
  exact absurd hle (by decide)

end Nvds

end Gd32
