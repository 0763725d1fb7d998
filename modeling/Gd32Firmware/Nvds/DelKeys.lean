import Gd32Firmware.Nvds.Accounting

/-!
# Deleting the keys of a namespace

`nvds_flash.c`, `nvds_del_keys_by_namespace`. One scan over all used pages gives up every header of
the namespace and lowers the count of its record at each of them; at zero the record is taken off
the list, the definition of the namespace is deleted and the record is freed. The scan goes on, and
at the next header of the namespace it would use the record again.

The scan is followed on a storage that is in order. Its outcome (`Nvds.Purge.walk`,
`Nvds.Purge.pages`) depends on two numbers: what the record counts, and how many headers of
the namespace are in use.
-/

namespace Gd32

open Multiset

variable {ns fuel : ℕ} {key : CString} {b : Body} {ks : List ℕ}

namespace Nvds

open NorFlash LittleEndian

/-! ### The code -/

/-- What the scan does to the record of the namespace. -/
inductive RecordUse where
  /-- `ns->used_cnt--`, with the count in front of it. -/
  | lower (cnt : ℕ)
  /-- The record is taken off the list, and the definition of the namespace deleted. -/
  | remove
  deriving DecidableEq, Repr

/-- The pointer `ns` of the scan. -/
structure NsPtr where
  /-- The record it points to; `none` once the record has been freed. -/
  target : Option NamespaceInfo
  uses : List RecordUse

/-- Change the first record with the given name. -/
def changeNamed (name : CString) (f : NamespaceInfo → NamespaceInfo) :
    List NamespaceInfo → List NamespaceInfo
  | [] => []
  | ns :: rest => if ns.name = name then f ns :: rest else ns :: changeNamed name f rest

section Code

variable (rom : NvdsRom)

/-- The record has no key left: it is taken off the list, and the definition is deleted. -/
def nsRemove (ns : NamespaceInfo) : NvdsM Unit := do
  NvdsM.modify fun env => nsStateSet ns.index false { env with nsList := env.nsList.erase ns }
  dataElementDel rom 0 ns.name

/-- The end of a round: `ns->used_cnt` is lowered, and at zero the record goes. A record that has
been freed must not be used; what happens then is not defined. -/
def nsLowerPtr (p : NsPtr) : NvdsM NsPtr :=
  match p.target with
  | none => fun _ => none
  | some ns => do
    NvdsM.modify fun env =>
      { env with nsList := changeNamed ns.name (NamespaceInfo.add (2 ^ 32 - 1)) env.nsList }
    let ns' := ns.add (2 ^ 32 - 1)
    if ns'.usedCnt = 0 then do
      nsRemove rom ns'
      pure ⟨none, p.uses ++ [.lower ns.usedCnt, .remove]⟩
    else pure ⟨some ns', p.uses ++ [.lower ns.usedCnt]⟩

/-- A header of the namespace is given up, with the entries behind it. -/
def delEntry (k i : ℕ) (entry : Entry) : NvdsM Unit :=
  match Entry.type entry with
  | .small => elementDrop rom k i 0
  | .bulkinfo => elementDrop rom k i 0
  | .middle => elementDrop rom k i (entriesOf (Entry.len entry))
  | .bulk => elementDrop rom k i (entriesOf (Entry.len entry))
  | _ => pure ()

/-- The walk over the entries of a page from index `i` on, for the namespace with index `idx`. As
in `element_find`, a walk of more than 256 steps never ends. -/
def delKeysWalk (idx k : ℕ) : ℕ → ℕ → NsPtr → NvdsM NsPtr
  | 0, _, _ => fun _ => none
  | n + 1, i, p =>
    if entryCountPerPage ≤ i then pure p
    else do
      let state ← NvdsM.look fun env => entryStateGet (env.pages k).entryStates i
      if state = .free then pure p
      else do
        let entry ← NvdsM.look fun env => entryRead rom env k i
        if state = .used ∧ idx = Entry.ns entry then do
          delEntry rom k i entry
          let p ← nsLowerPtr rom p
          delKeysWalk idx k n (u8 (i + 1 + Entry.dataCnt entry)) p
        else delKeysWalk idx k n (u8 (i + 1 + Entry.dataCnt entry)) p

/-- The walk over the used pages. -/
def delKeysPages (idx : ℕ) : List ℕ → NsPtr → NvdsM NsPtr
  | [], p => pure p
  | k :: ks, p => do
    let env ← NvdsM.get
    if pageSearched (env.pages k) then do
      let p ← delKeysWalk rom idx k 256 0 p
      delKeysPages idx ks p
    else delKeysPages idx ks p

/-- `nvds_del_keys_by_namespace`; the result is what it has done to the record. -/
def nvdsDelKeysByNamespace (name : CString) : NvdsM (List RecordUse) := do
  NvdsM.check (decide (name.len ≤ keyNameMaxSize - 1)) .invalParam
  let env ← NvdsM.get
  match env.nsList.find? fun ns => decide (ns.name = name) with
  | none => NvdsM.throw .notFound
  | some ns => do
    let p ← delKeysPages rom ns.index env.pageUsed ⟨some ns, []⟩
    pure p.uses

end Code

/-! ### The scan, entry by entry -/

/-- A bind may be read from either side. -/
theorem NvdsM.bind_assoc {α β γ : Type} (x : NvdsM α) (f : α → NvdsM β) (g : β → NvdsM γ) :
    (x >>= f) >>= g = x >>= fun a => f a >>= g := by
  funext env
  rcases hx : x env with _ | ⟨e | a, env'⟩
  · change NvdsM.andThen (NvdsM.andThen x f) g env = NvdsM.andThen x _ env
    simp only [NvdsM.andThen, hx]
  · rw [NvdsM.bind_error (NvdsM.bind_error hx), NvdsM.bind_error hx]
  · rw [NvdsM.bind_ok hx]
    change NvdsM.andThen (NvdsM.andThen x f) g env = NvdsM.andThen (f a) g env'
    simp only [NvdsM.andThen, hx]

/-- The record is in use, in namespace `i`. -/
def Rec.inNs (i : ℕ) (r : Rec) : Bool := r.live && decide (i = Entry.ns r.hdr)

/-- The rest of the scan, from index `o` of page `k` on. -/
def scanFrom (rom : NvdsRom) (i k fuel o : ℕ) (ks : List ℕ) (p : NsPtr) : NvdsM NsPtr :=
  delKeysWalk rom i k fuel o p >>= delKeysPages rom i ks

section Scan

variable {rom : NvdsRom} {n : ℕ} {env : FlashEnv} {S : Store} {k : ℕ} {pre post : List Rec}
  {r : Rec}

/-- Behind the last record of a page. -/
theorem View.read_end (hview : View n env S) (hk : k ∈ S.used) (hrecs : (S.page k).recs = pre) :
    entryCountPerPage ≤ recsSize pre ∨
      entryStateGet (env.pages k).entryStates (recsSize pre) = .ok .free := by
  obtain ⟨P, hm, -, hlaid⟩ := hview.views k hk
  rcases lt_or_ge (recsSize pre) entryCountPerPage with hlt | hge
  · refine Or.inr ?_
    rw [entryStateGet, if_neg (by omega), hm.table,
      hlaid.free_of_ge (by rw [hrecs]) (by simpa [entryCountPerPage] using hlt)]
  · exact Or.inl hge

variable (hrom : rom.Reliable) (hview : View n env S) (hk : k ∈ S.used)
  (hrecs : (S.page k).recs = pre ++ r :: post)
include hrom hview hk hrecs

/-- At the header of a record. -/
theorem View.read_rec :
    ¬entryCountPerPage ≤ recsSize pre ∧
      entryStateGet (env.pages k).entryStates (recsSize pre) =
        .ok (if r.live then .used else .updated) ∧
      entryRead rom env k (recsSize pre) = .ok r.hdr ∧
      u8 (recsSize pre + 1 + Entry.dataCnt r.hdr) = recsSize (pre ++ [r]) ∧ r.Wf := by
  obtain ⟨P, hm, -, hlaid⟩ := hview.views k hk
  rw [hrecs] at hlaid
  have hsize : recsSize pre + r.size + recsSize post ≤ 126 := by
    simpa [add_assoc] using hlaid.size
  have hpos := r.size_pos
  have hin : ¬entryCountPerPage ≤ recsSize pre := by
    simp only [entryCountPerPage]
    omega
  have hwf : r.Wf := hlaid.wf r (by simp)
  refine ⟨hin, ?_, ?_, ?_, hwf⟩
  · rw [entryStateGet, if_neg hin, hm.table, hlaid.stateAt_head (by omega)]
  · rw [entryRead_slot hrom hview.geo (hview.used_lt k hk) hm (by omega)]
    simpa [Rec.slots] using hlaid.getD_slots hpos
  · rw [← hwf.length_data, recsSize_append, recsSize_cons, recsSize_nil, add_zero,
      add_assoc, ← Rec.size]
    exact u8_of_lt (by omega)

/-- A record that does not belong to the namespace is passed over. -/
theorem scanFrom_skip {i : ℕ} (hnot : r.inNs i = false) (fuel : ℕ) (ks : List ℕ) (p : NsPtr) :
    scanFrom rom i k (fuel + 1) (recsSize pre) ks p env =
      scanFrom rom i k fuel (recsSize (pre ++ [r])) ks p env := by
  obtain ⟨hin, hstate, hread, hnext, -⟩ := hview.read_rec hrom hk hrecs
  have hne : ¬((if r.live then EntryState.used else .updated) = .used ∧ i = Entry.ns r.hdr) := by
    rintro ⟨hs, hi⟩
    cases hlive : r.live <;> simp [Rec.inNs, hlive, hi] at hnot hs
  have hfree : (if r.live then EntryState.used else .updated) ≠ .free := by
    cases r.live <;> decide
  rw [scanFrom, scanFrom, delKeysWalk, if_neg hin, NvdsM.bind_assoc,
    NvdsM.bind_ok (NvdsM.look_ok hstate), if_neg hfree, NvdsM.bind_assoc,
    NvdsM.bind_ok (NvdsM.look_ok hread), if_neg hne, hnext]

/-- A record of the namespace is given up, and the count lowered. -/
theorem scanFrom_hit {i : ℕ} (hhit : r.inNs i = true) (fuel : ℕ) (ks : List ℕ) (p : NsPtr) :
    scanFrom rom i k (fuel + 1) (recsSize pre) ks p env =
      (delEntry rom k (recsSize pre) r.hdr >>= fun _ => nsLowerPtr rom p >>= fun p =>
        scanFrom rom i k fuel (recsSize (pre ++ [r])) ks p) env := by
  obtain ⟨hin, hstate, hread, hnext, -⟩ := hview.read_rec hrom hk hrecs
  rw [Rec.inNs, Bool.and_eq_true, decide_eq_true_eq] at hhit
  rw [if_pos hhit.1] at hstate
  rw [scanFrom, delKeysWalk, if_neg hin, NvdsM.bind_assoc,
    NvdsM.bind_ok (NvdsM.look_ok hstate), if_neg (by simp), NvdsM.bind_assoc,
    NvdsM.bind_ok (NvdsM.look_ok hread), if_pos ⟨rfl, hhit.2⟩, hnext, NvdsM.bind_assoc]
  simp only [NvdsM.bind_assoc]
  rfl

end Scan

section ScanEnd

variable {rom : NvdsRom} {n : ℕ} {env : FlashEnv} {S : Store} {k i : ℕ}
  (hview : View n env S) (hk : k ∈ S.used)
include hview hk

/-- At the end of a page the scan goes on with the next one. -/
theorem scanFrom_end (fuel : ℕ) (ks : List ℕ) (p : NsPtr) :
    scanFrom rom i k (fuel + 1) (recsSize (S.page k).recs) ks p env =
      delKeysPages rom i ks p env := by
  rw [scanFrom, delKeysWalk]
  rcases hview.read_end hk rfl with hge | hfree
  · rw [if_pos hge]
    rfl
  · split
    · rfl
    · rw [NvdsM.bind_assoc, NvdsM.bind_ok (NvdsM.look_ok hfree), if_pos rfl]
      rfl

/-- A page that is searched is scanned from its start. -/
theorem delKeysPages_cons (hs : (S.page k).searched = true) (ks : List ℕ) (p : NsPtr) :
    delKeysPages rom i (k :: ks) p env = scanFrom rom i k 256 0 ks p env := by
  rw [delKeysPages, NvdsM.get_bind, pageSearched_eq hview hk, if_pos hs]
  rfl

end ScanEnd

/-! ### Records that are given up -/

/-- The type is one of the four that elements have. -/
def ElementType.Stored (t : ElementType) : Prop :=
  t = .small ∨ t = .middle ∨ t = .bulk ∨ t = .bulkinfo

theorem Keeps.stored_type {v : List UInt8} {B : Multiset Body}
    (h : Keeps ns key v B) (hns : ns < 256) (hkey : key.len < keyNameMaxSize)
    (hb : b ∈ B) : (Entry.type b.1).Stored := by
  cases h with
  | small _ hle =>
    rw [mem_singleton.mp hb]
    exact Or.inl (fields_small hns hkey hle).1
  | middle _ hle =>
    rw [mem_singleton.mp hb]
    exact Or.inr (Or.inl (fields_middle hns hkey hle).1)
  | bulk _ hle hcuts =>
    rcases mem_cons.mp hb with rfl | hb
    · exact Or.inr (Or.inr (Or.inr (fields_bulkInfo hns hkey hcuts.count_le hle).1))
    · exact Or.inr (Or.inr (Or.inl (mem_fragBodies hns hkey (by simpa using hcuts.count_le)
        (by rw [hcuts.sum_eq]; exact hle) (mem_coe.mp hb)).2.2.1))

theorem Kept.stored_type {Λ : Multiset Body} (h : Kept Λ) (hb : b ∈ Λ) :
    (Entry.type b.1).Stored := by
  obtain ⟨ns, key, hns, hkey, hhit⟩ := h.addressed b hb
  have hmem : b ∈ recsOf Λ ns key := mem_filter.mpr ⟨hb, hhit⟩
  rcases h.stored ns key hns hkey with ⟨v, hv⟩ | hzero
  · exact hv.stored_type hns hkey hmem
  · rw [hzero] at hmem
    exact absurd hmem (notMem_zero b)

/-- A record of such a type is given up as a whole. -/
theorem delEntry_eq (rom : NvdsRom) (k o : ℕ) {r : Rec} (hwf : r.Wf)
    (htype : (Entry.type r.hdr).Stored) :
    delEntry rom k o r.hdr = elementDrop rom k o r.data.length := by
  have hlen := hwf.length_data
  rw [Entry.dataCnt] at hlen
  rw [delEntry]
  rcases htype with h | h | h | h <;> rw [h] at hlen ⊢ <;> simp only [hlen]

/-- What a scan sees of a page: the sizes of its records, and which of them belong to the
namespace. -/
def APage.view (A : APage) (i : ℕ) : List (ℕ × Bool) := A.recs.map fun r => (r.size, r.inNs i)

theorem countP_inNs_view (rs : List Rec) (i : ℕ) :
    rs.countP (Rec.inNs i) = (rs.map fun r => (r.size, r.inNs i)).countP Prod.snd := by
  rw [List.countP_map]
  rfl

theorem recsSize_view (rs : List Rec) (i : ℕ) :
    recsSize rs = ((rs.map fun r => (r.size, r.inNs i)).map Prod.fst).sum := by
  rw [List.map_map]
  rfl

section Kill

variable {n : ℕ} {S : Store} {X Y : List Cell} {c : Cell} (hcells : S.cells = X ++ c :: Y)
  (hlive : c.record.live = true)
include hcells

/-- The page of a cell after the cell has been given up. -/
theorem recs_kill :
    ∃ pre post, (S.page c.page).recs = pre ++ c.record :: post ∧ c.idx = recsSize pre ∧
      ((S.kill c c.record.size).page c.page).recs =
        pre ++ c.record.giveUp c.record.size :: post := by
  obtain ⟨-, -, pre, post, -, -, hrecs, hidx, -, -⟩ := split_cells hcells
  refine ⟨pre, post, hrecs, hidx, ?_⟩
  rw [Store.kill, Store.page_setPage, hidx, hrecs, giveUpAt_append]

/-- Giving up a record of another namespace is not seen by the scan. -/
theorem view_kill {i : ℕ} (hns : Entry.ns c.record.hdr ≠ i) (k : ℕ) :
    ((S.kill c c.record.size).page k).view i = (S.page k).view i := by
  by_cases hk : k = c.page
  · subst hk
    obtain ⟨pre, post, hrecs, -, hkill⟩ := recs_kill hcells
    have hout : ∀ r : Rec, Entry.ns r.hdr ≠ i → r.inNs i = false := by
      intro r hr
      rw [Rec.inNs, decide_eq_false (Ne.symm hr), Bool.and_false]
    rw [APage.view, APage.view, hkill, hrecs, List.map_append, List.map_append, List.map_cons,
      List.map_cons, hout c.record hns, hout (c.record.giveUp c.record.size) hns, Rec.size_giveUp]
  · rw [Store.kill, Store.page_setPage_of_ne S hk]

include hlive

/-- A store between two calls stays one when a record is given up. -/
theorem Neat.kill {cut : Prop} (h : Neat n cut none S) (hnd : (liveOf n S.shot).Nodup) (hhit : elementHit ns key .any c.record.hdr = true) :
    Neat n cut none (S.kill c c.record.size) :=
  ((@Neat.tidy_of_nodup n ns cut none S key h hnd (Or.inl rfl)).kill hcells hlive hhit).neat

end Kill

/-! ### In the middle of a scan -/

/-- The record with another count. -/
def NamespaceInfo.withCnt (v : ℕ) (ns : NamespaceInfo) : NamespaceInfo := { ns with usedCnt := v }

@[simp] theorem NamespaceInfo.name_withCnt (v : ℕ) (ns : NamespaceInfo) :
    (ns.withCnt v).name = ns.name := rfl

@[simp] theorem NamespaceInfo.index_withCnt (v : ℕ) (ns : NamespaceInfo) :
    (ns.withCnt v).index = ns.index := rfl

@[simp] theorem NamespaceInfo.usedCnt_withCnt (v : ℕ) (ns : NamespaceInfo) :
    (ns.withCnt v).usedCnt = v := rfl

/-- The records of the other namespaces. -/
def othersOf (Λ : Multiset Body) (i : ℕ) : Multiset Body := Λ.filter fun b => Entry.ns b.1 ≠ i

/-- **In the middle of a scan** for namespace `i`, called `c`, that started at `env₀` and `S₀`: some
records of the namespace have been given up, and its record counts `v`. -/
structure Purge (n i : ℕ) (c : CString) (env₀ : FlashEnv) (S₀ : Store) (v : ℕ) (env : FlashEnv)
    (S : Store) : Prop where
  rep : Rep n env S
  neat : Neat n False none S
  le : liveOf n S.shot ≤ liveOf n S₀.shot
  others : othersOf (liveOf n S.shot) i = othersOf (liveOf n S₀.shot) i
  list : env.nsList = changeNamed c (NamespaceInfo.withCnt v) env₀.nsList
  states : env.nsStates = env₀.nsStates

/-- A record of a page that is searched is a cell. -/
theorem cells_of_recs {S : Store} {k : ℕ} (hk : k ∈ S.used) (hs : (S.page k).searched = true)
    {pre post : List Rec} {r : Rec} (hrecs : (S.page k).recs = pre ++ r :: post) :
    ∃ X Y, S.cells = X ++ ⟨k, recsSize pre, r⟩ :: Y := by
  obtain ⟨l₁, l₂, hused⟩ := List.append_of_mem hk
  refine ⟨l₁.flatMap S.cellsOf ++ pageCells k 0 pre,
    pageCells k (recsSize pre + r.size) post ++ l₂.flatMap S.cellsOf, ?_⟩
  rw [Store.cells, hused, List.flatMap_append, List.flatMap_cons, Store.cellsOf, if_pos hs, hrecs,
    pageCells_append, pageCells, zero_add]
  simp

/-- A record more in a namespace. -/
theorem othersOf_cons {Λ : Multiset Body} {i : ℕ} (h : Entry.ns b.1 = i) :
    othersOf (b ::ₘ Λ) i = othersOf Λ i ∧ recordsIn (b ::ₘ Λ) i = recordsIn Λ i + 1 := by
  constructor
  · rw [othersOf, filter_cons_of_neg _ (by simpa using h), othersOf]
  · exact countP_cons_of_pos _ h

section Purge

variable {rom : NvdsRom} (hrom : rom.Reliable) {n i : ℕ} {c : CString} {env₀ env : FlashEnv}
  {S₀ S : Store} {v : ℕ}

/-- All used pages are searched. -/
theorem Neat.searched (h : Neat n False none S) {k : ℕ} (hk : k ∈ S.used) :
    (S.page k).searched = true := (h.calm h.spare k hk).1

include hrom in
/-- **One header is given up.** -/
theorem delEntry_run (hrep : Rep n env S) (hkept : ∀ b ∈ liveOf n S.shot, (Entry.type b.1).Stored)
    {X Y : List Cell} {d : Cell} (hcells : S.cells = X ++ d :: Y) (hlive : d.record.live = true) :
    ∃ env', delEntry rom d.page d.idx d.record.hdr env = some (.ok (), env') ∧
      Rep n env' (S.kill d d.record.size) ∧
      liveOf n S.shot = d.record.body ::ₘ liveOf n (S.kill d d.record.size).shot ∧
      env'.nsList = env.nsList ∧ env'.nsStates = env.nsStates := by
  have hd : d ∈ S.cells := by
    rw [hcells]
    simp
  have hlt : ∀ k ∈ S.used, k < n := fun _ => hrep.used_lt
  obtain ⟨env', hrun, hrep', -, hlist, hstates⟩ := does_elementDrop hrom hcells hlive env hrep
  have hmem := body_mem_liveOf hrep.view.nodup_used hlt hd hlive
  refine ⟨env', ?_, hrep', liveOf_kill hcells hlive hlt d.record.size_pos, hlist, hstates⟩
  have htype := hkept _ hmem
  simp only [Rec.body] at htype
  rw [delEntry_eq rom _ _ (wf_cell hrep.view hd) htype]
  exact hrun

include hrom in
/-- **One round of the scan**, up to the count. -/
theorem Purge.drop (h : Purge n i c env₀ S₀ v env S) (hkept : Kept (liveOf n S₀.shot)) {k : ℕ}
    (hk : k ∈ S.used) {pre post : List Rec} {r : Rec} (hrecs : (S.page k).recs = pre ++ r :: post)
    (hhit : r.inNs i = true) :
    ∃ env' S', delEntry rom k (recsSize pre) r.hdr env = some (.ok (), env') ∧
      Purge n i c env₀ S₀ v env' S' ∧
      recordsIn (liveOf n S.shot) i = recordsIn (liveOf n S'.shot) i + 1 ∧ S'.used = S.used ∧
      (S'.page k).recs = pre ++ r.giveUp r.size :: post ∧ ∀ j ≠ k, S'.page j = S.page j := by
  have hle : ∀ b ∈ liveOf n S.shot, b ∈ liveOf n S₀.shot := fun b hb => mem_of_le h.le hb
  rw [Rec.inNs, Bool.and_eq_true, decide_eq_true_eq] at hhit
  obtain ⟨X, Y, hcells⟩ := cells_of_recs hk (h.neat.searched hk) hrecs
  obtain ⟨env', hrun, hrep, hlive, hlist, hstates⟩ := delEntry_run hrom h.rep
    (fun b hb => hkept.stored_type (hle b hb)) hcells hhit.1
  have hmem : r.body ∈ liveOf n S₀.shot := hle _ (hlive ▸ mem_cons_self _ _)
  obtain ⟨ns, key, -, -, hkey⟩ := hkept.addressed _ hmem
  obtain ⟨hothers, hcnt⟩ := othersOf_cons (Λ := liveOf n (S.kill ⟨k, recsSize pre, r⟩ r.size).shot)
    (show Entry.ns r.body.1 = i from hhit.2.symm)
  rw [← hlive] at hothers hcnt
  refine ⟨env', _, hrun, ⟨hrep, ?_, ?_, hothers.symm.trans h.others, hlist.trans h.list,
    hstates.trans h.states⟩, hcnt, rfl, ?_, fun j hj => S.page_setPage_of_ne hj _⟩
  · exact h.neat.kill hcells hhit.1 (nodup_of_le h.le hkept.nodup) hkey
  · exact ((hlive ▸ le_cons_self _ _ : _ ≤ liveOf n S.shot)).trans h.le
  · rw [Store.kill, Store.page_setPage, hrecs, giveUpAt_append]

end Purge

/-! ### A namespace without its records -/

/-- The contents without the keys of a namespace. -/
def Contents.without (m : Contents) (c : CString) : Contents :=
  Function.update m (some c) fun _ => none

section Others

variable {Λ : Multiset Body} {i : ℕ}

/-- The records of a key are among the ones of its namespace. -/
theorem recsOf_othersOf (ns : ℕ) (key : CString) :
    recsOf (othersOf Λ i) ns key = if ns = i then 0 else recsOf Λ ns key := by
  rw [othersOf, recsOf, filter_filter]
  split
  · next h =>
    rw [filter_eq_nil]
    rintro b - ⟨hhit, hne⟩
    exact hne ((ns_of_hit hhit).1.trans h)
  · next h =>
    refine filter_congr fun b _ => ⟨And.left, fun hhit => ⟨hhit, ?_⟩⟩
    rw [(ns_of_hit hhit).1]
    exact h

theorem keysIn_othersOf {j : ℕ} (hj : j ≠ i) : keysIn (othersOf Λ i) j = keysIn Λ j := by
  rw [keysIn, othersOf, countP_filter]
  refine countP_congr rfl fun b _ => propext ⟨And.left, fun h => ⟨h, ?_⟩⟩
  rw [h.1]
  exact hj

/-- Without a record of the namespace the others are all. -/
theorem othersOf_eq_self (h : recordsIn Λ i = 0) : othersOf Λ i = Λ :=
  filter_eq_self.mpr fun b hb hi => countP_eq_zero.mp h b hb hi

theorem Kept.others (h : Kept Λ) : Kept (othersOf Λ i) := by
  refine ⟨h.nodup.filter _, fun b hb => h.addressed b (mem_of_mem_filter hb), ?_⟩
  intro ns key hns hkey
  rw [recsOf_othersOf]
  split
  · exact Or.inr rfl
  · exact h.stored ns key hns hkey

variable {ids : List (CString × ℕ)} {states : ℕ → Bool} {c : CString} (hmem : (c, i) ∈ ids)
include hmem

theorem Named.others (h : Named ids states Λ) : Named ids states (othersOf Λ i) := by
  have h0 : ∀ name, recsOf (othersOf Λ i) 0 name = recsOf Λ 0 name := by
    intro name
    rw [recsOf_othersOf, if_neg]
    have := (h.range _ hmem).1
    omega
  refine ⟨h.names, h.indices, h.range, fun d hd => ?_, fun name hne => ?_, h.taken, ?_⟩
  · rw [h0]
    exact h.defined d hd
  · rw [h0] at hne
    exact h.only name hne
  · exact fun b hb => h.known b (mem_of_mem_filter hb)

theorem Shown.others {m : Contents} (h : Shown ids Λ m) (hn : Named ids states Λ) :
    Shown ids (othersOf Λ i) (m.without c) := by
  have hci := (nsIndex_some hn.names).mpr hmem
  refine ⟨fun name key hname hkey => ?_, fun name j key hj hkey => ?_⟩
  · rw [Contents.without, Function.update_of_ne]
    · exact h.undefined name key hname hkey
    · rintro rfl
      rw [hci] at hname
      exact absurd hname (by simp)
  · rw [recsOf_othersOf, Contents.without]
    by_cases hname : name = some c
    · subst hname
      rw [hci] at hj
      rw [if_pos (Option.some.inj hj).symm, Function.update_self]
      rfl
    · rw [if_neg, Function.update_of_ne hname]
      · exact h.holding name j key hj hkey
      · rintro rfl
        exact hname (hn.index_inj hj hci)

end Others

/-! ### The record of the namespace -/

theorem nsIds_changeNamed (c : CString) (v : ℕ) (nss : List NamespaceInfo) :
    nsIds (changeNamed c (NamespaceInfo.withCnt v) nss) = nsIds nss := by
  induction nss with
  | nil => rfl
  | cons r nss ih =>
    rw [changeNamed]
    split
    · rfl
    · rw [nsIds, List.map_cons, ← nsIds, ih]
      rfl

/-- With a name of its own for every namespace, one record changes. -/
theorem mem_changeNamed {c : CString} {f : NamespaceInfo → NamespaceInfo}
    {nss : List NamespaceInfo} (hnd : ((nsIds nss).map Prod.fst).Nodup) {r : NamespaceInfo}
    (h : r ∈ changeNamed c f nss) : ∃ s ∈ nss, r = if s.name = c then f s else s := by
  induction nss with
  | nil => simp [changeNamed] at h
  | cons s nss ih =>
    rw [nsIds, List.map_cons, List.map_cons, List.nodup_cons] at hnd
    rw [changeNamed] at h
    split at h
    · next hs =>
      rcases List.mem_cons.mp h with rfl | h
      · exact ⟨s, by simp, by rw [if_pos hs]⟩
      · refine ⟨r, by simp [h], ?_⟩
        rw [if_neg]
        rintro rfl
        refine hnd.1 ?_
        rw [hs, List.map_map]
        exact List.mem_map.mpr ⟨r, h, rfl⟩
    · next hs =>
      rcases List.mem_cons.mp h with rfl | h
      · exact ⟨r, by simp, by rw [if_neg hs]⟩
      · obtain ⟨t, ht, e⟩ := ih hnd.2 h
        exact ⟨t, by simp [ht], e⟩

/-- The count of a record in the list, which is what the scan starts from. -/
theorem changeNamed_self {nss : List NamespaceInfo} {c : CString} {r : NamespaceInfo}
    (h : (nss.find? fun s => decide (s.name = c)) = some r) :
    changeNamed c (NamespaceInfo.withCnt r.usedCnt) nss = nss := by
  induction nss with
  | nil => rfl
  | cons s nss ih =>
    rw [changeNamed]
    by_cases hs : s.name = c
    · rw [List.find?_cons_of_pos (by simpa using hs)] at h
      rw [if_pos hs, ← Option.some.inj h]
      rfl
    · rw [List.find?_cons_of_neg (by simpa using hs)] at h
      rw [if_neg hs, ih h]

theorem lower_withCnt {v : ℕ} (hpos : 0 < v) (hlt : v < 2 ^ 32) (s : NamespaceInfo) :
    (s.withCnt v).add (2 ^ 32 - 1) = s.withCnt (v - 1) := by
  have hmod : (v + (2 ^ 32 - 1)) % 2 ^ 32 = v - 1 := by omega
  simp only [NamespaceInfo.add, NamespaceInfo.withCnt, hmod]

theorem changeNamed_lower {v : ℕ} (hpos : 0 < v) (hlt : v < 2 ^ 32) (c : CString)
    (nss : List NamespaceInfo) :
    changeNamed c (NamespaceInfo.add (2 ^ 32 - 1)) (changeNamed c (NamespaceInfo.withCnt v) nss) =
      changeNamed c (NamespaceInfo.withCnt (v - 1)) nss := by
  induction nss with
  | nil => simp only [changeNamed]
  | cons s nss ih =>
    by_cases hs : s.name = c
    · rw [changeNamed, if_pos hs, changeNamed, changeNamed, if_pos (by exact hs), if_pos hs,
        lower_withCnt hpos hlt]
    · rw [changeNamed, if_neg hs, changeNamed, changeNamed, if_neg hs, if_neg hs, ih]

/-! ### The end of the namespace -/

section Remove

variable {rom : NvdsRom} (hrom : rom.Reliable) {n slack i : ℕ} {c : CString} {env₀ env : FlashEnv}
  {S₀ S : Store} {m : Contents} {v : ℕ}

include hrom in
/-- Deleting a key whose value is small gives up one record. -/
theorem dataElementDel_small (hrep : Rep n env S) {w : List UInt8}
    (hns : ns < 256) (hkey : key.len < keyNameMaxSize) (hw : w.length ≤ 8)
    (hown : own n S.shot ns key = {(smallEntry ns key w, [])}) :
    ∃ d X Y env', S.cells = X ++ d :: Y ∧ d.record.live = true ∧
      elementHit ns key .any d.record.hdr = true ∧
      dataElementDel rom ns key env = some (.ok (), env') ∧ Rep n env' (S.kill d d.record.size) := by
  obtain ⟨d, hd, hfind, hmem, hfound⟩ := elementFind_any hrom hrep.view hown (by simp)
  have hhit := List.find?_some hfind
  rw [Cell.hit, Bool.and_eq_true] at hhit
  obtain ⟨X, Y, hcells⟩ := List.append_of_mem hd
  have hbody := mem_singleton.mp hmem
  rw [Rec.body] at hbody
  obtain ⟨hhdr, hdata⟩ := Prod.mk.inj hbody
  have htype : Entry.type d.record.hdr = .small := by
    rw [hhdr]
    exact (fields_small hns hkey hw).1
  obtain ⟨env', hrun, hrep', -⟩ := does_elementDrop hrom hcells hhit.1 env hrep
  rw [hdata, List.length_nil] at hrun
  refine ⟨d, X, Y, env', hcells, hhit.1, hhit.2, ?_, hrep'⟩
  have hread := entryRead_cell hrom hrep.view hd
  rw [dataElementDel, NvdsM.bind_ok (NvdsM.search_eq hfound), NvdsM.bind_ok (NvdsM.look_ok hread),
    htype]
  exact hrun

/-- **The scan has found all records**: what it leaves is in order, without the keys of the
namespace. -/
theorem Purge.well (h : Purge n i c env₀ S₀ v env S) (hw : Well n slack False none env₀ S₀ m)
    (hmem : (c, i) ∈ nsIds env₀.nsList) (hzero : recordsIn (liveOf n S.shot) i = 0)
    (hv : v ≤ slack) : Well n slack False none env S (m.without c) := by
  have hlive : liveOf n S.shot = othersOf (liveOf n S₀.shot) i := by
    rw [← h.others, othersOf_eq_self hzero]
  have hids : nsIds env.nsList = nsIds env₀.nsList := by
    rw [h.list, nsIds_changeNamed]
  refine ⟨h.rep, h.neat, ?_, ?_, ?_, ?_⟩
  · rw [hlive]
    exact hw.kept.others
  · rw [hlive, hids, h.states]
    exact hw.named.others hmem
  · rw [h.list]
    intro s hs
    obtain ⟨s₀, hs₀, rfl⟩ := mem_changeNamed hw.named.names hs
    have hs₀' : (s₀.name, s₀.index) ∈ nsIds env₀.nsList := List.mem_map.mpr ⟨s₀, hs₀, rfl⟩
    split
    · next hname =>
      have hindex : s₀.index = i := (Prod.mk.inj (List.inj_on_of_nodup_map hw.named.names hs₀' hmem
        (by exact hname))).2
      refine ⟨v, hv, ?_⟩
      have hnone : keysIn (liveOf n S.shot) s₀.index = 0 := by
        have := recordsIn_eq (liveOf n S.shot) s₀.index
        rw [hindex] at this ⊢
        omega
      change v = keysIn (liveOf n S.shot) s₀.index + v
      omega
    · next hname =>
      have hindex : s₀.index ≠ i := by
        intro hi
        exact hname (Prod.mk.inj (List.inj_on_of_nodup_map hw.named.indices hs₀' hmem
          (by exact hi))).1
      obtain ⟨d, hd, hcnt⟩ := hw.counted s₀ hs₀
      refine ⟨d, hd, ?_⟩
      rw [hlive, keysIn_othersOf hindex]
      exact hcnt
  · rw [hlive, hids]
    exact hw.shown.others hmem hw.named

/-- The only record with the index of the namespace. -/
theorem Purge.find (h : Purge n i c env₀ S₀ v env S)
    (hw : Well n slack False none env₀ S₀ m) {r : NamespaceInfo} (hr : r ∈ env₀.nsList)
    (hname : r.name = c) (hindex : r.index = i) :
    env.nsList.find? (fun s => decide (s.index = i)) = some (r.withCnt v) := by
  have hin : ∀ s ∈ env.nsList, s.index = i → s = r.withCnt v := by
    intro s hs hsi
    rw [h.list] at hs
    obtain ⟨s₀, hs₀, rfl⟩ := mem_changeNamed hw.named.names hs
    have hs₀i : s₀.index = i := by
      split at hsi
      · exact hsi
      · exact hsi
    have hsame : s₀ = r := by
      refine List.inj_on_of_nodup_map (f := NamespaceInfo.index) ?_ hs₀ hr (hs₀i.trans hindex.symm)
      have := hw.named.indices
      rwa [nsIds, List.map_map] at this
    rw [hsame, if_pos hname]
  rcases hfind : env.nsList.find? (fun s => decide (s.index = i)) with _ | s
  · -- the namespace has a record
    have hids : (c, i) ∈ nsIds env.nsList := by
      rw [h.list, nsIds_changeNamed, ← hname, ← hindex]
      exact List.mem_map.mpr ⟨r, hr, rfl⟩
    obtain ⟨s, hs, hsi⟩ := List.mem_map.mp hids
    exact absurd (Prod.mk.inj hsi).2 (by simpa using List.find?_eq_none.mp hfind s hs)
  · rw [hfind, hin s (List.mem_of_find?_eq_some hfind) (by simpa using List.find?_some hfind)]

/-- **The namespace is gone**: what is left is in order, and neither its keys nor its record, its
index bit and its definition are there. -/
def Emptied (n slack i : ℕ) (c : CString) (env₀ : FlashEnv) (m : Contents) (env : FlashEnv) :
    Prop :=
  ∃ S, Well n slack False none env S (m.without c) ∧
    nsIds env.nsList = (nsIds env₀.nsList).erase (c, i) ∧ env.nsStates i = false ∧
    recsOf (liveOf n S.shot) 0 c = 0

include hrom in
/-- **The record is removed.** Nothing changes but the definition of the namespace; if there was no
header left, what remains is in order. -/
theorem Purge.remove (h : Purge n i c env₀ S₀ 0 env S) (hw : Well n slack False none env₀ S₀ m)
    {r : NamespaceInfo} (hr : r ∈ env₀.nsList) (hname : r.name = c) (hindex : r.index = i) :
    ∃ d X Y env', S.cells = X ++ d :: Y ∧ Entry.ns d.record.hdr ≠ i ∧
      nsRemove rom (r.withCnt 0) env = some (.ok (), env') ∧
      Rep n env' (S.kill d d.record.size) ∧ Neat n False none (S.kill d d.record.size) ∧
      liveOf n (S.kill d d.record.size).shot ≤ liveOf n S₀.shot ∧
      (recordsIn (liveOf n S.shot) i = 0 → Emptied n slack i c env₀ m env') := by
  have hmem : (c, i) ∈ nsIds env₀.nsList := by
    rw [← hname, ← hindex]
    exact List.mem_map.mpr ⟨r, hr, rfl⟩
  obtain ⟨hpos, hle, hlen⟩ := hw.named.range _ hmem
  simp only [] at hpos hle hlen
  -- the definition is still there
  have hdef : recsOf (liveOf n S.shot) 0 c = recsOf (liveOf n S₀.shot) 0 c := by
    have := congrArg (fun Λ => recsOf Λ 0 c) h.others
    simpa only [recsOf_othersOf, if_neg (show (0 : ℕ) ≠ i by omega)] using this
  have hkeeps := hw.named.defined _ hmem
  rw [← hdef] at hkeeps
  have hsmall : own n S.shot 0 c = {(smallEntry 0 c [UInt8.ofNat i], [])} := by
    rw [show own n S.shot 0 c = recsOf (liveOf n S.shot) 0 c from rfl]
    generalize recsOf (liveOf n S.shot) 0 c = B at hkeeps
    cases hkeeps with
    | small => rfl
    | middle hlt => simp at hlt
    | bulk hlt => simp at hlt
  obtain ⟨d, X, Y, env', hcells, hlive, hhit, hrun, hrep⟩ := dataElementDel_small hrom
    (h.rep.of_names (env.nsList.erase (r.withCnt 0)) (Function.update env.nsStates i false))
    (by decide) hlen (by simp) hsmall
  have hnd : (liveOf n S.shot).Nodup := nodup_of_le h.le hw.kept.nodup
  have hkill := liveOf_kill hcells hlive (fun _ => h.rep.used_lt) d.record.size_pos
  have hremove : nsRemove rom (r.withCnt 0) env = some (.ok (), env') := by
    rw [nsRemove, NvdsM.modify_bind, nsStateSet, NamespaceInfo.index_withCnt,
      NamespaceInfo.name_withCnt, hindex, hname]
    exact hrun
  refine ⟨d, X, Y, env', hcells, ?_, hremove, hrep, h.neat.kill hcells hlive hnd hhit, ?_,
    fun hzero => ?_⟩
  · rw [(ns_of_hit hhit).1]
    omega
  · exact (hkill ▸ le_cons_self _ _ : _ ≤ liveOf n S.shot).trans h.le
  · -- what `ns_del_used_cnt` does with a count of zero
    have hwell := h.well hw hmem hzero (Nat.zero_le slack)
    obtain ⟨env'', S', hdrop, hwell', hcase⟩ := hwell.drop hrom i
    have hfind := h.find hw hr hname hindex
    have hsame : nsDrop rom i env = nsRemove rom (r.withCnt 0) env := by
      rw [nsDrop, NvdsM.get_bind, hfind]
      simp only [NamespaceInfo.usedCnt_withCnt, true_and, if_pos hle]
      rw [nsRemove, NamespaceInfo.index_withCnt, hindex]
    rw [hsame, hremove] at hdrop
    obtain ⟨-, rfl⟩ := Prod.mk.inj (Option.some.inj hdrop)
    rcases hcase with ⟨-, -, hcnt⟩ | ⟨c', hc', -, hids, hbit, hrecs, -⟩
    · have hin := List.mem_of_find?_eq_some hfind
      exact absurd rfl (hcnt _ hin hindex)
    · have hids₀ : nsIds env.nsList = nsIds env₀.nsList := by rw [h.list, nsIds_changeNamed]
      rw [hids₀] at hids hc'
      have hcc : c' = c := (Prod.mk.inj (List.inj_on_of_nodup_map hw.named.indices hc' hmem rfl)).1
      subst hcc
      exact ⟨S', hwell', hids, hbit, hrecs⟩

end Remove

/-! ### Scans that do not count -/

/-- The headers of namespace `i` in use on some pages. -/
def Store.headersOn (S : Store) (i : ℕ) (ks : List ℕ) : ℕ :=
  (ks.map fun k => (S.page k).recs.countP (Rec.inNs i)).sum

theorem Store.headersOn_cons (S : Store) (i k : ℕ) (ks : List ℕ) :
    S.headersOn i (k :: ks) = (S.page k).recs.countP (Rec.inNs i) + S.headersOn i ks := by
  rfl

/-- The headers on pages of which the scan sees the same. -/
theorem Store.headersOn_congr {S S' : Store} {i : ℕ}
    (h : ∀ k ∈ ks, (S'.page k).view i = (S.page k).view i) :
    S'.headersOn i ks = S.headersOn i ks := by
  rw [headersOn, headersOn]
  congr 1
  refine List.map_congr_left fun k hk => ?_
  rw [countP_inNs_view, countP_inNs_view]
  exact congrArg _ (h k hk)

/-- A page has fewer records than there are indices. -/
theorem View.length_recs {n : ℕ} {env : FlashEnv} {S : Store} (h : View n env S) {k : ℕ}
    (hk : k ∈ S.used) : (S.page k).recs.length < 256 := by
  have h1 := length_le_recsSize (S.page k).recs
  have h2 := h.size k hk
  omega

section Idle

variable {rom : NvdsRom} (hrom : rom.Reliable) {n i : ℕ} {env : FlashEnv} {S : Store}
include hrom

/-- On a page without a header of the namespace the scan does nothing. -/
theorem scanFrom_idle (hview : View n env S) {k : ℕ} (hk : k ∈ S.used) (ks : List ℕ) (p : NsPtr) {pre post : List Rec} (hrecs : (S.page k).recs = pre ++ post)
    (hfuel : post.length < fuel) (hzero : post.countP (Rec.inNs i) = 0) :
    scanFrom rom i k fuel (recsSize pre) ks p env = delKeysPages rom i ks p env := by
  induction post generalizing fuel pre with
  | nil =>
    obtain ⟨fuel, rfl⟩ := Nat.exists_eq_add_of_lt hfuel
    rw [List.append_nil] at hrecs
    rw [← hrecs]
    exact scanFrom_end hview hk _ ks p
  | cons r post ih =>
    obtain ⟨fuel, rfl⟩ : ∃ m, fuel = m + 1 := ⟨fuel - 1, by omega⟩
    rw [List.countP_cons] at hzero
    have hnot : r.inNs i = false := by
      cases hr : r.inNs i
      · rfl
      · rw [hr, if_pos rfl] at hzero
        omega
    rw [scanFrom_skip hrom hview hk hrecs hnot]
    exact ih (by rw [hrecs, List.append_assoc]; rfl) (by simpa using hfuel) (by omega)

/-- **Without a header of the namespace the scan does nothing.** -/
theorem delKeysPages_idle (hview : View n env S) (hs : ∀ k ∈ S.used, (S.page k).searched = true)
    (p : NsPtr) (hks : ∀ k ∈ ks, k ∈ S.used) (hzero : S.headersOn i ks = 0) :
    delKeysPages rom i ks p env = some (.ok p, env) := by
  induction ks with
  | nil => rfl
  | cons k ks ih =>
    have hk := hks k (by simp)
    rw [Store.headersOn_cons] at hzero
    have hstart : (S.page k).recs = [] ++ (S.page k).recs := rfl
    rw [delKeysPages_cons hview hk (hs k hk)]
    exact (scanFrom_idle hrom hview hk ks p hstart (hview.length_recs hk) (by omega)).trans
      (ih (fun j hj => hks j (by simp [hj])) (by omega))

variable (hrep : Rep n env S) (hneat : Neat n False none S)
  (hkept : ∀ b ∈ liveOf n S.shot, (Entry.type b.1).Stored) {p : NsPtr} (hfreed : p.target = none)
include hrep hneat hkept hfreed

/-- The scan meets a header on this page after the record has been freed. -/
theorem scanFrom_freed {k : ℕ} (hk : k ∈ S.used) (ks : List ℕ) {pre post : List Rec}
    (hrecs : (S.page k).recs = pre ++ post) (hfuel : post.length < fuel)
    (hpos : 0 < post.countP (Rec.inNs i)) :
    scanFrom rom i k fuel (recsSize pre) ks p env = none := by
  induction post generalizing fuel pre with
  | nil => simp at hpos
  | cons r post ih =>
    obtain ⟨fuel, rfl⟩ : ∃ m, fuel = m + 1 := ⟨fuel - 1, by omega⟩
    cases hr : r.inNs i with
    | false =>
      rw [scanFrom_skip hrom hrep.view hk hrecs hr]
      rw [List.countP_cons, hr] at hpos
      exact ih (by rw [hrecs, List.append_assoc]; rfl) (by simpa using hfuel) (by simpa using hpos)
    | true =>
      obtain ⟨X, Y, hcells⟩ := cells_of_recs hk (hneat.searched hk) hrecs
      have hlive := (Bool.and_eq_true _ _ ▸ hr : _ ∧ _).1
      obtain ⟨env', hrun, -⟩ := delEntry_run hrom hrep hkept hcells hlive
      rw [scanFrom_hit hrom hrep.view hk hrecs hr, NvdsM.bind_ok hrun, nsLowerPtr, hfreed]
      rfl

/-- **After the record has been freed, the next header of the namespace is undefined behaviour.** -/
theorem delKeysPages_freed (hks : ∀ k ∈ ks, k ∈ S.used)
    (hpos : 0 < S.headersOn i ks) : delKeysPages rom i ks p env = none := by
  induction ks with
  | nil => simp [Store.headersOn] at hpos
  | cons k ks ih =>
    have hk := hks k (by simp)
    rw [Store.headersOn_cons] at hpos
    have hstart : (S.page k).recs = [] ++ (S.page k).recs := rfl
    rw [delKeysPages_cons hrep.view hk (hneat.searched hk)]
    rcases eq_zero_or_pos ((S.page k).recs.countP (Rec.inNs i)) with hzero | hhit
    · exact (scanFrom_idle hrom hrep.view hk ks p hstart (hrep.view.length_recs hk) hzero).trans
        (ih (fun j hj => hks j (by simp [hj])) (by omega))
    · exact scanFrom_freed hrom hrep hneat hkept hfreed hk ks hstart (hrep.view.length_recs hk) hhit

/-- The rest of a scan after the record has been freed. -/
theorem scanFrom_end_freed {k : ℕ} (hks : ∀ j ∈ k :: ks, j ∈ S.used)
    {pre post : List Rec} (hrecs : (S.page k).recs = pre ++ post) (hfuel : post.length < fuel) :
    scanFrom rom i k fuel (recsSize pre) ks p env =
      if post.countP (Rec.inNs i) + S.headersOn i ks = 0 then some (.ok p, env) else none := by
  have hk := hks k (by simp)
  have hks' : ∀ j ∈ ks, j ∈ S.used := fun j hj => hks j (by simp [hj])
  rcases eq_zero_or_pos (post.countP (Rec.inNs i)) with hzero | hpos
  · rw [scanFrom_idle hrom hrep.view hk ks p hrecs hfuel hzero, hzero, zero_add]
    rcases eq_zero_or_pos (S.headersOn i ks) with hnone | hsome
    · rw [if_pos hnone]
      exact delKeysPages_idle hrom hrep.view (fun _ => hneat.searched) p hks' hnone
    · rw [if_neg (by omega)]
      exact delKeysPages_freed hrom hrep hneat hkept hfreed hks' hsome
  · rw [if_neg (by omega)]
    exact scanFrom_freed hrom hrep hneat hkept hfreed hk ks hrecs hfuel hpos

end Idle

/-! ### The scan that counts -/

/-- What is done to a record that counts `v` while `h` headers are met. -/
def countdown : ℕ → ℕ → List RecordUse
  | _, 0 => []
  | v, h + 1 => .lower v :: countdown (v - 1) h

section Count

variable {n slack i : ℕ} {c : CString} {env₀ env : FlashEnv}
  {S₀ S : Store} {m : Contents} {v : ℕ} {r : NamespaceInfo} (hname : r.name = c)

include hname in
/-- Lowering the count. -/
theorem Purge.lower (rom : NvdsRom) (h : Purge n i c env₀ S₀ v env S) (hv : 0 < v) (hlt : v < 2 ^ 32)
    (uses : List RecordUse) :
    ∃ env', Purge n i c env₀ S₀ (v - 1) env' S ∧
      nsLowerPtr rom ⟨some (r.withCnt v), uses⟩ env =
        if v = 1 then
          (nsRemove rom (r.withCnt 0) >>= fun _ => pure ⟨none, uses ++ [.lower 1, .remove]⟩) env'
        else some (.ok ⟨some (r.withCnt (v - 1)), uses ++ [.lower v]⟩, env') := by
  have hlist : changeNamed c (NamespaceInfo.add (2 ^ 32 - 1)) env.nsList =
      changeNamed c (NamespaceInfo.withCnt (v - 1)) env₀.nsList := by
    rw [h.list, changeNamed_lower hv hlt]
  refine ⟨{ env with nsList := changeNamed c (NamespaceInfo.withCnt (v - 1)) env₀.nsList },
    ⟨h.rep.of_names _ env.nsStates, h.neat, h.le, h.others, rfl, h.states⟩, ?_⟩
  rw [nsLowerPtr]
  simp only [lower_withCnt hv hlt, NamespaceInfo.name_withCnt, NamespaceInfo.usedCnt_withCnt, hname]
  rw [NvdsM.modify_bind, hlist]
  by_cases hone : v = 1
  · subst hone
    rfl
  · rw [if_neg hone, if_neg (by omega)]
    rfl

variable {rom : NvdsRom} (hrom : rom.Reliable)

include hrom hname in
/-- **A page with fewer headers than the record counts.** -/
theorem Purge.page (h : Purge n i c env₀ S₀ v env S) (hkept : Kept (liveOf n S₀.shot))
    (hv : v < 2 ^ 32) {k : ℕ} (hk : k ∈ S.used) (ks : List ℕ) (uses : List RecordUse) {pre post : List Rec} (hrecs : (S.page k).recs = pre ++ post)
    (hfuel : post.length < fuel) (hlt : post.countP (Rec.inNs i) < v) :
    ∃ env' S', scanFrom rom i k fuel (recsSize pre) ks ⟨some (r.withCnt v), uses⟩ env =
        delKeysPages rom i ks ⟨some (r.withCnt (v - post.countP (Rec.inNs i))),
          uses ++ countdown v (post.countP (Rec.inNs i))⟩ env' ∧
      Purge n i c env₀ S₀ (v - post.countP (Rec.inNs i)) env' S' ∧
      recordsIn (liveOf n S.shot) i =
        recordsIn (liveOf n S'.shot) i + post.countP (Rec.inNs i) ∧
      S'.used = S.used ∧ ∀ j ≠ k, S'.page j = S.page j := by
  induction post generalizing fuel pre v env S uses with
  | nil =>
    obtain ⟨fuel, rfl⟩ := Nat.exists_eq_add_of_lt hfuel
    refine ⟨env, S, ?_, h, rfl, rfl, fun _ _ => rfl⟩
    rw [List.append_nil] at hrecs
    rw [← hrecs, scanFrom_end h.rep.view hk, List.countP_nil, countdown, List.append_nil]
    rfl
  | cons s post ih =>
    obtain ⟨fuel, rfl⟩ : ∃ m, fuel = m + 1 := ⟨fuel - 1, by omega⟩
    rw [List.countP_cons] at hlt ⊢
    cases hs : s.inNs i with
    | false =>
      rw [hs] at hlt
      simp only [Bool.false_eq_true, if_false, add_zero] at hlt ⊢
      rw [scanFrom_skip hrom h.rep.view hk hrecs hs]
      exact ih h hv hk uses (by rw [hrecs, List.append_assoc]; rfl) (by simpa using hfuel) hlt
    | true =>
      rw [hs] at hlt
      simp only [if_true] at hlt ⊢
      obtain ⟨env₁, S₁, hrun, h₁, hcnt, hused, hrecs₁, hother⟩ := h.drop hrom hkept hk hrecs hs
      obtain ⟨env₂, h₂, hlower⟩ := h₁.lower hname rom (by omega) hv uses
      rw [if_neg (by omega)] at hlower
      have hrecs₂ : (S₁.page k).recs = pre ++ [s.giveUp s.size] ++ post := by
        rw [hrecs₁, List.append_assoc]
        rfl
      obtain ⟨env', S', hrest, h', hcnt', hused', hother'⟩ := ih h₂ (by omega) (hused ▸ hk)
        (uses ++ [.lower v]) hrecs₂ (show post.length < fuel by simpa using hfuel) (by omega)
      have hsub : v - 1 - post.countP (Rec.inNs i) = v - (post.countP (Rec.inNs i) + 1) := by omega
      rw [hsub] at hrest h'
      refine ⟨env', S', ?_, h', by omega, hused'.trans hused,
        fun j hj => (hother' j hj).trans (hother j hj)⟩
      rw [scanFrom_hit hrom h.rep.view hk hrecs hs, NvdsM.bind_ok hrun, NvdsM.bind_ok hlower]
      rw [recsSize_append, recsSize_cons, Rec.size_giveUp] at hrest
      rw [recsSize_append, recsSize_cons, hrest, countdown, List.append_assoc, List.singleton_append]

include hrom hname in
/-- **The count is at zero.** The record is removed, and what is left of the scan depends on whether
there are headers left. -/
theorem Purge.zero (h : Purge n i c env₀ S₀ 0 env S) (hw : Well n slack False none env₀ S₀ m)
    (hr : r ∈ env₀.nsList) (hindex : r.index = i) {k : ℕ}
    (hks : ∀ j ∈ k :: ks, j ∈ S.used) {pre post : List Rec}
    (hrecs : (S.page k).recs = pre ++ post) (hfuel : post.length < fuel) {p : NsPtr}
    (hfreed : p.target = none)
    (hsum : recordsIn (liveOf n S.shot) i = post.countP (Rec.inNs i) + S.headersOn i ks) :
    ∃ env', nsRemove rom (r.withCnt 0) env = some (.ok (), env') ∧
      (recordsIn (liveOf n S.shot) i = 0 → Emptied n slack i c env₀ m env') ∧
      scanFrom rom i k fuel (recsSize pre) ks p env' =
        if recordsIn (liveOf n S.shot) i = 0 then some (.ok p, env') else none := by
  obtain ⟨d, X, Y, env', hcells, hns, hrun, hrep, hneat, hle, hempty⟩ := h.remove hrom hw hr hname
    hindex
  refine ⟨env', hrun, hempty, ?_⟩
  -- the scan does not see that the definition has gone
  have hview := fun j => view_kill hcells hns j
  have hsplit := hview k
  rw [APage.view, APage.view, hrecs, List.map_append] at hsplit
  obtain ⟨pre', post', hrecs', hpre, hpost⟩ := List.map_eq_append_iff.mp hsplit
  have hsize : recsSize pre = recsSize pre' := by
    rw [recsSize_view pre i, recsSize_view pre' i, hpre]
  have hcount : post'.countP (Rec.inNs i) = post.countP (Rec.inNs i) := by
    rw [countP_inNs_view, countP_inNs_view, hpost]
  have hlength : post'.length = post.length := by simpa using congrArg List.length hpost
  have hkept : ∀ b ∈ liveOf n (S.kill d d.record.size).shot, (Entry.type b.1).Stored :=
    fun b hb => hw.kept.stored_type (mem_of_le hle hb)
  rw [hsize, scanFrom_end_freed hrom hrep hneat hkept hfreed hks hrecs' (by omega), hcount,
    Store.headersOn_congr fun j _ => hview j, ← hsum]

include hrom hname in
/-- **A page on which the count comes to its end.** The record is removed; the scan returns if this
was the last header, and runs into the record that has been freed if it was not. -/
theorem Purge.lastPage (h : Purge n i c env₀ S₀ v env S) (hw : Well n slack False none env₀ S₀ m)
    (hr : r ∈ env₀.nsList) (hindex : r.index = i) (hpos : 0 < v) (hv : v < 2 ^ 32) {k : ℕ} (hks : ∀ j ∈ k :: ks, j ∈ S.used) (hnot : k ∉ ks) (uses : List RecordUse) {pre post : List Rec} (hrecs : (S.page k).recs = pre ++ post)
    (hfuel : post.length < fuel) (hge : v ≤ post.countP (Rec.inNs i)) {left : ℕ}
    (hleft : recordsIn (liveOf n S.shot) i = left)
    (hsum : left = post.countP (Rec.inNs i) + S.headersOn i ks) :
    (left = v → ∃ env', scanFrom rom i k fuel (recsSize pre) ks ⟨some (r.withCnt v), uses⟩ env =
        some (.ok ⟨none, uses ++ countdown v v ++ [.remove]⟩, env') ∧
        Emptied n slack i c env₀ m env') ∧
      (v < left →
        scanFrom rom i k fuel (recsSize pre) ks ⟨some (r.withCnt v), uses⟩ env = none) := by
  induction post generalizing fuel pre v env S uses left with
  | nil =>
    rw [List.countP_nil] at hge
    omega
  | cons s post ih =>
    obtain ⟨fuel, rfl⟩ : ∃ m, fuel = m + 1 := ⟨fuel - 1, by omega⟩
    have hk := hks k (by simp)
    have hfuel' : post.length < fuel := by simpa using hfuel
    rw [List.countP_cons] at hge hsum
    cases hs : s.inNs i with
    | false =>
      rw [hs] at hge hsum
      simp only [Bool.false_eq_true, if_false, add_zero] at hge hsum
      rw [scanFrom_skip hrom h.rep.view hk hrecs hs]
      have hrecs' : (S.page k).recs = pre ++ [s] ++ post := by
        rw [hrecs, List.append_assoc]
        rfl
      exact ih h hpos hv hks uses hrecs' hfuel' hge hleft hsum
    | true =>
      rw [hs] at hge hsum
      simp only [if_true] at hge hsum
      obtain ⟨env₁, S₁, hrun, h₁, hcnt, hused, hrecs₁, hother⟩ := h.drop hrom hw.kept hk hrecs hs
      obtain ⟨env₂, h₂, hlower⟩ := h₁.lower hname rom hpos hv uses
      have hrecs₂ : (S₁.page k).recs = pre ++ [s.giveUp s.size] ++ post := by
        rw [hrecs₁, List.append_assoc]
        rfl
      have hsize : recsSize (pre ++ [s]) = recsSize (pre ++ [s.giveUp s.size]) := by simp
      have hheaders : S₁.headersOn i ks = S.headersOn i ks :=
        Store.headersOn_congr fun j hj => by rw [hother j (ne_of_mem_of_not_mem hj hnot)]
      have hks₁ : ∀ j ∈ k :: ks, j ∈ S₁.used := by rwa [hused]
      rw [scanFrom_hit hrom h.rep.view hk hrecs hs, NvdsM.bind_ok hrun, hsize]
      by_cases hone : v = 1
      · subst hone
        rw [if_pos rfl] at hlower
        have hsum₁ : recordsIn (liveOf n S₁.shot) i =
            post.countP (Rec.inNs i) + S₁.headersOn i ks := by omega
        obtain ⟨env', hremove, hempty, hrest⟩ := h₂.zero hname hrom hw hr hindex hks₁ hrecs₂ hfuel'
          (show (⟨none, uses ++ [.lower 1, .remove]⟩ : NsPtr).target = none from rfl) hsum₁
        rw [NvdsM.bind_ok hremove] at hlower
        rw [NvdsM.bind_ok hlower, hrest]
        refine ⟨fun he => ⟨env', ?_, hempty (by omega)⟩, fun he => if_neg (by omega)⟩
        rw [if_pos (by omega), List.append_assoc]
        rfl
      · rw [if_neg hone] at hlower
        rw [NvdsM.bind_ok hlower]
        have hend := ih h₂ (by omega) (by omega) hks₁ (uses ++ [.lower v]) hrecs₂ hfuel' (by omega)
          rfl (by omega)
        obtain ⟨v, rfl⟩ : ∃ u, v = u + 1 := ⟨v - 1, by omega⟩
        rw [Nat.add_sub_cancel, List.append_assoc, List.append_assoc, List.singleton_append] at hend
        rw [countdown, Nat.add_sub_cancel, List.append_assoc]
        exact ⟨fun he => hend.1 (by omega), fun he => hend.2 (by omega)⟩

end Count

end Nvds

end Gd32
