import Gd32Firmware.Nvds.Load
import Gd32Firmware.Nvds.Calls

/-!
# Loading what a flash holds

`pages_load` on a flash that holds a shot: if the header of every page is sound and every record is
in use, with a check that is right, or given up as a whole, then nothing is written, the page
records say what the pages hold, and the namespaces are read off the records of namespace 0
(`pagesLoad_eq`).
-/

namespace Gd32.Nvds

open NorFlash LittleEndian List NvdsM Function

/-! ### What is loaded -/

/-- The record defines a namespace. -/
def Rec.defines (r : Rec) : Bool := r.live && decide (Entry.ns r.hdr = 0)

/-- The namespace that a record defines. -/
def Rec.nsInfo (r : Rec) : NamespaceInfo :=
  ⟨.ofField (Entry.field r.hdr 8 keyNameMaxSize), ((Entry.val r.hdr).getD 0 0).toNat, 0⟩

/-- The namespaces that some records define. -/
def defsOf (rs : List Rec) : List NamespaceInfo := (rs.filter Rec.defines).map Rec.nsInfo

/-- The index bits with the ones of some namespaces set. -/
def markNs (states : ℕ → Bool) (nss : List NamespaceInfo) : ℕ → Bool :=
  nss.foldl (fun s r => update s r.index true) states

theorem markNs_append (states : ℕ → Bool) (nss nss' : List NamespaceInfo) :
    markNs states (nss ++ nss') = markNs (markNs states nss) nss' := foldl_append

theorem defsOf_cons (r : Rec) (rs : List Rec) :
    defsOf (r :: rs) = (if r.defines then [r.nsInfo] else []) ++ defsOf rs := by
  rw [defsOf, filter_cons]
  split <;> rfl

/-- The record is in use and its check is right, or it has been given up as a whole. -/
def Rec.Loadable (r : Rec) : Prop :=
  (r.live = true ∧ Entry.crc r.hdr = elementHeaderCrc32Calc r.hdr) ∨ r = r.dead

/-- The page can be loaded without a change. -/
structure APage.Loadable (A : APage) : Prop where
  sound : A.Sound
  recs : ∀ r ∈ A.recs, r.Loadable

/-- The environment after the first walk has passed some records of page `k`. -/
def FlashEnv.withRecs (env : FlashEnv) (k next : ℕ) (rs : List Rec) : FlashEnv :=
  { env with
    nsList := env.nsList ++ defsOf rs
    nsStates := markNs env.nsStates (defsOf rs)
    pages := update env.pages k { env.pages k with
      entryCntUsed := (env.pages k).entryCntUsed + recsSize (rs.filter Rec.live)
      nextFreeIdx := if next < 126 then next else (env.pages k).nextFreeIdx } }

theorem FlashEnv.withRecs_nil (env : FlashEnv) (k : ℕ) : env.withRecs k 126 [] = env := by
  have hpage : update env.pages k { env.pages k with
      entryCntUsed := (env.pages k).entryCntUsed + recsSize (([] : List Rec).filter Rec.live)
      nextFreeIdx := if 126 < 126 then 126 else (env.pages k).nextFreeIdx } = env.pages :=
    update_eq_self k env.pages
  rw [withRecs, hpage]
  simp [defsOf, markNs]

theorem FlashEnv.withRecs_withRecs (env : FlashEnv) (k next : ℕ) (r : Rec) (rs : List Rec) :
    (env.withRecs k 126 [r]).withRecs k next rs = env.withRecs k next (r :: rs) := by
  have hdefs : defsOf [r] ++ defsOf rs = defsOf (r :: rs) := by
    rw [defsOf_cons, defsOf_cons, defsOf, filter_nil, map_nil, append_nil]
  have hsize : recsSize ([r].filter Rec.live) + recsSize (rs.filter Rec.live) =
      recsSize ((r :: rs).filter Rec.live) := by
    rw [← recsSize_append, ← filter_append, singleton_append]
  simp only [withRecs, update_self, update_idem, append_assoc, hdefs,
    ← markNs_append, add_assoc, hsize]
  simp

/-! ### The first walk -/

section Walk

variable {rom : NvdsRom} (hrom : rom.Reliable) {n k : ℕ} (hk : k < n) {P : SlotPage}

theorem FlashEnv.shows_withRecs {env : FlashEnv} (h : Shows env k P) (next : ℕ) (rs : List Rec) :
    Shows (env.withRecs k next rs) k P := by
  refine ⟨h.holds, ?_, ?_, ?_⟩
  · simp [withRecs, h.header]
  · simp [withRecs, h.table]
  · simp [withRecs, h.base]

/-- Slots that have been given up are passed one by one. -/
theorem loadWalk_skip {env : FlashEnv} {i j fuel : ℕ} (hij : i + j ≤ 126)
    (h : ∀ x, i ≤ x → x < i + j → stateAt (env.pages k).entryStates x = .updated) :
    loadWalk rom k (fuel + j) i env = loadWalk rom k fuel (i + j) env := by
  induction j generalizing i with
  | zero => rfl
  | succ j ih =>
    have hstate := h i le_rfl (by omega)
    have hrest := ih (i := i + 1) (by omega) fun x h1 h2 => h x (by omega) (by omega)
    rw [show fuel + (j + 1) = (fuel + j) + 1 by omega, loadWalk,
      if_neg (by simp only [entryCountPerPage]; omega), get_bind, hstate,
      show i + (j + 1) = i + 1 + j by omega]
    exact hrest

omit hrom hk in
/-- A header whose check is right. -/
theorem loadEntry_eq {env : FlashEnv} {r : Rec} (hlive : r.live = true)
    (hcrc : Entry.crc r.hdr = elementHeaderCrc32Calc r.hdr)
    (hcnt : r.data.length = Entry.dataCnt r.hdr)
    (hlt : (env.pages k).entryCntUsed + r.size < 2 ^ 16) (idx : ℕ) :
    loadEntry rom k idx r.hdr env =
      some (.ok (Entry.dataCnt r.hdr), env.withRecs k 126 [r]) := by
  have hattempt : NvdsM.attempt (if Entry.crc r.hdr ≠ elementHeaderCrc32Calc r.hdr then
      entryStateAlter rom k idx .updated else pure ()) env = some (.ok (.ok ()), env) := by
    rw [if_neg (by simpa using hcrc)]
    rfl
  rw [Rec.size, hcnt] at hlt
  rw [loadEntry, bind_ok hattempt, modify_bind, modify_bind]
  have hused : recsSize ([r].filter Rec.live) = 1 + Entry.dataCnt r.hdr := by
    rw [filter_cons_of_pos hlive, filter_nil, recsSize_cons, recsSize_nil, Rec.size, hcnt,
      add_zero]
  by_cases hns : Entry.ns r.hdr = 0
  · have hdef : defsOf [r] = [r.nsInfo] := by
      simp [defsOf, Rec.defines, hlive, hns]
    simp only [hns, if_pos, FlashEnv.withRecs, hdef, hused, FlashEnv.setPage, addUsed, nsStateSet,
      Nat.mod_eq_of_lt hlt]
    rfl
  · have hdef : defsOf [r] = [] := by
      simp [defsOf, Rec.defines, hns]
    simp only [hns, if_false, FlashEnv.withRecs, hdef, hused, FlashEnv.setPage, addUsed,
      Nat.mod_eq_of_lt hlt, append_nil]
    rfl

include hrom hk

/-- **The first walk over a page**, from the record behind `pre` on. -/
theorem loadWalk_eq {env : FlashEnv} (hgeo : Geometry env n) (hm : Shows env k P)
    {pre post : List Rec} (hlaid : Laid P (pre ++ post)) (hload : ∀ r ∈ post, r.Loadable)
    {fuel : ℕ} (hfuel : 126 - recsSize pre ≤ fuel)
    (hcnt : (env.pages k).entryCntUsed + recsSize post < 2 ^ 16) :
    loadWalk rom k fuel (recsSize pre) env =
      some (.ok (), env.withRecs k (recsSize (pre ++ post)) post) := by
  have hsize := hlaid.size
  induction post generalizing env pre fuel with
  | nil =>
    rw [append_nil] at hlaid hsize ⊢
    rcases lt_or_ge (recsSize pre) 126 with hin | hend
    · -- the walk ends at the first free slot
      obtain ⟨m, rfl⟩ : ∃ m, fuel = m + 1 := ⟨fuel - 1, by omega⟩
      have hfree := hlaid.free_of_ge le_rfl hin
      rw [loadWalk, if_neg (by simp only [entryCountPerPage]; omega), get_bind, hm.table,
        hfree]
      simp only [NvdsM.modify, FlashEnv.withRecs, FlashEnv.setPage, if_pos hin, defsOf, markNs,
        filter_nil, map_nil, append_nil, foldl_nil, recsSize_nil, add_zero]
    · have h126 : recsSize pre = 126 := by omega
      rw [h126, FlashEnv.withRecs_nil]
      cases fuel with
      | zero => rfl
      | succ m =>
        rfl
  | cons r post ih =>
    have hr : r.Wf := hlaid.wf r (by simp)
    have hlaid' : Laid P (pre ++ [r] ++ post) := by simpa using hlaid
    have hpre : recsSize (pre ++ [r]) = recsSize pre + r.size := by simp
    have hroom : recsSize pre + r.size ≤ 126 := by
      simp only [recsSize_append, recsSize_cons] at hsize
      omega
    have hin : recsSize pre < 126 := by
      have := r.size_pos
      omega
    rw [recsSize_cons] at hcnt
    have happ : pre ++ r :: post = pre ++ [r] ++ post := by simp
    rcases hload r (by simp) with ⟨hlive, hcrc⟩ | hdead
    · -- a record in use is counted and its data are passed
      obtain ⟨m, rfl⟩ : ∃ m, fuel = m + 1 := ⟨fuel - 1, by omega⟩
      have hread : entryRead rom env k (recsSize pre) = .ok r.hdr := by
        have h0 := hlaid.getD_slots r.size_pos
        rw [entryRead_slot hrom hgeo hk hm hin]
        simpa [Rec.slots] using h0
      have hstate : stateAt (env.pages k).entryStates (recsSize pre) = .used := by
        rw [hm.table, hlaid.stateAt_head hin, hlive]
        rfl
      have hnext : recsSize pre + 1 + Entry.dataCnt r.hdr = recsSize (pre ++ [r]) := by
        rw [hpre, Rec.size, hr.length_data, add_assoc]
      rw [loadWalk, if_neg (by simp only [entryCountPerPage]; omega), get_bind, hstate]
      simp only
      rw [bind_ok (look_ok hread),
        bind_ok (loadEntry_eq hlive hcrc hr.length_data (by omega) _), hnext]
      have hgeo' : Geometry (env.withRecs k 126 [r]) n := ⟨hgeo.length_eq, hgeo.on_device⟩
      rw [ih hgeo' (FlashEnv.shows_withRecs hm _ _) hlaid' (fun s hs => hload s (by simp [hs]))
        (by rw [hpre]; have := r.size_pos; omega) ?_ (by rw [← happ]; exact hsize),
        FlashEnv.withRecs_withRecs, happ]
      have hone : recsSize ([r].filter Rec.live) = r.size := by
        rw [filter_cons_of_pos hlive, filter_nil, recsSize_cons, recsSize_nil,
          add_zero]
      simp only [FlashEnv.withRecs, update_self, hone]
      omega
    · have hlive : r.live = false := by
        rw [hdead]
        exact Rec.live_dead r
      obtain ⟨m, rfl⟩ : ∃ m, fuel = m + r.size := ⟨fuel - r.size, by omega⟩
      rw [loadWalk_skip hroom, ← hpre, ih hgeo hm hlaid' (fun s hs => hload s (by simp [hs]))
        (by rw [hpre]; omega) (by omega) (by rw [← happ]; exact hsize), happ]
      · rw [FlashEnv.withRecs, FlashEnv.withRecs, defsOf_cons,
          filter_cons_of_neg (by simp [hlive])]
        simp [Rec.defines, hlive]
      · intro x h1 h2
        obtain ⟨j, rfl⟩ : ∃ j, x = recsSize pre + j := ⟨x - recsSize pre, by omega⟩
        rw [hm.table, hlaid.stateAt_rec (show j < r.size by omega) (by omega), hdead, Rec.dead,
          getD_replicate _ (by rw [← Rec.size_dead r, ← hdead]; omega)]

end Walk

/-! ### One sector -/

section Sector

variable {rom : NvdsRom} (hrom : rom.Reliable) {n k : ℕ} (hk : k < n) {env : FlashEnv}
  (hgeo : Geometry env n)
include hrom hk hgeo

theorem emptyBlocks_blank (h : Blank env.flash (env.addr k) 4096) {is : List ℕ}
    (his : ∀ i ∈ is, i < 8) : emptyBlocks rom env (4096 * k) is = pageUninitialized := by
  have hlen := hgeo.length_eq
  induction is with
  | nil => rfl
  | cons i is ih =>
    have hi := his i (by simp)
    have hread : read env.flash (env.baseAddr + (4096 * k + i * 512)) 512 =
        List.replicate 512 blank := by
      refine read_of_blank (h.mono ?_ ?_) <;> simp only [FlashEnv.addr] <;> omega
    rw [emptyBlocks, nvdsFlashRead_ok hrom (by omega), hread]
    simp only
    rw [if_pos (by rw [all_eq_true]; intro b hb; rw [eq_of_mem_replicate hb]; decide)]
    exact ih fun j hj => his j (by simp [hj])

/-- The header of a blank sector. -/
theorem pageHeaderRead_blank (h : Holds env.flash (env.addr k) .blank) :
    pageHeaderRead rom env (4096 * k) = .blank := by
  have hlen := hgeo.length_eq
  have hread : read env.flash (env.baseAddr + 4096 * k) entrySize = PageHeader.blank.encode :=
    h.header
  rw [pageHeaderRead, nvdsFlashRead_ok hrom (by simp only [entrySize]; omega), hread]
  simp only [PageHeader.decode_encode inRange_blank]
  rw [if_pos (show PageHeader.blank.state = pageUninitialized from rfl),
    emptyBlocks_blank hrom hk hgeo h.blank_sector fun i hi => by simpa using hi]
  rfl

/-- A sound header. -/
theorem pageHeaderRead_sound {P : SlotPage} {A : APage} (h : Holds env.flash (env.addr k) P)
    (hd : Draws P A) (hs : A.Sound) : pageHeaderRead rom env (4096 * k) = A.header := by
  have hlen := hgeo.length_eq
  obtain ⟨state, seq, hheader, hseq, hstate⟩ := hs
  have hread : read env.flash (env.baseAddr + 4096 * k) entrySize = A.header.encode := by
    rw [← hd.header]
    exact h.header
  have hrange : A.header.InRange := by
    rw [← hd.header]
    exact h.inRange
  have hstate' : A.header.state ≠ pageUninitialized := by
    rw [show A.header.state = state by rw [hheader]; rfl]
    rcases hstate with rfl | rfl | rfl <;> decide
  rw [pageHeaderRead, nvdsFlashRead_ok hrom (by simp only [entrySize]; omega), hread]
  simp only [PageHeader.decode_encode hrange]
  rw [if_neg hstate', if_neg (by rw [hheader, pageHeader_crc]; simp),
    if_neg (by rw [hheader]; exact not_not.mpr rfl)]

/-- **A blank sector** is free. -/
theorem loadSector_blank (h : Holds env.flash (env.addr k) .blank) :
    loadSector rom k false env = some (.ok false, { env with
      pages := update env.pages k (freshPage k .blank)
      pageFree := env.pageFree ++ [k] }) := by
  have hmul : k * spiFlashSecSize = 4096 * k := mul_comm _ _
  rw [loadSector, modify_bind, get_bind, hmul, pageHeaderRead_blank hrom hk hgeo h]
  have hunsound : headerUnsound ((env.setPage k (freshPage k .blank)).pages k).header = true := by
    simp [FlashEnv.setPage, freshPage, headerUnsound, PageHeader.blank]
  rw [if_pos hunsound]
  rfl

/-- **A page** is used, and goes to its place in the list. -/
theorem loadSector_page {P : SlotPage} {A : APage} (h : Holds env.flash (env.addr k) P)
    (hd : Draws P A) (hload : A.Loadable) :
    ∃ pages, pages = update env.pages k
        ⟨A.header, P.table, 4096 * k, A.usedCnt, recsSize A.recs⟩ ∧
      loadSector rom k false env = some (.ok false, { env with
        nsList := env.nsList ++ defsOf A.recs
        nsStates := markNs env.nsStates (defsOf A.recs)
        pages := pages
        pageUsed := listInsert (cmpSequenceNo pages) k env.pageUsed }) := by
  refine ⟨_, rfl, ?_⟩
  have hlen := hgeo.length_eq
  have hmul : k * spiFlashSecSize = 4096 * k := mul_comm _ _
  have hsize := hd.laid.size
  rw [loadSector, modify_bind, get_bind, hmul,
    pageHeaderRead_sound hrom hk hgeo h hd hload.sound]
  have hsound : headerUnsound ((env.setPage k (freshPage k A.header)).pages k).header = false := by
    obtain ⟨state, seq, hheader, -, hstate⟩ := hload.sound
    have hst : ((env.setPage k (freshPage k A.header)).pages k).header.state = state := by
      simp [FlashEnv.setPage, freshPage, hheader, pageHeader]
    rw [headerUnsound, hst]
    rcases hstate with rfl | rfl | rfl <;> decide
  have htable : entryStatesTableRead rom (env.setPage k (freshPage k A.header)) (4096 * k) =
      .ok P.table := by
    have hread : read env.flash (env.baseAddr + (4096 * k + pageEntryStatesOffset)) entrySize =
        tableBytes P.table := by
      exact h.table
    have hok := @nvdsFlashRead_ok rom hrom (env.setPage k (freshPage k A.header))
      (4096 * k + pageEntryStatesOffset) entrySize
      (by simp only [FlashEnv.setPage, pageEntryStatesOffset, entrySize]; omega)
    rw [entryStatesTableRead, hok]
    change Except.ok (tableWords (read env.flash (env.baseAddr +
      (4096 * k + pageEntryStatesOffset)) entrySize)) = _
    rw [hread, tableWords_tableBytes h.length_table]
  rw [hsound, htable]
  simp only [Bool.false_eq_true, if_false]
  rw [loadUsed, modify_bind]
  -- the page record when the walk starts
  generalize henv₁ : (env.setPage k (freshPage k A.header)).setPage k
    { (env.setPage k (freshPage k A.header)).pages k with
      entryStates := P.table
      nextFreeIdx := entryCountPerPage
      entryCntUsed := 0 } = env₁
  have hpage : env₁.pages k = ⟨A.header, P.table, 4096 * k, 0, 126⟩ := by
    rw [← henv₁]
    simp only [FlashEnv.setPage, update_self, freshPage, hmul]
    rfl
  have hpages : env₁.pages = update env.pages k ⟨A.header, P.table, 4096 * k, 0, 126⟩ := by
    rw [← hpage, ← henv₁]
    simp [FlashEnv.setPage]
  have hgeo₁ : Geometry env₁ n := by
    rw [← henv₁]
    exact ⟨hgeo.length_eq, hgeo.on_device⟩
  have hshows : Shows env₁ k P := by
    refine ⟨?_, by rw [hpage, hd.header], by rw [hpage], by rw [hpage]⟩
    rw [← henv₁]
    exact h
  have hwalk : loadWalk rom k entryCountPerPage 0 env₁ =
      some (.ok (), env₁.withRecs k (recsSize A.recs) A.recs) :=
    loadWalk_eq hrom hk hgeo₁ hshows (show Laid P ([] ++ A.recs) from hd.laid) hload.recs
      (by simp [entryCountPerPage]) (by rw [hpage]; simp only; omega)
  have hresult : (env₁.withRecs k (recsSize A.recs) A.recs).pages = update env.pages k
      ⟨A.header, P.table, 4096 * k, A.usedCnt, recsSize A.recs⟩ := by
    have hnext : (if recsSize A.recs < 126 then recsSize A.recs else 126) = recsSize A.recs := by
      split <;> omega
    simp only [FlashEnv.withRecs, hpage, hpages, update_idem, hnext, zero_add]
    rfl
  rw [bind_ok (attempt_eq hwalk), if_neg (by simp [Except.isOk, Except.toBool]),
    modify_bind]
  simp only [hresult, pure_run]
  rw [← henv₁]
  rfl

end Sector

/-! ### All sectors -/

/-- The sequence number of a page. -/
def seqOf (T : Shot) (k : ℕ) : ℕ :=
  match T k with
  | none => 0
  | some A => A.header.seqno

/-- The order in which the used pages are listed: the top bit is left out. -/
def seqBefore (T : Shot) (a b : ℕ) : Bool := decide (seqOf T a % 2 ^ 31 < seqOf T b % 2 ^ 31)

/-- The list of the used pages among the first `m` sectors. -/
def usedOf (T : Shot) (m : ℕ) : List ℕ :=
  ((List.range m).filter fun k => (T k).isSome).foldl (fun l k => listInsert (seqBefore T) k l) []

/-- The list of the blank sectors among the first `m`. -/
def freeOf (T : Shot) (m : ℕ) : List ℕ := (List.range m).filter fun k => (T k).isNone

/-- The namespaces that a page defines. -/
def pageDefs : Option APage → List NamespaceInfo
  | none => []
  | some A => defsOf A.recs

/-- The namespaces that the first `m` sectors define. -/
def nssOf (T : Shot) (m : ℕ) : List NamespaceInfo := (List.range m).flatMap fun k => pageDefs (T k)

/-- The records in use are counted for their namespaces. -/
def countRecs (rs : List Rec) (nss : List NamespaceInfo) : List NamespaceInfo :=
  (rs.filter Rec.live).foldl (fun l r => changeNs (Entry.ns r.hdr) (NamespaceInfo.add 1) l) nss

/-- The records of a sector. -/
def recsAt (T : Shot) (k : ℕ) : List Rec :=
  match T k with
  | none => []
  | some A => A.recs

/-- The namespaces with their counts. -/
def countOf (T : Shot) (n : ℕ) : List NamespaceInfo :=
  (usedOf T n).foldl (fun l k => countRecs (recsAt T k) l) (nssOf T n)

/-- The environment after the first `m` sectors have been loaded. -/
structure Loaded (T : Shot) (m : ℕ) (env₀ env : FlashEnv) : Prop where
  base_eq : env.baseAddr = env₀.baseAddr
  length_eq : env.length = env₀.length
  dev_eq : env.dev = env₀.dev
  used_eq : env.pageUsed = usedOf T m
  free_eq : env.pageFree = freeOf T m
  page : ∀ k < m, ∀ A, T k = some A → ∃ P, Holds env.flash (env.addr k) P ∧ Draws P A ∧
    env.pages k = ⟨A.header, P.table, 4096 * k, A.usedCnt, recsSize A.recs⟩
  blank : ∀ k < m, T k = none → env.pages k = freshPage k .blank

theorem listInsert_congr {cmp cmp' : ℕ → ℕ → Bool} {x : ℕ} {l : List ℕ}
    (h : ∀ y ∈ l, cmp x y = cmp' x y) : listInsert cmp x l = listInsert cmp' x l := by
  induction l with
  | nil => rfl
  | cons y l ih =>
    rw [listInsert, listInsert, h y (by simp), ih fun z hz => h z (by simp [hz])]

theorem mem_listInsert {cmp : ℕ → ℕ → Bool} {x y : ℕ} {l : List ℕ} :
    y ∈ listInsert cmp x l ↔ y = x ∨ y ∈ l := by
  induction l with
  | nil => simp [listInsert]
  | cons z l ih =>
    rw [listInsert]
    split
    · simp
    · rw [mem_cons, ih, mem_cons]
      tauto

theorem usedOf_succ (T : Shot) (m : ℕ) :
    usedOf T (m + 1) = if (T m).isSome then listInsert (seqBefore T) m (usedOf T m)
      else usedOf T m := by
  rw [usedOf, range_succ, filter_append, foldl_append, ← usedOf]
  split
  · next h => rw [filter_cons_of_pos (by simpa using h)]; rfl
  · next h => rw [filter_cons_of_neg (by simpa using h)]; rfl

theorem mem_usedOf (T : Shot) (m : ℕ) {k : ℕ} : k ∈ usedOf T m ↔ k < m ∧ (T k).isSome := by
  induction m with
  | zero => simp [usedOf]
  | succ m ih =>
    rw [usedOf_succ]
    split
    · next h =>
      rw [mem_listInsert, ih]
      constructor
      · rintro (rfl | ⟨h1, h2⟩)
        · exact ⟨by omega, h⟩
        · exact ⟨by omega, h2⟩
      · rintro ⟨h1, h2⟩
        by_cases hk : k = m
        · exact Or.inl hk
        · exact Or.inr ⟨by omega, h2⟩
    · next h =>
      rw [ih]
      constructor
      · rintro ⟨h1, h2⟩
        exact ⟨by omega, h2⟩
      · rintro ⟨h1, h2⟩
        refine ⟨?_, h2⟩
        by_contra hlt
        obtain rfl : k = m := by omega
        exact h h2

section Load

variable {rom : NvdsRom} (hrom : rom.Reliable) {n : ℕ} {T : Shot}

theorem freeOf_succ (T : Shot) (m : ℕ) :
    freeOf T (m + 1) = freeOf T m ++ if (T m).isNone then [m] else [] := by
  rw [freeOf, range_succ, filter_append, ← freeOf, filter_singleton]
  cases (T m).isNone <;> rfl

theorem nssOf_succ (T : Shot) (m : ℕ) : nssOf T (m + 1) = nssOf T m ++ pageDefs (T m) := by
  rw [nssOf, range_succ, flatMap_append, ← nssOf, flatMap_singleton]

/-- The page records behind the last sector loaded do not matter. -/
theorem Loaded.next {m : ℕ} {env₀ env : FlashEnv} (h : Loaded T m env₀ env)
    (nss : List NamespaceInfo) (states : ℕ → Bool) (p : PageEnv) (used free : List ℕ)
    (hused : used = usedOf T (m + 1)) (hfree : free = freeOf T (m + 1))
    (hpage : ∀ A, T m = some A → ∃ P, Holds env.flash (env.addr m) P ∧ Draws P A ∧
      p = ⟨A.header, P.table, 4096 * m, A.usedCnt, recsSize A.recs⟩)
    (hblank : T m = none → p = freshPage m .blank) :
    Loaded T (m + 1) env₀ { env with
      nsList := nss
      nsStates := states
      pages := update env.pages m p
      pageUsed := used
      pageFree := free } := by
  refine ⟨h.base_eq, h.length_eq, h.dev_eq, hused, hfree, ?_, ?_⟩
  · intro k hk A hA
    by_cases hkm : k = m
    · subst hkm
      obtain ⟨P, hP, hd, rfl⟩ := hpage A hA
      exact ⟨P, hP, hd, update_self _ _ _⟩
    · obtain ⟨P, hP, hd, hp⟩ := h.page k (by omega) A hA
      exact ⟨P, hP, hd, by simp only [update_of_ne hkm, hp]⟩
  · intro k hk hnone
    by_cases hkm : k = m
    · subst hkm
      rw [← hblank hnone]
      exact update_self _ _ _
    · simp only [update_of_ne hkm]
      exact h.blank k (by omega) hnone

include hrom

omit hrom in
theorem loadSectors_append {ks ks' : List ℕ} {isErr isErr' : Bool} {env env' : FlashEnv}
    (h : loadSectors rom ks isErr env = some (.ok isErr', env')) :
    loadSectors rom (ks ++ ks') isErr env = loadSectors rom ks' isErr' env' := by
  induction ks generalizing isErr env with
  | nil =>
    obtain ⟨hok, rfl⟩ := Prod.mk.inj (Option.some.inj h)
    obtain rfl := Except.ok.inj hok
    rfl
  | cons k ks ih =>
    rcases hk : loadSector rom k isErr env with _ | ⟨e | b, env1⟩
    · rw [loadSectors] at h
      change NvdsM.andThen _ _ env = _ at h
      rw [NvdsM.andThen, hk] at h
      cases h
    · rw [loadSectors, bind_error hk] at h
      cases h
    · rw [loadSectors, bind_ok hk] at h
      rw [cons_append, loadSectors, bind_ok hk, ih h]

/-- **The loop over the sectors.** -/
theorem loadSectors_eq {env₀ : FlashEnv} (hgeo : Geometry env₀ n)
    (hT : Depicts n env₀.baseAddr env₀.flash T)
    (hload : ∀ k < n, ∀ A, T k = some A → A.Loadable) (hused : env₀.pageUsed = [])
    (hfree : env₀.pageFree = []) (hnss : env₀.nsList = []) (hstates : env₀.nsStates = fun _ => false)
    {m : ℕ} (hm : m ≤ n) :
    ∃ env, loadSectors rom (List.range m) false env₀ = some (.ok false, env) ∧
      Loaded T m env₀ env ∧ env.nsList = nssOf T m ∧
      env.nsStates = markNs (fun _ => false) (nssOf T m) := by
  induction m with
  | zero =>
    exact ⟨env₀, rfl, ⟨rfl, rfl, rfl, hused, hfree, fun k hk => absurd hk (by omega),
      fun k hk => absurd hk (by omega)⟩, hnss, hstates⟩
  | succ m ih =>
    obtain ⟨env, hrun, hloaded, hlist, hbits⟩ := ih (by omega)
    have hgeo' : Geometry env n := by
      refine ⟨hloaded.length_eq.trans hgeo.length_eq, ?_⟩
      rw [hloaded.base_eq, hloaded.length_eq]
      exact hgeo.on_device
    have hflash : env.flash = env₀.flash := by rw [FlashEnv.flash, hloaded.dev_eq, FlashEnv.flash]
    obtain ⟨P, hP, hpic⟩ := hT m (by omega)
    have hP' : Holds env.flash (env.addr m) P := by
      rw [hflash, FlashEnv.addr, hloaded.base_eq]
      exact hP
    rw [range_succ, loadSectors_append hrun]
    rcases hTm : T m with _ | A
    · rw [hTm] at hpic
      obtain rfl : P = .blank := hpic
      refine ⟨_, ?_, hloaded.next env.nsList env.nsStates (freshPage m .blank) env.pageUsed
        (env.pageFree ++ [m]) ?_ ?_ ?_ ?_, ?_, ?_⟩
      · rw [loadSectors, bind_ok (loadSector_blank hrom (by omega) hgeo' hP')]
        rfl
      · rw [usedOf_succ, hTm, hloaded.used_eq]
        rfl
      · rw [freeOf_succ, hTm, hloaded.free_eq]
        rfl
      · intro A hA
        rw [hTm] at hA
        exact absurd hA (by simp)
      · exact fun _ => rfl
      · rw [nssOf_succ, hTm, pageDefs, append_nil]
        exact hlist
      · rw [nssOf_succ, hTm, pageDefs, append_nil]
        exact hbits
    · rw [hTm] at hpic
      obtain ⟨pages, hpages, hsector⟩ := loadSector_page hrom (by omega) hgeo' hP' hpic
        (hload m (by omega) A hTm)
      subst hpages
      refine ⟨_, ?_, hloaded.next (env.nsList ++ defsOf A.recs)
        (markNs env.nsStates (defsOf A.recs))
        ⟨A.header, P.table, 4096 * m, A.usedCnt, recsSize A.recs⟩
        (listInsert (cmpSequenceNo (update env.pages m
          ⟨A.header, P.table, 4096 * m, A.usedCnt, recsSize A.recs⟩)) m env.pageUsed)
        env.pageFree ?_ ?_ ?_ ?_, ?_, ?_⟩
      · rw [loadSectors, bind_ok hsector]
        rfl
      · rw [usedOf_succ, hTm, hloaded.used_eq, if_pos (by rfl)]
        refine listInsert_congr fun y hy => ?_
        obtain ⟨hym, hys⟩ := (mem_usedOf T m).mp hy
        obtain ⟨B, hB⟩ := Option.isSome_iff_exists.mp hys
        obtain ⟨Q, -, -, hQ⟩ := hloaded.page y hym B hB
        rw [cmpSequenceNo, seqBefore, seqOf, seqOf, hTm, hB, update_self,
          update_of_ne (by omega), hQ]
      · rw [freeOf_succ, hTm, hloaded.free_eq]
        simp
      · intro A' hA'
        rw [hTm] at hA'
        obtain rfl := Option.some.inj hA'
        exact ⟨P, hP', hpic, rfl⟩
      · intro hnone
        rw [hTm] at hnone
        exact absurd hnone (by simp)
      · rw [nssOf_succ, hTm, pageDefs, hlist]
      · rw [nssOf_succ, hTm, pageDefs, markNs_append, hbits]

/-! ### The second walk -/

section Count

variable {k : ℕ} (hk : k < n) {env : FlashEnv} (hgeo : Geometry env n) {P : SlotPage}
  (hm : Shows env k P)
include hk hgeo hm

/-- Behind the last record nothing is in use, whatever the slots hold. -/
theorem countWalk_tail {rs : List Rec} (hlaid : Laid P rs) {fuel idx : ℕ} (hidx : recsSize rs ≤ idx)
    (nss : List NamespaceInfo) : countWalk rom env k fuel idx nss = nss := by
  induction fuel generalizing idx with
  | zero => rfl
  | succ fuel ih =>
    rw [countWalk]
    split
    · rfl
    · next hin =>
      simp only [entryCountPerPage] at hin
      rw [entryRead_slot hrom hgeo hk hm (by omega)]
      simp only
      rw [hm.table, hlaid.free_of_ge hidx (by omega), if_neg (by simp)]
      exact ih (by omega)

/-- **The second walk over a page** counts its records in use. -/
theorem countWalk_eq {pre post : List Rec} (hlaid : Laid P (pre ++ post)) {fuel : ℕ}
    (hfuel : post.length ≤ fuel) (nss : List NamespaceInfo) :
    countWalk rom env k fuel (recsSize pre) nss = countRecs post nss := by
  induction post generalizing pre fuel nss with
  | nil => exact countWalk_tail hrom hk hgeo hm hlaid (by simp) nss
  | cons r post ih =>
    obtain ⟨m, rfl⟩ : ∃ m, fuel = m + 1 := ⟨fuel - 1, by simp at hfuel; omega⟩
    have hr : r.Wf := hlaid.wf r (by simp)
    have hsize : recsSize pre + r.size + recsSize post ≤ 126 := by
      simpa [add_assoc] using hlaid.size
    have hin : recsSize pre < 126 := by
      have := r.size_pos
      omega
    have hread : entryRead rom env k (recsSize pre) = .ok r.hdr := by
      have h0 := hlaid.getD_slots r.size_pos
      rw [entryRead_slot hrom hgeo hk hm hin]
      simpa [Rec.slots] using h0
    have hnext : recsSize pre + 1 + Entry.dataCnt r.hdr = recsSize (pre ++ [r]) := by
      rw [← hr.length_data, recsSize_append, recsSize_cons, recsSize_nil, Rec.size]
      omega
    have hrest := fun nss => ih (show Laid P (pre ++ [r] ++ post) by simpa using hlaid)
      (show post.length ≤ m by simpa using hfuel) nss
    rw [countWalk, if_neg (by simp only [entryCountPerPage]; omega), hread]
    simp only
    rw [hnext, hrest, hm.table, hlaid.stateAt_head hin]
    cases hlive : r.live with
    | true =>
      rw [countRecs, countRecs, filter_cons_of_pos hlive, foldl_cons]
      rfl
    | false =>
      rw [countRecs, countRecs, filter_cons_of_neg (by simp [hlive])]
      rfl

end Count

/-! ### `pages_load` -/

/-- **What `pages_load` makes of a flash that can be loaded**: the lists, the page records and the
namespaces, with nothing written. -/
structure Reloaded (n : ℕ) (T : Shot) (env : FlashEnv) : Prop where
  geo : Geometry env n
  used_eq : env.pageUsed = usedOf T n
  free_eq : env.pageFree = freeOf T n
  list_eq : env.nsList = countOf T n
  states_eq : env.nsStates = markNs (fun _ => false) (nssOf T n)
  page : ∀ k < n, ∀ A, T k = some A → ∃ P, Holds env.flash (env.addr k) P ∧ Draws P A ∧
    env.pages k = ⟨A.header, P.table, 4096 * k, A.usedCnt, recsSize A.recs⟩
  blank : ∀ k < n, T k = none → env.pages k = freshPage k .blank

theorem pagesLoad_loaded {b : ℕ} {dev : Dev} (hdev : b + 4096 * n ≤ flashTotalSize)
    (hT : Depicts n b dev.flash T) (hload : ∀ k < n, ∀ A, T k = some A → A.Loadable) :
    ∃ env, Reloaded n T env ∧ env.baseAddr = b ∧ env.dev = dev ∧
      pagesLoad rom (freshEnv b (4096 * n) dev) = (do
        let env ← NvdsM.get
        if env.pageUsed = [] then do
          let _ ← newPageRequest rom 0
          pure ()
        else pure () : NvdsM Unit) env := by
  have hgeo : Geometry (freshEnv b (4096 * n) dev) n := ⟨rfl, hdev⟩
  obtain ⟨env, hrun, hl, hlist, hbits⟩ := loadSectors_eq hrom hgeo hT hload rfl rfl rfl rfl le_rfl
  have hgeo' : Geometry env n := by
    refine ⟨hl.length_eq.trans hgeo.length_eq, ?_⟩
    rw [hl.base_eq, hl.length_eq]
    exact hgeo.on_device
  have hcount : countAll rom env = countOf T n := by
    have hwalks : ∀ (ks : List ℕ) (nss : List NamespaceInfo), (∀ k ∈ ks, k ∈ usedOf T n) →
        ks.foldl (fun nss k => countWalk rom env k entryCountPerPage 0 nss) nss =
          ks.foldl (fun l k => countRecs (recsAt T k) l) nss := by
      intro ks
      induction ks with
      | nil => exact fun _ _ => rfl
      | cons k ks ih =>
        intro nss hks
        obtain ⟨hkn, hks'⟩ := (mem_usedOf T n).mp (hks k (by simp))
        obtain ⟨A, hA⟩ := Option.isSome_iff_exists.mp hks'
        obtain ⟨P, hP, hd, hp⟩ := hl.page k hkn A hA
        have hshows : Shows env k P := ⟨hP, by rw [hp, hd.header], by rw [hp], by rw [hp]⟩
        have hlen := length_le_recsSize A.recs
        have hsize := hd.laid.size
        have hwalk := countWalk_eq hrom hkn hgeo' hshows
          (show Laid P ([] ++ A.recs) from hd.laid)
          (show A.recs.length ≤ entryCountPerPage by simp only [entryCountPerPage]; omega) nss
        rw [recsSize_nil] at hwalk
        rw [foldl_cons, foldl_cons, hwalk, recsAt, hA]
        exact ih _ fun j hj => hks j (by simp [hj])
    rw [countAll, hl.used_eq, hlist]
    exact hwalks _ _ fun _ h => h
  refine ⟨{ env with nsList := countAll rom env }, ?_, hl.base_eq, hl.dev_eq, ?_⟩
  · exact ⟨⟨hgeo'.length_eq, hgeo'.on_device⟩, hl.used_eq, hl.free_eq, hcount, hbits, hl.page,
      hl.blank⟩
  · have hmod : decide ((freshEnv b (4096 * n) dev).length % spiFlashSecSize = 0) = true := by
      simp [freshEnv, spiFlashSecSize]
    have hdiv : (freshEnv b (4096 * n) dev).length / spiFlashSecSize = n := by
      simp [freshEnv, spiFlashSecSize]
    rw [pagesLoad, get_bind, check_bind hmod, hdiv, bind_ok hrun]
    rfl

/-- **`pages_load` on a flash that holds pages.** -/
theorem pagesLoad_eq {b : ℕ} {dev : Dev} (hdev : b + 4096 * n ≤ flashTotalSize)
    (hT : Depicts n b dev.flash T) (hload : ∀ k < n, ∀ A, T k = some A → A.Loadable)
    (hne : ∃ k < n, T k ≠ none) :
    ∃ env, nvdsFlashEnvInit rom b (4096 * n) dev = some (.ok (), env) ∧ Reloaded n T env ∧
      env.baseAddr = b ∧ env.dev = dev := by
  obtain ⟨env, hre, hbase, hd, hrun⟩ := pagesLoad_loaded hrom hdev hT hload
  refine ⟨env, ?_, hre, hbase, hd⟩
  obtain ⟨k, hk, hTk⟩ := hne
  have hused : env.pageUsed ≠ [] := by
    rw [hre.used_eq]
    exact ne_nil_of_mem ((mem_usedOf T n).mpr ⟨hk, Option.isSome_iff_ne_none.mpr hTk⟩)
  rw [nvdsFlashEnvInit, hrun, get_bind, if_neg hused]
  rfl

end Load

end Gd32.Nvds
