import Gd32Firmware.Nvds.FragNumbers
import Gd32Firmware.Nvds.FailedPut

/-!
# A crowded storage

On a partition of more than 32 sectors the number of a fragment need not fit the tag. The storage is
filled with values that take a slot each (`Nvds.Plain`), up to the last two slots of the last
page but the spare one; then two of them are deleted on every page (`Nvds.Plain.delete_all`).
Now a large value is put. Its first fragment takes the two slots that have never been written, and
for every other one a page has to be given up: its records in use are moved, and two slots are left
behind them. A page that has been filled up in this way has no slot to spare any more, so the
fragments go round all pages (`Nvds.Worn`), and there is one for each, in addition to the first
one.

So the headers of all puts are right exactly if the partition has at most 32 sectors
(`Nvds.headersRight_iff`).
-/

namespace Gd32

open List Multiset Multiset Option

variable {i j u : ℕ} {env : FlashEnv}

namespace Nvds

open NorFlash LittleEndian

/-! ### Values of one slot -/

/-- A key for a number. -/
def numKey (i : ℕ) : CString where
  bytes := [UInt8.ofNat (i % 255 + 1), UInt8.ofNat (i / 255 % 255 + 1),
    UInt8.ofNat (i / 65025 % 255 + 1)]
  bytes_ne_zero := by
    have hne : ∀ m : ℕ, (0 : UInt8) ≠ UInt8.ofNat (m % 255 + 1) := by
      intro m h
      have hnat := congrArg UInt8.toNat h
      rw [UInt8.toNat_ofNat'] at hnat
      simp only [UInt8.toNat_zero] at hnat
      omega
    simp only [List.mem_cons, List.not_mem_nil, or_false, not_or]
    exact ⟨hne _, hne _, hne _⟩

theorem len_numKey (i : ℕ) : (numKey i).len < keyNameMaxSize := by
  show 3 < 16
  decide

/-- There are more than sixteen million keys. -/
theorem numKey_inj (hi : i < 255 ^ 3) (hj : j < 255 ^ 3) (h : numKey i = numKey j) :
    i = j := by
  have hdigit : ∀ {a b : ℕ}, UInt8.ofNat (a % 255 + 1) = UInt8.ofNat (b % 255 + 1) →
      a % 255 = b % 255 := by
    intro a b hab
    have hnat := congrArg UInt8.toNat hab
    rw [UInt8.toNat_ofNat', UInt8.toNat_ofNat'] at hnat
    omega
  have hbytes := congrArg CString.bytes h
  simp only [numKey, List.cons.injEq, and_true] at hbytes
  have h0 := hdigit hbytes.1
  have h1 := hdigit hbytes.2.1
  have h2 := hdigit hbytes.2.2
  omega

/-- The record of a value of one byte, of the namespace without a name. -/
def numBody (i : ℕ) : Body := (smallEntry namespaceNullIdx (numKey i) [0x2A], [])

theorem inFields_numBody (i : ℕ) :
    InFields namespaceNullIdx .small tagFragNoDefault 1 (numKey i) (smallVal [0x2A]) :=
  inFields_small (v := [0x2A]) (by decide) (len_numKey i) (by decide)

theorem hit_numBody (hi : i < 255 ^ 3) (hj : j < 255 ^ 3) :
    elementHit namespaceNullIdx (numKey j) .any (numBody i).1 = true ↔ i = j := by
  refine ((inFields_numBody i).hit_iff namespaceNullIdx (numKey j) .any).trans ?_
  constructor
  · rintro ⟨-, hkey, -⟩
    exact (numKey_inj hj hi hkey).symm
  · rintro rfl
    exact ⟨rfl, rfl, Or.inl rfl⟩

/-- A store with nothing but such values in it, whose numbers are below `m`. -/
structure Plain (n m : ℕ) (S : Store) : Prop where
  neat : Neat n False none S
  kept : Kept (liveOf n S.shot)
  plain : ∀ b ∈ liveOf n S.shot, ∃ i < m, b = numBody i

section Plain

variable {n m : ℕ} {S : Store}

/-- The next key is a new one. -/
theorem Plain.tidy_new (h : Plain n m S) (hm : m < 255 ^ 3) :
    Tidy n namespaceNullIdx (numKey m) (liveOf n S.shot) False False 0 S := by
  have hnone : recsOf (liveOf n S.shot) namespaceNullIdx (numKey m) = 0 := by
    refine eq_zero_of_forall_notMem fun b hb => ?_
    obtain ⟨i, hi, rfl⟩ := h.plain b (mem_of_mem_filter hb)
    have := (hit_numBody (by omega) hm).mp (hit_of_mem_recsOf hb)
    omega
  have hrest := restOf_add_recsOf (liveOf n S.shot) namespaceNullIdx (numKey m)
  have htidy : Tidy n namespaceNullIdx (numKey m) _ _ _ _ S := h.neat.tidy h.kept (Or.inl rfl)
  rw [hnone, add_zero] at hrest
  rw [hnone, hrest] at htidy
  exact htidy.untorn

/-- A key that is in use has one record. -/
theorem Plain.tidy_old (h : Plain n m S) (hm : m ≤ 255 ^ 3) (hi : i < m)
    (hmem : numBody i ∈ liveOf n S.shot) :
    Tidy n namespaceNullIdx (numKey i) (restOf (liveOf n S.shot) namespaceNullIdx (numKey i)) False
      False {numBody i} S := by
  have hone : recsOf (liveOf n S.shot) namespaceNullIdx (numKey i) = {numBody i} := by
    refine (Multiset.Nodup.ext (h.kept.nodup.filter _) (nodup_singleton _)).mpr fun b => ?_
    rw [Multiset.mem_filter, Multiset.mem_singleton]
    constructor
    · rintro ⟨hb, hhit⟩
      obtain ⟨j, hj, rfl⟩ := h.plain b hb
      rw [(hit_numBody (by omega) (by omega)).mp hhit]
    · rintro rfl
      exact ⟨hmem, (hit_numBody (by omega) (by omega)).mpr rfl⟩
  have htidy : Tidy n namespaceNullIdx (numKey i) _ _ _ _ S := h.neat.tidy h.kept (Or.inl rfl)
  rw [hone] at htidy
  refine ⟨htidy.sound, htidy.wf, htidy.size, htidy.ne, htidy.nodup_pages, htidy.mem_iff, htidy.spare,
    htidy.live, htidy.nodup, htidy.others, htidy.hits, fun hfree k hk => ?_⟩
  refine ⟨(htidy.calm hfree k hk).1, fun r hr => ?_⟩
  rcases (htidy.calm hfree k hk).2 r hr with hr | ⟨habs, -⟩
  · exact Or.inl hr
  · exact absurd habs (by simp)

/-- A store in which the records of one key have been replaced. -/
theorem Plain.replaced (h : Plain n m S) {B : Multiset Body} {S' : Store}
    (htidy : Tidy n namespaceNullIdx (numKey i)
      (restOf (liveOf n S.shot) namespaceNullIdx (numKey i)) False False B S')
    (hB : Stored namespaceNullIdx (numKey i) B) (hnum : ∀ b ∈ B, b = numBody i) {m' : ℕ}
    (hm : m ≤ m') (hi : i < m') : Plain n m' S' := by
  have hend : Tidy n namespaceNullIdx (numKey i) _ False
      ((none : Option (ℕ × CString)) = some (namespaceNullIdx, numKey i)) B S' := htidy.torn_of_false
  refine ⟨hend.neat, ?_, ?_⟩
  · rw [htidy.live]
    exact h.kept.replaced htidy.hits (by decide) (len_numKey i) htidy.nodup hB
  · rw [htidy.live]
    intro b hb
    rcases mem_add.mp hb with hb | hb
    · obtain ⟨j, hj, rfl⟩ := h.plain b (mem_of_mem_filter hb)
      exact ⟨j, by omega, rfl⟩
    · exact ⟨i, hi, hnum b hb⟩

end Plain

/-! ### Runs over stores -/

/-- Calls lead from environments of the one store to environments of the other, as long as no
namespace is defined. -/
def Reaches (rom : NvdsRom) (n : ℕ) (S S' : Store) : Prop :=
  ∀ env, Rep n env S → env.nsList = [] → ∃ es env', runNsEvents rom es env = some env' ∧
    Rep n env' S' ∧ env'.nsList = []

/-- A put or a delete. -/
def Event.IsUpdate : Event → Prop
  | .call (.put _ _ _) => True
  | .call (.del _ _) => True
  | _ => False

/-- The same by puts and deletes alone. -/
def Updates (rom : NvdsRom) (n : ℕ) (S S' : Store) : Prop :=
  ∀ env, Rep n env S → env.nsList = [] → ∃ es hist env', (∀ e ∈ es, Event.IsUpdate e) ∧
    runEvents rom es env = some (hist, env') ∧ Rep n env' S' ∧ env'.nsList = []

section Reach

variable {rom : NvdsRom} {n : ℕ} {S S' S'' : Store}

theorem Reaches.refl (S : Store) : Reaches rom n S S :=
  fun env hrep hlist => ⟨[], env, rfl, hrep, hlist⟩

theorem runNsEvents_append (es es' : List NsEvent) (env : FlashEnv) :
    runNsEvents rom (es ++ es') env = (runNsEvents rom es env).bind (runNsEvents rom es') := by
  induction es generalizing env with
  | nil => rfl
  | cons e es ih =>
    rw [List.cons_append, runNsEvents, runNsEvents, Option.bind_assoc]
    exact congrArg _ (funext ih)

theorem Reaches.trans (h : Reaches rom n S S') (h' : Reaches rom n S' S'') :
    Reaches rom n S S'' := by
  intro env hrep hlist
  obtain ⟨es, env₁, hrun, hrep₁, hlist₁⟩ := h env hrep hlist
  obtain ⟨es', env₂, hrun', h₂⟩ := h' env₁ hrep₁ hlist₁
  refine ⟨es ++ es', env₂, ?_, h₂⟩
  rw [runNsEvents_append, hrun]
  exact hrun'

theorem nsIndexByNamespace_null (create : Bool) (env : FlashEnv) :
    nsIndexByNamespace rom none create env = some (.ok namespaceNullIdx, env) := rfl

theorem Updates.refl (S : Store) : Updates rom n S S :=
  fun env hrep hlist => ⟨[], [], env, by simp, rfl, hrep, hlist⟩

theorem runEvents_append {es es' : List Event} {hist hist' : List (Event × Ret)}
    {env₁ env₂ : FlashEnv} (h : runEvents rom es env = some (hist, env₁))
    (h' : runEvents rom es' env₁ = some (hist', env₂)) :
    runEvents rom (es ++ es') env = some (hist ++ hist', env₂) := by
  induction es generalizing env hist with
  | nil =>
    obtain ⟨rfl, rfl⟩ := Prod.mk.inj (Option.some.inj h)
    exact h'
  | cons e es ih =>
    rw [List.cons_append, runEvents]
    rw [runEvents] at h
    rcases hstep : e.run rom env with _ | ⟨ret, env'⟩
    · rw [hstep] at h
      exact absurd h (by simp)
    · rw [hstep] at h
      obtain ⟨⟨hist₁, env''⟩, hrest, heq⟩ := map_eq_some_iff.mp h
      obtain ⟨rfl, rfl⟩ := Prod.mk.inj heq
      simp only [ih hrest, map_some, List.cons_append]

theorem Updates.trans (h : Updates rom n S S') (h' : Updates rom n S' S'') :
    Updates rom n S S'' := by
  intro env hrep hlist
  obtain ⟨es, hist, env₁, hes, hrun, hrep₁, hlist₁⟩ := h env hrep hlist
  obtain ⟨es', hist', env₂, hes', hrun', h₂⟩ := h' env₁ hrep₁ hlist₁
  refine ⟨es ++ es', hist ++ hist', env₂, fun e he => ?_, runEvents_append hrun hrun', h₂⟩
  rcases mem_append.mp he with he | he
  · exact hes e he
  · exact hes' e he

theorem Updates.reaches (h : Updates rom n S S') : Reaches rom n S S' := by
  have hmap : ∀ (es : List Event) (hist : List (Event × Ret)) (env env' : FlashEnv),
      runEvents rom es env = some (hist, env') →
        runNsEvents rom (es.map NsEvent.event) env = some env' := by
    intro es
    induction es with
    | nil =>
      intro hist env env' hrun
      rw [← (Prod.mk.inj (Option.some.inj hrun)).2]
      rfl
    | cons e es ih =>
      intro hist env env' hrun
      rw [runEvents] at hrun
      rw [List.map_cons, runNsEvents, NsEvent.run]
      rcases hstep : e.run rom env with _ | ⟨ret, env₁⟩
      · rw [hstep] at hrun
        exact absurd hrun (by simp)
      · rw [hstep] at hrun
        obtain ⟨⟨hist₁, env₂⟩, hrest, heq⟩ := map_eq_some_iff.mp hrun
        rw [← (Prod.mk.inj heq).2]
        exact ih hist₁ env₁ env₂ hrest
  intro env hrep hlist
  obtain ⟨es, hist, env', -, hrun, h'⟩ := h env hrep hlist
  exact ⟨es.map NsEvent.event, env', hmap es hist env env' hrun, h'⟩

/-- A value is put without a namespace, by what `data_element_put` does. -/
theorem updates_put {key : CString} (hkey : key.len < keyNameMaxSize) {v : List UInt8}
    (hpos : 0 < v.length) (hle : v.length ≤ 12800) {𝒯 : Shot → Prop}
    (h : Does n (dataElementPut rom namespaceNullIdx key v) S (.ok ()) S' id 𝒯) :
    Updates rom n S S' := by
  intro env hrep hlist
  obtain ⟨env', hrun, hrep', -, hlist', -⟩ := h env hrep
  have hvalid : decide (0 < v.length ∧ v.length ≤ elementBulkMaxSize ∧
      key.len ≤ keyNameMaxSize - 1) = true :=
    decide_eq_true ⟨hpos, hle, Nat.le_sub_one_of_lt hkey⟩
  have hput : nvdsDataPut rom none (some key) (some v) env = some (.ok (), env') := by
    rw [nvdsDataPut, NvdsM.check_bind hvalid, NvdsM.bind_ok (nsIndexByNamespace_null true env),
      NvdsM.bind_ok hrun]
    rfl
  refine ⟨[.call (.put none key v)], [(.call (.put none key v), .code (.ok ()))], env',
    by simp [Event.IsUpdate], ?_, hrep', ?_⟩
  · rw [runEvents, Event.run, Call.run, hput]
    rfl
  · rw [hlist', hlist]
    rfl

/-- A value is deleted, by what `data_element_del` does. -/
theorem updates_del {key : CString} (hkey : key.len < keyNameMaxSize) {𝒯 : Shot → Prop}
    (h : Does n (dataElementDel rom namespaceNullIdx key) S (.ok ()) S' id 𝒯) :
    Updates rom n S S' := by
  intro env hrep hlist
  obtain ⟨env', hrun, hrep', -, hlist', -⟩ := h env hrep
  have hnil : env'.nsList = [] := by
    rw [hlist', hlist]
    rfl
  -- no record of a namespace has its count lowered
  have hcnt : nsDelUsedCnt rom namespaceNullIdx env' = some (.ok (), env') := by
    rw [nsDelUsedCnt, NvdsM.modify_bind, nsLowerUsedCnt, if_pos (by decide), NvdsM.get_bind, hnil]
    rfl
  have hdel : nvdsDataDel rom none (some key) env = some (.ok (), env') := by
    rw [nvdsDataDel, NvdsM.check_bind (decide_eq_true (Nat.le_sub_one_of_lt hkey)),
      NvdsM.bind_ok (nsIndexByNamespace_null false env),
      NvdsM.bind_ok hrun, NvdsM.bind_ok (NvdsM.attempt_eq hcnt)]
    rfl
  refine ⟨[.call (.del none key)], [(.call (.del none key), .code (.ok ()))], env',
    by simp [Event.IsUpdate], ?_, hrep', hnil⟩
  rw [runEvents, Event.run, Call.run, hdel]
  rfl

end Reach

/-! ### Filling pages -/

theorem usedCnt_concat (A : APage) {r : Rec} (hr : r.live = true) :
    APage.usedCnt { A with recs := A.recs ++ [r] } = A.usedCnt + r.size := by
  simp [APage.usedCnt, List.filter_append, hr]

theorem Store.recs_mark (S : Store) (k state j : ℕ) :
    ((S.mark k state).page j).recs = (S.page j).recs := by
  rcases eq_or_ne j k with rfl | hj
  · rw [mark, page_setPage]
    rfl
  · rw [mark, page_setPage_of_ne S hj]

theorem Store.page_push_of_ne (S : Store) {k : ℕ} (h : j ≠ k) (r : Rec) :
    (S.push k r).page j = S.page j := S.page_setPage_of_ne h _

/-- `u` pages are in use, of which the last one, page `k`, has `r` slots in use, and the others are
full; nothing has been given up. -/
structure Filled (u r k : ℕ) (S : Store) : Prop where
  last : S.used.getLast? = some k
  length : S.used.length = u
  level : recsSize (S.page k).recs = r
  full : ∀ j ∈ S.used, j ≠ k → recsSize (S.page j).recs = 126
  whole : ∀ j ∈ S.used, (S.page j).usedCnt = recsSize (S.page j).recs

/-- A record of one slot behind the others. -/
theorem Filled.push {r k : ℕ} {S : Store} (h : Filled u r k S) (i : ℕ) :
    Filled u (r + 1) k (S.push k (.fresh (numBody i).1 [])) := by
  have hself : (S.push k (.fresh (numBody i).1 [])).page k =
      { S.page k with recs := (S.page k).recs ++ [.fresh (numBody i).1 []] } := S.page_setPage k _
  refine ⟨h.last, h.length, ?_, fun j hj hjk => ?_, fun j hj => ?_⟩
  · rw [hself, recsSize_append, h.level]
    rfl
  · rw [S.page_push_of_ne hjk]
    exact h.full j hj hjk
  · rcases eq_or_ne j k with rfl | hjk
    · rw [hself, usedCnt_concat _ (Rec.live_fresh _ _), h.whole j hj, recsSize_append]
      rfl
    · rw [S.page_push_of_ne hjk]
      exact h.whole j hj

section Fill

variable {rom : NvdsRom} (hrom : rom.Reliable) {n m : ℕ} {S : Store} {k : ℕ}
include hrom

/-- A new value of one slot is put, by the page that `roomFor` finds for it. -/
theorem Plain.put (h : Plain n m S) (hm : m < 255 ^ 3) (hlast : S.used.getLast? = some k)
    (hs : (S.page k).searched = true) {p : ℕ} {S₁ : Store}
    (hroom : Does n (roomFor rom entrySize k) S (.ok (some p)) S₁ id
      (Stage n namespaceNullIdx (numKey m) (liveOf n S.shot) fun _ => True))
    (htidy : Tidy n namespaceNullIdx (numKey m) (liveOf n S.shot) False False 0 S₁) (hp : p ∈ S₁.used)
    (hsp : (S₁.page p).searched = true) (hsize : recsSize (S₁.page p).recs < 126) :
    Updates rom n S (S₁.push p (.fresh (numBody m).1 [])) ∧
      Plain n (m + 1) (S₁.push p (.fresh (numBody m).1 [])) := by
  have htidy₀ := h.tidy_new hm
  have hf := inFields_numBody m
  have hkeep : Keeps namespaceNullIdx (numKey m) [0x2A] {numBody m} := .small (by decide) (by decide)
  have hcnt : Entry.dataCnt (numBody m).1 = 0 := by
    rw [Entry.dataCnt, show Entry.type (numBody m).1 = .small from hf.entryType_eq]
  have hstage := htidy₀.stage (W := fun _ => True) mine_zero
  obtain ⟨hpush, htidy'⟩ := htidy.does_push (W := fun _ => True) hp hsp hf.length_eq (by simp)
    (show ([] : List (List UInt8)).length = _ from hcnt.symm) (by rw [List.length_nil]; omega)
    ((hit_numBody hm hm).mpr rfl) (notMem_zero _) mine_zero
    (Or.inl ⟨[0x2A], trivial, hkeep⟩) (does_headerWrite hrom hp hf.length_eq hcnt hsize)
  constructor
  · refine updates_put (len_numKey m) (show 0 < [0x2A].length by decide) (by decide)
      (?_ : Does n _ S _ _ _ (Stage n namespaceNullIdx (numKey m) (liveOf n S.shot) fun _ => True))
    have hsearch : Does n (NvdsM.search fun env =>
        (elementCompare rom env namespaceNullIdx (numKey m) [0x2A]).map .ok) S (.ok false) S id
        (Stage n namespaceNullIdx (numKey m) (liveOf n S.shot) fun _ => True) := by
      refine does_search (fun env hrep => ?_) hstage
      rw [elementCompare_none hrom hrep.view htidy₀.own_eq]
      rfl
    have hdrop : Does n (dropOld rom namespaceNullIdx (numKey m)) S (.ok ()) S id
        (Stage n namespaceNullIdx (numKey m) (liveOf n S.shot) fun _ => True) :=
      (htidy₀.does_dataElementDel_none hrom).attempt.seq (does_pure () hstage)
    obtain ⟨k', hk', hcur⟩ := htidy₀.does_currentPage hstage
    obtain rfl := Option.some.inj (hlast.symm.trans hk')
    rcases hcur with ⟨-, hcur⟩ | ⟨hno, -⟩
    · exact hsearch.seq (hdrop.seq (hcur.seq (hroom.seq hpush)))
    · exact absurd (hno.symm.trans hs) Bool.false_ne_true
  · have hrest : restOf (liveOf n S.shot) namespaceNullIdx (numKey m) = liveOf n S.shot :=
      filter_eq_self.mpr fun b hb => by simp [htidy₀.others b hb]
    rw [← hrest] at htidy'
    refine h.replaced htidy' (Or.inl ⟨[0x2A], hkeep⟩) (fun b hb => ?_) (Nat.le_succ m)
      (Nat.lt_succ_self m)
    exact Multiset.mem_singleton.mp hb

/-- The last page has room. -/
theorem Plain.put_here (h : Plain n m S) (hm : m < 255 ^ 3) {r : ℕ} (hf : Filled u r k S)
    (hr : r < 126) :
    ∃ S', Reaches rom n S S' ∧ Plain n (m + 1) S' ∧ Filled u (r + 1) k S' := by
  have hk : k ∈ S.used := mem_of_getLast? hf.last
  have hs := (h.neat.calm (h.neat.spare · |>.elim) k hk).1
  have hlevel := hf.level
  have hroom : Does n (roomFor rom entrySize k) S _ S id _ :=
    (h.tidy_new hm).does_roomFor_here (W := fun _ => True) mine_zero hk (by
      simp only [entrySize]
      omega)
  obtain ⟨hput, hplain⟩ := h.put hrom hm hf.last hs hroom (h.tidy_new hm) hk hs (by omega)
  exact ⟨_, hput.reaches, hplain, hf.push m⟩

/-- The last page is full, and two pages are free. -/
theorem Plain.put_next (h : Plain n m S) (hm : m < 255 ^ 3) (hf : Filled u 126 k S)
    (hu : u + 1 < n) :
    ∃ S' p, Reaches rom n S S' ∧ Plain n (m + 1) S' ∧ Filled (u + 1) 1 p S' := by
  have hk : k ∈ S.used := mem_of_getLast? hf.last
  have hs := (h.neat.calm (h.neat.spare · |>.elim) k hk).1
  have hpages := length_used_add_free h.neat.nodup_pages h.neat.mem_iff
  have hlen := hf.length
  obtain ⟨p, q, rest, hfree⟩ : ∃ p q rest, S.free = p :: q :: rest := by
    match hfree : S.free with
    | [] | [_] =>
      rw [hfree] at hpages
      simp only [List.length_nil, List.length_singleton] at hpages
      omega
    | p :: q :: rest => exact ⟨p, q, rest, rfl⟩
  obtain ⟨seq, -, hroom, -, htidy⟩ := (h.tidy_new hm).does_roomFor_turn (W := fun _ => True) hrom
    mine_zero hk hs (show (126 - recsSize (S.page k).recs) * 32 < entrySize by
      rw [hf.level]
      decide)
  have hturned : (S.mark k pageFull).turned seq = some (p, (S.mark k pageFull).opened p seq) := by
    rw [Store.turned, show (S.mark k pageFull).free = S.free from rfl, hfree]
  have hempty : recsSize (((S.mark k pageFull).opened p seq).page p).recs = 0 := by
    rw [page_opened_self]
    rfl
  rw [hturned, filter_some, if_pos (by simp [entrySize])] at hroom
  rw [hturned] at htidy
  simp only [map_some, getD_some] at hroom htidy
  have hp : p ∈ ((S.mark k pageFull).opened p seq).used := by simp [Store.opened]
  obtain ⟨hput, hplain⟩ := h.put hrom hm hf.last hs hroom htidy hp
    (by rw [page_opened_self]; exact searched_opened seq []) (by omega)
  refine ⟨_, p, hput.reaches, hplain, Filled.push ?_ m⟩
  -- the page that has been set up is empty
  have hnot : ∀ j ∈ S.used, j ≠ p := fun j hj e =>
    (nodup_append.mp h.neat.nodup_pages).2.2 j hj p (by simp [hfree]) e
  have hused : ((S.mark k pageFull).opened p seq).used = S.used ++ [p] := rfl
  have hpage : ∀ j ∈ S.used, (((S.mark k pageFull).opened p seq).page j).recs = (S.page j).recs := by
    intro j hj
    rw [page_opened_of_ne _ (hnot j hj)]
    exact S.recs_mark k pageFull j
  refine ⟨by rw [hused, List.getLast?_append]; rfl, by rw [hused, length_append, hlen]; rfl,
    hempty, fun j hj hjp => ?_, fun j hj => ?_⟩
  · rcases mem_append.mp hj with hj | hj
    · rw [hpage j hj]
      rcases eq_or_ne j k with rfl | hjk
      · exact hf.level
      · exact hf.full j hj hjk
    · exact absurd (List.mem_singleton.mp hj) hjp
  · rcases mem_append.mp hj with hj | hj
    · rw [APage.usedCnt, hpage j hj]
      exact hf.whole j hj
    · rw [List.mem_singleton.mp hj, page_opened_self]
      rfl

/-- **Filling pages**: after any number of puts, as long as a page stays free. -/
theorem Plain.fill (h : Plain n 0 S) (hf : Filled 1 0 k S) (h2 : 2 ≤ n) {t : ℕ} (ht : t < 255 ^ 3)
    (hfit : t ≤ 126 * (n - 1)) :
    ∃ S' u r k', Reaches rom n S S' ∧ Plain n t S' ∧ Filled u r k' S' ∧ u < n ∧ r ≤ 126 ∧
      t + 126 = 126 * u + r := by
  induction t with
  | zero => exact ⟨S, 1, 0, k, .refl S, h, hf, by omega, by omega, rfl⟩
  | succ t ih =>
    obtain ⟨S₁, u, r, k₁, hreach, hplain, hfilled, hu, hr, hsum⟩ := ih (by omega) (by omega)
    rcases Nat.lt_or_ge r 126 with hroom | hfull
    · obtain ⟨S₂, hreach₂, hplain₂, hfilled₂⟩ := hplain.put_here hrom (by omega) hfilled hroom
      exact ⟨S₂, u, r + 1, k₁, hreach.trans hreach₂, hplain₂, hfilled₂, hu, hroom, by omega⟩
    · obtain rfl : r = 126 := by omega
      obtain ⟨S₂, p, hreach₂, hplain₂, hfilled₂⟩ := hplain.put_next hrom (by omega) hfilled
        (show u + 1 < n by omega)
      exact ⟨S₂, u + 1, 1, p, hreach.trans hreach₂, hplain₂, hfilled₂, by omega, by omega, by omega⟩

end Fill

/-! ### Deleting on chosen pages -/

/-- The pages after a live cell has been given up: the slots are not free, but not in use. -/
theorem Store.page_kill {S : Store} {c : Cell} (hc : c ∈ S.cells) (hlive : c.record.live = true) :
    (∀ j, recsSize ((S.kill c c.record.size).page j).recs = recsSize (S.page j).recs) ∧
      ((S.kill c c.record.size).page c.page).usedCnt + c.record.size = (S.page c.page).usedCnt ∧
      ∀ j, j ≠ c.page → (S.kill c c.record.size).page j = S.page j := by
  obtain ⟨X, Y, hXY⟩ := List.append_of_mem hc
  obtain ⟨l₁, l₂, pre, post, -, -, hrecs, hidx, -, -⟩ := split_cells hXY
  have hself : (S.kill c c.record.size).page c.page =
      { S.page c.page with recs := pre ++ c.record.giveUp c.record.size :: post } := by
    rw [kill, page_setPage, hrecs, hidx, giveUpAt_append]
  have hdead := Rec.live_giveUp c.record c.record.size_pos
  have hother : ∀ j, j ≠ c.page → (S.kill c c.record.size).page j = S.page j := fun j hj =>
    S.page_setPage_of_ne hj _
  refine ⟨fun j => ?_, ?_, hother⟩
  · rcases eq_or_ne j c.page with rfl | hj
    · rw [hself, hrecs]
      simp [Rec.giveUp, Rec.size]
    · rw [hother j hj]
  · rw [hself]
    simp only [APage.usedCnt, hrecs, List.filter_append, List.filter_cons, hdead, hlive,
      Bool.false_eq_true, if_true, if_false, recsSize_append, recsSize_cons]
    omega

/-- Slots have been given up, as many on every page as it is listed. -/
structure Thinned (S S' : Store) (ks : List ℕ) : Prop where
  used_eq : S'.used = S.used
  free_eq : S'.free = S.free
  size_eq : ∀ j, recsSize (S'.page j).recs = recsSize (S.page j).recs
  cnt : ∀ j, (S'.page j).usedCnt + ks.count j = (S.page j).usedCnt

section Delete

variable {rom : NvdsRom} (hrom : rom.Reliable) {n m : ℕ} {S : Store}
include hrom

/-- A value is deleted on a chosen page: one of its cells in use is given up. -/
theorem Plain.delete_cell (h : Plain n m S) (hm : m ≤ 255 ^ 3) (hj : j ∈ S.used)
    (hpos : 0 < (S.page j).usedCnt) :
    ∃ c ∈ S.cells, c.page = j ∧ c.record.live = true ∧ c.record.size = 1 ∧
      Updates rom n S (S.kill c c.record.size) ∧ Plain n m (S.kill c c.record.size) := by
  have hnd := (nodup_append.mp h.neat.nodup_pages).1
  have hlt : ∀ k ∈ S.used, k < n := fun k hk => (h.neat.mem_iff k).mp (mem_append_left _ hk)
  have hs := (h.neat.calm (h.neat.spare · |>.elim) j hj).1
  -- a cell in use of the page
  obtain ⟨c, hc, hpage, hlive⟩ : ∃ c ∈ S.cells, c.page = j ∧ c.record.live = true := by
    have hne : (S.page j).recs.filter Rec.live ≠ [] := by
      intro hnil
      rw [APage.usedCnt, hnil] at hpos
      exact absurd hpos (by simp)
    obtain ⟨r, hr⟩ := exists_mem_of_ne_nil _ hne
    obtain ⟨hr, hlive⟩ := List.mem_filter.mp hr
    rw [← map_record_pageCells j 0 (S.page j).recs] at hr
    obtain ⟨c, hc, rfl⟩ := mem_map.mp hr
    refine ⟨c, mem_flatMap.mpr ⟨j, hj, ?_⟩, page_of_mem_pageCells hc, hlive⟩
    rwa [Store.cellsOf, if_pos hs]
  have hmem := body_mem_liveOf hnd hlt hc hlive
  obtain ⟨i, hi, hbody⟩ := h.plain _ hmem
  rw [hbody] at hmem
  have htidy := h.tidy_old hm hi hmem
  -- a search for its key finds this cell, as no body is in use twice
  obtain ⟨c', hc', hsome, hown⟩ := find_any hnd hlt namespaceNullIdx (numKey i) (by
    rw [htidy.own_eq]
    simp)
  rw [htidy.own_eq, Multiset.mem_singleton] at hown
  have hhit' := List.find?_some hsome
  rw [Cell.hit, Bool.and_eq_true] at hhit'
  have hcell : c' = c := by
    have hnodup := h.kept.nodup
    rw [← coe_live_cells hnd hlt, coe_nodup] at hnodup
    exact inj_on_of_nodup_map hnodup (List.mem_filter.mpr ⟨hc', hhit'.1⟩)
      (List.mem_filter.mpr ⟨hc, hlive⟩) (hown.trans hbody.symm)
  subst hcell
  obtain ⟨hdoes, htidy'⟩ := htidy.does_dataElementDel_small (W := fun _ => True) hrom (by decide)
    (len_numKey i) (by decide) (by decide) trivial hc' hsome hown
  have hone : c'.record.size = 1 := by
    rw [Rec.size, show c'.record.data = c'.record.body.2 from rfl, hown]
    rfl
  refine ⟨c', hc', hpage, hlive, hone, updates_del (len_numKey i) hdoes,
    h.replaced htidy' (Or.inr rfl) (fun b hb => ?_) le_rfl hi⟩
  exact absurd hb (notMem_zero b)

/-- **A value is deleted on a chosen page.** -/
theorem Plain.delete (h : Plain n m S) (hm : m ≤ 255 ^ 3) (hj : j ∈ S.used)
    (hpos : 0 < (S.page j).usedCnt) :
    ∃ S', Reaches rom n S S' ∧ Plain n m S' ∧ Thinned S S' [j] := by
  obtain ⟨c, hc, hpage, hlive, hone, hdel, hplain⟩ := h.delete_cell hrom hm hj hpos
  obtain ⟨hsize, hcnt, hother⟩ := Store.page_kill hc hlive
  refine ⟨_, hdel.reaches, hplain, rfl, rfl, hsize, fun k => ?_⟩
  subst hpage
  rcases eq_or_ne k c.page with rfl | hk
  · rw [List.count_singleton_self, ← hcnt, hone]
  · rw [List.count_singleton, if_neg (by simpa using hk.symm), hother k hk]
    rfl

/-- **Values are deleted on chosen pages**, one after the other. -/
theorem Plain.delete_all (h : Plain n m S) (hm : m ≤ 255 ^ 3) {ks : List ℕ}
    (hks : ∀ j ∈ ks, j ∈ S.used) (hcnt : ∀ j, ks.count j ≤ (S.page j).usedCnt) :
    ∃ S', Reaches rom n S S' ∧ Plain n m S' ∧ Thinned S S' ks := by
  induction ks generalizing S with
  | nil => exact ⟨S, .refl S, h, rfl, rfl, fun _ => rfl, fun _ => rfl⟩
  | cons k ks ih =>
    have hk := hcnt k
    rw [List.count_cons_self] at hk
    obtain ⟨S₁, hreach₁, hplain₁, hthin₁⟩ := h.delete hrom hm (hks k List.mem_cons_self) (by omega)
    have hfew : ∀ j, ks.count j ≤ (S₁.page j).usedCnt := by
      intro j
      have h0 := hcnt j
      have h1 := hthin₁.cnt j
      rw [List.count_cons] at h0
      rw [List.count_singleton] at h1
      omega
    obtain ⟨S₂, hreach₂, hplain₂, hthin₂⟩ := ih hplain₁
      (fun j hj => by rw [hthin₁.used_eq]; exact hks j (List.mem_cons_of_mem k hj)) hfew
    refine ⟨S₂, hreach₁.trans hreach₂, hplain₂, hthin₂.used_eq.trans hthin₁.used_eq,
      hthin₂.free_eq.trans hthin₁.free_eq, fun j => (hthin₂.size_eq j).trans (hthin₁.size_eq j),
      fun j => ?_⟩
    have h1 := hthin₁.cnt j
    have h2 := hthin₂.cnt j
    rw [List.count_singleton] at h1
    rw [List.count_cons]
    omega

end Delete

/-! ### Going round the pages -/

/-- If no page can be given up, all are in use throughout. -/
theorem Store.victim_none {S : Store} (h : S.victim = none) :
    ∀ k ∈ S.used, 126 ≤ (S.page k).usedCnt := by
  have hfold : ∀ (ks : List ℕ) (acc : ℕ × Option ℕ), (ks.foldl (fun acc p =>
      if (S.page p).usedCnt < acc.1 then ((S.page p).usedCnt, some p) else acc) acc).2 = none →
      acc.2 = none ∧ ∀ k ∈ ks, acc.1 ≤ (S.page k).usedCnt := by
    intro ks
    induction ks with
    | nil => exact fun acc h => ⟨h, by simp⟩
    | cons k ks ih =>
      intro acc h
      rw [List.foldl_cons] at h
      split at h
      · exact absurd (ih _ h).1 (by simp)
      · next hle =>
        obtain ⟨hnone, hall⟩ := ih _ h
        refine ⟨hnone, fun j hj => ?_⟩
        rcases List.mem_cons.mp hj with rfl | hj
        · omega
        · exact hall j hj
  exact (hfold S.used _ h).2

/-- All pages but the spare one are full, and `c` of them have two slots to give; the others have
none. -/
structure Worn (c : ℕ) (S : Store) : Prop where
  free_one : S.free.length = 1
  full : ∀ j ∈ S.used, recsSize (S.page j).recs = 126
  cnt : ∀ j ∈ S.used, (S.page j).usedCnt = 124 ∨ (S.page j).usedCnt = 126
  worn : S.used.countP (fun j => decide ((S.page j).usedCnt = 124)) = c

/-- A store whose pages have the same records. -/
theorem Worn.mark {c : ℕ} {S : Store} (h : Worn c S) (k : ℕ) : Worn c (S.mark k pageFull) := by
  have hcnt : ∀ j, ((S.mark k pageFull).page j).usedCnt = (S.page j).usedCnt := fun j => by
    rw [APage.usedCnt, S.recs_mark]
    rfl
  refine ⟨h.free_one, fun j hj => ?_, fun j hj => ?_, ?_⟩
  · rw [S.recs_mark]
    exact h.full j hj
  · rw [hcnt]
    exact h.cnt j hj
  · simp only [hcnt]
    exact h.worn

/-- **A page is given up** for a new one, which gets its records in use and has two slots left; a
record of two slots fills it. -/
theorem Worn.turned {c : ℕ} {S : Store} (h : Worn (c + 1) S) (hnd : (S.used ++ S.free).Nodup)
    (seq : ℕ) :
    ∃ p S', S.turned seq = some (p, S') ∧ recsSize (S'.page p).recs = 124 ∧
      ∀ r : Rec, r.live = true → r.size = 2 → Worn c (S'.push p r) := by
  obtain ⟨p, hfree⟩ := length_eq_one_iff.mp h.free_one
  obtain ⟨v, hvictim⟩ : ∃ v, S.victim = some v := by
    rcases hv : S.victim with _ | v
    · obtain ⟨j, hj, hcnt⟩ := countP_pos_iff.mp (show 0 < S.used.countP
        (fun j => decide ((S.page j).usedCnt = 124)) by rw [h.worn]; omega)
      have := S.victim_none hv j hj
      rw [decide_eq_true_eq] at hcnt
      omega
    · exact ⟨v, rfl⟩
  obtain ⟨hv, hvcnt⟩ := S.victim_spec hvictim
  have hvcnt' : (S.page v).usedCnt = 124 := by
    rcases h.cnt v hv with hc | hc <;> omega
  have hne : ∀ j ∈ S.used, j ≠ p := fun j hj e =>
    (nodup_append.mp hnd).2.2 j hj p (by simp [hfree]) e
  have hused : ((S.opened p seq).evacuated v p).used = S.used.erase v ++ [p] := by
    simp [Store.evacuated, Store.opened, erase_append_left _ hv]
  have hnew : (((S.opened p seq).evacuated v p).page p).recs = (S.page v).recs.filter Rec.live := by
    simp only [Store.evacuated, Function.update_self, page_opened_of_ne S (hne v hv)]
  have hold : ∀ j ∈ S.used, ((S.opened p seq).evacuated v p).page j = S.page j := fun j hj => by
    simp only [Store.evacuated, Function.update_of_ne (hne j hj), page_opened_of_ne S (hne j hj)]
  have hsize : recsSize (((S.opened p seq).evacuated v p).page p).recs = 124 := by
    rw [hnew]
    exact hvcnt'
  refine ⟨p, (S.opened p seq).evacuated v p, ?_, hsize, fun r hr hr2 => ?_⟩
  · rw [Store.turned, hfree]
    simp only [hvictim, map_some]
  have hself : (((S.opened p seq).evacuated v p).push p r).page p =
      { ((S.opened p seq).evacuated v p).page p with
        recs := (((S.opened p seq).evacuated v p).page p).recs ++ [r] } := Store.page_setPage _ p _
  have hpushed : ∀ j ∈ S.used, (((S.opened p seq).evacuated v p).push p r).page j = S.page j :=
    fun j hj => (Store.page_push_of_ne _ (hne j hj) r).trans (hold j hj)
  have hfull : ((((S.opened p seq).evacuated v p).push p r).page p).usedCnt = 126 := by
    rw [hself, usedCnt_concat _ hr, hr2, APage.usedCnt, hnew, List.filter_filter]
    simp only [Bool.and_self]
    rw [← APage.usedCnt, hvcnt']
  have hcases : ∀ j ∈ (((S.opened p seq).evacuated v p).push p r).used, j ∈ S.used ∨ j = p := by
    intro j hj
    rw [show (((S.opened p seq).evacuated v p).push p r).used = _ from hused] at hj
    rcases mem_append.mp hj with hj | hj
    · exact Or.inl (mem_of_mem_erase hj)
    · exact Or.inr (List.mem_singleton.mp hj)
  refine ⟨?_, fun j hj => ?_, fun j hj => ?_, ?_⟩
  · rw [show (((S.opened p seq).evacuated v p).push p r).free = S.free.erase p ++ [v] from rfl, hfree]
    simp
  · rcases hcases j hj with hj | rfl
    · rw [hpushed j hj]
      exact h.full j hj
    · rw [hself, recsSize_append, hsize, recsSize_cons, hr2]
      rfl
  · rcases hcases j hj with hj | rfl
    · rw [hpushed j hj]
      exact h.cnt j hj
    · exact Or.inr hfull
  · -- the page given up was one with two slots to give, and the new one has none
    have hworn := h.worn
    rw [(perm_cons_erase hv).countP_eq, List.countP_cons_of_pos (by simpa using hvcnt')] at hworn
    rw [show (((S.opened p seq).evacuated v p).push p r).used = _ from hused, countP_append,
      countP_singleton, if_neg (by simp [hfull]), Nat.add_zero, ← Nat.succ.inj hworn]
    exact countP_congr fun j hj => by rw [hpushed j (mem_of_mem_erase hj)]

/-- The store that the loop goes round: the last two slots of the last page are filled. -/
theorem worn_push {S : Store} {k : ℕ} (hfree : S.free.length = 1)
    (hlevel : recsSize (S.page k).recs = 124)
    (hfull : ∀ j ∈ S.used, j ≠ k → recsSize (S.page j).recs = 126)
    (hcnt : ∀ j ∈ S.used, (S.page j).usedCnt + 2 = recsSize (S.page j).recs) {r : Rec}
    (hr : r.live = true) (hr2 : r.size = 2) : Worn S.used.length (S.push k r) := by
  have hself : (S.push k r).page k = { S.page k with recs := (S.page k).recs ++ [r] } :=
    S.page_setPage k _
  have hgive : ∀ j ∈ S.used, ((S.push k r).page j).usedCnt = 124 := by
    intro j hj
    have hj2 := hcnt j hj
    rcases eq_or_ne j k with rfl | hjk
    · rw [hself, usedCnt_concat _ hr, hr2]
      omega
    · rw [S.page_push_of_ne hjk]
      have := hfull j hj hjk
      omega
  refine ⟨hfree, fun j hj => ?_, fun j hj => Or.inl (hgive j hj), ?_⟩
  · rcases eq_or_ne j k with rfl | hjk
    · rw [hself, recsSize_append, hlevel, recsSize_cons, hr2]
      rfl
    · rw [S.page_push_of_ne hjk]
      exact hfull j hj hjk
  · exact countP_eq_length.mpr fun j hj => decide_eq_true (hgive j hj)

/-! ### A fragment too many -/

/-- A number that is decoded fits five bits. -/
theorem fragno_lt (e : Entry) : Entry.fragno e < 32 := by
  rw [Entry.fragno, tagFragnoGet, Nat.shiftRight_eq_div_pow]
  have hle : Entry.tag e &&& (0x1F <<< 8) ≤ 0x1F <<< 8 := Nat.and_le_right
  omega

section Rounds

variable {rom : NvdsRom} (hrom : rom.Reliable) {n ns : ℕ} (hns : ns < 256) {key : CString}
  (hkey : key.len < keyNameMaxSize) {L : Multiset Body} {v : List UInt8} (hle : v.length ≤ 12800)
include hrom hns hkey hle

/-- **The loop goes round the pages**: with 32 bytes in every fragment so far, and a page left that
has two slots to give, there is another one. -/
theorem Worn.exists_header {lens : List ℕ} {k c : ℕ} {S : Store}
    (h : Fragmenting n ns key L False v lens k S) (hworn : Worn c S)
    (hsum : lens.sum = 32 * lens.length) (hj : lens.length + j = 32) (hc : j < c)
    (hlong : 33 * 32 < v.length) (hrep : Rep n env S) {fuel : ℕ} (hfuel : j < fuel) :
    ∃ d ∈ fragHeaders rom ns key v fuel k (v.drop lens.sum) lens.length env, d.frag = 32 := by
  induction j generalizing lens k c S env fuel with
  | zero =>
    obtain ⟨fuel, rfl⟩ : ∃ f, fuel = f + 1 := ⟨fuel - 1, by omega⟩
    obtain ⟨c, rfl⟩ : ∃ i, c = i + 1 := ⟨c - 1, by omega⟩
    have hk : k ∈ S.used := mem_of_getLast? h.last
    obtain ⟨seq, -, hroom, -⟩ := h.tidy.does_roomFor_turn (W := fun _ => True) hrom
      (Or.inr (h.bulk hns hkey hle)) hk h.searched
      (show (126 - recsSize (S.page k).recs) * 32 < 2 * entrySize by rw [hworn.full k hk]; decide)
    obtain ⟨p, S', hres, hlevel, -⟩ := (hworn.mark k).turned h.tidy.nodup_pages seq
    rw [hres, filter_some, if_pos (by simp [hlevel, entrySize])] at hroom
    obtain ⟨env₁, hrun, -⟩ := hroom env hrep
    rw [fragHeaders, hrun]
    exact ⟨_, List.mem_cons_self, hj⟩
  | succ j ih =>
    obtain ⟨fuel, rfl⟩ : ∃ f, fuel = f + 1 := ⟨fuel - 1, by omega⟩
    obtain ⟨c, rfl⟩ : ∃ i, c = i + 1 := ⟨c - 1, by omega⟩
    have hk : k ∈ S.used := mem_of_getLast? h.last
    obtain ⟨seq, -, hroom, htidy, htidy'⟩ := h.tidy.does_roomFor_turn (W := fun _ => True) hrom
      (Or.inr (h.bulk hns hkey hle)) hk h.searched
      (show (126 - recsSize (S.page k).recs) * 32 < 2 * entrySize by rw [hworn.full k hk]; decide)
    obtain ⟨p, S', hres, hlevel, hnext⟩ := (hworn.mark k).turned h.tidy.nodup_pages seq
    have hready := htidy.ready_of_turned hres
      (show 2 * entrySize ≤ (126 - recsSize (S'.page p).recs) * 32 by rw [hlevel]; decide)
    rw [hres, filter_some, if_pos (by simp [hlevel, entrySize])] at hroom
    rw [hres] at htidy'
    simp only [map_some, getD_some] at hroom htidy'
    obtain ⟨env₁, hrun₁, hrep₁, -⟩ := hroom env hrep
    -- the fragment takes the two slots
    have hlen : 32 = min ((126 - recsSize (S'.page p).recs) * 32 - entrySize)
        (v.length - lens.sum) := by
      rw [hlevel, entrySize]
      omega
    obtain ⟨S₂, hS₂, hwrite, -, -, -, -, -, hmore⟩ := h.does_next (W := fun _ => True) hrom hns hkey
      hle (show lens.length < 32 by omega) (by omega) htidy' hready hlen
    obtain ⟨env₂, hrun₂, hrep₂, -⟩ := hwrite env₁ hrep₁
    have hworn₂ : Worn c S₂ := by
      rw [hS₂]
      refine hnext _ (Rec.live_fresh _ _) ?_
      rw [Rec.size_fresh, length_slotsOf, List.length_take, List.length_drop, entriesOf, entrySize]
      omega
    have hsum' : (lens ++ [32]).sum = 32 * (lens ++ [32]).length := by
      rw [sum_append, List.sum_singleton, length_append, List.length_singleton]
      omega
    obtain ⟨d, hd, hfrag⟩ := ih (hmore (by omega)) hworn₂ hsum'
      (by rw [length_append, List.length_singleton]; omega) (by omega) hrep₂
      (show j < fuel by omega)
    refine ⟨d, ?_, hfrag⟩
    rw [sum_append, List.sum_singleton, length_append, List.length_singleton,
      ← drop_drop] at hd
    rw [fragHeaders, hrun₁]
    simp only [hrep₁.room_eq (mem_of_getLast? hready.last), List.length_drop, ← hlen, hrun₂]
    rw [if_neg (by omega)]
    exact List.mem_cons_of_mem _ hd

end Rounds

section Overflow

variable {rom : NvdsRom} (hrom : rom.Reliable) {n : ℕ} {S : Store}
include hrom

/-- **A header with the number 32**: two slots have been given up on every page, and two have never
been written, on the last one. -/
theorem Plain.exists_header {m : ℕ} (h : Plain n m S) (hm : m < 255 ^ 3) (h33 : 33 ≤ n) {k : ℕ}
    (hlast : S.used.getLast? = some k) (hfree : S.free.length = 1)
    (hlevel : recsSize (S.page k).recs = 124)
    (hfull : ∀ j ∈ S.used, j ≠ k → recsSize (S.page j).recs = 126)
    (hcnt : ∀ j ∈ S.used, (S.page j).usedCnt + 2 = recsSize (S.page j).recs)
    (hrep : Rep n env S) {v : List UInt8} (hlong : v.length = 12800) :
    ∃ d ∈ putHeaders rom none (numKey m) v env, d.frag = 32 := by
  have hk : k ∈ S.used := mem_of_getLast? hlast
  have hs := (h.neat.calm (h.neat.spare · |>.elim) k hk).1
  have hns : namespaceNullIdx < 256 := by decide
  have hkey := len_numKey m
  have htidy := h.tidy_new hm
  have hstage := htidy.stage (W := fun _ => True) mine_zero
  have hpages := length_used_add_free h.neat.nodup_pages h.neat.mem_iff
  -- up to the loop nothing changes
  have hdrop : Does n (dropOld rom namespaceNullIdx (numKey m)) S (.ok ()) S id
      (Stage n namespaceNullIdx (numKey m) (liveOf n S.shot) fun _ => True) :=
    (htidy.does_dataElementDel_none hrom).attempt.seq (does_pure () hstage)
  obtain ⟨env₁, hrun₁, hrep₁, -⟩ := hdrop env hrep
  obtain ⟨k', hk', ⟨-, hcur⟩ | ⟨hno, -⟩⟩ := htidy.does_currentPage hstage
  swap
  · obtain rfl := Option.some.inj (hlast.symm.trans hk')
    exact absurd (hno.symm.trans hs) Bool.false_ne_true
  obtain rfl := Option.some.inj (hlast.symm.trans hk')
  obtain ⟨env₂, hrun₂, hrep₂, -⟩ := hcur env₁ hrep₁
  -- the first fragment
  have hroom : Does n (roomFor rom (2 * entrySize) k) S _ S id _ :=
    htidy.does_roomFor_here (W := fun _ => True) mine_zero hk (by rw [hlevel]; decide)
  obtain ⟨env₃, hrun₃, hrep₃, -⟩ := hroom env₂ hrep₂
  have hstart : Fragmenting n namespaceNullIdx (numKey m) (liveOf n S.shot) False v [] k S :=
    ⟨htidy, by simp, by simp, by simp, by simp, hlast, hs, Or.inl rfl⟩
  have hready : Ready S k (2 * entrySize) S k :=
    ⟨hlast, hs, by rw [hlevel]; decide, le_rfl, Or.inl ⟨rfl, rfl⟩⟩
  have hlen : 32 = min ((126 - recsSize (S.page k).recs) * 32 - entrySize)
      (v.length - ([] : List ℕ).sum) := by
    rw [hlevel, entrySize, hlong]
    rfl
  obtain ⟨S₂, hS₂, hwrite, -, -, -, -, -, hmore⟩ := hstart.does_next (W := fun _ => True) hrom hns
    hkey (by omega) (show ([] : List ℕ).length < 32 by decide) (by rw [List.sum_nil]; omega) htidy
    hready hlen
  obtain ⟨env₄, hrun₄, hrep₄, -⟩ := hwrite env₃ hrep₃
  have hworn : Worn S.used.length S₂ := by
    rw [hS₂]
    refine worn_push hfree hlevel hfull hcnt (Rec.live_fresh _ _) ?_
    rw [Rec.size_fresh, length_slotsOf, List.length_take, List.length_drop, hlong]
    rfl
  -- and the others
  obtain ⟨d, hd, hfrag⟩ := hworn.exists_header hrom hns hkey (by omega) (hmore (by
      rw [List.sum_nil]
      omega)) rfl (j := 31) rfl (by omega) (by omega) hrep₄ (show 31 < v.length by omega)
  refine ⟨d, ?_, hfrag⟩
  rw [putHeaders, if_pos ⟨by omega, by rw [hlong]; rfl, Nat.le_sub_one_of_lt hkey⟩,
    nsIndexByNamespace_null true env]
  simp only [elementHeaders, elementCompare_none hrom hrep.view htidy.own_eq, hrun₁]
  rw [if_pos (by rw [hlong]; decide), bulkHeaders, hrun₂]
  simp only
  rw [fragHeaders, hrun₃]
  simp only [hrep₃.room_eq hk]
  rw [List.sum_nil, Nat.sub_zero] at hlen
  rw [← hlen]
  rw [List.sum_nil, List.drop_zero, List.length_nil] at hrun₄
  rw [hrun₄]
  simp only
  rw [if_neg (by omega)]
  exact List.mem_cons_of_mem _ hd

end Overflow

section Erased

variable {n : ℕ} (h2 : 2 ≤ n) {env₀ : FlashEnv}
  (hwell : Well n 0 False none env₀ ((emptyStore n).opened 0 0) fun _ _ => none)
include h2

theorem liveOf_erased : liveOf n ((emptyStore n).opened 0 0).shot = 0 := by
  rw [liveOf_opened (by simp [emptyStore]) (by omega)]
  exact liveOf_noPages n

include hwell

/-- An erased partition has no namespaces. -/
theorem Well.nsList_erased : env₀.nsList = [] := by
  have hids : nsIds env₀.nsList = [] := by
    refine eq_nil_iff_forall_not_mem.mpr fun d hd => ?_
    have hdef := hwell.named.defined d hd
    rw [liveOf_erased h2] at hdef
    exact hdef.ne_zero rfl
  exact map_eq_nil_iff.mp hids

/-- An erased partition has no values. -/
theorem Well.plain_erased : Plain n 0 ((emptyStore n).opened 0 0) :=
  ⟨hwell.neat, hwell.kept, fun b hb => by
    rw [liveOf_erased h2] at hb
    exact absurd hb (notMem_zero b)⟩

omit h2 hwell in
/-- Its first page is the one in use, and empty. -/
theorem filled_erased (n : ℕ) : Filled 1 0 0 ((emptyStore n).opened 0 0) := by
  have hused : ∀ j ∈ ((emptyStore n).opened 0 0).used, j = 0 := fun j hj => by
    simpa [Store.opened, emptyStore] using hj
  refine ⟨rfl, rfl, by rw [page_opened_self]; rfl, fun j hj hne => absurd (hused j hj) hne,
    fun j hj => ?_⟩
  rw [hused j hj, page_opened_self]
  rfl

end Erased

/-- On a partition of more than 32 sectors, some run leads to a put that writes a header with the
number 32. -/
theorem exists_overflow {rom : NvdsRom} (hrom : rom.Reliable) {n : ℕ} (h33 : 33 ≤ n)
    (hbig : n ≤ 1024) {env₀ : FlashEnv}
    (hwell : Well n 0 False none env₀ ((emptyStore n).opened 0 0) fun _ _ => none) :
    ∃ es env key v, runNsEvents rom es env₀ = some env ∧
      ∃ d ∈ putHeaders rom none key v env, d.frag = 32 := by
  have hlist := hwell.nsList_erased (by omega)
  have hplain := hwell.plain_erased (by omega)
  have hfilled := filled_erased n
  -- up to the last two slots of the last page
  obtain ⟨S₁, u, r, k, hreach₁, hplain₁, hfilled₁, hu, hr, hsum⟩ := hplain.fill hrom hfilled
    (by omega) (t := 126 * (n - 2) + 124) (by omega) (by omega)
  obtain rfl : r = 124 := by omega
  have hnd₁ := (nodup_append.mp hplain₁.neat.nodup_pages).1
  have hsizes : ∀ j ∈ S₁.used, 124 ≤ (S₁.page j).usedCnt := by
    intro j hj
    rw [hfilled₁.whole j hj]
    rcases eq_or_ne j k with rfl | hjk
    · rw [hfilled₁.level]
    · rw [hfilled₁.full j hj hjk]
      decide
  have htwice : ∀ j ∈ S₁.used, (S₁.used ++ S₁.used).count j = 2 := fun j hj => by
    rw [count_append, count_eq_one_of_mem hnd₁ hj]
  -- two values less on every page
  obtain ⟨S₂, hreach₂, hplain₂, hthin⟩ := hplain₁.delete_all hrom (by omega)
    (show ∀ j ∈ S₁.used ++ S₁.used, j ∈ S₁.used from fun j hj => by simpa using hj) (fun j => by
      by_cases hj : j ∈ S₁.used
      · have := hsizes j hj
        rw [htwice j hj]
        omega
      · rw [count_eq_zero_of_not_mem (by simpa using hj)]
        exact Nat.zero_le _)
  obtain ⟨es, env, hrun, hrep, -⟩ := (hreach₁.trans hreach₂) env₀ hwell.rep hlist
  have hpages := length_used_add_free hplain₁.neat.nodup_pages hplain₁.neat.mem_iff
  have hlen := hfilled₁.length
  refine ⟨es, env, _, List.replicate 12800 0, hrun, hplain₂.exists_header hrom (by omega) h33 (k := k)
    ?_ ?_ ?_ ?_ ?_ hrep length_replicate⟩
  · rw [hthin.used_eq]
    exact hfilled₁.last
  · rw [hthin.free_eq]
    omega
  · rw [hthin.size_eq]
    exact hfilled₁.level
  · intro j hj hjk
    rw [hthin.used_eq] at hj
    rw [hthin.size_eq]
    exact hfilled₁.full j hj hjk
  · intro j hj
    rw [hthin.used_eq] at hj
    have hcnt := hthin.cnt j
    rw [htwice j hj] at hcnt
    rw [hthin.size_eq, hcnt]
    exact hfilled₁.whole j hj

/-- **The number of a fragment fits the tag** in all puts, in all states that runs from an erased
partition reach, exactly if the partition has at most 32 sectors. -/
theorem headersRight_iff {rom : NvdsRom} (hrom : rom.Reliable) {n : ℕ} (h2 : 2 ≤ n) {b : ℕ}
    {dev : Dev} (hdev : b + 4096 * n ≤ flashTotalSize) (hblank : Blank dev.flash b (4096 * n)) :
    ∃ env₀, nvdsFlashEnvInit rom b (4096 * n) dev = some (.ok (), env₀) ∧
      ((∀ es env, runNsEvents rom es env₀ = some env →
        ∀ name key v, HeadersRight (putHeaders rom name key v env)) ↔ n ≤ 32) := by
  obtain ⟨env₀, hinit, hwell₀, -⟩ := init_erased hrom hdev h2 hblank
  refine ⟨env₀, hinit, ?_, ?_⟩
  · intro hall
    by_contra hmany
    have hbig : n ≤ 1024 := by
      simp only [flashTotalSize] at hdev
      omega
    obtain ⟨es, env, key, v, hrun, d, hd, hfrag⟩ := exists_overflow hrom (by omega) hbig hwell₀
    have hright := (hall es env hrun none key v).1 d hd
    have hlt := fragno_lt d.hdr
    rw [hright.2.2, hfrag] at hlt
    omega
  · intro hn es env hrun name key v
    obtain ⟨S, m, hwell⟩ := (hwell₀.mono (Nat.zero_le 4032)).nsEvents hrom h2 hn hrun
    exact hwell.headersRight hrom hn name key v

/-- On the internal partition of an erased device the headers are always right. -/
theorem headersRight_internal :
    ∃ env₀, nvdsFlashEnvInit steadyRom nvdsFlashInternalAddr nvdsFlashInternalSize erasedDev =
        some (.ok (), env₀) ∧
      ∀ es env, runNsEvents steadyRom es env₀ = some env →
        ∀ name key v, HeadersRight (putHeaders steadyRom name key v env) := by
  obtain ⟨env₀, hinit, hiff⟩ := @headersRight_iff steadyRom steadyRom_reliable 4 (by decide)
    nvdsFlashInternalAddr erasedDev (by decide) fun _ _ _ => rfl
  exact ⟨env₀, hinit, hiff.mpr (by decide)⟩

/-- **On 33 sectors they are not**: some put writes a header that does not decode to the number it
is made of. -/
theorem not_headersRight :
    ¬∀ (rom : NvdsRom), rom.Reliable → ∀ (n : ℕ), 2 ≤ n → ∀ (b : ℕ) (dev : Dev),
      b + 4096 * n ≤ flashTotalSize → Blank dev.flash b (4096 * n) →
      ∀ env₀, nvdsFlashEnvInit rom b (4096 * n) dev = some (.ok (), env₀) →
      ∀ es env, runNsEvents rom es env₀ = some env →
        ∀ name key v, HeadersRight (putHeaders rom name key v env) := by
  intro hall
  have hdev : 0x200000 + 4096 * 33 ≤ flashTotalSize := by decide
  have hblank : Blank erasedDev.flash 0x200000 (4096 * 33) := fun _ _ _ => rfl
  obtain ⟨env₀, hinit, hwell, -⟩ := init_erased steadyRom_reliable hdev (by decide) hblank
  obtain ⟨es, env, key, v, hrun, d, hd, hfrag⟩ := exists_overflow steadyRom_reliable (by decide)
    (by decide) hwell
  have hright := (hall steadyRom steadyRom_reliable 33 (by decide) _ _ hdev hblank env₀ hinit es env
    hrun none key v).1 d hd
  have hlt := fragno_lt d.hdr
  rw [hright.2.2, hfrag] at hlt
  omega

end Nvds

end Gd32
