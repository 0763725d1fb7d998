import Gd32Firmware.Nvds.DelKeys

/-!
# When the keys of a namespace are deleted

`nvds_del_keys_by_namespace`, as a whole and in runs. The record of a namespace counts keys as they
are put, and headers when the storage is loaded, and a value in fragments has several headers. The
scan takes one off the count at every header, so it ends as it should exactly if the count is the
number of headers in use, and is not zero (`delKeys_right_iff`). If the count is
smaller, the record is used after it has been freed (`not_delKeys_right`); if it is larger
or zero, the namespace stays.
-/

namespace Gd32.Nvds

open NorFlash LittleEndian List NvdsM

/-! ### All pages -/

theorem countdown_append (v h h' : ℕ) :
    countdown v h ++ countdown (v - h) h' = countdown v (h + h') := by
  induction h generalizing v with
  | zero => rw [Nat.zero_add]; rfl
  | succ h ih =>
    rw [Nat.add_right_comm, countdown, countdown, cons_append, ← ih (v - 1), Nat.sub_sub,
      Nat.add_comm 1 h]

/-- The counts that are lowered. -/
theorem mem_countdown {v h : ℕ} (hle : h ≤ v) {u : RecordUse} (hu : u ∈ countdown v h) :
    ∃ cnt, u = .lower cnt ∧ 0 < cnt := by
  induction h generalizing v with
  | zero => exact absurd hu (by simp [countdown])
  | succ h ih =>
    rcases mem_cons.mp hu with rfl | hu
    · exact ⟨v, rfl, by omega⟩
    · exact ih (by omega) hu

/-- The records of a namespace are the headers on the used pages. -/
theorem recordsIn_eq_headersOn {n : ℕ} {S : Store} (hnd : S.used.Nodup)
    (hlt : ∀ k ∈ S.used, k < n) (hs : ∀ k ∈ S.used, (S.page k).searched = true) (i : ℕ) :
    recordsIn (liveOf n S.shot) i = S.headersOn i S.used := by
  have hcells : ∀ ks : List ℕ, (∀ k ∈ ks, k ∈ S.used) →
      (ks.flatMap S.cellsOf).countP (fun c => c.record.inNs i) = S.headersOn i ks := by
    intro ks hks
    induction ks with
    | nil => rfl
    | cons k ks ih =>
      rw [flatMap_cons, countP_append, Store.headersOn_cons,
        ih fun j hj => hks j (by simp [hj]), Store.cellsOf, if_pos (hs k (hks k (by simp)))]
      conv_rhs => rw [← map_record_pageCells k 0 (S.page k).recs, countP_map]
      rfl
  rw [recordsIn, ← coe_live_cells hnd hlt, Multiset.coe_countP, countP_map, countP_filter,
    ← hcells S.used fun _ h => h]
  refine countP_congr fun c _ => ?_
  simp only [Function.comp_apply, Rec.inNs, Rec.body, Bool.and_eq_true, decide_eq_true_eq]
  exact ⟨fun h => ⟨h.2, h.1.symm⟩, fun h => ⟨h.2.symm, h.1⟩⟩

section Pages

variable {rom : NvdsRom} (hrom : rom.Reliable) {n slack i : ℕ} {c : CString} {env₀ env : FlashEnv}
  {S₀ S : Store} {m : Contents} {v : ℕ} {r : NamespaceInfo}
include hrom

/-- **The scan over the pages**, by what the record counts and how many headers there are. -/
theorem Purge.pages (h : Purge n i c env₀ S₀ v env S) (hw : Well n slack False none env₀ S₀ m)
    (hr : r ∈ env₀.nsList) (hname : r.name = c) (hindex : r.index = i) (hpos : 0 < v)
    (hv : v < 2 ^ 32) {ks : List ℕ} (hks : ∀ k ∈ ks, k ∈ S.used) (hnd : ks.Nodup)
    (uses : List RecordUse) {left : ℕ} (hleft : recordsIn (liveOf n S.shot) i = left)
    (hsum : left = S.headersOn i ks) :
    (left < v → ∃ env' S', delKeysPages rom i ks ⟨some (r.withCnt v), uses⟩ env =
        some (.ok ⟨some (r.withCnt (v - left)), uses ++ countdown v left⟩, env') ∧
        Purge n i c env₀ S₀ (v - left) env' S' ∧ recordsIn (liveOf n S'.shot) i = 0) ∧
      (left = v → ∃ env', delKeysPages rom i ks ⟨some (r.withCnt v), uses⟩ env =
        some (.ok ⟨none, uses ++ countdown v v ++ [.remove]⟩, env') ∧
        Emptied n slack i c env₀ m env') ∧
      (v < left → delKeysPages rom i ks ⟨some (r.withCnt v), uses⟩ env = none) := by
  induction ks generalizing v env S uses left with
  | nil =>
    have hzero : left = 0 := hsum
    subst hzero
    refine ⟨fun _ => ⟨env, S, ?_, h, hleft⟩, fun he => by omega, fun he => by omega⟩
    rw [countdown, append_nil]
    rfl
  | cons k ks ih =>
    have hk := hks k (by simp)
    have hks' : ∀ j ∈ ks, j ∈ S.used := fun j hj => hks j (by simp [hj])
    obtain ⟨hnot, hnd'⟩ := nodup_cons.mp hnd
    have hstart : (S.page k).recs = [] ++ (S.page k).recs := rfl
    have hfuel := h.rep.view.length_recs hk
    rw [Store.headersOn_cons] at hsum
    rw [delKeysPages_cons h.rep.view hk (h.neat.searched hk)]
    rcases Nat.lt_or_ge ((S.page k).recs.countP (Rec.inNs i)) v with hfew | hmany
    · -- the count survives this page
      obtain ⟨env₁, S₁, hpage, h₁, hcnt, hused, hother⟩ := h.page hname hrom hw.kept hv hk ks uses
        hstart hfuel hfew
      rw [show recsSize [] = 0 from rfl] at hpage
      have hheaders : S₁.headersOn i ks = S.headersOn i ks :=
        Store.headersOn_congr fun j hj => by rw [hother j (ne_of_mem_of_not_mem hj hnot)]
      have hrest := ih h₁ (by omega) (by omega) (by rwa [hused]) hnd'
        (uses ++ countdown v ((S.page k).recs.countP (Rec.inNs i))) rfl
        (show recordsIn (liveOf n S₁.shot) i = S₁.headersOn i ks by omega)
      have hsplit : left = (S.page k).recs.countP (Rec.inNs i) + recordsIn (liveOf n S₁.shot) i := by
        omega
      rw [hpage, hsplit]
      simp only [append_assoc uses, countdown_append, Nat.sub_sub] at hrest
      refine ⟨fun he => hrest.1 (by omega), fun he => ?_, fun he => hrest.2.2 (by omega)⟩
      have hlast := hrest.2.1 (by omega)
      rwa [Nat.add_sub_cancel' hfew.le, ← append_assoc] at hlast
    · have hend := h.lastPage hname hrom hw hr hindex hpos hv hks hnot uses hstart hfuel hmany hleft
        hsum
      exact ⟨fun he => by omega, hend⟩

end Pages

/-! ### The call -/

section Call

variable {rom : NvdsRom} (hrom : rom.Reliable) {n slack : ℕ} (hn : n ≤ 32) (hslack : slack < 2 ^ 31)
  {env : FlashEnv} {S : Store} {m : Contents}

/-- A name that no namespace has. -/
theorem nvdsDelKeysByNamespace_none {c : CString}
    (h : nsIndex (nsIds env.nsList) (some c) = none) :
    ∃ e, nvdsDelKeysByNamespace rom c env = some (.error e, env) := by
  rw [nsIndex_nsIds, Option.map_eq_none_iff] at h
  by_cases hlen : c.len ≤ keyNameMaxSize - 1
  · refine ⟨.notFound, ?_⟩
    rw [nvdsDelKeysByNamespace, check_bind (decide_eq_true hlen), get_bind, h]
    rfl
  · exact ⟨.invalParam, check_bind_false (decide_eq_false hlen) _ _ _⟩

include hrom hn hslack

/-- **The call on a namespace that is defined**, by what its record counts and how many headers it
has. -/
theorem Well.delKeys (h : Well n slack False none env S m) {r : NamespaceInfo}
    (hr : r ∈ env.nsList) :
    (recordsIn (liveOf n S.shot) r.index < r.usedCnt ∨ r.usedCnt = 0 → ∃ uses env' S',
        nvdsDelKeysByNamespace rom r.name env = some (.ok uses, env') ∧ .remove ∉ uses ∧
        Well n slack False none env' S' (m.without r.name)) ∧
      (recordsIn (liveOf n S.shot) r.index = r.usedCnt → 0 < r.usedCnt → ∃ env',
        nvdsDelKeysByNamespace rom r.name env =
          some (.ok (countdown r.usedCnt r.usedCnt ++ [.remove]), env') ∧
        Emptied n slack r.index r.name env m env') ∧
      (0 < r.usedCnt → r.usedCnt < recordsIn (liveOf n S.shot) r.index →
        nvdsDelKeysByNamespace rom r.name env = none) := by
  have hmem : (r.name, r.index) ∈ nsIds env.nsList := mem_map.mpr ⟨r, hr, rfl⟩
  have hlen : r.name.len ≤ keyNameMaxSize - 1 := by
    have := (h.named.range _ hmem).2.2
    simp only [keyNameMaxSize] at this ⊢
    omega
  have hfind : (env.nsList.find? fun s => decide (s.name = r.name)) = some r := by
    rcases hf : env.nsList.find? fun s => decide (s.name = r.name) with _ | s
    · have hnot := List.find?_eq_none.mp hf r hr
      simp at hnot
    · have hs := mem_of_find?_eq_some hf
      have hname : s.name = r.name := by simpa using List.find?_some hf
      have hnd := h.named.names
      rw [nsIds, map_map] at hnd
      rw [hf, inj_on_of_nodup_map (f := NamespaceInfo.name) hnd hs hr hname]
  have hstart : nvdsDelKeysByNamespace rom r.name env =
      (delKeysPages rom r.index S.used ⟨some (r.withCnt r.usedCnt), []⟩ >>= fun p => pure p.uses)
        env := by
    rw [nvdsDelKeysByNamespace, check_bind (decide_eq_true hlen), get_bind, hfind,
      h.rep.used_eq]
    rfl
  have hpurge : Purge n r.index r.name env S r.usedCnt env S :=
    ⟨h.rep, h.neat, le_rfl, rfl, (changeNamed_self hfind).symm, rfl⟩
  have hheaders := recordsIn_eq_headersOn h.rep.view.nodup_used h.rep.view.used_lt
    (fun _ => h.neat.searched) r.index
  obtain ⟨d, hd, hcnt⟩ := h.counted r hr
  have hlt := h.count_lt hn hslack r.index
  have hcount := recordsIn_eq (liveOf n S.shot) r.index
  rcases Nat.eq_zero_or_pos r.usedCnt with hzero | hpos
  · -- without a key there is no header either
    have hnone : recordsIn (liveOf n S.shot) r.index = 0 := by
      refine Multiset.countP_eq_zero.mpr fun b hb => ?_
      exact h.kept.no_records (by omega) hb
    refine ⟨fun _ => ⟨[], env, S, ?_, by simp, ?_⟩, fun _ he => by omega, fun he => by omega⟩
    · rw [hstart, bind_ok (delKeysPages_idle hrom h.rep.view (fun _ => h.neat.searched) _
        (fun _ hk => hk) (by omega))]
      rfl
    · exact hpurge.well h hmem hnone (by omega)
  · obtain ⟨hmore, heq, hless⟩ := hpurge.pages hrom h hr rfl rfl hpos (by omega)
      (fun _ hk => hk) h.rep.view.nodup_used [] rfl hheaders
    rw [hstart]
    refine ⟨fun he => ?_, fun he _ => ?_, fun _ he => ?_⟩
    · obtain ⟨env', S', hrun, hpurge', hdone⟩ := hmore (by omega)
      refine ⟨_, env', S', by rw [bind_ok hrun]; rfl, fun hu => ?_,
        hpurge'.well h hmem hdone (by omega)⟩
      have hle : recordsIn (liveOf n S.shot) r.index ≤ r.usedCnt := by omega
      obtain ⟨cnt, hne, -⟩ := mem_countdown hle hu
      exact RecordUse.noConfusion hne
    · obtain ⟨env', hrun, hempty⟩ := heq he
      exact ⟨env', by rw [bind_ok hrun]; rfl, hempty⟩
    · have hnone := hless he
      change NvdsM.andThen _ _ env = none
      rw [NvdsM.andThen, hnone]

end Call

/-! ### Keys that are gone -/

/-- **The namespace of the record `r` has been deleted**, from `env` to `env'`: its keys, its record
and its definition are gone, the definition has been removed once and no count has been lowered
below zero; the other namespaces hold what they held. -/
structure KeysGone (rom : NvdsRom) (env : FlashEnv) (r : NamespaceInfo) (uses : List RecordUse)
    (env' : FlashEnv) : Prop where
  keys : foundKeys rom env' r.name = ∅
  elements : ∀ key, dataElementFind rom env' r.index key = some (.error .notFound)
  record : ∀ s ∈ env'.nsList, s.name ≠ r.name
  bit : env'.nsStates r.index = false
  definition : dataElementFind rom env' 0 r.name = some (.error .notFound)
  once : uses.count .remove = 1
  positive : ∀ cnt, .lower cnt ∈ uses → 0 < cnt
  others : ∀ name key buf, name ≠ some r.name → NameOk name → key.len < keyNameMaxSize →
    readOut rom env' name key buf = readOut rom env name key buf

/-- The call does what it is for: it returns `NVDS_OK`, without using a record that has been freed,
and the namespace is gone. -/
def DelKeysRight (rom : NvdsRom) (env : FlashEnv) (r : NamespaceInfo) : Prop :=
  ∃ uses env', nvdsDelKeysByNamespace rom r.name env = some (.ok uses, env') ∧
    KeysGone rom env r uses env'

/-- The count of the record is not zero, and it is the one that loading the storage again would
give it, the number of headers of the namespace that are in use. -/
def CountsHeaders (rom : NvdsRom) (env : FlashEnv) (r : NamespaceInfo) : Prop :=
  r.usedCnt ≠ 0 ∧ ∃ env', nvdsFlashEnvInit rom env.baseAddr env.length env.dev =
    some (.ok (), env') ∧ r ∈ env'.nsList

section Right

variable {rom : NvdsRom} (hrom : rom.Reliable) {n slack : ℕ} {env : FlashEnv} {S : Store}
  {m : Contents} {r : NamespaceInfo}
include hrom

theorem Emptied.gone {env' : FlashEnv} (he : Emptied n slack r.index r.name env m env')
    (h : Well n slack False none env S m) (hr : r ∈ env.nsList) :
    KeysGone rom env r (countdown r.usedCnt r.usedCnt ++ [.remove]) env' := by
  obtain ⟨S', hw, hids, hbit, hrecs⟩ := he
  have hmem : (r.name, r.index) ∈ nsIds env.nsList := mem_map.mpr ⟨r, hr, rfl⟩
  obtain ⟨hpos, hle, hlen⟩ := h.named.range _ hmem
  have hlower : ∀ u ∈ countdown r.usedCnt r.usedCnt, ∃ cnt, u = .lower cnt ∧ 0 < cnt :=
    fun u hu => mem_countdown le_rfl hu
  constructor
  · rw [hw.foundKeys_eq hrom hlen, Set.eq_empty_iff_forall_notMem]
    rintro key ⟨-, hkey⟩
    rw [Contents.without, Function.update_self] at hkey
    exact hkey rfl
  · intro key
    have hnone : own n S'.shot r.index key = 0 := Multiset.filter_eq_nil.mpr fun b hb hhit =>
      hw.named.no_index hpos hle hbit hb (ns_of_hit hhit).1
    rw [dataElementFind, elementFind_none hrom hw.rep.view hnone]
    rfl
  · intro s hs hname
    have hs' : (s.name, s.index) ∈ (nsIds env.nsList).erase (r.name, r.index) := by
      rw [← hids]
      exact mem_map.mpr ⟨s, hs, rfl⟩
    obtain ⟨hne, hold⟩ := (List.Nodup.of_map _ h.named.names).mem_erase_iff.mp hs'
    exact hne (inj_on_of_nodup_map h.named.names hold hmem hname)
  · exact hbit
  · rw [dataElementFind, elementFind_none hrom hw.rep.view hrecs]
    rfl
  · rw [count_append, count_eq_zero.mpr, count_singleton_self]
    intro hu
    obtain ⟨cnt, hne, -⟩ := hlower _ hu
    exact RecordUse.noConfusion hne
  · intro cnt hu
    rcases mem_append.mp hu with hu | hu
    · obtain ⟨cnt', he, hcnt⟩ := hlower _ hu
      rw [RecordUse.lower.inj he]
      exact hcnt
    · exact RecordUse.noConfusion (mem_singleton.mp hu)
  · intro name key buf hname hok hkey
    rw [hw.readOut_eq hrom hok hkey, h.readOut_eq hrom hok hkey, Contents.without,
      Function.update_of_ne hname]

variable (hn : n ≤ 32)
include hn

theorem Well.countsHeaders_iff (h : Well n slack False none env S m) (hr : r ∈ env.nsList) :
    CountsHeaders rom env r ↔
      r.usedCnt ≠ 0 ∧ recordsIn (liveOf n S.shot) r.index = r.usedCnt := by
  have hfew : ∀ i ≤ namespaceMaxCnt, fragsIn (liveOf n S.shot) i ≤ 126 * n := by
    intro i _
    have hle := h.neat.recordsIn_le i
    have heq := recordsIn_eq (liveOf n S.shot) i
    omega
  obtain ⟨env', hrun, -, -, -, -, hids, hcnt⟩ := h.reload hrom hn hfew
  refine and_congr_right fun _ => ⟨?_, fun heq => ⟨env', ?_, ?_⟩⟩
  · rintro ⟨env₁, hrun₁, hr₁⟩
    rw [h.rep.geo.length_eq, hrun] at hrun₁
    obtain ⟨-, rfl⟩ := Prod.mk.inj (Option.some.inj hrun₁)
    exact (hcnt r hr₁).symm
  · rw [h.rep.geo.length_eq]
    exact hrun
  · have hmem : (r.name, r.index) ∈ nsIds env'.nsList :=
      hids.mem_iff.mpr (mem_map.mpr ⟨r, hr, rfl⟩)
    obtain ⟨s, hs, hsr⟩ := mem_map.mp hmem
    obtain ⟨hname, hindex⟩ := Prod.mk.inj hsr
    have hcount : s.usedCnt = r.usedCnt := by rw [hcnt s hs, hindex, heq]
    obtain ⟨name', index', usedCnt'⟩ := r
    simp only at hname hindex hcount
    rw [← hname, ← hindex, ← hcount]
    exact hs

/-- **The call is right exactly if the count is the number of headers**, and not zero. -/
theorem Well.delKeysRight_iff (hslack : slack < 2 ^ 31) (h : Well n slack False none env S m)
    (hr : r ∈ env.nsList) : DelKeysRight rom env r ↔ CountsHeaders rom env r := by
  obtain ⟨hmore, heq, hless⟩ := h.delKeys hrom hn hslack hr
  rw [h.countsHeaders_iff hrom hn hr]
  constructor
  · rintro ⟨uses, env', hrun, hgone⟩
    -- a definition is removed only if the count comes to zero
    have hnot : ¬(recordsIn (liveOf n S.shot) r.index < r.usedCnt ∨ r.usedCnt = 0) := by
      intro hstay
      obtain ⟨uses', env'', -, hrun', hnot, -⟩ := hmore hstay
      rw [hrun] at hrun'
      obtain ⟨hu, -⟩ := Prod.mk.inj (Option.some.inj hrun')
      have hcount := hgone.once
      rw [Except.ok.inj hu, count_eq_zero.mpr hnot] at hcount
      exact absurd hcount (by decide)
    refine ⟨by omega, ?_⟩
    rcases Nat.lt_or_ge r.usedCnt (recordsIn (liveOf n S.shot) r.index) with hgt | hle
    · rw [hless (by omega) hgt] at hrun
      exact absurd hrun (by simp)
    · omega
  · rintro ⟨hne, he⟩
    obtain ⟨env', hrun, hempty⟩ := heq he (Nat.pos_of_ne_zero hne)
    exact ⟨_, env', hrun, hempty.gone hrom h hr⟩

end Right

/-! ### Runs -/

/-- A step of a run in which the keys of namespaces are deleted as well. -/
inductive NsEvent where
  /-- A call of the others, a restart or a clean. -/
  | event (e : Event)
  /-- `nvds_del_keys_by_namespace`. -/
  | delKeys (name : CString)

/-- Taking a step; none is taken if its behaviour is not defined. -/
def NsEvent.run (rom : NvdsRom) (env : FlashEnv) : NsEvent → Option FlashEnv
  | .event e => (e.run rom env).map Prod.snd
  | .delKeys name => (nvdsDelKeysByNamespace rom name env).map Prod.snd

/-- Taking steps, one after the other. -/
def runNsEvents (rom : NvdsRom) : List NsEvent → FlashEnv → Option FlashEnv
  | [], env => some env
  | e :: es, env => (e.run rom env).bind (runNsEvents rom es)

section Run

variable {rom : NvdsRom} (hrom : rom.Reliable) {n : ℕ} (h2 : 2 ≤ n) (hn : n ≤ 32)
  {env env' : FlashEnv} {S : Store} {m : Contents}
include hrom hn

/-- **One step** that is defined leaves an environment in order. -/
theorem Well.nsEvent (h2 : 2 ≤ n) (h : Well n 4032 False none env S m) {e : NsEvent}
    (hrun : e.run rom env = some env') : ∃ S' m', Well n 4032 False none env' S' m' := by
  cases e with
  | event e =>
    have hfew : ∀ i ≤ namespaceMaxCnt, fragsIn (liveOf n S.shot) i ≤ 4032 := by
      intro i _
      have hle := h.neat.recordsIn_le i
      have heq := recordsIn_eq (liveOf n S.shot) i
      omega
    obtain ⟨ret, env₁, S₁, hstep, hwell, -⟩ := h.event hrom hn (by decide) h2 e fun _ => hfew
    rw [NsEvent.run, hstep] at hrun
    obtain rfl := Option.some.inj hrun
    exact ⟨S₁, _, hwell⟩
  | delKeys c =>
    rw [NsEvent.run] at hrun
    rcases hi : nsIndex (nsIds env.nsList) (some c) with _ | i
    · obtain ⟨e, hnone⟩ := @nvdsDelKeysByNamespace_none rom _ _ hi
      rw [hnone] at hrun
      obtain rfl := Option.some.inj hrun
      exact ⟨S, m, h⟩
    obtain ⟨r, hr, hri⟩ := mem_map.mp ((nsIndex_some h.named.names).mp hi)
    obtain rfl : r.name = c := (Prod.mk.inj hri).1
    obtain ⟨hmore, heq, hless⟩ := h.delKeys hrom hn (by decide) hr
    by_cases hstay : recordsIn (liveOf n S.shot) r.index < r.usedCnt ∨ r.usedCnt = 0
    · obtain ⟨uses, env₁, S₁, hcall, -, hwell⟩ := hmore hstay
      rw [hcall] at hrun
      obtain rfl := Option.some.inj hrun
      exact ⟨S₁, _, hwell⟩
    rcases Nat.lt_or_ge r.usedCnt (recordsIn (liveOf n S.shot) r.index) with hgt | hle
    · rw [hless (by omega) hgt] at hrun
      exact absurd hrun (by simp)
    · obtain ⟨env₁, hcall, S₁, hwell, -⟩ := heq (by omega) (by omega)
      rw [hcall] at hrun
      obtain rfl := Option.some.inj hrun
      exact ⟨S₁, _, hwell⟩

include h2

/-- A run whose steps are defined leaves an environment in order. -/
theorem Well.nsEvents (h : Well n 4032 False none env S m) {es : List NsEvent}
    (hrun : runNsEvents rom es env = some env') : ∃ S' m', Well n 4032 False none env' S' m' := by
  induction es generalizing env S m with
  | nil =>
    obtain rfl := Option.some.inj hrun
    exact ⟨S, m, h⟩
  | cons e es ih =>
    rw [runNsEvents, Option.bind_eq_some_iff] at hrun
    obtain ⟨env₁, hstep, hrest⟩ := hrun
    obtain ⟨S₁, m₁, hwell⟩ := h.nsEvent hrom hn h2 hstep
    exact ih hwell hrest

end Run

/-- **Deleting the keys of a namespace.** In every state that a run from an erased partition
reaches, `nvds_del_keys_by_namespace` does what it is for on a namespace that is defined exactly if
the count of its record is the number of its headers in use, and not zero. -/
theorem delKeys_right_iff {rom : NvdsRom} (hrom : rom.Reliable) {n : ℕ} (h2 : 2 ≤ n) (hn : n ≤ 32)
    {b : ℕ} {dev : Dev} (hdev : b + 4096 * n ≤ flashTotalSize)
    (hblank : Blank dev.flash b (4096 * n)) :
    ∃ env₀, nvdsFlashEnvInit rom b (4096 * n) dev = some (.ok (), env₀) ∧
      ∀ (es : List NsEvent) (env : FlashEnv), runNsEvents rom es env₀ = some env →
        ∀ r ∈ env.nsList, DelKeysRight rom env r ↔ CountsHeaders rom env r := by
  obtain ⟨env₀, hinit, hwell₀, -⟩ := init_erased hrom hdev h2 hblank
  refine ⟨env₀, hinit, fun es env hrun r hr => ?_⟩
  obtain ⟨S, m, hwell⟩ := (hwell₀.mono (Nat.zero_le 4032)).nsEvents hrom h2 hn hrun
  exact hwell.delKeysRight_iff hrom hn (by decide) hr

/-- After a value of 257 bytes has been put and the storage has been loaded again, the namespace can
be deleted. -/
theorem delKeys_right_iff_bulk :
    ∃ env₀ env r, nvdsFlashEnvInit steadyRom nvdsFlashInternalAddr nvdsFlashInternalSize erasedDev =
        some (.ok (), env₀) ∧
      runNsEvents steadyRom
        [.event (.call (.put (some keyA) keyA bulkValue)), .event .restart] env₀ = some env ∧
      r ∈ env.nsList ∧ r.name = keyA ∧ DelKeysRight steadyRom env r := by
  obtain ⟨env₀, hinit, hall⟩ := @delKeys_right_iff steadyRom steadyRom_reliable 4 (by decide)
    (by decide) nvdsFlashInternalAddr erasedDev (by decide) fun _ _ _ => rfl
  obtain ⟨env₀', env₁, S₁, m, r, hinit', hput, hwell₁, -, hr, hrname, -, hless⟩ :=
    exists_bulk_put
  obtain rfl : env₀' = env₀ :=
    (Prod.mk.inj (Option.some.inj (hinit'.symm.trans hinit))).2
  have hfew : ∀ i ≤ namespaceMaxCnt, fragsIn (liveOf 4 S₁.shot) i ≤ 504 := by
    intro i _
    have hle := hwell₁.neat.recordsIn_le i
    have heq := recordsIn_eq (liveOf 4 S₁.shot) i
    omega
  obtain ⟨env₂, hload, hwell₂, -, -, -, hids, hcnt⟩ :=
    hwell₁.reload steadyRom_reliable (by decide) hfew
  have hmem : (r.name, r.index) ∈ nsIds env₂.nsList :=
    hids.mem_iff.mpr (mem_map.mpr ⟨r, hr, rfl⟩)
  obtain ⟨s, hs, hsr⟩ := mem_map.mp hmem
  obtain ⟨hsname, hsidx⟩ := Prod.mk.inj hsr
  have hrun : runNsEvents steadyRom
      [.event (.call (.put (some keyA) keyA bulkValue)), .event .restart] env₀' = some env₂ := by
    rw [runNsEvents, NsEvent.run, hput, Option.map_some, Option.bind_some, runNsEvents, NsEvent.run,
      Event.run, hwell₁.rep.geo.length_eq, hload]
    rfl
  refine ⟨env₀', env₂, s, hinit', hrun, hs, hsname.trans hrname, (hall _ _ hrun s hs).mpr ?_⟩
  rw [hwell₂.countsHeaders_iff steadyRom_reliable (by decide) hs,
    Store.shot_reloaded hwell₁.neat.used_lt, hcnt s hs, hsidx]
  exact ⟨by omega, rfl⟩

/-- **A value in fragments.** After a value of 257 bytes has been put into an empty namespace, the
record counts one key, and the scan finds more headers. -/
theorem not_delKeys_right :
    ∃ env₀ env r, nvdsFlashEnvInit steadyRom nvdsFlashInternalAddr nvdsFlashInternalSize erasedDev =
        some (.ok (), env₀) ∧
      runNsEvents steadyRom [.event (.call (.put (some keyA) keyA bulkValue))] env₀ = some env ∧
      r ∈ env.nsList ∧ r.name = keyA ∧ nvdsDelKeysByNamespace steadyRom keyA env = none ∧
      ¬DelKeysRight steadyRom env r := by
  obtain ⟨env₀, env, S, m, r, hinit, hput, hwell, -, hr, hrname, hpos, hless⟩ := exists_bulk_put
  obtain ⟨-, -, hfreed⟩ := hwell.delKeys steadyRom_reliable (by decide) (by decide) hr
  have hnone := hfreed hpos hless
  rw [hrname] at hnone
  refine ⟨env₀, env, r, hinit, ?_, hr, hrname, hnone, ?_⟩
  · rw [runNsEvents, NsEvent.run, hput]
    rfl
  · rintro ⟨uses, env', hrun, -⟩
    rw [hrname, hnone] at hrun
    exact absurd hrun (by simp)

end Gd32.Nvds
