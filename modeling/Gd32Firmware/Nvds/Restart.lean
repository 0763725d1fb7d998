import Gd32Firmware.Nvds.Refinement

/-!
# Loading a storage that is in order

When the storage is initialised again, without a power cut in between, the environment is in order
again and shows the same contents (`Well.reload`). The used pages are the same ones, but
they are listed by the low 31 bits of their sequence numbers; the namespaces have the same names
and indices, but the count of a namespace is the number of its records, fragments included.
-/

namespace Gd32.Nvds

open NorFlash LittleEndian List Function Multiset

variable {ids' : List (CString × ℕ)} {nss : List NamespaceInfo} {K : ℕ → ℕ}

/-! ### The lists of pages -/

theorem perm_listInsert (cmp : ℕ → ℕ → Bool) (x : ℕ) (l : List ℕ) :
    (listInsert cmp x l).Perm (x :: l) := by
  induction l with
  | nil => exact List.Perm.refl _
  | cons y l ih =>
    rw [listInsert]
    split
    · exact List.Perm.refl _
    · exact (ih.cons y).trans (List.Perm.swap x y l)

theorem perm_usedOf (T : Shot) (m : ℕ) :
    (usedOf T m).Perm ((List.range m).filter fun k => (T k).isSome) := by
  induction m with
  | zero => exact List.Perm.refl _
  | succ m ih =>
    rw [usedOf_succ, List.range_succ, filter_append]
    split
    · next h =>
      rw [List.filter_cons_of_pos (by simpa using h), filter_nil]
      exact (perm_listInsert _ _ _).trans ((ih.cons m).trans (perm_append_singleton _ _).symm)
    · next h =>
      rw [List.filter_cons_of_neg (by simpa using h), filter_nil, append_nil]
      exact ih

/-- Every sector is in one of the lists. -/
theorem perm_usedOf_append_freeOf (T : Shot) (n : ℕ) :
    (usedOf T n ++ freeOf T n).Perm (List.range n) := by
  refine ((perm_usedOf T n).append_right _).trans ?_
  have hfree : freeOf T n = (List.range n).filter fun k => !(T k).isSome := by
    rw [freeOf]
    congr 1
    funext k
    cases T k <;> rfl
  rw [hfree]
  exact filter_append_perm _ _

/-- The store with its pages listed as `pages_load` lists them. -/
def Store.reloaded (n : ℕ) (S : Store) : Store := ⟨usedOf S.shot n, freeOf S.shot n, S.page⟩

theorem Store.mem_reloaded {n : ℕ} {S : Store} (hlt : ∀ k ∈ S.used, k < n) {k : ℕ} :
    k ∈ (S.reloaded n).used ↔ k ∈ S.used := by
  rw [Store.reloaded, mem_usedOf, Store.shot]
  constructor
  · rintro ⟨-, hk⟩
    split at hk
    · assumption
    · exact absurd hk (by simp)
  · intro hk
    exact ⟨hlt k hk, by rw [if_pos hk]; rfl⟩

theorem Store.shot_reloaded {n : ℕ} {S : Store} (hlt : ∀ k ∈ S.used, k < n) :
    (S.reloaded n).shot = S.shot := by
  funext k
  simp only [Store.shot, Store.mem_reloaded hlt]
  rfl

/-! ### The names -/

/-- The name and the index in a record that defines a namespace. -/
def Body.nsId (b : Body) : CString × ℕ :=
  (.ofField (Entry.field b.1 8 keyNameMaxSize), ((Entry.val b.1).getD 0 0).toNat)

/-- The names and indices that some records define. -/
def defIds (Λ : Multiset Body) : Multiset (CString × ℕ) :=
  (Λ.filter fun b => Entry.ns b.1 = 0).map Body.nsId

theorem defIds_add (Λ Λ' : Multiset Body) : defIds (Λ + Λ') = defIds Λ + defIds Λ' := by
  rw [defIds, filter_add, map_add, defIds, defIds]

theorem mem_defIds {Λ : Multiset Body} {d : CString × ℕ} :
    d ∈ defIds Λ ↔ ∃ b ∈ Λ, Entry.ns b.1 = 0 ∧ Body.nsId b = d := by
  simp only [defIds, Multiset.mem_map, Multiset.mem_filter, and_assoc]

theorem nsIds_defsOf (rs : List Rec) : (nsIds (defsOf rs) : Multiset _) = defIds (recsLive rs) := by
  induction rs with
  | nil => rfl
  | cons r rs ih =>
    have hone : (nsIds (if r.defines then [r.nsInfo] else []) : Multiset _) =
        defIds (if r.live then {r.body} else 0) := by
      rw [Rec.defines]
      cases r.live with
      | false => rfl
      | true =>
        by_cases h0 : Entry.ns r.hdr = 0
        · have h0' : Entry.ns r.body.1 = 0 := h0
          rw [decide_eq_true h0, Bool.and_self, if_pos rfl, if_pos rfl, defIds,
            Multiset.filter_singleton, if_pos h0']
          rfl
        · have h0' : ¬Entry.ns r.body.1 = 0 := h0
          rw [decide_eq_false h0, Bool.and_false, if_neg (by simp), if_pos rfl, defIds,
            Multiset.filter_singleton, if_neg h0']
          rfl
    rw [defsOf_cons, recsLive_cons, defIds_add, ← hone, ← ih, nsIds, map_append]
    rfl

/-- The records of a key of namespace 0, when they define a namespace. -/
theorem nsId_of_keeps {c : CString} (hc : c.len < keyNameMaxSize) {i : ℕ} (hi : i < 256)
    {B : Multiset Body} (h : Keeps 0 c [UInt8.ofNat i] B) :
    ∃ b, B = {b} ∧ Entry.ns b.1 = 0 ∧ Body.nsId b = (c, i) := by
  cases h with
  | small hpos hle =>
    refine ⟨_, rfl, (inFields_small (by decide) hc hle).ns_eq, ?_⟩
    have hf := inFields_small (show 0 < 256 by decide) hc hle
    refine Prod.ext (CString.ext_bytes hf.key_eq) ?_
    change ((Entry.val (smallEntry 0 c [UInt8.ofNat i])).getD 0 0).toNat = i
    rw [smallEntry, hf.val_eq]
    simp only [smallVal, cons_append, getD_cons_zero]
    rw [UInt8.toNat_ofNat', Nat.mod_eq_of_lt (by omega)]
  | middle hlt _ => simp at hlt
  | bulk hlt _ _ => simp at hlt

section Names

variable {ids : List (CString × ℕ)} {states : ℕ → Bool} {Λ : Multiset Body}

/-- **The names can be read off the records.** -/
theorem Named.ids_eq (h : Named ids states Λ) (hkept : Kept Λ) :
    (ids : Multiset (CString × ℕ)) = defIds Λ := by
  have hlt : ∀ d ∈ ids, d.2 < 256 := by
    intro d hd
    have := (h.range d hd).2.1
    simp only [namespaceMaxCnt] at this
    omega
  have hdef : ∀ d ∈ ids, ∃ b, recsOf Λ 0 d.1 = {b} ∧ Entry.ns b.1 = 0 ∧ Body.nsId b = d :=
    fun d hd => nsId_of_keeps (h.range d hd).2.2 (hlt d hd) (h.defined d hd)
  -- a record of namespace 0 is the one that defines the namespace of its key
  have hof : ∀ b ∈ Λ, Entry.ns b.1 = 0 →
      ∃ d ∈ ids, recsOf Λ 0 d.1 = {b} ∧ Body.nsId b = d := by
    intro b hb h0
    obtain ⟨ns, key, -, -, hhit⟩ := hkept.addressed b hb
    obtain rfl : ns = 0 := (ns_of_hit hhit).1.symm.trans h0
    have hmem : b ∈ recsOf Λ 0 key := Multiset.mem_filter.mpr ⟨hb, hhit⟩
    obtain ⟨d, hd, rfl⟩ := h.only key fun hzero => notMem_zero b (hzero ▸ hmem)
    obtain ⟨b', hrecs, -, hid⟩ := hdef d hd
    rw [hrecs, Multiset.mem_singleton] at hmem
    subst hmem
    exact ⟨d, hd, hrecs, hid⟩
  refine (Multiset.Nodup.ext (coe_nodup.mpr (List.Nodup.of_map _ h.names)) ?_).mpr ?_
  · refine Multiset.Nodup.map_on ?_ (hkept.nodup.filter _)
    intro b hb b' hb' heq
    obtain ⟨hb, h0⟩ := Multiset.mem_filter.mp hb
    obtain ⟨hb', h0'⟩ := Multiset.mem_filter.mp hb'
    obtain ⟨d, -, hrecs, hid⟩ := hof b hb h0
    obtain ⟨d', -, hrecs', hid'⟩ := hof b' hb' h0'
    have hdd : d = d' := hid.symm.trans (heq.trans hid')
    rw [← hdd, hrecs] at hrecs'
    exact singleton_inj.mp hrecs'
  · intro d
    rw [mem_defIds, mem_coe]
    constructor
    · intro hd
      obtain ⟨b, hrecs, h0, hid⟩ := hdef d hd
      have hb : b ∈ recsOf Λ 0 d.1 := by
        rw [hrecs]
        exact Multiset.mem_singleton_self b
      exact ⟨b, mem_of_mem_filter hb, h0, hid⟩
    · rintro ⟨b, hb, h0, rfl⟩
      obtain ⟨d, hd, -, hid⟩ := hof b hb h0
      rwa [hid]

/-- Only the names and the index bits matter, not the order of the names. -/
theorem Named.perm (h : Named ids states Λ) (hp : ids'.Perm ids)
    {states' : ℕ → Bool} (hs : ∀ i, states' i = true ↔ ∃ d ∈ ids', d.2 = i) :
    Named ids' states' Λ := by
  refine ⟨((hp.map _).nodup_iff).mpr h.names, ((hp.map _).nodup_iff).mpr h.indices,
    fun d hd => h.range d (hp.mem_iff.mp hd), fun d hd => h.defined d (hp.mem_iff.mp hd), ?_,
    fun i _ _ => hs i, ?_⟩
  · intro name hname
    obtain ⟨d, hd, hdn⟩ := h.only name hname
    exact ⟨d, hp.mem_iff.mpr hd, hdn⟩
  · intro b hb h0 hnull
    obtain ⟨d, hd, hdn⟩ := h.known b hb h0 hnull
    exact ⟨d, hp.mem_iff.mpr hd, hdn⟩

theorem nsIndex_perm (hnd : (ids.map Prod.fst).Nodup)
    (hp : ids'.Perm ids) (name : Option CString) : nsIndex ids' name = nsIndex ids name := by
  rcases name with _ | c
  · rfl
  · refine Option.ext fun i => ?_
    rw [nsIndex_some hnd, nsIndex_some (((hp.map _).nodup_iff).mpr hnd), hp.mem_iff]

theorem markNs_iff (nss : List NamespaceInfo) (i : ℕ) :
    markNs (fun _ => false) nss i = true ↔ ∃ d ∈ nsIds nss, d.2 = i := by
  have hgen : ∀ (nss : List NamespaceInfo) (s : ℕ → Bool),
      markNs s nss i = true ↔ s i = true ∨ ∃ d ∈ nsIds nss, d.2 = i := by
    intro nss
    induction nss with
    | nil => simp [markNs, nsIds]
    | cons r nss ih =>
      intro s
      have hstep : markNs s (r :: nss) = markNs (update s r.index true) nss := rfl
      rw [hstep, ih]
      simp only [nsIds, List.map_cons, List.mem_cons, exists_eq_or_imp, ← or_assoc]
      refine or_congr_left ?_
      by_cases hi : i = r.index
      · subst hi
        simp
      · rw [update_of_ne hi]
        exact ⟨Or.inl, fun h => h.resolve_right (Ne.symm hi)⟩
  simpa using hgen nss fun _ => false

end Names

/-! ### The namespaces of a shot -/

section Shot

variable {n : ℕ} {T : Shot}

theorem nsIds_countRecs (rs : List Rec) (nss : List NamespaceInfo) :
    nsIds (countRecs rs nss) = nsIds nss := by
  rw [countRecs]
  induction rs.filter Rec.live generalizing nss with
  | nil => rfl
  | cons r rs ih => rw [List.foldl_cons, ih, nsIds_changeNs]

theorem nsIds_countOf (T : Shot) (n : ℕ) : nsIds (countOf T n) = nsIds (nssOf T n) := by
  rw [countOf]
  induction usedOf T n generalizing n with
  | nil => rfl
  | cons k ks ih =>
    have hgen : ∀ (ks : List ℕ) (nss : List NamespaceInfo),
        nsIds (ks.foldl (fun l k => countRecs (recsAt T k) l) nss) = nsIds nss := by
      intro ks
      induction ks with
      | nil => exact fun _ => rfl
      | cons k ks ih => exact fun nss => (ih _).trans (nsIds_countRecs _ _)
    exact hgen _ _

/-- When all pages are searched, the names are the ones of the records in use. -/
theorem nsIds_nssOf (hs : ∀ k < n, ∀ A, T k = some A → A.searched = true) :
    (nsIds (nssOf T n) : Multiset _) = defIds (liveOf n T) := by
  induction n with
  | zero => rfl
  | succ n ih =>
    have hpage : (nsIds (pageDefs (T n)) : Multiset _) = defIds (pageLive (T n)) := by
      rcases hT : T n with _ | A
      · rfl
      · rw [pageDefs, pageLive, if_pos (hs n (by omega) A hT), nsIds_defsOf]
    have hrest := ih fun k hk => hs k (by omega)
    rw [nssOf_succ, liveOf, Finset.sum_range_succ, ← liveOf, defIds_add, ← hrest, ← hpage, nsIds,
      map_append]
    rfl

end Shot

/-! ### The counts of a shot -/

/-- The number of records of a namespace. -/
def recordsIn (Λ : Multiset Body) (i : ℕ) : ℕ := Λ.countP fun b => Entry.ns b.1 = i

/-- The number of fragments in a namespace. -/
def fragsIn (Λ : Multiset Body) (i : ℕ) : ℕ :=
  Λ.countP fun b => Entry.ns b.1 = i ∧ Entry.type b.1 = .bulk

theorem recordsIn_eq (Λ : Multiset Body) (i : ℕ) : recordsIn Λ i = keysIn Λ i + fragsIn Λ i := by
  rw [recordsIn, keysIn, fragsIn]
  induction Λ using Multiset.induction_on with
  | empty => rfl
  | cons b Λ ih =>
    simp only [Multiset.countP_cons, ih]
    by_cases hns : Entry.ns b.1 = i <;> by_cases htype : Entry.type b.1 = .bulk <;>
      simp [hns, htype] <;> omega

section Counts

variable {n : ℕ} {T : Shot}

/-- The records of some pages are counted. -/
theorem Counted.recs (h : Counted 0 nss K)
    (hnd : ((nsIds nss).map Prod.snd).Nodup) {rs : List Rec}
    (hlt : ∀ i, K i + recordsIn (recsLive rs) i < 2 ^ 32) :
    Counted 0 (countRecs rs nss) fun i => K i + recordsIn (recsLive rs) i := by
  have hrec : ∀ r : Rec, ∀ i, recordsIn {r.body} i = if Entry.ns r.hdr = i then 1 else 0 := by
    intro r i
    rw [recordsIn, ← cons_zero, Multiset.countP_cons, countP_zero, zero_add]
    rfl
  have hgen : ∀ (l : List Rec) (nss : List NamespaceInfo) (K : ℕ → ℕ), Counted 0 nss K →
      ((nsIds nss).map Prod.snd).Nodup →
      (∀ i, K i + recordsIn (l.map Rec.body : List Body) i < 2 ^ 32) →
      Counted 0 (l.foldl (fun l r => changeNs (Entry.ns r.hdr) (NamespaceInfo.add 1) l) nss)
        fun i => K i + recordsIn (l.map Rec.body : List Body) i := by
    intro l
    induction l with
    | nil => exact fun nss K h _ _ => h
    | cons r l ih =>
      intro nss K h hnd hlt
      have hcons : ∀ i, recordsIn ((r :: l).map Rec.body : List Body) i =
          (if Entry.ns r.hdr = i then 1 else 0) + recordsIn (l.map Rec.body : List Body) i := by
        intro i
        rw [← hrec, List.map_cons, ← cons_coe, ← singleton_add, recordsIn,
          countP_add]
        rfl
      have hself := hlt (Entry.ns r.hdr)
      rw [hcons, if_pos rfl] at hself
      have hK : ∀ i, update K (Entry.ns r.hdr) (K (Entry.ns r.hdr) + 1) i =
          K i + if Entry.ns r.hdr = i then 1 else 0 := by
        intro i
        by_cases hi : i = Entry.ns r.hdr
        · rw [hi, update_self, if_pos rfl]
        · rw [update_of_ne hi, if_neg (Ne.symm hi), add_zero]
      refine (ih _ _ (h.add hnd (by omega)) (by rwa [nsIds_changeNs]) fun i => ?_).congr fun s _ => ?_
      · have := hlt i
        rw [hcons] at this
        rw [hK]
        omega
      · rw [hcons, hK]
        omega
  exact hgen _ nss K h hnd hlt

/-- The records of a namespace on some pages. -/
theorem Counted.pages (ks : List ℕ)
    (h : Counted 0 nss K) (hnd : ((nsIds nss).map Prod.snd).Nodup)
    (hlt : ∀ i, K i + (ks.map fun k => recordsIn (recsLive (recsAt T k)) i).sum < 2 ^ 32) :
    Counted 0 (ks.foldl (fun l k => countRecs (recsAt T k) l) nss)
      fun i => K i + (ks.map fun k => recordsIn (recsLive (recsAt T k)) i).sum := by
  induction ks generalizing nss K with
  | nil => exact h
  | cons k ks ih =>
    have hbound : ∀ i, K i + recordsIn (recsLive (recsAt T k)) i +
        (ks.map fun k => recordsIn (recsLive (recsAt T k)) i).sum < 2 ^ 32 := by
      intro i
      have := hlt i
      rwa [List.map_cons, List.sum_cons, ← add_assoc] at this
    refine (ih (h.recs hnd fun i => ?_) (by rwa [nsIds_countRecs]) hbound).congr fun s _ => ?_
    · have := hbound i
      omega
    · rw [List.map_cons, List.sum_cons, add_assoc]

/-- The records of a namespace on all pages, when all of them are searched. -/
theorem sum_recordsIn (hs : ∀ k < n, ∀ A, T k = some A → A.searched = true) (i : ℕ) :
    ((usedOf T n).map fun k => recordsIn (recsLive (recsAt T k)) i).sum =
      recordsIn (liveOf n T) i := by
  rw [((perm_usedOf T n).map _).sum_eq]
  induction n with
  | zero => rfl
  | succ n ih =>
    have hpage : (([n].filter fun k => (T k).isSome).map fun k =>
        recordsIn (recsLive (recsAt T k)) i).sum = recordsIn (pageLive (T n)) i := by
      rcases hT : T n with _ | A
      · rw [List.filter_cons_of_neg (by simp [hT])]
        rfl
      · rw [List.filter_cons_of_pos (by simp [hT]), pageLive, if_pos (hs n (by omega) A hT),
          filter_nil, List.map_singleton, List.sum_singleton, recsAt, hT]
    rw [List.range_succ, filter_append, map_append, sum_append,
      ih fun k hk => hs k (by omega), hpage, liveOf, liveOf, Finset.sum_range_succ, recordsIn,
      recordsIn, recordsIn, countP_add]

/-- **The counts after loading** are the numbers of records. -/
theorem counted_countOf (hs : ∀ k < n, ∀ A, T k = some A → A.searched = true)
    (hnd : ((nsIds (nssOf T n)).map Prod.snd).Nodup)
    (hlt : ∀ i, recordsIn (liveOf n T) i < 2 ^ 32) :
    Counted 0 (countOf T n) (recordsIn (liveOf n T)) := by
  have hstart : Counted 0 (nssOf T n) fun _ => 0 := by
    intro r hr
    obtain ⟨k, -, hk⟩ := mem_flatMap.mp hr
    refine ⟨0, le_rfl, ?_⟩
    rcases hT : T k with _ | A
    · rw [hT] at hk
      simp [pageDefs] at hk
    · rw [hT, pageDefs, defsOf] at hk
      obtain ⟨s, -, rfl⟩ := List.mem_map.mp hk
      rfl
  refine (hstart.pages (usedOf T n) hnd fun i => ?_).congr fun r _ => ?_
  · rw [sum_recordsIn hs, zero_add]
    exact hlt i
  · rw [sum_recordsIn hs, zero_add]

end Counts

/-! ### Loading -/

section Reload

variable {n slack : ℕ} {env env' : FlashEnv} {S : Store} {m : Contents}

theorem Neat.used_lt {cut : Prop} {t : Option (ℕ × CString)} (h : Neat n cut t S) :
    ∀ k ∈ S.used, k < n := fun k hk => (h.mem_iff k).mp (by simp [hk])

theorem Neat.searched_shot (h : Neat n False none S) :
    ∀ k < n, ∀ A, S.shot k = some A → A.searched = true := by
  intro k _ A hA
  rw [Store.shot] at hA
  split at hA
  · next hk =>
    rw [← Option.some.inj hA]
    exact (h.calm h.spare k hk).1
  · exact absurd hA (by simp)

/-- Between two calls the pages can be loaded without a change. -/
theorem Well.loadable (h : Well n slack False none env S m) :
    ∀ k < n, ∀ A, S.shot k = some A → A.Loadable := by
  intro k hk A hA
  rw [Store.shot] at hA
  split at hA
  swap
  · exact absurd hA (by simp)
  next hmem =>
  obtain rfl := Option.some.inj hA
  obtain ⟨hs, hclean⟩ := h.neat.calm h.neat.spare k hmem
  refine ⟨h.neat.sound k hmem, fun r hr => ?_⟩
  cases hlive : r.live with
  | false =>
    right
    rcases hclean r hr with (hfresh | hdead) | ⟨d, hd, -⟩
    · rw [hfresh, Rec.live_fresh] at hlive
      exact absurd hlive (by simp)
    · exact hdead
    · exact absurd hd (by simp)
  | true =>
    left
    obtain ⟨c, hc, rfl⟩ := cell_of_rec hmem hs hr
    have hnd := (nodup_append.mp h.neat.nodup_pages).1
    obtain ⟨ns, key, -, -, hhit⟩ := h.kept.addressed _ (body_mem_liveOf hnd h.neat.used_lt hc hlive)
    simp only [elementHit, Bool.and_eq_true, decide_eq_true_eq] at hhit
    exact ⟨hlive, hhit.2⟩

/-- The page record after loading represents the page that was represented before. -/
theorem Reloaded.rep (h : Rep n env S) (hre : Reloaded n S.shot env')
    (hbase : env'.baseAddr = env.baseAddr) (hdev : env'.dev = env.dev) :
    Rep n env' (S.reloaded n) := by
  have hflash : env'.flash = env.flash := by rw [FlashEnv.flash, hdev, FlashEnv.flash]
  have haddr : ∀ k, env'.addr k = env.addr k := fun k => by
    rw [FlashEnv.addr, hbase, FlashEnv.addr]
  have hlt : ∀ k ∈ S.used, k < n := fun k => h.used_lt
  have hperm := perm_usedOf_append_freeOf S.shot n
  refine ⟨hre.geo, hre.used_eq, hre.free_eq, ?_, fun k => ?_, fun k hk => ?_, fun k hk => ?_⟩
  · exact hperm.nodup_iff.mpr nodup_range
  · exact hperm.mem_iff.trans List.mem_range
  · have hk' := (Store.mem_reloaded hlt).mp hk
    have hshot : S.shot k = some (S.page k) := if_pos hk'
    obtain ⟨P, hP, -, hp⟩ := hre.page k (hlt k hk') _ hshot
    obtain ⟨⟨Q, hm, hd, hslots⟩, -⟩ := h.pages k hk'
    have hQ : Holds env'.flash (env'.addr k) Q := by
      rw [hflash, haddr]
      exact hm.holds
    -- both pages are read from the same sector
    have htable : P.table = Q.table := by
      rw [← tableWords_tableBytes hP.length_table, ← tableWords_tableBytes hQ.length_table,
        ← hP.table, ← hQ.table]
    refine ⟨⟨Q, ⟨⟨hQ, ?_, ?_, ?_⟩, ?_⟩, hd, hslots⟩, ?_⟩
    · rw [hp, hd.header]
    · rw [hp, htable]
    · rw [hp]
    · rw [hp, hslots, length_recsSlots]
    · rw [hp]
      rfl
  · obtain ⟨hkn, hnone⟩ := List.mem_filter.mp hk
    rw [List.mem_range] at hkn
    have hnot : k ∉ S.used := by
      intro hu
      rw [Store.shot, if_pos hu] at hnone
      exact absurd hnone (by simp)
    have hfree : k ∈ S.free := by
      rcases mem_append.mp ((h.mem_iff k).mpr hkn) with hu | hf
      · exact absurd hu hnot
      · exact hf
    have hpage := hre.blank k hkn (if_neg hnot)
    refine ⟨by rw [hpage]; rfl, by rw [hpage]; exact mul_comm _ _, ?_⟩
    rw [hflash, haddr]
    exact (h.frees k hfree).holds

theorem Neat.reloaded (h : Neat n False none S) : Neat n False none (S.reloaded n) := by
  have hlt := h.used_lt
  have hmem : ∀ {k}, k ∈ (S.reloaded n).used → k ∈ S.used := (Store.mem_reloaded hlt).mp
  have hperm := perm_usedOf_append_freeOf S.shot n
  have hall : ∀ k, k ∈ S.used ++ S.free ↔ k ∈ (S.reloaded n).used ++ (S.reloaded n).free :=
    fun k => (h.mem_iff k).trans (List.mem_range.symm.trans hperm.mem_iff.symm)
  refine ⟨fun k hk => h.sound k (hmem hk), fun k hk => h.wf k (hmem hk),
    fun k hk => h.size k (hmem hk), ?_, hperm.nodup_iff.mpr nodup_range,
    fun k => hperm.mem_iff.trans List.mem_range, fun hnil => ?_,
    fun _ k hk => h.calm h.spare k (hmem hk)⟩
  · obtain ⟨k, hk⟩ := exists_mem_of_ne_nil _ h.ne
    exact ne_nil_of_mem ((Store.mem_reloaded hlt).mpr hk)
  · -- a free page stays free
    obtain ⟨k, hk⟩ := exists_mem_of_ne_nil _ h.spare
    have hk' := (hall k).mp (mem_append_right _ hk)
    rw [hnil, append_nil] at hk'
    exact (nodup_append.mp h.nodup_pages).2.2 k (hmem hk') k hk rfl

theorem Neat.recordsIn_le (h : Neat n False none S) (i : ℕ) :
    recordsIn (liveOf n S.shot) i ≤ 126 * n := by
  have hnd := (nodup_append.mp h.nodup_pages).1
  have hpages := length_used_add_free h.nodup_pages h.mem_iff
  calc recordsIn (liveOf n S.shot) i ≤ (liveOf n S.shot).card := countP_le_card _ _
    _ ≤ S.cells.length := by
      rw [← coe_live_cells hnd h.used_lt, coe_card, length_map]
      exact length_filter_le _ _
    _ ≤ 126 * S.used.length := length_cells_le h.size
    _ ≤ 126 * n := by omega

variable {rom : NvdsRom} (hrom : rom.Reliable) {slack' : ℕ}
include hrom

/-- **Loading a storage that is in order** gives one that is in order, with the same contents. The
counts are exact up to the fragments. -/
theorem Well.reload (hn : n ≤ 32) (h : Well n slack False none env S m)
    (hfrags : ∀ i ≤ namespaceMaxCnt, fragsIn (liveOf n S.shot) i ≤ slack') :
    ∃ env', nvdsFlashEnvInit rom env.baseAddr (4096 * n) env.dev = some (.ok (), env') ∧
      Well n slack' False none env' (S.reloaded n) m ∧ Reloaded n S.shot env' ∧
      env'.baseAddr = env.baseAddr ∧ env'.dev = env.dev ∧
      (nsIds env'.nsList).Perm (nsIds env.nsList) ∧
      ∀ r ∈ env'.nsList, r.usedCnt = recordsIn (liveOf n S.shot) r.index := by
  have hdev : env.baseAddr + 4096 * n ≤ flashTotalSize := by
    have := h.rep.geo.on_device
    rwa [h.rep.geo.length_eq] at this
  have hsome : ∃ k < n, S.shot k ≠ none := by
    obtain ⟨k, hk⟩ := exists_mem_of_ne_nil _ h.neat.ne
    exact ⟨k, h.neat.used_lt k hk, by rw [Store.shot, if_pos hk]; simp⟩
  obtain ⟨env', hrun, hre, hbase, hd⟩ := pagesLoad_eq hrom hdev h.rep.depicts h.loadable hsome
  have hlive : liveOf n (S.reloaded n).shot = liveOf n S.shot := by
    rw [Store.shot_reloaded h.neat.used_lt]
  have hsearched := h.neat.searched_shot
  have hids : nsIds env'.nsList = nsIds (nssOf S.shot n) := by rw [hre.list_eq, nsIds_countOf]
  have hperm : (nsIds env'.nsList).Perm (nsIds env.nsList) := by
    rw [← coe_eq_coe, hids, nsIds_nssOf hsearched, h.named.ids_eq h.kept]
  have hnd : ((nsIds (nssOf S.shot n)).map Prod.snd).Nodup := by
    rw [← hids]
    exact ((hperm.map _).nodup_iff).mpr h.named.indices
  have hnamed : Named (nsIds env'.nsList) env'.nsStates (liveOf n S.shot) := by
    refine h.named.perm hperm fun i => ?_
    rw [hre.states_eq, markNs_iff, hids]
  have hcount : ∀ r ∈ env'.nsList, r.usedCnt = recordsIn (liveOf n S.shot) r.index := by
    intro r hr
    rw [hre.list_eq] at hr
    obtain ⟨d, hd0, hcnt⟩ := counted_countOf hsearched hnd (fun i => by
      have := h.neat.recordsIn_le i
      omega) r hr
    omega
  refine ⟨env', hrun, ⟨hre.rep h.rep hbase hd, h.neat.reloaded, ?_, ?_, ?_, ?_⟩, hre, hbase, hd,
    hperm, hcount⟩
  · rw [hlive]
    exact h.kept
  · rw [hlive]
    exact hnamed
  · rw [hlive]
    intro r hr
    refine ⟨fragsIn (liveOf n S.shot) r.index, hfrags _ ?_, ?_⟩
    · exact (hnamed.range _ (List.mem_map.mpr ⟨r, hr, rfl⟩)).2.1
    · rw [hcount r hr, recordsIn_eq]
  · rw [hlive]
    have hindex := nsIndex_perm h.named.names hperm
    exact ⟨fun name key hname => h.shown.undefined name key (hindex name ▸ hname),
      fun name i key hi => h.shown.holding name i key (hindex name ▸ hi)⟩

end Reload

end Gd32.Nvds
