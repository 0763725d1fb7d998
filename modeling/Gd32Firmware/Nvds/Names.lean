import Gd32Firmware.Nvds.Operations

/-!
# Keys, namespaces and contents

The records in use, seen from above. They are the records of values, key by key
(`Kept`); the ones of namespace 0 define the other namespaces, as the environment has
them (`Named`), and the environment counts the keys of every namespace
(`Counted`). All of it together shows a map from namespaces and keys to values
(`Shown`).

Each of these is proved to survive the two changes there are: the records of one key are replaced,
and a namespace is added or removed.
-/

namespace Gd32.Nvds

open NorFlash LittleEndian List Function Multiset

variable {b : Body} {key' : CString} {type : ElementType} {name' : Option CString}

/-! ### The records of a key -/

/-- The records of a key, among some. -/
def recsOf (Λ : Multiset Body) (ns : ℕ) (key : CString) : Multiset Body :=
  Λ.filter fun b => elementHit ns key .any b.1 = true

/-- The records of the other keys. -/
def restOf (Λ : Multiset Body) (ns : ℕ) (key : CString) : Multiset Body :=
  Λ.filter fun b => ¬elementHit ns key .any b.1 = true

theorem restOf_add_recsOf (Λ : Multiset Body) (ns : ℕ) (key : CString) :
    restOf Λ ns key + recsOf Λ ns key = Λ := by
  rw [add_comm]
  exact filter_add_not _ _

/-- A header found by a search has the namespace and the key of the search. -/
theorem ns_of_hit {ns : ℕ} {key : CString} {e : Entry}
    (h : elementHit ns key type e = true) : Entry.ns e = ns ∧ Entry.key e = key.bytes := by
  simp only [elementHit, Bool.and_eq_true, decide_eq_true_eq] at h
  exact ⟨h.1.1.1.symm, h.1.1.2.symm⟩

theorem hit_unique {ns ns' : ℕ} {key : CString} {type' : ElementType} {e : Entry}
    (h : elementHit ns key type e = true) (h' : elementHit ns' key' type' e = true) :
    ns = ns' ∧ key = key' := by
  obtain ⟨h1, h2⟩ := ns_of_hit h
  obtain ⟨h1', h2'⟩ := ns_of_hit h'
  exact ⟨h1.symm.trans h1', CString.ext_bytes (h2.symm.trans h2')⟩

theorem hit_of_mem_recsOf {Λ : Multiset Body} {ns : ℕ} {key : CString}
    (h : b ∈ recsOf Λ ns key) : elementHit ns key .any b.1 = true := (mem_filter.mp h).2

theorem not_hit_of_mem_restOf {Λ : Multiset Body} {ns : ℕ} {key : CString}
    (h : b ∈ restOf Λ ns key) : elementHit ns key .any b.1 = false :=
  Bool.not_eq_true _ ▸ (mem_filter.mp h).2

/-! ### Records that are the ones of values -/

/-- **The records are the ones of values**, key by key. -/
structure Kept (Λ : Multiset Body) : Prop where
  nodup : Λ.Nodup
  addressed : ∀ b ∈ Λ, ∃ ns key, ns < 256 ∧ key.len < keyNameMaxSize ∧
    elementHit ns key .any b.1 = true
  stored : ∀ ns key, ns < 256 → key.len < keyNameMaxSize → Stored ns key (recsOf Λ ns key)

section Replace

variable {Λ B : Multiset Body} {ns : ℕ} {key : CString}
  (hB : ∀ b ∈ B, elementHit ns key .any b.1 = true)
include hB

/-- The records of one key are replaced: that key, -/
theorem recsOf_replaced : recsOf (restOf Λ ns key + B) ns key = B :=
  filter_own (fun _ => not_hit_of_mem_restOf) hB

/-- and the others. -/
theorem recsOf_replaced_of_ne {ns' : ℕ} (h : ns' ≠ ns ∨ key' ≠ key) :
    recsOf (restOf Λ ns key + B) ns' key' = recsOf Λ ns' key' := by
  have hnot : ∀ b : Body, elementHit ns key .any b.1 = true →
      ¬elementHit ns' key' .any b.1 = true := by
    intro b hb hb'
    obtain ⟨rfl, rfl⟩ := hit_unique hb hb'
    rcases h with h | h <;> exact h rfl
  have hzero : ∀ C : Multiset Body, (∀ b ∈ C, elementHit ns key .any b.1 = true) →
      recsOf C ns' key' = 0 := fun C hC =>
    filter_eq_nil.mpr fun b hb => hnot b (hC b hb)
  conv_rhs => rw [← restOf_add_recsOf Λ ns key]
  rw [recsOf, filter_add, recsOf, filter_add]
  congr 1
  exact (hzero B hB).trans (hzero _ fun b => hit_of_mem_recsOf).symm

theorem Kept.replaced (h : Kept Λ) (hns : ns < 256) (hkey : key.len < keyNameMaxSize)
    (hnd : (restOf Λ ns key + B).Nodup) (hs : Stored ns key B) : Kept (restOf Λ ns key + B) := by
  refine ⟨hnd, ?_, ?_⟩
  · intro b hb
    rcases mem_add.mp hb with hb | hb
    · exact h.addressed b (mem_of_mem_filter hb)
    · exact ⟨ns, key, hns, hkey, hB b hb⟩
  · intro ns' key' hns' hkey'
    by_cases hne : ns' = ns ∧ key' = key
    · obtain ⟨rfl, rfl⟩ := hne
      rw [recsOf_replaced hB]
      exact hs
    · rw [recsOf_replaced_of_ne hB (by tauto)]
      exact h.stored ns' key' hns' hkey'

end Replace

/-! ### Counting the keys of a namespace -/

/-- The number of keys of a namespace: of its records, the ones that are not fragments. -/
def keysIn (Λ : Multiset Body) (i : ℕ) : ℕ :=
  Λ.countP fun b => Entry.ns b.1 = i ∧ Entry.type b.1 ≠ .bulk

/-- A key counts once, whatever its value is. -/
theorem keysIn_stored {B : Multiset Body} {ns : ℕ} {key : CString} (h : Stored ns key B)
    (hns : ns < 256) (hkey : key.len < keyNameMaxSize) (i : ℕ) :
    keysIn B i = if i = ns ∧ B ≠ 0 then 1 else 0 := by
  rcases h with ⟨v, hv⟩ | rfl
  swap
  · simp [keysIn]
  have hhit := hv.hit hns hkey
  have hnsOf : ∀ b ∈ B, Entry.ns b.1 = ns := fun b hb => (ns_of_hit (hhit b hb)).1
  by_cases hi : i = ns
  swap
  · rw [if_neg (fun h => hi h.1), keysIn, Multiset.countP_eq_zero]
    rintro b hb ⟨h, -⟩
    exact hi (h.symm.trans (hnsOf b hb))
  rw [if_pos ⟨hi, hv.ne_zero⟩, hi, keysIn]
  cases hv with
  | small hpos hle =>
    have htype := (fields_small hns hkey hle).1
    rw [← cons_zero, Multiset.countP_cons_of_pos]
    · rw [countP_zero]
    · exact ⟨hnsOf _ (by simp), by rw [htype]; simp⟩
  | middle hlt hle =>
    have htype := (fields_middle hns hkey hle).1
    rw [← cons_zero, Multiset.countP_cons_of_pos]
    · rw [countP_zero]
    · exact ⟨hnsOf _ (by simp), by rw [htype]; simp⟩
  | bulk hlt hle hcuts =>
    have htype := (fields_bulkInfo hns hkey hcuts.count_le hle).1
    rw [Multiset.countP_cons_of_pos]
    · -- the fragments do not count
      rw [Multiset.countP_eq_zero.mpr]
      rintro b hb ⟨-, hne⟩
      exact hne (mem_fragBodies hns hkey (by simpa using hcuts.count_le)
        (by rw [hcuts.sum_eq]; exact hle) (mem_coe.mp hb)).2.2.1
    · exact ⟨hnsOf _ (by simp), by rw [htype]; simp⟩

theorem keysIn_add (Λ Λ' : Multiset Body) (i : ℕ) : keysIn (Λ + Λ') i = keysIn Λ i + keysIn Λ' i :=
  countP_add _ _ _

/-- A namespace without keys has no records. -/
theorem Kept.no_records {Λ : Multiset Body} (h : Kept Λ) {i : ℕ} (hi : keysIn Λ i = 0)
    (hb : b ∈ Λ) : Entry.ns b.1 ≠ i := by
  rintro rfl
  obtain ⟨ns, key, hns, hkey, hhit⟩ := h.addressed b hb
  have hmem : b ∈ recsOf Λ ns key := mem_filter.mpr ⟨hb, hhit⟩
  have hcount := keysIn_stored (h.stored ns key hns hkey) hns hkey (Entry.ns b.1)
  rw [if_pos ⟨(ns_of_hit hhit).1, fun h0 => notMem_zero b (h0 ▸ hmem)⟩] at hcount
  have hsplit := keysIn_add (restOf Λ ns key) (recsOf Λ ns key) (Entry.ns b.1)
  rw [restOf_add_recsOf, hi] at hsplit
  omega

/-! ### The namespaces -/

/-- The names and the indices of the namespaces. -/
def nsIds (nss : List NamespaceInfo) : List (CString × ℕ) := nss.map fun r => (r.name, r.index)

/-- The index of a namespace; the one without a name always has one. -/
def nsIndex (ids : List (CString × ℕ)) : Option CString → Option ℕ
  | none => some namespaceNullIdx
  | some name => (ids.find? fun d => decide (d.1 = name)).map Prod.snd

/-- **The namespaces are the ones that the records of namespace 0 define.** -/
structure Named (ids : List (CString × ℕ)) (states : ℕ → Bool) (Λ : Multiset Body) : Prop where
  names : (ids.map Prod.fst).Nodup
  indices : (ids.map Prod.snd).Nodup
  range : ∀ d ∈ ids, 1 ≤ d.2 ∧ d.2 ≤ namespaceMaxCnt ∧ d.1.len < keyNameMaxSize
  defined : ∀ d ∈ ids, Keeps 0 d.1 [UInt8.ofNat d.2] (recsOf Λ 0 d.1)
  only : ∀ name, recsOf Λ 0 name ≠ 0 → ∃ d ∈ ids, d.1 = name
  taken : ∀ i, 1 ≤ i → i ≤ namespaceMaxCnt → (states i = true ↔ ∃ d ∈ ids, d.2 = i)
  known : ∀ b ∈ Λ, Entry.ns b.1 ≠ 0 → Entry.ns b.1 ≠ namespaceNullIdx →
    ∃ d ∈ ids, d.2 = Entry.ns b.1

/-- The counts of the namespaces, each of them at most `slack` above `K`. -/
def Counted (slack : ℕ) (nss : List NamespaceInfo) (K : ℕ → ℕ) : Prop :=
  ∀ r ∈ nss, ∃ d ≤ slack, r.usedCnt = K r.index + d

/-- What is stored: a value for every namespace and key, or none. -/
abbrev Contents := Option CString → CString → Option (List UInt8)

/-- The records of a key keep its value, if it has one. -/
def Holding (ns : ℕ) (key : CString) : Option (List UInt8) → Multiset Body → Prop
  | none, B => B = 0
  | some v, B => Keeps ns key v B

/-- **The records keep the contents.** -/
structure Shown (ids : List (CString × ℕ)) (Λ : Multiset Body) (m : Contents) : Prop where
  undefined : ∀ name key, nsIndex ids name = none → key.len < keyNameMaxSize → m name key = none
  holding : ∀ name i key, nsIndex ids name = some i → key.len < keyNameMaxSize →
    Holding i key (m name key) (recsOf Λ i key)

/-- The contents with the value of a key replaced. -/
def Contents.set (m : Contents) (name : Option CString) (key : CString)
    (o : Option (List UInt8)) : Contents :=
  update m name (update (m name) key o)

theorem Contents.set_self (m : Contents) (name : Option CString) (key : CString)
    (o : Option (List UInt8)) : m.set name key o name key = o := by
  rw [Contents.set, update_self, update_self]

theorem Contents.set_of_ne (m : Contents) {name : Option CString} {key : CString}
    (h : name' ≠ name ∨ key' ≠ key) (o : Option (List UInt8)) :
    m.set name key o name' key' = m name' key' := by
  by_cases hname : name' = name
  · subst hname
    rw [Contents.set, update_self, update_of_ne (by tauto)]
  · rw [Contents.set, update_of_ne hname]

theorem nsIndex_some {ids : List (CString × ℕ)} (hnd : (ids.map Prod.fst).Nodup)
    {name : CString} {i : ℕ} : nsIndex ids (some name) = some i ↔ (name, i) ∈ ids := by
  rw [nsIndex, Option.map_eq_some_iff]
  constructor
  · rintro ⟨d, hd, rfl⟩
    have hname := List.find?_some hd
    simp only [decide_eq_true_eq] at hname
    rw [← hname]
    exact mem_of_find?_eq_some hd
  · intro hmem
    rcases hfind : ids.find? fun d => decide (d.1 = name) with _ | d
    · have := List.find?_eq_none.mp hfind _ hmem
      simp at this
    · have hname := List.find?_some hfind
      simp only [decide_eq_true_eq] at hname
      have hd := mem_of_find?_eq_some hfind
      refine ⟨d, hfind, ?_⟩
      have heq : d = (name, i) := inj_on_of_nodup_map hnd hd hmem hname
      rw [heq]

theorem nsIndex_none {ids : List (CString × ℕ)} {name : CString} :
    nsIndex ids (some name) = none ↔ ∀ d ∈ ids, d.1 ≠ name := by
  rw [nsIndex, Option.map_eq_none_iff, List.find?_eq_none]
  simp

section Named

variable {ids : List (CString × ℕ)} {states : ℕ → Bool} {Λ B : Multiset Body} {m : Contents}
  {name : Option CString} {i : ℕ} {key : CString}

/-- The indices that are in use. -/
theorem Named.index_range (h : Named ids states Λ) (hi : nsIndex ids name = some i) :
    1 ≤ i ∧ i < 256 := by
  rcases name with _ | name
  · rw [nsIndex, Option.some.injEq] at hi
    rw [← hi]
    decide
  · have := h.range _ ((nsIndex_some h.names).mp hi)
    simp only [namespaceMaxCnt] at this
    omega

/-- Two namespaces have two indices. -/
theorem Named.index_inj (h : Named ids states Λ)
    (hi : nsIndex ids name = some i) (hi' : nsIndex ids name' = some i) : name = name' := by
  have hnull : ∀ c, nsIndex ids (some c) ≠ some namespaceNullIdx := by
    intro c hc
    have := (h.range _ ((nsIndex_some h.names).mp hc)).2.1
    simp only [namespaceMaxCnt, namespaceNullIdx] at this
    omega
  rcases name with _ | c <;> rcases name' with _ | c'
  · rfl
  · rw [← hi] at hi'
    exact absurd hi' (hnull c')
  · rw [← hi'] at hi
    exact absurd hi (hnull c)
  · have h1 := (nsIndex_some h.names).mp hi
    have h2 := (nsIndex_some h.names).mp hi'
    have heq : (c, i) = (c', i) := inj_on_of_nodup_map h.indices h1 h2 rfl
    rw [(Prod.mk.inj heq).1]

/-- The records of a key of a namespace are replaced. -/
theorem Named.replaced (h : Named ids states Λ) (hi : nsIndex ids name = some i)
    (hB : ∀ b ∈ B, elementHit i key .any b.1 = true) : Named ids states (restOf Λ i key + B) := by
  have hpos := (h.index_range hi).1
  have hzero : ∀ c, recsOf (restOf Λ i key + B) 0 c = recsOf Λ 0 c := fun c =>
    recsOf_replaced_of_ne hB (Or.inl (by omega))
  refine ⟨h.names, h.indices, h.range, ?_, ?_, h.taken, ?_⟩
  · intro d hd
    rw [hzero]
    exact h.defined d hd
  · intro c hc
    rw [hzero] at hc
    exact h.only c hc
  · intro b hb h0 hnull
    rcases mem_add.mp hb with hb | hb
    · exact h.known b (mem_of_mem_filter hb) h0 hnull
    · have hns := (ns_of_hit (hB b hb)).1
      rcases name with _ | c
      · rw [nsIndex, Option.some.injEq] at hi
        exact absurd (hns.trans hi.symm) hnull
      · exact ⟨(c, i), (nsIndex_some h.names).mp hi, hns.symm⟩

/-- The contents when the records of a key are replaced. -/
theorem Shown.replaced (h : Shown ids Λ m) (hn : Named ids states Λ)
    (hi : nsIndex ids name = some i) (hB : ∀ b ∈ B, elementHit i key .any b.1 = true)
    {o : Option (List UInt8)} (ho : Holding i key o B) :
    Shown ids (restOf Λ i key + B) (m.set name key o) := by
  refine ⟨fun name' key' hnone hkey' => ?_, fun name' i' key' hi' hkey' => ?_⟩
  · have hne : name' ≠ name := by
      rintro rfl
      rw [hi] at hnone
      exact absurd hnone (by simp)
    rw [m.set_of_ne (Or.inl hne)]
    exact h.undefined name' key' hnone hkey'
  · by_cases hsame : name' = name ∧ key' = key
    · obtain ⟨rfl, rfl⟩ := hsame
      rw [hi] at hi'
      obtain rfl := Option.some.inj hi'
      rw [m.set_self, recsOf_replaced hB]
      exact ho
    · have hne : i' ≠ i ∨ key' ≠ key := by
        by_cases hk : key' = key
        · refine Or.inl ?_
          rintro rfl
          exact hsame ⟨hn.index_inj hi' hi, hk⟩
        · exact Or.inr hk
      rw [m.set_of_ne (by tauto), recsOf_replaced_of_ne hB hne]
      exact h.holding name' i' key' hi' hkey'

/-! ### Adding and removing a namespace -/

/-- No record of a namespace that is not defined. -/
theorem Named.no_index (h : Named ids states Λ) (h1 : 1 ≤ i) (h2 : i ≤ namespaceMaxCnt)
    (hnew : states i = false) (hb : b ∈ Λ) : Entry.ns b.1 ≠ i := by
  rintro rfl
  simp only [namespaceMaxCnt] at h2
  have hmem := h.known b hb (by omega) (by simp only [namespaceNullIdx]; omega)
  rw [← h.taken _ h1 h2, hnew] at hmem
  exact absurd hmem (by simp)

section Add

variable {c : CString} (hc : c.len < keyNameMaxSize) (hnone : nsIndex ids (some c) = none)
  (h1 : 1 ≤ i) (h2 : i ≤ namespaceMaxCnt) (hnew : states i = false)
  (hB : Keeps 0 c [UInt8.ofNat i] B)
include hc hnone h1 h2 hnew hB

/-- **A namespace is added.** -/
theorem Named.added (h : Named ids states Λ) :
    Named (ids ++ [(c, i)]) (update states i true) (restOf Λ 0 c + B) := by
  have hhit := hB.hit (show 0 < 256 by decide) hc
  have hnot := nsIndex_none.mp hnone
  have hfree : ∀ d ∈ ids, d.2 ≠ i := by
    intro d hd hdi
    have := (h.taken i h1 h2).mpr ⟨d, hd, hdi⟩
    rw [hnew] at this
    exact absurd this (by simp)
  refine ⟨?_, ?_, ?_, ?_, ?_, ?_, ?_⟩
  · rw [map_append, nodup_append]
    refine ⟨h.names, by simp, ?_⟩
    rintro a ha b hb rfl
    obtain ⟨d, hd, rfl⟩ := mem_map.mp ha
    exact hnot d hd (by simpa using hb)
  · rw [map_append, nodup_append]
    refine ⟨h.indices, by simp, ?_⟩
    rintro a ha b hb rfl
    obtain ⟨d, hd, rfl⟩ := mem_map.mp ha
    exact hfree d hd (by simpa using hb)
  · intro d hd
    rcases mem_append.mp hd with hd | hd
    · exact h.range d hd
    · rw [List.mem_singleton.mp hd]
      exact ⟨h1, h2, hc⟩
  · intro d hd
    rcases mem_append.mp hd with hd | hd
    · rw [recsOf_replaced_of_ne hhit (Or.inr (hnot d hd))]
      exact h.defined d hd
    · rw [List.mem_singleton.mp hd, recsOf_replaced hhit]
      exact hB
  · intro c' hc'
    by_cases hcc : c' = c
    · exact ⟨(c, i), by simp, hcc.symm⟩
    · rw [recsOf_replaced_of_ne hhit (Or.inr hcc)] at hc'
      obtain ⟨d, hd, hdc⟩ := h.only c' hc'
      exact ⟨d, by simp [hd], hdc⟩
  · intro j hj1 hj2
    by_cases hji : j = i
    · subst hji
      rw [update_self]
      exact ⟨fun _ => ⟨(c, j), by simp, rfl⟩, fun _ => rfl⟩
    · rw [update_of_ne hji, h.taken j hj1 hj2]
      simp [Ne.symm hji]
  · intro b hb h0 hnull
    rcases mem_add.mp hb with hb | hb
    · obtain ⟨d, hd, hdi⟩ := h.known b (mem_of_mem_filter hb) h0 hnull
      exact ⟨d, by simp [hd], hdi⟩
    · exact absurd (ns_of_hit (hhit b hb)).1 h0

/-- A namespace that has been added is empty. -/
theorem Shown.added (h : Shown ids Λ m) (hn : Named ids states Λ) :
    Shown (ids ++ [(c, i)]) (restOf Λ 0 c + B) m := by
  have hhit := hB.hit (show 0 < 256 by decide) hc
  have hn' := hn.added hc hnone h1 h2 hnew hB
  have hindex : ∀ name, nsIndex (ids ++ [(c, i)]) name =
      if name = some c then some i else nsIndex ids name := by
    rintro (_ | c')
    · rfl
    · by_cases hcc : c' = c
      · subst hcc
        rw [if_pos rfl]
        exact (nsIndex_some hn'.names).mpr (by simp)
      · rw [if_neg (by simpa using hcc), nsIndex, nsIndex, List.find?_append]
        simp [Ne.symm hcc]
  refine ⟨fun name key hname hkey => ?_, fun name j key hj hkey => ?_⟩
  · rw [hindex] at hname
    split at hname
    · exact absurd hname (by simp)
    · exact h.undefined name key hname hkey
  · rw [hindex] at hj
    split at hj
    · next hname =>
      subst hname
      obtain rfl := Option.some.inj hj
      rw [recsOf_replaced_of_ne hhit (Or.inl (by omega)), h.undefined _ key hnone hkey, Holding,
        recsOf, filter_eq_nil]
      intro b hb hhit'
      exact hn.no_index h1 h2 hnew hb (ns_of_hit hhit').1
    · rw [recsOf_replaced_of_ne hhit (Or.inl (by have := (hn.index_range hj).1; omega))]
      exact h.holding name j key hj hkey

end Add

section Remove

variable {c : CString} (hmem : (c, i) ∈ ids) (hkept : Kept Λ) (hzero : keysIn Λ i = 0)
include hmem hkept hzero

/-- **A namespace without keys is removed.** -/
theorem Named.removed (h : Named ids states Λ) :
    Named (ids.erase (c, i)) (update states i false) (restOf Λ 0 c + 0) := by
  have hhit : ∀ b ∈ (0 : Multiset Body), elementHit 0 c .any b.1 = true := by simp
  have hsub : ∀ {d}, d ∈ ids.erase (c, i) → d ∈ ids := mem_of_mem_erase
  have hids : ids.Nodup := List.Nodup.of_map _ h.names
  have hother : ∀ d ∈ ids, d ∈ ids.erase (c, i) ∨ d = (c, i) := by
    intro d hd
    by_cases hdc : d = (c, i)
    · exact Or.inr hdc
    · exact Or.inl ((List.mem_erase_of_ne hdc).mpr hd)
  have hne : ∀ d ∈ ids.erase (c, i), d.1 ≠ c ∧ d.2 ≠ i := by
    intro d hd
    have hd' := (hids.mem_erase_iff.mp hd).1
    refine ⟨fun hdc => hd' ?_, fun hdi => hd' ?_⟩
    · exact inj_on_of_nodup_map h.names (hsub hd) hmem hdc
    · exact inj_on_of_nodup_map h.indices (hsub hd) hmem hdi
  refine ⟨?_, ?_, fun d hd => h.range d (hsub hd), ?_, ?_, ?_, ?_⟩
  · exact h.names.sublist ((erase_sublist).map _)
  · exact h.indices.sublist ((erase_sublist).map _)
  · intro d hd
    rw [recsOf_replaced_of_ne hhit (Or.inr (hne d hd).1)]
    exact h.defined d (hsub hd)
  · intro c' hc'
    by_cases hcc : c' = c
    · rw [hcc, recsOf_replaced hhit] at hc'
      exact absurd rfl hc'
    · rw [recsOf_replaced_of_ne hhit (Or.inr hcc)] at hc'
      obtain ⟨d, hd, hdc⟩ := h.only c' hc'
      rcases hother d hd with hd | rfl
      · exact ⟨d, hd, hdc⟩
      · exact absurd hdc.symm hcc
  · intro j hj1 hj2
    by_cases hji : j = i
    · subst hji
      refine ⟨fun hf => absurd hf (by simp), ?_⟩
      rintro ⟨d, hd, hdj⟩
      exact absurd hdj (hne d hd).2
    · rw [update_of_ne hji, h.taken j hj1 hj2]
      constructor
      · rintro ⟨d, hd, hdj⟩
        rcases hother d hd with hd | rfl
        · exact ⟨d, hd, hdj⟩
        · exact absurd hdj.symm hji
      · rintro ⟨d, hd, hdj⟩
        exact ⟨d, hsub hd, hdj⟩
  · intro b hb h0 hnull
    rw [add_zero] at hb
    have hb' := mem_of_mem_filter hb
    obtain ⟨d, hd, hdi⟩ := h.known b hb' h0 hnull
    rcases hother d hd with hd | rfl
    · exact ⟨d, hd, hdi⟩
    · exact absurd hdi.symm (hkept.no_records hzero hb')

/-- The contents do not change. -/
theorem Shown.removed (h : Shown ids Λ m) (hn : Named ids states Λ) :
    Shown (ids.erase (c, i)) (restOf Λ 0 c + 0) m := by
  have hhit : ∀ b ∈ (0 : Multiset Body), elementHit 0 c .any b.1 = true := by simp
  have hn' := hn.removed hmem hkept hzero
  refine ⟨fun name key hname hkey => ?_, fun name j key hj hkey => ?_⟩
  · rcases hold : nsIndex ids name with _ | j
    · exact h.undefined name key hold hkey
    · rcases name with _ | c'
      · exact absurd hname (by simp [nsIndex])
      have hmem' := (nsIndex_some hn.names).mp hold
      by_cases hcc : (c', j) = (c, i)
      · -- the namespace that goes has no keys
        obtain ⟨rfl, rfl⟩ := Prod.mk.inj hcc
        have hhold := h.holding _ j key hold hkey
        have hempty : recsOf Λ j key = 0 := by
          refine filter_eq_nil.mpr fun b hb hb' => ?_
          exact hkept.no_records hzero hb (ns_of_hit hb').1
        rw [hempty] at hhold
        rcases hm : m (some c') key with _ | v
        · rfl
        · rw [hm] at hhold
          exact absurd rfl (Keeps.ne_zero hhold)
      · have := nsIndex_none.mp hname (c', j) ((List.mem_erase_of_ne hcc).mpr hmem')
        exact absurd rfl this
  · have hpos := (hn'.index_range hj).1
    rw [recsOf_replaced_of_ne hhit (Or.inl (by omega))]
    refine h.holding name j key ?_ hkey
    rcases name with _ | c'
    · exact hj
    · exact (nsIndex_some hn.names).mpr
        (mem_of_mem_erase ((nsIndex_some hn'.names).mp hj))

end Remove

end Named

/-! ### The counts -/

theorem nsIds_changeNs (idx k : ℕ) (nss : List NamespaceInfo) :
    nsIds (changeNs idx (NamespaceInfo.add k) nss) = nsIds nss := by
  induction nss with
  | nil => rfl
  | cons r nss ih =>
    rw [changeNs]
    split
    · rfl
    · rw [nsIds, List.map_cons, ← nsIds, ih]
      rfl

/-- With an index of its own for every namespace, one count changes. -/
theorem mem_changeNs {idx k : ℕ} {nss : List NamespaceInfo}
    (hnd : ((nsIds nss).map Prod.snd).Nodup) {r : NamespaceInfo}
    (h : r ∈ changeNs idx (NamespaceInfo.add k) nss) :
    ∃ s ∈ nss, r = if s.index = idx then s.add k else s := by
  induction nss with
  | nil => simp [changeNs] at h
  | cons s nss ih =>
    rw [nsIds, List.map_cons, List.map_cons, List.nodup_cons] at hnd
    rw [changeNs] at h
    split at h
    · next hs =>
      rcases mem_cons.mp h with rfl | h
      · exact ⟨s, by simp, by rw [if_pos hs]⟩
      · refine ⟨r, by simp [h], ?_⟩
        have hne : r.index ≠ idx := by
          rintro rfl
          refine hnd.1 ?_
          rw [hs, List.map_map]
          exact mem_map.mpr ⟨r, h, rfl⟩
        rw [if_neg hne]
    · next hs =>
      rcases mem_cons.mp h with rfl | h
      · exact ⟨r, by simp, by rw [if_neg hs]⟩
      · obtain ⟨t, ht, e⟩ := ih hnd.2 h
        exact ⟨t, by simp [ht], e⟩

section Counts

variable {slack idx : ℕ} {nss : List NamespaceInfo} {K : ℕ → ℕ}

/-- A key more. -/
theorem Counted.add (h : Counted slack nss K) (hnd : ((nsIds nss).map Prod.snd).Nodup)
    (hlt : K idx + slack < 2 ^ 32 - 1) :
    Counted slack (changeNs idx (NamespaceInfo.add 1) nss) (update K idx (K idx + 1)) := by
  intro r hr
  obtain ⟨s, hs, rfl⟩ := mem_changeNs hnd hr
  obtain ⟨d, hd, hcnt⟩ := h s hs
  refine ⟨d, hd, ?_⟩
  split
  · next hidx =>
    subst hidx
    simp only [NamespaceInfo.add, update_self, hcnt]
    omega
  · next hidx => rw [update_of_ne hidx, hcnt]

/-- A key less. -/
theorem Counted.lower (h : Counted slack nss K) (hnd : ((nsIds nss).map Prod.snd).Nodup)
    (hpos : 0 < K idx) (hlt : K idx + slack < 2 ^ 32) (hidx : idx ≤ namespaceMaxCnt) :
    Counted slack (lowerNs idx nss) (update K idx (K idx - 1)) := by
  rw [lowerNs, if_neg (by omega)]
  intro r hr
  obtain ⟨s, hs, rfl⟩ := mem_changeNs hnd hr
  obtain ⟨d, hd, hcnt⟩ := h s hs
  refine ⟨d, hd, ?_⟩
  split
  · next hidx =>
    subst hidx
    simp only [NamespaceInfo.add, update_self, hcnt]
    omega
  · next hidx => rw [update_of_ne hidx, hcnt]

/-- Only the counts of the namespaces there are matter. -/
theorem Counted.congr {K' : ℕ → ℕ} (h : Counted slack nss K) (hK : ∀ r ∈ nss, K' r.index = K r.index) :
    Counted slack nss K' := by
  intro r hr
  rw [hK r hr]
  exact h r hr

end Counts

end Gd32.Nvds
