import Gd32Firmware.Nvds.Names

/-!
# The entry points

`nvds_data_put`, `nvds_data_get`, `nvds_data_find` and `nvds_data_del` on an environment that is in
order (`Nvds.Well`): what they return, what they make of the contents, and what the flash
holds on the way (`Nvds.Moment`).
-/

namespace Gd32

open List Multiset Option

variable {c : CString}

namespace Nvds

open NorFlash LittleEndian

/-! ### Environments in order -/

/-- A store between two calls. A page is free, unless `cut` holds, and then all used pages are
searched and their records are clean, except for the ones in use of the key `t`, if there is one. -/
structure Neat (n : ℕ) (cut : Prop) (t : Option (ℕ × CString)) (S : Store) : Prop where
  sound : ∀ k ∈ S.used, (S.page k).Sound
  wf : ∀ k ∈ S.used, ∀ r ∈ (S.page k).recs, r.Wf
  size : ∀ k ∈ S.used, recsSize (S.page k).recs ≤ 126
  ne : S.used ≠ []
  nodup_pages : (S.used ++ S.free).Nodup
  mem_iff : ∀ k, k ∈ S.used ++ S.free ↔ k < n
  spare : S.free = [] → cut
  calm : S.free ≠ [] → ∀ k ∈ S.used, (S.page k).searched = true ∧
    ∀ r ∈ (S.page k).recs, r.Clean ∨
      ∃ d, t = some d ∧ r.live = true ∧ elementHit d.1 d.2 .any r.hdr = true

/-- **An environment in order**: it represents a store whose records in use are the ones of the
contents `m`, and its namespaces are the ones they define. -/
structure Well (n slack : ℕ) (cut : Prop) (t : Option (ℕ × CString)) (env : FlashEnv) (S : Store)
    (m : Contents) : Prop where
  rep : Rep n env S
  neat : Neat n cut t S
  kept : Kept (liveOf n S.shot)
  named : Named (nsIds env.nsList) env.nsStates (liveOf n S.shot)
  counted : Counted slack env.nsList (keysIn (liveOf n S.shot))
  shown : Shown (nsIds env.nsList) (liveOf n S.shot) m

section Neat

variable {n ns : ℕ} {cut : Prop} {t : Option (ℕ × CString)} {S : Store} {key : CString}

/-- An operation on a key starts from a tidy store, -/
theorem Neat.tidy_of_nodup (h : Neat n cut t S) (hnd : (liveOf n S.shot).Nodup)
    (ht : t = none ∨ t = some (ns, key)) :
    Tidy n ns key (restOf (liveOf n S.shot) ns key) cut (t = some (ns, key))
      (recsOf (liveOf n S.shot) ns key) S := by
  refine ⟨h.sound, h.wf, h.size, h.ne, h.nodup_pages, h.mem_iff, h.spare, ?_, ?_,
    fun b => not_hit_of_mem_restOf, fun b => hit_of_mem_recsOf, fun hfree k hk => ?_⟩
  · rw [restOf_add_recsOf]
  · rw [restOf_add_recsOf]
    exact hnd
  · refine ⟨(h.calm hfree k hk).1, fun r hr => ?_⟩
    rcases (h.calm hfree k hk).2 r hr with hclean | ⟨d, hd, hlive, hhit⟩
    · exact Or.inl hclean
    · rcases ht with ht | ht
      · exact absurd (ht.symm.trans hd) (by simp)
      · rw [ht] at hd
        obtain rfl := Option.some.inj hd
        exact Or.inr ⟨ht, hlive, hhit⟩

theorem Neat.tidy (h : Neat n cut t S) (hkept : Kept (liveOf n S.shot))
    (ht : t = none ∨ t = some (ns, key)) :
    Tidy n ns key (restOf (liveOf n S.shot) ns key) cut (t = some (ns, key))
      (recsOf (liveOf n S.shot) ns key) S := h.tidy_of_nodup hkept.nodup ht

/-- and ends with one. -/
theorem Tidy.neat {L B : Multiset Body} (h : Tidy n ns key L cut (t = some (ns, key)) B S) :
    Neat n cut t S := by
  refine ⟨h.sound, h.wf, h.size, h.ne, h.nodup_pages, h.mem_iff, h.spare, fun hfree k hk => ?_⟩
  refine ⟨(h.calm hfree k hk).1, fun r hr => ?_⟩
  rcases (h.calm hfree k hk).2 r hr with hclean | ⟨ht, hlive, hhit⟩
  · exact Or.inl hclean
  · exact Or.inr ⟨_, ht, hlive, hhit⟩

/-- There are fewer keys than slots. -/
theorem Neat.keysIn_le (h : Neat n cut t S) (i : ℕ) : keysIn (liveOf n S.shot) i ≤ 126 * n := by
  have hnd := (List.nodup_append.mp h.nodup_pages).1
  have hlt : ∀ k ∈ S.used, k < n := fun k hk => (h.mem_iff k).mp (by simp [hk])
  have hpages := length_used_add_free h.nodup_pages h.mem_iff
  calc keysIn (liveOf n S.shot) i ≤ (liveOf n S.shot).card := countP_le_card _ _
    _ ≤ S.cells.length := by
      rw [← coe_live_cells hnd hlt, coe_card, length_map]
      exact length_filter_le _ _
    _ ≤ 126 * S.used.length := length_cells_le h.size
    _ ≤ 126 * n := by omega

end Neat

/-! ### The index of a namespace -/

theorem nsIndex_nsIds (nss : List NamespaceInfo) (c : CString) :
    nsIndex (nsIds nss) (some c) =
      (nss.find? fun r => decide (r.name = c)).map NamespaceInfo.index := by
  rw [nsIndex, nsIds, List.find?_map, Option.map_map]
  rfl

section Index

variable (rom : NvdsRom) {env : FlashEnv} {name : Option CString}

/-- A namespace that is defined. -/
theorem nsIndexByNamespace_some (hname : ∀ c, name = some c → c.len < keyNameMaxSize) {i : ℕ}
    (hi : nsIndex (nsIds env.nsList) name = some i) (create : Bool) :
    nsIndexByNamespace rom name create env = some (.ok i, env) := by
  rcases name with _ | c
  · rw [nsIndex, Option.some.injEq] at hi
    rw [nsIndexByNamespace, ← hi]
    rfl
  · have hlen : c.len ≤ keyNameMaxSize - 1 := by
      have := hname c rfl
      omega
    rw [nsIndex_nsIds, map_eq_some_iff] at hi
    obtain ⟨r, hr, rfl⟩ := hi
    rw [nsIndexByNamespace, NvdsM.check_bind (by simpa using hlen), NvdsM.get_bind, hr]
    rfl

/-- A namespace that is not defined. -/
theorem nsIndexByNamespace_none (hc : c.len < keyNameMaxSize)
    (hnone : nsIndex (nsIds env.nsList) (some c) = none) (create : Bool) :
    nsIndexByNamespace rom (some c) create env =
      if create then namespaceCreate rom c env else some (.error .notFound, env) := by
  have hlen : c.len ≤ keyNameMaxSize - 1 := by omega
  rw [nsIndex_nsIds, map_eq_none_iff] at hnone
  rw [nsIndexByNamespace, NvdsM.check_bind (by simpa using hlen), NvdsM.get_bind, hnone]
  cases create <;> rfl

end Index

/-! ### Reading -/

/-- What `nvds_data_get` gives for a value, or for none. -/
def getSpec (o : Option (List UInt8)) (buf : Option ℕ) : GetOut :=
  match o, buf with
  | none, _ => ⟨.error .notFound, none, []⟩
  | some v, none => ⟨.ok (), some v.length, []⟩
  | some v, some size =>
    if size < v.length then ⟨.error .invalidLength, some v.length, []⟩
    else ⟨.ok (), some v.length, v⟩

/-- What a caller of `nvds_data_get` gets, an early return included. -/
def getOut : Except NvdsErr GetOut → GetOut
  | .error e => ⟨.error e, none, []⟩
  | .ok out => out

theorem sizeCheck_eq (v : List UInt8) (buf : Option ℕ) :
    sizeCheck buf v.length (some (v, .ok ())) = some (getSpec (some v) buf) := by
  rcases buf with _ | size
  · rfl
  · rw [sizeCheck, getSpec]
    split <;> rfl

section Read

variable {rom : NvdsRom} (hrom : rom.Reliable) {n : ℕ} {env : FlashEnv} {S : Store}
  (hview : View n env S) {m : Contents} (hshown : Shown (nsIds env.nsList) (liveOf n S.shot) m)
  (hrange : ∀ d ∈ nsIds env.nsList, d.2 < 256) {name : Option CString}
  (hname : ∀ c, name = some c → c.len < keyNameMaxSize) {key : CString}
  (hkey : key.len < keyNameMaxSize)
include hrom hview hshown hrange hname hkey

omit hrom hview hshown hname hkey in
theorem nsIndex_lt {i : ℕ} (hi : nsIndex (nsIds env.nsList) name = some i) : i < 256 := by
  rcases name with _ | c
  · rw [nsIndex, Option.some.injEq] at hi
    rw [← hi]
    decide
  · rw [nsIndex, map_eq_some_iff] at hi
    obtain ⟨d, hd, rfl⟩ := hi
    exact hrange d (mem_of_find?_eq_some hd)

/-- **`nvds_data_get`** gives the value that is stored. -/
theorem nvdsDataGet_eq (buf : Option ℕ) :
    ∃ r, nvdsDataGet rom name (some key) buf env = some (r, env) ∧
      getOut r = getSpec (m name key) buf := by
  have hlen : key.len ≤ keyNameMaxSize - 1 := by omega
  have hstart : nvdsDataGet rom name (some key) buf env =
      (nsIndexByNamespace rom name false >>= fun idx =>
        NvdsM.search fun env => (dataElementGet rom env idx key buf).map .ok) env := by
    rw [nvdsDataGet, NvdsM.check_bind (by simpa using hlen)]
  rw [hstart]
  rcases hi : nsIndex (nsIds env.nsList) name with _ | i
  · rcases name with _ | c
    · exact absurd hi (by simp [nsIndex])
    · refine ⟨.error .notFound, ?_, ?_⟩
      · refine NvdsM.bind_error ?_
        rw [nsIndexByNamespace_none rom (hname c rfl) hi]
        rfl
      · rw [hshown.undefined _ key hi hkey]
        rfl
  · have hlt := nsIndex_lt hrange hi
    have hhold := hshown.holding name i key hi hkey
    rw [NvdsM.bind_ok (nsIndexByNamespace_some rom hname hi false)]
    rcases hm : m name key with _ | v
    · rw [hm] at hhold
      refine ⟨.ok (getSpec none buf), NvdsM.search_eq ?_, rfl⟩
      rw [dataElementGet_none hrom hview hhold]
      rfl
    · rw [hm] at hhold
      refine ⟨.ok (getSpec (some v) buf), NvdsM.search_eq ?_, rfl⟩
      rw [dataElementGet_keeps hrom hview hlt hkey hhold, sizeCheck_eq]
      rfl

omit hrange in
/-- **`nvds_data_find`** says whether there is one. -/
theorem nvdsDataFind_eq :
    nvdsDataFind rom name (some key) env =
      some (if m name key = none then .error .notFound else .ok (), env) := by
  have hlen : key.len ≤ keyNameMaxSize - 1 := by omega
  have hstart : nvdsDataFind rom name (some key) env =
      (nsIndexByNamespace rom name false >>= fun idx =>
        NvdsM.search fun env => dataElementFind rom env idx key) env := by
    rw [nvdsDataFind, NvdsM.check_bind (by simpa using hlen)]
  rw [hstart]
  rcases hi : nsIndex (nsIds env.nsList) name with _ | i
  · rcases name with _ | c
    · exact absurd hi (by simp [nsIndex])
    · rw [hshown.undefined _ key hi hkey, if_pos rfl]
      refine NvdsM.bind_error ?_
      rw [nsIndexByNamespace_none rom (hname c rfl) hi]
      rfl
  · have hhold := hshown.holding name i key hi hkey
    rw [NvdsM.bind_ok (nsIndexByNamespace_some rom hname hi false)]
    refine NvdsM.search_eq ?_
    rw [dataElementFind]
    rcases hm : m name key with _ | v
    · rw [hm] at hhold
      rw [elementFind_none hrom hview hhold, if_pos rfl]
      rfl
    · rw [hm] at hhold
      obtain ⟨c, -, -, -, hfind⟩ := elementFind_any hrom hview rfl (Keeps.ne_zero hhold)
      rw [hfind, if_neg (by simp)]
      rfl

end Read

/-! ### Counting -/

section Count

variable {Λ B : Multiset Body} {ns slack : ℕ} {key : CString} {nss : List NamespaceInfo}
  (hns : ns < 256) (hkey : key.len < keyNameMaxSize) (hnd : ((nsIds nss).map Prod.snd).Nodup)
  (hrange : ∀ r ∈ nss, r.index ≤ namespaceMaxCnt)
include hns hkey hnd hrange

/-- The count that stood for the old value is taken back. -/
theorem Counted.takenBack (hst : Stored ns key (recsOf Λ ns key))
    (h : Counted slack nss (keysIn Λ)) (hlt : keysIn Λ ns + slack < 2 ^ 32) :
    Counted slack ((if recsOf Λ ns key = 0 then id else lowerNs ns) nss)
      (keysIn (restOf Λ ns key)) := by
  have hsum : ∀ i, keysIn Λ i = keysIn (restOf Λ ns key) i +
      if i = ns ∧ recsOf Λ ns key ≠ 0 then 1 else 0 := by
    intro i
    rw [← keysIn_stored hst hns hkey i, ← keysIn_add, restOf_add_recsOf]
  split
  · next hzero => exact h.congr fun r _ => by rw [hsum]; simp [hzero]
  · next hne =>
    rcases Nat.lt_or_ge namespaceMaxCnt ns with hnull | hidx
    · -- the namespace without a name has no count
      rw [lowerNs, if_pos hnull]
      refine h.congr fun r hr => ?_
      have := hrange r hr
      rw [hsum, if_neg (fun hc => by have := hc.1; omega)]
      rfl
    · have hpos := hsum ns
      rw [if_pos ⟨rfl, hne⟩] at hpos
      refine (h.lower hnd (by omega) hlt hidx).congr fun r _ => ?_
      by_cases hr : r.index = ns
      · rw [hr, Function.update_self]
        omega
      · rw [Function.update_of_ne hr, hsum, if_neg (fun hc => hr hc.1)]
        rfl

/-- The count of the new value. -/
theorem Counted.given (hst : Stored ns key B) (hB : B ≠ 0) {env : FlashEnv}
    (hnss : env.nsList = nss) (h : Counted slack nss (keysIn Λ))
    (hlt : keysIn Λ ns + slack < 2 ^ 32 - 1) :
    Counted slack (nsAddUsedCnt ns env).nsList (keysIn (Λ + B)) := by
  have hsum : ∀ i, keysIn (Λ + B) i = keysIn Λ i + if i = ns ∧ B ≠ 0 then 1 else 0 := by
    intro i
    rw [keysIn_add, keysIn_stored hst hns hkey]
  subst hnss
  rw [nsAddUsedCnt]
  split
  · next hnull =>
    refine h.congr fun r hr => ?_
    have := hrange r hr
    rw [hsum, if_neg (fun hc => by have := hc.1; omega)]
    rfl
  · refine (h.add hnd hlt).congr fun r _ => ?_
    rw [hsum]
    by_cases hr : r.index = ns
    · rw [hr, Function.update_self, if_pos ⟨rfl, hB⟩]
    · rw [Function.update_of_ne hr, if_neg (fun hc => hr hc.1)]
      rfl

end Count

/-! ### Putting -/

/-- What a put returns and what it leaves: the value, or an error and none. -/
def PutResult (v : List UInt8) (r : Except NvdsErr Unit) (o : Option (List UInt8)) : Prop :=
  (r = .ok () ∧ o = some v) ∨ ((∃ e, r = .error e) ∧ o = none)

theorem nsIds_lowerNs (i : ℕ) (nss : List NamespaceInfo) : nsIds (lowerNs i nss) = nsIds nss := by
  rw [lowerNs]
  split
  · rfl
  · exact nsIds_changeNs _ _ _

theorem nsAddUsedCnt_spec (i : ℕ) (env : FlashEnv) :
    ∃ l, nsAddUsedCnt i env = { env with nsList := l } ∧ nsIds l = nsIds env.nsList := by
  rw [nsAddUsedCnt]
  split
  · exact ⟨env.nsList, rfl, rfl⟩
  · exact ⟨_, rfl, nsIds_changeNs _ _ _⟩

theorem Contents.set_eq_self {m : Contents} {name : Option CString} {key : CString}
    {o : Option (List UInt8)} (h : m name key = o) : m.set name key o = m := by
  rw [Contents.set, ← h, Function.update_eq_self, Function.update_eq_self]

/-- A name and an index that no namespace has. -/
structure NewName (ids : List (CString × ℕ)) (c : CString) (i : ℕ) : Prop where
  undefined : nsIndex ids (some c) = none
  pos : 1 ≤ i
  le : i ≤ namespaceMaxCnt
  unused : ∀ d ∈ ids, d.2 ≠ i

/-- **What the flash holds at some moment of a put or a delete**: the value is being changed, or
the definition of its namespace. -/
inductive Moment (n : ℕ) (ids : List (CString × ℕ)) (Λ : Multiset Body) (name : Option CString)
    (key : CString) (T : Shot) : Prop
  | value {i : ℕ} (hi : nsIndex ids name = some i)
    (h : Stage n i key (restOf Λ i key) (fun _ => True) T)
  | define {c : CString} {W : List UInt8 → Prop} (hc : name = some c)
    (hnone : nsIndex ids (some c) = none)
    (hW : ∀ w, W w → ∃ i, w = [UInt8.ofNat i] ∧ NewName ids c i)
    (h : Stage n 0 c (restOf Λ 0 c) W T)
  | fresh {c : CString} {i : ℕ} {D : Multiset Body} (hc : name = some c) (hnew : NewName ids c i)
    (hD : Keeps 0 c [UInt8.ofNat i] D)
    (h : Stage n i key (restOf (restOf Λ 0 c + D) i key) (fun _ => True) T)
  | undefine {c : CString} {i : ℕ} (hc : name = some c) (hi : nsIndex ids name = some i)
    (hempty : keysIn (restOf Λ i key) i = 0)
    (h : Stage n 0 c (restOf (restOf Λ i key) 0 c) (fun w => w = [UInt8.ofNat i]) T)

section Calls

variable {rom : NvdsRom} (hrom : rom.Reliable) {n slack : ℕ} (hn : n ≤ 32) (hslack : slack < 2 ^ 31)
  {cut : Prop} {t : Option (ℕ × CString)} {env : FlashEnv} {S : Store} {m : Contents}
  {name : Option CString} {i : ℕ} {key : CString} {v : List UInt8}

theorem Well.nsIds_lt (h : Well n slack cut t env S m) : ∀ d ∈ nsIds env.nsList, d.2 < 256 := by
  intro d hd
  have := (h.named.range d hd).2.1
  simp only [namespaceMaxCnt] at this
  omega

theorem Well.index_le (h : Well n slack cut t env S m) :
    ∀ r ∈ env.nsList, r.index ≤ namespaceMaxCnt := fun r hr =>
  (h.named.range (r.name, r.index) (mem_map.mpr ⟨r, hr, rfl⟩)).2.1

include hn hslack in
/-- The counts are far from the end of their type. -/
theorem Well.count_lt (h : Well n slack cut t env S m) (i : ℕ) :
    keysIn (liveOf n S.shot) i + slack < 2 ^ 32 - 1 := by
  have := h.neat.keysIn_le i
  omega

/-- A namespace that is not defined has no definition. -/
theorem Well.recsOf_undefined (h : Well n slack cut t env S m)
    (hnone : nsIndex (nsIds env.nsList) (some c) = none) : recsOf (liveOf n S.shot) 0 c = 0 := by
  by_contra hne
  obtain ⟨d, hd, hdc⟩ := h.named.only c hne
  exact nsIndex_none.mp hnone d hd hdc

theorem Well.tidy_undefined (h : Well n slack cut none env S m)
    (hnone : nsIndex (nsIds env.nsList) (some c) = none) :
    Tidy n 0 c (restOf (liveOf n S.shot) 0 c) cut False 0 S := by
  have htidy := @Neat.tidy n 0 cut none S c h.neat h.kept (Or.inl rfl)
  rw [h.recsOf_undefined hnone] at htidy
  exact htidy.untorn

theorem Tidy.stage_zero {L : Multiset Body} {torn : Prop}
    (h : Tidy n i c L cut torn 0 S) : Stage n i c L (fun _ => False) S.shot := h.stage mine_zero

include hrom hn hslack

/-- **A value is put into a namespace that is defined.** -/
theorem Well.putAt (h : Well n slack cut t env S m)
    (hi : nsIndex (nsIds env.nsList) name = some i) (hkey : key.len < keyNameMaxSize)
    (ht : t = none ∨ t = some (i, key)) (hpos : 0 < v.length) (hle : v.length ≤ 12800) :
    ∃ r env' S' o, (dataElementPut rom i key v >>= fun _ => NvdsM.modify (nsAddUsedCnt i)) env =
        some (r, env') ∧ Well n slack cut t env' S' (m.set name key o) ∧ PutResult v r o ∧
      NoSpaceOnly cut r ∧
      Goes n (Stage n i key (restOf (liveOf n S.shot) i key) fun _ => True) env env' := by
  have hns := (h.named.index_range hi).2
  have hst := h.kept.stored i key hns hkey
  obtain ⟨r, S', B', hdoes, htidy, hout, honly⟩ := (h.neat.tidy h.kept ht).does_dataElementPut hrom
    hns hkey hn hst hpos hle trivial fun _ _ => trivial
  obtain ⟨env₁, hrun, hrep, hgoes, hlist, hstates⟩ := hdoes env h.rep
  have hids : nsIds env₁.nsList = nsIds env.nsList := by
    rw [hlist]
    split
    · rfl
    · exact nsIds_lowerNs _ _
  have hcount : Counted slack env₁.nsList (keysIn (restOf (liveOf n S.shot) i key)) := by
    rw [hlist]
    refine h.counted.takenBack hns hkey h.named.indices h.index_le hst ?_
    have := h.count_lt hn hslack i
    omega
  have hB' : Stored i key B' := by
    rcases hout with ⟨-, hv⟩ | ⟨-, hzero⟩
    · exact Or.inl ⟨v, hv⟩
    · exact Or.inr hzero
  have hnd : (restOf (liveOf n S.shot) i key + B').Nodup := htidy.nodup
  have hkept := h.kept.replaced htidy.hits hns hkey hnd hB'
  have hnamed := h.named.replaced hi htidy.hits
  rcases hout with ⟨rfl, hv⟩ | ⟨⟨e, rfl⟩, hzero⟩
  · -- the value is counted
    obtain ⟨l, hadd, hl⟩ := nsAddUsedCnt_spec i env₁
    have hadded := Counted.given hns hkey (by rw [hids]; exact h.named.indices)
      (fun r hr => by
        have hmem : (r.name, r.index) ∈ nsIds env₁.nsList := mem_map.mpr ⟨r, hr, rfl⟩
        rw [hids] at hmem
        exact (h.named.range _ hmem).2.1)
      hB' (Keeps.ne_zero hv) rfl hcount
      (by
        have h1 := h.count_lt hn hslack i
        have h2 : keysIn (restOf (liveOf n S.shot) i key) i ≤ keysIn (liveOf n S.shot) i :=
          countP_le_of_le _ (filter_le _ _)
        omega)
    rw [hadd] at hadded
    refine ⟨.ok (), { env₁ with nsList := l }, S', some v, ?_, ?_, Or.inl ⟨rfl, rfl⟩, honly, ?_⟩
    · rw [NvdsM.bind_ok hrun, ← hadd]
      rfl
    · refine ⟨hrep.of_names l env₁.nsStates, htidy.neat, ?_, ?_, ?_, ?_⟩
      · rw [htidy.live]
        exact hkept
      · rw [htidy.live]
        simp only [hl, hids, hstates]
        exact hnamed
      · rw [htidy.live]
        exact hadded
      · rw [htidy.live]
        simp only [hl, hids]
        exact h.shown.replaced h.named hi htidy.hits hv
    · refine hgoes.trans (goes_of_dev_eq rfl rfl rfl ?_ hrep.depicts)
      exact htidy.stage (Or.inl ⟨v, trivial, hv⟩)
  · refine ⟨.error e, env₁, S', none, NvdsM.bind_error hrun, ?_,
      Or.inr ⟨⟨e, rfl⟩, rfl⟩, honly, hgoes⟩
    refine ⟨hrep, htidy.neat, ?_, ?_, ?_, ?_⟩
    · rw [htidy.live]
      exact hkept
    · rw [htidy.live, hids, hstates]
      exact hnamed
    · rw [htidy.live, hzero, add_zero]
      exact hcount
    · rw [htidy.live, hids]
      exact h.shown.replaced h.named hi htidy.hits hzero

omit hrom hn hslack in
theorem freeNsIdx_spec {env : FlashEnv} (h : freeNsIdx env ≠ namespaceNullIdx) :
    1 ≤ freeNsIdx env ∧ freeNsIdx env ≤ namespaceMaxCnt ∧
      env.nsStates (freeNsIdx env) = false := by
  rw [freeNsIdx] at h ⊢
  rcases hfind : (List.range' 1 (namespaceNullIdx - 1)).find? fun i => !env.nsStates i with _ | i
  · rw [hfind] at h
    exact absurd rfl h
  · have hfree := List.find?_some hfind
    have hmem := mem_range'_1.mp (mem_of_find?_eq_some hfind)
    simp only [namespaceNullIdx] at hmem
    rw [getD_some]
    refine ⟨hmem.1, ?_, by simpa using hfree⟩
    simp only [namespaceMaxCnt]
    omega

omit hslack in
/-- **A namespace is created.** -/
theorem Well.create (h : Well n slack cut none env S m)
    (hc : c.len < keyNameMaxSize) (hnone : nsIndex (nsIds env.nsList) (some c) = none)
    (key : CString) :
    ∃ r env' S', namespaceCreate rom c env = some (r, env') ∧ Well n slack cut none env' S' m ∧
      Goes n (Moment n (nsIds env.nsList) (liveOf n S.shot) (some c) key) env env' ∧
      ((∃ i D, r = .ok i ∧ NewName (nsIds env.nsList) c i ∧ Keeps 0 c [UInt8.ofNat i] D ∧
          nsIds env'.nsList = nsIds env.nsList ++ [(c, i)] ∧
          liveOf n S'.shot = restOf (liveOf n S.shot) 0 c + D) ∨
        ∃ e, r = .error e ∧ (¬cut → e = .noSpace)) := by
  have hzero := h.recsOf_undefined hnone
  have htidy := h.tidy_undefined hnone
  rw [namespaceCreate]
  by_cases hfull : freeNsIdx env = namespaceNullIdx
  · -- all indices are taken
    refine ⟨.error .noSpace, env, S, ?_, h, ?_, Or.inr ⟨_, rfl, fun _ => rfl⟩⟩
    · rw [NvdsM.get_bind, NvdsM.check_bind_false (by simpa using hfull)]
    · exact goes_of_dev_eq rfl rfl rfl (.define rfl hnone (fun _ hw => hw.elim) htidy.stage_zero)
        h.rep.depicts
  obtain ⟨h1, h2, hnew⟩ := freeNsIdx_spec hfull
  generalize hidx : freeNsIdx env = i at h1 h2 hnew hfull
  have hname : NewName (nsIds env.nsList) c i := by
    refine ⟨hnone, h1, h2, fun d hd hdi => ?_⟩
    have := (h.named.taken i h1 h2).mpr ⟨d, hd, hdi⟩
    rw [hnew] at this
    exact absurd this (by simp)
  obtain ⟨r, S', B', hdoes, htidy', hout, honly⟩ := htidy.does_dataElementPut hrom (by decide) hc hn
    (W := fun w => w = [UInt8.ofNat i]) (Or.inr rfl) (show 0 < [UInt8.ofNat i].length by simp)
    (by simp) rfl fun w hw => absurd rfl hw.ne_zero
  rw [if_pos rfl] at hdoes
  obtain ⟨env₁, hrun, hrep, hgoes, hlist, hstates⟩ := hdoes env h.rep
  have hmoments := hgoes.mono fun T hT => (Moment.define rfl hnone
    (fun w hw => ⟨i, hw, hname⟩) hT : Moment n _ _ (some c) key T)
  have hcount : ∀ r ∈ env.nsList, keysIn (restOf (liveOf n S.shot) 0 c + B') r.index =
      keysIn (liveOf n S.shot) r.index := by
    intro r hr
    have hpos := (h.named.range (r.name, r.index) (mem_map.mpr ⟨r, hr, rfl⟩)).1
    have hst' : Stored 0 c B' := by
      rcases hout with ⟨-, hv⟩ | ⟨-, hz⟩
      · exact Or.inl ⟨_, hv⟩
      · exact Or.inr hz
    rw [keysIn_add, keysIn_stored hst' (by decide) hc, if_neg (fun hx => by omega)]
    conv_rhs => rw [← restOf_add_recsOf (liveOf n S.shot) 0 c, hzero, add_zero]
    rfl
  rcases hout with ⟨rfl, hv⟩ | ⟨⟨e, rfl⟩, rfl⟩
  · refine ⟨.ok i, nsStateSet i true { env₁ with nsList := env₁.nsList ++ [⟨c, i, 0⟩] }, S', ?_, ?_,
      hmoments.trans (goes_of_dev_eq (T := S'.shot) rfl rfl rfl ?_ hrep.depicts),
      Or.inl ⟨i, B', rfl, hname, hv, ?_, htidy'.live⟩⟩
    · rw [NvdsM.get_bind, hidx, NvdsM.check_bind (by simpa using hfull), NvdsM.bind_ok hrun]
      rfl
    · have hids : nsIds (env₁.nsList ++ [⟨c, i, 0⟩]) = nsIds env.nsList ++ [(c, i)] := by
        rw [hlist, nsIds, List.map_append]
        rfl
      refine ⟨hrep.of_names _ _, htidy'.torn_of_false.neat, ?_, ?_, ?_, ?_⟩
      · rw [htidy'.live]
        exact h.kept.replaced htidy'.hits (by decide) hc htidy'.nodup (Or.inl ⟨_, hv⟩)
      · rw [htidy'.live]
        simp only [nsStateSet, hids, hstates]
        exact h.named.added hc hnone h1 h2 hnew hv
      · rw [htidy'.live]
        intro r hr
        simp only [nsStateSet, hlist, id_eq] at hr
        rcases mem_append.mp hr with hr | hr
        · rw [hcount r hr]
          exact h.counted r hr
        · -- the new namespace has no keys
          rw [List.mem_singleton.mp hr]
          refine ⟨0, Nat.zero_le _, ?_⟩
          have hempty : keysIn (restOf (liveOf n S.shot) 0 c + B') i = 0 := by
            rw [keysIn, Multiset.countP_eq_zero]
            rintro b hb ⟨hbi, -⟩
            rcases mem_add.mp hb with hb | hb
            · exact h.named.no_index h1 h2 hnew (mem_of_mem_filter hb) hbi
            · have := (ns_of_hit (htidy'.hits b hb)).1
              omega
          rw [hempty]
      · rw [htidy'.live]
        simp only [nsStateSet, hids]
        exact h.shown.added hc hnone h1 h2 hnew hv h.named
    · exact .define rfl hnone (fun w hw => ⟨i, hw, hname⟩) (htidy'.stage (Or.inl ⟨_, rfl, hv⟩))
    · simp only [nsStateSet, hlist, nsIds, List.map_append]
      rfl
  · have hlive : liveOf n S'.shot = liveOf n S.shot := by
      rw [htidy'.live]
      conv_rhs => rw [← restOf_add_recsOf (liveOf n S.shot) 0 c, hzero]
    refine ⟨.error e, env₁, S', ?_, ⟨hrep, htidy'.torn_of_false.neat, ?_, ?_, ?_, ?_⟩, hmoments,
      Or.inr ⟨e, rfl, fun hcut => honly hcut e rfl⟩⟩
    · rw [NvdsM.get_bind, hidx, NvdsM.check_bind (by simpa using hfull), NvdsM.bind_error hrun]
    · rw [hlive]
      exact h.kept
    · rw [hlive, hlist, hstates]
      exact h.named
    · rw [hlive, hlist]
      exact h.counted
    · rw [hlive, hlist]
      exact h.shown

/-- **`nvds_data_put`.** -/
theorem Well.put (h : Well n slack cut t env S m)
    (hname : ∀ c, name = some c → c.len < keyNameMaxSize) (hkey : key.len < keyNameMaxSize)
    (ht : t = none ∨ ∃ i, nsIndex (nsIds env.nsList) name = some i ∧ t = some (i, key))
    (hpos : 0 < v.length) (hle : v.length ≤ 12800) :
    ∃ r env' S' o, nvdsDataPut rom name (some key) (some v) env = some (r, env') ∧
      Well n slack cut t env' S' (m.set name key o) ∧ PutResult v r o ∧ NoSpaceOnly cut r ∧
      Goes n (Moment n (nsIds env.nsList) (liveOf n S.shot) name key) env env' := by
  have hcheck : decide (0 < v.length ∧ v.length ≤ elementBulkMaxSize ∧
      key.len ≤ keyNameMaxSize - 1) = true := by
    have : elementBulkMaxSize = 12800 := rfl
    rw [decide_eq_true_eq]
    omega
  rw [nvdsDataPut, NvdsM.check_bind hcheck]
  rcases hi : nsIndex (nsIds env.nsList) name with _ | i
  swap
  · have ht' : t = none ∨ t = some (i, key) := by
      rcases ht with ht | ⟨j, hj, ht⟩
      · exact Or.inl ht
      · rw [hi] at hj
        rw [Option.some.inj hj]
        exact Or.inr ht
    obtain ⟨r, env', S', o, hrun, hwell, hres, honly, hgoes⟩ :=
      h.putAt hrom hn hslack hi hkey ht' hpos hle
    refine ⟨r, env', S', o, ?_, hwell, hres, honly, hgoes.mono fun T hT => .value hi hT⟩
    rw [NvdsM.bind_ok (nsIndexByNamespace_some rom hname hi true)]
    exact hrun
  · -- the namespace is created first
    have ht' : t = none := by
      rcases ht with ht | ⟨j, hj, -⟩
      · exact ht
      · rw [hi] at hj
        exact absurd hj (by simp)
    subst ht'
    rcases name with _ | c
    · exact absurd hi (by simp [nsIndex])
    have hnew := nsIndexByNamespace_none rom (hname c rfl) hi true
    obtain ⟨r, env₁, S₁, hrun₁, hwell₁, hgoes₁, hcase⟩ := h.create hrom hn (hname c rfl) hi key
    rw [hrun₁] at hnew
    rcases hcase with ⟨i, D, rfl, hfresh, hD, hids, hlive⟩ | ⟨e, rfl, honly⟩
    · have hi₁ : nsIndex (nsIds env₁.nsList) (some c) = some i := by
        rw [nsIndex_some hwell₁.named.names, hids]
        simp
      obtain ⟨r, env', S', o, hrun, hwell, hres, honly, hgoes⟩ := hwell₁.putAt hrom hn hslack hi₁ hkey
        (Or.inl rfl) hpos hle
      refine ⟨r, env', S', o, ?_, hwell, hres, honly, hgoes₁.trans (hgoes.mono fun T hT => ?_)⟩
      · rw [NvdsM.bind_ok hnew]
        exact hrun
      · rw [hlive] at hT
        exact .fresh rfl hfresh hD hT
    · refine ⟨.error e, env₁, S₁, none, NvdsM.bind_error hnew, ?_,
        Or.inr ⟨⟨e, rfl⟩, rfl⟩, fun hcut e' he => ?_, hgoes₁⟩
      swap
      · obtain rfl := Except.error.inj he
        exact honly hcut
      rw [Contents.set_eq_self (h.shown.undefined _ key hi hkey)]
      exact hwell₁

/-! ### Deleting -/

omit hrom hn hslack in
theorem nsIds_erase {nss : List NamespaceInfo} (hnd : ((nsIds nss).map Prod.snd).Nodup)
    {r : NamespaceInfo} (hr : r ∈ nss) :
    nsIds (nss.erase r) = (nsIds nss).erase (r.name, r.index) := by
  induction nss with
  | nil => simp at hr
  | cons s nss ih =>
    rw [nsIds, List.map_cons, List.map_cons, List.nodup_cons] at hnd
    by_cases hs : s = r
    · subst hs
      rw [List.erase_cons_head, nsIds, nsIds, List.map_cons, List.erase_cons_head]
    · have hmem : r ∈ nss := by
        rcases mem_cons.mp hr with e | hmem
        · exact absurd e.symm hs
        · exact hmem
      have hne : (s.name, s.index) ≠ (r.name, r.index) := by
        intro heq
        refine hnd.1 ?_
        rw [(Prod.mk.inj heq).2, List.map_map]
        exact mem_map.mpr ⟨r, hmem, rfl⟩
      rw [List.erase_cons_tail (by simpa using hs), nsIds, List.map_cons, ← nsIds, ih hnd.2 hmem,
        nsIds, nsIds, List.map_cons, List.erase_cons_tail (by simpa using hne)]

/-- The end of `ns_del_used_cnt`: the record of a namespace whose count has gone down to zero is
removed. -/
def nsDrop (rom : NvdsRom) (idx : ℕ) : NvdsM Unit := do
  let env ← NvdsM.get
  match env.nsList.find? fun ns => decide (ns.index = idx) with
  | none => pure ()
  | some ns =>
    if ns.usedCnt = 0 ∧ idx ≤ namespaceMaxCnt then do
      NvdsM.modify fun env => nsStateSet idx false { env with nsList := env.nsList.erase ns }
      dataElementDel rom 0 ns.name
    else pure ()

omit hrom hn hslack in
theorem nsDelUsedCnt_eq (rom : NvdsRom) (idx : ℕ) :
    nsDelUsedCnt rom idx = (NvdsM.modify (nsLowerUsedCnt idx) >>= fun _ => nsDrop rom idx) := rfl

omit hn hslack in
/-- **The record of a namespace is removed, or stays.** -/
theorem Well.drop (h : Well n slack cut none env S m) (i : ℕ) :
    ∃ env' S', nsDrop rom i env = some (.ok (), env') ∧ Well n slack cut none env' S' m ∧
      ((env' = env ∧ S' = S ∧ ∀ r ∈ env.nsList, r.index = i → r.usedCnt ≠ 0) ∨
        ∃ c, (c, i) ∈ nsIds env.nsList ∧ keysIn (liveOf n S.shot) i = 0 ∧
          nsIds env'.nsList = (nsIds env.nsList).erase (c, i) ∧ env'.nsStates i = false ∧
          recsOf (liveOf n S'.shot) 0 c = 0 ∧
          Goes n (Stage n 0 c (restOf (liveOf n S.shot) 0 c) fun w => w = [UInt8.ofNat i])
            env env') := by
  have hsame : ∀ r ∈ env.nsList, ∀ s ∈ env.nsList, r.index = s.index → r = s := by
    intro r hr s hs he
    refine List.inj_on_of_nodup_map (f := NamespaceInfo.index) ?_ hr hs he
    have := h.named.indices
    rwa [nsIds, List.map_map] at this
  rw [nsDrop, NvdsM.get_bind]
  rcases hfind : env.nsList.find? fun r => decide (r.index = i) with _ | r
  · refine ⟨env, S, by rw [hfind]; rfl, h, Or.inl ⟨rfl, rfl, fun r hr hri => ?_⟩⟩
    exact absurd hri (by simpa using List.find?_eq_none.mp hfind r hr)
  have hri : r.index = i := by simpa using List.find?_some hfind
  have hr := mem_of_find?_eq_some hfind
  have hle := h.index_le r hr
  rw [hri] at hle
  by_cases hcnt : r.usedCnt = 0
  swap
  · refine ⟨env, S, ?_, h, Or.inl ⟨rfl, rfl, fun s hs hsi => ?_⟩⟩
    · rw [hfind]
      simp only [hcnt, false_and, if_false]
      rfl
    · rw [hsame s hs r hr (hsi.trans hri.symm)]
      exact hcnt
  -- the last key has gone
  have hmem : (r.name, i) ∈ nsIds env.nsList := by
    rw [← hri]
    exact mem_map.mpr ⟨r, hr, rfl⟩
  have hzero : keysIn (liveOf n S.shot) i = 0 := by
    obtain ⟨d, -, hd⟩ := h.counted r hr
    rw [hcnt, hri] at hd
    omega
  have hlen := (h.named.range _ hmem).2.2
  have hdef := h.named.defined _ hmem
  have htidy := @Neat.tidy n 0 cut none S r.name h.neat h.kept (Or.inl rfl)
  obtain ⟨S', hdel, htidy'⟩ := htidy.does_dataElementDel hrom (by decide) hlen hdef
    (W := fun w => w = [UInt8.ofNat i]) rfl
  obtain ⟨env', hrun, hrep, hgoes, hlist, hstates⟩ := hdel _
    (h.rep.of_names (env.nsList.erase r) (Function.update env.nsStates i false))
  have hids : nsIds env'.nsList = (nsIds env.nsList).erase (r.name, i) := by
    rw [hlist, id_eq]
    change nsIds (env.nsList.erase r) = _
    rw [nsIds_erase h.named.indices hr, hri]
  refine ⟨env', S', ?_, ⟨hrep, htidy'.neat, ?_, ?_, ?_, ?_⟩,
    Or.inr ⟨r.name, hmem, hzero, hids, ?_, ?_, ?_⟩⟩
  · rw [hfind]
    simp only [hcnt, true_and, if_pos hle]
    exact hrun
  · rw [htidy'.live]
    exact h.kept.replaced htidy'.hits (by decide) hlen htidy'.nodup (Or.inr rfl)
  · rw [htidy'.live, hids, hstates]
    exact h.named.removed hmem h.kept hzero
  · rw [htidy'.live, hlist]
    intro s hs
    have hs' : s ∈ env.nsList := mem_of_mem_erase hs
    have hpos := (h.named.range (s.name, s.index) (mem_map.mpr ⟨s, hs', rfl⟩)).1
    have hsum : keysIn (restOf (liveOf n S.shot) 0 r.name + 0) s.index =
        keysIn (liveOf n S.shot) s.index := by
      conv_rhs => rw [← restOf_add_recsOf (liveOf n S.shot) 0 r.name, keysIn_add,
        keysIn_stored (Or.inl ⟨_, hdef⟩) (by decide) hlen, if_neg (fun hx => by omega)]
      rw [add_zero, add_zero]
    rw [hsum]
    exact h.counted s hs'
  · rw [htidy'.live, hids]
    exact h.shown.removed hmem h.kept hzero h.named
  · rw [hstates]
    exact Function.update_self _ _ _
  · rw [htidy'.live, recsOf_replaced (by simp)]
  · exact ⟨hgoes.base_eq, hgoes.length_eq, hgoes.calls⟩

/-- What becomes of the namespace of a key that has been deleted: its record, its index bit and its
definition go with its last key, as far as the counts are exact. -/
def NsAfter (n slack : ℕ) (env : FlashEnv) (S : Store) (env' : FlashEnv) (S' : Store)
    (name : Option CString) (key : CString) : Prop :=
  ∀ c i, name = some c → nsIndex (nsIds env.nsList) name = some i →
    (keysIn (restOf (liveOf n S.shot) i key) i = 0 ∧
        nsIds env'.nsList = (nsIds env.nsList).erase (c, i) ∧ env'.nsStates i = false ∧
        recsOf (liveOf n S'.shot) 0 c = 0) ∨
      (0 < keysIn (restOf (liveOf n S.shot) i key) i + slack ∧ nsIds env'.nsList = nsIds env.nsList)

/-- A key that has a value is deleted. -/
theorem Well.delAt (h : Well n slack cut none env S m)
    (hi : nsIndex (nsIds env.nsList) name = some i) (hkey : key.len < keyNameMaxSize)
    (hv : Keeps i key v (recsOf (liveOf n S.shot) i key)) :
    ∃ env' S', (do
          dataElementDel rom i key
          let _ ← NvdsM.attempt (nsDelUsedCnt rom i)
          pure () : NvdsM Unit) env = some (.ok (), env') ∧
      Well n slack cut none env' S' (m.set name key none) ∧
      Goes n (Moment n (nsIds env.nsList) (liveOf n S.shot) name key) env env' ∧
      NsAfter n slack env S env' S' name key := by
  have hns := (h.named.index_range hi).2
  obtain ⟨S₁, hdel, htidy⟩ := (@Neat.tidy n i cut none S key h.neat h.kept
    (Or.inl rfl)).does_dataElementDel hrom hns hkey hv (W := fun _ => True) trivial
  obtain ⟨env₁, hrun, hrep, hgoes, hlist, hstates⟩ := hdel env h.rep
  obtain ⟨env₂, hlow, hrep₂, hgoes₂, hlist₂, hstates₂⟩ :=
    does_lower (htidy.stage (W := fun _ => True) mine_zero) i env₁ hrep
  have hnss : env₂.nsList = lowerNs i env.nsList := by
    rw [hlist₂, hlist]
    rfl
  have hids : nsIds env₂.nsList = nsIds env.nsList := by
    rw [hnss]
    exact nsIds_lowerNs _ _
  have hcount := h.count_lt hn hslack i
  have hcounted := h.counted.takenBack hns hkey h.named.indices h.index_le (Or.inl ⟨v, hv⟩)
    (by omega)
  rw [if_neg hv.ne_zero] at hcounted
  have hwell : Well n slack cut none env₂ S₁ (m.set name key none) := by
    refine ⟨hrep₂, htidy.neat, ?_, ?_, ?_, ?_⟩
    · rw [htidy.live]
      exact h.kept.replaced htidy.hits hns hkey htidy.nodup (Or.inr rfl)
    · rw [htidy.live, hids, hstates₂, hstates]
      exact h.named.replaced hi htidy.hits
    · rw [htidy.live, hnss, add_zero]
      exact hcounted
    · rw [htidy.live, hids]
      exact h.shown.replaced h.named hi htidy.hits rfl
  obtain ⟨env', S', hdrop, hwell', hcase⟩ := hwell.drop hrom i
  have hrunAll : (do
        dataElementDel rom i key
        let _ ← NvdsM.attempt (nsDelUsedCnt rom i)
        pure () : NvdsM Unit) env = some (.ok (), env') := by
    rw [NvdsM.bind_ok hrun]
    have hlower : NvdsM.attempt (nsDelUsedCnt rom i) env₁ = some (.ok (.ok ()), env') := by
      refine NvdsM.attempt_eq ?_
      rw [nsDelUsedCnt_eq, NvdsM.bind_ok hlow]
      exact hdrop
    rw [NvdsM.bind_ok hlower]
    rfl
  have hmoment := (hgoes.trans hgoes₂).mono fun T hT =>
    (Moment.value hi hT : Moment n _ _ name key T)
  rw [htidy.live, add_zero, hids] at hcase
  refine ⟨env', S', hrunAll, hwell', ?_, ?_⟩
  · rcases hcase with ⟨rfl, -, -⟩ | ⟨c, hmem, hzero, -, -, -, hgoes'⟩
    · exact hmoment
    · refine hmoment.trans (hgoes'.mono fun T hT => ?_)
      have hc := (nsIndex_some h.named.names).mpr hmem
      exact .undefine (h.named.index_inj hi hc) hi hzero hT
  · intro c j hc hj
    rw [hi] at hj
    obtain rfl := Option.some.inj hj
    rcases hcase with ⟨rfl, -, hcnt⟩ | ⟨c', hmem, hzero, hids', hbit, hrecs, -⟩
    · refine Or.inr ⟨?_, hids⟩
      -- a count that is not zero
      rw [hc, nsIndex_some h.named.names] at hi
      rw [← hids, nsIds] at hi
      obtain ⟨r, hr, hri⟩ := mem_map.mp hi
      have hidx : r.index = i := (Prod.mk.inj hri).2
      obtain ⟨d, hd, hcd⟩ := hwell.counted r hr
      have hne := hcnt r hr hidx
      rw [htidy.live, add_zero, hidx] at hcd
      omega
    · have hc' := (nsIndex_some h.named.names).mpr hmem
      have heq := h.named.index_inj hi hc'
      rw [hc] at heq
      rw [Option.some.inj heq]
      exact Or.inl ⟨hzero, hids', hbit, hrecs⟩

/-- **`nvds_data_del`.** -/
theorem Well.del (h : Well n slack cut none env S m)
    (hname : ∀ c, name = some c → c.len < keyNameMaxSize) (hkey : key.len < keyNameMaxSize) :
    ∃ env' S', nvdsDataDel rom name (some key) env =
        some (if m name key = none then .error .notFound else .ok (), env') ∧
      Well n slack cut none env' S' (m.set name key none) ∧
      Goes n (Moment n (nsIds env.nsList) (liveOf n S.shot) name key) env env' ∧
      (m name key = none → env' = env) ∧
      (m name key ≠ none → NsAfter n slack env S env' S' name key) := by
  have hlen : decide (key.len ≤ keyNameMaxSize - 1) = true := by
    rw [decide_eq_true_eq]
    omega
  rw [nvdsDataDel, NvdsM.check_bind hlen]
  rcases hi : nsIndex (nsIds env.nsList) name with _ | i
  · rcases name with _ | c
    · exact absurd hi (by simp [nsIndex])
    have hm := h.shown.undefined _ key hi hkey
    have hnone := nsIndexByNamespace_none rom (hname c rfl) hi false
    refine ⟨env, S, ?_, ?_, ?_, fun _ => rfl, fun hne => absurd hm hne⟩
    · rw [NvdsM.bind_error hnone, hm, if_pos rfl]
    · rw [Contents.set_eq_self hm]
      exact h
    · exact goes_of_dev_eq rfl rfl rfl (.define rfl hi (fun _ hw => hw.elim)
        (h.tidy_undefined hi).stage_zero) h.rep.depicts
  have hhold := h.shown.holding name i key hi hkey
  rw [NvdsM.bind_ok (nsIndexByNamespace_some rom hname hi false)]
  rcases hm : m name key with _ | v
  · rw [hm] at hhold
    have htidy := @Neat.tidy n i cut none S key h.neat h.kept (Or.inl rfl)
    rw [show recsOf (liveOf n S.shot) i key = 0 from hhold] at htidy
    have hrun : dataElementDel rom i key env = some (.error .notFound, env) :=
      NvdsM.bind_error (NvdsM.search_eq (elementFind_none hrom h.rep.view hhold .any))
    refine ⟨env, S, ?_, ?_, ?_, fun _ => rfl, fun hne => absurd rfl hne⟩
    · rw [NvdsM.bind_error hrun, if_pos rfl]
    · rw [Contents.set_eq_self hm]
      exact h
    · exact goes_of_dev_eq rfl rfl rfl (.value hi (htidy.stage mine_zero)) h.rep.depicts
  · rw [hm] at hhold
    obtain ⟨env', S', hrun, hwell, hgoes, hafter⟩ := h.delAt hrom hn hslack hi hkey hhold
    refine ⟨env', S', ?_, hwell, hgoes, fun hf => absurd hf (by simp), fun _ => hafter⟩
    exact hrun

end Calls

end Nvds

end Gd32
