import Gd32Firmware.Nvds.Runs
import Mathlib.Data.Set.Card

/-!
# The counts of the namespaces

The record of a namespace counts its keys. Calls keep the count exact
(`used_cnt_exact`); a restart counts records instead of keys, and a value in fragments
has one record for each of them (`used_cnt_not_exact`).
-/

namespace Gd32.Nvds

open NorFlash LittleEndian

/-! ### Keys and records -/

/-- The keys of a namespace that `nvds_data_find` finds. -/
def foundKeys (rom : NvdsRom) (env : FlashEnv) (name : CString) : Set CString :=
  {key | nvdsDataFind rom (some name) (some key) env = some (.ok (), env)}

/-- The key of a record. -/
def Body.key (b : Body) : CString := .ofField (Entry.field b.1 8 keyNameMaxSize)

theorem key_of_hit {b : Body} {ns : ℕ} {key : CString} (h : elementHit ns key .any b.1 = true) :
    Body.key b = key := CString.ext_bytes (ns_of_hit h).2

/-- A key that has a value has one record that is not a fragment. -/
theorem Kept.one_record {Λ : Multiset Body} (h : Kept Λ) {i : ℕ} (hi : i < 256) {key : CString}
    (hkey : key.len < keyNameMaxSize) (hne : recsOf Λ i key ≠ 0) :
    ∃ b, (recsOf Λ i key).filter (fun b => Entry.ns b.1 = i ∧ Entry.type b.1 ≠ .bulk) = {b} := by
  have hone := keysIn_stored (h.stored i key hi hkey) hi hkey i
  rw [if_pos ⟨rfl, hne⟩, keysIn, Multiset.countP_eq_card_filter] at hone
  exact Multiset.card_eq_one.mp hone

/-- A record of a namespace is one of its key. -/
theorem Kept.own_key {Λ : Multiset Body} (h : Kept Λ) {b : Body} (hb : b ∈ Λ) :
    (Body.key b).len < keyNameMaxSize ∧ b ∈ recsOf Λ (Entry.ns b.1) (Body.key b) := by
  obtain ⟨ns, key, -, hkey, hhit⟩ := h.addressed b hb
  rw [key_of_hit hhit, (ns_of_hit hhit).1]
  exact ⟨hkey, Multiset.mem_filter.mpr ⟨hb, hhit⟩⟩

/-- The records of a namespace that are not fragments have different keys. -/
theorem Kept.nodup_keys {Λ : Multiset Body} (h : Kept Λ) {i : ℕ} (hi : i < 256) :
    ((Λ.filter fun b => Entry.ns b.1 = i ∧ Entry.type b.1 ≠ .bulk).map Body.key).Nodup := by
  refine Multiset.Nodup.map_on ?_ (h.nodup.filter _)
  intro b hb b' hb' heq
  obtain ⟨hmem, hp⟩ := Multiset.mem_filter.mp hb
  obtain ⟨hmem', hp'⟩ := Multiset.mem_filter.mp hb'
  obtain ⟨hkey, hown⟩ := h.own_key hmem
  obtain ⟨-, hown'⟩ := h.own_key hmem'
  rw [hp.1] at hown
  rw [hp'.1, ← heq] at hown'
  have hne : recsOf Λ i (Body.key b) ≠ 0 := fun hz => Multiset.notMem_zero b (hz ▸ hown)
  obtain ⟨x, hx⟩ := h.one_record hi hkey hne
  have h1 : b ∈ ({x} : Multiset Body) := hx ▸ Multiset.mem_filter.mpr ⟨hown, hp⟩
  have h2 : b' ∈ ({x} : Multiset Body) := hx ▸ Multiset.mem_filter.mpr ⟨hown', hp'⟩
  rw [Multiset.mem_singleton.mp h1, Multiset.mem_singleton.mp h2]

section Count

variable {n slack : ℕ} {env : FlashEnv} {S : Store} {m : Contents}

/-- **The keys of a namespace are counted by its records that are not fragments.** -/
theorem Well.keysIn_eq (h : Well n slack False none env S m) {c : CString} {i : ℕ}
    (hi : nsIndex (nsIds env.nsList) (some c) = some i) :
    keysIn (liveOf n S.shot) i = {key | key.len < keyNameMaxSize ∧ m (some c) key ≠ none}.ncard := by
  set Λ := liveOf n S.shot
  have hlt := (h.named.index_range hi).2
  set F := Λ.filter fun b => Entry.ns b.1 = i ∧ Entry.type b.1 ≠ .bulk with hF
  -- a record that is not a fragment is the one of its key
  have hown : ∀ b ∈ F, (Body.key b).len < keyNameMaxSize ∧ recsOf Λ i (Body.key b) ≠ 0 := by
    intro b hb
    obtain ⟨hmem, hp⟩ := Multiset.mem_filter.mp hb
    obtain ⟨hkey, hmine⟩ := h.kept.own_key hmem
    rw [hp.1] at hmine
    exact ⟨hkey, fun hz => Multiset.notMem_zero b (hz ▸ hmine)⟩
  have hnd : (F.map Body.key).Nodup := h.kept.nodup_keys hlt
  have hset : {key | key.len < keyNameMaxSize ∧ m (some c) key ≠ none} =
      ((F.map Body.key).toFinset : Set CString) := by
    ext key
    simp only [Set.mem_ofPred_eq, Finset.mem_coe, Multiset.mem_toFinset, Multiset.mem_map]
    constructor
    · rintro ⟨hkey, hm⟩
      obtain ⟨v, hv⟩ := Option.ne_none_iff_exists'.mp hm
      have hhold := h.shown.holding _ i key hi hkey
      rw [hv] at hhold
      obtain ⟨b, hb⟩ := h.kept.one_record hlt hkey (Keeps.ne_zero hhold)
      have hmem : b ∈ (recsOf Λ i key).filter
          (fun b => Entry.ns b.1 = i ∧ Entry.type b.1 ≠ .bulk) := by
        rw [hb]
        exact Multiset.mem_singleton_self b
      obtain ⟨hrec, hp⟩ := Multiset.mem_filter.mp hmem
      exact ⟨b, Multiset.mem_filter.mpr ⟨Multiset.mem_of_mem_filter hrec, hp⟩,
        key_of_hit (hit_of_mem_recsOf hrec)⟩
    · rintro ⟨b, hb, rfl⟩
      refine ⟨(hown b hb).1, fun hnone => (hown b hb).2 ?_⟩
      have hhold := h.shown.holding _ i _ hi (hown b hb).1
      rwa [hnone] at hhold
  rw [hset, Set.ncard_coe_finset, Multiset.toFinset_card_of_nodup hnd, Multiset.card_map, keysIn,
    Multiset.countP_eq_card_filter]

/-- The keys that are found are the ones with a value. -/
theorem Well.foundKeys_eq {rom : NvdsRom} (hrom : rom.Reliable)
    (h : Well n slack False none env S m) {c : CString} (hc : c.len < keyNameMaxSize) :
    foundKeys rom env c = {key | key.len < keyNameMaxSize ∧ m (some c) key ≠ none} := by
  ext key
  rw [foundKeys, Set.mem_ofPred_eq, Set.mem_ofPred_eq]
  by_cases hkey : key.len < keyNameMaxSize
  · rw [nvdsDataFind_eq hrom h.rep.view h.shown (fun d hd => Option.some.inj hd ▸ hc) hkey]
    by_cases hm : m (some c) key = none
    · simp [hm]
    · simp [hm, hkey]
  · have hlen : ¬key.len ≤ keyNameMaxSize - 1 := by
      omega
    have hrun : nvdsDataFind rom (some c) (some key) env = some (.error .invalParam, env) :=
      NvdsM.check_bind_false (decide_eq_false hlen) _ _ _
    rw [hrun]
    simp [hkey]

end Count

/-! ### Restarts without fragments -/

/-- No value of a named namespace is in fragments. -/
def Contents.NoBulk (m : Contents) : Prop :=
  ∀ c key v, c.len < keyNameMaxSize → key.len < keyNameMaxSize → m (some c) key = some v →
    v.length ≤ elementMiddleMaxSize

/-- At every restart of a history that starts with the contents `m`, no value of a named namespace
is in fragments. -/
def RestartsTame : Contents → List (Event × Ret) → Prop
  | _, [] => True
  | m, x :: hist => (x.1 = .restart → m.NoBulk) ∧ RestartsTame (m.step x) hist

section Exact

variable {n slack : ℕ} {env : FlashEnv} {S : Store} {m : Contents}

theorem Keeps.no_frags {ns : ℕ} {key : CString} {v : List UInt8} {B : Multiset Body}
    (h : Keeps ns key v B) (hns : ns < 256) (hkey : key.len < keyNameMaxSize)
    (hle : v.length ≤ elementMiddleMaxSize) {b : Body} (hb : b ∈ B) : Entry.type b.1 ≠ .bulk := by
  cases h with
  | small hpos hle =>
    rw [Multiset.mem_singleton.mp hb, (fields_small hns hkey hle).1]
    simp
  | middle hlt hle =>
    rw [Multiset.mem_singleton.mp hb, (fields_middle hns hkey hle).1]
    simp
  | bulk hlt _ _ =>
    simp only [elementMiddleMaxSize] at hle
    omega

/-- Then there are no fragments in any named namespace. -/
theorem Well.no_frags (h : Well n slack False none env S m) (hm : m.NoBulk) {i : ℕ}
    (hi : i ≤ namespaceMaxCnt) : fragsIn (liveOf n S.shot) i = 0 := by
  rw [fragsIn, Multiset.countP_eq_zero]
  rintro b hb ⟨hbi, htype⟩
  obtain ⟨ns, key, hns, hkey, hhit⟩ := h.kept.addressed b hb
  obtain rfl : ns = i := (ns_of_hit hhit).1.symm.trans hbi
  have hmem : b ∈ recsOf (liveOf n S.shot) ns key := Multiset.mem_filter.mpr ⟨hb, hhit⟩
  have hne : recsOf (liveOf n S.shot) ns key ≠ 0 := fun hz => Multiset.notMem_zero b (hz ▸ hmem)
  by_cases h0 : ns = 0
  · -- a definition is small
    subst h0
    obtain ⟨d, hd, rfl⟩ := h.named.only key hne
    exact (h.named.defined d hd).no_frags (by decide) hkey (by simp [elementMiddleMaxSize]) hmem
      htype
  · have hnull : ns ≠ namespaceNullIdx := by
      simp only [namespaceNullIdx, namespaceMaxCnt] at hi ⊢
      omega
    obtain ⟨d, hd, hdi⟩ := h.named.known b hb (by rwa [hbi]) (by rwa [hbi])
    have hidx : nsIndex (nsIds env.nsList) (some d.1) = some ns := by
      rw [nsIndex_some h.named.names, ← hbi, ← hdi]
      exact hd
    have hhold := h.shown.holding _ ns key hidx hkey
    rcases hv : m (some d.1) key with _ | v
    · rw [hv] at hhold
      exact hne hhold
    · rw [hv] at hhold
      exact Keeps.no_frags hhold hns hkey (hm _ key v (h.named.range d hd).2.2 hkey hv) hmem htype

variable {rom : NvdsRom} (hrom : rom.Reliable) (h2 : 2 ≤ n) (hn : n ≤ 32)
include hrom h2 hn

/-- **The counts stay exact** along a history whose restarts are tame. -/
theorem Well.exact (h : Well n 0 False none env S m) {es : List Event} {hist : List (Event × Ret)}
    {env' : FlashEnv} (hrun : runEvents rom es env = some (hist, env')) (ht : RestartsTame m hist) :
    ∃ S', Well n 0 False none env' S' (hist.foldl Contents.step m) := by
  induction es generalizing env S m hist with
  | nil =>
    obtain ⟨rfl, rfl⟩ := Prod.mk.inj (Option.some.inj hrun)
    exact ⟨S, h⟩
  | cons e es ih =>
    rw [runEvents] at hrun
    rcases he : e.run rom env with _ | ⟨ret, env₁⟩
    · rw [he] at hrun
      exact absurd hrun (by simp)
    rw [he] at hrun
    obtain ⟨⟨hist', env''⟩, hrest, hpair⟩ := Option.map_eq_some_iff.mp hrun
    obtain ⟨rfl, rfl⟩ := Prod.mk.inj hpair
    obtain ⟨ret', env₂, S₁, hrun', hwell, -⟩ := h.event hrom hn (by decide) h2 e fun hre i hi =>
      le_of_eq (h.no_frags (ht.1 hre) hi)
    rw [he] at hrun'
    obtain ⟨rfl, rfl⟩ := Prod.mk.inj (Option.some.inj hrun')
    exact ih hwell hrest ht.2

omit h2 hn in
/-- What a delete does to the namespace of its key, when the counts are exact. -/
theorem Well.del_exact (hn : n ≤ 32) (h : Well n 0 False none env S m) {c : CString}
    (hc : c.len < keyNameMaxSize) {key : CString} (hkey : key ∈ foundKeys rom env c) :
    ∃ env' i, nvdsDataDel rom (some c) (some key) env = some (.ok (), env') ∧
      nsIndex (nsIds env.nsList) (some c) = some i ∧
      (foundKeys rom env c = {key} → (∀ r ∈ env'.nsList, r.name ≠ c) ∧ env'.nsStates i = false ∧
        dataElementFind rom env' 0 c = some (.error .notFound)) ∧
      (foundKeys rom env c ≠ {key} → (∃ r ∈ env'.nsList, r.name = c ∧ r.index = i) ∧
        env'.nsStates i = true ∧ dataElementFind rom env' 0 c = some (.ok ())) := by
  have hfound := h.foundKeys_eq hrom hc
  rw [hfound] at hkey
  obtain ⟨hlen, hm⟩ := hkey
  obtain ⟨env', S', hrun, hwell, -, -, hafter⟩ := h.del hrom hn (by decide)
    (fun d hd => Option.some.inj hd ▸ hc) hlen
  rw [if_neg hm] at hrun
  rcases hi : nsIndex (nsIds env.nsList) (some c) with _ | i
  · exact absurd (h.shown.undefined _ key hi hlen) hm
  have hcard := h.keysIn_eq hi
  rw [← hfound] at hcard
  -- the key that goes is one of those that are counted
  have hsum : keysIn (liveOf n S.shot) i = keysIn (restOf (liveOf n S.shot) i key) i + 1 := by
    have hlt := (h.named.index_range hi).2
    have hhold := h.shown.holding _ i key hi hlen
    obtain ⟨v, hv⟩ := Option.ne_none_iff_exists'.mp hm
    rw [hv] at hhold
    have hone := keysIn_stored (h.kept.stored i key hlt hlen) hlt hlen i
    rw [if_pos ⟨rfl, Keeps.ne_zero hhold⟩] at hone
    rw [← hone, ← keysIn_add, restOf_add_recsOf]
  have hmem : key ∈ foundKeys rom env c := by
    rw [hfound]
    exact ⟨hlen, hm⟩
  refine ⟨env', i, hrun, rfl, fun hlast => ?_, fun hmore => ?_⟩
  · rw [hlast, Set.ncard_singleton] at hcard
    rcases hafter hm c i rfl hi with ⟨-, hids, hbit, hrecs⟩ | ⟨hpos, -⟩
    · refine ⟨fun r hr hrc => ?_, hbit, ?_⟩
      · have hr' : (r.name, r.index) ∈ (nsIds env.nsList).erase (c, i) := by
          rw [← hids]
          exact List.mem_map.mpr ⟨r, hr, rfl⟩
        obtain ⟨hne, hold⟩ := (List.Nodup.of_map _ h.named.names).mem_erase_iff.mp hr'
        refine hne (List.inj_on_of_nodup_map h.named.names hold ?_ hrc)
        exact (nsIndex_some h.named.names).mp hi
      · rw [dataElementFind, elementFind_none hrom hwell.rep.view hrecs]
        rfl
    · omega
  · have htwo : keysIn (restOf (liveOf n S.shot) i key) i ≠ 0 := by
      intro hzero
      refine hmore ?_
      rw [hzero, hcard] at hsum
      obtain ⟨x, hx⟩ := Set.ncard_eq_one.mp hsum
      rw [hx, Set.mem_singleton_iff] at hmem
      rw [hx, hmem]
    rcases hafter hm c i rfl hi with ⟨hzero, -⟩ | ⟨-, hids⟩
    · exact absurd hzero htwo
    · have hci : (c, i) ∈ nsIds env'.nsList := by
        rw [hids]
        exact (nsIndex_some h.named.names).mp hi
      obtain ⟨r, hr, hri⟩ := List.mem_map.mp hci
      obtain ⟨hname, hidx⟩ := Prod.mk.inj hri
      have hrange := hwell.named.range _ hci
      refine ⟨⟨r, hr, hname, hidx⟩, (hwell.named.taken i hrange.1 hrange.2.1).mpr ⟨_, hci, rfl⟩, ?_⟩
      obtain ⟨d, -, -, -, hfind⟩ := elementFind_any hrom hwell.rep.view rfl
        (Keeps.ne_zero (hwell.named.defined _ hci))
      rw [dataElementFind, hfind]
      rfl

end Exact

/-- **The counts of the namespaces.** In every run from an erased partition whose restarts happen
while no value of a named namespace is in fragments, the count of a namespace is the number of its
keys; and deleting a key takes the record, the index bit and the definition of its namespace away
exactly if it is the last one. -/
theorem used_cnt_exact {rom : NvdsRom} (hrom : rom.Reliable) {n : ℕ} (h2 : 2 ≤ n) (hn : n ≤ 32)
    {b : ℕ} {dev : Dev} (hdev : b + 4096 * n ≤ flashTotalSize)
    (hblank : Blank dev.flash b (4096 * n)) :
    ∃ env₀, nvdsFlashEnvInit rom b (4096 * n) dev = some (.ok (), env₀) ∧
      ∀ es : List Event, ∃ hist env, runEvents rom es env₀ = some (hist, env) ∧
        (RestartsTame (fun _ _ => none) hist →
          (∀ r ∈ env.nsList, r.usedCnt = (foundKeys rom env r.name).ncard) ∧
          ∀ c key, c.len < keyNameMaxSize → key ∈ foundKeys rom env c →
            ∃ env' i, nvdsDataDel rom (some c) (some key) env = some (.ok (), env') ∧
              nsIndex (nsIds env.nsList) (some c) = some i ∧
              (foundKeys rom env c = {key} →
                (∀ r ∈ env'.nsList, r.name ≠ c) ∧ env'.nsStates i = false ∧
                  dataElementFind rom env' 0 c = some (.error .notFound)) ∧
              (foundKeys rom env c ≠ {key} →
                (∃ r ∈ env'.nsList, r.name = c ∧ r.index = i) ∧ env'.nsStates i = true ∧
                  dataElementFind rom env' 0 c = some (.ok ()))) := by
  obtain ⟨env₀, hinit, hwell₀, -⟩ := init_erased hrom hdev h2 hblank
  refine ⟨env₀, hinit, fun es => ?_⟩
  obtain ⟨hist, env, S, hrun, -, -⟩ := (hwell₀.mono (Nat.zero_le 4032)).events hrom h2 hn es
  refine ⟨hist, env, hrun, fun htame => ?_⟩
  obtain ⟨S', hwell⟩ := hwell₀.exact hrom h2 hn hrun htame
  refine ⟨fun r hr => ?_, fun c key hc hkey => hwell.del_exact hrom hn hc hkey⟩
  have hmem : (r.name, r.index) ∈ nsIds env.nsList := List.mem_map.mpr ⟨r, hr, rfl⟩
  have hi := (nsIndex_some hwell.named.names).mpr hmem
  obtain ⟨d, hd, hcnt⟩ := hwell.counted r hr
  rw [hwell.foundKeys_eq hrom (hwell.named.range _ hmem).2.2, ← hwell.keysIn_eq hi, hcnt]
  omega

/-- A history of a put and a restart. -/
theorem history_put_restart {rom : NvdsRom} {c : Call} {env₀ env : FlashEnv}
    {hist : List (Event × Ret)} (h : runEvents rom [.call c, .restart] env₀ = some (hist, env)) :
    ∃ ret ret', hist = [(.call c, ret), (.restart, ret')] := by
  rw [runEvents] at h
  rcases he : (Event.call c).run rom env₀ with _ | ⟨ret, env₁⟩
  · rw [he] at h
    exact absurd h (by simp)
  rw [he] at h
  obtain ⟨⟨hist', e'⟩, hrest, hpair⟩ := Option.map_eq_some_iff.mp h
  obtain ⟨rfl, -⟩ := Prod.mk.inj hpair
  rw [runEvents] at hrest
  rcases hr : Event.restart.run rom env₁ with _ | ⟨ret', env₂⟩
  · rw [hr] at hrest
    exact absurd hrest (by simp)
  rw [hr] at hrest
  obtain ⟨⟨hist'', e''⟩, hnil, hpair'⟩ := Option.map_eq_some_iff.mp hrest
  obtain ⟨rfl, -⟩ := Prod.mk.inj hpair'
  obtain ⟨rfl, -⟩ := Prod.mk.inj (Option.some.inj hnil)
  exact ⟨ret, ret', rfl⟩

/-- Whatever the put of one byte into an empty storage returns, what is stored has at most one byte. -/
theorem length_le_of_put_byte {ret : Ret} {name : Option CString} {key : CString} {v : List UInt8}
    (hv : Contents.step (fun _ _ => none) (.call (.put (some keyA) keyA [0x2A]), ret) name key =
      some v) : v.length ≤ 1 := by
  simp only [Contents.step] at hv
  split at hv
  · by_cases hkey : name = some keyA ∧ key = keyA
    · obtain ⟨rfl, rfl⟩ := hkey
      rcases ret with (e | u) | o
      · exact absurd (hv.symm.trans (Contents.set_self _ _ _ _)) (by simp)
      · rw [Option.some.inj (hv.symm.trans (Contents.set_self _ _ _ _))]
        decide
      · exact absurd (hv.symm.trans (Contents.set_self _ _ _ _)) (by simp)
    · rw [Contents.after_of_ne] at hv
      · exact absurd hv (by simp)
      · intro htarget
        obtain ⟨h1, h2⟩ := Prod.mk.inj htarget
        exact hkey ⟨h1.symm, h2.symm⟩
  · exact absurd hv (by simp)

/-- A run whose restart is tame: a value of one byte is put into the namespace `a` and the storage
is restarted. -/
theorem used_cnt_exact_keyA :
    ∃ env₀ hist env, nvdsFlashEnvInit steadyRom nvdsFlashInternalAddr nvdsFlashInternalSize
        erasedDev = some (.ok (), env₀) ∧
      runEvents steadyRom [.call (.put (some keyA) keyA [0x2A]), .restart] env₀ =
        some (hist, env) ∧
      ∀ r ∈ env.nsList, r.usedCnt = (foundKeys steadyRom env r.name).ncard := by
  obtain ⟨env₀, hinit, hall⟩ := @used_cnt_exact steadyRom steadyRom_reliable 4 (by decide)
    (by decide) nvdsFlashInternalAddr erasedDev (by decide) fun _ _ _ => rfl
  obtain ⟨hist, env, hrun, hexact⟩ := hall [.call (.put (some keyA) keyA [0x2A]), .restart]
  refine ⟨env₀, hist, env, hinit, hrun, (hexact ?_).1⟩
  obtain ⟨ret, ret', rfl⟩ := history_put_restart hrun
  refine ⟨fun h => absurd h (by simp), fun _ c key v _ _ hv => ?_, trivial⟩
  exact (length_le_of_put_byte hv).trans (by decide)

/-- A value of 257 bytes. -/
def bulkValue : List UInt8 := List.replicate 257 0

set_option maxRecDepth 100000 in
theorem put_bulkValue :
    (match nvdsFlashEnvInit steadyRom nvdsFlashInternalAddr nvdsFlashInternalSize erasedDev with
      | some (.ok (), env) =>
        match nvdsDataPut steadyRom (some keyA) (some keyA) (some bulkValue) env with
        | some (.ok (), _) => true
        | _ => false
      | _ => false) = true := by
  decide +kernel

/-- A value of more than 256 bytes has a fragment. -/
theorem Keeps.frag {ns : ℕ} {key : CString} {v : List UInt8} {B : Multiset Body}
    (h : Keeps ns key v B) (hns : ns < 256) (hkey : key.len < keyNameMaxSize)
    (hlt : 256 < v.length) : ∃ b ∈ B, Entry.type b.1 = .bulk := by
  cases h with
  | small _ hle => omega
  | middle _ hle => omega
  | @bulk lens _ hle hcuts =>
    have hlens : lens ≠ [] := by
      rintro rfl
      have := hcuts.sum_eq
      simp only [List.sum_nil] at this
      omega
    obtain ⟨l, lens, rfl⟩ := List.exists_cons_of_ne_nil hlens
    have hmem : (bulkEntry ns key v 0 l, slotsOf (v.take l)) ∈
        fragBodies ns key v 0 v (l :: lens) := by
      exact List.mem_cons_self
    exact ⟨_, Multiset.mem_cons_of_mem (Multiset.mem_coe.mpr hmem),
      (mem_fragBodies hns hkey (by simpa using hcuts.count_le) (by rw [hcuts.sum_eq]; exact hle)
        hmem).2.2.1⟩

/-- A value of 257 bytes put into the empty namespace `a`: its record counts one key, and there are
more records. -/
theorem exists_bulk_put :
    ∃ env₀ env S m r, nvdsFlashEnvInit steadyRom nvdsFlashInternalAddr nvdsFlashInternalSize
        erasedDev = some (.ok (), env₀) ∧
      (Event.call (.put (some keyA) keyA bulkValue)).run steadyRom env₀ =
        some (.code (.ok ()), env) ∧
      Well 4 0 False none env S m ∧ m (some keyA) keyA = some bulkValue ∧ r ∈ env.nsList ∧
      r.name = keyA ∧ 0 < r.usedCnt ∧ r.usedCnt < recordsIn (liveOf 4 S.shot) r.index := by
  have hkey : keyA.len < keyNameMaxSize := by decide
  have hname : NameOk (some keyA) := fun c hc => Option.some.inj hc ▸ hkey
  have hlen : bulkValue.length = 257 := List.length_replicate
  obtain ⟨env₀, hinit, hwell, -⟩ := @init_erased steadyRom steadyRom_reliable 4
    nvdsFlashInternalAddr erasedDev (by decide) (by decide) fun _ _ _ => rfl
  obtain ⟨r, env, S, o, hput, hwell₁, hres, -, -⟩ := hwell.put steadyRom_reliable (by decide)
    (by decide) hname hkey (Or.inl rfl) (show 0 < bulkValue.length by omega) (by omega)
  -- the put succeeds
  have hok : r = .ok () ∧ o = some bulkValue := by
    rcases hres with hres | ⟨⟨e, rfl⟩, -⟩
    · exact hres
    · have heval := put_bulkValue
      rw [show nvdsFlashEnvInit steadyRom nvdsFlashInternalAddr nvdsFlashInternalSize erasedDev =
        some (.ok (), env₀) from hinit] at heval
      simp only [hput] at heval
      exact absurd heval (by simp)
  obtain ⟨rfl, rfl⟩ := hok
  have hm : (Contents.set (fun _ _ => none) (some keyA) keyA (some bulkValue)) (some keyA) keyA =
      some bulkValue := Contents.set_self _ _ _ _
  rcases hi : nsIndex (nsIds env.nsList) (some keyA) with _ | i
  · rw [hwell₁.shown.undefined _ keyA hi hkey] at hm
    exact absurd hm (by simp)
  obtain ⟨r, hr, hri⟩ := List.mem_map.mp ((nsIndex_some hwell₁.named.names).mp hi)
  obtain ⟨hrname, hridx⟩ := Prod.mk.inj hri
  have hhold := hwell₁.shown.holding _ i keyA hi hkey
  have hlt := (hwell₁.named.index_range hi).2
  -- the fragments are records as well
  have hfrag : fragsIn (liveOf 4 S.shot) i ≠ 0 := by
    rw [fragsIn, Ne, Multiset.countP_eq_zero]
    intro hnone
    obtain ⟨b, hb, htype⟩ := Keeps.frag hhold hlt hkey (by omega)
    exact hnone b (Multiset.mem_of_mem_filter hb) ⟨(ns_of_hit (hit_of_mem_recsOf hb)).1, htype⟩
  have hone : 0 < keysIn (liveOf 4 S.shot) i := by
    have hsplit := keysIn_add (restOf (liveOf 4 S.shot) i keyA) (recsOf (liveOf 4 S.shot) i keyA) i
    rw [restOf_add_recsOf, keysIn_stored (Or.inl ⟨_, hhold⟩) hlt hkey,
      if_pos ⟨rfl, Keeps.ne_zero hhold⟩] at hsplit
    omega
  obtain ⟨d, hd, hcnt⟩ := hwell₁.counted r hr
  have heq := recordsIn_eq (liveOf 4 S.shot) i
  rw [hridx] at hcnt
  refine ⟨env₀, env, S, _, r, hinit, ?_, hwell₁, hm, hr, hrname, by omega, ?_⟩
  · rw [Event.run, Call.run, hput]
    rfl
  · rw [hridx]
    omega

/-- **A restart counts fragments.** After a value of 257 bytes has been put into an empty
namespace and the storage has been restarted, the namespace has one key and its count is larger. -/
theorem used_cnt_not_exact :
    ∃ env₀ hist env r, nvdsFlashEnvInit steadyRom nvdsFlashInternalAddr nvdsFlashInternalSize
        erasedDev = some (.ok (), env₀) ∧
      runEvents steadyRom [.call (.put (some keyA) keyA bulkValue), .restart] env₀ =
        some (hist, env) ∧
      r ∈ env.nsList ∧ r.usedCnt ≠ (foundKeys steadyRom env r.name).ncard := by
  obtain ⟨env₀, env₁, S₁, m, r, hinit, hput, hwell₁, -, hr, hrname, -, hless⟩ := exists_bulk_put
  have hfew : ∀ i ≤ namespaceMaxCnt, fragsIn (liveOf 4 S₁.shot) i ≤ 504 := by
    intro i _
    have hle := hwell₁.neat.recordsIn_le i
    have heq := recordsIn_eq (liveOf 4 S₁.shot) i
    omega
  obtain ⟨env₂, hload, hwell₂, -, -, -, hids, hcnt⟩ :=
    hwell₁.reload steadyRom_reliable (by decide) hfew
  have hmem : (r.name, r.index) ∈ nsIds env₂.nsList :=
    hids.mem_iff.mpr (List.mem_map.mpr ⟨r, hr, rfl⟩)
  obtain ⟨s, hs, hsr⟩ := List.mem_map.mp hmem
  obtain ⟨hsname, hsidx⟩ := Prod.mk.inj hsr
  refine ⟨env₀, [(.call (.put (some keyA) keyA bulkValue), .code (.ok ())),
    (.restart, .code (.ok ()))], env₂, s, hinit, ?_, hs, ?_⟩
  · have hsecond : Event.restart.run steadyRom env₁ = some (.code (.ok ()), env₂) := by
      rw [Event.run, hwell₁.rep.geo.length_eq, hload]
      rfl
    rw [runEvents, hput]
    simp only
    rw [runEvents, hsecond]
    rfl
  · -- the record counted the key, and now it counts all records
    have hshot : liveOf 4 (S₁.reloaded 4).shot = liveOf 4 S₁.shot := by
      rw [Store.shot_reloaded hwell₁.neat.used_lt]
    have hkeys := hwell₂.keysIn_eq ((nsIndex_some hwell₂.named.names).mpr hmem)
    have hkey : r.name.len < keyNameMaxSize := (hwell₂.named.range _ hmem).2.2
    rw [hshot, ← hwell₂.foundKeys_eq steadyRom_reliable hkey] at hkeys
    have hcount := hcnt s hs
    obtain ⟨d, hd, hcnt₁⟩ := hwell₁.counted r hr
    rw [hsname]
    rw [hsidx] at hcount
    omega

end Gd32.Nvds
