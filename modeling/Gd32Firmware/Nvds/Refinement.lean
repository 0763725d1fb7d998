import Gd32Firmware.Nvds.Reload

/-!
# The storage refines a map

From an erased partition on, whatever is called: reading a key gives the value of the last put of
it that succeeded, unless it has been deleted since or a later put of it has failed
(`Nvds.reads_last_put`). The contents follow the return codes of the calls alone
(`Nvds.contentsAfter`), so an operation on one key is never seen through another one, however
many pages it turns over.
-/

namespace Gd32

open List

variable {env : FlashEnv} {S : Store} {m : Contents}

namespace Nvds

open NorFlash LittleEndian

/-! ### Calls -/

/-- A call of the storage. A namespace is a name, or `none` for the null pointer. -/
inductive Call where
  /-- `nvds_data_put`. -/
  | put (name : Option CString) (key : CString) (value : List UInt8)
  /-- `nvds_data_get`, with the size of the buffer, if there is one. -/
  | get (name : Option CString) (key : CString) (buf : Option ℕ)
  /-- `nvds_data_find`. -/
  | find (name : Option CString) (key : CString)
  /-- `nvds_data_del`. -/
  | del (name : Option CString) (key : CString)

/-- What a call returns: a code, and for a read what it hands out. -/
inductive Ret where
  | code (r : Except NvdsErr Unit)
  | out (o : GetOut)

/-- A namespace name of at most 15 bytes, or none. -/
def NameOk (name : Option CString) : Prop := ∀ c, name = some c → c.len < keyNameMaxSize

/-- Names and keys of at most 15 bytes, values of 1 to 12800. -/
def Call.Valid : Call → Prop
  | .put name key v => NameOk name ∧ key.len < keyNameMaxSize ∧ 0 < v.length ∧ v.length ≤ 12800
  | .get name key _ => NameOk name ∧ key.len < keyNameMaxSize
  | .find name key => NameOk name ∧ key.len < keyNameMaxSize
  | .del name key => NameOk name ∧ key.len < keyNameMaxSize

/-- Making a call. -/
def Call.run (rom : NvdsRom) (env : FlashEnv) : Call → Option (Ret × FlashEnv)
  | .put name key v =>
    (nvdsDataPut rom name (some key) (some v) env).map fun r => (.code r.1, r.2)
  | .get name key buf =>
    (nvdsDataGet rom name (some key) buf env).map fun r => (.out (getOut r.1), r.2)
  | .find name key => (nvdsDataFind rom name (some key) env).map fun r => (.code r.1, r.2)
  | .del name key => (nvdsDataDel rom name (some key) env).map fun r => (.code r.1, r.2)

/-- Making calls, one after the other: the calls with what they returned. -/
def runCalls (rom : NvdsRom) : List Call → FlashEnv → Option (List (Call × Ret) × FlashEnv)
  | [], env => some ([], env)
  | c :: cs, env =>
    match c.run rom env with
    | none => none
    | some (ret, env') => (runCalls rom cs env').map fun r => ((c, ret) :: r.1, r.2)

/-! ### The map -/

/-- The contents after a call: a put that succeeds stores its value, a put that fails and a delete
that succeeds leave none. -/
def Contents.after (m : Contents) : Call × Ret → Contents
  | (.put name key v, .code (.ok ())) => m.set name key (some v)
  | (.put name key _, _) => m.set name key none
  | (.del name key, .code (.ok ())) => m.set name key none
  | _ => m

/-- The contents after some calls, of an empty storage. -/
def contentsAfter (h : List (Call × Ret)) : Contents := h.foldl Contents.after fun _ _ => none

/-- What a call has to return when the contents are `m`; a put may fail. -/
def Call.Returns (m : Contents) : Call → Ret → Prop
  | .put _ _ _, ret => ∃ r, ret = .code r
  | .get name key buf, ret => ret = .out (getSpec (m name key) buf)
  | .find name key, ret => ret = .code (if m name key = none then .error .notFound else .ok ())
  | .del name key, ret => ret = .code (if m name key = none then .error .notFound else .ok ())

/-! ### One call, and all of them -/

section Run

variable {rom : NvdsRom} (hrom : rom.Reliable) {n slack : ℕ} (hn : n ≤ 32) (hslack : slack < 2 ^ 31)
include hrom hn hslack

/-- **One call** on an environment in order. -/
theorem Well.call
    (h : Well n slack False none env S m) {c : Call} (hc : c.Valid) :
    ∃ ret env' S', c.run rom env = some (ret, env') ∧
      Well n slack False none env' S' (m.after (c, ret)) ∧ c.Returns m ret ∧
      Goes n (fun _ => True) env env' := by
  have hstay : Goes n (fun _ => True) env env :=
    goes_of_dev_eq rfl rfl rfl trivial h.rep.depicts
  cases c with
  | put name key v =>
    obtain ⟨hname, hkey, hpos, hle⟩ := hc
    obtain ⟨r, env', S', o, hrun, hwell, hres, -, hgoes⟩ := h.put hrom hn hslack hname hkey
      (Or.inl rfl) hpos hle
    refine ⟨.code r, env', S', by rw [Call.run, hrun]; rfl, ?_, ⟨r, rfl⟩,
      hgoes.mono fun _ _ => trivial⟩
    rcases hres with ⟨rfl, rfl⟩ | ⟨⟨e, rfl⟩, rfl⟩
    · exact hwell
    · exact hwell
  | get name key buf =>
    obtain ⟨r, hrun, hout⟩ := nvdsDataGet_eq hrom h.rep.view h.shown h.nsIds_lt hc.1 hc.2 buf
    exact ⟨.out (getOut r), env, S, by rw [Call.run, hrun]; rfl, h, by rw [hout]; rfl, hstay⟩
  | find name key =>
    have hrun := nvdsDataFind_eq hrom h.rep.view h.shown hc.1 hc.2
    exact ⟨_, env, S, by rw [Call.run, hrun]; rfl, h, rfl, hstay⟩
  | del name key =>
    obtain ⟨env', S', hrun, hwell, hgoes, -, -⟩ := h.del hrom hn hslack hc.1 hc.2
    refine ⟨_, env', S', by rw [Call.run, hrun]; rfl, ?_, rfl, hgoes.mono fun _ _ => trivial⟩
    split
    · next hm =>
      rw [Contents.set_eq_self hm] at hwell
      exact hwell
    · exact hwell

/-- **All calls return**, and the contents are what the return codes say. -/
theorem Well.calls
    (h : Well n slack False none env S m) {cs : List Call} (hcs : ∀ c ∈ cs, c.Valid) :
    ∃ hist env' S', runCalls rom cs env = some (hist, env') ∧
      Well n slack False none env' S' (hist.foldl Contents.after m) ∧
      Goes n (fun _ => True) env env' := by
  induction cs generalizing env S m with
  | nil => exact ⟨[], env, S, rfl, h, goes_of_dev_eq rfl rfl rfl trivial h.rep.depicts⟩
  | cons c cs ih =>
    obtain ⟨ret, env₁, S₁, hrun, hwell, -, hgoes⟩ := h.call hrom hn hslack (hcs c (by simp))
    obtain ⟨hist, env', S', hruns, hwell', hgoes'⟩ := ih hwell fun d hd => hcs d (by simp [hd])
    refine ⟨(c, ret) :: hist, env', S', ?_, hwell', hgoes.trans hgoes'⟩
    rw [runCalls, hrun]
    simp only
    rw [hruns]
    rfl

end Run

/-! ### An erased partition -/

section Erased

variable {rom : NvdsRom} (hrom : rom.Reliable) {n b : ℕ} {dev : Dev}

/-- The shot of an erased partition. -/
def noPages : Shot := fun _ => none

theorem depicts_erased (h : Blank dev.flash b (4096 * n)) : Depicts n b dev.flash noPages :=
  fun k hk => ⟨.blank, holds_blank (h.mono (by omega) (by omega)), rfl⟩

theorem liveOf_noPages (n : ℕ) : liveOf n noPages = 0 := Finset.sum_eq_zero fun _ _ => rfl

/-- The store of an erased partition that has been loaded, before its first page is taken. -/
def emptyStore (n : ℕ) : Store := ⟨[], List.range n, fun _ => ⟨.blank, []⟩⟩

theorem usedOf_noPages (n : ℕ) : usedOf noPages n = [] := by
  refine eq_nil_iff_forall_not_mem.mpr fun k hk => ?_
  exact absurd ((mem_usedOf noPages n).mp hk).2 (by simp [noPages])

theorem freeOf_noPages (n : ℕ) : freeOf noPages n = List.range n :=
  filter_eq_self.mpr fun _ _ => rfl

theorem nssOf_noPages (n : ℕ) : nssOf noPages n = [] := by
  simp [nssOf, noPages, pageDefs]

theorem Reloaded.rep_empty (h : Reloaded n noPages env)
    (hblank : Blank env.flash env.baseAddr (4096 * n)) : Rep n env (emptyStore n) where
  geo := h.geo
  used_eq := by rw [h.used_eq, usedOf_noPages]; rfl
  free_eq := by rw [h.free_eq, freeOf_noPages]; rfl
  nodup := nodup_range
  mem_iff k := by simp [emptyStore]
  pages k hk := absurd hk (by simp [emptyStore])
  frees k hk := by
    have hk' : k < n := mem_range.mp hk
    have hpage := h.blank k hk' rfl
    refine ⟨by rw [hpage]; rfl, ?_, holds_blank (hblank.mono ?_ ?_)⟩
    · rw [hpage]
      exact Nat.mul_comm _ _
    · simp only [FlashEnv.addr]
      omega
    · simp only [FlashEnv.addr]
      omega

/-- The environment of a storage that holds nothing. -/
theorem well_opened (hrep : Rep n env ((emptyStore n).opened 0 0)) (h2 : 2 ≤ n)
    (hlist : env.nsList = []) (hstates : env.nsStates = fun _ => false) :
    Well n 0 False none env ((emptyStore n).opened 0 0) fun _ _ => none := by
  have hfree : (emptyStore n).free = 0 :: (List.range (n - 1)).map Nat.succ := by
    rw [← range_succ_eq_map, show n - 1 + 1 = n by omega]
    rfl
  have hlive : liveOf n ((emptyStore n).opened 0 0).shot = 0 := by
    rw [liveOf_opened (by simp [emptyStore]) (by omega)]
    exact liveOf_noPages n
  have hused : ∀ k ∈ ((emptyStore n).opened 0 0).used, k = 0 := by
    intro k hk
    simpa [Store.opened, emptyStore] using hk
  refine ⟨hrep, ⟨?_, ?_, ?_, by simp [Store.opened], hrep.nodup, hrep.mem_iff, ?_, ?_⟩, ?_, ?_, ?_,
    ?_⟩
  · intro k hk
    rw [hused k hk, page_opened_self]
    exact sound_opened (by decide) []
  · intro k hk
    rw [hused k hk, page_opened_self]
    simp
  · intro k hk
    rw [hused k hk, page_opened_self]
    simp
  · intro hnil
    simp only [Store.opened, hfree, erase_cons_head, map_eq_nil_iff,
      range_eq_nil] at hnil
    omega
  · intro _ k hk
    rw [hused k hk, page_opened_self]
    exact ⟨searched_opened 0 [], by simp⟩
  · rw [hlive]
    exact ⟨Multiset.nodup_zero, by simp, fun _ _ _ _ => Or.inr rfl⟩
  · rw [hlive, hlist, hstates]
    exact ⟨by simp [nsIds], by simp [nsIds], by simp [nsIds], by simp [nsIds],
      fun name h => absurd rfl h, by simp [nsIds], by simp⟩
  · rw [hlist]
    intro r hr
    exact absurd hr (by simp)
  · rw [hlive, hlist]
    exact ⟨fun _ _ _ _ => rfl, fun _ _ _ _ _ => rfl⟩

include hrom

/-- **An erased partition is initialised**, and is in order then. -/
theorem init_erased (hdev : b + 4096 * n ≤ flashTotalSize) (h2 : 2 ≤ n)
    (hblank : Blank dev.flash b (4096 * n)) :
    ∃ env, nvdsFlashEnvInit rom b (4096 * n) dev = some (.ok (), env) ∧
      Well n 0 False none env ((emptyStore n).opened 0 0) (fun _ _ => none) ∧
      Goes n (fun _ => True) (freshEnv b (4096 * n) dev) env := by
  obtain ⟨env, hre, hbase, hd, hrun⟩ := pagesLoad_loaded hrom hdev (depicts_erased hblank)
    fun _ _ A hA => absurd hA (by simp [noPages])
  have hflash : env.flash = dev.flash := by rw [FlashEnv.flash, hd]
  have hrep := hre.rep_empty (by rw [hflash, hbase]; exact hblank)
  have hdoes : Does n (newPageRequest rom 0) (emptyStore n) _ _ id ((emptyStore n).Turning 0) :=
    does_newPageRequest hrom (by decide) fun _ k hk => absurd hk (by simp [emptyStore])
  obtain ⟨env', hnew, hrep', hgoes, hlist, hstates⟩ := hdoes env hrep
  have hturned : (emptyStore n).turned 0 = some (0, (emptyStore n).opened 0 0) := by
    obtain ⟨m, rfl⟩ : ∃ m, n = m + 2 := ⟨n - 2, by omega⟩
    rw [Store.turned, emptyStore, range_succ_eq_map, range_succ_eq_map]
    rfl
  rw [hturned] at hrep' hnew
  refine ⟨env', ?_, well_opened hrep' h2 ?_ ?_, ?_⟩
  · rw [nvdsFlashEnvInit, hrun, NvdsM.get_bind, hre.used_eq, usedOf_noPages, if_pos rfl,
      NvdsM.bind_ok hnew]
    rfl
  · rw [hlist, id_eq, hre.list_eq, countOf, usedOf_noPages, nssOf_noPages]
    rfl
  · rw [hstates, hre.states_eq, nssOf_noPages]
    rfl
  · refine Goes.trans (goes_of_dev_eq (T := noPages) hbase hre.geo.length_eq hd trivial ?_)
      (hgoes.mono fun _ _ => trivial)
    exact depicts_erased hblank

end Erased

/-! ### Reading what was put -/

/-- The namespace and the key a call is about. -/
def Call.target : Call → Option CString × CString
  | .put name key _ => (name, key)
  | .get name key _ => (name, key)
  | .find name key => (name, key)
  | .del name key => (name, key)

/-- What a read hands out. -/
def readOut (rom : NvdsRom) (env : FlashEnv) (name : Option CString) (key : CString)
    (buf : Option ℕ) : Option GetOut :=
  (nvdsDataGet rom name (some key) buf env).map fun r => getOut r.1

theorem Well.readOut_eq {rom : NvdsRom} (hrom : rom.Reliable) {n slack : ℕ} (h : Well n slack False none env S m) {name : Option CString}
    (hname : NameOk name) {key : CString} (hkey : key.len < keyNameMaxSize) (buf : Option ℕ) :
    readOut rom env name key buf = some (getSpec (m name key) buf) := by
  obtain ⟨r, hrun, hout⟩ := nvdsDataGet_eq hrom h.rep.view h.shown h.nsIds_lt hname hkey buf
  rw [readOut, hrun, Option.map_some, hout]

/-- A call does not change the contents elsewhere. -/
theorem Contents.after_of_ne (m : Contents) {c : Call} {ret : Ret} {name : Option CString}
    {key : CString} (h : c.target ≠ (name, key)) : m.after (c, ret) name key = m name key := by
  have hne : ∀ {name' key'}, c.target = (name', key') → name ≠ name' ∨ key ≠ key' := by
    intro name' key' ht
    by_contra hno
    obtain ⟨h1, h2⟩ := not_or.mp hno
    exact h (by rw [ht, not_not.mp h1, not_not.mp h2])
  cases c with
  | put name' key' v =>
    rcases ret with (e | u) | o
    · exact m.set_of_ne (hne rfl) none
    · exact m.set_of_ne (hne rfl) (some v)
    · exact m.set_of_ne (hne rfl) none
  | get name' key' buf => rfl
  | find name' key' => rfl
  | del name' key' =>
    rcases ret with (e | u) | o
    · rfl
    · exact m.set_of_ne (hne rfl) none
    · rfl

/-- **The storage refines a map.** An erased internal partition is initialised, and then all calls
return. After any of them a read gives the value of the last put that succeeded and has not been
followed by a delete that succeeded or a put that failed, and reports that nothing was found when
there is none; and no call changes what is read of another key. -/
theorem reads_last_put {rom : NvdsRom} (hrom : rom.Reliable) {dev : Dev}
    (hblank : Blank dev.flash nvdsFlashInternalAddr nvdsFlashInternalSize) :
    ∃ env₀, nvdsFlashEnvInit rom nvdsFlashInternalAddr nvdsFlashInternalSize dev =
        some (.ok (), env₀) ∧
      ∀ cs : List Call, (∀ c ∈ cs, c.Valid) →
        ∃ hist env, runCalls rom cs env₀ = some (hist, env) ∧
          (∀ name key buf, NameOk name → key.len < keyNameMaxSize →
            readOut rom env name key buf = some (getSpec (contentsAfter hist name key) buf)) ∧
          ∀ c : Call, c.Valid → ∃ ret env', c.run rom env = some (ret, env') ∧
            ∀ name key buf, NameOk name → key.len < keyNameMaxSize → c.target ≠ (name, key) →
              readOut rom env' name key buf = readOut rom env name key buf := by
  obtain ⟨env₀, hinit, hwell, -⟩ := init_erased (n := 4) hrom (by decide) (by decide) hblank
  refine ⟨env₀, hinit, fun cs hcs => ?_⟩
  obtain ⟨hist, env, S, hrun, hend, -⟩ := hwell.calls hrom (by decide) (by decide) hcs
  refine ⟨hist, env, hrun, fun name key buf hname hkey => hend.readOut_eq hrom hname hkey buf, ?_⟩
  intro c hc
  obtain ⟨ret, env', S', hcall, hafter, -, -⟩ := hend.call hrom (by decide) (by decide) hc
  refine ⟨ret, env', hcall, fun name key buf hname hkey hne => ?_⟩
  rw [hafter.readOut_eq hrom hname hkey buf, hend.readOut_eq hrom hname hkey buf,
    Contents.after_of_ne _ hne]

/-- A device that never fails. -/
def steadyRom : NvdsRom := ⟨⟨fun _ _ => 0⟩, fun _ _ _ => 0⟩

theorem steadyRom_reliable : steadyRom.Reliable := ⟨fun _ _ => rfl, fun _ _ _ => rfl⟩

/-- An erased device. -/
def erasedDev : Dev := ⟨fun _ => blank, []⟩

/-- The key `a`. -/
def keyA : CString := ⟨[0x61], by decide⟩

/-- On an erased device: a value is put, read and deleted. -/
theorem reads_last_put_keyA :
    ∃ env₀, nvdsFlashEnvInit steadyRom nvdsFlashInternalAddr nvdsFlashInternalSize erasedDev =
        some (.ok (), env₀) ∧
      ∃ hist env, runCalls steadyRom [.put none keyA [0x2A], .get none keyA (some 1),
          .del (some keyA) keyA] env₀ = some (hist, env) ∧
        readOut steadyRom env none keyA (some 1) =
          some (getSpec (contentsAfter hist none keyA) (some 1)) := by
  have hkey : keyA.len < keyNameMaxSize := by decide
  have hname : NameOk (some keyA) := fun c hc => Option.some.inj hc ▸ hkey
  obtain ⟨env₀, hinit, hall⟩ := @reads_last_put steadyRom steadyRom_reliable erasedDev
    fun _ _ _ => rfl
  obtain ⟨hist, env, hrun, hread, -⟩ := hall
    [.put none keyA [0x2A], .get none keyA (some 1), .del (some keyA) keyA] (by
      intro c hc
      simp only [mem_cons, not_mem_nil, or_false] at hc
      rcases hc with rfl | rfl | rfl
      · exact ⟨by simp [NameOk], hkey, by simp, by simp⟩
      · exact ⟨by simp [NameOk], hkey⟩
      · exact ⟨hname, hkey⟩)
  exact ⟨env₀, hinit, hist, env, hrun, hread none keyA (some 1) (by simp [NameOk]) hkey⟩

end Nvds

end Gd32
