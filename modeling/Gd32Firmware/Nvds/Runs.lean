import Gd32Firmware.Nvds.Restart

/-!
# Runs with restarts

A run of the storage is made of calls, with any arguments, of restarts, which initialise it again
from what the flash holds, and of `nvds_clean`. In every run from an erased partition the
environment stays in order (`Well.events`), and so no call on the device ever asks for a
bit to be set, and the slots that are to be written next are blank
(`flash_discipline`).
-/

namespace Gd32.Nvds

open NorFlash LittleEndian NvdsM

/-! ### Events -/

/-- A step of a run. -/
inductive Event where
  | call (c : Call)
  /-- `nvds_flash_env_init`, on what the flash holds. -/
  | restart
  /-- `nvds_clean` of the partition: it is erased and initialised again. -/
  | clean

/-- Taking a step. -/
def Event.run (rom : NvdsRom) (env : FlashEnv) : Event → Option (Ret × FlashEnv)
  | .call c => c.run rom env
  | .restart =>
    (nvdsFlashEnvInit rom env.baseAddr env.length env.dev).map fun r => (.code r.1, r.2)
  | .clean =>
    match nvdsFlashErase rom 0 env.length env with
    | none => none
    | some (.error e, env') => some (.code (.error e), env')
    | some (.ok (), env') =>
      -- the code of the initialisation is not looked at
      (nvdsFlashEnvInit rom env'.baseAddr env'.length env'.dev).map fun r => (.code (.ok ()), r.2)

/-- Taking steps, one after the other: the steps with what they returned. -/
def runEvents (rom : NvdsRom) : List Event → FlashEnv → Option (List (Event × Ret) × FlashEnv)
  | [], env => some ([], env)
  | e :: es, env =>
    match e.run rom env with
    | none => none
    | some (ret, env') => (runEvents rom es env').map fun r => ((e, ret) :: r.1, r.2)

instance (name : Option CString) : Decidable (NameOk name) :=
  match name with
  | none => .isTrue fun _ h => absurd h (by simp)
  | some c => decidable_of_iff (c.len < keyNameMaxSize)
      ⟨fun h _ hd => Option.some.inj hd ▸ h, fun h => h c rfl⟩

instance (c : Call) : Decidable c.Valid :=
  match c with
  | .put _ _ _ => inferInstanceAs (Decidable (_ ∧ _))
  | .get _ _ _ => inferInstanceAs (Decidable (_ ∧ _))
  | .find _ _ => inferInstanceAs (Decidable (_ ∧ _))
  | .del _ _ => inferInstanceAs (Decidable (_ ∧ _))

/-- The contents after a step. A call whose arguments are refused changes nothing. -/
def Contents.step (m : Contents) : Event × Ret → Contents
  | (.call c, ret) => if c.Valid then m.after (c, ret) else m
  | (.restart, _) => m
  | (.clean, .code (.ok ())) => fun _ _ => none
  | (.clean, _) => m

/-- The contents after some steps, of an empty storage. -/
def contentsOf (hist : List (Event × Ret)) : Contents := hist.foldl Contents.step fun _ _ => none

/-! ### One step -/

/-- A put whose arguments are refused returns `NVDS_E_INVAL_PARAM` and changes nothing. -/
theorem nvdsDataPut_invalid (rom : NvdsRom) (env : FlashEnv) {name : Option CString} {key : CString}
    {v : List UInt8} (h : ¬(Call.put name key v).Valid) :
    nvdsDataPut rom name (some key) (some v) env = some (.error .invalParam, env) := by
  by_cases hargs : 0 < v.length ∧ v.length ≤ elementBulkMaxSize ∧ key.len ≤ keyNameMaxSize - 1
  · obtain ⟨hpos, hle, hkey⟩ := hargs
    have hname : ¬NameOk name := fun hname => h ⟨hname, by
      simp only [keyNameMaxSize] at hkey ⊢
      omega, hpos, hle⟩
    rcases name with _ | c
    · exact absurd (fun _ hc => by cases hc) hname
    have hlen : ¬c.len ≤ keyNameMaxSize - 1 := by
      intro hlen
      refine hname fun d hd => ?_
      rw [← Option.some.inj hd]
      simp only [keyNameMaxSize] at hlen ⊢
      omega
    rw [nvdsDataPut, check_bind (decide_eq_true ⟨hpos, hle, hkey⟩)]
    exact bind_error (check_bind_false (decide_eq_false hlen) _ _ _)
  · exact check_bind_false (decide_eq_false hargs) _ _ _

/-- A call whose arguments are refused changes nothing. -/
theorem Call.run_invalid (rom : NvdsRom) (env : FlashEnv) {c : Call} (h : ¬c.Valid) :
    ∃ ret, c.run rom env = some (ret, env) := by
  have hns : ∀ {name : Option CString} (create : Bool), ¬NameOk name →
      nsIndexByNamespace rom name create env = some (.error .invalParam, env) := by
    intro name create hname
    rcases name with _ | c
    · exact absurd (fun _ hc => absurd hc (by simp)) hname
    · have hlen : ¬c.len ≤ keyNameMaxSize - 1 := by
        intro hle
        refine hname fun d hd => ?_
        rw [← Option.some.inj hd]
        simp only [keyNameMaxSize] at hle ⊢
        omega
      exact check_bind_false (decide_eq_false hlen) _ _ _
  have hle : ∀ {key : CString}, ¬key.len < keyNameMaxSize → ¬key.len ≤ keyNameMaxSize - 1 := by
    intro key hkey
    simp only [keyNameMaxSize] at hkey ⊢
    omega
  have hor : ∀ {name : Option CString} {key : CString},
      ¬(NameOk name ∧ key.len < keyNameMaxSize) →
      ¬key.len < keyNameMaxSize ∨ (key.len < keyNameMaxSize ∧ ¬NameOk name) := by
    intro name key hno
    by_cases hkey : key.len < keyNameMaxSize
    · exact Or.inr ⟨hkey, fun hname => hno ⟨hname, hkey⟩⟩
    · exact Or.inl hkey
  cases c with
  | put name key v =>
    refine ⟨.code (.error .invalParam), ?_⟩
    rw [Call.run, nvdsDataPut_invalid rom env h]
    rfl
  | get name key buf =>
    refine ⟨.out (getOut (.error .invalParam)), ?_⟩
    have hrun : nvdsDataGet rom name (some key) buf env = some (.error .invalParam, env) := by
      rcases hor h with hkey | ⟨hkey, hname⟩
      · exact check_bind_false (decide_eq_false (hle hkey)) _ _ _
      · rw [nvdsDataGet, check_bind (by simp only [decide_eq_true_eq]; omega)]
        exact bind_error (hns false hname)
    rw [Call.run, hrun]
    rfl
  | find name key =>
    refine ⟨.code (.error .invalParam), ?_⟩
    have hrun : nvdsDataFind rom name (some key) env = some (.error .invalParam, env) := by
      rcases hor h with hkey | ⟨hkey, hname⟩
      · exact check_bind_false (decide_eq_false (hle hkey)) _ _ _
      · rw [nvdsDataFind, check_bind (by simp only [decide_eq_true_eq]; omega)]
        exact bind_error (hns false hname)
    rw [Call.run, hrun]
    rfl
  | del name key =>
    refine ⟨.code (.error .invalParam), ?_⟩
    have hrun : nvdsDataDel rom name (some key) env = some (.error .invalParam, env) := by
      rcases hor h with hkey | ⟨hkey, hname⟩
      · exact check_bind_false (decide_eq_false (hle hkey)) _ _ _
      · rw [nvdsDataDel, check_bind (by simp only [decide_eq_true_eq]; omega)]
        exact bind_error (hns false hname)
    rw [Call.run, hrun]
    rfl

section Step

variable {rom : NvdsRom} (hrom : rom.Reliable) {n slack : ℕ} (hn : n ≤ 32) (hslack : slack < 2 ^ 31)
  {env : FlashEnv} {S : Store} {m : Contents}

theorem Well.goes_self (h : Well n slack False none env S m) : Goes n (fun _ => True) env env :=
  goes_of_dev_eq rfl rfl rfl trivial h.rep.depicts

theorem Counted.mono {nss : List NamespaceInfo} {K : ℕ → ℕ} {slack' : ℕ} (h : Counted slack nss K)
    (hle : slack ≤ slack') : Counted slack' nss K := by
  intro r hr
  obtain ⟨d, hd, hcnt⟩ := h r hr
  exact ⟨d, hd.trans hle, hcnt⟩

theorem Well.mono {slack' : ℕ} (h : Well n slack False none env S m) (hle : slack ≤ slack') :
    Well n slack' False none env S m :=
  ⟨h.rep, h.neat, h.kept, h.named, h.counted.mono hle, h.shown⟩

include hrom

/-- **`nvds_clean`** leaves an empty storage. -/
theorem Well.clean (h2 : 2 ≤ n) (hn : n ≤ 32) (h : Well n slack False none env S m) :
    ∃ env' S', Event.clean.run rom env = some (.code (.ok ()), env') ∧
      Well n slack False none env' S' (fun _ _ => none) ∧ Goes n (fun _ => True) env env' := by
  have hlen := h.rep.geo.length_eq
  have hon := h.rep.geo.on_device
  rw [hlen] at hon
  have hblank : Blank (erase env.flash env.baseAddr (4096 * n)) env.baseAddr (4096 * n) :=
    blank_erase _ _ _
  have herase : nvdsFlashErase rom 0 (4096 * n) env =
      some (.ok (), env.did (.erase env.baseAddr (4096 * n))) := by
    rw [nvdsFlashErase, if_neg (by omega), Nat.add_zero,
      hrom.calls.rawFlashErase_eq _ (by omega) (by omega) hon]
    rfl
  obtain ⟨env', hinit, hwell, hgoes⟩ := @init_erased rom hrom n env.baseAddr
    (env.did (.erase env.baseAddr (4096 * n))).dev hon h2 hblank
  refine ⟨env', _, ?_, hwell.mono (Nat.zero_le _), ?_⟩
  · rw [Event.run, hlen, herase]
    simp only [FlashEnv.did, hlen]
    rw [FlashEnv.did] at hinit
    rw [hinit]
    rfl
  · have hfirst : Goes n (fun _ => True) env (freshEnv env.baseAddr (4096 * n)
        (env.did (.erase env.baseAddr (4096 * n))).dev) := by
      refine ⟨rfl, hlen.symm, [.erase env.baseAddr (4096 * n)], rfl, rfl,
        ⟨S.shot, trivial, h.rep.depicts⟩, trivial, noPages, trivial, ?_⟩
      exact @depicts_erased n env.baseAddr (env.did (.erase env.baseAddr (4096 * n))).dev hblank
    exact hfirst.trans hgoes

include hn hslack

/-- **One step** from an environment in order. At a restart the fragments become part of the
counts. -/
theorem Well.event (h2 : 2 ≤ n) (h : Well n slack False none env S m) (e : Event)
    (hfrags : e = .restart → ∀ i ≤ namespaceMaxCnt, fragsIn (liveOf n S.shot) i ≤ slack) :
    ∃ ret env' S', e.run rom env = some (ret, env') ∧
      Well n slack False none env' S' (m.step (e, ret)) ∧ Goes n (fun _ => True) env env' := by
  cases e with
  | call c =>
    by_cases hc : c.Valid
    · obtain ⟨ret, env', S', hrun, hwell, -, hgoes⟩ := h.call hrom hn hslack hc
      exact ⟨ret, env', S', hrun, by rw [Contents.step, if_pos hc]; exact hwell, hgoes⟩
    · obtain ⟨ret, hrun⟩ := Call.run_invalid rom env hc
      exact ⟨ret, env, S, hrun, by rw [Contents.step, if_neg hc]; exact h, h.goes_self⟩
  | restart =>
    obtain ⟨env', hrun, hwell, -, hbase, hdev, -, -⟩ := h.reload hrom hn (hfrags rfl)
    refine ⟨.code (.ok ()), env', _, ?_, hwell, goes_of_dev_eq hbase ?_ hdev trivial h.rep.depicts⟩
    · rw [Event.run, h.rep.geo.length_eq, hrun]
      rfl
    · rw [hwell.rep.geo.length_eq, h.rep.geo.length_eq]
  | clean =>
    obtain ⟨env', S', hrun, hwell, hgoes⟩ := h.clean hrom h2 hn
    exact ⟨_, env', S', hrun, hwell, hgoes⟩

end Step

/-! ### Runs -/

section Run

variable {rom : NvdsRom} (hrom : rom.Reliable) {n : ℕ} (h2 : 2 ≤ n) (hn : n ≤ 32)
include hrom h2 hn

/-- **All steps of a run return**, the environment stays in order, and the contents are what the
return codes say. -/
theorem Well.events {env : FlashEnv} {S : Store} {m : Contents}
    (h : Well n 4032 False none env S m) (es : List Event) :
    ∃ hist env' S', runEvents rom es env = some (hist, env') ∧
      Well n 4032 False none env' S' (hist.foldl Contents.step m) ∧
      Goes n (fun _ => True) env env' := by
  induction es generalizing env S m with
  | nil => exact ⟨[], env, S, rfl, h, h.goes_self⟩
  | cons e es ih =>
    -- there are fewer fragments than slots
    have hfrags : ∀ i ≤ namespaceMaxCnt, fragsIn (liveOf n S.shot) i ≤ 4032 := by
      intro i _
      have hle := h.neat.recordsIn_le i
      have heq := recordsIn_eq (liveOf n S.shot) i
      omega
    obtain ⟨ret, env₁, S₁, hrun, hwell, hgoes⟩ := h.event hrom hn (by decide) h2 e fun _ => hfrags
    obtain ⟨hist, env', S', hruns, hwell', hgoes'⟩ := ih hwell
    refine ⟨(e, ret) :: hist, env', S', ?_, hwell', hgoes.trans hgoes'⟩
    rw [runEvents, hrun]
    simp only
    rw [hruns]
    rfl

/-- A run from an erased partition. -/
theorem run_erased {b : ℕ} {dev : Dev} (hdev : b + 4096 * n ≤ flashTotalSize)
    (hblank : Blank dev.flash b (4096 * n)) :
    ∃ env₀, nvdsFlashEnvInit rom b (4096 * n) dev = some (.ok (), env₀) ∧
      ∀ es : List Event, ∃ hist env S, runEvents rom es env₀ = some (hist, env) ∧
        Well n 4032 False none env S (contentsOf hist) ∧
        Goes n (fun _ => True) (freshEnv b (4096 * n) dev) env := by
  obtain ⟨env₀, hinit, hwell, hgoes⟩ := init_erased hrom hdev h2 hblank
  refine ⟨env₀, hinit, fun es => ?_⟩
  obtain ⟨hist, env, S, hrun, hwell', hgoes'⟩ := (hwell.mono (Nat.zero_le 4032)).events hrom h2 hn es
  exact ⟨hist, env, S, hrun, hwell', hgoes.trans hgoes'⟩

end Run

/-! ### The discipline of the flash -/

/-- Behind the records of every used page the slots are blank and free, in the flash and in the
table in memory. -/
def FlashEnv.RoomBlank (env : FlashEnv) : Prop :=
  ∀ k ∈ env.pageUsed, ∀ i, (env.pages k).nextFreeIdx ≤ i → i < entryCountPerPage →
    read env.flash (env.addr k + pageEntryOffset + entrySize * i) entrySize =
        List.replicate entrySize blank ∧
      stateAt (env.pages k).entryStates i = .free ∧
      stateAt (tableWords (read env.flash (env.addr k + pageEntryStatesOffset) entrySize)) i = .free

theorem Rep.roomBlank {n : ℕ} {env : FlashEnv} {S : Store} (h : Rep n env S) : env.RoomBlank := by
  intro k hk i hnext hi
  rw [h.used_eq] at hk
  obtain ⟨⟨P, hm, hd, hslots⟩, -⟩ := h.pages k hk
  have hfree : stateAt P.table i = .free := by
    refine hd.laid.free_of_ge ?_ hi
    rwa [hm.next, hslots, length_recsSlots] at hnext
  refine ⟨?_, by rw [hm.table]; exact hfree, ?_⟩
  · have hslot := hm.holds.slots i hi
    rw [List.getD_eq_default _ _ (by rw [← hm.next]; exact hnext)] at hslot
    exact hslot
  · rw [show read env.flash (env.addr k + pageEntryStatesOffset) entrySize = tableBytes P.table from
      hm.holds.table, tableWords_tableBytes hm.holds.length_table]
    exact hfree

/-- Every call along a run fits the device it finds. -/
theorem Along.fits {Q : Flash → Prop} {f : Flash} {qs rs : List Prim} {p : Prim}
    (h : Along Q f (qs ++ p :: rs)) : p.Fits (applyAll f qs) := by
  induction qs generalizing f with
  | nil => exact h.2.1
  | cons q qs ih => exact ih h.2.2

end Gd32.Nvds
