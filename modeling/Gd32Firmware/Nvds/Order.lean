import Gd32Firmware.Nvds.Runs

/-!
# What a restart agrees on

A restart reads the lists and counters of the running environment back from the flash. The page
records and the names agree always; the used pages come in the order of `cmp_sequence_no`, which
leaves the top bit of the sequence numbers out, and not in the order in which they were taken
(`restart_agrees`).
-/

namespace Gd32.Nvds

open NorFlash LittleEndian List

/-! ### The order of the used pages -/

/-- The order in which `pages_load` lists two pages: by `cmp_sequence_no`, and by sector if it
does not tell them apart. -/
def listedBefore (pages : ℕ → PageEnv) (a b : ℕ) : Prop :=
  cmpSequenceNo pages a b = true ∨ (cmpSequenceNo pages b a = false ∧ a < b)

/-- The low bits of a sequence number and the sector. -/
def shotBefore (T : Shot) (a b : ℕ) : Prop :=
  seqOf T a % 2 ^ 31 < seqOf T b % 2 ^ 31 ∨ (seqOf T a % 2 ^ 31 ≤ seqOf T b % 2 ^ 31 ∧ a < b)

theorem pairwise_listInsert {T : Shot} {m : ℕ} {l : List ℕ} (h : l.Pairwise (shotBefore T))
    (hlt : ∀ k ∈ l, k < m) : (listInsert (seqBefore T) m l).Pairwise (shotBefore T) := by
  induction l with
  | nil => exact pairwise_singleton _ _
  | cons y l ih =>
    obtain ⟨hy, hl⟩ := pairwise_cons.mp h
    rw [listInsert]
    split
    · next hlow =>
      rw [seqBefore, decide_eq_true_eq] at hlow
      refine pairwise_cons.mpr ⟨fun z hz => Or.inl ?_, h⟩
      rcases mem_cons.mp hz with rfl | hz
      · exact hlow
      · rcases hy z hz with hyz | ⟨hyz, -⟩ <;> omega
    · next hlow =>
      rw [seqBefore, decide_eq_true_eq] at hlow
      refine pairwise_cons.mpr ⟨fun z hz => ?_, ih hl fun k hk => hlt k (by simp [hk])⟩
      rcases mem_listInsert.mp hz with rfl | hz
      · exact Or.inr ⟨by omega, hlt y (by simp)⟩
      · exact hy z hz

theorem pairwise_usedOf (T : Shot) (m : ℕ) : (usedOf T m).Pairwise (shotBefore T) := by
  induction m with
  | zero => exact List.Pairwise.nil
  | succ m ih =>
    rw [usedOf_succ]
    split
    · exact pairwise_listInsert ih fun k hk => ((mem_usedOf T m).mp hk).1
    · exact ih

/-- A list of the used pages is the one that is loaded exactly if it is in order. -/
theorem usedOf_eq_iff {T : Shot} {n : ℕ} {l : List ℕ} (hp : l.Perm (usedOf T n)) :
    usedOf T n = l ↔ l.Pairwise (shotBefore T) := by
  constructor
  · rintro rfl
    exact pairwise_usedOf T n
  · intro hl
    refine (hp.symm.eq_of_pairwise ?_ (pairwise_usedOf T n) hl)
    intro a b _ _ hab hba
    rcases hab with h1 | ⟨h1, h1'⟩ <;> rcases hba with h2 | ⟨h2, h2'⟩ <;> omega

/-! ### Agreement -/

/-- The two environments have the same used pages in the same order, with the same first free
slot and the same number of slots in use, the same names with the same indices, and hand out the
same values. -/
structure Agree (rom : NvdsRom) (env env' : FlashEnv) : Prop where
  used : env'.pageUsed = env.pageUsed
  next : ∀ k ∈ env.pageUsed, (env'.pages k).nextFreeIdx = (env.pages k).nextFreeIdx
  cnt : ∀ k ∈ env.pageUsed, (env'.pages k).entryCntUsed = (env.pages k).entryCntUsed
  names : (nsIds env'.nsList).Perm (nsIds env.nsList)
  reads : ∀ name key buf, readOut rom env' name key buf = readOut rom env name key buf

section Agree

variable {rom : NvdsRom} (hrom : rom.Reliable) {n slack slack' : ℕ} {env env' : FlashEnv}
  {S S' : Store} {m : Contents}

/-- The page records of two environments that represent the same page. -/
theorem PageRep.next_eq {k : ℕ} {A : APage} (h : PageRep env k A) :
    (env.pages k).nextFreeIdx = recsSize A.recs := by
  obtain ⟨⟨P, hm, -, hslots⟩, -⟩ := h
  rw [hm.next, hslots, length_recsSlots]

theorem PageRep.header_eq {k : ℕ} {A : APage} (h : PageRep env k A) :
    (env.pages k).header = A.header := by
  obtain ⟨⟨P, hm, hd, -⟩, -⟩ := h
  rw [hm.header, hd.header]

include hrom

/-- Environments in order with the same contents hand out the same values, whatever is asked. -/
theorem Well.reads_eq (h : Well n slack False none env S m) (h' : Well n slack' False none env' S' m)
    (name : Option CString) (key : CString) (buf : Option ℕ) :
    readOut rom env' name key buf = readOut rom env name key buf := by
  by_cases hv : NameOk name ∧ key.len < keyNameMaxSize
  · rw [h'.readOut_eq hrom hv.1 hv.2, h.readOut_eq hrom hv.1 hv.2]
  · -- the arguments are refused
    have hrefused : ∀ e : FlashEnv, readOut rom e name key buf =
        some (getOut (.error .invalParam)) := by
      intro e
      rw [readOut]
      by_cases hkey : key.len < keyNameMaxSize
      · rcases name with _ | c
        · exact absurd ⟨fun _ hc => absurd hc (by simp), hkey⟩ hv
        · have hc : ¬c.len ≤ keyNameMaxSize - 1 := by
            intro hle
            refine hv ⟨fun d hd => ?_, hkey⟩
            rw [← Option.some.inj hd]
            omega
          have hrun : nvdsDataGet rom (some c) (some key) buf e = some (.error .invalParam, e) := by
            rw [nvdsDataGet, NvdsM.check_bind (by simp only [decide_eq_true_eq]; omega)]
            exact NvdsM.bind_error (NvdsM.check_bind_false (decide_eq_false hc) _ _ _)
          rw [hrun]
          rfl
      · have hlen : ¬key.len ≤ keyNameMaxSize - 1 := by
          simp only [keyNameMaxSize] at hkey ⊢
          omega
        have hrun : nvdsDataGet rom name (some key) buf e = some (.error .invalParam, e) :=
          NvdsM.check_bind_false (decide_eq_false hlen) _ _ _
        rw [hrun]
        rfl
    rw [hrefused, hrefused]

/-- **A restart agrees exactly if the used list is in order.** -/
theorem Well.agree_iff (hn : n ≤ 32) (h : Well n slack False none env S m) :
    ∃ env', nvdsFlashEnvInit rom env.baseAddr env.length env.dev = some (.ok (), env') ∧
      (Agree rom env env' ↔ env.pageUsed.Pairwise (listedBefore env.pages)) := by
  have hfew : ∀ i ≤ namespaceMaxCnt, fragsIn (liveOf n S.shot) i ≤ 126 * n := by
    intro i _
    have hle := h.neat.recordsIn_le i
    have heq := recordsIn_eq (liveOf n S.shot) i
    omega
  obtain ⟨env', hrun, hwell, hre, -, -, hperm, -⟩ := h.reload hrom hn hfew
  refine ⟨env', by rw [h.rep.geo.length_eq]; exact hrun, ?_⟩
  have hlt := h.neat.used_lt
  have hseq : ∀ k ∈ S.used, (env.pages k).header.seqno = seqOf S.shot k := by
    intro k hk
    rw [(h.rep.pages k hk).header_eq, seqOf, Store.shot, if_pos hk]
  have hpages : S.used.Perm (usedOf S.shot n) := by
    refine (perm_ext_iff_of_nodup ?_ ?_).mpr fun k => (Store.mem_reloaded hlt).symm
    · exact (nodup_append.mp h.neat.nodup_pages).1
    · exact (nodup_append.mp hwell.neat.nodup_pages).1
  have horder : env.pageUsed.Pairwise (listedBefore env.pages) ↔
      S.used.Pairwise (shotBefore S.shot) := by
    rw [h.rep.used_eq]
    refine List.Pairwise.iff_of_mem fun {a b} ha hb => ?_
    rw [listedBefore, shotBefore, cmpSequenceNo, cmpSequenceNo, hseq a ha, hseq b hb]
    simp only [decide_eq_true_eq, decide_eq_false_iff_not, not_lt]
  rw [horder, ← usedOf_eq_iff hpages]
  constructor
  · intro hagree
    rw [← hre.used_eq, hagree.used, h.rep.used_eq]
  · intro hused
    have hmem : ∀ k ∈ env.pageUsed, k ∈ S.used ∧ k ∈ (S.reloaded n).used := by
      intro k hk
      rw [h.rep.used_eq] at hk
      exact ⟨hk, (Store.mem_reloaded hlt).mpr hk⟩
    refine ⟨by rw [hre.used_eq, hused, h.rep.used_eq], fun k hk => ?_, fun k hk => ?_, hperm,
      h.reads_eq hrom hwell⟩
    · rw [(hwell.rep.pages k (hmem k hk).2).next_eq, (h.rep.pages k (hmem k hk).1).next_eq]
      rfl
    · rw [(hwell.rep.pages k (hmem k hk).2).cnt, (h.rep.pages k (hmem k hk).1).cnt]
      rfl

end Agree

/-- **What a restart agrees on.** In every state that a run from an erased partition reaches,
loading the flash afresh succeeds, and gives an environment that agrees with the running one
exactly if the used list is in the order of `cmp_sequence_no`. -/
theorem restart_agrees {rom : NvdsRom} (hrom : rom.Reliable) {n : ℕ} (h2 : 2 ≤ n) (hn : n ≤ 32)
    {b : ℕ} {dev : Dev} (hdev : b + 4096 * n ≤ flashTotalSize)
    (hblank : Blank dev.flash b (4096 * n)) :
    ∃ env₀, nvdsFlashEnvInit rom b (4096 * n) dev = some (.ok (), env₀) ∧
      ∀ es : List Event, ∃ hist env env', runEvents rom es env₀ = some (hist, env) ∧
        nvdsFlashEnvInit rom env.baseAddr env.length env.dev = some (.ok (), env') ∧
        (Agree rom env env' ↔ env.pageUsed.Pairwise (listedBefore env.pages)) := by
  obtain ⟨env₀, hinit, hall⟩ := run_erased hrom h2 hn hdev hblank
  refine ⟨env₀, hinit, fun es => ?_⟩
  obtain ⟨hist, env, S, hrun, hwell, -⟩ := hall es
  obtain ⟨env', hload, hiff⟩ := hwell.agree_iff hrom hn
  exact ⟨hist, env, env', hrun, hload, hiff⟩

/-- On an erased device, after a value has been put, a restart agrees. -/
theorem restart_agrees_keyA :
    ∃ env₀ hist env env', nvdsFlashEnvInit steadyRom nvdsFlashInternalAddr nvdsFlashInternalSize
        erasedDev = some (.ok (), env₀) ∧
      runEvents steadyRom [.call (.put none keyA [0x2A])] env₀ = some (hist, env) ∧
      nvdsFlashEnvInit steadyRom env.baseAddr env.length env.dev = some (.ok (), env') ∧
      (Agree steadyRom env env' ↔ env.pageUsed.Pairwise (listedBefore env.pages)) := by
  obtain ⟨env₀, hinit, hall⟩ := @restart_agrees steadyRom steadyRom_reliable 4 (by decide)
    (by decide) nvdsFlashInternalAddr erasedDev (by decide) fun _ _ _ => rfl
  obtain ⟨hist, env, env', h⟩ := hall [.call (.put none keyA [0x2A])]
  exact ⟨env₀, hist, env, env', hinit, h⟩

end Gd32.Nvds
