import Gd32Firmware.Nvds.Runs
import Mathlib.Algebra.Order.BigOperators.Group.List

/-!
# Puts for which there is no space

A put deletes the old value before it looks for room. When there is none it returns `NVDS_E_NO_SPACE`
and the old value is gone, so such a put leaves what is read as it was exactly when there was no value
(`put_unchanged_iff`).

That there can be a value is shown by the largest one, which does not fit into the internal partition
at all: three of its four pages can be in use, and they have 378 slots
(`not_put_unchanged`).
-/

namespace Gd32.Nvds

open NorFlash LittleEndian List Multiset

/-! ### What a failed put leaves -/

section Failed

variable {rom : NvdsRom} (hrom : rom.Reliable) {n slack : ℕ} (hn : n ≤ 32) (hslack : slack < 2 ^ 31)
  {env env' : FlashEnv} {S : Store} {m : Contents} {name : Option CString} {key : CString}
  {v : List UInt8}
include hrom hn hslack

/-- **After a put that failed** there is no value. -/
theorem Well.failed (h : Well n slack False none env S m) {e : NvdsErr}
    (hput : nvdsDataPut rom name (some key) (some v) env = some (.error e, env'))
    (hvalid : (Call.put name key v).Valid) :
    e = .noSpace ∧ ∃ S', Well n slack False none env' S' (m.set name key none) := by
  obtain ⟨hname, hkey, hpos, hle⟩ := hvalid
  obtain ⟨r, env₁, S', o, hrun, hwell, hres, honly, -⟩ := h.put hrom hn hslack hname hkey
    (Or.inl rfl) hpos hle
  rw [hput] at hrun
  obtain ⟨rfl, rfl⟩ := Prod.mk.inj (Option.some.inj hrun)
  rcases hres with ⟨hok, -⟩ | ⟨-, rfl⟩
  · cases hok
  · exact ⟨honly not_false e rfl, S', hwell⟩

/-- **A put for which there is no space** leaves what is read exactly when there was no value. -/
theorem Well.unchanged_iff (h : Well n slack False none env S m)
    (hput : nvdsDataPut rom name (some key) (some v) env = some (.error .noSpace, env')) :
    (∀ buf, readOut rom env' name key buf = readOut rom env name key buf) ↔
      readOut rom env name key none = some ⟨.error .notFound, none, []⟩ := by
  have hvalid : (Call.put name key v).Valid := by
    by_contra hno
    rw [nvdsDataPut_invalid rom env hno] at hput
    cases hput
  obtain ⟨-, S', hwell⟩ := h.failed hrom hn hslack hput hvalid
  have hbefore := fun buf => h.readOut_eq hrom hvalid.1 hvalid.2.1 buf
  have hafter : ∀ buf, readOut rom env' name key buf = some ⟨.error .notFound, none, []⟩ := by
    intro buf
    rw [hwell.readOut_eq hrom hvalid.1 hvalid.2.1, Contents.set_self, getSpec]
  constructor
  · intro hsame
    rw [← hsame none, hafter]
  · intro hnone buf
    have hm : m name key = none := by
      by_contra hne
      obtain ⟨w, hw⟩ := Option.ne_none_iff_exists'.mp hne
      rw [hbefore, hw] at hnone
      cases hnone
    rw [hafter, hbefore, hm, getSpec]

end Failed

/-- **When a put is undone.** In every state that a run from an erased partition reaches, a put that
returns `NVDS_E_NO_SPACE` leaves what `nvds_data_get` returns for its key exactly when that was
`NVDS_E_NOT_FOUND`. -/
theorem put_unchanged_iff {rom : NvdsRom} (hrom : rom.Reliable) {n : ℕ} (h2 : 2 ≤ n) (hn : n ≤ 32)
    {b : ℕ} {dev : Dev} (hdev : b + 4096 * n ≤ flashTotalSize)
    (hblank : Blank dev.flash b (4096 * n)) :
    ∃ env₀, nvdsFlashEnvInit rom b (4096 * n) dev = some (.ok (), env₀) ∧
      ∀ es : List Event, ∃ hist env, runEvents rom es env₀ = some (hist, env) ∧
        ∀ name key v env', nvdsDataPut rom name (some key) (some v) env =
            some (.error .noSpace, env') →
          ((∀ buf, readOut rom env' name key buf = readOut rom env name key buf) ↔
            readOut rom env name key none = some ⟨.error .notFound, none, []⟩) := by
  obtain ⟨env₀, hinit, hall⟩ := run_erased hrom h2 hn hdev hblank
  refine ⟨env₀, hinit, fun es => ?_⟩
  obtain ⟨hist, env, S, hrun, hwell, -⟩ := hall es
  exact ⟨hist, env, hrun, fun _ _ _ _ hput => hwell.unchanged_iff hrom hn (by decide) hput⟩

/-! ### What a storage can hold -/

/-- The slots of a record. -/
def Body.size (b : Body) : ℕ := 1 + b.2.length

/-- The slots of some records. -/
def slotsIn (B : Multiset Body) : ℕ := (B.map Body.size).sum

section Capacity

variable {n ns : ℕ} {key : CString} {S : Store}

theorem slotsIn_add (B B' : Multiset Body) : slotsIn (B + B') = slotsIn B + slotsIn B' := by
  rw [slotsIn, map_add, sum_add, slotsIn, slotsIn]

/-- The cells of a page have at most its slots. -/
theorem sum_cellsOf_le {k : ℕ} (hsize : recsSize (S.page k).recs ≤ 126) :
    ((S.cellsOf k).map fun c => c.record.size).sum ≤ 126 := by
  rw [Store.cellsOf]
  split
  · have hmap : (pageCells k 0 (S.page k).recs).map (fun c => c.record.size) =
        (S.page k).recs.map Rec.size := by
      conv_rhs => rw [← map_record_pageCells k 0 (S.page k).recs, List.map_map]
      rfl
    rw [hmap]
    exact hsize
  · exact Nat.zero_le _

/-- **The records in use** have at most the slots of the used pages. -/
theorem Neat.slotsIn_le {cut : Prop} {t : Option (ℕ × CString)} (h : Neat n cut t S) :
    slotsIn (liveOf n S.shot) ≤ 126 * S.used.length := by
  have hnd := (nodup_append.mp h.nodup_pages).1
  have hlt : ∀ k ∈ S.used, k < n := fun k hk => (h.mem_iff k).mp (mem_append_left _ hk)
  have hpages : ∀ ks : List ℕ, (∀ k ∈ ks, k ∈ S.used) →
      ((ks.flatMap S.cellsOf).map fun c => c.record.size).sum ≤ 126 * ks.length := by
    intro ks hks
    induction ks with
    | nil => exact Nat.zero_le _
    | cons k ks ih =>
      have hpage := sum_cellsOf_le (h.size k (hks k mem_cons_self))
      have hrest := ih fun j hj => hks j (mem_cons_of_mem _ hj)
      rw [flatMap_cons, map_append, sum_append, length_cons]
      omega
  calc slotsIn (liveOf n S.shot)
      = (((S.cells.filter fun c => c.record.live).map fun c => c.record.size)).sum := by
        rw [← coe_live_cells hnd hlt, slotsIn, map_coe, sum_coe, List.map_map]
        rfl
    _ ≤ (S.cells.map fun c => c.record.size).sum :=
        (filter_sublist.map _).sum_le_sum fun _ _ => Nat.zero_le _
    _ ≤ 126 * S.used.length := hpages S.used fun _ hk => hk

theorem slotsIn_fragBodies {v rest : List UInt8} (i : ℕ) (lens : List ℕ)
    (hsum : lens.sum = rest.length) :
    rest.length ≤ 32 * slotsIn (fragBodies ns key v i rest lens : Multiset Body) := by
  induction lens generalizing i rest with
  | nil =>
    rw [← hsum]
    exact Nat.zero_le _
  | cons l lens ih =>
    rw [List.sum_cons] at hsum
    have hrest := ih (i + 1) (show lens.sum = (rest.drop l).length by rw [length_drop]; omega)
    have htake : (rest.take l).length = l := by
      rw [length_take]
      omega
    rw [fragBodies, ← cons_coe, slotsIn, Multiset.map_cons, Multiset.sum_cons, ← slotsIn,
      Body.size, length_slotsOf, htake, entriesOf, entrySize]
    rw [length_drop] at hrest
    omega

/-- **A value takes the slots of its bytes.** -/
theorem Keeps.length_le {v : List UInt8} {B : Multiset Body} (h : Keeps ns key v B) :
    v.length ≤ 32 * slotsIn B := by
  cases h with
  | small _ hle =>
    rw [slotsIn, Multiset.map_singleton, Multiset.sum_singleton, Body.size]
    omega
  | middle _ _ =>
    rw [slotsIn, Multiset.map_singleton, Multiset.sum_singleton, Body.size, length_slotsOf,
      entriesOf, entrySize]
    omega
  | bulk _ _ hcuts =>
    have hfrags := @slotsIn_fragBodies ns key v v 0 _ hcuts.sum_eq
    rw [slotsIn, Multiset.map_cons, Multiset.sum_cons, ← slotsIn]
    omega

/-- **What is stored** fits into all pages but one. -/
theorem Well.length_le {slack : ℕ} {t : Option (ℕ × CString)} {env : FlashEnv} {m : Contents}
    (h : Well n slack False t env S m) {name : Option CString} (hkey : key.len < keyNameMaxSize)
    {v : List UInt8} (hm : m name key = some v) : v.length ≤ 4032 * (n - 1) := by
  have hpages := length_used_add_free h.neat.nodup_pages h.neat.mem_iff
  have hspare : 0 < S.free.length := length_pos_of_ne_nil h.neat.spare
  have hslots := h.neat.slotsIn_le
  rcases hi : nsIndex (nsIds env.nsList) name with _ | i
  · rw [h.shown.undefined name key hi hkey] at hm
    cases hm
  · have hhold := h.shown.holding name i key hi hkey
    rw [hm] at hhold
    have hown := hhold.length_le
    rw [← restOf_add_recsOf (liveOf n S.shot) i key, slotsIn_add] at hslots
    omega

end Capacity

/-- The largest value. -/
def hugeValue : List UInt8 := List.replicate 12800 0

theorem put_small :
    (match nvdsFlashEnvInit steadyRom nvdsFlashInternalAddr nvdsFlashInternalSize erasedDev with
      | some (.ok (), env) =>
        match nvdsDataPut steadyRom none (some keyA) (some [0x2A]) env with
        | some (.ok (), _) => true
        | _ => false
      | _ => false) = true := by
  decide +kernel

/-- A put of a small value, and then one of the largest. -/
theorem exists_failed_put : ∃ env₀ hist env env',
    nvdsFlashEnvInit steadyRom nvdsFlashInternalAddr nvdsFlashInternalSize erasedDev =
        some (.ok (), env₀) ∧
      runEvents steadyRom [.call (.put none keyA [0x2A])] env₀ = some (hist, env) ∧
      nvdsDataPut steadyRom none (some keyA) (some hugeValue) env = some (.error .noSpace, env') ∧
      readOut steadyRom env none keyA none = some ⟨.ok (), some 1, []⟩ := by
  have hkey : keyA.len < keyNameMaxSize := by decide
  have hname : NameOk none := fun _ h => by cases h
  have hlen : hugeValue.length = 12800 := length_replicate
  obtain ⟨env₀, hinit, hwell, -⟩ := @init_erased steadyRom steadyRom_reliable 4
    nvdsFlashInternalAddr erasedDev (by decide) (by decide) fun _ _ _ => rfl
  obtain ⟨r, env, S, o, hput, hwell₁, hres, -, -⟩ := hwell.put (v := [0x2A]) steadyRom_reliable
    (by decide) (by decide) hname hkey (Or.inl rfl) (by decide) (by decide)
  -- the first one succeeds
  have hok : r = .ok () ∧ o = some [0x2A] := by
    rcases hres with hres | ⟨⟨e, rfl⟩, -⟩
    · exact hres
    · have heval := put_small
      rw [show nvdsFlashEnvInit steadyRom nvdsFlashInternalAddr nvdsFlashInternalSize erasedDev =
        some (.ok (), env₀) from hinit] at heval
      simp only [hput] at heval
      exact absurd heval Bool.false_ne_true
  obtain ⟨rfl, rfl⟩ := hok
  obtain ⟨r, env', S', o, hput', hwell', hres', honly, -⟩ := hwell₁.put (v := hugeValue)
    steadyRom_reliable (by decide) (by decide) hname hkey (Or.inl rfl) (by omega) (by omega)
  -- and the second one does not fit
  have hfail : r = .error .noSpace := by
    rcases hres' with ⟨-, rfl⟩ | ⟨⟨e, rfl⟩, -⟩
    · have hle := hwell'.length_le hkey (Contents.set_self _ none keyA (some hugeValue))
      omega
    · rw [honly not_false e rfl]
  subst hfail
  have hrun : runEvents steadyRom [.call (.put none keyA [0x2A])] env₀ =
      some ([(.call (.put none keyA [0x2A]), .code (.ok ()))], env) := by
    have hfirst : (Event.call (.put none keyA [0x2A])).run steadyRom env₀ =
        some (.code (.ok ()), env) := by
      rw [Event.run, Call.run, hput]
      rfl
    rw [runEvents, hfirst]
    rfl
  refine ⟨env₀, _, env, env', hinit, hrun, hput', ?_⟩
  rw [hwell₁.readOut_eq steadyRom_reliable hname hkey, Contents.set_self]
  rfl

/-- On an erased device, after a small value has been put: one that does not fit is not undone,
as there was a value. -/
theorem put_unchanged_iff_keyA : ∃ env₀ hist env env',
    nvdsFlashEnvInit steadyRom nvdsFlashInternalAddr nvdsFlashInternalSize erasedDev =
        some (.ok (), env₀) ∧
      runEvents steadyRom [.call (.put none keyA [0x2A])] env₀ = some (hist, env) ∧
      nvdsDataPut steadyRom none (some keyA) (some hugeValue) env = some (.error .noSpace, env') ∧
      ((∀ buf, readOut steadyRom env' none keyA buf = readOut steadyRom env none keyA buf) ↔
        readOut steadyRom env none keyA none = some ⟨.error .notFound, none, []⟩) := by
  obtain ⟨env₀, hist, env, env', hinit, hrun, hput, -⟩ := exists_failed_put
  obtain ⟨env₁, hinit', hall⟩ := @put_unchanged_iff steadyRom steadyRom_reliable 4 (by decide)
    (by decide) nvdsFlashInternalAddr erasedDev (by decide) fun _ _ _ => rfl
  obtain rfl := (Prod.mk.inj (Option.some.inj (hinit.symm.trans hinit'))).2
  obtain ⟨hist', env'', hrun', hiff⟩ := hall [.call (.put none keyA [0x2A])]
  obtain ⟨rfl, rfl⟩ := Prod.mk.inj (Option.some.inj (hrun.symm.trans hrun'))
  exact ⟨env₀, hist, env, env', hinit, hrun, hput, hiff _ _ _ _ hput⟩

/-- **A put that fails is not undone**: after a small value has been put, one of the largest of the
same key returns `NVDS_E_NO_SPACE`, and what is read is not what was read before. -/
theorem not_put_unchanged :
    ¬∀ (rom : NvdsRom), rom.Reliable → ∀ (n : ℕ), 2 ≤ n → n ≤ 32 → ∀ (b : ℕ) (dev : Dev),
      b + 4096 * n ≤ flashTotalSize → Blank dev.flash b (4096 * n) →
      ∀ env₀, nvdsFlashEnvInit rom b (4096 * n) dev = some (.ok (), env₀) →
      ∀ (es : List Event) hist env, runEvents rom es env₀ = some (hist, env) →
      ∀ name key v env', nvdsDataPut rom name (some key) (some v) env =
          some (.error .noSpace, env') →
        ∀ buf, readOut rom env' name key buf = readOut rom env name key buf := by
  intro hall
  obtain ⟨env₀, hist, env, env', hinit, hrun, hput, hread⟩ := exists_failed_put
  have hsame := hall steadyRom steadyRom_reliable 4 (by decide) (by decide) nvdsFlashInternalAddr
    erasedDev (by decide) (fun _ _ _ => rfl) env₀ hinit _ hist env hrun _ _ _ env' hput
  obtain ⟨env₁, hinit', hiff⟩ := @run_erased steadyRom steadyRom_reliable 4 (by decide) (by decide)
    nvdsFlashInternalAddr erasedDev (by decide) fun _ _ _ => rfl
  obtain rfl := (Prod.mk.inj (Option.some.inj (hinit.symm.trans hinit'))).2
  obtain ⟨hist', env'', S, hrun', hwell, -⟩ := hiff [.call (.put none keyA [0x2A])]
  obtain ⟨rfl, rfl⟩ := Prod.mk.inj (Option.some.inj (hrun.symm.trans hrun'))
  rw [(hwell.unchanged_iff steadyRom_reliable (by decide) (by decide) hput).mp hsame] at hread
  cases hread

end Gd32.Nvds
