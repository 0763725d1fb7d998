import Gd32Firmware.Nvds.Load

/-!
# Loading any image

What holds of a partition that is loaded from a flash with any content, and with a ROM whose calls
may fail: the page records know where their pages are (`InPlace`). The
computations of the storage are followed with a rule for each way in which they are put together
(`NvdsM.Leaves`).
-/

namespace Gd32.Nvds

open NorFlash LittleEndian NvdsM

variable {key : CString} {type : ElementType} {env' : FlashEnv} {pageStart : Option ℕ}
  {k ns idx start : ℕ}

/-! ### What a computation leaves -/

/-- Whatever the computation returns, the environment it leaves satisfies `Q`. -/
def NvdsM.Leaves {α : Type} (Q : FlashEnv → Prop) (env : FlashEnv) (x : NvdsM α) : Prop :=
  ∀ r env', x env = some (r, env') → Q env'

namespace NvdsM

section Leaves

variable {α β : Type} {Q : FlashEnv → Prop} {env : FlashEnv}

theorem leaves_pure (h : Q env) (a : α) : Leaves Q env (pure a : NvdsM α) := by
  rintro r env' hrun
  obtain ⟨-, rfl⟩ := Prod.mk.inj (Option.some.inj hrun)
  exact h

theorem leaves_throw (h : Q env) (e : NvdsErr) : Leaves Q env (throw e : NvdsM α) := by
  rintro r env' hrun
  obtain ⟨-, rfl⟩ := Prod.mk.inj (Option.some.inj hrun)
  exact h

theorem leaves_check (h : Q env) (c : Bool) (e : NvdsErr) : Leaves Q env (check c e) := by
  cases c with
  | false => exact leaves_throw h e
  | true => exact leaves_pure h ()

theorem leaves_modify {f : FlashEnv → FlashEnv} (h : Q (f env)) : Leaves Q env (modify f) := by
  rintro r env' hrun
  obtain ⟨-, rfl⟩ := Prod.mk.inj (Option.some.inj hrun)
  exact h

theorem leaves_look (h : Q env) (f : FlashEnv → Except NvdsErr α) : Leaves Q env (look f) := by
  rintro r env' hrun
  obtain ⟨-, rfl⟩ := Prod.mk.inj (Option.some.inj hrun)
  exact h

theorem leaves_search (h : Q env) (f : FlashEnv → Option (Except NvdsErr α)) :
    Leaves Q env (search f) := by
  rintro r env' hrun
  obtain ⟨s, -, hs⟩ := Option.map_eq_some_iff.mp hrun
  obtain ⟨-, rfl⟩ := Prod.mk.inj hs
  exact h

theorem leaves_attempt {x : NvdsM α} (h : Leaves Q env x) : Leaves Q env (attempt x) := by
  rintro r env' hrun
  obtain ⟨⟨s, env₁⟩, hx, hs⟩ := Option.map_eq_some_iff.mp hrun
  obtain ⟨-, rfl⟩ := Prod.mk.inj hs
  exact h s env₁ hx

/-- If two computations succeed one after the other, both of them do. -/
theorem run_of_bind {x : NvdsM α} {f : α → NvdsM β} {b : β}
    (h : (x >>= f) env = some (.ok b, env')) :
    ∃ a env₁, x env = some (.ok a, env₁) ∧ f a env₁ = some (.ok b, env') := by
  rcases hr : x env with _ | ⟨e | a, env₁⟩
  · change andThen x f env = _ at h
    rw [andThen, hr] at h
    cases h
  · rw [bind_error hr] at h
    cases h
  · rw [bind_ok hr] at h
    exact ⟨a, env₁, rfl, h⟩

/-- **One computation after the other**; the second one is only looked at after a success. -/
theorem leaves_bind {x : NvdsM α} {f : α → NvdsM β} (hx : Leaves Q env x)
    (hf : ∀ a env', x env = some (.ok a, env') → Q env' → Leaves Q env' (f a)) :
    Leaves Q env (x >>= f) := by
  rintro r env' hrun
  rcases hr : x env with _ | ⟨e | a, env₁⟩
  · change andThen x f env = _ at hrun
    rw [andThen, hr] at hrun
    cases hrun
  · rw [bind_error hr] at hrun
    obtain ⟨-, rfl⟩ := Prod.mk.inj (Option.some.inj hrun)
    exact hx _ _ hr
  · rw [bind_ok hr] at hrun
    exact hf a env₁ hr (hx _ _ hr) r env' hrun

theorem look_run {f : FlashEnv → Except NvdsErr α} {a : α}
    (h : look f env = some (.ok a, env')) : f env = .ok a ∧ env' = env := by
  obtain ⟨hok, rfl⟩ := Prod.mk.inj (Option.some.inj h)
  exact ⟨hok, rfl⟩

theorem search_run {f : FlashEnv → Option (Except NvdsErr α)} {r : Except NvdsErr α}
    (h : search f env = some (r, env')) : f env = some r ∧ env' = env := by
  obtain ⟨t, ht, htr⟩ := Option.map_eq_some_iff.mp h
  obtain ⟨rfl, rfl⟩ := Prod.mk.inj htr
  exact ⟨ht, rfl⟩

theorem attempt_run {x : NvdsM α} {r : Except NvdsErr α}
    (h : attempt x env = some (.ok r, env')) : x env = some (r, env') := by
  obtain ⟨⟨s, env₁⟩, hs, hr⟩ := Option.map_eq_some_iff.mp h
  obtain ⟨hok, rfl⟩ := Prod.mk.inj hr
  rw [hs, ← Except.ok.inj hok]

theorem leaves_get {f : FlashEnv → NvdsM β} (h : Leaves Q env (f env)) :
    Leaves Q env (get >>= f) := h

theorem leaves_none (x : NvdsM α) (h : x env = none) : Leaves Q env x := by
  intro r env' hrun
  rw [h] at hrun
  cases hrun

/-- A loop whose rounds keep `Q`. -/
theorem leaves_forEach {f : ℕ → NvdsM Unit} {xs : List ℕ}
    (hf : ∀ x ∈ xs, ∀ env, Q env → Leaves Q env (f x)) (h : Q env) :
    Leaves Q env (forEach f xs) := by
  induction xs generalizing env with
  | nil => exact leaves_pure h ()
  | cons x xs ih =>
    exact leaves_bind (hf x List.mem_cons_self env h) fun _ env' _ hq =>
      ih (fun y hy => hf y (List.mem_cons_of_mem _ hy)) hq

end Leaves

end NvdsM

/-! ### What is found -/

section Found

variable {rom : NvdsRom} {env : FlashEnv}

/-- What is found is an entry in use that can be read and has the type asked for. -/
theorem entryWalk_found {n i : ℕ}
    (h : entryWalk rom env k ns key type n i = some (.ok (some idx))) :
    idx < entryCountPerPage ∧ stateAt (env.pages k).entryStates idx = .used ∧
      ∃ entry, entryRead rom env k idx = .ok entry ∧ elementHit ns key type entry = true := by
  induction n generalizing i with
  | zero => cases h
  | succ n ih =>
    rw [entryWalk] at h
    split at h
    · cases h
    next hi =>
    rw [entryStateGet, if_neg hi] at h
    rcases hr : entryRead rom env k i with e | entry
    · cases hs : stateAt (env.pages k).entryStates i <;> simp [hs, hr] at h
    · cases hs : stateAt (env.pages k).entryStates i with
      | free => simp [hs] at h
      | used =>
        simp only [hs, hr, true_and] at h
        split at h
        next hhit =>
          obtain rfl : i = idx := by simpa using h
          exact ⟨by omega, hs, entry, hr, hhit⟩
        · exact ih h
      | updated =>
        simp only [hs, hr, reduceCtorEq, false_and, if_false] at h
        exact ih h
      | illegal =>
        simp only [hs, hr, reduceCtorEq, false_and, if_false] at h
        exact ih h

theorem pageWalk_found {ks : List ℕ}
    (h : pageWalk rom env ns key type ks start = some (.ok (k, idx))) :
    idx < entryCountPerPage ∧ stateAt (env.pages k).entryStates idx = .used ∧
      ∃ entry, entryRead rom env k idx = .ok entry ∧ elementHit ns key type entry = true := by
  induction ks generalizing start with
  | nil => cases h
  | cons j ks ih =>
    rw [pageWalk] at h
    split at h
    · rcases hw : entryWalk rom env j ns key type 256 start with _ | (e | (_ | i)) <;> rw [hw] at h
      · cases h
      · cases h
      · exact ih h
      · obtain ⟨rfl, rfl⟩ : j = k ∧ i = idx := by simpa using h
        exact entryWalk_found hw
    · exact ih h

theorem elementFind_found
    (h : elementFind rom env ns key pageStart start type = some (.ok (k, idx))) :
    idx < entryCountPerPage ∧ stateAt (env.pages k).entryStates idx = .used ∧
      ∃ entry, entryRead rom env k idx = .ok entry ∧ elementHit ns key type entry = true := by
  unfold elementFind at h
  split at h
  · exact pageWalk_found h
  · split at h <;> exact pageWalk_found h

/-- The fragment that is found, and its header. -/
theorem bulkFragFind_found {frag n : ℕ}
    {entry : Entry}
    (h : bulkFragFind rom env ns key frag n pageStart start = some (.ok (some (k, idx, entry)))) :
    idx < entryCountPerPage ∧ entryRead rom env k idx = .ok entry := by
  induction n generalizing pageStart start with
  | zero => cases h
  | succ n ih =>
    rw [bulkFragFind] at h
    rcases hf : elementFind rom env ns key pageStart start .bulk with _ | (e | ⟨k', idx'⟩) <;>
      rw [hf] at h
    · cases h
    · cases e <;> cases h
    · simp only at h
      rcases hr : entryRead rom env k' idx' with e | entry' <;> rw [hr] at h
      · cases h
      · simp only at h
        split at h
        · obtain ⟨rfl, rfl, rfl⟩ : k' = k ∧ idx' = idx ∧ entry' = entry := by simpa using h
          exact ⟨(elementFind_found hf).1, hr⟩
        · exact ih h

end Found

/-! ### Page records that keep their place -/

/-- An invariant that does not depend on the device and the namespaces, nor on the page records, as
long as they keep their place and the size of their table. -/
structure Placed (Q : FlashEnv → Prop) : Prop where
  page : ∀ env k (p : PageEnv), Q env → p.baseAddr = (env.pages k).baseAddr →
    ((env.pages k).entryStates.length = 8 → p.entryStates.length = 8) → Q (env.setPage k p)
  dev : ∀ env d, Q env → Q { env with dev := d }
  names : ∀ env nss states, Q env → Q { env with nsList := nss, nsStates := states }

section Placed

variable {rom : NvdsRom} {Q : FlashEnv → Prop} (hQ : Placed Q) {env : FlashEnv}
include hQ

/-- A record that keeps its place and its table. -/
theorem Placed.alter (h : Q env) {p : PageEnv}
    (hbase : p.baseAddr = (env.pages k).baseAddr)
    (htable : p.entryStates.length = (env.pages k).entryStates.length) : Q (env.setPage k p) :=
  hQ.page _ _ _ h hbase htable.trans

theorem Placed.nvdsFlashWrite (h : Q env) (offset : ℕ) (data : List UInt8) :
    NvdsM.Leaves Q env (nvdsFlashWrite rom offset data) := by
  rintro r env' hrun
  rw [Nvds.nvdsFlashWrite] at hrun
  split at hrun
  · obtain ⟨-, rfl⟩ := Prod.mk.inj (Option.some.inj hrun)
    exact h
  · obtain ⟨-, rfl⟩ := Prod.mk.inj (Option.some.inj hrun)
    exact hQ.dev _ _ h

theorem Placed.nvdsFlashErase (h : Q env) (offset size : ℕ) :
    NvdsM.Leaves Q env (nvdsFlashErase rom offset size) := by
  rintro r env' hrun
  rw [Nvds.nvdsFlashErase] at hrun
  split at hrun
  · obtain ⟨-, rfl⟩ := Prod.mk.inj (Option.some.inj hrun)
    exact h
  · obtain ⟨-, rfl⟩ := Prod.mk.inj (Option.some.inj hrun)
    exact hQ.dev _ _ h

theorem Placed.entryStateAlter (h : Q env) (k idx : ℕ) (s : EntryState) :
    NvdsM.Leaves Q env (entryStateAlter rom k idx s) := by
  refine leaves_get (leaves_bind (leaves_look h _) fun states env' hlook hq => ?_)
  have hlen : states.length = (env.pages k).entryStates.length ∧ env = env' := by
    obtain ⟨hset, henv⟩ := Prod.mk.inj (Option.some.inj hlook)
    refine ⟨?_, henv⟩
    rw [entryStateSet] at hset
    split at hset
    · cases hset
    split at hset
    · cases hset
    · rw [← Except.ok.inj hset, length_setState]
  refine leaves_bind (leaves_modify (hQ.page _ _ _ hq rfl ?_)) fun _ _ _ hq' =>
    hQ.nvdsFlashWrite hq' _ _
  rw [← hlen.2]
  exact hlen.1.trans

theorem Placed.entryStateRangeAlter (h : Q env) (k first last : ℕ) (s : EntryState) :
    NvdsM.Leaves Q env (entryStateRangeAlter rom k first last s) :=
  leaves_bind (leaves_check h _ _) fun _ _ _ h1 =>
    leaves_forEach (fun _ _ _ hq => hQ.entryStateAlter hq _ _ _) h1

theorem Placed.pageStateAlter (h : Q env) (k state : ℕ) :
    NvdsM.Leaves Q env (pageStateAlter rom k state) :=
  leaves_get (leaves_bind (hQ.nvdsFlashWrite h _ _) fun _ _ _ h1 =>
    leaves_modify (hQ.alter h1 rfl rfl))

theorem Placed.entryWrite (h : Q env) (k : ℕ) (entry : Entry) :
    NvdsM.Leaves Q env (entryWrite rom k entry) :=
  leaves_get (leaves_bind (leaves_check h _ _) fun _ _ _ h1 =>
    leaves_bind (hQ.nvdsFlashWrite h1 _ _) fun _ _ _ h2 =>
      leaves_modify (hQ.alter h2 rfl rfl))

theorem Placed.eraseStale (h : Q env) (page : ℕ) : NvdsM.Leaves Q env (eraseStale rom page) := by
  refine leaves_get ?_
  split
  · exact hQ.nvdsFlashErase h _ _
  · exact leaves_pure h ()

theorem Placed.copyEntry (h : Q env) (victim page idx : ℕ) :
    NvdsM.Leaves Q env (copyEntry rom victim page idx) := by
  refine leaves_get ?_
  split
  · exact leaves_pure h ()
  · exact leaves_bind (leaves_look h _) fun _ _ _ h1 =>
      leaves_bind (hQ.entryWrite h1 _ _) fun _ _ _ h2 =>
        leaves_get (hQ.entryStateAlter h2 _ _ _)

theorem Placed.loadEntry (h : Q env) (k idx : ℕ) (entry : Entry) :
    NvdsM.Leaves Q env (loadEntry rom k idx entry) := by
  refine leaves_bind (leaves_attempt ?_) fun _ env1 _ h1 => leaves_bind
    (leaves_modify ?_) fun _ _ _ h2 => leaves_bind
      (leaves_modify (hQ.alter h2 rfl rfl)) fun _ _ _ h3 => leaves_pure h3 _
  · split
    · exact hQ.entryStateAlter h _ _ _
    · exact leaves_pure h ()
  · split
    · exact hQ.names env1 _ _ h1
    · exact h1

theorem Placed.loadWalk (h : Q env) (k n idx : ℕ) : NvdsM.Leaves Q env (loadWalk rom k n idx) := by
  induction n generalizing env idx with
  | zero => exact leaves_pure h ()
  | succ n ih =>
    rw [Nvds.loadWalk]
    split
    · exact leaves_pure h ()
    refine leaves_get ?_
    cases stateAt (env.pages k).entryStates idx with
    | free => exact leaves_modify (hQ.alter h rfl rfl)
    | illegal =>
      exact leaves_bind (leaves_attempt (hQ.entryStateAlter h _ _ _))
        fun _ _ _ h1 => ih h1 _
    | updated => exact ih h _
    | used =>
      exact leaves_bind (leaves_look h _) fun entry _ _ h1 =>
        leaves_bind (hQ.loadEntry h1 k idx entry) fun _ _ _ h2 => ih h2 _

end Placed

/-! ### Pages in their places -/

/-- The page records know where their pages are, and their tables have a place for every entry. -/
structure InPlace (env : FlashEnv) : Prop where
  base : ∀ k, (env.pages k).baseAddr = k * spiFlashSecSize
  table : ∀ k, (env.pages k).entryStates.length = 8

section InPlace

variable {rom : NvdsRom} {env : FlashEnv}

/-- A page record is replaced by one for the same page. -/
theorem InPlace.setPage (h : InPlace env) {p : PageEnv}
    (hbase : p.baseAddr = k * spiFlashSecSize) (htable : p.entryStates.length = 8) :
    InPlace (env.setPage k p) := by
  constructor
  · intro j
    rcases eq_or_ne j k with rfl | hj
    · simpa [FlashEnv.setPage] using hbase
    · simpa [FlashEnv.setPage, hj] using h.base j
  · intro j
    rcases eq_or_ne j k with rfl | hj
    · simpa [FlashEnv.setPage] using htable
    · simpa [FlashEnv.setPage, hj] using h.table j

theorem inPlace_placed : Placed InPlace where
  page _ k _ h hbase htable := h.setPage (hbase.trans (h.base k)) (htable (h.table k))
  dev _ _ h := ⟨h.base, h.table⟩
  names _ _ _ h := ⟨h.base, h.table⟩

/-! ### Opening a page -/

theorem inPlace_openPage (h : InPlace env) (page seq : ℕ) :
    NvdsM.Leaves InPlace env (openPage rom page seq) :=
  leaves_bind (inPlace_placed.eraseStale h page) fun _ _ _ h1 => leaves_bind
    (leaves_modify (h1.setPage (h1.base page) rfl)) fun _ _ _ h2 => leaves_get
      (leaves_bind (inPlace_placed.nvdsFlashWrite h2 _ _) fun _ _ _ h3 => leaves_bind
        (inPlace_placed.pageStateAlter h3 _ _) fun _ _ _ h4 =>
          leaves_modify ⟨h4.base, h4.table⟩)

theorem inPlace_evacuate (h : InPlace env) (victim page : ℕ) :
    NvdsM.Leaves InPlace env (evacuate rom victim page) :=
  leaves_bind (leaves_modify ⟨h.base, h.table⟩) fun _ _ _ h1 =>
    leaves_bind (inPlace_placed.pageStateAlter h1 _ _) fun _ _ _ h2 => leaves_bind
      (leaves_forEach (fun _ _ _ hq => inPlace_placed.copyEntry hq _ _ _) h2)
        fun _ _ _ h3 => leaves_get
          (leaves_bind (inPlace_placed.nvdsFlashErase h3 _ _) fun _ _ _ h4 =>
            leaves_modify (h4.setPage (h4.base victim) rfl))

theorem inPlace_newPageRequest (h : InPlace env) (seq : ℕ) :
    NvdsM.Leaves InPlace env (newPageRequest rom seq) := by
  refine leaves_bind (leaves_attempt (leaves_get ?_)) fun _ _ _ h1 =>
    leaves_pure h1 _
  rcases env.pageFree with _ | ⟨page, _ | ⟨page', rest⟩⟩
  · exact leaves_throw h _
  · rcases pickVictim env with _ | victim
    · exact leaves_throw h _
    · exact leaves_bind (inPlace_openPage h page seq) fun _ _ _ h2 =>
        leaves_bind (inPlace_evacuate h2 victim page) fun _ _ _ h3 =>
          leaves_pure h3 _
  · exact leaves_bind (inPlace_openPage h page seq) fun _ _ _ h2 => leaves_pure h2 _

/-! ### Loading -/

theorem inPlace_pushFree (h : InPlace env) (k : ℕ) :
    NvdsM.Leaves InPlace env (pushFree k) := leaves_modify ⟨h.base, h.table⟩

theorem inPlace_loadSector (h : InPlace env) (k : ℕ) (isErr : Bool) :
    NvdsM.Leaves InPlace env (loadSector rom k isErr) := by
  have hfree : ∀ {env : FlashEnv} (b : Bool), InPlace env →
      NvdsM.Leaves InPlace env (pushFree k >>= fun _ => (pure b : NvdsM Bool)) :=
    fun b h => leaves_bind (inPlace_pushFree h k) fun _ _ _ h1 => leaves_pure h1 b
  refine leaves_bind (leaves_modify (h.setPage rfl rfl)) fun _ env1 _ h1 =>
    leaves_get ?_
  split
  · exact hfree _ h1
  rcases hr : entryStatesTableRead rom env1 (k * spiFlashSecSize) with e | states
  · exact hfree _ h1
  have hlen : states.length = 8 := by
    rw [entryStatesTableRead] at hr
    rcases hf : nvdsFlashRead rom env1 (k * spiFlashSecSize + pageEntryStatesOffset) entrySize
      with e | bs
    · rw [hf] at hr
      cases hr
    · rw [hf] at hr
      rw [← Except.ok.inj hr]
      simp [tableWords]
  refine leaves_bind (leaves_modify (h1.setPage (h1.base k) hlen)) fun _ _ _ h2 =>
    leaves_bind (leaves_attempt (inPlace_placed.loadWalk h2 k _ _)) fun r _ _ h3 => ?_
  split
  · exact hfree _ h3
  · exact leaves_bind (leaves_modify ⟨h3.base, h3.table⟩) fun _ _ _ h4 =>
      leaves_pure h4 _

theorem inPlace_loadSectors (h : InPlace env) (ks : List ℕ) (isErr : Bool) :
    NvdsM.Leaves InPlace env (loadSectors rom ks isErr) := by
  induction ks generalizing env isErr with
  | nil => exact leaves_pure h isErr
  | cons k ks ih =>
    exact leaves_bind (inPlace_loadSector h k isErr) fun _ _ _ h1 => ih h1 _

theorem inPlace_pagesLoad (h : InPlace env) : NvdsM.Leaves InPlace env (pagesLoad rom) := by
  refine leaves_get (leaves_bind (leaves_check h _ _) fun _ _ _ h1 =>
    leaves_bind (inPlace_loadSectors h1 _ _)
      fun _ _ _ h2 => leaves_bind (leaves_modify ⟨h2.base, h2.table⟩)
        fun _ _ _ h3 => leaves_get ?_)
  split
  · exact leaves_bind (inPlace_newPageRequest h3 0) fun _ _ _ h4 => leaves_pure h4 ()
  · exact leaves_pure h3 ()

/-- **The pages of a loaded partition are in their places**, whatever the flash holds. -/
theorem inPlace_nvdsFlashEnvInit {b l : ℕ} {dev : Dev} {r : Except NvdsErr Unit}
    (h : nvdsFlashEnvInit rom b l dev = some (r, env)) : InPlace env :=
  inPlace_pagesLoad ⟨fun _ => rfl, fun _ => rfl⟩ r env h

end InPlace

end Gd32.Nvds
