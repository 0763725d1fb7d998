import Gd32Firmware.Lib.Machine
import Mathlib.Data.BitVec
import Mathlib.Data.List.Count

/-!
# The count of busy peripherals and the sleep lock

`gd32_peri_busy_inc` and `gd32_peri_busy_dec` of `tkl_sleep.c` count the peripherals that need their
clock, and hold a bit of the word of `wakelock.c` while the count is not zero. The count and the word
are two variables: each is changed by one atomic operation, but a call makes two of them, and another
task or an interrupt may run in between.

`Tkl.lock_calm` says in which runs the bit follows the count, `Tkl.not_lock_lateRelease`
that it does not in every run: the second half of the last `dec` may come after a new `inc`.
-/

namespace Gd32

open List

variable {w : BitVec 32} {pc : TaskPc}

namespace Tkl

/-! ### Calls as atomic operations -/

def busyLockId : ℕ := 6

/-- What a task or an interrupt does next. -/
inductive TaskPc where
  | idle
  /-- The `atomic_fetch_add` of `gd32_peri_busy_inc`. -/
  | inc
  /-- The `atomic_fetch_sub` of `gd32_peri_busy_dec`. -/
  | dec
  /-- The `atomic_fetch_or` of `sys_wakelock_acquire`. -/
  | acquire (lockId : ℕ)
  /-- The `atomic_fetch_and` of `sys_wakelock_release`. -/
  | release (lockId : ℕ)
  deriving DecidableEq

/-- The two words, and where the tasks and interrupts are. -/
structure Locks where
  /-- `peri_busy_count`, an `int`. -/
  periBusyCount : ℤ
  wakeLock : BitVec 32
  tasks : List TaskPc
  /-- The number of calls of `gd32_peri_busy_inc`. -/
  incs : ℕ
  /-- The number of calls of `gd32_peri_busy_dec`. -/
  decs : ℕ

/-- An `int` after an atomic operation, which wraps around. -/
def wrapInt (x : ℤ) : ℤ := Int.bmod x (2 ^ 32)

/-- A task goes on. -/
def Locks.go (s : Locks) (t : ℕ) (pc : TaskPc) : Locks := { s with tasks := s.tasks.set t pc }

/-- The next atomic operation of a task. -/
def Locks.atomic (s : Locks) (t : ℕ) : TaskPc → Option Locks
  | .idle => none
  | .inc =>
    some { s.go t (if s.periBusyCount = 0 then .acquire busyLockId else .idle) with
      periBusyCount := wrapInt (s.periBusyCount + 1) }
  | .dec =>
    some { s.go t (if s.periBusyCount = 1 then .release busyLockId else .idle) with
      periBusyCount := wrapInt (s.periBusyCount - 1) }
  | .acquire lockId => some { s.go t .idle with wakeLock := s.wakeLock ||| 1#32 <<< lockId }
  | .release lockId => some { s.go t .idle with wakeLock := s.wakeLock &&& ~~~(1#32 <<< lockId) }

/-- What can happen. -/
inductive LockEvent where
  /-- A task calls `gd32_peri_busy_inc`. -/
  | callInc (t : ℕ)
  /-- A task calls `gd32_peri_busy_dec`. -/
  | callDec (t : ℕ)
  /-- A task calls `sys_wakelock_acquire` with a lock of its own. -/
  | callAcquire (t lockId : ℕ)
  /-- A task calls `sys_wakelock_release` with a lock of its own. -/
  | callRelease (t lockId : ℕ)
  /-- A task goes on with its next atomic operation. -/
  | step (t : ℕ)

/-- A task that does nothing calls something. -/
def Locks.call (s : Locks) (t : ℕ) (pc : TaskPc) : Option Locks :=
  if s.tasks[t]? = some .idle then some (s.go t pc) else none

/-- The calls of `gd32_peri_busy_inc` that have not returned. -/
def Locks.incsRunning (s : Locks) : ℕ := s.tasks.count .inc + s.tasks.count (.acquire busyLockId)

/-- One event. A `dec` is called for an `inc` that has returned; other code has other locks. -/
def lockStep (i : LockEvent) (s : Locks) : Option Locks :=
  match i with
  | .callInc t => (s.call t .inc).map fun s => { s with incs := s.incs + 1 }
  | .callDec t =>
    if s.decs + s.incsRunning < s.incs then
      (s.call t .dec).map fun s => { s with decs := s.decs + 1 }
    else none
  | .callAcquire t lockId =>
    if lockId < 32 ∧ lockId ≠ busyLockId then s.call t (.acquire lockId) else none
  | .callRelease t lockId =>
    if lockId < 32 ∧ lockId ≠ busyLockId then s.call t (.release lockId) else none
  | .step t => (s.tasks[t]?).bind (s.atomic t)

/-- `n` tasks and interrupts that do nothing yet, and no lock held. -/
def locksInit (n : ℕ) : Locks := ⟨0, 0, List.replicate n .idle, 0, 0⟩

/-! ### What is to be so -/

/-- The bit of the lock. -/
def Locks.busyLock (s : Locks) : Bool := s.wakeLock.getLsbD busyLockId

/-- No call of `gd32_peri_busy_inc` or `gd32_peri_busy_dec` is in progress. -/
def Locks.Quiet (s : Locks) : Prop :=
  ∀ pc ∈ s.tasks, pc ≠ .inc ∧ pc ≠ .dec ∧ pc ≠ .acquire busyLockId ∧ pc ≠ .release busyLockId

/-- **The lock follows the count**, and the count the calls. -/
def LockRight (s : Locks) : Prop :=
  s.Quiet → (s.busyLock = true ↔ 0 < s.periBusyCount) ∧
    s.periBusyCount = (s.incs : ℤ) - s.decs

/-- The second half of a `dec` runs while the count is zero, or before the second half of an `inc`;
and the votes held fit an `int`. -/
def LockEvent.Calm (s : Locks) : LockEvent → Prop
  | .step t =>
    (s.tasks[t]? = some (.release busyLockId) →
      s.periBusyCount = 0 ∨ TaskPc.acquire busyLockId ∈ s.tasks) ∧
    (s.tasks[t]? = some .inc → s.periBusyCount + 1 < 2 ^ 31)
  | _ => True

/-! ### The words -/

/-- A word between zero and half of the range stays as it is. -/
theorem wrapInt_of_lt {x : ℤ} (h : 0 ≤ x) (h' : x < 2 ^ 31) : wrapInt x = x := by
  have hmod : x % ((2 ^ 32 : ℕ) : ℤ) = x := Int.emod_eq_of_lt h (by omega)
  rw [wrapInt, Int.bmod, hmod]
  exact if_pos (by omega)

/-- Taking a lock sets its bit. -/
theorem getLsbD_acquire {i k : ℕ} (hk : k < 32) :
    (w ||| 1#32 <<< i).getLsbD k = (w.getLsbD k || decide (i = k)) := by
  rw [BitVec.getLsbD_or, ← BitVec.twoPow_eq, BitVec.getLsbD_twoPow]
  by_cases h : i = k
  · rw [decide_eq_true h, decide_eq_true (h ▸ hk), Bool.true_and]
  · rw [decide_eq_false h, Bool.and_false]

/-- Releasing a lock clears its bit. -/
theorem getLsbD_release {i k : ℕ} (hk : k < 32) :
    (w &&& ~~~(1#32 <<< i)).getLsbD k = (w.getLsbD k && decide (i ≠ k)) := by
  rw [BitVec.getLsbD_and, BitVec.getLsbD_not, ← BitVec.twoPow_eq, BitVec.getLsbD_twoPow]
  by_cases h : i = k
  · subst h
    simp [hk]
  · simp [h, hk]

/-- A task leaves one place and comes to another. -/
theorem count_tasks_set {l : List TaskPc} {t : ℕ} {old : TaskPc} (h : l[t]? = some old)
    (new pc : TaskPc) :
    (l.set t new).count pc + (if old = pc then 1 else 0) =
      l.count pc + if new = pc then 1 else 0 := by
  obtain ⟨ht, hold⟩ := List.getElem?_eq_some_iff.mp h
  have hpos : old = pc → 0 < l.count pc := fun hpc =>
    count_pos_iff.mpr (hpc ▸ hold ▸ getElem_mem ht)
  rw [count_set ht, hold]
  simp only [beq_iff_eq]
  split_ifs with h₁ <;> first | omega | (have h := hpos h₁; omega)

/-- The same for the four places that matter. -/
theorem counts_set {l : List TaskPc} {t : ℕ} {old : TaskPc} (h : l[t]? = some old) (new : TaskPc) :
    let moved pc := (l.set t new).count pc + (if old = pc then 1 else 0) =
      l.count pc + if new = pc then 1 else 0
    moved .inc ∧ moved .dec ∧ moved (.acquire busyLockId) ∧ moved (.release busyLockId) :=
  ⟨count_tasks_set h new _, count_tasks_set h new _, count_tasks_set h new _,
    count_tasks_set h new _⟩

/-! ### Every event keeps the bit and the count together -/

/-- What is so between the operations: while the count and the bit differ, a task is on its way to
set the bit or to clear it. -/
structure Locks.Inv (s : Locks) : Prop where
  counted : s.periBusyCount =
    ((s.incs : ℤ) - s.tasks.count .inc) - ((s.decs : ℤ) - s.tasks.count .dec)
  matched : s.decs + s.incsRunning ≤ s.incs
  bound : s.periBusyCount < 2 ^ 31
  locked : s.busyLock = true → s.periBusyCount = 0 → 0 < s.tasks.count (.release busyLockId)
  unlocked : s.busyLock = false → 0 < s.periBusyCount → 0 < s.tasks.count (.acquire busyLockId)

theorem locksInit_inv (n : ℕ) : (locksInit n).Inv where
  counted := by simp [locksInit, count_replicate]
  matched := by simp [locksInit, Locks.incsRunning, count_replicate]
  bound := by simp [locksInit]
  locked h := absurd h (by simp [locksInit, Locks.busyLock])
  unlocked _ h := absurd h (by simp [locksInit])

namespace Locks.Inv

variable {s s' : Locks} {t : ℕ}

/-- The count is at least the number of tasks on their way to set the bit. -/
theorem acquire_le (hs : s.Inv) :
    (s.tasks.count (.acquire busyLockId) : ℤ) + s.tasks.count .dec ≤ s.periBusyCount := by
  have hmatched := hs.matched
  have hcounted := hs.counted
  rw [Locks.incsRunning] at hmatched
  omega

/-- Who calls was doing nothing. -/
theorem call_eq_some (hc : s.call t pc = some s') :
    s.tasks[t]? = some .idle ∧ s' = s.go t pc := by
  rw [Locks.call] at hc
  split at hc
  · rename_i ht
    exact ⟨ht, (Option.some.inj hc).symm⟩
  · cases hc

/-- A task calls something that is not one of the two. -/
theorem call (hs : s.Inv) (hpc : pc ≠ .inc ∧ pc ≠ .dec ∧
    pc ≠ .acquire busyLockId ∧ pc ≠ .release busyLockId) (hc : s.call t pc = some s') :
    s'.Inv := by
  obtain ⟨ht, rfl⟩ := call_eq_some hc
  obtain ⟨h₁, h₂, h₃, h₄⟩ := hpc
  obtain ⟨hinc, hdec, hacquire, hrelease⟩ := counts_set ht pc
  simp only [reduceCtorEq, if_false, if_neg h₁, if_neg h₂, if_neg h₃, if_neg h₄,
    add_zero] at hinc hdec hacquire hrelease
  exact
    { counted := by rw [Locks.go, hinc, hdec]; exact hs.counted
      matched := by rw [Locks.incsRunning, Locks.go, hinc, hacquire]; exact hs.matched
      bound := hs.bound
      locked := by rw [Locks.go, hrelease]; exact hs.locked
      unlocked := by rw [Locks.go, hacquire]; exact hs.unlocked }

theorem callInc (hs : s.Inv) (hc : s.call t .inc = some s') :
    Locks.Inv { s' with incs := s'.incs + 1 } := by
  obtain ⟨ht, rfl⟩ := call_eq_some hc
  obtain ⟨hinc, hdec, hacquire, hrelease⟩ := counts_set ht .inc
  simp only [reduceCtorEq, if_false, if_true, add_zero] at hinc hdec hacquire hrelease
  have hcounted := hs.counted
  have hmatched := hs.matched
  rw [Locks.incsRunning] at hmatched
  exact
    { counted := by dsimp only [Locks.go]; omega
      matched := by dsimp only [Locks.incsRunning, Locks.go]; omega
      bound := hs.bound
      locked := by dsimp only [Locks.go]; rw [hrelease]; exact hs.locked
      unlocked := by dsimp only [Locks.go]; rw [hacquire]; exact hs.unlocked }

theorem callDec (hs : s.Inv) (hheld : s.decs + s.incsRunning < s.incs)
    (hc : s.call t .dec = some s') : Locks.Inv { s' with decs := s'.decs + 1 } := by
  obtain ⟨ht, rfl⟩ := call_eq_some hc
  obtain ⟨hinc, hdec, hacquire, hrelease⟩ := counts_set ht .dec
  simp only [reduceCtorEq, if_false, if_true, add_zero] at hinc hdec hacquire hrelease
  have hcounted := hs.counted
  rw [Locks.incsRunning] at hheld
  exact
    { counted := by dsimp only [Locks.go]; omega
      matched := by dsimp only [Locks.incsRunning, Locks.go]; omega
      bound := hs.bound
      locked := by dsimp only [Locks.go]; rw [hrelease]; exact hs.locked
      unlocked := by dsimp only [Locks.go]; rw [hacquire]; exact hs.unlocked }

/-- The first half of an `inc`: at zero the second half is still to come. -/
theorem fetchAdd (hs : s.Inv) (ht : s.tasks[t]? = some .inc)
    (hbound : s.periBusyCount + 1 < 2 ^ 31) :
    Locks.Inv { s.go t (if s.periBusyCount = 0 then .acquire busyLockId else .idle) with
      periBusyCount := wrapInt (s.periBusyCount + 1) } := by
  have hle := hs.acquire_le
  have hcounted := hs.counted
  have hunlocked := hs.unlocked
  rw [wrapInt_of_lt (by omega) hbound]
  by_cases hzero : s.periBusyCount = 0
  · rw [if_pos hzero]
    obtain ⟨hinc, hdec, hacquire, -⟩ := counts_set ht (.acquire busyLockId)
    simp only [reduceCtorEq, if_false, if_true, add_zero] at hinc hdec hacquire
    exact
      { counted := by dsimp only [Locks.go]; omega
        matched := by dsimp only [Locks.incsRunning, Locks.go]; omega
        bound := hbound
        locked := fun _ h => by dsimp only at h; omega
        unlocked := fun _ _ => by dsimp only [Locks.go]; omega }
  · rw [if_neg hzero]
    obtain ⟨hinc, hdec, hacquire, -⟩ := counts_set ht .idle
    simp only [reduceCtorEq, if_false, if_true, add_zero] at hinc hdec hacquire
    exact
      { counted := by dsimp only [Locks.go]; omega
        matched := by dsimp only [Locks.incsRunning, Locks.go]; omega
        bound := hbound
        locked := fun _ h => by dsimp only at h; omega
        unlocked := fun h _ => by
          have hpos := hunlocked h (by omega)
          dsimp only [Locks.go]
          omega }

/-- The first half of a `dec`: at one the second half is still to come. -/
theorem fetchSub (hs : s.Inv) (ht : s.tasks[t]? = some .dec) :
    Locks.Inv { s.go t (if s.periBusyCount = 1 then .release busyLockId else .idle) with
      periBusyCount := wrapInt (s.periBusyCount - 1) } := by
  have hle := hs.acquire_le
  have hcounted := hs.counted
  have hbound := hs.bound
  have hunlocked := hs.unlocked
  have hpos : 0 < s.tasks.count .dec := count_pos_iff.mpr (mem_of_getElem? ht)
  rw [wrapInt_of_lt (by omega) (by omega)]
  by_cases hone : s.periBusyCount = 1
  · rw [if_pos hone]
    obtain ⟨hinc, hdec, hacquire, hrelease⟩ := counts_set ht (.release busyLockId)
    simp only [reduceCtorEq, if_false, if_true, add_zero] at hinc hdec hacquire hrelease
    exact
      { counted := by dsimp only [Locks.go]; omega
        matched := by dsimp only [Locks.incsRunning, Locks.go]; omega
        bound := by dsimp only; omega
        locked := fun _ _ => by dsimp only [Locks.go]; omega
        unlocked := fun _ h => by dsimp only at h; omega }
  · rw [if_neg hone]
    obtain ⟨hinc, hdec, hacquire, -⟩ := counts_set ht .idle
    simp only [reduceCtorEq, if_false, if_true, add_zero] at hinc hdec hacquire
    exact
      { counted := by dsimp only [Locks.go]; omega
        matched := by dsimp only [Locks.incsRunning, Locks.go]; omega
        bound := by dsimp only; omega
        locked := fun _ h => by dsimp only at h; omega
        unlocked := fun h _ => by
          have hpos := hunlocked h (by omega)
          dsimp only [Locks.go]
          omega }

end Locks.Inv

namespace Locks.Inv

variable {s s' : Locks} {t lockId : ℕ}

/-- A task that ends something that is not one of the two. -/
theorem done (hs : s.Inv) (ht : s.tasks[t]? = some pc) (hpc : pc ≠ .inc ∧ pc ≠ .dec ∧
    pc ≠ .acquire busyLockId ∧ pc ≠ .release busyLockId)
    (hw : w.getLsbD busyLockId = s.busyLock) :
    Locks.Inv { s.go t .idle with wakeLock := w } := by
  obtain ⟨h₁, h₂, h₃, h₄⟩ := hpc
  obtain ⟨hinc, hdec, hacquire, hrelease⟩ := counts_set ht .idle
  simp only [reduceCtorEq, if_false, if_neg h₁, if_neg h₂, if_neg h₃, if_neg h₄,
    add_zero] at hinc hdec hacquire hrelease
  exact
    { counted := by dsimp only [Locks.go]; rw [hinc, hdec]; exact hs.counted
      matched := by
        rw [Locks.incsRunning]
        dsimp only [Locks.go]
        rw [hinc, hacquire]
        exact hs.matched
      bound := hs.bound
      locked := by
        rw [Locks.busyLock]
        dsimp only [Locks.go]
        rw [hrelease, hw]
        exact hs.locked
      unlocked := by
        rw [Locks.busyLock]
        dsimp only [Locks.go]
        rw [hacquire, hw]
        exact hs.unlocked }

/-- The second half of an `inc`, or another lock is taken. -/
theorem fetchOr (hs : s.Inv) (ht : s.tasks[t]? = some (.acquire lockId)) :
    Locks.Inv { s.go t .idle with wakeLock := s.wakeLock ||| 1#32 <<< lockId } := by
  by_cases hid : lockId = busyLockId
  · subst hid
    have hle := hs.acquire_le
    have hcounted := hs.counted
    have hbit : (s.wakeLock ||| 1#32 <<< busyLockId).getLsbD busyLockId = true := by
      rw [getLsbD_acquire (by decide), decide_eq_true rfl, Bool.or_true]
    obtain ⟨hinc, hdec, hacquire, -⟩ := counts_set ht .idle
    simp only [reduceCtorEq, if_false, if_true, add_zero] at hinc hdec hacquire
    exact
      { counted := by dsimp only [Locks.go]; omega
        matched := by dsimp only [Locks.incsRunning, Locks.go]; omega
        bound := hs.bound
        locked := fun _ h => by dsimp only [Locks.go] at h; omega
        unlocked := fun h _ => Bool.noConfusion (hbit.symm.trans h) }
  · refine hs.done ht ⟨nofun, nofun, fun h => ?_, nofun⟩ ?_
    · cases h
      exact hid rfl
    · rw [getLsbD_acquire (by decide), decide_eq_false hid, Bool.or_false]
      rfl

/-- The second half of a `dec`, or another lock is released. -/
theorem fetchAnd (hs : s.Inv) (ht : s.tasks[t]? = some (.release lockId))
    (hcalm : lockId = busyLockId → s.periBusyCount = 0 ∨ TaskPc.acquire busyLockId ∈ s.tasks) :
    Locks.Inv { s.go t .idle with wakeLock := s.wakeLock &&& ~~~(1#32 <<< lockId) } := by
  by_cases hid : lockId = busyLockId
  · subst hid
    have hbit : (s.wakeLock &&& ~~~(1#32 <<< busyLockId)).getLsbD busyLockId = false := by
      rw [getLsbD_release (by decide), decide_eq_false (by simp), Bool.and_false]
    have hcounted := hs.counted
    have hmatched := hs.matched
    rw [Locks.incsRunning] at hmatched
    obtain ⟨hinc, hdec, hacquire, -⟩ := counts_set ht .idle
    simp only [reduceCtorEq, if_false, add_zero] at hinc hdec hacquire
    exact
      { counted := by dsimp only [Locks.go]; omega
        matched := by dsimp only [Locks.incsRunning, Locks.go]; omega
        bound := hs.bound
        locked := fun h _ => Bool.noConfusion (hbit.symm.trans h)
        unlocked := fun _ h => by
          dsimp only [Locks.go] at h ⊢
          rcases hcalm rfl with hzero | hmem
          · omega
          · have hpos := count_pos_iff.mpr hmem
            omega }
  · refine hs.done ht ⟨nofun, nofun, nofun, fun h => ?_⟩ ?_
    · cases h
      exact hid rfl
    · rw [getLsbD_release (by decide), decide_eq_true hid, Bool.and_true]
      rfl

/-- One event: one case for each call, and one for each atomic operation. -/
theorem step (hs : s.Inv) {i : LockEvent} (hcalm : LockEvent.Calm s i)
    (hi : lockStep i s = some s') : s'.Inv := by
  cases i with
  | callInc t =>
    obtain ⟨u, hu, rfl⟩ := Option.map_eq_some_iff.mp hi
    exact hs.callInc hu
  | callDec t =>
    rw [lockStep] at hi
    split at hi
    · rename_i hheld
      obtain ⟨u, hu, rfl⟩ := Option.map_eq_some_iff.mp hi
      exact hs.callDec hheld hu
    · cases hi
  | callAcquire t lockId =>
    rw [lockStep] at hi
    split at hi
    · rename_i hid
      refine hs.call ?_ hi
      exact ⟨nofun, nofun, fun h => hid.2 (TaskPc.acquire.inj h), nofun⟩
    · cases hi
  | callRelease t lockId =>
    rw [lockStep] at hi
    split at hi
    · rename_i hid
      refine hs.call ?_ hi
      exact ⟨nofun, nofun, nofun, fun h => hid.2 (TaskPc.release.inj h)⟩
    · cases hi
  | step t =>
    obtain ⟨pc, hpc, hi⟩ := Option.bind_eq_some_iff.mp hi
    obtain ⟨hrelease, hinc⟩ := hcalm
    cases pc with
    | idle => cases hi
    | inc =>
      cases hi
      exact hs.fetchAdd hpc (hinc hpc)
    | dec =>
      cases hi
      exact hs.fetchSub hpc
    | acquire lockId =>
      cases hi
      exact hs.fetchOr hpc
    | release lockId =>
      cases hi
      exact hs.fetchAnd hpc fun hid => hrelease (hid ▸ hpc)

/-- While no call is in progress the bit and the count say the same. -/
theorem lockRight (hs : s.Inv) : LockRight s := by
  intro hquiet
  have hnone (pc : TaskPc) (hpc : pc ∉ s.tasks) : s.tasks.count pc = 0 := count_eq_zero.mpr hpc
  have hinc := hnone .inc fun h => (hquiet _ h).1 rfl
  have hdec := hnone .dec fun h => (hquiet _ h).2.1 rfl
  have hacquire := hnone (.acquire busyLockId) fun h => (hquiet _ h).2.2.1 rfl
  have hrelease := hnone (.release busyLockId) fun h => (hquiet _ h).2.2.2 rfl
  have hcounted := hs.counted
  have hle := hs.acquire_le
  refine ⟨⟨fun hbit => ?_, fun hpos => ?_⟩, by omega⟩
  · by_contra hno
    have := hs.locked hbit (by omega)
    omega
  · cases hbit : s.busyLock with
    | true => rfl
    | false =>
      have := hs.unlocked hbit hpos
      omega

end Locks.Inv

/-- **In a run in which the second half of a `dec` never comes after a later `inc` has ended, the
lock follows the count whenever no call is in progress.** -/
theorem lock_calm {n : ℕ} {s : Locks}
    (h : Machine.Reach lockStep LockEvent.Calm (locksInit n) s) : LockRight s :=
  (h.invariant (locksInit_inv n) fun hs hcalm hi => hs.step hcalm hi).lockRight

instance (s : Locks) : (i : LockEvent) → Decidable (i.Calm s)
  | .step t =>
    inferInstanceAs (Decidable ((s.tasks[t]? = some (.release busyLockId) →
        s.periBusyCount = 0 ∨ TaskPc.acquire busyLockId ∈ s.tasks) ∧
      (s.tasks[t]? = some .inc → s.periBusyCount + 1 < 2 ^ 31)))
  | .callInc _ => .isTrue trivial
  | .callDec _ => .isTrue trivial
  | .callAcquire _ _ => .isTrue trivial
  | .callRelease _ _ => .isTrue trivial

/-- Two tasks with a vote each, which overlap, and a lock of another kind. -/
def overlapRun : List LockEvent :=
  [.callInc 0, .callInc 1, .step 0, .step 1, .callAcquire 1 5, .step 0, .step 1, .callDec 0, .step 0]

theorem lock_calm_overlap :
    ∃ s, Machine.run lockStep overlapRun (locksInit 2) = some s ∧ s.busyLock = true ∧
      s.periBusyCount = 1 ∧ LockRight s := by
  have hrun : Machine.run lockStep overlapRun (locksInit 2) = some _ := rfl
  have hmeets : Machine.Meets lockStep LockEvent.Calm overlapRun (locksInit 2) := by decide
  exact ⟨_, hrun, by decide, by decide, lock_calm (.of_run_of_meets hrun hmeets)⟩

/-- A `dec` is interrupted between its halves by an `inc`. -/
def lateReleaseRun : List LockEvent :=
  [.callInc 0, .step 0, .step 0, .callDec 0, .step 0, .callInc 1, .step 1, .step 1, .step 0]

/-- **An `inc` between the halves of the last `dec` is lost**: the count is one, the bit is clear. -/
theorem not_lock_lateRelease :
    ∃ s, Machine.Reach lockStep (fun _ _ => True) (locksInit 2) s ∧ ¬ LockRight s := by
  have hrun : Machine.run lockStep lateReleaseRun (locksInit 2) = some _ := rfl
  refine ⟨_, .of_run hrun, fun h => ?_⟩
  have hright := (h (by unfold Locks.Quiet; decide)).1
  revert hright
  decide

end Tkl

end Gd32
