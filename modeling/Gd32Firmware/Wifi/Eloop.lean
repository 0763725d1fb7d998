import Gd32Firmware.Config
import Mathlib.Data.Int.Notation
import Mathlib.Data.List.Infix
import Mathlib.Data.List.Pairwise

/-!
# The timers of the event loop

`wifi_eloop.c`: pending timeouts are kept in a list, a new one in front of the first that is
later, and the loop runs the head of the list once its time has come. Times are milliseconds in
a `uint32_t`, which wraps every 49 days. The loop compares them by the sign of their difference;
`eloop_timeout_register` compares the bare numbers. So the list is in the order of the numbers,
always, and this is the order of the deadlines exactly as long as no wrap of the clock lies
between the deadlines of two pending timeouts (`Wifi.timers_in_order_iff`).

Time here goes on without end, the clock being its remainder, and each timeout carries the
moment it is due at, of which the source holds the remainder. The list is a plain list: the
links of `dlist.c` are not modelled. The differences of `SYS_TIME_AFTER_EQ` wrap.
-/

namespace Gd32

open List

variable {ev : EloopEvent} {l : List EloopTimeout}

variable {t : EloopTimeout} {e : Eloop} {evs : List EloopEvent}

namespace Wifi

/-! ### The source -/

/-- `(int32_t)(a) - (int32_t)(b)`. -/
def s32sub (a b : ℕ) : ℤ := Int.bmod ((a : ℤ) - b) (2 ^ 32)

def sysTimeAfterEq (a b : ℕ) : Bool := decide (0 ≤ s32sub a b)

def sysTimeBefore (a b : ℕ) : Bool := decide (s32sub a b < 0)

/-- `struct eloop_timeout`; addresses are numbers. -/
structure EloopTimeout where
  /-- `time`, a `uint32_t`. -/
  time : ℕ
  eloopData : ℕ
  userData : ℕ
  handler : ℕ
  /-- The moment it is due at; no field of the source. -/
  due : ℕ
  deriving DecidableEq

/-- `struct eloop_data`, the part the timeouts need, and the time. -/
structure Eloop where
  /-- The time since the start; the clock is its remainder. -/
  now : ℕ
  timeout : List EloopTimeout
  terminate : Bool

def wifiEloopInit (now : ℕ) : Eloop := ⟨now, [], false⟩

def Eloop.sysCurrentTimeGet (e : Eloop) : ℕ := u32 e.now

/-- The insertion in `eloop_timeout_register`: in front of the first timeout that is later. -/
def insertTimeout (timeout : EloopTimeout) : List EloopTimeout → List EloopTimeout
  | [] => [timeout]
  | tmp :: l =>
    if timeout.time < tmp.time then timeout :: tmp :: l else tmp :: insertTimeout timeout l

/-- `eloop_timeout_register`; `alloc` says whether `sys_zalloc` succeeds. -/
def eloopTimeoutRegister (alloc : Bool) (msecs handler eloopData userData : ℕ) (e : Eloop) :
    ℤ × Eloop :=
  if e.terminate then (-1, e)
  else if alloc = false then (-1, e)
  else
    let timeout : EloopTimeout :=
      { time := u32 (e.sysCurrentTimeGet + msecs)
        eloopData := eloopData
        userData := userData
        handler := handler
        due := e.now + msecs }
    (0, { e with timeout := insertTimeout timeout e.timeout })

def eloopAllCtx : ℕ := 2 ^ 32 - 1

/-- The test of `eloop_timeout_cancel`. -/
def cancelHit (handler eloopData userData : ℕ) (timeout : EloopTimeout) : Bool :=
  decide (timeout.handler = handler) &&
    (decide (timeout.eloopData = eloopData) || decide (eloopData = eloopAllCtx)) &&
    (decide (timeout.userData = userData) || decide (userData = eloopAllCtx))

def eloopTimeoutCancel (handler eloopData userData : ℕ) (e : Eloop) : ℤ × Eloop :=
  if e.terminate then (-1, e)
  else
    ((e.timeout.filter (cancelHit handler eloopData userData)).length,
      { e with timeout := e.timeout.filter fun t => !cancelHit handler eloopData userData t })

/-- `eloop_timeout_handle`: the timeout whose handler is run, if one is. -/
def eloopTimeoutHandle (e : Eloop) : Option EloopTimeout × Eloop :=
  match e.timeout with
  | [] => (none, e)
  | timeout :: rest =>
    if sysTimeAfterEq e.sysCurrentTimeGet timeout.time then
      (some timeout, { e with timeout := rest })
    else (none, e)

/-- The wait `wifi_eloop_run` computes in front of each round. -/
def eloopRemain (e : Eloop) : ℕ :=
  match e.timeout with
  | [] => 0
  | timeout :: _ =>
    if sysTimeBefore e.sysCurrentTimeGet timeout.time then u32sub timeout.time e.sysCurrentTimeGet
    else 0

/-! ### Runs -/

/-- What can happen to the loop. -/
inductive EloopEvent where
  /-- `eloop_timeout_register`. -/
  | register (alloc : Bool) (msecs handler eloopData userData : ℕ)
  /-- `eloop_timeout_cancel`. -/
  | cancel (handler eloopData userData : ℕ)
  /-- `eloop_timeout_handle`. -/
  | handle
  /-- The dispatch of `ELOOP_EVENT_TERMINATE`. -/
  | terminate
  | advance (ms : ℕ)

/-- One event. -/
def EloopEvent.run (ev : EloopEvent) (e : Eloop) : Eloop :=
  match ev with
  | .register alloc msecs handler eloopData userData =>
    (eloopTimeoutRegister alloc msecs handler eloopData userData e).2
  | .cancel handler eloopData userData => (eloopTimeoutCancel handler eloopData userData e).2
  | .handle => (eloopTimeoutHandle e).2
  | .terminate => { e with terminate := true }
  | .advance ms => { e with now := e.now + ms }

/-- Events one after the other. -/
def Eloop.runs (evs : List EloopEvent) (e : Eloop) : Eloop := evs.foldl (fun e ev => ev.run e) e

/-- Delays are below `2 ^ 31`. -/
def EloopEvent.Short : EloopEvent → Prop
  | register _ msecs _ _ _ => msecs < 2 ^ 31
  | _ => True

/-- **The condition**: a new timeout is due on the same side of every wrap of the clock as the
pending ones. -/
def EloopEvent.SameSide (ev : EloopEvent) (e : Eloop) : Prop :=
  match ev with
  | .register _ msecs _ _ _ => ∀ t ∈ e.timeout, t.due / 2 ^ 32 = (e.now + msecs) / 2 ^ 32
  | _ => True

/-- A condition on each event of a run and on the state it finds. -/
def EachEvent (P : EloopEvent → Eloop → Prop) : List EloopEvent → Eloop → Prop
  | [], _ => True
  | ev :: evs, e => P ev e ∧ EachEvent P evs (ev.run e)

/-- The remaining time of a timeout: deadline minus now, as a signed difference. -/
def Eloop.remaining (e : Eloop) (t : EloopTimeout) : ℤ := s32sub t.time e.sysCurrentTimeGet

/-- The clock is at most `2 ^ 31` from every pending deadline. -/
def Eloop.Near (e : Eloop) : Prop :=
  ∀ t ∈ e.timeout, t.due ≤ e.now + 2 ^ 31 ∧ e.now ≤ t.due + 2 ^ 31

/-- **The timers are in order**: the list is ordered by remaining time, and what the loop would
run next is due and nothing pending was due earlier. -/
structure Eloop.InOrder (e : Eloop) : Prop where
  sorted : e.timeout.Pairwise fun s t => e.remaining s ≤ e.remaining t
  next : ∀ t, (eloopTimeoutHandle e).1 = some t → t.due ≤ e.now ∧ ∀ s ∈ e.timeout, t.due ≤ s.due

/-! ### What holds in every run -/

/-- The list is in the order of its numbers, which are the remainders of the deadlines, and no
deadline is `2 ^ 31` ahead. -/
structure Eloop.Listed (e : Eloop) : Prop where
  sorted : e.timeout.Pairwise fun s t => s.time ≤ t.time
  time : ∀ t ∈ e.timeout, t.time = u32 t.due
  ahead : ∀ t ∈ e.timeout, t.due < e.now + 2 ^ 31

theorem mem_insertTimeout {s : EloopTimeout} :
    s ∈ insertTimeout t l ↔ s = t ∨ s ∈ l := by
  induction l with
  | nil => simp [insertTimeout]
  | cons r l ih =>
    rw [insertTimeout]
    split
    · simp
    · simp only [mem_cons, ih]
      tauto

theorem pairwise_insertTimeout (t : EloopTimeout)
    (h : l.Pairwise fun s r => s.time ≤ r.time) :
    (insertTimeout t l).Pairwise fun s r => s.time ≤ r.time := by
  induction l with
  | nil => simp [insertTimeout]
  | cons r l ih =>
    obtain ⟨hr, hl⟩ := pairwise_cons.mp h
    rw [insertTimeout]
    split
    next hlt =>
      refine pairwise_cons.mpr ⟨fun s hs => ?_, h⟩
      rcases mem_cons.mp hs with rfl | hs
      · exact le_of_lt hlt
      · exact le_trans (le_of_lt hlt) (hr s hs)
    next hge =>
      refine pairwise_cons.mpr ⟨fun s hs => ?_, ih hl⟩
      rcases mem_insertTimeout.mp hs with rfl | hs
      · exact not_lt.mp hge
      · exact hr s hs

/-- One event keeps the list in the order of its numbers. -/
theorem Eloop.Listed.step (h : e.Listed) (hs : ev.Short) :
    (ev.run e).Listed := by
  cases ev with
  | register alloc msecs handler eloopData userData =>
    simp only [EloopEvent.run, eloopTimeoutRegister]
    split
    · exact h
    split
    · exact h
    refine ⟨pairwise_insertTimeout _ h.sorted, fun t ht => ?_, fun t ht => ?_⟩
    · rcases mem_insertTimeout.mp ht with rfl | ht
      · simp only [sysCurrentTimeGet, u32]
        omega
      · exact h.time t ht
    · rcases mem_insertTimeout.mp ht with rfl | ht
      · exact Nat.add_lt_add_left hs e.now
      · exact h.ahead t ht
  | cancel handler eloopData userData =>
    simp only [EloopEvent.run, eloopTimeoutCancel]
    split
    · exact h
    exact ⟨h.sorted.filter _, fun t ht => h.time t (mem_of_mem_filter ht),
      fun t ht => h.ahead t (mem_of_mem_filter ht)⟩
  | handle =>
    simp only [EloopEvent.run, eloopTimeoutHandle]
    split
    · exact h
    next t rest heq =>
      split
      · have hsub : ∀ s ∈ rest, s ∈ e.timeout := fun s hs => heq ▸ mem_cons_of_mem _ hs
        exact ⟨(pairwise_cons.mp (heq ▸ h.sorted)).2, fun s hs => h.time s (hsub s hs),
          fun s hs => h.ahead s (hsub s hs)⟩
      · exact h
  | terminate => exact ⟨h.sorted, h.time, h.ahead⟩
  | advance ms =>
    refine ⟨h.sorted, h.time, fun t ht => ?_⟩
    have := h.ahead t ht
    simp only [EloopEvent.run]
    omega

theorem Eloop.Listed.runs (h : e.Listed)
    (hs : ∀ ev ∈ evs, ev.Short) : (e.runs evs).Listed := by
  induction evs generalizing e with
  | nil => exact h
  | cons ev evs ih =>
    exact ih (h.step (hs ev mem_cons_self)) fun x hx => hs x (mem_cons_of_mem _ hx)

theorem wifiEloopInit_listed (now : ℕ) : (wifiEloopInit now).Listed :=
  ⟨List.Pairwise.nil, by simp [wifiEloopInit], by simp [wifiEloopInit]⟩

/-! ### When the numbers are in the order of the deadlines -/

/-- No wrap of the clock lies between two pending deadlines. -/
def Eloop.OneSide (e : Eloop) : Prop :=
  ∀ s ∈ e.timeout, ∀ t ∈ e.timeout, s.due / 2 ^ 32 = t.due / 2 ^ 32

theorem s32sub_u32 {x y : ℕ} (h1 : x < y + 2 ^ 31) (h2 : y ≤ x + 2 ^ 31) :
    s32sub (u32 x) (u32 y) = (x : ℤ) - y := by
  simp only [s32sub, Int.bmod_def, u32]
  omega

/-- Near enough, the remaining time is the time that remains. -/
theorem Eloop.Listed.remaining_eq (h : e.Listed) (hnear : e.Near)
    (ht : t ∈ e.timeout) : e.remaining t = (t.due : ℤ) - e.now := by
  rw [remaining, h.time t ht, sysCurrentTimeGet]
  exact s32sub_u32 (h.ahead t ht) (hnear t ht).2

/-- What the loop runs is due. -/
theorem Eloop.Listed.handle_due (h : e.Listed)
    (ht : (eloopTimeoutHandle e).1 = some t) :
    t.due ≤ e.now ∧ ∃ rest, e.timeout = t :: rest := by
  rw [eloopTimeoutHandle] at ht
  split at ht
  · simp at ht
  next s rest heq =>
    split at ht
    next hafter =>
      obtain rfl := Option.some.inj ht
      have hmem : s ∈ e.timeout := heq ▸ mem_cons_self
      have := h.ahead s hmem
      refine ⟨?_, rest, heq⟩
      rw [sysTimeAfterEq, decide_eq_true_eq, h.time s hmem, sysCurrentTimeGet] at hafter
      simp only [s32sub, Int.bmod_def, u32] at hafter
      omega
    next => simp at ht

/-- With no wrap between them, the deadlines are in the order of the numbers. -/
theorem Eloop.Listed.sorted_due (h : e.Listed) (hone : e.OneSide) :
    e.timeout.Pairwise fun s t => s.due ≤ t.due := by
  refine h.sorted.imp_of_mem fun {s t} hs ht hle => ?_
  rw [h.time s hs, h.time t ht, u32, u32] at hle
  have := hone s hs t ht
  omega

/-- **The timers are in order exactly when no wrap of the clock lies between two pending
deadlines.** Near the clock a wrap puts the later of the two in front. -/
theorem Eloop.Listed.inOrder_iff (h : e.Listed) (hnear : e.Near) :
    e.InOrder ↔ e.OneSide := by
  constructor
  · intro hord
    -- of two deadlines on different sides, the list has the later one in front
    have hkey : ∀ s ∈ e.timeout, ∀ t ∈ e.timeout, ¬s.due / 2 ^ 32 < t.due / 2 ^ 32 := by
      intro s hs t ht hlt
      have ht1 := h.ahead t ht
      have hs2 := (hnear s hs).2
      have hboth : e.timeout.Pairwise fun a b =>
          (a.time ≤ b.time ∧ e.remaining a ≤ e.remaining b) ∨
            (b.time ≤ a.time ∧ e.remaining b ≤ e.remaining a) :=
        (h.sorted.and hord.sorted).imp fun hab => .inl hab
      have hne : s ≠ t := fun he => by
        rw [he] at hlt
        omega
      have hsymm : Std.Symm fun a b : EloopTimeout =>
          (a.time ≤ b.time ∧ e.remaining a ≤ e.remaining b) ∨
            (b.time ≤ a.time ∧ e.remaining b ≤ e.remaining a) := ⟨fun _ _ => Or.symm⟩
      rcases hboth.forall hs ht hne with ⟨hab, -⟩ | ⟨-, hab⟩
      · rw [h.time s hs, h.time t ht, u32, u32] at hab
        omega
      · rw [h.remaining_eq hnear hs, h.remaining_eq hnear ht] at hab
        omega
    intro s hs t ht
    have := hkey s hs t ht
    have := hkey t ht s hs
    omega
  · intro hone
    have hsorted := h.sorted_due hone
    refine ⟨hsorted.imp_of_mem fun {s t} hs ht hle => ?_, fun t ht => ?_⟩
    · rw [h.remaining_eq hnear hs, h.remaining_eq hnear ht]
      omega
    · obtain ⟨hdue, rest, heq⟩ := h.handle_due ht
      refine ⟨hdue, fun s hs => ?_⟩
      rw [heq] at hsorted hs
      rcases mem_cons.mp hs with rfl | hs
      · exact le_refl _
      · exact (pairwise_cons.mp hsorted).1 s hs

theorem Eloop.Listed.remain_le (h : e.Listed) (hnear : e.Near) (hord : e.InOrder)
    (hlt : ∀ s ∈ e.timeout, e.now < s.due + 2 ^ 31) (ht : t ∈ e.timeout) :
    e.now + eloopRemain e ≤ max e.now t.due := by
  rw [eloopRemain]
  split
  next heq => simp [heq] at ht
  next s rest heq =>
    have hmem : s ∈ e.timeout := heq ▸ mem_cons_self
    have hs1 := h.ahead s hmem
    have hs2 := hlt s hmem
    have hle : s.due ≤ t.due := by
      have hsorted := h.sorted_due ((h.inOrder_iff hnear).mp hord)
      rw [heq] at hsorted ht
      rcases mem_cons.mp ht with rfl | ht
      · exact le_refl _
      · exact (pairwise_cons.mp hsorted).1 t ht
    split
    next hbefore =>
      rw [sysTimeBefore, decide_eq_true_eq, h.time s hmem, sysCurrentTimeGet] at hbefore
      simp only [s32sub, Int.bmod_def, u32] at hbefore
      have hwait : u32sub s.time e.sysCurrentTimeGet = s.due - e.now := by
        rw [h.time s hmem, sysCurrentTimeGet, u32sub, u32, u32]
        omega
      omega
    next => exact le_max_left _ _

/-- An event that meets the condition keeps the deadlines on one side. -/
theorem Eloop.OneSide.step (h : e.OneSide) (hev : ev.SameSide e) :
    (ev.run e).OneSide := by
  cases ev with
  | register alloc msecs handler eloopData userData =>
    simp only [EloopEvent.run, eloopTimeoutRegister]
    split
    · exact h
    split
    · exact h
    intro s hs t ht
    rcases mem_insertTimeout.mp hs with rfl | hs <;> rcases mem_insertTimeout.mp ht with rfl | ht
    · rfl
    · exact (hev t ht).symm
    · exact hev s hs
    · exact h s hs t ht
  | cancel handler eloopData userData =>
    simp only [EloopEvent.run, eloopTimeoutCancel]
    split
    · exact h
    exact fun s hs t ht => h s (mem_of_mem_filter hs) t (mem_of_mem_filter ht)
  | handle =>
    simp only [EloopEvent.run, eloopTimeoutHandle]
    split
    · exact h
    next r rest heq =>
      split
      · exact fun s hs t ht =>
          h s (heq ▸ mem_cons_of_mem _ hs) t (heq ▸ mem_cons_of_mem _ ht)
      · exact h
  | terminate => exact h
  | advance ms => exact h

theorem Eloop.OneSide.runs (h : e.OneSide)
    (hevs : EachEvent EloopEvent.SameSide evs e) : (e.runs evs).OneSide := by
  induction evs generalizing e with
  | nil => exact h
  | cons ev evs ih => exact ih (h.step hevs.1) hevs.2

theorem EachEvent.of_prefix {P : EloopEvent → Eloop → Prop} {p : List EloopEvent}
    (h : EachEvent P evs e) (hp : p <+: evs) : EachEvent P p e := by
  obtain ⟨rest, rfl⟩ := hp
  induction p generalizing e with
  | nil => trivial
  | cons ev p ih => exact ⟨h.1, ih h.2⟩

/-- **When the timers are in order.** In every run with short delays, in every state with the
clock near the pending deadlines, the timers are in order exactly when no wrap of the clock lies
between two of these deadlines; and they are in every such state of a run whose registrations
are all due on the same side of the wraps as what is pending. -/
theorem timers_in_order_iff (now : ℕ) {evs : List EloopEvent} (hs : ∀ ev ∈ evs, ev.Short) :
    (∀ p, p <+: evs → ((wifiEloopInit now).runs p).Near →
      (((wifiEloopInit now).runs p).InOrder ↔ ((wifiEloopInit now).runs p).OneSide)) ∧
    (EachEvent EloopEvent.SameSide evs (wifiEloopInit now) →
      ∀ p, p <+: evs → ((wifiEloopInit now).runs p).Near →
        ((wifiEloopInit now).runs p).InOrder) := by
  have hiff : ∀ p, p <+: evs → ((wifiEloopInit now).runs p).Near →
      (((wifiEloopInit now).runs p).InOrder ↔ ((wifiEloopInit now).runs p).OneSide) := by
    intro p hp hnear
    exact ((wifiEloopInit_listed now).runs fun ev hev => hs ev (hp.subset hev)).inOrder_iff hnear
  refine ⟨hiff, fun hevs p hp hnear => (hiff p hp hnear).mpr ?_⟩
  have hinit : (wifiEloopInit now).OneSide := by simp [Eloop.OneSide, wifiEloopInit]
  exact hinit.runs (hevs.of_prefix hp)

/-- **The loop wakes up in time**: in a run whose timers are in order it does not sleep past a
deadline, unless one is exactly `2 ^ 31` behind. -/
theorem eloop_wakes (now : ℕ) {evs : List EloopEvent} (hs : ∀ ev ∈ evs, ev.Short)
    (hnear : ((wifiEloopInit now).runs evs).Near) (hord : ((wifiEloopInit now).runs evs).InOrder)
    (hlt : ∀ s ∈ ((wifiEloopInit now).runs evs).timeout,
      ((wifiEloopInit now).runs evs).now < s.due + 2 ^ 31)
    {t : EloopTimeout} (ht : t ∈ ((wifiEloopInit now).runs evs).timeout) :
    ((wifiEloopInit now).runs evs).now + eloopRemain ((wifiEloopInit now).runs evs) ≤
      max ((wifiEloopInit now).runs evs).now t.due :=
  ((wifiEloopInit_listed now).runs hs).remain_le hnear hord hlt ht

theorem eloop_wakes_one : (1000 : ℕ) + eloopRemain
      ((wifiEloopInit 1000).runs [.register true 50 1 0 0]) ≤ max 1000 1050 := by
  refine @eloop_wakes 1000 [.register true 50 1 0 0] (by simp [EloopEvent.Short]) ?_ ?_ ?_
    ⟨1050, 0, 0, 1, 1050⟩ (by decide)
  · simp [Eloop.Near, Eloop.runs, EloopEvent.run, eloopTimeoutRegister, wifiEloopInit,
      insertTimeout, Eloop.sysCurrentTimeGet, u32]
  · refine ⟨by decide, fun t ht => ?_⟩
    rw [show (eloopTimeoutHandle ((wifiEloopInit 1000).runs [.register true 50 1 0 0])).1 = none
      by decide] at ht
    cases ht
  · decide

/-- Two timeouts far from a wrap, the second one earlier. -/
theorem timers_in_order_two :
    ((wifiEloopInit 1000).runs [.register true 200 1 0 0, .register true 50 2 0 0]).InOrder := by
  refine (@timers_in_order_iff 1000 [.register true 200 1 0 0, .register true 50 2 0 0]
    (by simp [EloopEvent.Short])).2 ?_ _ (prefix_refl _) ?_
  · simp [EachEvent, EloopEvent.SameSide, EloopEvent.run, eloopTimeoutRegister, wifiEloopInit,
      insertTimeout]
  · simp [Eloop.Near, Eloop.runs, EloopEvent.run, eloopTimeoutRegister, wifiEloopInit,
      insertTimeout, Eloop.sysCurrentTimeGet, u32]

/-- **The timers are not always in order**: of two timeouts registered in the last moments in
front of a wrap, the one due behind the wrap comes first; when both are due, it is run while the
other, due earlier, is pending. -/
theorem timers_not_in_order :
    ((wifiEloopInit (2 ^ 32 - 100)).runs [.register true 50 1 0 0, .register true 200 2 0 0]).Near ∧
    ¬((wifiEloopInit (2 ^ 32 - 100)).runs
      [.register true 50 1 0 0, .register true 200 2 0 0]).InOrder ∧
    ∃ s t, (eloopTimeoutHandle ((wifiEloopInit (2 ^ 32 - 100)).runs
        [.register true 50 1 0 0, .register true 200 2 0 0, .advance 300])).1 = some t ∧
      s ∈ ((wifiEloopInit (2 ^ 32 - 100)).runs
        [.register true 50 1 0 0, .register true 200 2 0 0, .advance 300]).timeout ∧
      s.due < t.due := by
  refine ⟨?_, fun h => ?_, ⟨2 ^ 32 - 50, 0, 0, 1, 2 ^ 32 - 50⟩, ⟨100, 0, 0, 2, 2 ^ 32 + 100⟩,
    by decide, by decide, by decide⟩
  · intro t ht
    simp [Eloop.runs, EloopEvent.run, eloopTimeoutRegister, wifiEloopInit, insertTimeout,
      Eloop.sysCurrentTimeGet, u32] at ht
    rcases ht with rfl | rfl <;> decide
  · exact absurd h.sorted (by decide)

end Wifi

end Gd32
