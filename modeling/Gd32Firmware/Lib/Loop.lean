import Mathlib.Data.Nat.Init
import Mathlib.Tactic.Common

/-!
# Loops that need not end

The body of a loop either goes on with a new state or leaves with a result. A loop is run for a
number of passes and has no result when it has not left by then (`Loop.runFor`); that it ends is
that some number of passes is enough. The result does not depend on the number
(`Loop.runFor_unique`), a loop that reaches a state it comes back to has none
(`Loop.runFor_of_stuck`), and one whose measure decreases has one (`Loop.exists_runFor`).

A loop over the numbers below a bound, whose body can fail, is `Loop.counted`; what holds after
`i` passes is carried along (`Loop.counted_invariant`, `Loop.exists_counted`).
-/

namespace Loop

variable {σ β : Type*} {body : σ → σ ⊕ β} {m n : ℕ} {s : σ} {r t : β}

/-- At most `n` passes. -/
def runFor (body : σ → σ ⊕ β) : ℕ → σ → Option β
  | 0, _ => none
  | n + 1, s =>
    match body s with
    | .inl s => runFor body n s
    | .inr r => some r

theorem runFor_of_inr (h : body s = .inr r) (n : ℕ) : runFor body (n + 1) s = some r := by
  rw [runFor, h]

theorem runFor_of_inl {u : σ} (h : body s = .inl u) (n : ℕ) :
    runFor body (n + 1) s = runFor body n u := by
  rw [runFor, h]

/-- More passes do not change the result. -/
theorem runFor_mono (h : runFor body m s = some r) (hmn : m ≤ n) : runFor body n s = some r := by
  induction m generalizing n s with
  | zero => cases h
  | succ m ih =>
    obtain ⟨n, rfl⟩ : ∃ k, n = k + 1 := ⟨n - 1, by omega⟩
    rcases hb : body s with u | q
    · rw [runFor_of_inl hb] at h ⊢
      exact ih h (by omega)
    · rw [runFor_of_inr hb] at h ⊢
      exact h

/-- **A loop has one result.** -/
theorem runFor_unique (h : runFor body m s = some r) (h' : runFor body n s = some t) : r = t := by
  have hr := runFor_mono h (Nat.le_max_left m n)
  rw [runFor_mono h' (Nat.le_max_right m n)] at hr
  exact (Option.some.inj hr).symm

/-- **A loop that stays where it is never ends.** -/
theorem runFor_of_stuck {P : σ → Prop} (hP : ∀ u, P u → ∃ v, body u = .inl v ∧ P v) (h : P s)
    (n : ℕ) : runFor body n s = none := by
  induction n generalizing s with
  | zero => rfl
  | succ n ih =>
    obtain ⟨v, hv, hPv⟩ := hP s h
    rw [runFor_of_inl hv]
    exact ih hPv

/-- **A loop ends in `Q`** when every pass leaves in `Q` or keeps `P` and decreases a measure. -/
theorem exists_runFor {P : σ → Prop} {Q : β → Prop} (μ : σ → ℕ)
    (hP : ∀ u, P u → (∃ q, body u = .inr q ∧ Q q) ∨ ∃ v, body u = .inl v ∧ P v ∧ μ v < μ u)
    (h : P s) : ∃ n q, runFor body n s = some q ∧ Q q := by
  induction hn : μ s using Nat.strong_induction_on generalizing s with
  | _ k ih =>
  rcases hP s h with ⟨q, hq, hQ⟩ | ⟨v, hv, hPv, hlt⟩
  · exact ⟨1, q, runFor_of_inr hq 0, hQ⟩
  · obtain ⟨n, q, hrun, hQ⟩ := ih (μ v) (by omega) hPv rfl
    exact ⟨n + 1, q, by rw [runFor_of_inl hv, hrun], hQ⟩

/-! ### Counted loops -/

/-- The body for `0`, `1`, ... below a bound, which ends when the body fails. -/
def counted (step : ℕ → σ → Option σ) : ℕ → σ → Option σ
  | 0, s => some s
  | n + 1, s => (counted step n s).bind (step n)

variable {step : ℕ → σ → Option σ} {P : ℕ → σ → Prop} {u : σ}

/-- **What every pass keeps holds at the end.** -/
theorem counted_invariant (h : counted step n s = some u) (h₀ : P 0 s)
    (hstep : ∀ {i : ℕ} {v w : σ}, i < n → P i v → step i v = some w → P (i + 1) w) : P n u := by
  induction n generalizing u with
  | zero =>
    obtain rfl := Option.some.inj h
    exact h₀
  | succ n ih =>
    obtain ⟨v, hv, hu⟩ := Option.bind_eq_some_iff.mp h
    exact hstep n.lt_succ_self (ih hv fun hi => hstep (Nat.lt_trans hi n.lt_succ_self)) hu

/-- **The loop goes through** when every pass does. -/
theorem exists_counted (h₀ : P 0 s)
    (hstep : ∀ {i : ℕ} {v : σ}, i < n → P i v → ∃ w, step i v = some w ∧ P (i + 1) w) :
    ∃ u, counted step n s = some u ∧ P n u := by
  induction n with
  | zero => exact ⟨s, rfl, h₀⟩
  | succ n ih =>
    obtain ⟨v, hv, hP⟩ := ih fun hi => hstep (Nat.lt_trans hi n.lt_succ_self)
    obtain ⟨w, hw, hP⟩ := hstep n.lt_succ_self hP
    exact ⟨w, by rw [counted, hv, Option.bind_some, hw], hP⟩

end Loop
