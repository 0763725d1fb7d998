import Mathlib.Tactic.Common

/-!
# Runs of a machine

A machine is given by its step: what state an event leads to, if it can happen at all. A state
is *reached* from another when some events, one after the other, lead there, each of them meeting
a condition in the state it happens in; with the condition that always holds these are all runs.
What holds at the start and is kept by every event holds in every state reached
(`Machine.Reach.invariant`); what an event keeps exactly when it meets a condition holds all the
way exactly when all events meet it (`Machine.always_iff_meets`).
-/

namespace Machine

open Option

variable {σ ι : Type*} {step : ι → σ → Option σ} {ok ok' : σ → ι → Prop} {s t u : σ}

/-- The states reached from `s` by events that meet `ok`. -/
inductive Reach (step : ι → σ → Option σ) (ok : σ → ι → Prop) (s : σ) : σ → Prop
  | start : Reach step ok s s
  | next {t u : σ} {i : ι} : Reach step ok s t → ok t i → step i t = some u → Reach step ok s u

/-- Events one after the other. -/
def run (step : ι → σ → Option σ) : List ι → σ → Option σ
  | [], s => some s
  | i :: is, s => (step i s).bind (run step is)

variable {I : σ → Prop} {is : List ι}

/-- **What holds at the start and is kept by every event holds in every state reached.** -/
theorem Reach.invariant (h : Reach step ok s t) (h₀ : I s)
    (hstep : ∀ {t u : σ} {i : ι}, I t → ok t i → step i t = some u → I u) : I t := by
  induction h with
  | start => exact h₀
  | next _ hok hi ih => exact hstep ih hok hi

theorem Reach.trans (h : Reach step ok s t) (h' : Reach step ok t u) : Reach step ok s u := by
  induction h' with
  | start => exact h
  | next _ hi hs ih => exact ih.next hi hs

/-- A list of events that meet a condition leads to a state that is reached by such events. -/
theorem Reach.of_run_of_forall {p : ι → Prop} (h : run step is s = some t)
    (hp : ∀ i ∈ is, p i) : Reach step (fun _ i => p i) s t := by
  induction is generalizing s with
  | nil =>
    simp only [run, Option.some.injEq] at h
    exact h ▸ .start
  | cons i is ih =>
    simp only [run, bind_eq_some_iff] at h
    obtain ⟨u, hu, ht⟩ := h
    exact (Reach.start.next (hp i List.mem_cons_self) hu).trans
      (ih ht fun j hj => hp j (List.mem_cons_of_mem i hj))

/-- The events, one after the other, meet a condition in the states they happen in. -/
def Meets (step : ι → σ → Option σ) (ok : σ → ι → Prop) : List ι → σ → Prop
  | [], _ => True
  | i :: is, s => ok s i ∧ ∀ t ∈ step i s, Meets step ok is t

instance Meets.decidable [∀ s i, Decidable (ok s i)] :
    (is : List ι) → (s : σ) → Decidable (Meets step ok is s)
  | [], _ => .isTrue trivial
  | i :: is, s =>
    have : Decidable (∀ t ∈ step i s, Meets step ok is t) :=
      match step i s with
      | none => .isTrue nofun
      | some t =>
        have := Meets.decidable is t
        decidable_of_iff (Meets step ok is t) (by simp)
    inferInstanceAs (Decidable (ok s i ∧ ∀ t ∈ step i s, Meets step ok is t))

theorem Reach.of_run_of_meets (h : run step is s = some t)
    (hok : Meets step ok is s) : Reach step ok s t := by
  induction is generalizing s with
  | nil =>
    simp only [run, Option.some.injEq] at h
    exact h ▸ .start
  | cons i is ih =>
    simp only [run, bind_eq_some_iff] at h
    obtain ⟨u, hu, ht⟩ := h
    exact (Reach.start.next hok.1 hu).trans (ih ht (hok.2 u hu))

/-- A list of events leads to a state that is reached. -/
theorem Reach.of_run (h : run step is s = some t) :
    Reach step (fun _ _ => True) s t :=
  .of_run_of_forall h fun _ _ => trivial

/-- **What an event meets exactly when it meets another condition**, in states that are kept, all
events meet exactly when they meet the other one. -/
theorem meets_congr (h : run step is s = some t) (h₀ : I s)
    (hstep : ∀ {u v : σ} {i : ι}, I u → step i u = some v → I v ∧ (ok u i ↔ ok' u i)) :
    Meets step ok is s ↔ Meets step ok' is s := by
  induction is generalizing s with
  | nil => exact Iff.rfl
  | cons i is ih =>
    simp only [run, bind_eq_some_iff] at h
    obtain ⟨u, hu, ht⟩ := h
    obtain ⟨hI, hiff⟩ := hstep h₀ hu
    simp only [Meets, hu, mem_some_iff, forall_eq', hiff, ih ht hI]

/-- A condition holds in every state on the way. -/
def Always (step : ι → σ → Option σ) (I : σ → Prop) : List ι → σ → Prop
  | [], s => I s
  | i :: is, s => I s ∧ ∀ t ∈ step i s, Always step I is t

theorem Always.start (h : Always step I is s) : I s := by
  cases is with
  | nil => exact h
  | cons i is => exact h.1

/-- What every event keeps holds all the way. -/
theorem always_of_step (h₀ : I s)
    (hstep : ∀ {u v : σ} {i : ι}, I u → step i u = some v → I v) : Always step I is s := by
  induction is generalizing s with
  | nil => exact h₀
  | cons i is ih => exact ⟨h₀, fun t ht => ih (hstep h₀ ht)⟩

/-- **What an event keeps exactly when it meets a condition**, in states that are kept, holds all the
way exactly when all events meet that condition. -/
theorem always_iff_meets_of_kept {K : σ → Prop} (h : run step is s = some t)
    (hK : K s) (h₀ : I s)
    (hstep : ∀ {u v : σ} {i : ι}, K u → I u → step i u = some v → K v ∧ (I v ↔ ok u i)) :
    Always step I is s ↔ Meets step ok is s := by
  induction is generalizing s with
  | nil => exact iff_of_true h₀ trivial
  | cons i is ih =>
    simp only [run, bind_eq_some_iff] at h
    obtain ⟨u, hu, ht⟩ := h
    obtain ⟨hKu, hiff⟩ := hstep hK h₀ hu
    simp only [Always, Meets, hu, mem_some_iff, forall_eq']
    constructor
    · rintro ⟨-, hall⟩
      exact ⟨hiff.mp hall.start, (ih ht hKu hall.start).mp hall⟩
    · rintro ⟨hok, hall⟩
      exact ⟨h₀, (ih ht hKu (hiff.mpr hok)).mpr hall⟩

/-- **What an event keeps exactly when it meets a condition** holds all the way exactly when all
events meet that condition. -/
theorem always_iff_meets (h : run step is s = some t) (h₀ : I s)
    (hstep : ∀ {u v : σ} {i : ι}, I u → step i u = some v → (I v ↔ ok u i)) :
    Always step I is s ↔ Meets step ok is s :=
  always_iff_meets_of_kept (K := fun _ => True) h trivial h₀ fun _ hI hi => ⟨trivial, hstep hI hi⟩

end Machine
