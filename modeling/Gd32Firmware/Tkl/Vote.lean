import Mathlib.Tactic.Common

/-!
# A vote against sleep

Each driver holds at most one vote for a peripheral: an `atomic_exchange` on a flag of its own
decides whether `gd32_peri_busy_inc` or `gd32_peri_busy_dec` is called, so that holding and
releasing may be repeated.
-/

namespace Gd32.Tkl

/-- The flag of a vote, with the calls made for it. -/
structure Vote where
  held : Bool
  /-- The calls of `gd32_peri_busy_inc`. -/
  incs : ℕ
  /-- The calls of `gd32_peri_busy_dec`. -/
  decs : ℕ

/-- No vote. -/
def Vote.none : Vote := ⟨false, 0, 0⟩

/-- `spi_busy_hold`, `uart_tx_vote_hold` and their like. -/
def Vote.hold (v : Vote) : Vote :=
  { v with held := true, incs := if v.held = false then v.incs + 1 else v.incs }

/-- `spi_busy_release`, `uart_tx_vote_release` and their like. -/
def Vote.release (v : Vote) : Vote :=
  { v with held := false, decs := if v.held = true then v.decs + 1 else v.decs }

@[simp] theorem Vote.held_hold (v : Vote) : v.hold.held = true := rfl

@[simp] theorem Vote.held_release (v : Vote) : v.release.held = false := rfl

end Gd32.Tkl
